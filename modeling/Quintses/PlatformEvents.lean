import Quintses.Messages
import Mathlib.Data.List.Basic

/-! The key events of `client/localclient_x11.cpp`: which keys are held down, and
what the server is told of it. -/

namespace Quintses

/-- `ServerInputMsg::State` -/
inductive InputState
  | strafeLeft
  | strafeRight
  | walkForward
  | walkReverse
  | turnLeft
  | turnRight
  | jump
  | shoot
  deriving DecidableEq

namespace InputState

def bit : InputState → Nat
  | strafeLeft => 0
  | strafeRight => 1
  | walkForward => 2
  | walkReverse => 3
  | turnLeft => 4
  | turnRight => 5
  | jump => 6
  | shoot => 7

def mask (key : InputState) : UInt16 := 1 <<< key.bit.toUInt16

end InputState

/-- An event as `XCheckIfEvent` delivers it; of a key event the symbol that
`XKeycodeToKeysym` finds for its key code. -/
inductive XEvent
  | clientMessage (messageType data : UInt64)
  | keyRelease (keysym : UInt64)
  | keyPress (keysym : UInt64)
  | other (type : Int32)
  deriving DecidableEq

/-- The atoms that `initializePlatform` has interned. -/
structure XAtoms where
  wmProtocols : UInt64
  wmDeleteWindow : UInt64

/-- `keymap` and `keyPress` belong to the whole program. -/
structure PlatformState where
  keymap : UInt16
  keyPress : Bool
  finished : Bool
  pushed : List ServerMsg
  deriving DecidableEq

namespace PlatformState

def new : PlatformState := ⟨0, false, false, []⟩

variable (st : PlatformState)

def adjustKeysym (key : UInt16) : PlatformState :=
  { st with keymap := if st.keyPress then st.keymap ||| key else st.keymap &&& ~~~key }

/-- From the label `ProcessKey` on; the flag is `keys_changed`. -/
def processKey (keysChanged : Bool) (keysym : UInt64) : PlatformState × Bool :=
  match keysym with
  | 0xff51 => (st.adjustKeysym InputState.strafeLeft.mask, true)
  | 0xff53 => (st.adjustKeysym InputState.strafeRight.mask, true)
  | 0x20 => (st.adjustKeysym InputState.shoot.mask, true)
  | _ => (st, keysChanged)

def handleEvent (atoms : XAtoms) : PlatformState × Bool → XEvent → PlatformState × Bool
  | (st, keysChanged), .clientMessage messageType data =>
    if messageType = atoms.wmProtocols ∧ data = atoms.wmDeleteWindow then
      ({ st with finished := true }, keysChanged)
    else (st, keysChanged)
  | (st, keysChanged), .keyRelease keysym => { st with keyPress := false }.processKey keysChanged keysym
  | (st, keysChanged), .keyPress keysym => { st with keyPress := true }.processKey keysChanged keysym
  | (st, keysChanged), .other _ => (st, keysChanged)

def platformEvents (atoms : XAtoms) (self : ClientPtr) (st : PlatformState) (events : List XEvent) :
    PlatformState :=
  let (st, keysChanged) := events.foldl (handleEvent atoms) (st, false)
  if keysChanged then { st with pushed := st.pushed ++ [.input self st.keymap] } else st

end PlatformState

/-- The key that a symbol stands for, if it is one that the client looks at. -/
def keyOf (keysym : UInt64) : Option InputState :=
  if keysym = 0xff51 then some .strafeLeft
  else if keysym = 0xff53 then some .strafeRight
  else if keysym = 0x20 then some .shoot
  else none

/-- The key that the event is about and whether it is pressed. -/
def XEvent.keyEvent? : XEvent → Option (InputState × Bool)
  | .keyPress keysym => (keyOf keysym).map (·, true)
  | .keyRelease keysym => (keyOf keysym).map (·, false)
  | .clientMessage _ _ | .other _ => none

def lastKeyEvent (key : InputState) (events : List XEvent) : Option Bool :=
  ((events.filterMap XEvent.keyEvent?).filter (fun e => e.1 = key)).getLast?.map Prod.snd

def InputState.Watched (key : InputState) : Prop := key = strafeLeft ∨ key = strafeRight ∨ key = shoot

def ServerMsg.state? : ServerMsg → Option UInt16
  | .input _ state => some state
  | .shutdown _ | .loadPlayer _ _ | .bullet _ => none

namespace InputState

theorem getLsbD_mask (key : InputState) (i : Nat) : key.mask.toBitVec.getLsbD i = decide (key.bit = i) := by
  have hmask : key.mask.toBitVec = BitVec.twoPow 16 key.bit := by cases key <;> rfl
  have hbit : key.bit < 16 := by cases key <;> decide
  rw [hmask, BitVec.getLsbD_twoPow]
  simp [hbit]

theorem bit_inj {key key' : InputState} (h : key.bit = key'.bit) : key = key' := by
  cases key <;> cases key' <;> first | rfl | cases h

end InputState

theorem lastKeyEvent_append (key : InputState) (events : List XEvent) (e : XEvent) :
    lastKeyEvent key (events ++ [e]) =
      match e.keyEvent? with
      | some (key', pressed) => if key' = key then some pressed else lastKeyEvent key events
      | none => lastKeyEvent key events := by
  unfold lastKeyEvent
  rw [List.filterMap_append, List.filter_append]
  cases he : e.keyEvent? with
  | none => simp [he]
  | some r =>
    obtain ⟨key', pressed⟩ := r
    by_cases hkey : key' = key
    · simp [he, hkey]
    · simp [he, hkey]

theorem watched_of_lastKeyEvent {key : InputState} {events : List XEvent} {pressed : Bool}
    (h : lastKeyEvent key events = some pressed) : key.Watched := by
  obtain ⟨⟨key', pressed'⟩, hlast, rfl⟩ := Option.map_eq_some_iff.mp h
  have hmem := List.mem_filter.mp (List.mem_of_getLast? hlast)
  obtain ⟨e, -, he⟩ := List.mem_filterMap.mp hmem.1
  obtain rfl : key' = key := by simpa using hmem.2
  have hkey : ∃ keysym, keyOf keysym = some key' := by
    cases e with
    | keyPress keysym =>
      obtain ⟨k, hk, hpair⟩ := Option.map_eq_some_iff.mp he
      exact ⟨keysym, hk.trans (congrArg some (congrArg Prod.fst hpair))⟩
    | keyRelease keysym =>
      obtain ⟨k, hk, hpair⟩ := Option.map_eq_some_iff.mp he
      exact ⟨keysym, hk.trans (congrArg some (congrArg Prod.fst hpair))⟩
    | clientMessage messageType data => cases he
    | other type => cases he
  obtain ⟨keysym, hk⟩ := hkey
  unfold keyOf at hk
  unfold InputState.Watched
  split_ifs at hk <;> cases hk <;> simp

namespace PlatformState

variable {atoms : XAtoms} {st : PlatformState} {keysChanged : Bool} {events : List XEvent} {e : XEvent}

theorem getLsbD_adjustKeysym (key : InputState) (i : Nat) :
    (st.adjustKeysym key.mask).keymap.toBitVec.getLsbD i =
      if key.bit = i then st.keyPress else st.keymap.toBitVec.getLsbD i := by
  have hlt (hi : key.bit = i) : i < 16 := by
    rw [← hi]
    cases key <;> decide
  unfold adjustKeysym
  cases hpress : st.keyPress with
  | true =>
    simp only [if_true, UInt16.toBitVec_or, BitVec.getLsbD_or, key.getLsbD_mask]
    by_cases hi : key.bit = i <;> simp [hi]
  | false =>
    simp only [Bool.false_eq_true, if_false, UInt16.toBitVec_and, UInt16.toBitVec_not, BitVec.getLsbD_and,
      BitVec.getLsbD_not, key.getLsbD_mask]
    by_cases hi : key.bit = i
    · simp [hi]
    · by_cases hw : i < 16
      · simp [hi, hw]
      · simp [hi, BitVec.getLsbD_of_ge _ _ (Nat.le_of_not_lt hw)]

theorem processKey_eq (keysym : UInt64) : st.processKey keysChanged keysym =
    match keyOf keysym with
    | some key => (st.adjustKeysym key.mask, true)
    | none => (st, keysChanged) := by
  unfold processKey
  split
  case h_1 => rfl
  case h_2 => rfl
  case h_3 => rfl
  case h_4 hleft hright hspace => rw [keyOf, if_neg hleft, if_neg hright, if_neg hspace]

/-- An event that is about none of the keys leaves `keymap` alone, and every
other one is noted in `keys_changed`. -/
theorem handleEvent_eq (atoms : XAtoms) (st : PlatformState) (keysChanged : Bool) (e : XEvent) :
    ((handleEvent atoms (st, keysChanged) e).1.pushed = st.pushed) ∧
    match e.keyEvent? with
    | some (key, pressed) =>
      (handleEvent atoms (st, keysChanged) e).1.keymap =
        ({ st with keyPress := pressed }.adjustKeysym key.mask).keymap ∧
      (handleEvent atoms (st, keysChanged) e).2 = true
    | none =>
      (handleEvent atoms (st, keysChanged) e).1.keymap = st.keymap ∧
      (handleEvent atoms (st, keysChanged) e).2 = keysChanged := by
  cases e with
  | clientMessage messageType data =>
    simp only [handleEvent, XEvent.keyEvent?]
    split_ifs <;> exact ⟨rfl, rfl, rfl⟩
  | other type => exact ⟨rfl, rfl, rfl⟩
  | keyRelease keysym =>
    simp only [handleEvent, XEvent.keyEvent?, processKey_eq]
    cases keyOf keysym <;> exact ⟨rfl, rfl, rfl⟩
  | keyPress keysym =>
    simp only [handleEvent, XEvent.keyEvent?, processKey_eq]
    cases keyOf keysym <;> exact ⟨rfl, rfl, rfl⟩

/-- Which keys are down, as the events so far have it. -/
def Held (events : List XEvent) (st : PlatformState) : Prop :=
  ∀ i, st.keymap.toBitVec.getLsbD i = true ↔ ∃ key, key.bit = i ∧ lastKeyEvent key events = some true

theorem held_new : Held [] new := by
  intro i
  simp [new, lastKeyEvent]

theorem Held.handleEvent (h : Held events st) (atoms : XAtoms) (keysChanged : Bool) (e : XEvent) :
    Held (events ++ [e]) (handleEvent atoms (st, keysChanged) e).1 := by
  intro i
  have heq := (handleEvent_eq atoms st keysChanged e).2
  simp only [lastKeyEvent_append]
  cases he : e.keyEvent? with
  | none =>
    rw [he] at heq
    rw [heq.1]
    exact h i
  | some r =>
    obtain ⟨key, pressed⟩ := r
    rw [he] at heq
    rw [heq.1, getLsbD_adjustKeysym]
    by_cases hi : key.bit = i
    · rw [if_pos hi]
      constructor
      · intro hp
        exact ⟨key, hi, by simpa using hp⟩
      · rintro ⟨key', hbit, hlast⟩
        obtain rfl : key = key' := InputState.bit_inj (hi.trans hbit.symm)
        simpa using hlast
    · have hne (key' : InputState) (hbit : key'.bit = i) : key ≠ key' := fun hk => hi (hk ▸ hbit)
      rw [if_neg hi]
      refine (h i).trans ⟨?_, ?_⟩
      · rintro ⟨key', hbit, hlast⟩
        exact ⟨key', hbit, by simpa [hne key' hbit] using hlast⟩
      · rintro ⟨key', hbit, hlast⟩
        exact ⟨key', hbit, by simpa [hne key' hbit] using hlast⟩

theorem foldl_handleEvent (atoms : XAtoms) (h : Held events st) (batch : List XEvent) (keysChanged : Bool) :
    Held (events ++ batch) (batch.foldl (PlatformState.handleEvent atoms) (st, keysChanged)).1 ∧
      (batch.foldl (PlatformState.handleEvent atoms) (st, keysChanged)).1.pushed = st.pushed ∧
      ((batch.foldl (PlatformState.handleEvent atoms) (st, keysChanged)).2 = false →
        (batch.foldl (PlatformState.handleEvent atoms) (st, keysChanged)).1.keymap = st.keymap ∧
          keysChanged = false) := by
  induction batch generalizing st keysChanged events with
  | nil => exact ⟨by simpa using h, rfl, fun hc => ⟨rfl, hc⟩⟩
  | cons e batch ih =>
    obtain ⟨hpushed, heq⟩ := handleEvent_eq atoms st keysChanged e
    obtain ⟨hheld, hkept, hsame⟩ := ih (h.handleEvent atoms keysChanged e)
      (PlatformState.handleEvent atoms (st, keysChanged) e).2
    refine ⟨by simpa using hheld, hkept.trans hpushed, fun hc => ?_⟩
    obtain ⟨hmap, hno⟩ := hsame hc
    cases he : e.keyEvent? with
    | none =>
      rw [he] at heq
      exact ⟨hmap.trans heq.1, heq.2.symm.trans hno⟩
    | some r =>
      rw [he] at heq
      rw [heq.2] at hno
      cases hno

/-- The bits of the keys are as their last events have left them, no other bit
is set, and the server has been told. -/
structure Tracks (events : List XEvent) (st : PlatformState) : Prop where
  watched : ∀ key : InputState, key.Watched →
    (st.keymap.toBitVec.getLsbD key.bit = true ↔ lastKeyEvent key events = some true)
  others : ∀ i, (∀ key : InputState, key.Watched → key.bit ≠ i) → st.keymap.toBitVec.getLsbD i = false
  told : st.keymap = (st.pushed.filterMap ServerMsg.state?).getLast?.getD 0

theorem Held.tracks (h : Held events st)
    (htold : st.keymap = (st.pushed.filterMap ServerMsg.state?).getLast?.getD 0) : Tracks events st := by
  refine ⟨fun key _ => (h key.bit).trans ⟨?_, fun hlast => ⟨key, rfl, hlast⟩⟩, fun i hi => ?_, htold⟩
  · rintro ⟨key', hbit, hlast⟩
    exact InputState.bit_inj hbit ▸ hlast
  · refine Bool.eq_false_iff.mpr (fun hset => ?_)
    obtain ⟨key, hbit, hlast⟩ := (h i).mp hset
    exact hi key (watched_of_lastKeyEvent hlast) hbit

theorem tracks_new : Tracks [] new := held_new.tracks rfl

theorem Tracks.held (h : Tracks events st) : Held events st := by
  intro i
  by_cases hi : ∃ key : InputState, key.Watched ∧ key.bit = i
  · obtain ⟨key, hw, rfl⟩ := hi
    refine (h.watched key hw).trans ⟨fun hlast => ⟨key, rfl, hlast⟩, ?_⟩
    rintro ⟨key', hbit, hlast⟩
    exact InputState.bit_inj hbit ▸ hlast
  · have hclear := h.others i (fun key hw hbit => hi ⟨key, hw, hbit⟩)
    rw [hclear]
    refine ⟨fun he => (by cases he), ?_⟩
    rintro ⟨key, hbit, hlast⟩
    exact absurd ⟨key, watched_of_lastKeyEvent hlast, hbit⟩ hi

variable {self : ClientPtr}

/-- One call: the server is told once if one of the keys had an event. -/
theorem platformEvents_tracks (h : Tracks events st) (batch : List XEvent) :
    Tracks (events ++ batch) (platformEvents atoms self st batch) ∧
      ∃ msgs, msgs.length ≤ 1 ∧ (platformEvents atoms self st batch).pushed = st.pushed ++ msgs := by
  obtain ⟨hheld, hpushed, hsame⟩ := foldl_handleEvent atoms h.held batch false
  unfold platformEvents
  cases hc : (batch.foldl (PlatformState.handleEvent atoms) (st, false)).2 with
  | true =>
    simp only [hc, if_true]
    refine ⟨Held.tracks hheld ?_, [_], le_refl 1, by rw [hpushed]⟩
    simp [List.filterMap_append, ServerMsg.state?]
  | false =>
    simp only [hc, Bool.false_eq_true, if_false]
    refine ⟨hheld.tracks ?_, [], Nat.zero_le 1, by rw [hpushed, List.append_nil]⟩
    rw [(hsame hc).1, hpushed]
    exact h.told

/-- After every call, whatever events the calls have drained. -/
theorem keymap_tracks (atoms : XAtoms) (self : ClientPtr) (batches : List (List XEvent)) :
    Tracks batches.flatten (batches.foldl (platformEvents atoms self) new) ∧
      ∀ batch, ∃ msgs, msgs.length ≤ 1 ∧
        ((batches ++ [batch]).foldl (platformEvents atoms self) new).pushed =
          (batches.foldl (platformEvents atoms self) new).pushed ++ msgs := by
  have htracks : Tracks batches.flatten (batches.foldl (platformEvents atoms self) new) := by
    induction batches using List.reverseRecOn with
    | nil => exact tracks_new
    | append_singleton batches batch ih =>
      rw [List.flatten_append, List.foldl_append]
      simpa using (platformEvents_tracks ih batch).1
  refine ⟨htracks, fun batch => ?_⟩
  rw [List.foldl_append]
  exact (platformEvents_tracks htracks batch).2

end PlatformState

end Quintses
