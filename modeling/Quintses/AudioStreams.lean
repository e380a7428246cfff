import Quintses.Lts
import Quintses.StdMap
import Mathlib.Order.Nat

/-! The streams that `AlAudio::run` keeps playing, from `client/openal`. All of
them share the one `previous_result` of `StreamingFile::update`. -/

namespace Quintses

open Lts

/-- The calls on the buffers of a source; a buffer is named by its index. -/
inductive AlCall
  | unqueue (buffer : Bool)
  | bufferData (buffer : Bool) (len : Nat)
  | queue (buffer : Bool)
  deriving DecidableEq

/-- A `StreamingWav` after its headers: `len` bytes of data, the next read at `pos`. -/
structure StreamingWav where
  nextBuffer : Bool
  pos : Nat
  len : Nat
  deriving DecidableEq

def bufferLen : Nat := 65536

namespace StreamingWav

def readHeaders (len : Nat) : StreamingWav := ⟨false, 0, len⟩

variable (f : StreamingWav)

def readyNextBuffer : Bool × StreamingWav × List AlCall :=
  let remaining := f.len - f.pos
  if remaining = 0 then (false, f, [])
  else
    let bufsize := if remaining < bufferLen then remaining else bufferLen
    (true, { f with pos := f.pos + bufsize, nextBuffer := !f.nextBuffer }, [.bufferData f.nextBuffer bufsize])

/-- Two buffers are filled before the source starts. -/
def play (len : Nat) : StreamingWav := (readHeaders len).readyNextBuffer.2.1.readyNextBuffer.2.1

/-- The result, the new value of the static `previous_result` and the calls;
`val` is the number of processed buffers that OpenAL reports. -/
def update (previousResult : Bool) (val : Int) : Bool × Bool × StreamingWav × List AlCall :=
  if val ≠ 0 then
    let nextbuf := f.nextBuffer
    let (newResult, f, calls) := f.readyNextBuffer
    let calls := .unqueue nextbuf :: calls ++ (if newResult then [.queue nextbuf] else [])
    if !newResult && !previousResult then (false, previousResult, f, calls)
    else (true, newResult, f, calls)
  else (true, previousResult, f, [])

def Drained : Prop := f.len - f.pos = 0

instance : Decidable f.Drained := inferInstanceAs (Decidable (_ = _))

/-- The results of the updates of the only stream there is, up to the one that
ends it. -/
def alone : StreamingWav → Bool → List Int → List Bool
  | _, _, [] => []
  | f, previousResult, val :: vals =>
    let r := f.update previousResult val
    r.1 :: (if r.1 then alone r.2.2.1 r.2.1 vals else [])

def after : StreamingWav → Bool → List Int → StreamingWav × Bool
  | f, previousResult, [] => (f, previousResult)
  | f, previousResult, val :: vals =>
    let r := f.update previousResult val
    after r.2.2.1 r.2.1 vals

end StreamingWav

/-- A stream with the answers of OpenAL so far and what its updates returned. -/
structure Stream where
  file : StreamingWav
  updates : List (Int × Bool)
  deriving DecidableEq

/-- The set of streams is ordered by address; `i` is the iterator of the loop,
`none` at the end of the set. -/
structure AlAudio where
  streams : StdMap Nat Stream
  i : Option Nat
  previousResult : Bool
  ended : List Stream

namespace Stream

def answers (stream : Stream) : List Int := stream.updates.map Prod.fst

def results (stream : Stream) : List Bool := stream.updates.map Prod.snd

/-- The results are those of the only stream that a process ever plays. -/
def Undisturbed (stream : Stream) : Prop :=
  stream.results = (StreamingWav.play stream.file.len).alone true stream.answers

/-- What `previous_result` would be if this were the only stream. -/
def ownPrevious (stream : Stream) : Bool := ((StreamingWav.play stream.file.len).after true stream.answers).2

end Stream

namespace AlAudio

inductive Action
  /-- A new stream at this address, with this many bytes of data. -/
  | play (p : Nat) (len : Nat)
  /-- The loop updates the next stream; the answer of OpenAL. -/
  | update (val : Int)
  deriving DecidableEq

def init : AlAudio := ⟨StdMap.empty, none, true, []⟩

def begin (s : AlAudio) : Option Nat := s.streams.keys.head?

def next (s : AlAudio) (p : Nat) : Option Nat := (s.streams.keys.filter (p < ·)).head?

/-- The loop starts again at the end of the set. -/
def current (s : AlAudio) : Option Nat := s.i.orElse (fun _ => s.begin)

def step (s : AlAudio) : Action → Option AlAudio
  | .play p len =>
    if s.streams.contains p then none
    else some { s with streams := s.streams.assign p ⟨.play len, []⟩ }
  | .update val => do
    let p ← s.current
    let stream ← s.streams.find? p
    let (result, previousResult, file, _) := stream.file.update s.previousResult val
    let stream := { file, updates := stream.updates ++ [(val, result)] }
    let s := { s with i := s.next p, previousResult }
    if result then return { s with streams := s.streams.assign p stream }
    else return { s with streams := s.streams.erase p, ended := stream :: s.ended }

/-- No stream notices that there are others. -/
structure Independent (s : AlAudio) : Prop where
  playing : ∀ p stream, s.streams.find? p = some stream → stream.Undisturbed
  ended : ∀ stream ∈ s.ended, stream.Undisturbed

/-- A stream that is asked for data when it has none finds in the static what
its own last such call left there. -/
def OwnOutcome (s : AlAudio) : Action → Prop
  | .play _ _ => True
  | .update val => ∀ p ∈ s.current, ∀ stream ∈ s.streams.find? p,
    val ≠ 0 → stream.file.Drained → s.previousResult = stream.ownPrevious

instance (s : AlAudio) (a : Action) : Decidable (s.OwnOutcome a) :=
  match a with
  | .play _ _ => inferInstanceAs (Decidable True)
  | .update val =>
    @Option.decidableForallMem _ _ (fun p => @Option.decidableForallMem _ _ (fun stream =>
      inferInstanceAs (Decidable (val ≠ 0 → stream.file.Drained → s.previousResult = stream.ownPrevious)))
        (s.streams.find? p)) s.current

end AlAudio

namespace StreamingWav

variable {f : StreamingWav} {previousResult : Bool} {val : Int} {vals : List Int}

theorem readyNextBuffer_drained (h : f.Drained) : f.readyNextBuffer = (false, f, []) := by
  have hzero : f.len - f.pos = 0 := h
  simp [readyNextBuffer, hzero]

theorem readyNextBuffer_fst (h : ¬ f.Drained) : f.readyNextBuffer.1 = true := by
  have hmore : ¬ f.len - f.pos = 0 := h
  simp [readyNextBuffer, hmore]

theorem readyNextBuffer_len (f : StreamingWav) : f.readyNextBuffer.2.1.len = f.len := by
  simp only [readyNextBuffer]
  split <;> rfl

@[simp] theorem play_len (len : Nat) : (play len).len = len := by
  rw [play, readyNextBuffer_len, readyNextBuffer_len, readHeaders]

/-- Only an update that reads no data looks at the static. -/
theorem update_fst (f : StreamingWav) (previousResult : Bool) (val : Int) :
    (f.update previousResult val).1 = (if val ≠ 0 ∧ f.Drained then previousResult else true) := by
  by_cases hval : val = 0
  · simp [update, hval]
  · by_cases hd : f.Drained
    · cases previousResult <;> simp [update, hval, hd, readyNextBuffer_drained hd]
    · have hnew := readyNextBuffer_fst hd
      simp [update, hval, hd, hnew]

theorem update_file (f : StreamingWav) (previousResult : Bool) (val : Int) :
    (f.update previousResult val).2.2.1 = if val ≠ 0 then f.readyNextBuffer.2.1 else f := by
  by_cases hval : val = 0
  · simp [update, hval]
  · simp only [update, hval, ne_eq, not_false_eq_true, if_true]
    split <;> rfl

theorem update_len (f : StreamingWav) (previousResult : Bool) (val : Int) :
    (f.update previousResult val).2.2.1.len = f.len := by
  rw [update_file]
  split
  · exact readyNextBuffer_len f
  · rfl

theorem after_append (f : StreamingWav) (previousResult : Bool) (vals : List Int) (val : Int) :
    f.after previousResult (vals ++ [val]) =
      let st := f.after previousResult vals
      ((st.1.update st.2 val).2.2.1, (st.1.update st.2 val).2.1) := by
  induction vals generalizing f previousResult with
  | nil => rfl
  | cons v vals ih => exact ih _ _

theorem alone_append (hlive : ∀ r ∈ f.alone previousResult vals, r = true) :
    f.alone previousResult (vals ++ [val]) = f.alone previousResult vals ++
      [((f.after previousResult vals).1.update (f.after previousResult vals).2 val).1] := by
  induction vals generalizing f previousResult with
  | nil =>
    simp only [List.nil_append, alone, after]
    split <;> rfl
  | cons v vals ih =>
    have hv : (f.update previousResult v).1 = true := hlive _ List.mem_cons_self
    have hrest (r : Bool)
        (hr : r ∈ alone (f.update previousResult v).2.2.1 (f.update previousResult v).2.1 vals) : r = true := by
      refine hlive r (List.mem_cons_of_mem _ ?_)
      simpa [hv] using hr
    simp only [List.cons_append, alone, hv, if_true, after]
    rw [ih hrest]

end StreamingWav

namespace AlAudio

variable {s s' : AlAudio} {a : Action}

/-- Besides, each playing stream is where it would be alone and has not ended. -/
structure Apart (s : AlAudio) : Prop where
  independent : s.Independent
  file : ∀ p stream, s.streams.find? p = some stream →
    stream.file = ((StreamingWav.play stream.file.len).after true stream.answers).1
  live : ∀ p stream, s.streams.find? p = some stream → ∀ r ∈ stream.results, r = true

theorem apart_init : init.Apart := by
  refine ⟨⟨fun p stream h => ?_, fun stream h => ?_⟩, fun p stream h => ?_, fun p stream h => ?_⟩ <;> cases h

def updated (stream : Stream) (previousResult : Bool) (val : Int) : Stream :=
  ⟨(stream.file.update previousResult val).2.2.1,
    stream.updates ++ [(val, (stream.file.update previousResult val).1)]⟩

theorem step_cases (h : step s a = some s') :
    (∃ p len, a = .play p len ∧ s.streams.find? p = none ∧
      s' = { s with streams := s.streams.assign p ⟨.play len, []⟩ }) ∨
    ∃ val p stream, a = .update val ∧ s.current = some p ∧ s.streams.find? p = some stream ∧
      s'.i = s.next p ∧ s'.previousResult = (stream.file.update s.previousResult val).2.1 ∧
      (((stream.file.update s.previousResult val).1 = true ∧ s'.ended = s.ended ∧
        s'.streams = s.streams.assign p (updated stream s.previousResult val)) ∨
      ((stream.file.update s.previousResult val).1 = false ∧
        s'.ended = updated stream s.previousResult val :: s.ended ∧ s'.streams = s.streams.erase p)) := by
  cases a with
  | play p len =>
    simp only [step] at h
    split at h
    · cases h
    · rename_i hno
      cases h
      have hnone : s.streams.find? p = none := by simpa [StdMap.contains] using hno
      exact Or.inl ⟨p, len, rfl, hnone, rfl⟩
  | update val =>
    cases hp : s.current with
    | none => simp [step, hp] at h
    | some p =>
      cases hf : s.streams.find? p with
      | none => simp [step, hp, hf] at h
      | some stream =>
        refine Or.inr ⟨val, p, stream, rfl, rfl, hf, ?_⟩
        simp only [step, hp, hf, Option.bind_eq_bind, Option.bind_some] at h
        split at h
        · cases h
          exact ⟨rfl, rfl, Or.inl ⟨by assumption, rfl, rfl⟩⟩
        · cases h
          exact ⟨rfl, rfl, Or.inr ⟨Bool.eq_false_iff.mpr (by assumption), rfl, rfl⟩⟩

theorem results_updated (stream : Stream) (previousResult : Bool) (val : Int) :
    (updated stream previousResult val).results =
      stream.results ++ [(stream.file.update previousResult val).1] := by
  simp [Stream.results, updated]

theorem answers_updated (stream : Stream) (previousResult : Bool) (val : Int) :
    (updated stream previousResult val).answers = stream.answers ++ [val] := by
  simp [Stream.answers, updated]

theorem len_updated (stream : Stream) (previousResult : Bool) (val : Int) :
    (updated stream previousResult val).file.len = stream.file.len :=
  StreamingWav.update_len stream.file previousResult val

theorem updated_file {stream : Stream} {previousResult : Bool} {val : Int}
    (hfile : stream.file = ((StreamingWav.play stream.file.len).after true stream.answers).1) :
    (updated stream previousResult val).file =
      ((StreamingWav.play (updated stream previousResult val).file.len).after true
        (updated stream previousResult val).answers).1 := by
  rw [len_updated, answers_updated, StreamingWav.after_append]
  change (stream.file.update previousResult val).2.2.1 = (StreamingWav.update _ _ val).2.2.1
  rw [← hfile, StreamingWav.update_file, StreamingWav.update_file]

/-- The new result is that of the stream alone exactly when the static holds
what it would hold then, or is not looked at. -/
theorem updated_undisturbed_iff {stream : Stream} {previousResult : Bool} {val : Int}
    (hu : stream.Undisturbed)
    (hfile : stream.file = ((StreamingWav.play stream.file.len).after true stream.answers).1)
    (hlive : ∀ r ∈ stream.results, r = true) : (updated stream previousResult val).Undisturbed ↔
      (val ≠ 0 → stream.file.Drained → previousResult = stream.ownPrevious) := by
  have hresults : stream.results = (StreamingWav.play stream.file.len).alone true stream.answers := hu
  have happend : (StreamingWav.play stream.file.len).alone true (stream.answers ++ [val]) = _ :=
    StreamingWav.alone_append (hresults ▸ hlive)
  have hnew : (updated stream previousResult val).Undisturbed ↔
      (stream.file.update previousResult val).1 = (stream.file.update stream.ownPrevious val).1 := by
    rw [Stream.Undisturbed, len_updated, answers_updated, results_updated, happend, ← hresults, ← hfile]
    simp [Stream.ownPrevious]
  rw [hnew, StreamingWav.update_fst, StreamingWav.update_fst]
  by_cases hlook : val ≠ 0 ∧ stream.file.Drained
  · simp [hlook.1, hlook.2]
  · rw [if_neg hlook, if_neg hlook]
    simp only [true_iff]
    exact fun hval hd => absurd ⟨hval, hd⟩ hlook

theorem next_live {p q : Nat} (h : s.next p = some q) : s.streams.contains q = true ∧ q ≠ p := by
  have hm := List.mem_filter.mp (List.mem_of_mem_head? h)
  obtain ⟨stream, hf⟩ := StdMap.mem_keys.mp hm.1
  have hlt : p < q := by simpa using hm.2
  exact ⟨by simp [StdMap.contains, hf], by omega⟩

theorem iterator_live (as : List Action) :
    Along step (fun s => ∀ p, s.i = some p → s.streams.contains p = true) init as := by
  refine along_of_step _ (fun s a s' hs h p hp => ?_) (fun p hp => by cases hp) as
  rcases step_cases h with ⟨q, len, rfl, -, rfl⟩ | ⟨val, q, stream, rfl, -, -, hi, -, hcases⟩
  · have hold := hs p hp
    by_cases he : p = q
    · simp [StdMap.contains, he]
    · simpa [StdMap.contains, he] using hold
  · obtain ⟨hlive, hne⟩ := next_live (hi.symm.trans hp)
    rcases hcases with ⟨-, -, hstreams⟩ | ⟨-, -, hstreams⟩
    · simpa [hstreams, StdMap.contains, hne] using hlive
    · simpa [hstreams, StdMap.contains, hne] using hlive

theorem step_apart (hs : s.Apart) (hok : s.OwnOutcome a) (h : step s a = some s') : s'.Apart := by
  rcases step_cases h with ⟨p, len, rfl, hnew, rfl⟩ | ⟨val, p, stream, rfl, hp, hf, -, -, hcases⟩
  · refine ⟨⟨fun q st hq => ?_, hs.independent.ended⟩, fun q st hq => ?_, fun q st hq => ?_⟩
    · rcases StdMap.find?_assign_cases hq with ⟨-, rfl⟩ | ⟨-, hold⟩
      · rfl
      · exact hs.independent.playing q st hold
    · rcases StdMap.find?_assign_cases hq with ⟨-, rfl⟩ | ⟨-, hold⟩
      · simp [Stream.answers, StreamingWav.after]
      · exact hs.file q st hold
    · rcases StdMap.find?_assign_cases hq with ⟨-, rfl⟩ | ⟨-, hold⟩
      · simp [Stream.results]
      · exact hs.live q st hold
  · have hu : (updated stream s.previousResult val).Undisturbed :=
      (updated_undisturbed_iff (hs.independent.playing p stream hf) (hs.file p stream hf)
        (hs.live p stream hf)).mpr (hok p hp stream hf)
    rcases hcases with ⟨hr, hended, hstreams⟩ | ⟨hr, hended, hstreams⟩
    · have hold (q : Nat) (st : Stream) (hq : s'.streams.find? q = some st) :
          st = updated stream s.previousResult val ∨ s.streams.find? q = some st :=
        (StdMap.find?_assign_cases (hstreams ▸ hq)).imp And.right And.right
      refine ⟨⟨fun q st hq => ?_, hended ▸ hs.independent.ended⟩, fun q st hq => ?_, fun q st hq => ?_⟩
      · rcases hold q st hq with rfl | hq
        · exact hu
        · exact hs.independent.playing q st hq
      · rcases hold q st hq with rfl | hq
        · exact updated_file (hs.file p stream hf)
        · exact hs.file q st hq
      · rcases hold q st hq with rfl | hq
        · intro r hmem
          rw [results_updated, List.mem_append, List.mem_singleton] at hmem
          rcases hmem with hmem | rfl
          · exact hs.live p stream hf r hmem
          · exact hr
        · exact hs.live q st hq
    · have hold (q : Nat) (st : Stream) (hq : s'.streams.find? q = some st) : s.streams.find? q = some st :=
        (StdMap.find?_of_erase (hstreams ▸ hq)).2
      refine ⟨⟨fun q st hq => hs.independent.playing q st (hold q st hq), fun st hst => ?_⟩,
        fun q st hq => hs.file q st (hold q st hq), fun q st hq => hs.live q st (hold q st hq)⟩
      rw [hended] at hst
      rcases List.mem_cons.mp hst with rfl | hst
      · exact hu
      · exact hs.independent.ended st hst

theorem not_independent_step (hs : s.Apart) (hno : ¬ s.OwnOutcome a) (h : step s a = some s') :
    ¬ s'.Independent := by
  rcases step_cases h with ⟨p, len, rfl, -⟩ | ⟨val, p, stream, rfl, hp, hf, -, -, hcases⟩
  · exact absurd trivial hno
  · have hdisturbed : ¬ (updated stream s.previousResult val).Undisturbed := by
      intro hu
      refine hno (fun q hq st hst => ?_)
      obtain rfl : p = q := Option.some.inj (hp.symm.trans hq)
      obtain rfl : stream = st := Option.some.inj (hf.symm.trans hst)
      exact (updated_undisturbed_iff (hs.independent.playing p stream hf) (hs.file p stream hf)
        (hs.live p stream hf)).mp hu
    intro hi
    rcases hcases with ⟨-, -, hstreams⟩ | ⟨-, hended, -⟩
    · refine hdisturbed (hi.playing p _ ?_)
      rw [hstreams, StdMap.find?_assign, if_pos rfl]
    · refine hdisturbed (hi.ended _ ?_)
      rw [hended]
      exact List.mem_cons_self

/-- The streams do not interfere precisely in the runs in which a stream that
has no data left always finds its own last outcome in the shared static. -/
theorem independent_iff (as : List Action) :
    Along step Independent init as ↔ Guarded step OwnOutcome init as :=
  along_iff_guarded Apart (fun _ hs => hs.independent) (fun _ _ _ hs hok h => step_apart hs hok h)
    (fun _ _ _ hs hno h => not_independent_step hs hno h) apart_init as

/-- Two short streams: the second is ended by the outcome of the first. -/
theorem not_independent_two_streams : ¬ ∀ as, Along step Independent init as := by
  intro h
  have hg := (along_iff_guarded Apart (fun _ hs => hs.independent)
    (fun _ _ _ hs hok h => step_apart hs hok h) (fun _ _ _ hs hno h => not_independent_step hs hno h)
    apart_init [.play 1 100, .play 2 100, .update 1, .update 1]).mp (h _)
  exact absurd hg (by decide)

end AlAudio

end Quintses
