import Quintses.InputOrder

/-! Who moves a character. The character of a player takes its state from the
messages of that player's client only, the characters of the world from the
tick callbacks only. -/

namespace Quintses

open Lts

/-- The state of the last `runTickCallbacks`. -/
def LocalServer.patrol (srv : LocalServer) : UInt16 := if srv.ticks < 20 then strafeLeft else strafeRight

/-- What no call on the server changes. -/
def LocalServer.clock (srv : LocalServer) : Nat × Bool := (srv.ticks, srv.running)

namespace GameServer

/-- How the character `id` can have come to its state. -/
inductive Commanded (s : GameServer) (id : UInt32) (state : UInt16) : Prop
  | untouched (hstate : state = 0)
  | player {c : ClientPtr} (howner : ∀ d, s.Requested d id ↔ d = c)
    (hsent : .received (.input c state) ∈ s.log)
  | baddie {b : BaddieData} (hb : b ∈ s.server.baddies) (hid : b.id = id)
    (hnone : ∀ d, ¬ s.Requested d id) (hstate : state = s.server.patrol)

def Obedient (s : GameServer) : Prop := ∀ id state, s.state? id = some state → s.Commanded id state

/-- Where the state of a character comes from in a step. -/
inductive NewState (s s' : GameServer) (id : UInt32) (state : UInt16) : Prop
  | kept (hold : s.state? id = some state)
    (hticks : s'.server.ticks = s.server.ticks ∨ id ∉ s.server.baddies.map BaddieData.id)
  | created (hstate : state = 0)
  | input {c : ClientPtr} (hmsg : .input c state ∈ s.physicsPending)
    (hid : (s.server.clients.find? c).getD 0 = id) (hthere : s.physics.HasCharacter id)
  | forced (hmsg : .bullet (.forceState id state) ∈ s.physicsPending)
  | patrol {b : BaddieData} (hb : b ∈ s'.server.baddies) (hid : b.id = id) (hstate : state = s'.server.patrol)

variable {order : PopOrder} {s s' : GameServer} {a : Action} {c d : ClientPtr} {id : UInt32} {state : UInt16}

theorem setInputState_state?_cases {p : BtPhysics} {i : UInt32} {new : UInt16}
    (h : ((p.setInputStateCallback i new).characters.find? id).map CharacterObject.state = some state) :
    (p.characters.find? id).map CharacterObject.state = some state ∨
      i = id ∧ new = state ∧ p.HasCharacter id := by
  by_cases hi : id = i
  · subst hi
    cases hch : p.characters.find? id with
    | none => simp [BtPhysics.setInputStateCallback, hch] at h
    | some ch => exact Or.inr ⟨rfl, by simpa [BtPhysics.setInputStateCallback, hch] using h, ch, hch⟩
  · rw [setInputState_state? p new hi] at h
    exact Or.inl h

theorem setInputStates_state?_mem {ids : List UInt32} {new : UInt16} {p : BtPhysics} (hid : id ∈ ids)
    (h : ((ids.foldl (fun p i => p.setInputStateCallback i new) p).characters.find? id).map
      CharacterObject.state = some state) : state = new := by
  induction ids generalizing p with
  | nil => cases hid
  | cons i ids ih =>
    by_cases hrest : id ∈ ids
    · exact ih hrest h
    · obtain rfl : id = i := (List.mem_cons.mp hid).resolve_right hrest
      rw [List.foldl_cons, setInputStates_state? new hrest] at h
      cases hch : p.characters.find? id with
      | none => simp [BtPhysics.setInputStateCallback, hch] at h
      | some ch => exact (by simpa [BtPhysics.setInputStateCallback, hch] using h : new = state).symm

theorem parse_newState {msg : ServerMsg} (hpc : s.physicsPc = .parsing msg)
    (h : (s.parse msg).state? id = some state) (hticks : s'.server.ticks = s.server.ticks) :
    NewState s s' id state := by
  have hmem : msg ∈ s.physicsPending := by simp [physicsPending, hpc, PhysicsPc.hand]
  cases msg with
  | input d new =>
    rw [parse_input] at h
    rcases setInputState_state?_cases h with hold | ⟨hid, rfl, hthere⟩
    · exact .kept hold (Or.inl hticks)
    · exact .input hmem hid hthere
  | bullet b =>
    cases hparse : s.physics.parseBullet b with
    | error e =>
      rw [parse_bullet_error hparse] at h
      exact .kept h (Or.inl hticks)
    | ok p =>
      rw [parse_bullet_ok hparse] at h
      by_cases hb : b.character? = some id
      · cases b with
        | forceState i new =>
          obtain rfl : i = id := Option.some.inj hb
          cases hparse
          rcases setInputState_state?_cases h with hold | ⟨_, rfl, _⟩
          · exact .kept hold (Or.inl hticks)
          · exact .forced hmem
        | addChar i template matrix =>
          obtain rfl : i = id := Option.some.inj hb
          cases hparse
          exact .created (by simpa [state?, BtPhysics.addCharObject, eq_comm] using h)
        | delChar i =>
          obtain rfl : i = id := Option.some.inj hb
          simp only [BtPhysics.parseBullet, BtPhysics.delCharObject] at hparse
          split at hparse <;> cases hparse
          simp [state?] at h
        | addPhys i template matrix => cases hb
        | delPhys i => cases hb
      · refine .kept ?_ (Or.inl hticks)
        rw [← h, state?, state?]
        exact (congrArg (Option.map CharacterObject.state) (BtPhysics.parseBullet_character hparse hb)).symm
  | shutdown d => exact .kept h (Or.inl hticks)
  | loadPlayer d template => exact .kept h (Or.inl hticks)

theorem apply_clock {t : GameServer} (r : LocalServer × List Call) :
    (t.apply order r).server.clock = r.1.clock := congrArg LocalServer.clock (apply_server r)

theorem handle_clock (msg : ServerMsg) : (s.handle order msg).server.clock = s.server.clock := by
  rw [handle_server]
  cases msg <;> rfl

theorem parse_clock (msg : ServerMsg) : (s.parse msg).server.clock = s.server.clock := by
  rw [parse_server]
  cases msg <;> rfl

theorem stepServer_clock (hpc : s.serverPc ≠ .clearing) (h : s.stepServer order = some s') :
    s'.server.clock = s.server.clock := by
  unfold stepServer at h
  split at h
  case h_3 => cases h; exact apply_clock _
  case h_4 => cases h; exact apply_clock _
  case h_6 => split at h <;> cases h; rfl
  case h_7 => cases h; exact handle_clock _
  case h_9 => split at h <;> cases h; rfl
  case h_11 => cases h; exact apply_clock _
  case h_12 hclear => exact absurd hclear hpc
  case h_13 => cases h
  all_goals
    cases h
    rfl

theorem stepPhysics_clock {mats : List Mat4} (hpc : ∀ ct, s.physicsPc ≠ .callbacks ct)
    (h : s.stepPhysics order mats = some s') : s'.server.clock = s.server.clock := by
  unfold stepPhysics at h
  split at h
  case h_2 =>
    split at h
    · cases h; rfl
    · split at h <;> cases h; rfl
  case h_3 => cases h; exact parse_clock _
  case h_4 ct hcall => exact absurd hcall (hpc ct)
  case h_5 => cases h; exact apply_clock _
  case h_7 => cases h
  all_goals
    cases h
    rfl

theorem step_callbacks {ct : ClientTransList} {mats : List Mat4} (hpc : s.physicsPc = .callbacks ct)
    (h : step order s (.physics mats) = some s') : s' = { s.gotoPhysics (.transforms ct) with
      server := s.server.runTickCallbacks.1
      physics := s.server.runTickCallbacks.2.1.foldl
        (fun p id => p.setInputStateCallback id s.server.runTickCallbacks.2.2) s.physics } := by
  have hf := (step_change h).1
  simpa [step, hf, stepPhysics, hpc, eq_comm] using h

theorem step_clearing (hpc : s.serverPc = .clearing) (h : step order s .server = some s') :
    s' = (s.goto .done).setServer (fun srv => { srv with running := false }) := by
  have hf := (step_change h).1
  simpa [step, hf, stepServer, hpc, eq_comm] using h

theorem step_clock (h : step order s a = some s') (hserver : a = .server → s.serverPc ≠ .clearing)
    (hphysics : ∀ mats ct, a = .physics mats → s.physicsPc ≠ .callbacks ct) :
    s'.server.clock = s.server.clock := by
  have hf := (step_change h).1
  cases a with
  | addClient c =>
    simp only [step, hf, Option.isSome_none, Bool.false_eq_true, if_false] at h
    split at h <;> cases h
    exact apply_clock _
  | removeClient c =>
    simp only [step, hf, Option.isSome_none, Bool.false_eq_true, if_false] at h
    split at h <;> cases h
    exact apply_clock (t := s) _
  | pushMessage msg =>
    simp only [step, hf, Option.isSome_none, Bool.false_eq_true, if_false] at h
    split at h <;> cases h
    rfl
  | server =>
    simp only [step, hf, Option.isSome_none, Bool.false_eq_true, if_false] at h
    exact stepServer_clock (hserver rfl) h
  | physics mats =>
    simp only [step, hf, Option.isSome_none, Bool.false_eq_true, if_false] at h
    exact stepPhysics_clock (fun ct => hphysics mats ct rfl) h

/-- Only the tick callbacks count ticks. -/
theorem step_ticks (h : step order s a = some s')
    (hpc : ∀ mats ct, a = .physics mats → s.physicsPc ≠ .callbacks ct) :
    s'.server.ticks = s.server.ticks := by
  by_cases hclear : a = .server ∧ s.serverPc = .clearing
  · obtain ⟨rfl, hclear⟩ := hclear
    rw [step_clearing hclear h]
    rfl
  · exact congrArg Prod.fst (step_clock h (fun ha hclr => hclear ⟨ha, hclr⟩) hpc)

/-- Only the last step of `run` says that the server is not running. -/
theorem step_running (h : step order s a = some s') (hserver : a = .server → s.serverPc ≠ .clearing) :
    s'.server.running = s.server.running := by
  by_cases hcalls : ∃ mats ct, a = .physics mats ∧ s.physicsPc = .callbacks ct
  · obtain ⟨mats, ct, rfl, hpc⟩ := hcalls
    rw [step_callbacks hpc h]
    rfl
  · exact congrArg Prod.snd (step_clock h hserver (fun mats ct ha hpc => hcalls ⟨mats, ct, ha, hpc⟩))

theorem callbacks_newState {ct : ClientTransList} {mats : List Mat4} (hpc : s.physicsPc = .callbacks ct)
    (hs : step order s (.physics mats) = some s') (h : s'.state? id = some state) :
    NewState s s' id state := by
  obtain rfl := step_callbacks hpc hs
  by_cases hid : id ∈ s.server.baddies.map BaddieData.id
  · obtain ⟨b, hb, he⟩ := List.mem_map.mp hid
    exact .patrol hb he (setInputStates_state?_mem hid h)
  · refine .kept ?_ (Or.inr hid)
    rw [← h, state?, state?]
    exact (congrArg (Option.map CharacterObject.state) (setInputStates_state? _ hid _)).symm

theorem Change.state_kept (h : Change order s a s') (hcalls : ∀ mats ct, a = .physics mats → s.physicsPc ≠ .callbacks ct)
    (hparse : ∀ mats msg, a = .physics mats → s.physicsPc ≠ .parsing msg) : s'.state? id = s.state? id := by
  have hchars (he : s'.physics.characters = s.physics.characters) : s'.state? id = s.state? id := by
    rw [state?, he, state?]
  cases h with
  | quietServer h => exact hchars h.characters
  | quietPhysics h => exact hchars h.characters
  | addClient hc hadd => exact apply_state? id _
  | removeClient hc => exact apply_state? (t := s) id _
  | handle hpc => exact hchars (handle_physics _).2
  | mob hpc => exact apply_state? id _
  | blocker hpc => exact apply_state? id _
  | close hpc => exact apply_state? id _
  | @parse msg mats hpc => exact absurd hpc (hparse mats msg rfl)
  | @callbacks ct mats hpc => exact absurd hpc (hcalls mats ct rfl)
  | transforms hpc => exact apply_state? id _
  | _ => rfl

theorem step_newState (hs : step order s a = some s') (h : s'.state? id = some state) :
    NewState s s' id state := by
  by_cases hcalls : ∃ mats ct, a = .physics mats ∧ s.physicsPc = .callbacks ct
  · obtain ⟨mats, ct, rfl, hpc⟩ := hcalls
    exact callbacks_newState hpc hs h
  · have hnot (mats : List Mat4) (ct : ClientTransList) (ha : a = .physics mats) :
        s.physicsPc ≠ .callbacks ct := fun hpc => hcalls ⟨mats, ct, ha, hpc⟩
    have hticks := step_ticks hs hnot
    by_cases hparse : ∃ mats msg, a = .physics mats ∧ s.physicsPc = .parsing msg
    · obtain ⟨mats, msg, rfl, hpc⟩ := hparse
      rw [step_parsing hpc hs] at h
      exact parse_newState hpc h hticks
    · have hkept : s'.state? id = s.state? id :=
        (step_change hs).2.state_kept hnot (fun mats msg ha hpc => hparse ⟨mats, msg, ha, hpc⟩)
      exact .kept (hkept ▸ h) (Or.inl hticks)

theorem requested_iff : s.Requested c id ↔
    ∃ tmp mat, .addPhysical (some c) id tmp mat true ∈ s.physicalCalls := by
  refine exists_congr (fun tmp => exists_congr (fun mat => ?_))
  constructor
  · exact fun h => List.mem_filterMap.mpr ⟨_, h, rfl⟩
  · intro h
    obtain ⟨e, he, hcall⟩ := List.mem_filterMap.mp h
    cases e with
    | call made => cases made <;> cases hcall; exact he
    | _ => cases hcall

theorem Requested.allocated (h : s.Requested c id) : id ∈ s.allocated := by
  obtain ⟨tmp, mat, h⟩ := requested_iff.mp h
  exact List.mem_filterMap.mpr ⟨_, h, rfl⟩

theorem Change.requested_cases (h : Change order s a s') (hr : s'.Requested c id) : s.Requested c id ∨
    a = .server ∧ id = s.server.nextId ∧ ∃ template, s.serverPc = .handling (.loadPlayer c template) := by
  obtain ⟨tmp, mat, hmem⟩ := requested_iff.mp hr
  obtain ⟨new, hnew, hcalls⟩ := h.newCall
  rw [hcalls, List.mem_append] at hmem
  rcases hmem with hmem | hmem
  · cases hnew with
    | none => cases hmem
    | @load d template hpc =>
      cases List.mem_singleton.mp (Option.toList_some _ ▸ hmem)
      exact Or.inr ⟨rfl, rfl, _, hpc⟩
    | world ha hpc => simp at hmem
    | remove hfind hid => simp at hmem
  · exact Or.inl (requested_iff.mpr ⟨tmp, mat, hmem⟩)

theorem Change.load_requested {template : ByteString} (h : Change order s .server s')
    (hpc : s.serverPc = .handling (.loadPlayer c template)) : s'.Requested c s.server.nextId := by
  obtain ⟨new, hnew, hcalls⟩ := h.newCall
  cases hnew with
  | none hload => exact absurd hpc (hload c template rfl)
  | @load d other hpc' =>
    obtain ⟨rfl, rfl⟩ : d = c ∧ other = template := by simpa [hpc'] using hpc
    have hmem : .addPhysical (some d) s.server.nextId other s.server.playerSpawn true ∈ s'.physicalCalls := by
      simp [hcalls]
    exact requested_iff.mpr ⟨_, _, hmem⟩
  | world _ hno => exact absurd hpc (hno c template)

/-- Who has asked for which character, and what is on its way to it. -/
structure Attributed (s : GameServer) : Prop where
  nonzero : 0 ∉ s.allocated
  requested : ∀ c id, s.server.clients.find? c = some id → id ≠ 0 → s.Requested c id
  owner : ∀ c d id, s.Requested c id → s.Requested d id → c = d
  unowned : ∀ b, (b ∈ s.server.baddies ∨ ∃ todo, s.serverPc = .pushBack b todo) → ∀ d, ¬ s.Requested d b.id
  sent : ∀ c state, .input c state ∈ s.serverPending ∨ .input c state ∈ s.physicsPending →
    .received (.input c state) ∈ s.log

theorem attributed_init (playerSpawn : Mat4) (world : List WorldEntry) : (init playerSpawn world).Attributed where
  nonzero h := by cases h
  requested c id h := by cases h
  owner c d id h := by
    obtain ⟨_, _, h⟩ := h
    cases h
  unowned b h := by rcases h with h | ⟨_, h⟩ <;> cases h
  sent c state h := by rcases h with h | h <;> cases h

theorem Change.zero_not_allocated (h : Change order s a s') (hz : 0 ∉ s.allocated) (hfresh : s.IdsFresh a) :
    0 ∉ s'.allocated := by
  obtain ⟨new, hnew, hcalls⟩ := h.newCall
  intro hm
  rw [allocated, hcalls, List.filterMap_append, List.mem_append] at hm
  refine hm.elim (fun hm => ?_) hz
  cases hnew with
  | none => cases hm
  | load hpc =>
    exact (hfresh (by simp [Allocates, ServerPc.allocates, hpc])).1 (by simpa [Call.newId?, eq_comm] using hm)
  | world ha hpc => exact (hfresh ha).1 (by simpa [Call.newId?, eq_comm] using hm)
  | remove hfind hid => simp [Call.newId?] at hm

theorem Change.sent (h : Change order s a s') (ht : ∀ c state, .input c state ∈ s.serverPending ∨
    .input c state ∈ s.physicsPending → .received (.input c state) ∈ s.log)
    (hm : .input c state ∈ s'.serverPending ∨ .input c state ∈ s'.physicsPending) :
    .received (.input c state) ∈ s'.log := by
  rcases hm with hm | hm
  · rcases h.serverPending hm with hm | ⟨_, rfl⟩
    · exact h.log_mono (ht c state (Or.inl hm))
    · cases h with
      | receive h => exact List.mem_cons_self
  · rcases h.physicsPending hm with hm | ⟨_, _, _, hm⟩ | ⟨b, _, he, _⟩
    · exact h.log_mono (ht c state (Or.inr hm))
    · exact h.log_mono (ht c state (Or.inl (List.mem_append_left _ hm)))
    · cases he

theorem Change.attributed (h : Change order s a s') (ho : s.OwnIds) (ha : s.Attributed) (hfresh : s.IdsFresh a) :
    s'.Attributed where
  nonzero := h.zero_not_allocated ha.nonzero hfresh
  requested c id hf hid := by
    rcases h.value_cases hf hid with hold | ⟨rfl, _, _, _, rfl, template, hpc⟩
    · exact (ha.requested c id hold hid).mono h
    · exact h.load_requested hpc
  owner c d id hc hd := by
    have hnew {e : ClientPtr} {template : ByteString} (hpc : s.serverPc = .handling (.loadPlayer e template))
        (hserver : a = .server) : s.server.nextId ∉ s.allocated := by
      subst hserver
      exact (hfresh (by simp [Allocates, ServerPc.allocates, hpc])).2
    rcases h.requested_cases hc with hc | ⟨hserver, rfl, template, hpc⟩
    · rcases h.requested_cases hd with hd | ⟨hserver, rfl, template, hpc⟩
      · exact ha.owner c d id hc hd
      · exact absurd hc.allocated (hnew hpc hserver)
    · rcases h.requested_cases hd with hd | ⟨_, _, other, hpc'⟩
      · exact absurd hd.allocated (hnew hpc hserver)
      · obtain ⟨rfl, _⟩ : c = d ∧ template = other := by simpa [hpc] using hpc'
        rfl
  unowned b hb d hr := by
    rcases h.baddie_cases hb with hold | ⟨rfl, he, mat, _, rest, hmob⟩
    · rcases h.requested_cases hr with hr | ⟨rfl, he, template, hpc⟩
      · exact ha.unowned b hold d hr
      · have hnew := (hfresh (by simp [Allocates, ServerPc.allocates, hpc])).2
        exact hnew (he ▸ (ho.baddie b hold).2.1)
    · rcases h.requested_cases hr with hr | ⟨_, _, template, hpc⟩
      · have hnew := (hfresh (by simp [Allocates, ServerPc.allocates, hmob])).2
        exact hnew (he ▸ hr.allocated)
      · rw [hmob] at hpc
        cases hpc
  sent c state hm := h.sent ha.sent hm

/-- A character that a client asked for stays that client's. -/
theorem Change.owner_kept (h : Change order s a s') (hfresh : s.IdsFresh a) (halloc : id ∈ s.allocated) :
    s'.Requested c id ↔ s.Requested c id := by
  refine ⟨fun hr => ?_, fun hr => hr.mono h⟩
  rcases h.requested_cases hr with hr | ⟨rfl, rfl, template, hpc⟩
  · exact hr
  · exact absurd halloc (hfresh (by simp [Allocates, ServerPc.allocates, hpc])).2

theorem Commanded.frame (h : s.Commanded id state) (hc : Change order s a s') (hfresh : s.IdsFresh a)
    (halloc : id ∈ s.allocated)
    (hticks : s'.server.ticks = s.server.ticks ∨ id ∉ s.server.baddies.map BaddieData.id) :
    s'.Commanded id state := by
  cases h with
  | untouched hstate => exact .untouched hstate
  | @player c howner hsent =>
    exact .player (fun d => (hc.owner_kept hfresh halloc).trans (howner d)) (hc.log_mono hsent)
  | @baddie b hb hid hnone hstate =>
    have hkept : b ∈ s'.server.baddies := by
      rcases hc.baddies with he | ⟨_, _, _, _, he⟩ <;> simp [he, hb]
    have hsame : s'.server.ticks = s.server.ticks :=
      hticks.resolve_right (fun hno => hno (List.mem_map.mpr ⟨b, hb, hid⟩))
    refine .baddie hkept hid (fun d hr => hnone d ((hc.owner_kept hfresh halloc).mp hr)) ?_
    rw [hstate, LocalServer.patrol, LocalServer.patrol, hsame]

theorem Attributed.obedient (ha : s.Attributed) (ho : s.Orderly) (hobey : s.Obedient) (hfresh : s.IdsFresh a)
    (ha' : s'.Attributed) (hs : step order s a = some s') : s'.Obedient := by
  obtain ⟨hf, hc⟩ := step_change hs
  intro id state hstate
  cases step_newState hs hstate with
  | kept hold hticks =>
    have hthere : s.physics.HasCharacter id := hasCharacter_iff_state?.mpr (by simp [hold])
    exact (hobey id state hold).frame hc hfresh ((ho.tracked hf).present_issued id hthere) hticks
  | created h => exact .untouched h
  | @input c hmsg hid hthere =>
    have hne : id ≠ 0 := fun hz => ha.nonzero (hz ▸ (ho.tracked hf).present_issued id hthere)
    have hfind : s.server.clients.find? c = some id := by
      cases hc : s.server.clients.find? c with
      | none => exact absurd (by simpa [hc] using hid.symm) hne
      | some i => exact congrArg some (by simpa [hc] using hid)
    have hreq : s'.Requested c id := (ha.requested c id hfind hne).mono hc
    refine .player (fun d => ⟨fun hr => ha'.owner d c id hr hreq, fun he => he ▸ hreq⟩) ?_
    exact hc.log_mono (ha.sent c state (Or.inr hmsg))
  | forced hmsg => exact absurd hmsg (ho.unforced id state)
  | patrol hb hid h => exact .baddie hb hid (fun d hr => ha'.unowned _ (Or.inl hb) d (hid ▸ hr)) h

/-- The character of a player only ever does what its own client has sent, and
the characters of the world only patrol. -/
theorem characters_obey (order : PopOrder) (playerSpawn : Mat4) (world : List WorldEntry) {as : List Action}
    (h : Guarded (step order) IdsFresh (init playerSpawn world) as) :
    Along (step order) Obedient (init playerSpawn world) as := by
  have hall : Along (step order) (fun s => s.Orderly ∧ s.Attributed ∧ s.Obedient) (init playerSpawn world) as := by
    refine h.along (fun s => s.Orderly ∧ s.Attributed ∧ s.Obedient) (fun s a s' hi hfresh hs => ?_) ?_
    · obtain ⟨ho, ha, hobey⟩ := hi
      obtain ⟨hf, hc⟩ := step_change hs
      have ha' := hc.attributed ho.ids ha hfresh
      exact ⟨hc.orderly ho hf hfresh, ha', ha.obedient ho hobey hfresh ha' hs⟩
    · refine ⟨orderly_init playerSpawn world, attributed_init playerSpawn world, fun id state hs => ?_⟩
      cases hs
  exact hall.mono (fun s hs => hs.2.2)

def twoPlayers : List Action := [.server, .server, .server, .addClient 1, .addClient 2,
  .pushMessage (.loadPlayer 1 [80]), .server, .server, .pushMessage (.loadPlayer 2 [80]), .server, .server,
  .physics [], .physics [], .physics [], .physics [], .physics [], .physics [], .physics [],
  .pushMessage (.input 2 3), .server, .server, .physics [], .physics [], .physics [zeroMat, zeroMat, zeroMat],
  .physics []]

theorem characters_obey_two_clients : ∃ t,
    run (step .lifo) (init zeroMat [.mob [77] zeroMat]) twoPlayers = some t ∧
      (t.state? 1 = some 1 ∧ t.state? 2 = some 0 ∧ t.state? 3 = some 3) ∧ t.Obedient := by
  have hrun : (run (step .lifo) (init zeroMat [.mob [77] zeroMat]) twoPlayers).map
      (fun t => (t.state? 1, t.state? 2, t.state? 3)) = some (some 1, some 0, some 3) := by decide
  obtain ⟨t, ht, hstates⟩ := Option.map_eq_some_iff.mp hrun
  refine ⟨t, ht, by simpa using hstates, ?_⟩
  exact (characters_obey .lifo zeroMat [.mob [77] zeroMat] (by decide)).last ht

end GameServer

end Quintses
