import Quintses.InputOrder

/-! The build with `QNT_USE_LOCKED_QUEUE`, whose queues are first-in-first-out.
Nothing overtakes anything on the way to the physics, so the conditions that
the default queue needs are met by every run. -/

namespace Quintses

open Lts Stages

namespace GameServer

variable {s s' t : GameServer} {a : Action} {c : ClientPtr} {id : UInt32}

/-- A player's inputs reach its character in the order in which the client
pushed them, each once, and the character has the last that has arrived. -/
theorem inputs_in_order (playerSpawn : Mat4) (world : List WorldEntry) {as bs : List Action}
    {s t : GameServer} {c : ClientPtr} {id : UInt32}
    (hs : run (step .fifo) (init playerSpawn world) as = some s)
    (hfresh : Guarded (step .fifo) IdsFresh (init playerSpawn world) (as ++ bs)) (howns : s.Owns c id)
    (hstay : .removeClient c ∉ bs) (hrun : run (step .fifo) s bs = some t) : ∃ arrived,
      line (s.stages c) ++ bs.filterMap (Action.inputOf c) = arrived ++ line (t.stages c) ∧
      t.state? id = arrived.getLast?.or (s.state? id) := by
  obtain ⟨hfirst, hthen⟩ := (guarded_append hs).mp hfresh
  have horderly : s.Orderly := hfirst.invariant Orderly
    (fun r a r' ho hok hstep => (step_change hstep).2.orderly ho (step_change hstep).1 hok)
    (orderly_init playerSpawn world) hs
  exact run_inOrder ⟨horderly, howns⟩ hthen hstay hrun

def pressAndRelease : List Action := [.pushMessage (.input 1 1), .server, .server, .pushMessage (.input 1 0),
  .server, .server, .physics [], .physics [], .physics [], .physics []]

theorem inputs_in_order_same_tick : ∃ s t, run (step .fifo) (init zeroMat []) playerLoaded = some s ∧
    run (step .fifo) s pressAndRelease = some t ∧ ∃ arrived,
      line (s.stages 1) ++ pressAndRelease.filterMap (Action.inputOf 1) = arrived ++ line (t.stages 1) ∧
      t.state? 1 = arrived.getLast?.or (s.state? 1) := by
  have hboth : (run (step .fifo) (init zeroMat []) (playerLoaded ++ pressAndRelease)).isSome := by decide
  have hrun : (run (step .fifo) (init zeroMat []) playerLoaded).map
      (fun s => (s.server.clients.find? 1, s.state? 1)) = some (some 1, some 0) := by decide
  obtain ⟨s, hs, he⟩ := Option.map_eq_some_iff.mp hrun
  obtain ⟨hfind, hstate⟩ := Prod.mk.inj he
  obtain ⟨t, ht⟩ := Option.isSome_iff_exists.mp hboth
  rw [run_append, hs] at ht
  have howns : s.Owns 1 1 := ⟨hfind, by decide, hasCharacter_iff_state?.mpr (by simp [hstate])⟩
  exact ⟨s, t, hs, ht, inputs_in_order zeroMat [] hs (by decide) howns (by decide) ht⟩

end GameServer

def ServerMsg.life? : ServerMsg → Option (UInt32 × Bool)
  | .bullet (.addChar id _ _) => some (id, true)
  | .bullet (.delChar id) => some (id, false)
  | _ => none

def Call.life? (call : Call) : Option (UInt32 × Bool) := call.toPhysics.bind ServerMsg.life?

namespace GameServer

variable {s s' t : GameServer} {a : Action} {new : Option Call}

/-- The creations (true) and deletions of characters on their way, in order. -/
def lives (s : GameServer) : List (UInt32 × Bool) := s.physicsPending.filterMap ServerMsg.life?

/-- No creation waits behind the deletion of its character. -/
def InLine (s : GameServer) : Prop := s.lives.Pairwise (fun x y => x.2 = false → y.2 = true → x.1 ≠ y.1)

theorem foldl_add_fifo {α : Type} (ts q : List α) : ts.foldl PopOrder.fifo.add q = q ++ ts := by
  induction ts generalizing q with
  | nil => simp
  | cons t ts ih => simp [ih, PopOrder.add]

theorem apply_lives (r : LocalServer × List Call) :
    (t.apply .fifo r).lives.Sublist (t.lives ++ r.2.filterMap Call.life?) := by
  have hlife : r.2.filterMap Call.life? = (r.2.filterMap Call.toPhysics).filterMap ServerMsg.life? := by
    rw [List.filterMap_filterMap]
    rfl
  rw [lives, lives, hlife, apply_eq]
  cases hd : t.physicsDeleted with
  | true => simp [performed, physicsPending]
  | false => simp [performed, physicsPending, BtPhysics.enqueue, foldl_add_fifo]

theorem apply_newLives {r : LocalServer × List Call} (hpend : t.physicsPending = s.physicsPending)
    (hlog : t.physicalCalls = s.physicalCalls)
    (hcalls : (t.apply .fifo r).physicalCalls = new.toList ++ s.physicalCalls) :
    (t.apply .fifo r).lives.Sublist (s.lives ++ new.toList.filterMap Call.life?) := by
  have hmsgs : r.2.filterMap Call.toPhysics = new.toList.filterMap Call.toPhysics := by
    rw [physicalCalls, apply_log, List.filterMap_append, ← physicalCalls, hlog] at hcalls
    have hh := List.append_cancel_right hcalls
    rw [List.filterMap_reverse] at hh
    rw [toPhysics_eq_physical?, ← List.reverse_reverse (List.filterMap Event.physical? _), hh]
    cases new <;> rfl
  have hlife (calls : List Call) :
      calls.filterMap Call.life? = (calls.filterMap Call.toPhysics).filterMap ServerMsg.life? := by
    rw [List.filterMap_filterMap]
    rfl
  have hsub := t.apply_lives r
  have hsame : t.lives = s.lives := by rw [lives, hpend, ← lives]
  rwa [hlife, hmsgs, ← hlife, hsame] at hsub

theorem parse_sublist (msg : ServerMsg) : (s.parse msg).physicsPending.Sublist s.physicsPending := by
  have hqueue := parse_physicsQueue s msg
  cases hparse : s.physics.parseMessage msg s.server with
  | error e => rw [parse_error hparse]; exact List.Sublist.refl _
  | ok r =>
    have hhand : (s.parse msg).physicsPc.hand = [] := by
      rw [parse_ok hparse]
      rfl
    rw [physicsPending, physicsPending, hqueue, hhand]
    exact List.sublist_append_right _ _

/-- Under first-in-first-out a step only appends the calls it makes and takes
messages from the front. -/
theorem Change.lives (h : Change .fifo s a s') : ∃ new, NewCall s a new ∧
    s'.lives.Sublist (s.lives ++ new.toList.filterMap Call.life?) := by
  obtain ⟨new, hnew, hcalls⟩ := h.newCall
  refine ⟨new, hnew, ?_⟩
  have hsame (hp : s'.lives = s.lives) : s'.lives.Sublist (s.lives ++ new.toList.filterMap Call.life?) := by
    rw [hp]
    exact List.sublist_append_left _ _
  cases h with
  | quietServer h =>
    exact hsame (by rw [GameServer.lives, GameServer.physicsPending, h.physicsHand, h.physicsQueue]; rfl)
  | quietPhysics h =>
    exact hsame (by rw [GameServer.lives, GameServer.physicsPending, h.physicsHand, h.physicsQueue]; rfl)
  | addClient hc hadd => exact apply_newLives rfl rfl hcalls
  | removeClient hc => exact apply_newLives rfl rfl hcalls
  | receive h => exact hsame rfl
  | takeServer hpc hq => exact hsame rfl
  | @handle msg hpc =>
    cases msg with
    | loadPlayer sender template => exact apply_newLives rfl rfl hcalls
    | input sender state =>
      refine hsame ?_
      simp only [GameServer.handle, onPhysics]
      split
      · rfl
      · simp [GameServer.lives, GameServer.physicsPending, BtPhysics.pushMessage, goto, record, PopOrder.add,
          ServerMsg.life?]
    | shutdown sender => exact hsame rfl
    | bullet b => exact hsame rfl
  | mob hpc => exact apply_newLives rfl rfl hcalls
  | blocker hpc => exact apply_newLives rfl rfl hcalls
  | pushBack hpc => exact hsame rfl
  | close hpc => exact apply_newLives rfl rfl hcalls
  | takePhysics hpc hq =>
    refine hsame ?_
    simp [GameServer.lives, GameServer.physicsPending, gotoPhysics, setPhysics, hpc, hq, PhysicsPc.hand]
  | @parse msg mats hpc =>
    exact ((parse_sublist msg).filterMap ServerMsg.life?).trans (List.sublist_append_left _ _)
  | callbacks hpc =>
    refine hsame ?_
    simp [GameServer.lives, GameServer.physicsPending, gotoPhysics, hpc, PhysicsPc.hand, setInputStates_msgQueue]
  | transforms hpc =>
    refine apply_newLives ?_ rfl hcalls
    simp [GameServer.physicsPending, gotoPhysics, hpc, PhysicsPc.hand]

theorem mem_lives_true {id : UInt32} : (id, true) ∈ s.lives ↔ id ∈ s.addIds := by
  simp only [lives, addIds, List.mem_filterMap]
  refine exists_congr (fun msg => and_congr_right (fun _ => ?_))
  cases msg with
  | bullet b => cases b <;> simp [ServerMsg.life?, ServerMsg.addChar?]
  | _ => simp [ServerMsg.life?, ServerMsg.addChar?]

theorem mem_lives_false {id : UInt32} : (id, false) ∈ s.lives ↔ id ∈ s.delIds := by
  simp only [lives, delIds, List.mem_filterMap]
  refine exists_congr (fun msg => and_congr_right (fun _ => ?_))
  cases msg with
  | bullet b => cases b <;> simp [ServerMsg.life?, ServerMsg.delChar?]
  | _ => simp [ServerMsg.life?, ServerMsg.delChar?]

theorem Change.inLine (h : Change .fifo s a s') (hl : s.InLine) (ht : s.Tracked) (hfresh : s.IdsFresh a) :
    s'.InLine := by
  obtain ⟨new, hnew, hsub⟩ := h.lives
  refine List.Pairwise.sublist hsub (List.pairwise_append.mpr ⟨hl, ?_, ?_⟩)
  · cases new with
    | none => exact List.Pairwise.nil
    | some call => cases hc : call.life? <;> simp [hc]
  · rintro ⟨id, created⟩ hx ⟨id', created'⟩ hy rfl rfl rfl
    -- a creation is new, so it is not of an id whose deletion has been sent
    have hissued : id ∈ s.allocated := Ledger.deletes_issued ht (mem_lives_false.mp hx)
    cases hnew with
    | none => cases hy
    | load hpc =>
      obtain rfl : id = s.server.nextId := by simpa [Call.life?, Call.toPhysics, ServerMsg.life?] using hy
      exact (hfresh (by simp [Allocates, ServerPc.allocates, hpc])).2 hissued
    | @world templ mat isCharacter ha hpc =>
      cases isCharacter with
      | true =>
        obtain rfl : id = s.server.nextId := by simpa [Call.life?, Call.toPhysics, ServerMsg.life?] using hy
        exact (hfresh ha).2 hissued
      | false => simp [Call.life?, Call.toPhysics, ServerMsg.life?] at hy
    | remove hfind hid => simp [Call.life?, Call.toPhysics, ServerMsg.life?] at hy

theorem InLine.createdFirst (h : s.InLine) (a : Action) : s.CreatedFirst a := by
  cases a with
  | physics mats =>
    intro hpc id hhead hadd
    obtain ⟨rest, hq⟩ := head_delChar hhead
    have hlives : s.lives = (id, false) :: rest.filterMap ServerMsg.life? := by
      simp [lives, physicsPending, hpc, hq, PhysicsPc.hand, ServerMsg.life?]
    have hmem : (id, true) ∈ s.lives := mem_lives_true.mpr hadd
    rw [hlives] at hmem
    rw [InLine, hlives] at h
    refine List.rel_of_pairwise_cons h ((List.mem_cons.mp hmem).resolve_left (by simp)) rfl rfl rfl
  | _ => trivial

/-- Nobody asks for the deletion of a static object. -/
structure ObjectsStay (s : GameServer) : Prop where
  called : ∀ id, .delPhysical id false ∉ s.physicalCalls
  pending : ∀ id, .bullet (.delPhys id) ∉ s.physicsPending

theorem Change.objectsStay {order : PopOrder} (h : Change order s a s') (ho : s.ObjectsStay) : s'.ObjectsStay := by
  obtain ⟨new, hnew, hcalls⟩ := h.newCall
  have hcalled (id : UInt32) : .delPhysical id false ∉ s'.physicalCalls := by
    rw [hcalls, List.mem_append]
    rintro (hm | hm)
    · cases hnew with
      | none => cases hm
      | load hpc => simp at hm
      | world ha hpc => simp at hm
      | remove hfind hid => simp at hm
    · exact ho.called id hm
  refine ⟨hcalled, fun id hm => ?_⟩
  rcases h.physicsPending hm with hold | ⟨c, state, he, _⟩ | ⟨b, call, _, hcall, hlog⟩
  · exact ho.pending id hold
  · cases he
  · cases call with
    | delPhysical i isCharacter =>
      cases isCharacter with
      | true => cases hcall
      | false => exact hcalled i (List.mem_filterMap.mpr ⟨_, hlog, rfl⟩)
    | addPhysical loader i tmp mat isCharacter => cases isCharacter <;> cases hcall
    | _ => cases hcall

/-- Only a call after the deletion of the physics and a message that cannot be
handled stop the system. -/
theorem Change.fault_cases {order : PopOrder} (h : Change order s a s') (hf : s.fault = none) {e : Fault}
    (he : s'.fault = some e) : e = .deletedPhysics ∨
      ∃ msg, s.physicsPc = .parsing msg ∧ s.physics.parseMessage msg s.server = .error e := by
  have hcall {t : GameServer} {r : LocalServer × List Call} (hs : (t.apply order r).fault = some e)
      (ht : t.fault = none) : e = .deletedPhysics := by
    rcases apply_fault r with hsame | hdeleted
    · rw [hsame, ht] at hs
      cases hs
    · exact (Option.some.inj (hdeleted.symm.trans hs)).symm
  have hsame (hs : s'.fault = s.fault) : False := by
    rw [hs, hf] at he
    cases he
  cases h with
  | quietServer h => exact (hsame h.fault).elim
  | quietPhysics h => exact (hsame h.fault).elim
  | addClient hc hadd => exact Or.inl (hcall he hf)
  | removeClient hc => exact Or.inl (hcall he hf)
  | receive h => exact (hsame rfl).elim
  | takeServer hpc hq => exact (hsame rfl).elim
  | @handle msg hpc =>
    cases msg with
    | loadPlayer sender template =>
      simp only [GameServer.handle] at he
      exact Or.inl (hcall he hf)
    | input sender state =>
      simp only [GameServer.handle, onPhysics] at he
      split at he
      · exact Or.inl (Option.some.inj he).symm
      · exact absurd (hf.symm.trans he) (by simp)
    | _ => exact (hsame rfl).elim
  | mob hpc =>
    rw [allocPhysical_eq] at he
    exact Or.inl (hcall he hf)
  | blocker hpc =>
    rw [allocPhysical_eq] at he
    exact Or.inl (hcall he hf)
  | pushBack hpc => exact (hsame rfl).elim
  | close hpc => exact Or.inl (hcall he hf)
  | takePhysics hpc hq => exact (hsame rfl).elim
  | @parse msg mats hpc =>
    cases hparse : s.physics.parseMessage msg s.server with
    | ok r => exact (hsame (by rw [parse_ok hparse]; rfl)).elim
    | error e' =>
      rw [parse_error hparse] at he
      obtain rfl := Option.some.inj he
      exact Or.inr ⟨msg, hpc, hparse⟩
  | callbacks hpc => exact (hsame rfl).elim
  | transforms hpc => exact Or.inl (hcall he hf)

theorem parseMessage_nullObject {p : BtPhysics} {msg : ServerMsg} {srv : LocalServer}
    (h : p.parseMessage msg srv = .error .nullObject) : ∃ id, msg = .bullet (.delPhys id) := by
  cases msg with
  | bullet b =>
    cases b with
    | delPhys id => exact ⟨id, rfl⟩
    | delChar id =>
      simp only [BtPhysics.parseMessage, BtPhysics.parseBullet, BtPhysics.delCharObject] at h
      split at h <;> cases h
    | addPhys id template matrix =>
      simp only [BtPhysics.parseMessage, BtPhysics.parseBullet] at h
      split at h <;> cases h
    | _ => cases h
  | _ => cases h

instance (s : GameServer) (a : Action) : Decidable (s.LeavesInTime a) :=
  match a with
  | .removeClient c =>
    inferInstanceAs (Decidable (s.physicsDeleted = true → (s.server.clients.find? c).getD 0 = 0))
  | .addClient _ | .pushMessage _ | .server | .physics _ => inferInstanceAs (Decidable True)

/-- What keeps the locked-queue build from faulting until the physics is deleted. -/
structure Sound (s : GameServer) : Prop where
  ownIds : s.OwnIds
  tracked : s.Tracked
  inLine : s.InLine
  present : s.DeletesPresent
  objectsStay : s.ObjectsStay
  late : s.Late

theorem sound_init (playerSpawn : Mat4) (world : List WorldEntry) : (init playerSpawn world).Sound where
  ownIds := ownIds_init playerSpawn world
  tracked := tracked_init playerSpawn world
  inLine := List.Pairwise.nil
  present := ⟨fun id hpc => (by cases hpc), by simp [init]⟩
  objectsStay := ⟨fun id hm => (by cases hm), fun id hm => (by cases hm)⟩
  late := by simp [init, Late]

theorem Sound.no_fault (hi : s.Sound) (hok : s.LeavesInTime a) (hs : step .fifo s a = some s') :
    s'.fault = none := by
  obtain ⟨hf, h⟩ := step_change hs
  cases he : s'.fault with
  | none => rfl
  | some e =>
    rcases h.fault_cases hf he with rfl | ⟨msg, hpc, hparse⟩
    · exact absurd he (h.uncalled hi.late hok hf)
    · cases e with
      | nullObject =>
        obtain ⟨id, rfl⟩ := parseMessage_nullObject hparse
        exact absurd (by simp [physicsPending, hpc, PhysicsPc.hand]) (hi.objectsStay.pending id)
      | nullCharacter =>
        obtain ⟨id, rfl, hno⟩ := parseMessage_nullCharacter hparse
        exact absurd (hi.present.present id hpc) hno
      | deletedPhysics => exact absurd he (h.uncalled hi.late hok hf)

theorem Sound.step (hi : s.Sound) (hfresh : s.IdsFresh a) (hs : step .fifo s a = some s')
    (hfault : s'.fault = none) : s'.Sound := by
  have h := (step_change hs).2
  exact {
    ownIds := h.ownIds hi.ownIds hfresh
    tracked := h.tracked hi.ownIds hfresh hi.tracked hfault
    inLine := h.inLine hi.inLine hi.tracked hfresh
    present := deletesPresent_step hi.present hi.tracked (hi.inLine.createdFirst a) hs
    objectsStay := h.objectsStay hi.objectsStay
    late := h.late hi.late }

/-- While ids are fresh, the locked-queue build never faults precisely in the
runs in which no player leaves after the physics is deleted. -/
theorem fifo_never_faults_iff (playerSpawn : Mat4) (world : List WorldEntry) {as : List Action}
    (h : Guarded (step .fifo) IdsFresh (init playerSpawn world) as) :
    Along (step .fifo) (fun s => s.fault = none) (init playerSpawn world) as ↔
      Guarded (step .fifo) LeavesInTime (init playerSpawn world) as := by
  refine along_iff_guarded_of (fun s : GameServer => s.fault = none ∧ s.Sound) (fun s hs => hs.1) ?_ ?_ ?_ h
  · rintro s a s' ⟨_, hi⟩ hfresh hok hs
    have hfault := hi.no_fault hok hs
    exact ⟨hfault, hi.step hfresh hs hfault⟩
  · rintro s a s' _ _ hno hs
    cases a with
    | removeClient c =>
      obtain ⟨hd, hid⟩ : s.physicsDeleted = true ∧ (s.server.clients.find? c).getD 0 ≠ 0 := by
        simpa [LeavesInTime] using hno
      cases (step_change hs).2 with
      | removeClient hadd => simp [record, removeClient_deletedPhysics hd hid]
    | _ => exact absurd trivial hno
  · exact ⟨rfl, sound_init playerSpawn world⟩

/-- A player loads and leaves within one tick; the default queue faults here. -/
theorem fifo_never_faults_iff_same_tick : Along (step .fifo) (fun s => s.fault = none) (init zeroMat [])
    [.server, .addClient 1, .pushMessage (.loadPlayer 1 [80]), .server, .server, .removeClient 1,
      .physics [], .physics [], .physics [], .physics [], .physics []] :=
  (fifo_never_faults_iff zeroMat [] (by decide)).mpr (by decide)

end GameServer

end Quintses
