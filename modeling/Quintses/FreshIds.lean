import Quintses.Characters

/-! Identifiers while the counter has not come round. Each is handed out once,
so no creation finds an entry of its own id, in whatever order the queue of the
physics hands its messages over. -/

namespace Quintses

open Lts

def ServerMsg.newId? : ServerMsg → Option UInt32
  | .bullet (.addPhys id _ _) => some id
  | .bullet (.addChar id _ _) => some id
  | _ => none

namespace BtPhysics

def HasEntry (p : BtPhysics) (id : UInt32) : Prop :=
  p.objects.contains id = true ∨ p.characters.contains id = true

/-- The assignment of the new object or character finds an entry there. -/
def Replaces (p : BtPhysics) : ServerMsg → Prop
  | .bullet (.addPhys id _ _) => p.objects.contains id = true
  | .bullet (.addChar id _ _) => p.characters.contains id = true
  | _ => False

theorem contains_assign {κ ν : Type} [LinearOrder κ] {m : StdMap κ ν} {k i : κ} {v : ν}
    (h : (m.assign i v).contains k = true) : m.contains k = true ∨ k = i := by
  by_cases he : k = i
  · exact Or.inr he
  · exact Or.inl (by simpa [StdMap.contains, he] using h)

theorem contains_erase {κ ν : Type} [LinearOrder κ] {m : StdMap κ ν} {k i : κ}
    (h : (m.erase i).contains k = true) : m.contains k = true := by
  by_cases he : k = i
  · simp [StdMap.contains, he] at h
  · simpa [StdMap.contains, he] using h

variable {p p' : BtPhysics} {id : UInt32}

theorem hasEntry_setInputState {i : UInt32} {state : UInt16}
    (h : (p.setInputStateCallback i state).HasEntry id) : p.HasEntry id := by
  refine h.imp_right (fun h => ?_)
  by_cases he : id = i <;> simpa [setInputStateCallback, StdMap.contains, he] using h

theorem hasEntry_setInputStates {ids : List UInt32} {state : UInt16}
    (h : (ids.foldl (fun p id => p.setInputStateCallback id state) p).HasEntry id) : p.HasEntry id := by
  induction ids generalizing p with
  | nil => exact h
  | cons i ids ih => exact hasEntry_setInputState (ih h)

theorem cleanUp_maps (p : BtPhysics) : p.cleanUp.objects = p.objects ∧ p.cleanUp.characters = p.characters := by
  have hchars (l : List CharacterObject) (q : BtPhysics) :
      (l.foldl freeCharacter q).objects = q.objects := by
    induction l generalizing q with
    | nil => rfl
    | cons x xs ih => exact ih (q.freeCharacter x)
  have hobjs (l : List PhysicsObject) (q : BtPhysics) : (l.foldl freeObject q).objects = q.objects := by
    induction l generalizing q with
    | nil => rfl
    | cons x xs ih => exact ih (q.freeObject x)
  exact ⟨(hobjs _ _).trans (hchars _ _), (GameServer.cleanUp_fields p).2⟩

/-- A creation adds at most its own entry, every other message none. -/
theorem hasEntry_parseBullet {msg : BulletInternalMsg} (hp : p.parseBullet msg = .ok p')
    (h : p'.HasEntry id) : p.HasEntry id ∨ some id = (ServerMsg.bullet msg).newId? := by
  cases msg with
  | forceState objid state =>
    cases hp
    exact Or.inl (hasEntry_setInputState h)
  | addPhys objid template matrix =>
    simp only [parseBullet] at hp
    split at hp
    · cases hp
      rcases h with h | h
      · rcases contains_assign h with h | rfl
        · exact Or.inl (Or.inl h)
        · exact Or.inr rfl
      · exact Or.inl (Or.inr h)
    · cases hp
      exact Or.inl h
  | addChar objid template matrix =>
    cases hp
    rcases h with h | h
    · exact Or.inl (Or.inl h)
    · rcases contains_assign h with h | rfl
      · exact Or.inl (Or.inr h)
      · exact Or.inr rfl
  | delPhys objid =>
    simp only [parseBullet, delPhysObject] at hp
    split at hp <;> cases hp
    exact Or.inl (h.imp_left contains_erase)
  | delChar objid =>
    simp only [parseBullet, delCharObject] at hp
    split at hp <;> cases hp
    exact Or.inl (h.imp_right contains_erase)

end BtPhysics

namespace GameServer

def newIds (s : GameServer) : List UInt32 := s.physicsPending.filterMap ServerMsg.newId?

/-- The ids are not 0 and pairwise different, and no creation replaces an entry. -/
structure IdsApart (s : GameServer) : Prop where
  nonzero : 0 ∉ s.allocated
  distinct : s.allocated.Nodup
  replaces : ∀ msg, s.physicsPc = .parsing msg → ¬ s.physics.Replaces msg

/-- A step for which the queue of the physics is in any order. -/
def shuffledStep (order : PopOrder) (s : GameServer) (l : List ServerMsg × Action) : Option GameServer :=
  if l.1.Perm s.physics.msgQueue then
    step order (s.setPhysics (fun p => { p with msgQueue := l.1 })) l.2
  else none

theorem shuffledStep_self (order : PopOrder) (s : GameServer) (a : Action) :
    shuffledStep order s (s.physics.msgQueue, a) = step order s a :=
  if_pos (List.Perm.refl _)

/-- What a step does to the ids and to the creations on their way. -/
inductive Handed (s s' : GameServer) : Prop
  | kept (hall : s'.allocated = s.allocated) (hnext : s'.server.nextId = s.server.nextId)
    (hnew : s'.newIds.Perm s.newIds) (hsub : ∀ id, s'.physics.HasEntry id → s.physics.HasEntry id)
  | issued (hall : s'.allocated = s.server.nextId :: s.allocated)
    (hnext : s'.server.nextId = s.server.nextId + 1)
    (hnew : s'.newIds.Perm (s.server.nextId :: s.newIds) ∨ s'.newIds.Perm s.newIds)
    (hsub : ∀ id, s'.physics.HasEntry id → s.physics.HasEntry id)
  | taken {id : UInt32} (hall : s'.allocated = s.allocated) (hnext : s'.server.nextId = s.server.nextId)
    (hnew : s.newIds = id :: s'.newIds)
    (hsub : ∀ j, s'.physics.HasEntry j → s.physics.HasEntry j ∨ j = id)

variable {order : PopOrder} {s s' t : GameServer} {a : Action}

theorem newId?_toPhysics (call : Call) : call.toPhysics.bind ServerMsg.newId? = call.newId? := by
  cases call with
  | addPhysical loader id tmp mat isCharacter => cases isCharacter <;> rfl
  | delPhysical id isCharacter => cases isCharacter <;> rfl
  | _ => rfl

theorem newId?_physical? (call : Call) : (Event.call call).physical?.bind Call.newId? = call.newId? := by
  cases call <;> rfl

theorem apply_allocated (r : LocalServer × List Call) :
    (t.apply order r).allocated = (r.2.filterMap Call.newId?).reverse ++ t.allocated := by
  have hids : ((r.2.map Event.call).filterMap Event.physical?).filterMap Call.newId? =
      r.2.filterMap Call.newId? := by
    rw [List.filterMap_filterMap, List.filterMap_map]
    exact List.filterMap_congr (fun call _ => newId?_physical? call)
  rw [allocated, physicalCalls, apply_log, List.filterMap_append, List.filterMap_append,
    List.filterMap_reverse, List.filterMap_reverse, hids]
  rfl

theorem apply_newIds (r : LocalServer × List Call) :
    (t.apply order r).newIds.Perm (r.2.filterMap Call.newId? ++ t.newIds) ∨
      (t.apply order r).newIds.Perm t.newIds := by
  rw [newIds, physicsPending, apply_physicsPc, apply_eq]
  by_cases hd : t.physicsDeleted = true
  · exact Or.inr (by simp [performed, hd, newIds, physicsPending])
  · have hids : (r.2.filterMap Call.toPhysics).filterMap ServerMsg.newId? = r.2.filterMap Call.newId? := by
      rw [List.filterMap_filterMap]
      exact List.filterMap_congr (fun call _ => newId?_toPhysics call)
    have hqueue := (PopOrder.perm_foldl_add order (r.2.filterMap Call.toPhysics)
      t.physics.msgQueue).filterMap ServerMsg.newId?
    rw [List.filterMap_append, hids] at hqueue
    refine Or.inl ?_
    simp only [performed, hd, Bool.false_eq_true, if_false, BtPhysics.enqueue, List.filterMap_append,
      newIds, physicsPending]
    exact (hqueue.append_left _).trans (List.perm_append_comm_assoc _ _ _)

theorem apply_hasEntry (r : LocalServer × List Call) {id : UInt32} :
    (t.apply order r).physics.HasEntry id ↔ t.physics.HasEntry id := by
  simp only [apply_eq, performed]
  split <;> rfl

theorem apply_handed {r : LocalServer × List Call} (hall : t.allocated = s.allocated)
    (hnew : t.newIds = s.newIds) (hphysics : t.physics = s.physics)
    (hids : r.2.filterMap Call.newId? = [] ∧ r.1.nextId = s.server.nextId ∨
      r.2.filterMap Call.newId? = [s.server.nextId] ∧ r.1.nextId = s.server.nextId + 1) :
    Handed s (t.apply order r) := by
  have hsub (id : UInt32) (h : (t.apply order r).physics.HasEntry id) : s.physics.HasEntry id := by
    rw [apply_hasEntry, hphysics] at h
    exact h
  have hcalls : (t.apply order r).allocated = _ := apply_allocated r
  have hpending : (t.apply order r).newIds.Perm _ ∨ (t.apply order r).newIds.Perm _ := apply_newIds r
  rcases hids with ⟨he, hnext⟩ | ⟨he, hnext⟩
  · rw [he, hall] at hcalls
    rw [he, hnew] at hpending
    exact .kept hcalls (by rw [apply_server, hnext]) (hpending.elim id id) hsub
  · rw [he, hall] at hcalls
    rw [he, hnew] at hpending
    exact .issued hcalls (by rw [apply_server, hnext]) hpending hsub

theorem kept_of_eq (hlog : s'.physicalCalls = s.physicalCalls) (hnext : s'.server.nextId = s.server.nextId)
    (hnew : s'.newIds = s.newIds) (hsub : ∀ id, s'.physics.HasEntry id → s.physics.HasEntry id) :
    Handed s s' :=
  .kept (congrArg (List.filterMap Call.newId?) hlog) hnext (List.Perm.of_eq hnew) hsub

theorem newIds_tell {cs : List ClientPtr} {msg : ClientMsg} :
    (LocalServer.tell cs msg).filterMap Call.newId? = [] := by
  simp [LocalServer.tell, Call.newId?]

theorem newIds_removeClient {srv : LocalServer} {c : ClientPtr} :
    (srv.removeClient c).2.filterMap Call.newId? = [] := by
  have hgone (cs ds : List ClientPtr) (msg : ClientMsg) :
      (LocalServer.tell cs msg ++ LocalServer.tell ds msg).filterMap Call.newId? = [] := by
    rw [List.filterMap_append, newIds_tell, newIds_tell]
    rfl
  simp only [LocalServer.removeClient]
  split
  · exact hgone _ _ _
  · rfl

theorem recorded_handed {c : ClientPtr} (h : Handed s s') : Handed s (s'.record (.removeClient c)) := by
  cases h with
  | kept hall hnext hnew hsub => exact .kept hall hnext hnew hsub
  | issued hall hnext hnew hsub => exact .issued hall hnext hnew hsub
  | taken hall hnext hnew hsub => exact .taken hall hnext hnew hsub

theorem handle_handed {msg : ServerMsg} (s : GameServer) : Handed s (s.handle order msg) := by
  cases msg with
  | loadPlayer sender template =>
    refine apply_handed rfl rfl rfl (Or.inr ⟨?_, rfl⟩)
    exact congrArg (s.server.nextId :: ·) newIds_tell
  | input sender state =>
    simp only [handle, onPhysics]
    split
    · exact kept_of_eq rfl rfl rfl (fun _ => id)
    · refine kept_of_eq rfl rfl ?_ (fun _ => id)
      simp only [newIds, physicsPending, BtPhysics.pushMessage, goto, record, List.filterMap_append]
      rw [PopOrder.filterMap_add_of_none order _ rfl]
  | shutdown sender => exact kept_of_eq rfl rfl rfl (fun _ => id)
  | bullet b => exact kept_of_eq rfl rfl rfl (fun _ => id)

theorem stepServer_handed (h : s.stepServer order = some s') : Handed s s' := by
  unfold stepServer at h
  split at h
  case h_1 hpc => cases h; exact kept_of_eq rfl rfl rfl (fun _ => id)
  case h_2 spawn todo hpc => cases h; exact kept_of_eq rfl rfl rfl (fun _ => id)
  case h_3 templ mat todo hpc => cases h; exact apply_handed rfl rfl rfl (Or.inr ⟨rfl, rfl⟩)
  case h_4 templ mat todo hpc => cases h; exact apply_handed rfl rfl rfl (Or.inr ⟨rfl, rfl⟩)
  case h_5 b todo hpc => cases h; exact kept_of_eq rfl rfl rfl (fun _ => id)
  case h_6 hpc =>
    split at h <;> cases h
    exact kept_of_eq rfl rfl rfl (fun _ => id)
  case h_7 msg hpc => cases h; exact handle_handed s
  case h_8 hpc => cases h; exact kept_of_eq rfl rfl rfl (fun _ => id)
  case h_9 hpc =>
    split at h <;> cases h
    exact kept_of_eq rfl rfl rfl (fun _ => id)
  case h_10 hpc => cases h; exact kept_of_eq rfl rfl rfl (fun _ => id)
  case h_11 hpc =>
    cases h
    refine apply_handed rfl rfl rfl (Or.inl ⟨?_, rfl⟩)
    simp [LocalServer.closeClients, Call.newId?]
  case h_12 hpc => cases h; exact kept_of_eq rfl rfl rfl (fun _ => id)
  case h_13 hpc => cases h

theorem parse_handed {msg : ServerMsg} (hpc : s.physicsPc = .parsing msg) : Handed s (s.parse msg) := by
  have hpend : s.newIds = (msg :: s.physics.msgQueue).filterMap ServerMsg.newId? := by
    simp [newIds, physicsPending, hpc, PhysicsPc.hand]
  have hlog : (s.parse msg).allocated = s.allocated := by
    rw [allocated, physicalCalls, parse_log]
    rfl
  cases msg with
  | input sender state =>
    exact .kept hlog rfl (List.Perm.of_eq hpend.symm) (fun _ => BtPhysics.hasEntry_setInputState)
  | shutdown sender => exact .kept hlog rfl (List.Perm.of_eq hpend.symm) (fun _ => id)
  | loadPlayer sender template => exact .kept hlog rfl (List.Perm.of_eq hpend.symm) (fun _ => id)
  | bullet b =>
    cases hparse : s.physics.parseBullet b with
    | error e =>
      rw [parse_bullet_error hparse] at hlog ⊢
      exact .kept hlog rfl (List.Perm.refl _) (fun _ => id)
    | ok p =>
      rw [parse_bullet_ok hparse] at hlog ⊢
      have hqueue : p.msgQueue = s.physics.msgQueue := BtPhysics.parseBullet_msgQueue hparse
      have hrest : ({ s.gotoPhysics .draining with physics := p } : GameServer).newIds =
          s.physics.msgQueue.filterMap ServerMsg.newId? := congrArg (List.filterMap ServerMsg.newId?) hqueue
      have hentry (id : UInt32) : p.HasEntry id → _ := BtPhysics.hasEntry_parseBullet hparse
      cases hb : (ServerMsg.bullet b).newId? with
      | none =>
        refine .kept hlog rfl ?_ (fun id h => ?_)
        · rw [hrest, hpend, List.filterMap_cons_none hb]
        · simpa [hb] using hentry id h
      | some i =>
        have hnew : s.newIds = i :: s.physics.msgQueue.filterMap ServerMsg.newId? := by
          rw [hpend, List.filterMap_cons_some hb]
        refine .taken hlog rfl (hnew.trans (by rw [hrest])) (fun id h => ?_)
        · simpa [hb] using hentry id h

theorem stepPhysics_handed {mats : List Mat4} (h : s.stepPhysics order mats = some s') : Handed s s' := by
  unfold stepPhysics at h
  split at h
  case h_1 hpc =>
    cases h
    refine kept_of_eq rfl rfl ?_ (fun _ => id)
    by_cases hf : s.physics.finish = true <;>
      simp [newIds, physicsPending, gotoPhysics, hpc, hf, PhysicsPc.hand]
  case h_2 hpc =>
    split at h
    · rename_i msg rest hq
      cases h
      refine kept_of_eq rfl rfl ?_ (fun _ => id)
      simp [newIds, physicsPending, gotoPhysics, setPhysics, hpc, hq, PhysicsPc.hand]
    · split at h <;> cases h
      refine kept_of_eq rfl rfl ?_ (fun _ => id)
      simp [newIds, physicsPending, gotoPhysics, hpc, PhysicsPc.hand]
  case h_3 msg hpc => cases h; exact parse_handed hpc
  case h_4 ct hpc =>
    cases h
    refine kept_of_eq rfl rfl ?_ (fun _ => BtPhysics.hasEntry_setInputStates)
    simp [newIds, physicsPending, gotoPhysics, hpc, PhysicsPc.hand, setInputStates_msgQueue]
  case h_5 ct hpc =>
    cases h
    refine apply_handed rfl ?_ rfl (Or.inl ⟨?_, rfl⟩)
    · simp [newIds, physicsPending, gotoPhysics, hpc, PhysicsPc.hand]
    · refine List.filterMap_eq_nil_iff.mpr (fun call hc => ?_)
      rw [← newId?_toPhysics, LocalServer.toPhysics_pushClientTransforms hc]
      rfl
  case h_6 hpc =>
    cases h
    refine kept_of_eq rfl rfl ?_ (fun id hid => ?_)
    · simp [newIds, physicsPending, gotoPhysics, setPhysics, hpc, PhysicsPc.hand, cleanUp_fields]
    · simpa [setPhysics, gotoPhysics, BtPhysics.HasEntry, BtPhysics.cleanUp_maps] using hid
  case h_7 hpc => cases h

theorem step_handed (h : step order s a = some s') : Handed s s' := by
  have hf := (step_change h).1
  cases a with
  | addClient c =>
    simp only [step, hf, Option.isSome_none, Bool.false_eq_true, if_false] at h
    split at h <;> cases h
    refine apply_handed rfl rfl rfl (Or.inl ⟨?_, rfl⟩)
    refine List.filterMap_eq_nil_iff.mpr (fun call hc => ?_)
    rw [← newId?_toPhysics, LocalServer.toPhysics_addClient hc]
    rfl
  | removeClient c =>
    simp only [step, hf, Option.isSome_none, Bool.false_eq_true, if_false] at h
    split at h <;> cases h
    exact recorded_handed (apply_handed rfl rfl rfl (Or.inl ⟨newIds_removeClient, rfl⟩))
  | pushMessage msg =>
    simp only [step, hf, Option.isSome_none, Bool.false_eq_true, if_false] at h
    split at h <;> cases h
    exact kept_of_eq rfl rfl rfl (fun _ => id)
  | server =>
    simp only [step, hf, Option.isSome_none, Bool.false_eq_true, if_false] at h
    exact stepServer_handed h
  | physics mats =>
    simp only [step, hf, Option.isSome_none, Bool.false_eq_true, if_false] at h
    exact stepPhysics_handed h

/-- While the counter has not come round, it is one above the number of ids
handed out, and these are the numbers up to it. -/
structure Numbered (s : GameServer) : Prop where
  next : s.server.nextId.toNat = s.allocated.length + 1
  range : ∀ id ∈ s.allocated, 0 < id.toNat ∧ id.toNat ≤ s.allocated.length
  nodup : s.allocated.Nodup
  ledger : Ledger s.allocated s.newIds [] s.physics.HasEntry (fun _ => False)

theorem numbered_init (playerSpawn : Mat4) (world : List WorldEntry) : (init playerSpawn world).Numbered where
  next := rfl
  range id h := by cases h
  nodup := List.nodup_nil
  ledger := Ledger.empty.shrink (fun id h => by
    rcases h with h | h
    · cases h
    · cases h)

theorem Handed.allocated_le (h : Handed s s') : s.allocated.length ≤ s'.allocated.length := by
  cases h with
  | kept hall => rw [hall]
  | issued hall =>
    rw [hall, List.length_cons]
    omega
  | taken hall => rw [hall]

theorem Handed.numbered (h : Handed s s') (hn : s.Numbered) (hlen : s'.allocated.length < 2 ^ 32 - 1) :
    s'.Numbered := by
  have hcounted (hall : s'.allocated = s.allocated) (hnext : s'.server.nextId = s.server.nextId)
      (hl : Ledger s.allocated s'.newIds [] s'.physics.HasEntry (fun _ => False)) : s'.Numbered := by
    refine ⟨?_, ?_, ?_, ?_⟩
    · rw [hnext, hall]
      exact hn.next
    · rw [hall]
      exact hn.range
    · rw [hall]
      exact hn.nodup
    · rw [hall]
      exact hl
  cases h with
  | kept hall hnext hnew hsub =>
    have hl := hn.ledger.congr (fun _ hid => hid) hnew (List.Perm.refl _) (fun _ => Iff.rfl) (fun _ => id)
    exact hcounted hall hnext (hl.shrink hsub)
  | @taken id hall hnext hnew hsub =>
    have hl : Ledger s.allocated (id :: s'.newIds) [] s.physics.HasEntry (fun _ => False) := hnew ▸ hn.ledger
    exact hcounted hall hnext ((hl.create (fun _ => Iff.rfl)).shrink hsub)
  | issued hall hnext hnew hsub =>
    have hnot : s.server.nextId ∉ s.allocated := by
      intro hm
      have hle := (hn.range _ hm).2
      have hnx := hn.next
      omega
    have hsucc : (s.server.nextId + 1).toNat = s.server.nextId.toNat + 1 := by
      have hnx := hn.next
      rw [hall, List.length_cons] at hlen
      rw [UInt32.toNat_add]
      simp only [UInt32.toNat_one]
      omega
    refine ⟨?_, fun id hid => ?_, ?_, ?_⟩
    · rw [hnext, hsucc, hn.next, hall, List.length_cons]
    · rw [hall, List.length_cons]
      rw [hall] at hid
      rcases List.mem_cons.mp hid with rfl | hid
      · have hnx := hn.next
        omega
      · have hr := hn.range id hid
        omega
    · rw [hall]
      exact List.nodup_cons.mpr ⟨hnot, hn.nodup⟩
    · rw [hall]
      rcases hnew with hnew | hnew
      · have hl := hn.ledger.send_create (i := s.server.nextId) (fun _ => False) hnot (fun _ h => h.elim)
        have hl' := hl.congr (fun _ hid => hid) hnew (List.Perm.refl _) (fun _ => Iff.rfl) (fun _ => id)
        exact hl'.shrink hsub
      · have hl := hn.ledger.congr (fun _ hid => List.mem_cons_of_mem s.server.nextId hid) hnew
          (List.Perm.refl _) (fun _ => Iff.rfl) (fun _ => id)
        exact hl.shrink hsub

theorem shuffledStep_handed {l : List ServerMsg × Action} (h : shuffledStep order s l = some s') :
    ∃ t, (s.Numbered → t.Numbered) ∧ t.allocated = s.allocated ∧ Handed t s' := by
  unfold shuffledStep at h
  split at h
  · rename_i hp
    refine ⟨s.setPhysics (fun p => { p with msgQueue := l.1 }),
      fun hn => ⟨hn.next, hn.range, hn.nodup, ?_⟩, rfl, step_handed h⟩
    have hnew : (s.setPhysics (fun p => { p with msgQueue := l.1 })).newIds.Perm s.newIds :=
      ((List.Perm.refl s.physicsPc.hand).append hp).filterMap ServerMsg.newId?
    exact hn.ledger.congr (fun _ hid => hid) hnew (List.Perm.refl _) (fun _ => Iff.rfl) (fun _ => id)
  · cases h

theorem Numbered.idsApart (hn : s.Numbered) : s.IdsApart := by
  refine ⟨fun h0 => ?_, hn.nodup, fun msg hpc hr => ?_⟩
  · have hpos := (hn.range 0 h0).1
    simp at hpos
  · have hpend (id : UInt32) (hid : msg.newId? = some id) : id ∈ s.newIds := by
      refine List.mem_filterMap.mpr ⟨msg, ?_, hid⟩
      simp [physicsPending, hpc, PhysicsPc.hand]
    cases msg with
    | bullet b =>
      cases b with
      | addPhys id template matrix => exact hn.ledger.creates_absent id (hpend id rfl) (Or.inl hr)
      | addChar id template matrix => exact hn.ledger.creates_absent id (hpend id rfl) (Or.inr hr)
      | _ => exact hr
    | _ => exact hr

/-- In a run that hands out fewer than 2 ^ 32 - 1 ids they are all different and
not 0, and no creation replaces an entry, whatever order the queue comes in. -/
theorem ids_apart (order : PopOrder) (playerSpawn : Mat4) (world : List WorldEntry)
    {as : List (List ServerMsg × Action)} {s : GameServer}
    (hr : run (shuffledStep order) (init playerSpawn world) as = some s)
    (hlen : s.allocated.length < 2 ^ 32 - 1) :
    Along (shuffledStep order) IdsApart (init playerSpawn world) as := by
  have hmono (s : GameServer) (l : List ServerMsg × Action) (s' : GameServer)
      (hs : shuffledStep order s l = some s') : s.allocated.length ≤ s'.allocated.length := by
    obtain ⟨t, -, ht, hh⟩ := shuffledStep_handed hs
    exact ht ▸ hh.allocated_le
  have hshort := along_le_last hmono hr
  have hnumbered : Along (shuffledStep order) (fun s => s.allocated.length < 2 ^ 32 - 1 → s.Numbered)
      (init playerSpawn world) as := by
    refine along_of_step _ (fun s l s' hn hs hlen' => ?_) (fun _ => numbered_init playerSpawn world) as
    obtain ⟨t, ht, hall, hh⟩ := shuffledStep_handed hs
    have hle := hmono s l s' hs
    exact hh.numbered (ht (hn (by omega))) hlen'
  refine (hnumbered.and hshort).mono (fun t ht => (ht.1 ?_).idsApart)
  have hle := ht.2
  omega

/-- A wall and a baddie, whose creation the queue hands over first. -/
theorem ids_apart_three : Along (shuffledStep .fifo) IdsApart
    (init zeroMat [.blocker (literal "Floor") zeroMat, .mob [66] zeroMat])
    [([], .server), ([.bullet (.addPhys 1 (literal "Floor") zeroMat)], .server),
      ([.bullet (.addChar 2 [66] zeroMat), .bullet (.addPhys 1 (literal "Floor") zeroMat)], .physics []),
      ([.bullet (.addChar 2 [66] zeroMat), .bullet (.addPhys 1 (literal "Floor") zeroMat)], .physics []),
      ([.bullet (.addPhys 1 (literal "Floor") zeroMat)], .physics [])] := by
  have hrun : (run (shuffledStep .fifo)
      (init zeroMat [.blocker (literal "Floor") zeroMat, .mob [66] zeroMat])
      [([], .server), ([.bullet (.addPhys 1 (literal "Floor") zeroMat)], .server),
        ([.bullet (.addChar 2 [66] zeroMat), .bullet (.addPhys 1 (literal "Floor") zeroMat)], .physics []),
        ([.bullet (.addChar 2 [66] zeroMat), .bullet (.addPhys 1 (literal "Floor") zeroMat)], .physics []),
        ([.bullet (.addPhys 1 (literal "Floor") zeroMat)], .physics [])]).map
      (fun s => s.allocated) = some [2, 1] := by decide
  obtain ⟨s, hs, he⟩ := Option.map_eq_some_iff.mp hrun
  exact ids_apart .fifo zeroMat _ hs (by rw [he]; decide)

end GameServer

end Quintses
