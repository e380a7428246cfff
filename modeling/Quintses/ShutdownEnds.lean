import Quintses.FreshIds
import Quintses.PhysicsWorld
import Quintses.Shutdown

/-! The end of the game server. Once a shutdown message has been taken up both
threads come to their end in a bounded number of steps, and the physics has
then given everything back. -/

namespace Quintses

open Lts

/-- `finish` has been called. -/
def ServerPc.finished : ServerPc → Bool
  | .joining | .deleting | .closing | .clearing | .done => true
  | _ => false

/-- The steps left to the server thread after `finish` has been called. -/
def ServerPc.left : ServerPc → Nat
  | .joining => 4
  | .deleting => 3
  | .closing => 2
  | .clearing => 1
  | _ => 0

/-- The steps left to the physics thread when `m_finish` is set. -/
def PhysicsPc.left (queued : Nat) : PhysicsPc → Nat
  | .stopped => 0
  | .cleaning => 1
  | .loopHead => 2
  | .transforms _ => 3
  | .callbacks _ => 4
  | .draining => 5 + 2 * queued
  | .parsing _ => 6 + 2 * queued

def Action.ofThreads : Action → Bool
  | .server | .physics _ => true
  | .addClient _ | .removeClient _ | .pushMessage _ => false

def Action.removes : Action → Bool
  | .removeClient _ => true
  | .addClient _ | .pushMessage _ | .server | .physics _ => false

namespace BtPhysics

variable {p p' : BtPhysics}

theorem parseBullet_finish {msg : BulletInternalMsg} (h : p.parseBullet msg = .ok p') : p'.finish = p.finish := by
  cases msg with
  | forceState objid state => cases h; rfl
  | addChar objid template matrix => cases h; rfl
  | addPhys objid template matrix =>
    simp only [parseBullet] at h
    split at h <;> cases h <;> rfl
  | delPhys objid =>
    simp only [parseBullet, delPhysObject] at h
    split at h <;> cases h
    rfl
  | delChar objid =>
    simp only [parseBullet, delCharObject] at h
    split at h <;> cases h
    rfl

theorem setInputStates_finish (ids : List UInt32) (state : UInt16) (p : BtPhysics) :
    (ids.foldl (fun p id => p.setInputStateCallback id state) p).finish = p.finish := by
  induction ids generalizing p with
  | nil => rfl
  | cons id ids ih => exact ih (p.setInputStateCallback id state)

theorem cleanUp_finish (p : BtPhysics) : p.cleanUp.finish = p.finish := by
  have hchars (l : List CharacterObject) (q : BtPhysics) : (l.foldl freeCharacter q).finish = q.finish := by
    induction l generalizing q with
    | nil => rfl
    | cons x xs ih => exact ih (q.freeCharacter x)
  have hobjs (l : List PhysicsObject) (q : BtPhysics) : (l.foldl freeObject q).finish = q.finish := by
    induction l generalizing q with
    | nil => rfl
    | cons x xs ih => exact ih (q.freeObject x)
  exact (hobjs _ _).trans (hchars _ _)

end BtPhysics

namespace GameServer

structure Finishing (s : GameServer) : Prop where
  finish : s.physics.finish = true
  server : s.serverPc.finished = true

/-- What the threads can still do; after a fault nothing. -/
def left (s : GameServer) : Nat :=
  if s.fault.isSome then 0 else s.serverPc.left + s.physicsPc.left s.physics.msgQueue.length

/-- The threads have come to their end, by a fault or as they should. -/
def Ended (s : GameServer) : Prop := s.fault.isSome ∨ s.serverPc = .done ∧ s.physicsPc = .stopped

variable {order : PopOrder} {s s' t : GameServer} {a : Action}

theorem left_of_live (h : s.fault = none) :
    s.left = s.serverPc.left + s.physicsPc.left s.physics.msgQueue.length := by
  simp [left, h]

theorem left_le (s : GameServer) : s.left ≤ s.serverPc.left + s.physicsPc.left s.physics.msgQueue.length := by
  unfold left
  split
  · exact Nat.zero_le _
  · exact Nat.le_refl _

theorem physicsPc_left_le (pc : PhysicsPc) {queued queued' more : Nat} (h : queued' ≤ queued + more) :
    pc.left queued' ≤ pc.left queued + 2 * more := by
  cases pc <;> simp only [PhysicsPc.left] <;> omega

theorem apply_finish (r : LocalServer × List Call) : (s.apply order r).physics.finish = s.physics.finish := by
  simp only [apply_eq, performed]
  split <;> rfl

theorem apply_queue_length (order : PopOrder) (s : GameServer) (r : LocalServer × List Call) : (s.apply order r).physics.msgQueue.length ≤
    s.physics.msgQueue.length + (r.2.filterMap Call.toPhysics).length := by
  simp only [apply_eq, performed]
  split
  · exact Nat.le_add_right _ _
  · have hperm := PopOrder.perm_foldl_add order (r.2.filterMap Call.toPhysics) s.physics.msgQueue
    simp only [BtPhysics.enqueue, hperm.length_eq, List.length_append]
    omega

theorem apply_left (order : PopOrder) (s : GameServer) (r : LocalServer × List Call) : (s.apply order r).left ≤
    s.serverPc.left + s.physicsPc.left s.physics.msgQueue.length + 2 * (r.2.filterMap Call.toPhysics).length := by
  have hphysics := physicsPc_left_le s.physicsPc (apply_queue_length order s r)
  have hle := left_le (s.apply order r)
  rw [apply_serverPc, apply_physicsPc] at hle
  omega

theorem apply_left_of_quiet (order : PopOrder) (s : GameServer) (r : LocalServer × List Call)
    (h : ∀ call ∈ r.2, call.toPhysics = none) :
    (s.apply order r).left ≤ s.serverPc.left + s.physicsPc.left s.physics.msgQueue.length := by
  have hle := apply_left order s r
  have hnil : r.2.filterMap Call.toPhysics = [] := List.filterMap_eq_nil_iff.mpr h
  rwa [hnil] at hle

theorem removeClient_toPhysics_length (srv : LocalServer) (c : ClientPtr) :
    ((srv.removeClient c).2.filterMap Call.toPhysics).length ≤ 1 := by
  have hgone (cs ds : List ClientPtr) (msg : ClientMsg) :
      (LocalServer.tell cs msg ++ LocalServer.tell ds msg).filterMap Call.toPhysics = [] := by
    refine List.filterMap_eq_nil_iff.mpr (fun call hc => ?_)
    rcases List.mem_append.mp hc with hc | hc
    · exact LocalServer.toPhysics_tell hc
    · exact LocalServer.toPhysics_tell hc
  simp only [LocalServer.removeClient]
  split
  · simp [Call.toPhysics, hgone]
  · simp

theorem stepServer_ending (h : s.Finishing) (hf : s.fault = none) (hs : s.stepServer order = some s') :
    s'.Finishing ∧ 1 + s'.left ≤ s.left := by
  have hlive := left_of_live hf
  have hpc := h.server
  unfold stepServer at hs
  split at hs
  case h_9 hjoin =>
    split at hs <;> cases hs
    refine ⟨⟨h.finish, rfl⟩, (Nat.add_le_add_left (left_le _) 1).trans ?_⟩
    rw [hlive, hjoin]
    simp only [goto, ServerPc.left]
    omega
  case h_10 hdel =>
    cases hs
    refine ⟨⟨h.finish, rfl⟩, (Nat.add_le_add_left (left_le _) 1).trans ?_⟩
    rw [hlive, hdel]
    simp only [goto, ServerPc.left]
    omega
  case h_11 hclose =>
    cases hs
    have hquiet := apply_left_of_quiet order (s.goto .clearing) (s.server, s.server.closeClients)
      (fun call hc => LocalServer.toPhysics_closeClients hc)
    refine ⟨⟨(apply_finish _).trans h.finish, by rw [apply_serverPc]; rfl⟩, ?_⟩
    rw [hlive, hclose]
    simp only [goto, ServerPc.left] at hquiet ⊢
    omega
  case h_12 hclear =>
    cases hs
    refine ⟨⟨h.finish, rfl⟩, (Nat.add_le_add_left (left_le _) 1).trans ?_⟩
    rw [hlive, hclear]
    simp only [goto, setServer, ServerPc.left]
    omega
  case h_13 => cases hs
  all_goals
    rename_i hearly
    rw [hearly] at hpc
    cases hpc

theorem parse_finish (msg : ServerMsg) : (s.parse msg).physics.finish = s.physics.finish := by
  cases msg with
  | bullet b =>
    cases hparse : s.physics.parseBullet b with
    | error e => rw [parse_bullet_error hparse]
    | ok p =>
      rw [parse_bullet_ok hparse]
      exact BtPhysics.parseBullet_finish hparse
  | _ => rfl

/-- The message is gone, or there is a fault. -/
theorem parse_left {msg : ServerMsg} (hf : s.fault = none) (hpc : s.physicsPc = .parsing msg) :
    1 + (s.parse msg).left ≤ s.left := by
  have hqueue := parse_physicsQueue s msg
  have hserver := parse_serverPc s msg
  rw [left_of_live hf, hpc]
  cases hparse : s.physics.parseMessage msg s.server with
  | error e =>
    rw [parse_error hparse]
    simp only [left, Option.isSome_some, if_true, PhysicsPc.left]
    omega
  | ok r =>
    have hhand : (s.parse msg).physicsPc = .draining := by
      rw [parse_ok hparse]
      rfl
    have hle := left_le (s.parse msg)
    rw [hhand, hqueue, hserver] at hle
    simp only [PhysicsPc.left] at hle ⊢
    omega

theorem stepPhysics_ending {mats : List Mat4} (h : s.Finishing) (hf : s.fault = none)
    (hs : s.stepPhysics order mats = some s') : s'.Finishing ∧ 1 + s'.left ≤ s.left := by
  have hserver : s'.serverPc.finished = true := by
    rw [stepPhysics_serverPc hs]
    exact h.server
  have hlive := left_of_live hf
  unfold stepPhysics at hs
  split at hs
  case h_1 hpc =>
    cases hs
    refine ⟨⟨h.finish, hserver⟩, (Nat.add_le_add_left (left_le _) 1).trans ?_⟩
    rw [hlive, hpc]
    simp only [gotoPhysics, h.finish, if_true, PhysicsPc.left]
    omega
  case h_2 hpc =>
    split at hs
    · rename_i msg rest hq
      cases hs
      refine ⟨⟨h.finish, hserver⟩, (Nat.add_le_add_left (left_le _) 1).trans ?_⟩
      rw [hlive, hpc, hq]
      simp only [gotoPhysics, setPhysics, PhysicsPc.left, List.length_cons]
      omega
    · rename_i hq
      split at hs <;> cases hs
      refine ⟨⟨h.finish, hserver⟩, (Nat.add_le_add_left (left_le _) 1).trans ?_⟩
      rw [hlive, hpc]
      simp only [gotoPhysics, PhysicsPc.left]
      omega
  case h_3 msg hpc =>
    cases hs
    exact ⟨⟨(parse_finish msg).trans h.finish, hserver⟩, parse_left hf hpc⟩
  case h_4 ct hpc =>
    cases hs
    refine ⟨⟨(BtPhysics.setInputStates_finish _ _ _).trans h.finish, hserver⟩,
      (Nat.add_le_add_left (left_le _) 1).trans ?_⟩
    rw [hlive, hpc]
    simp only [gotoPhysics, PhysicsPc.left]
    omega
  case h_5 ct hpc =>
    cases hs
    have hquiet := apply_left_of_quiet order (s.gotoPhysics .loopHead) (s.server, s.server.pushClientTransforms ct)
      (fun call hc => LocalServer.toPhysics_pushClientTransforms hc)
    refine ⟨⟨(apply_finish _).trans h.finish, hserver⟩, ?_⟩
    rw [hlive, hpc]
    simp only [gotoPhysics, PhysicsPc.left] at hquiet ⊢
    omega
  case h_6 hpc =>
    cases hs
    refine ⟨⟨(BtPhysics.cleanUp_finish _).trans h.finish, hserver⟩,
      (Nat.add_le_add_left (left_le _) 1).trans ?_⟩
    rw [hlive, hpc]
    simp only [gotoPhysics, setPhysics, PhysicsPc.left]
    omega
  case h_7 => cases hs

/-- A step of a thread takes one of the steps that are left; a removal can add
the handling of one message. -/
theorem step_ending (h : s.Finishing) (hs : step order s a = some s') :
    s'.Finishing ∧ (if a.ofThreads then 1 else 0) + s'.left ≤ s.left + (if a.removes then 2 else 0) := by
  obtain ⟨hf, hc⟩ := step_change hs
  have hlive := left_of_live hf
  cases a with
  | addClient c =>
    cases hc with
    | addClient hc hnew =>
      have hquiet := apply_left_of_quiet order (s.record (.addClient c)) (s.server.addClient c)
        (fun call hc => LocalServer.toPhysics_addClient hc)
      refine ⟨⟨(apply_finish _).trans h.finish, by rw [apply_serverPc]; exact h.server⟩, ?_⟩
      simp only [Action.ofThreads, Action.removes, record, Bool.false_eq_true, if_false] at hquiet ⊢
      omega
  | removeClient c =>
    cases hc with
    | removeClient hadd =>
      have hle := apply_left order s (s.server.removeClient c)
      have hone := removeClient_toPhysics_length s.server c
      have hsame : ((s.apply order (s.server.removeClient c)).record (.removeClient c)).left =
          (s.apply order (s.server.removeClient c)).left := rfl
      have hpc : (s.apply order (s.server.removeClient c)).serverPc.finished = true := by
        rw [apply_serverPc]
        exact h.server
      refine ⟨⟨(apply_finish (s := s) _).trans h.finish, hpc⟩, ?_⟩
      simp only [Action.ofThreads, Action.removes, Bool.false_eq_true, if_false, if_true, hsame]
      omega
  | pushMessage msg =>
    cases hc with
    | receive hm =>
      refine ⟨⟨h.finish, h.server⟩, ?_⟩
      have hsame : ((s.record (.received msg)).setServer (fun srv =>
          { srv with msgQueue := order.add srv.msgQueue msg })).left = s.left := rfl
      simp only [Action.ofThreads, Action.removes, Bool.false_eq_true, if_false, hsame]
      omega
  | server =>
    simp only [step, hf, Option.isSome_none, Bool.false_eq_true, if_false] at hs
    exact stepServer_ending h hf hs
  | physics mats =>
    simp only [step, hf, Option.isSome_none, Bool.false_eq_true, if_false] at hs
    exact stepPhysics_ending h hf hs

/-- Until the end one of the threads can go on. -/
theorem Finishing.progress (h : s.Finishing) (hend : ¬ s.Ended) :
    ∃ a, a.ofThreads = true ∧ (step order s a).isSome := by
  obtain ⟨hf, hnot⟩ := not_or.mp hend
  have hnone : s.fault.isSome = false := by simpa using hf
  by_cases hstop : s.physicsPc = .stopped
  · refine ⟨.server, rfl, ?_⟩
    have hpc := h.server
    simp only [step, hnone, Bool.false_eq_true, if_false]
    cases hs : s.serverPc with
    | joining => simp [stepServer, hs, hstop]
    | done => exact absurd ⟨hs, hstop⟩ hnot
    | deleting => simp [stepServer, hs]
    | closing => simp [stepServer, hs]
    | clearing => simp [stepServer, hs]
    | _ =>
      rw [hs] at hpc
      cases hpc
  · -- the simulation has a matrix for each character
    refine ⟨.physics (s.physics.characters.keys.map (fun _ => zeroMat)), rfl, ?_⟩
    simp only [step, hnone, Bool.false_eq_true, if_false]
    cases hp : s.physicsPc with
    | stopped => exact absurd hp hstop
    | draining => cases hq : s.physics.msgQueue <;> simp [stepPhysics, hp, hq]
    | _ => simp [stepPhysics, hp]

theorem step_finishing (hpc : s.serverPc = .finishing) (hs : step order s a = some s') :
    s'.serverPc = .finishing ∨ s'.Finishing := by
  obtain ⟨hf, hc⟩ := step_change hs
  cases a with
  | addClient c =>
    cases hc with
    | addClient hc hnew => exact Or.inl ((apply_serverPc _).trans hpc)
  | removeClient c =>
    cases hc with
    | removeClient hadd => exact Or.inl ((apply_serverPc (s := s) _).trans hpc)
  | pushMessage msg =>
    cases hc with
    | receive hm => exact Or.inl hpc
  | server =>
    simp only [step, hf, Option.isSome_none, Bool.false_eq_true, if_false, stepServer, hpc] at hs
    cases hs
    exact Or.inr ⟨rfl, rfl⟩
  | physics mats =>
    simp only [step, hf, Option.isSome_none, Bool.false_eq_true, if_false] at hs
    exact Or.inl ((stepPhysics_serverPc hs).trans hpc)

/-- The server thread is past its loop once it has taken up a shutdown. -/
def PastLoop (s : GameServer) : Prop :=
  (∃ c, .handled (.shutdown c) ∈ s.log) → s.serverPc = .finishing ∨ s.Finishing

theorem step_pastLoop (h : s.PastLoop) (hs : step order s a = some s') : s'.PastLoop := by
  rintro ⟨c, hc⟩
  rcases ((step_change hs).2.handled_iff _).mp hc with ⟨rfl, hpc⟩ | hold
  · rw [step_handling hpc hs]
    exact Or.inl rfl
  · rcases h ⟨c, hold⟩ with hpc | hfin
    · exact step_finishing hpc hs
    · exact Or.inr (step_ending hfin hs).1

/-- After a shutdown, once `finish` has been called, the threads take only so
many steps more, and one of them can always go on until both have ended. -/
theorem shutdown_ends (order : PopOrder) (playerSpawn : Mat4) (world : List WorldEntry) {as bs : List Action}
    {s t : GameServer} {c : ClientPtr} (hs : run (step order) (init playerSpawn world) as = some s)
    (hshutdown : .handled (.shutdown c) ∈ s.log) (hcalled : s.serverPc ≠ .finishing)
    (hrun : run (step order) s bs = some t) :
    bs.countP Action.ofThreads ≤ s.left + 2 * bs.countP Action.removes ∧
      (t.Ended ∨ ∃ a, a.ofThreads = true ∧ (step order t a).isSome) := by
  have hpast : s.PastLoop := (along_of_step PastLoop (fun s a s' h hs => step_pastLoop h hs)
    (fun ⟨c, hc⟩ => by cases hc) as).last hs
  have hfin : s.Finishing := (hpast ⟨c, hshutdown⟩).resolve_left hcalled
  constructor
  · have hcount := countP_le Finishing left Action.ofThreads Action.removes 2
      (fun s a s' h hs => (step_ending h hs).1) (fun s a s' h hs => (step_ending h hs).2) hfin hrun
    omega
  · have hend : t.Finishing :=
      (along_of_step Finishing (fun s a s' h hs => (step_ending h hs).1) hfin bs).last hrun
    by_cases hended : t.Ended
    · exact Or.inl hended
    · exact Or.inr (hend.progress hended)

/-- One player is in the game, the messages of two wait in the physics queue, and
`finish` has been called. -/
def signalled : List Action := [.server, .addClient 1, .addClient 2, .pushMessage (.loadPlayer 1 [80]), .server,
  .server, .physics [], .physics [], .physics [], .pushMessage (.loadPlayer 2 [80]), .server, .server,
  .pushMessage (.input 1 3), .server, .server, .pushMessage (.shutdown 0), .server, .server, .server]

/-- The player leaves while the physics thread still drains its queue. -/
def leaving : List Action := [.physics [], .removeClient 1, .physics [], .pushMessage (.input 2 1), .physics [],
  .physics [], .physics [], .physics [], .physics [zeroMat], .physics [], .physics [], .physics [], .physics [],
  .server, .server, .server, .server]

theorem shutdown_ends_leaving : ∃ s t, run (step .lifo) (init zeroMat []) signalled = some s ∧
    run (step .lifo) s leaving = some t ∧ (s.left = 13 ∧ s.physics.msgQueue.length = 2 ∧ t.Ended ∧ t.fault = none) ∧
    (leaving.countP Action.ofThreads ≤ s.left + 2 * leaving.countP Action.removes ∧
      (t.Ended ∨ ∃ a, a.ofThreads = true ∧ (step .lifo t a).isSome)) := by
  have hrun : (run (step .lifo) (init zeroMat []) signalled).map (fun s => (decide (.handled (.shutdown 0) ∈ s.log),
      s.serverPc, s.left, s.physics.msgQueue.length)) = some (true, .joining, 13, 2) := by decide
  have hthen : (run (step .lifo) (init zeroMat []) (signalled ++ leaving)).map
      (fun t => (t.serverPc, t.physicsPc, t.fault)) = some (.done, .stopped, none) := by decide
  obtain ⟨s, hs, he⟩ := Option.map_eq_some_iff.mp hrun
  obtain ⟨t, ht, hend⟩ := Option.map_eq_some_iff.mp hthen
  rw [run_append, hs, Option.bind_some] at ht
  simp only [Prod.mk.injEq, decide_eq_true_eq] at he hend
  obtain ⟨hshutdown, hjoining, hleft, hqueue⟩ := he
  obtain ⟨hdone, hstopped, hfault⟩ := hend
  exact ⟨s, t, hs, ht, ⟨hleft, hqueue, Or.inr ⟨hdone, hstopped⟩, hfault⟩,
    shutdown_ends .lifo zeroMat [] hs hshutdown (by simp [hjoining]) ht⟩

end GameServer

end Quintses
