import Quintses.Ids

/-! The end of a run: the server thread stops and deletes the physics and then
closes its clients, while the network thread goes on until the watcher of
`qntsrv.cpp` stops it. -/

namespace Quintses

open Lts

def ServerPc.joined : ServerPc → Bool
  | .deleting | .closing | .clearing | .done => true
  | _ => false

namespace GameServer

variable {order : PopOrder} {s s' : GameServer} {a : Action}

def Late (s : GameServer) : Prop := s.physicsDeleted = true → s.serverPc.late = true

theorem apply_late {r : LocalServer × List Call} (h : s.Late) : (s.apply order r).Late := by
  intro hd
  rw [apply_serverPc]
  refine h ?_
  rw [apply_eq] at hd
  exact hd

theorem handle_physicsDeleted (msg : ServerMsg) :
    (s.handle order msg).physicsDeleted = s.physicsDeleted := by
  cases msg with
  | input sender state =>
    simp only [handle, onPhysics]
    split <;> rfl
  | loadPlayer sender template =>
    rw [handle, apply_eq]
    rfl
  | _ => rfl

theorem parse_physicsDeleted (msg : ServerMsg) : (s.parse msg).physicsDeleted = s.physicsDeleted := by
  unfold parse
  split <;> rfl

theorem Change.late (h : Change order s a s') (hl : s.Late) : s'.Late := by
  have hlive {pc : ServerPc} (hpc : s.serverPc = pc) (hearly : pc.late = false)
      (hs : s'.physicsDeleted = s.physicsDeleted) : s'.Late := by
    intro hd
    have hlate := hl (hs.symm.trans hd)
    rw [hpc, hearly] at hlate
    cases hlate
  cases h with
  | quietServer h => exact h.late hl
  | quietPhysics h => exact h.late hl
  | @addClient d hc hadd => exact apply_late (s := s.record (.addClient d)) hl
  | removeClient hc => exact apply_late (s := s) hl
  | receive h => exact hl
  | takeServer hpc hq => exact hlive hpc rfl rfl
  | handle hpc => exact hlive hpc rfl (handle_physicsDeleted _)
  | mob hpc =>
    refine hlive hpc rfl ?_
    rw [allocPhysical_eq, apply_eq]
    rfl
  | blocker hpc =>
    refine hlive hpc rfl ?_
    rw [allocPhysical_eq, apply_eq]
    rfl
  | pushBack hpc => exact hlive hpc rfl rfl
  | close hpc => exact apply_late (s := s.goto .clearing) (fun _ => rfl)
  | takePhysics hpc hq => exact hl
  | parse hpc =>
    intro hd
    rw [parse_serverPc]
    exact hl ((parse_physicsDeleted _).symm.trans hd)
  | callbacks hpc => exact hl
  | transforms hpc => exact apply_late (s := s.gotoPhysics .loopHead) hl

/-- Nobody has called the physics after its deletion, and neither thread that
uses it without a check can do so any more. -/
structure PhysicsUnused (s : GameServer) : Prop where
  uncalled : s.fault ≠ some .deletedPhysics
  late : s.Late
  stopped : s.physicsDeleted = true → s.physicsPc = .stopped

/-- Once the physics is deleted, only clients without a player are removed. -/
def LeavesInTime (s : GameServer) : Action → Prop
  | .removeClient c => s.physicsDeleted = true → (s.server.clients.find? c).getD 0 = 0
  | .addClient _ | .pushMessage _ | .server | .physics _ => True

def Joined (s : GameServer) : Prop := s.serverPc.joined = true → s.physicsPc = .stopped

theorem apply_joined {r : LocalServer × List Call} (h : s.Joined) : (s.apply order r).Joined := by
  rw [Joined, apply_serverPc, apply_physicsPc]
  exact h

theorem stepServer_joined (hj : s.Joined) (h : s.stepServer order = some s') : s'.Joined := by
  unfold stepServer at h
  split at h
  case h_1 hpc => cases h; simp [Joined, goto, ServerPc.joined]
  case h_2 spawn todo hpc => cases h; simp [Joined, goto, setServer, ServerPc.joined]
  case h_3 templ mat todo hpc =>
    cases h
    rw [allocPhysical_eq]
    exact apply_joined (by simp [Joined, goto, ServerPc.joined])
  case h_4 templ mat todo hpc =>
    cases h
    rw [allocPhysical_eq]
    exact apply_joined (by simp [Joined, goto, ServerPc.joined])
  case h_5 b todo hpc => cases h; simp [Joined, goto, setServer, ServerPc.joined]
  case h_6 hpc =>
    split at h
    · cases h
    · cases h
      simp [Joined, goto, setServer, ServerPc.joined]
  case h_7 msg hpc =>
    cases h
    rcases @handle_serverPc order s msg with he | he <;> simp [Joined, he, ServerPc.joined]
  case h_8 hpc => cases h; simp [Joined, goto, setPhysics, ServerPc.joined]
  case h_9 hpc =>
    split at h
    · cases h
      exact fun _ => by assumption
    · cases h
  case h_10 hpc => cases h; exact fun _ => hj (by rw [hpc]; rfl)
  case h_11 hpc =>
    cases h
    exact apply_joined (fun _ => hj (by rw [hpc]; rfl))
  case h_12 hpc => cases h; exact fun _ => hj (by rw [hpc]; rfl)
  case h_13 hpc => cases h

theorem stepPhysics_serverPc {mats : List Mat4} (h : s.stepPhysics order mats = some s') :
    s'.serverPc = s.serverPc := by
  unfold stepPhysics at h
  split at h
  case h_1 hpc => cases h; rfl
  case h_2 hpc =>
    split at h
    · cases h; rfl
    · split at h <;> cases h
      rfl
  case h_3 msg hpc => cases h; exact parse_serverPc s msg
  case h_4 ct hpc => cases h; rfl
  case h_5 ct hpc => cases h; exact apply_serverPc _
  case h_6 hpc => cases h; rfl
  case h_7 hpc => cases h

theorem stepPhysics_joined {mats : List Mat4} (hj : s.Joined) (h : s.stepPhysics order mats = some s') :
    s'.Joined := by
  intro hpc
  rw [stepPhysics_serverPc h] at hpc
  -- a physics thread that has stopped takes no step
  simp [stepPhysics, hj hpc] at h

theorem step_joined (hj : s.Joined) (h : step order s a = some s') : s'.Joined := by
  obtain ⟨hf, hc⟩ := step_change h
  simp only [step, hf, Option.isSome_none, Bool.false_eq_true, if_false] at h
  cases a with
  | server => exact stepServer_joined hj h
  | physics mats => exact stepPhysics_joined hj h
  | addClient c =>
    cases hc with
    | addClient hc hnew => exact apply_joined (s := s.record (.addClient c)) hj
  | removeClient c =>
    cases hc with
    | removeClient hadd => exact apply_joined (s := s) hj
  | pushMessage msg =>
    cases hc with
    | receive hm => exact hj

theorem apply_fault_of_live {r : LocalServer × List Call} (h : s.physicsDeleted = false) :
    (s.apply order r).fault = s.fault := by
  simp [apply_eq, performed, h]

theorem apply_fault_of_quiet {r : LocalServer × List Call} (h : ∀ call ∈ r.2, call.toPhysics = none) :
    (s.apply order r).fault = s.fault := by
  have hnil : r.2.filterMap Call.toPhysics = [] := List.filterMap_eq_nil_iff.mpr h
  simp [apply_eq, performed, hnil]

theorem handle_fault_of_live {msg : ServerMsg} (h : s.physicsDeleted = false) :
    (s.handle order msg).fault = s.fault := by
  cases msg with
  | input sender state => simp [handle, onPhysics, goto, record, h]
  | loadPlayer sender template => exact apply_fault_of_live h
  | _ => rfl

theorem parse_fault_ne (hf : s.fault = none) (msg : ServerMsg) :
    (s.parse msg).fault ≠ some .deletedPhysics := by
  cases msg with
  | bullet b =>
    cases hp : s.physics.parseBullet b with
    | ok p => simp [parse_bullet_ok hp, gotoPhysics, hf]
    | error e =>
      rw [parse_bullet_error hp]
      cases b with
      | delPhys objid =>
        simp only [BtPhysics.parseBullet, BtPhysics.delPhysObject] at hp
        split at hp <;> cases hp
        simp
      | delChar objid =>
        simp only [BtPhysics.parseBullet, BtPhysics.delCharObject] at hp
        split at hp <;> cases hp
        simp
      | addPhys objid template matrix =>
        simp only [BtPhysics.parseBullet] at hp
        split at hp <;> cases hp
      | _ => cases hp
  | _ => simp [parse, BtPhysics.parseMessage, gotoPhysics, hf]

theorem Change.uncalled (h : Change order s a s') (hl : s.Late) (hok : s.LeavesInTime a)
    (hf : s.fault = none) : s'.fault ≠ some .deletedPhysics := by
  have hlive {pc : ServerPc} (hpc : s.serverPc = pc) (hearly : pc.late = false) : s.physicsDeleted = false := by
    cases hd : s.physicsDeleted with
    | false => rfl
    | true =>
      have hlate := hl hd
      rw [hpc, hearly] at hlate
      cases hlate
  have hsame (he : s'.fault = s.fault) : s'.fault ≠ some .deletedPhysics := by simp [he, hf]
  cases h with
  | quietServer h => exact hsame h.fault
  | quietPhysics h => exact hsame h.fault
  | addClient hc hnew => exact hsame (apply_fault_of_quiet (fun call hm => LocalServer.toPhysics_addClient hm))
  | @removeClient c hc =>
    refine hsame ?_
    cases hd : s.physicsDeleted with
    | false => exact apply_fault_of_live hd
    | true =>
      have hid := hok hd
      exact apply_fault_of_quiet (by simp [LocalServer.removeClient, hid])
  | receive h => exact hsame rfl
  | takeServer hpc hq => exact hsame rfl
  | handle hpc => exact hsame (handle_fault_of_live (hlive hpc rfl))
  | mob hpc =>
    rw [allocPhysical_eq] at hsame ⊢
    exact hsame (apply_fault_of_live (hlive hpc rfl))
  | blocker hpc =>
    rw [allocPhysical_eq] at hsame ⊢
    exact hsame (apply_fault_of_live (hlive hpc rfl))
  | pushBack hpc => exact hsame rfl
  | close hpc => exact hsame (apply_fault_of_quiet (fun call hm => LocalServer.toPhysics_closeClients hm))
  | takePhysics hpc hq => exact hsame rfl
  | parse hpc => exact parse_fault_ne hf _
  | callbacks hpc => exact hsame rfl
  | transforms hpc =>
    exact hsame (apply_fault_of_quiet (fun call hm => LocalServer.toPhysics_pushClientTransforms hm))

theorem removeClient_deletedPhysics {c : ClientPtr} (hd : s.physicsDeleted = true)
    (hid : (s.server.clients.find? c).getD 0 ≠ 0) :
    (s.apply order (s.server.removeClient c)).fault = some .deletedPhysics := by
  simp [apply_eq, performed, hd, LocalServer.removeClient, hid, Call.toPhysics]

theorem unused_of_joined (hu : s.fault ≠ some .deletedPhysics) (hl : s.Late) (hj : s.Joined) :
    s.PhysicsUnused where
  uncalled := hu
  late := hl
  stopped hd := hj (by
    have hlate := hl hd
    revert hlate
    cases s.serverPc <;> simp [ServerPc.late, ServerPc.joined])

end GameServer

structure QntSrv where
  game : GameServer
  /-- The watcher has called `stop()` on the io service. -/
  serviceStopped : Bool

inductive QntSrvAction
  | game (a : Action)
  | watcher
  deriving DecidableEq

/-- Whether the step is taken by a handler of the io service. A shutdown
message can also come from the signal handler. -/
def Action.ofNetwork : Action → Bool
  | .addClient _ | .removeClient _ | .pushMessage (.input _ _) | .pushMessage (.loadPlayer _ _) => true
  | .pushMessage (.shutdown _) | .pushMessage (.bullet _) | .server | .physics _ => false

namespace QntSrv

def init (playerSpawn : Mat4) (world : List WorldEntry) : QntSrv := ⟨GameServer.init playerSpawn world, false⟩

def step (order : PopOrder) (q : QntSrv) (a : QntSrvAction) : Option QntSrv :=
  match a with
  | .game a =>
    if q.serviceStopped ∧ a.ofNetwork then none
    else (GameServer.step order q.game a).map (fun game => { q with game })
  | .watcher =>
    if q.game.server.running ∨ q.serviceStopped then none else some { q with serviceStopped := true }

def LeavesInTime (q : QntSrv) : QntSrvAction → Prop
  | .game a => q.game.LeavesInTime a
  | .watcher => True

variable {order : PopOrder} {q q' : QntSrv}

theorem step_game {a : Action} (h : step order q (.game a) = some q') :
    GameServer.step order q.game a = some q'.game := by
  simp only [step] at h
  split at h
  · cases h
  · obtain ⟨game, hg, rfl⟩ := Option.map_eq_some_iff.mp h
    exact hg

theorem step_watcher (h : step order q .watcher = some q') : q'.game = q.game := by
  simp only [step] at h
  split at h <;> cases h
  rfl

/-- A removal of a player after the deletion is the only way to use the physics too late. -/
theorem physics_unused_iff (order : PopOrder) (playerSpawn : Mat4) (world : List WorldEntry)
    (as : List QntSrvAction) :
    Along (step order) (fun q => q.game.PhysicsUnused) (init playerSpawn world) as ↔
      Guarded (step order) LeavesInTime (init playerSpawn world) as := by
  refine along_iff_guarded
    (fun q : QntSrv => q.game.fault ≠ some .deletedPhysics ∧ q.game.Late ∧ q.game.Joined)
    (fun q h => GameServer.unused_of_joined h.1 h.2.1 h.2.2) ?_ ?_ ?_ as
  · rintro q a q' ⟨hu, hl, hj⟩ hok hs
    cases a with
    | watcher =>
      rw [step_watcher hs]
      exact ⟨hu, hl, hj⟩
    | game a =>
      have hg := step_game hs
      obtain ⟨hf, hc⟩ := GameServer.step_change hg
      exact ⟨hc.uncalled hl hok hf, hc.late hl, GameServer.step_joined hj hg⟩
  · rintro q a q' _ hno hs hu
    cases a with
    | watcher => exact hno trivial
    | game a =>
      cases a with
      | removeClient c =>
        obtain ⟨hd, hid⟩ : q.game.physicsDeleted = true ∧ (q.game.server.clients.find? c).getD 0 ≠ 0 := by
          simpa [LeavesInTime, GameServer.LeavesInTime] using hno
        have hc := (GameServer.step_change (step_game hs)).2
        generalize q'.game = g at hc hu
        cases hc with
        | removeClient hadd => exact hu.uncalled (GameServer.removeClient_deletedPhysics hd hid)
      | _ => exact hno trivial
  · exact ⟨by simp [init, GameServer.init], by simp [init, GameServer.init, GameServer.Late],
      by simp [init, GameServer.init, GameServer.Joined, ServerPc.joined]⟩

end QntSrv

/-- A client with a player disconnects between `delete m_physics` and the end
of the server thread. -/
theorem not_unused_removal_while_closing : ¬ ∀ playerSpawn world as,
    Along (QntSrv.step .lifo) (fun q => q.game.PhysicsUnused) (QntSrv.init playerSpawn world) as := by
  intro h
  let as : List QntSrvAction := [.game (.addClient 1), .game (.pushMessage (.loadPlayer 1 [80])),
    .game .server, .game .server, .game .server, .game (.pushMessage (.shutdown 0)), .game .server,
    .game .server, .game .server, .game (.physics []), .game (.physics []), .game .server, .game .server,
    .game (.removeClient 1)]
  have hrun : (run (QntSrv.step .lifo) (QntSrv.init zeroMat []) as).map (fun q => q.game.fault) =
      some (some .deletedPhysics) := by decide
  obtain ⟨q, hq, he⟩ := Option.map_eq_some_iff.mp hrun
  exact ((h zeroMat [] as).last hq).uncalled he

end Quintses
