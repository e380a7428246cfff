import Quintses.FifoBuild
import Quintses.Obedience

/-! The messages of the locked-queue build while nobody is removed. What waits
for a thread, the message in its hand first, only ever loses its first message
or gets a new last one. -/

namespace Quintses

open Lts

/-- What the server thread passes on to the physics. -/
def ServerMsg.passed (srv : LocalServer) : ServerMsg → List ServerMsg
  | .input sender state => [.input sender state]
  | .loadPlayer _ template => [.bullet (.addChar srv.nextId template srv.playerSpawn)]
  | .shutdown _ | .bullet _ => []

namespace GameServer

structure SameGame (s s' : GameServer) : Prop where
  clients : s'.server.clients = s.server.clients
  characters : s'.physics.characters = s.physics.characters

inductive Flow (s : GameServer) : Action → GameServer → Prop
  | still {a : Action} {s' : GameServer} (hserver : s'.serverPending = s.serverPending)
    (hphysics : s'.physicsPending = s.physicsPending) (hsame : SameGame s s')
    (ha : ∀ msg, a ≠ .pushMessage msg) : Flow s a s'
  | received {msg : ServerMsg} {s' : GameServer} (hserver : s'.serverPending = s.serverPending ++ [msg])
    (hphysics : s'.physicsPending = s.physicsPending) (hsame : SameGame s s') : Flow s (.pushMessage msg) s'
  | handled {msg : ServerMsg} (hpc : s.serverPc = .handling msg)
    (hserver : s.serverPending = msg :: (s.handle .fifo msg).serverPending)
    (hphysics : (s.handle .fifo msg).physicsPending = s.physicsPending ++ msg.passed s.server) :
    Flow s .server (s.handle .fifo msg)
  | made {b : BulletInternalMsg} {s' : GameServer} (hserver : s'.serverPending = s.serverPending)
    (hphysics : s'.physicsPending = s.physicsPending ++ [.bullet b]) (hsame : SameGame s s') : Flow s .server s'
  | parsed {msg : ServerMsg} {mats : List Mat4} (hpc : s.physicsPc = .parsing msg)
    (hserver : (s.parse msg).serverPending = s.serverPending)
    (hphysics : s.physicsPending = msg :: (s.parse msg).physicsPending) : Flow s (.physics mats) (s.parse msg)
  | callbacks {ct : ClientTransList} {mats : List Mat4} {s' : GameServer} (hpc : s.physicsPc = .callbacks ct)
    (hserver : s'.serverPending = s.serverPending) (hphysics : s'.physicsPending = s.physicsPending)
    (hclients : s'.server.clients = s.server.clients)
    (hchars : ∀ id, id ∉ s.server.baddies.map BaddieData.id →
      s'.physics.characters.find? id = s.physics.characters.find? id) : Flow s (.physics mats) s'

variable {s s' t : GameServer} {a : Action}

theorem apply_fifo_physicsPending {r : LocalServer × List Call} (hd : t.physicsDeleted = false) :
    (t.apply .fifo r).physicsPending = t.physicsPending ++ r.2.filterMap Call.toPhysics := by
  rw [physicsPending, apply_physicsPc, apply_eq]
  simp [performed, hd, BtPhysics.enqueue, foldl_add_fifo, physicsPending]

theorem apply_quiet_physicsPending {order : PopOrder} {r : LocalServer × List Call}
    (h : ∀ call ∈ r.2, call.toPhysics = none) : (t.apply order r).physicsPending = t.physicsPending := by
  have hnil : r.2.filterMap Call.toPhysics = [] := List.filterMap_eq_nil_iff.mpr h
  rw [physicsPending, apply_physicsPc, apply_eq]
  simp [performed, hnil, BtPhysics.enqueue, physicsPending]

theorem apply_quiet_sameGame {order : PopOrder} {r : LocalServer × List Call} (hclients : r.1.clients = s.server.clients)
    (hchars : t.physics.characters = s.physics.characters) : SameGame s (t.apply order r) :=
  ⟨by rw [apply_server, hclients], by rw [apply_characters, hchars]⟩

theorem toPhysics_loadPlayer (srv : LocalServer) (c : ClientPtr) (template : ByteString) :
    (srv.loadPlayer c template).2.filterMap Call.toPhysics =
      [.bullet (.addChar srv.nextId template srv.playerSpawn)] := by
  have hquiet (cs : List ClientPtr) (msg : ClientMsg) : (LocalServer.tell cs msg).filterMap Call.toPhysics = [] :=
    List.filterMap_eq_nil_iff.mpr (fun call hc => LocalServer.toPhysics_tell hc)
  simp [LocalServer.loadPlayer, LocalServer.getNextIdentifier, Call.toPhysics, hquiet]

theorem handle_flow {msg : ServerMsg} (hpc : s.serverPc = .handling msg) (hl : s.Late) :
    Flow s .server (s.handle .fifo msg) := by
  have hlive : s.physicsDeleted = false := by
    cases hd : s.physicsDeleted with
    | false => rfl
    | true =>
      have hlate := hl hd
      rw [hpc] at hlate
      cases hlate
  refine .handled hpc (by rw [handle_serverPending, serverPending, hpc]; rfl) ?_
  cases msg with
  | loadPlayer sender template =>
    have hh := apply_fifo_physicsPending
      (t := (s.record (.handled (.loadPlayer sender template))).goto .waiting)
      (r := s.server.loadPlayer sender template) hlive
    rw [toPhysics_loadPlayer] at hh
    exact hh
  | input sender state =>
    simp [handle, onPhysics, hlive, physicsPending, BtPhysics.pushMessage, goto, record, PopOrder.add,
      ServerMsg.passed]
  | shutdown sender => simp [handle, physicsPending, goto, record, ServerMsg.passed]
  | bullet b => simp [handle, physicsPending, goto, record, ServerMsg.passed]

theorem allocPhysical_flow {templ : ByteString} {mat : Mat4} {isCharacter : Bool} {pc : ServerPc}
    (hlive : s.physicsDeleted = false) (hhand : pc.hand = s.serverPc.hand) :
    Flow s .server ((s.goto pc).allocPhysical .fifo templ mat isCharacter) := by
  rw [allocPhysical_eq]
  have hpend : ((s.goto pc).apply .fifo (s.server.getNextIdentifier.2,
      [.addPhysical none s.server.nextId templ mat isCharacter])).physicsPending = s.physicsPending ++
        [.bullet (if isCharacter then .addChar s.server.nextId templ mat
          else .addPhys s.server.nextId templ mat)] := by
    rw [apply_fifo_physicsPending (t := s.goto pc) hlive]
    cases isCharacter <;> rfl
  refine .made ?_ hpend (apply_quiet_sameGame rfl rfl)
  rw [apply_serverPending]
  exact congrArg (· ++ s.server.msgQueue) hhand

theorem parse_flow {msg : ServerMsg} {mats : List Mat4} (hpc : s.physicsPc = .parsing msg)
    (hfault : (s.parse msg).fault = none) : Flow s (.physics mats) (s.parse msg) := by
  cases hparse : s.physics.parseMessage msg s.server with
  | error e =>
    rw [parse_error hparse] at hfault
    cases hfault
  | ok r =>
    have hqueue := parse_physicsQueue s msg
    have hhand : (s.parse msg).physicsPc.hand = [] := by
      rw [parse_ok hparse]
      rfl
    have hserverQueue : (s.parse msg).server.msgQueue = s.server.msgQueue := by
      rw [parse_server]
      cases msg <;> rfl
    refine .parsed hpc ?_ ?_
    · rw [serverPending, serverPending, parse_serverPc, hserverQueue]
    · rw [physicsPending, physicsPending, hqueue, hhand, hpc]
      rfl

theorem Change.flow (h : Change .fifo s a s') (hl : s.Late) (hfault : s'.fault = none)
    (hremove : ∀ c, a ≠ .removeClient c) : Flow s a s' := by
  have hlive {pc : ServerPc} (hpc : s.serverPc = pc) (hearly : pc.late = false) : s.physicsDeleted = false := by
    cases hd : s.physicsDeleted with
    | false => rfl
    | true =>
      have hlate := hl hd
      rw [hpc, hearly] at hlate
      cases hlate
  cases h with
  | quietServer h =>
    refine .still ?_ ?_ ⟨h.clients, h.characters⟩ (by simp)
    · rw [GameServer.serverPending, h.serverHand, h.serverQueue, GameServer.serverPending]
    · rw [GameServer.physicsPending, h.physicsHand, h.physicsQueue, GameServer.physicsPending]
  | quietPhysics h =>
    refine .still ?_ ?_ ⟨h.clients, h.characters⟩ (by simp)
    · rw [GameServer.serverPending, h.serverHand, h.serverQueue, GameServer.serverPending]
    · rw [GameServer.physicsPending, h.physicsHand, h.physicsQueue, GameServer.physicsPending]
  | @addClient c hc hnew =>
    refine .still ?_ ?_ (apply_quiet_sameGame rfl rfl) (by simp)
    · rw [apply_serverPending]
      rfl
    · exact apply_quiet_physicsPending (fun call hc => LocalServer.toPhysics_addClient hc)
  | @removeClient c hc => exact absurd rfl (hremove c)
  | receive h => exact .received (by simp [GameServer.serverPending, setServer, record, PopOrder.add]) rfl ⟨rfl, rfl⟩
  | takeServer hpc hq =>
    refine .still ?_ rfl ⟨rfl, rfl⟩ (by simp)
    simp [GameServer.serverPending, goto, setServer, ServerPc.hand, hpc, hq]
  | handle hpc => exact handle_flow hpc hl
  | mob hpc =>
    exact allocPhysical_flow (hlive hpc rfl) (by rw [hpc]; rfl)
  | blocker hpc =>
    exact allocPhysical_flow (hlive hpc rfl) (by rw [hpc]; rfl)
  | pushBack hpc =>
    refine .still ?_ rfl ⟨rfl, rfl⟩ (by simp)
    rw [GameServer.serverPending, GameServer.serverPending, hpc]
    rfl
  | close hpc =>
    refine .still ?_ ?_ (apply_quiet_sameGame rfl rfl) (by simp)
    · rw [apply_serverPending, GameServer.serverPending, hpc]
      rfl
    · exact apply_quiet_physicsPending (fun call hc => LocalServer.toPhysics_closeClients hc)
  | takePhysics hpc hq =>
    refine .still rfl ?_ ⟨rfl, rfl⟩ (by simp)
    simp [GameServer.physicsPending, gotoPhysics, setPhysics, hpc, hq, PhysicsPc.hand]
  | parse hpc => exact parse_flow hpc hfault
  | callbacks hpc =>
    refine .callbacks hpc rfl ?_ rfl (fun id hid => setInputStates_state? _ hid _)
    simp [GameServer.physicsPending, gotoPhysics, hpc, PhysicsPc.hand, setInputStates_msgQueue]
  | transforms hpc =>
    refine .still ?_ ?_ (apply_quiet_sameGame rfl rfl) (by simp)
    · rw [apply_serverPending]
      rfl
    · rw [apply_quiet_physicsPending (fun call hc => LocalServer.toPhysics_pushClientTransforms hc),
        GameServer.physicsPending, GameServer.physicsPending, hpc]
      rfl

end GameServer

end Quintses
