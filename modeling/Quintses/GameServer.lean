import Quintses.BtPhysics
import Quintses.Lts

/-! `LocalServer` and `BtPhysics` together: the server thread, the physics
thread and the threads of the clients take their steps in any order. A step
under `m_clients_mutex` is one step. -/

namespace Quintses

inductive ServerPc
  | loading (todo : List WorldEntry)
  | pushBack (b : BaddieData) (todo : List WorldEntry)
  | waiting
  | handling (msg : ServerMsg)
  | finishing
  | joining
  | deleting
  | closing
  | clearing
  | done
  deriving DecidableEq

inductive PhysicsPc
  | loopHead
  | draining
  | parsing (msg : ServerMsg)
  | callbacks (ct : ClientTransList)
  | transforms (ct : ClientTransList)
  | cleaning
  | stopped
  deriving DecidableEq

/-- `removeClient` stands for the return of the call, `handled` for a message
that the server loop takes up. -/
inductive Event
  | addClient (c : ClientPtr)
  | removeClient (c : ClientPtr)
  | received (msg : ServerMsg)
  | handled (msg : ServerMsg)
  | call (call : Call)
  deriving DecidableEq

/-- The log has the newest event first. -/
structure GameServer where
  server : LocalServer
  physics : BtPhysics
  serverPc : ServerPc
  physicsPc : PhysicsPc
  physicsDeleted : Bool
  log : List Event
  fault : Option Fault

inductive Action
  | addClient (c : ClientPtr)
  | removeClient (c : ClientPtr)
  | pushMessage (msg : ServerMsg)
  | server
  /-- The matrices are used where the tick asks the simulation for them. -/
  | physics (mats : List Mat4)
  deriving DecidableEq

namespace GameServer

def init (playerSpawn : Mat4) (world : List WorldEntry) : GameServer :=
  ⟨LocalServer.new playerSpawn, BtPhysics.new, .loading world, .loopHead, false, [], none⟩

def record (s : GameServer) (e : Event) : GameServer := { s with log := e :: s.log }

def onPhysics (s : GameServer) (f : BtPhysics → BtPhysics) : GameServer :=
  if s.physicsDeleted then { s with fault := some .deletedPhysics } else { s with physics := f s.physics }

def perform (order : PopOrder) (s : GameServer) (call : Call) : GameServer :=
  let s := s.record (.call call)
  match call with
  | .pushMessage _ _ | .serverClosed _ => s
  | .addPhysical _ id tmp mat isCharacter =>
    s.onPhysics (fun p => p.addPhysical order id tmp mat isCharacter)
  | .delPhysical id isCharacter => s.onPhysics (fun p => p.delPhysical order id isCharacter)

def apply (order : PopOrder) (s : GameServer) (r : LocalServer × List Call) : GameServer :=
  r.2.foldl (perform order) { s with server := r.1 }

/-- Clients push after they have been added; a signal handler can push a shutdown. -/
def Pushable (s : GameServer) : ServerMsg → Prop
  | .shutdown _ => True
  | .input sender _ => .addClient sender ∈ s.log
  | .loadPlayer sender _ => .addClient sender ∈ s.log
  | .bullet _ => False

instance (s : GameServer) (msg : ServerMsg) : Decidable (s.Pushable msg) :=
  match msg with
  | .shutdown _ => inferInstanceAs (Decidable True)
  | .input sender _ => inferInstanceAs (Decidable (.addClient sender ∈ s.log))
  | .loadPlayer sender _ => inferInstanceAs (Decidable (.addClient sender ∈ s.log))
  | .bullet _ => inferInstanceAs (Decidable False)

def goto (s : GameServer) (pc : ServerPc) : GameServer := { s with serverPc := pc }

def gotoPhysics (s : GameServer) (pc : PhysicsPc) : GameServer := { s with physicsPc := pc }

def setServer (s : GameServer) (f : LocalServer → LocalServer) : GameServer := { s with server := f s.server }

def setPhysics (s : GameServer) (f : BtPhysics → BtPhysics) : GameServer := { s with physics := f s.physics }

/-- `getNextIdentifier` and the `addPhysical` call with the new id. -/
def allocPhysical (order : PopOrder) (s : GameServer) (templ : ByteString) (mat : Mat4)
    (isCharacter : Bool) : GameServer :=
  let (id, srv) := s.server.getNextIdentifier
  s.apply order (srv, [.addPhysical none id templ mat isCharacter])

def handle (order : PopOrder) (s : GameServer) (msg : ServerMsg) : GameServer :=
  let s := s.record (.handled msg)
  match msg with
  | .shutdown _ => s.goto .finishing
  | .input _ _ => (s.goto .waiting).onPhysics (fun p => p.pushMessage order msg)
  | .loadPlayer sender template => (s.goto .waiting).apply order (s.server.loadPlayer sender template)
  | .bullet _ => s.goto .waiting

def stepServer (order : PopOrder) (s : GameServer) : Option GameServer :=
  match s.serverPc with
  | .loading [] => some (s.goto .waiting)
  | .loading (.playerSpawn spawn :: todo) =>
    some ((s.goto (.loading todo)).setServer (fun srv => { srv with playerSpawn := spawn }))
  | .loading (.mob templ mat :: todo) =>
    some ((s.goto (.pushBack ⟨templ, s.server.nextId⟩ todo)).allocPhysical order templ mat true)
  | .loading (.blocker templ mat :: todo) =>
    some ((s.goto (.loading todo)).allocPhysical order templ mat false)
  | .pushBack b todo =>
    some ((s.goto (.loading todo)).setServer (fun srv => { srv with baddies := srv.baddies ++ [b] }))
  | .waiting =>
    match s.server.msgQueue with
    | [] => none
    | msg :: rest =>
      some ((s.goto (.handling msg)).setServer (fun srv => { srv with msgQueue := rest }))
  | .handling msg => some (s.handle order msg)
  | .finishing => some ((s.goto .joining).setPhysics (fun p => { p with finish := true }))
  | .joining => if s.physicsPc = .stopped then some (s.goto .deleting) else none
  | .deleting => some { s.goto .closing with physicsDeleted := true }
  | .closing => some ((s.goto .clearing).apply order (s.server, s.server.closeClients))
  | .clearing => some ((s.goto .done).setServer (fun srv => { srv with running := false }))
  | .done => none

def parse (s : GameServer) (msg : ServerMsg) : GameServer :=
  match s.physics.parseMessage msg s.server with
  | .ok (srv, p) => { s.gotoPhysics .draining with server := srv, physics := p }
  | .error e => { s with fault := some e }

def stepPhysics (order : PopOrder) (s : GameServer) (mats : List Mat4) : Option GameServer :=
  match s.physicsPc with
  | .loopHead => some (s.gotoPhysics (if s.physics.finish then .cleaning else .draining))
  | .draining =>
    match s.physics.msgQueue with
    | msg :: rest => some ((s.gotoPhysics (.parsing msg)).setPhysics (fun p => { p with msgQueue := rest }))
    | [] =>
      if mats.length = s.physics.characters.keys.length then
        some (s.gotoPhysics (.callbacks (s.physics.clientTransforms mats)))
      else none
  | .parsing msg => some (s.parse msg)
  | .callbacks ct =>
    let (srv, ids, state) := s.server.runTickCallbacks
    some { s.gotoPhysics (.transforms ct) with
      server := srv, physics := ids.foldl (fun p id => p.setInputStateCallback id state) s.physics }
  | .transforms ct =>
    some ((s.gotoPhysics .loopHead).apply order (s.server, s.server.pushClientTransforms ct))
  | .cleaning => some ((s.gotoPhysics .stopped).setPhysics BtPhysics.cleanUp)
  | .stopped => none

/-- After a fault nothing is known about the program any more. A client pointer is
added once: the address of a `RemoteClient` that was deleted is not used again
here, though the allocator may do so while messages of the old client wait. -/
def step (order : PopOrder) (s : GameServer) (a : Action) : Option GameServer :=
  if s.fault.isSome then none
  else
    match a with
    | .addClient c =>
      if c = 0 ∨ .addClient c ∈ s.log then none
      else some ((s.record (.addClient c)).apply order (s.server.addClient c))
    | .removeClient c =>
      if .addClient c ∈ s.log then some ((s.apply order (s.server.removeClient c)).record (.removeClient c))
      else none
    | .pushMessage msg =>
      if s.Pushable msg then
        some ((s.record (.received msg)).setServer (fun srv =>
          { srv with msgQueue := order.add srv.msgQueue msg }))
      else none
    | .server => s.stepServer order
    | .physics mats => s.stepPhysics order mats

end GameServer

end Quintses
