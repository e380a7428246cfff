import Quintses.Messages
import Quintses.StdMap
import Mathlib.Order.Nat

/-! The members of `LocalServer` and its operations, from
`server/localserver.cpp`. An operation returns the calls it makes on clients
and on the physics, in order. -/

namespace Quintses

instance linearOrderUInt32 : LinearOrder UInt32 where
  le_refl := UInt32.le_refl
  le_trans _ _ _ := UInt32.le_trans
  le_antisymm _ _ := UInt32.le_antisymm
  le_total := UInt32.le_total
  toDecidableLE := inferInstance
  lt_iff_le_not_ge a b := by
    rw [UInt32.lt_iff_toNat_lt, UInt32.le_iff_toNat_le, UInt32.le_iff_toNat_le]
    omega

structure BaddieData where
  templ : ByteString
  id : UInt32
  deriving DecidableEq

/-- `loader` is the client whose `loadPlayer` makes the call, if one does; it
is not an argument of the call. -/
inductive Call
  | pushMessage (c : ClientPtr) (msg : ClientMsg)
  | serverClosed (c : ClientPtr)
  | addPhysical (loader : Option ClientPtr) (id : UInt32) (tmp : ByteString) (mat : Mat4)
    (isCharacter : Bool)
  | delPhysical (id : UInt32) (isCharacter : Bool)
  deriving DecidableEq

abbrev ClientTransList := List (UInt32 × Mat4)

structure LocalServer where
  clients : StdMap ClientPtr UInt32
  lobbyClients : StdSet ClientPtr
  playerSpawn : Mat4
  nextId : UInt32
  baddies : List BaddieData
  /-- In the order in which `wait_pop` returns them. -/
  msgQueue : List ServerMsg
  running : Bool
  ticks : Nat

inductive WorldEntry
  | playerSpawn (trans : Mat4)
  | mob (templ : ByteString) (trans : Mat4)
  | blocker (templ : ByteString) (trans : Mat4)
  deriving DecidableEq

def strafeLeft : UInt16 := 1

def strafeRight : UInt16 := 2

namespace LocalServer

/-- The server as `addClient` can first see it: `run` has set `m_running`. -/
def new (playerSpawn : Mat4) : LocalServer :=
  ⟨StdMap.empty, StdMap.empty, playerSpawn, 1, [], [], true, 0⟩

variable (srv : LocalServer)

def tell (cs : List ClientPtr) (msg : ClientMsg) : List Call := cs.map (fun c => .pushMessage c msg)

def addClient (c : ClientPtr) : LocalServer × List Call :=
  let players := srv.clients.entries.map (fun i =>
    .pushMessage c (.addDrawable ⟨i.2, literal "Player"⟩))
  let mobs := srv.baddies.map (fun i => .pushMessage c (.addDrawable ⟨i.id, i.templ⟩))
  ({ srv with lobbyClients := srv.lobbyClients.insert c () }, players ++ mobs)

def removeClient (c : ClientPtr) : LocalServer × List Call :=
  let clientId := (srv.clients.find? c).getD 0
  let clients := (srv.clients.subscript c 0).erase c
  let lobbyClients := srv.lobbyClients.erase c
  let gone := tell clients.keys (.delDrawable ⟨clientId⟩) ++ tell lobbyClients.keys (.delDrawable ⟨clientId⟩)
  ({ srv with clients, lobbyClients },
    if clientId ≠ 0 then .delPhysical clientId true :: gone else [])

/-- The lookup also creates a missing entry. -/
def getClientId (c : ClientPtr) : UInt32 × LocalServer :=
  ((srv.clients.find? c).getD 0, { srv with clients := srv.clients.subscript c 0 })

def getNextIdentifier : UInt32 × LocalServer := (srv.nextId, { srv with nextId := srv.nextId + 1 })

def loadPlayer (client : ClientPtr) (template : ByteString) : LocalServer × List Call :=
  let srv := { srv with lobbyClients := srv.lobbyClients.erase client }
  let (id, srv) := srv.getNextIdentifier
  let add := .addPhysical (some client) id template srv.playerSpawn true
  let srv := { srv with clients := srv.clients.insert client id }
  (srv, add :: tell srv.clients.keys (.addDrawable ⟨id, template⟩))

def pushClientTransforms (trans : ClientTransList) : List Call :=
  trans.flatMap (fun i => tell srv.clients.keys (.transDrawable ⟨i.1, i.2⟩) ++
    tell srv.lobbyClients.keys (.transDrawable ⟨i.1, i.2⟩))

/-- The ids and the state for which it calls `setInputStateCallback`. -/
def runTickCallbacks : LocalServer × List UInt32 × UInt16 :=
  let ticks := if srv.ticks + 1 = 40 then 0 else srv.ticks + 1
  ({ srv with ticks }, srv.baddies.map BaddieData.id, if ticks < 20 then strafeLeft else strafeRight)

def closeClients : List Call :=
  srv.clients.keys.map .serverClosed ++ srv.lobbyClients.keys.map .serverClosed

end LocalServer

end Quintses
