import Quintses.Heap
import Quintses.LocalServer
import Quintses.PopOrder

/-! The members of `BtPhysics` and the handling of its messages, from
`server/bullet/btphysics.cpp`. Of the Bullet library the model keeps what is
allocated and what is registered in the world. -/

namespace Quintses

inductive Plane
  | floor
  | lWall
  | rWall
  deriving DecidableEq

def planes : List (ByteString × Plane) :=
  [(literal "Floor", .floor), (literal "LWall", .lWall), (literal "RWall", .rWall)]

inductive BulletObject
  | staticPlaneShape (plane : Plane)
  | motionState (trans : Mat4)
  | rigidBody (motionState : Nat)
  | capsuleShape
  | ghostObject (trans : Mat4)
  | controller
  deriving DecidableEq

structure PhysicsObject where
  collision : Nat
  body : Nat
  deriving DecidableEq

structure CharacterObject where
  collision : Nat
  object : Nat
  controller : Nat
  state : UInt16
  deriving DecidableEq

structure DynamicsWorld where
  rigidBodies : List Nat
  collisionObjects : List Nat
  actions : List Nat
  deriving DecidableEq

structure BtPhysics where
  objects : StdMap UInt32 PhysicsObject
  characters : StdMap UInt32 CharacterObject
  /-- In the order in which `try_pop` returns them. -/
  msgQueue : List ServerMsg
  finish : Bool
  world : DynamicsWorld
  heap : Heap BulletObject

/-- Where a null pointer is followed or an object is used after it is deleted. -/
inductive Fault
  | nullObject
  | nullCharacter
  | deletedPhysics
  deriving DecidableEq

namespace BtPhysics

def new : BtPhysics := ⟨StdMap.empty, StdMap.empty, [], false, ⟨[], [], []⟩, StdMap.empty⟩

variable (p : BtPhysics)

def pushMessage (order : PopOrder) (msg : ServerMsg) : BtPhysics :=
  { p with msgQueue := order.add p.msgQueue msg }

def addPhysical (order : PopOrder) (id : UInt32) (tmp : ByteString) (mat : Mat4) (isCharacter : Bool) :
    BtPhysics :=
  if isCharacter then p.pushMessage order (.bullet (.addChar id tmp mat))
  else p.pushMessage order (.bullet (.addPhys id tmp mat))

def delPhysical (order : PopOrder) (id : UInt32) (isCharacter : Bool) : BtPhysics :=
  if isCharacter then p.pushMessage order (.bullet (.delChar id))
  else p.pushMessage order (.bullet (.delPhys id))

def setInputStateCallback (id : UInt32) (state : UInt16) : BtPhysics :=
  { p with characters := p.characters.modify id (fun c => { c with state }) }

def addPhysObject (id : UInt32) (plane : Plane) (matrix : Mat4) : BtPhysics :=
  let h := p.heap
  let collision := h.fresh
  let h := h.alloc (.staticPlaneShape plane)
  let state := h.fresh
  let h := h.alloc (.motionState matrix)
  let body := h.fresh
  let h := h.alloc (.rigidBody state)
  { p with
    heap := h
    world := { p.world with rigidBodies := body :: p.world.rigidBodies }
    objects := p.objects.assign id ⟨collision, body⟩ }

def addCharObject (id : UInt32) (matrix : Mat4) : BtPhysics :=
  let h := p.heap
  let object := h.fresh
  let h := h.alloc (.ghostObject matrix)
  let collision := h.fresh
  let h := h.alloc .capsuleShape
  let controller := h.fresh
  let h := h.alloc .controller
  { p with
    heap := h
    world := { p.world with
      collisionObjects := object :: p.world.collisionObjects
      actions := controller :: p.world.actions }
    characters := p.characters.assign id ⟨collision, object, controller, 0⟩ }

def freeObject (object : PhysicsObject) : BtPhysics :=
  let state := match p.heap.find? object.body with
    | some (.rigidBody state) => state
    | _ => 0
  { p with
    heap := ((p.heap.free state).free object.body).free object.collision
    world := { p.world with rigidBodies := p.world.rigidBodies.erase object.body } }

def freeCharacter (character : CharacterObject) : BtPhysics :=
  { p with
    heap := ((p.heap.free character.controller).free character.object).free character.collision
    world := { p.world with
      collisionObjects := p.world.collisionObjects.erase character.object
      actions := p.world.actions.erase character.controller } }

/-- Deleting a missing id reads the null pointer that the subscript stores. -/
def delPhysObject (id : UInt32) : Except Fault BtPhysics :=
  match p.objects.find? id with
  | none => .error .nullObject
  | some object => .ok { p.freeObject object with objects := p.objects.erase id }

def delCharObject (id : UInt32) : Except Fault BtPhysics :=
  match p.characters.find? id with
  | none => .error .nullCharacter
  | some character => .ok { p.freeCharacter character with characters := p.characters.erase id }

/-- A message that changes only the physics. -/
def parseBullet (msg : BulletInternalMsg) : Except Fault BtPhysics :=
  match msg with
  | .forceState objid state => .ok (p.setInputStateCallback objid state)
  | .addPhys objid template matrix =>
    match planes.find? (fun i => i.1 = template) with
    | some i => .ok (p.addPhysObject objid i.2 matrix)
    | none => .ok p
  | .addChar objid _ matrix => .ok (p.addCharObject objid matrix)
  | .delPhys objid => p.delPhysObject objid
  | .delChar objid => p.delCharObject objid

def parseMessage (msg : ServerMsg) (srv : LocalServer) : Except Fault (LocalServer × BtPhysics) :=
  match msg with
  | .input sender state =>
    let (objid, srv) := srv.getClientId sender
    .ok (srv, p.setInputStateCallback objid state)
  | .bullet msg => (p.parseBullet msg).map (fun p => (srv, p))
  | .shutdown _ | .loadPlayer _ _ => .ok (srv, p)

/-- The ids and matrices that a tick hands to the server; the simulation
decides the matrices. -/
def clientTransforms (mats : List Mat4) : ClientTransList := p.characters.keys.zip mats

def cleanUp : BtPhysics :=
  let p := p.characters.values.foldl freeCharacter p
  p.objects.values.foldl freeObject p

theorem parseBullet_msgQueue {p p' : BtPhysics} {msg : BulletInternalMsg}
    (h : p.parseBullet msg = .ok p') : p'.msgQueue = p.msgQueue := by
  cases msg with
  | forceState objid state => cases h; rfl
  | addChar objid template matrix => cases h; rfl
  | addPhys objid template matrix =>
    simp only [parseBullet] at h
    split at h <;> cases h <;> rfl
  | delPhys objid =>
    simp only [parseBullet, delPhysObject] at h
    split at h <;> cases h
    rfl
  | delChar objid =>
    simp only [parseBullet, delCharObject] at h
    split at h <;> cases h
    rfl

end BtPhysics

end Quintses
