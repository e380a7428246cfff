import Quintses.BtPhysics
import Quintses.Connection
import Quintses.Lts

/-! Messages as `LocalServer::run` and `BtPhysics::parseMessage` see them: an
object and the number that its `type()` returns. The switches look only at the
number, and their branches cast the object without a check. -/

namespace Quintses

open Lts

inductive MsgClass
  | serverMsg
  | serverShutdownMsg
  | serverInputMsg
  | serverLoadPlayerMsg
  | bulletInternalMsg
  | addPhysObjMsg
  | addCharObjMsg
  | delPhysObjMsg
  | delCharObjMsg
  | forceStateMsg
  deriving DecidableEq

def MsgClass.bases : MsgClass → List MsgClass
  | .serverMsg => [.serverMsg]
  | .serverShutdownMsg => [.serverShutdownMsg, .serverMsg]
  | .serverInputMsg => [.serverInputMsg, .serverMsg]
  | .serverLoadPlayerMsg => [.serverLoadPlayerMsg, .serverMsg]
  | .bulletInternalMsg => [.bulletInternalMsg, .serverMsg]
  | .addPhysObjMsg => [.addPhysObjMsg, .bulletInternalMsg, .serverMsg]
  | .addCharObjMsg => [.addCharObjMsg, .addPhysObjMsg, .bulletInternalMsg, .serverMsg]
  | .delPhysObjMsg => [.delPhysObjMsg, .bulletInternalMsg, .serverMsg]
  | .delCharObjMsg => [.delCharObjMsg, .delPhysObjMsg, .bulletInternalMsg, .serverMsg]
  | .forceStateMsg => [.forceStateMsg, .bulletInternalMsg, .serverMsg]

namespace MessageType

def shutdownMessage : UInt32 := 0

def inputMessage : UInt32 := 1

def loadPlayer : UInt32 := 2

def subsystemInternalStart : UInt32 := 3

def addPhysMessage : UInt32 := subsystemInternalStart

def addCharMessage : UInt32 := subsystemInternalStart + 1

def delPhysMessage : UInt32 := subsystemInternalStart + 2

def delCharMessage : UInt32 := subsystemInternalStart + 3

def forceStateMessage : UInt32 := subsystemInternalStart + 4

end MessageType

namespace ServerMsg

def cls : ServerMsg → MsgClass
  | shutdown _ => .serverShutdownMsg
  | input _ _ => .serverInputMsg
  | loadPlayer _ _ => .serverLoadPlayerMsg
  | bullet (.addPhys _ _ _) => .addPhysObjMsg
  | bullet (.addChar _ _ _) => .addCharObjMsg
  | bullet (.delPhys _) => .delPhysObjMsg
  | bullet (.delChar _) => .delCharObjMsg
  | bullet (.forceState _ _) => .forceStateMsg

def objid : ServerMsg → UInt32
  | bullet (.addPhys id _ _) | bullet (.addChar id _ _) | bullet (.delPhys id) | bullet (.delChar id)
  | bullet (.forceState id _) => id
  | _ => 0

def template : ServerMsg → ByteString
  | loadPlayer _ tmp | bullet (.addPhys _ tmp _) | bullet (.addChar _ tmp _) => tmp
  | _ => []

def matrix : ServerMsg → Mat4
  | bullet (.addPhys _ _ mat) | bullet (.addChar _ _ mat) => mat
  | _ => zeroMat

def state : ServerMsg → UInt16
  | input _ state | bullet (.forceState _ state) => state
  | _ => 0

/-- `static_cast<target*>`; undefined unless the object is one of the target. -/
def staticCast (target : MsgClass) (msg : ServerMsg) : Except MsgClass ServerMsg :=
  if target ∈ msg.cls.bases then .ok msg else .error target

end ServerMsg

inductive RunBranch
  | shutdown
  | input
  | loadPlayer
  | other

inductive ParseBranch
  | forceState
  | input
  | addPhys
  | addChar
  | delPhys
  | delChar
  | other

open MessageType in
def RunBranch.of (type : UInt32) : RunBranch :=
  if type = shutdownMessage then .shutdown
  else if type = inputMessage then .input
  else if type = MessageType.loadPlayer then .loadPlayer
  else .other

open MessageType in
def ParseBranch.of (type : UInt32) : ParseBranch :=
  if type = forceStateMessage then .forceState
  else if type = inputMessage then .input
  else if type = addPhysMessage then .addPhys
  else if type = addCharMessage then .addChar
  else if type = delPhysMessage then .delPhys
  else if type = delCharMessage then .delChar
  else .other

/-- The class that the branch casts to; only one branch of the server casts. -/
def RunBranch.target : RunBranch → MsgClass
  | .loadPlayer => .serverLoadPlayerMsg
  | .shutdown | .input | .other => .serverMsg

def ParseBranch.target : ParseBranch → MsgClass
  | .forceState => .forceStateMsg
  | .input => .serverInputMsg
  | .addPhys => .addPhysObjMsg
  | .addChar => .addCharObjMsg
  | .delPhys => .delPhysObjMsg
  | .delChar => .delCharObjMsg
  | .other => .serverMsg

/-- The body of each branch, after its cast. -/
def BtPhysics.runBranch (p : BtPhysics) (srv : LocalServer) (msg : ServerMsg) :
    ParseBranch → Except Fault (LocalServer × BtPhysics)
  | .forceState => .ok (srv, p.setInputStateCallback msg.objid msg.state)
  | .input =>
    let (objid, srv) := srv.getClientId msg.sender
    .ok (srv, p.setInputStateCallback objid msg.state)
  | .addPhys =>
    match planes.find? (fun i => i.1 = msg.template) with
    | some i => .ok (srv, p.addPhysObject msg.objid i.2 msg.matrix)
    | none => .ok (srv, p)
  | .addChar => .ok (srv, p.addCharObject msg.objid msg.matrix)
  | .delPhys => (p.delPhysObject msg.objid).map (fun p => (srv, p))
  | .delChar => (p.delCharObject msg.objid).map (fun p => (srv, p))
  | .other => .ok (srv, p)

structure MsgObject where
  object : ServerMsg
  type : UInt32
  /-- The connection whose `readMsg` has created the object. -/
  origin : Option ClientPtr

/-- A `new` expression: the class decides what `type()` returns. -/
def MsgObject.new (object : ServerMsg) (origin : Option ClientPtr) : MsgObject :=
  ⟨object, object.type, origin⟩

/-- What the code in the server's process pushes to the server itself. -/
inductive LocalPush
  | signal
  | loadPlayer (cli : ClientPtr)
  | input (cli : ClientPtr) (state : UInt16)
  | shutdown (cli : ClientPtr)

def LocalPush.message : LocalPush → ServerMsg
  | .signal => .shutdown 0
  | .loadPlayer cli => .loadPlayer cli (literal "Player")
  | .input cli state => .input cli state
  | .shutdown cli => .shutdown cli

/-- The calls that the server's functions make on the physics. -/
inductive PhysicsCall
  | addPhysical (id : UInt32) (tmp : ByteString) (mat : Mat4) (isCharacter : Bool)
  | delPhysical (id : UInt32) (isCharacter : Bool)
  | setInputState (id : UInt32) (state : UInt16)

def PhysicsCall.message : PhysicsCall → ServerMsg
  | .addPhysical id tmp mat isCharacter =>
    if isCharacter then .bullet (.addChar id tmp mat) else .bullet (.addPhys id tmp mat)
  | .delPhysical id isCharacter => if isCharacter then .bullet (.delChar id) else .bullet (.delPhys id)
  | .setInputState id state => .bullet (.forceState id state)

/-- Both queues and the message that each of the two loops has popped. -/
structure Dispatch where
  serverQueue : List MsgObject
  physicsQueue : List MsgObject
  serverMsg : Option MsgObject
  physicsMsg : Option MsgObject
  nextId : UInt32
  playerSpawn : Mat4
  looping : Bool
  badCast : Option MsgClass

inductive DispatchAction
  /-- `readMsg` of a connection, with whatever the peer has sent. -/
  | readMsg (self : ClientPtr) (s : List UInt8)
  | push (m : LocalPush)
  | call (c : PhysicsCall)
  | server
  | physics

namespace Dispatch

def new (nextId : UInt32) (playerSpawn : Mat4) : Dispatch :=
  ⟨[], [], none, none, nextId, playerSpawn, true, none⟩

variable (order : PopOrder) (bytes : ByteOrder) (d : Dispatch)

def pushServer (msg : MsgObject) : Dispatch := { d with serverQueue := order.add d.serverQueue msg }

def pushPhysics (msg : MsgObject) : Dispatch := { d with physicsQueue := order.add d.physicsQueue msg }

def perform (c : PhysicsCall) : Dispatch := d.pushPhysics order (.new c.message none)

def handle (msg : MsgObject) : Dispatch :=
  let d := { d with serverMsg := none }
  match msg.object.staticCast (RunBranch.of msg.type).target with
  | .error target => { d with badCast := some target }
  | .ok object =>
    match RunBranch.of msg.type with
    | .shutdown => { d with looping := false }
    | .input => d.pushPhysics order msg
    | .loadPlayer =>
      { d with nextId := d.nextId + 1 }.perform order
        (.addPhysical d.nextId object.template d.playerSpawn true)
    | .other => d

def parse (msg : MsgObject) : Dispatch :=
  let d := { d with physicsMsg := none }
  match msg.object.staticCast (ParseBranch.of msg.type).target with
  | .error target => { d with badCast := some target }
  | .ok _ => d

def step (d : Dispatch) (a : DispatchAction) : Option Dispatch :=
  if d.badCast.isSome then none
  else
    match a with
    | .readMsg self s =>
      match RemoteClient.round bytes self s with
      | .next msg _ => some (d.pushServer order (.new msg (some self)))
      | .stop | .escaped _ => some d
    | .push m => some (d.pushServer order (.new m.message none))
    | .call c => some (d.perform order c)
    | .server =>
      match d.serverMsg, d.serverQueue with
      | some msg, _ => some (d.handle order msg)
      | none, msg :: rest =>
        if d.looping then some { d with serverMsg := some msg, serverQueue := rest } else none
      | none, [] => none
    | .physics =>
      match d.physicsMsg, d.physicsQueue with
      | some msg, _ => some (d.parse msg)
      | none, msg :: rest => some { d with physicsMsg := some msg, physicsQueue := rest }
      | none, [] => none

def serverMessages : List MsgObject := d.serverMsg.toList ++ d.serverQueue

def physicsMessages : List MsgObject := d.physicsMsg.toList ++ d.physicsQueue

end Dispatch

def MsgObject.Runs (msg : MsgObject) : Prop := (RunBranch.of msg.type).target ∈ msg.object.cls.bases

def MsgObject.Parses (msg : MsgObject) : Prop := (ParseBranch.of msg.type).target ∈ msg.object.cls.bases

/-- An object that a connection has made carries it as its sender, and its tag
is none of those that subsystems use internally. -/
def MsgObject.External (msg : MsgObject) : Prop :=
  ∀ self, msg.origin = some self → msg.object.sender = self ∧ msg.type < MessageType.subsystemInternalStart

structure Dispatch.TagsTrue (d : Dispatch) : Prop where
  cast : d.badCast = none
  runs : ∀ msg ∈ d.serverMessages, msg.Runs
  parses : ∀ msg ∈ d.physicsMessages, msg.Parses
  external : ∀ msg ∈ d.serverMessages ++ d.physicsMessages, msg.External

structure MsgObject.Honest (msg : MsgObject) : Prop where
  type : msg.type = msg.object.type
  external : msg.External

/-- For an honest tag the switch finds the branch that is written for the class. -/
theorem RunBranch.of_type (msg : ServerMsg) : RunBranch.of msg.type =
    match msg with
    | .shutdown _ => .shutdown
    | .input _ _ => .input
    | .loadPlayer _ _ => .loadPlayer
    | .bullet _ => .other := by
  cases msg with
  | bullet m => cases m <;> rfl
  | _ => rfl

theorem ParseBranch.of_type (msg : ServerMsg) : ParseBranch.of msg.type =
    match msg with
    | .shutdown _ => .other
    | .input _ _ => .input
    | .loadPlayer _ _ => .other
    | .bullet (.addPhys _ _ _) => .addPhys
    | .bullet (.addChar _ _ _) => .addChar
    | .bullet (.delPhys _) => .delPhys
    | .bullet (.delChar _) => .delChar
    | .bullet (.forceState _ _) => .forceState := by
  cases msg with
  | bullet m => cases m <;> rfl
  | _ => rfl

/-- Then the switch does what the match on the object does. -/
theorem BtPhysics.runBranch_of_type (p : BtPhysics) (srv : LocalServer) (msg : ServerMsg) :
    p.runBranch srv msg (ParseBranch.of msg.type) = p.parseMessage msg srv := by
  rw [ParseBranch.of_type]
  cases msg with
  | bullet m =>
    cases m with
    | addPhys objid template matrix =>
      show (match planes.find? (fun i => i.1 = template) with
        | some i => Except.ok (srv, p.addPhysObject objid i.2 matrix)
        | none => Except.ok (srv, p)) = _
      cases hf : planes.find? (fun i => i.1 = template) <;>
        simp [parseMessage, parseBullet, hf, Except.map]
    | _ => rfl
  | _ => rfl

theorem ServerMsg.type_lt_of_create {type : UInt32} {cli : ClientPtr} (h : (create type cli).isSome) :
    type < MessageType.subsystemInternalStart := by
  unfold create at h
  split at h
  · decide
  · decide
  · decide
  · cases h

theorem ServerMsg.staticCast_ok {target : MsgClass} {msg : ServerMsg} (h : target ∈ msg.cls.bases) :
    msg.staticCast target = .ok msg := if_pos h

namespace MsgObject.Honest

variable {msg : MsgObject}

theorem runs (h : msg.Honest) : msg.Runs := by
  rw [Runs, h.type, RunBranch.of_type]
  cases msg.object with
  | bullet m => cases m <;> simp [RunBranch.target, ServerMsg.cls, MsgClass.bases]
  | _ => simp [RunBranch.target, ServerMsg.cls, MsgClass.bases]

theorem parses (h : msg.Honest) : msg.Parses := by
  rw [Parses, h.type, ParseBranch.of_type]
  cases msg.object with
  | bullet m => cases m <;> simp [ParseBranch.target, ServerMsg.cls, MsgClass.bases]
  | _ => simp [ParseBranch.target, ServerMsg.cls, MsgClass.bases]

theorem new_local (object : ServerMsg) : (MsgObject.new object none).Honest :=
  ⟨rfl, fun self hs => by cases hs⟩

theorem new_received {bytes : ByteOrder} {self : ClientPtr} {s rest : List UInt8} {object : ServerMsg}
    (h : RemoteClient.round bytes self s = .next object rest) : (MsgObject.new object (some self)).Honest := by
  refine ⟨rfl, fun self' hs => ?_⟩
  obtain rfl : self = self' := Option.some.inj hs
  obtain ⟨hcreate, hsender⟩ := RemoteClient.round_next h
  exact ⟨hsender, ServerMsg.type_lt_of_create hcreate⟩

end MsgObject.Honest

namespace Dispatch

variable {order : PopOrder} {bytes : ByteOrder} {d d' : Dispatch} {a : DispatchAction} {msg : MsgObject}

structure AllHonest (d : Dispatch) : Prop where
  cast : d.badCast = none
  server : ∀ msg ∈ d.serverMessages, msg.Honest
  physics : ∀ msg ∈ d.physicsMessages, msg.Honest

theorem AllHonest.tagsTrue (h : d.AllHonest) : d.TagsTrue := by
  refine ⟨h.cast, fun msg hm => (h.server msg hm).runs, fun msg hm => (h.physics msg hm).parses, ?_⟩
  intro msg hm
  rcases List.mem_append.mp hm with hm | hm
  · exact (h.server msg hm).external
  · exact (h.physics msg hm).external

theorem AllHonest.pushServer (h : d.AllHonest) (hmsg : msg.Honest) : (d.pushServer order msg).AllHonest := by
  refine ⟨h.cast, fun m hm => ?_, h.physics⟩
  simp only [serverMessages, Dispatch.pushServer, List.mem_append, PopOrder.mem_add] at hm
  rcases hm with hm | rfl | hm
  · exact h.server m (List.mem_append_left _ hm)
  · exact hmsg
  · exact h.server m (List.mem_append_right _ hm)

theorem AllHonest.pushPhysics (h : d.AllHonest) (hmsg : msg.Honest) : (d.pushPhysics order msg).AllHonest := by
  refine ⟨h.cast, h.server, fun m hm => ?_⟩
  simp only [physicsMessages, Dispatch.pushPhysics, List.mem_append, PopOrder.mem_add] at hm
  rcases hm with hm | rfl | hm
  · exact h.physics m (List.mem_append_left _ hm)
  · exact hmsg
  · exact h.physics m (List.mem_append_right _ hm)

theorem AllHonest.handle (h : d.AllHonest) (hmsg : msg.Honest) : (d.handle order msg).AllHonest := by
  have hdone : ({ d with serverMsg := none } : Dispatch).AllHonest :=
    ⟨h.cast, fun m hm => h.server m (List.mem_append_right _ hm), h.physics⟩
  simp only [Dispatch.handle, ServerMsg.staticCast_ok hmsg.runs]
  split
  · exact ⟨hdone.cast, hdone.server, hdone.physics⟩
  · exact hdone.pushPhysics hmsg
  · have hnext : ({ d with serverMsg := none, nextId := d.nextId + 1 } : Dispatch).AllHonest :=
      ⟨hdone.cast, hdone.server, hdone.physics⟩
    exact hnext.pushPhysics (.new_local _)
  · exact hdone

theorem AllHonest.parse (h : d.AllHonest) (hmsg : msg.Honest) : (d.parse msg).AllHonest := by
  simp only [Dispatch.parse, ServerMsg.staticCast_ok hmsg.parses]
  exact ⟨h.cast, h.server, fun m hm => h.physics m (List.mem_append_right _ hm)⟩

theorem AllHonest.popServer (h : d.AllHonest) {rest : List MsgObject} (hm : d.serverMsg = none)
    (hq : d.serverQueue = msg :: rest) :
    ({ d with serverMsg := some msg, serverQueue := rest } : Dispatch).AllHonest := by
  refine ⟨h.cast, fun m hmem => h.server m ?_, h.physics⟩
  simpa [serverMessages, hm, hq] using hmem

theorem AllHonest.popPhysics (h : d.AllHonest) {rest : List MsgObject} (hm : d.physicsMsg = none)
    (hq : d.physicsQueue = msg :: rest) :
    ({ d with physicsMsg := some msg, physicsQueue := rest } : Dispatch).AllHonest := by
  refine ⟨h.cast, h.server, fun m hmem => h.physics m ?_⟩
  simpa [physicsMessages, hm, hq] using hmem

theorem step_allHonest (h : d.AllHonest) (hs : step order bytes d a = some d') : d'.AllHonest := by
  simp only [step, h.cast, Option.isSome_none, Bool.false_eq_true, if_false] at hs
  cases a with
  | readMsg self s =>
    cases hr : RemoteClient.round bytes self s with
    | next object rest =>
      simp only [hr, Option.some.injEq] at hs
      subst hs
      exact h.pushServer (.new_received hr)
    | stop =>
      simp only [hr, Option.some.injEq] at hs
      exact hs ▸ h
    | escaped e =>
      simp only [hr, Option.some.injEq] at hs
      exact hs ▸ h
  | push m =>
    simp only [Option.some.injEq] at hs
    subst hs
    exact h.pushServer (.new_local _)
  | call c =>
    simp only [Option.some.injEq] at hs
    subst hs
    exact h.pushPhysics (.new_local _)
  | server =>
    cases hm : d.serverMsg with
    | some msg =>
      simp only [hm, Option.some.injEq] at hs
      subst hs
      exact h.handle (h.server msg (by simp [serverMessages, hm]))
    | none =>
      cases hq : d.serverQueue with
      | nil => simp [hm, hq] at hs
      | cons msg rest =>
        simp only [hm, hq, Option.ite_none_right_eq_some, Option.some.injEq] at hs
        obtain ⟨-, rfl⟩ := hs
        have hpop := h.popServer hm hq
        exact ⟨rfl, hpop.server, hpop.physics⟩
  | physics =>
    cases hm : d.physicsMsg with
    | some msg =>
      simp only [hm, Option.some.injEq] at hs
      subst hs
      exact h.parse (h.physics msg (by simp [physicsMessages, hm]))
    | none =>
      cases hq : d.physicsQueue with
      | nil => simp [hm, hq] at hs
      | cons msg rest =>
        simp only [hm, hq, Option.some.injEq] at hs
        subst hs
        have hpop := h.popPhysics hm hq
        exact ⟨rfl, hpop.server, hpop.physics⟩

/-- Whatever bytes the peers send and whatever the local code pushes, no cast in
either switch is wrong. -/
theorem tags_true (order : PopOrder) (bytes : ByteOrder) (nextId : UInt32) (playerSpawn : Mat4)
    (as : List DispatchAction) : Along (step order bytes) TagsTrue (new nextId playerSpawn) as := by
  have hnew : (new nextId playerSpawn).AllHonest :=
    ⟨rfl, fun msg hm => (by cases hm), fun msg hm => (by cases hm)⟩
  have halong : Along (step order bytes) AllHonest (new nextId playerSpawn) as :=
    along_of_step AllHonest (fun _ _ _ h hs => step_allHonest h hs) hnew as
  exact halong.mono (fun d h => h.tagsTrue)

end Dispatch

end Quintses
