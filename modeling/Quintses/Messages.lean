import Quintses.Socket

/-! The message classes of `core/messages` and the physics-internal subclasses
of `ServerMsg`, with the type codes, factories and bodies of the source. -/

namespace Quintses

open SocketWrapper

/-- A `ClientIface*`; 0 is null. -/
abbrev ClientPtr := Nat

/-- Sixteen floats as the 64 bytes that `memcpy` and the sockets move. -/
abbrev Mat4 := List.Vector UInt8 64

def zeroMat : Mat4 := List.Vector.replicate 64 0

def literal (s : String) : ByteString := s.toList.map (fun c => c.val.toUInt8)

structure ClientAddObjectMsg where
  objid : UInt32
  template : ByteString
  deriving DecidableEq

structure ClientTransObjectMsg where
  objid : UInt32
  transform : Mat4
  deriving DecidableEq

structure ClientDelObjectMsg where
  objid : UInt32
  deriving DecidableEq

namespace ClientAddObjectMsg

def read (order : ByteOrder) (msg : ClientAddObjectMsg) : SocketReader ClientAddObjectMsg := do
  let objid ← readPod order UInt32
  let template ← readString order
  return { msg with objid, template }

def write (order : ByteOrder) (msg : ClientAddObjectMsg) : List UInt8 :=
  writePod order msg.objid ++ writeString order msg.template

end ClientAddObjectMsg

namespace ClientTransObjectMsg

def read (order : ByteOrder) (msg : ClientTransObjectMsg) : SocketReader ClientTransObjectMsg := do
  let objid ← readPod order UInt32
  let transform ← SocketWrapper.read 64
  return { msg with objid, transform }

def write (order : ByteOrder) (msg : ClientTransObjectMsg) : List UInt8 :=
  writePod order msg.objid ++ msg.transform.toList

end ClientTransObjectMsg

namespace ClientDelObjectMsg

def read (order : ByteOrder) (msg : ClientDelObjectMsg) : SocketReader ClientDelObjectMsg := do
  let objid ← readPod order UInt32
  return { msg with objid }

def write (order : ByteOrder) (msg : ClientDelObjectMsg) : List UInt8 :=
  writePod order msg.objid

end ClientDelObjectMsg

inductive ClientMsg
  | addDrawable (msg : ClientAddObjectMsg)
  | addAudible (msg : ClientAddObjectMsg)
  | transDrawable (msg : ClientTransObjectMsg)
  | transAudible (msg : ClientTransObjectMsg)
  | delDrawable (msg : ClientDelObjectMsg)
  | delAudible (msg : ClientDelObjectMsg)
  deriving DecidableEq

namespace ClientMsg

def type : ClientMsg → UInt32
  | addDrawable _ => 0
  | addAudible _ => 1
  | transDrawable _ => 2
  | transAudible _ => 3
  | delDrawable _ => 4
  | delAudible _ => 5

/-- The transform of a fresh message is not initialised before `read`. -/
def create (type : UInt32) : Option ClientMsg :=
  match type with
  | 1 => some (addAudible ⟨0, []⟩)
  | 0 => some (addDrawable ⟨0, []⟩)
  | 3 => some (transAudible ⟨0, zeroMat⟩)
  | 2 => some (transDrawable ⟨0, zeroMat⟩)
  | 5 => some (delAudible ⟨0⟩)
  | 4 => some (delDrawable ⟨0⟩)
  | _ => none

def read (order : ByteOrder) : ClientMsg → SocketReader ClientMsg
  | addDrawable msg => addDrawable <$> msg.read order
  | addAudible msg => addAudible <$> msg.read order
  | transDrawable msg => transDrawable <$> msg.read order
  | transAudible msg => transAudible <$> msg.read order
  | delDrawable msg => delDrawable <$> msg.read order
  | delAudible msg => delAudible <$> msg.read order

def write (order : ByteOrder) : ClientMsg → List UInt8
  | addDrawable msg => msg.write order
  | addAudible msg => msg.write order
  | transDrawable msg => msg.write order
  | transAudible msg => msg.write order
  | delDrawable msg => msg.write order
  | delAudible msg => msg.write order

def template? : ClientMsg → Option ByteString
  | addDrawable msg => some msg.template
  | addAudible msg => some msg.template
  | _ => none

end ClientMsg

/-- The messages that only the physics thread sends to itself. -/
inductive BulletInternalMsg
  | addPhys (objid : UInt32) (template : ByteString) (matrix : Mat4)
  | addChar (objid : UInt32) (template : ByteString) (matrix : Mat4)
  | delPhys (objid : UInt32)
  | delChar (objid : UInt32)
  | forceState (objid : UInt32) (state : UInt16)
  deriving DecidableEq

inductive ServerMsg
  | shutdown (sender : ClientPtr)
  | input (sender : ClientPtr) (state : UInt16)
  | loadPlayer (sender : ClientPtr) (template : ByteString)
  | bullet (msg : BulletInternalMsg)
  deriving DecidableEq

namespace ServerMsg

/-- `SubsystemInternalStart` is 3. -/
def type : ServerMsg → UInt32
  | shutdown _ => 0
  | input _ _ => 1
  | loadPlayer _ _ => 2
  | bullet (.addPhys _ _ _) => 3
  | bullet (.addChar _ _ _) => 4
  | bullet (.delPhys _) => 5
  | bullet (.delChar _) => 6
  | bullet (.forceState _ _) => 7

def sender : ServerMsg → ClientPtr
  | shutdown cli => cli
  | input cli _ => cli
  | loadPlayer cli _ => cli
  | bullet _ => 0

/-- The state of a fresh input message is not initialised before `read`. -/
def create (type : UInt32) (cli : ClientPtr) : Option ServerMsg :=
  match type with
  | 0 => some (shutdown cli)
  | 1 => some (input cli 0)
  | 2 => some (loadPlayer cli [])
  | _ => none

def read (order : ByteOrder) : ServerMsg → SocketReader ServerMsg
  | shutdown cli => return shutdown cli
  | input cli _ => return input cli (← readPod order UInt16)
  | loadPlayer cli _ => return loadPlayer cli (← readString order)
  | bullet msg => return bullet msg

def write (order : ByteOrder) : ServerMsg → List UInt8
  | shutdown _ => []
  | input _ state => writePod order state
  | loadPlayer _ template => writeString order template
  | bullet _ => []

def template? : ServerMsg → Option ByteString
  | loadPlayer _ template => some template
  | _ => none

def OnWire : ServerMsg → Prop
  | bullet _ => False
  | _ => True

/-- The same message from another sender; the sender is not on the wire. -/
def withSender (cli : ClientPtr) : ServerMsg → ServerMsg
  | shutdown _ => shutdown cli
  | input _ state => input cli state
  | loadPlayer _ template => loadPlayer cli template
  | bullet msg => bullet msg

end ServerMsg

end Quintses
