import Quintses.Xml
import Quintses.Glm
import Quintses.Binary32
import Quintses.ForLoop
import Mathlib.Data.List.Basic

/-! Loading the world: `core/util/xml_helpers.hpp` and `loadWorld` of
`server/localserver.cpp`. The arithmetic on coordinates is that of any type
`K`, the ids are taken from any type `ι`. -/

namespace Quintses

open Glm

/-- `atof` includes the conversion of its result to `float`. -/
structure CLib (K : Type*) where
  atof : ByteString → K
  atoi : ByteString → Int32

def digits (s : ByteString) : Int :=
  (s.takeWhile (fun c => 48 ≤ c ∧ c ≤ 57)).foldl (fun n c => 10 * n + (c.toNat - 48 : Nat)) 0

def numeral : ByteString → Int
  | 45 :: s => -digits s
  | s => digits s

/-- Both functions on numerals that have no fraction. -/
def CLib.numerals {K : Type*} [IntCast K] : CLib K := ⟨fun s => numeral s, fun s => .ofInt (numeral s)⟩

inductive Halt
  | nullNode (call : NodeCall)
  | outOfFuel
  deriving DecidableEq

structure Baddie (ι : Type*) where
  templ : ByteString
  id : ι
  deriving DecidableEq

/-- A call of `addPhysical` of the physics. -/
structure Added (ι K : Type*) where
  id : ι
  templ : ByteString
  trans : Tmat4x4 K
  isCharacter : Bool
  deriving DecidableEq

structure Loader (ι K : Type*) where
  nextId : ι
  playerSpawn : Tmat4x4 K
  baddies : List (Baddie ι)
  added : List (Added ι K)
  deriving DecidableEq

/-- The local variables of `loadMobGroup` when the loops begin. -/
structure MobGroup (K : Type*) where
  templ : ByteString
  quat : Tquat K
  height : K
  xmin : K
  xmax : K
  ymin : K
  ymax : K
  xdiv : Int32
  ydiv : Int32
  deriving DecidableEq

structure Blocker (K : Type*) where
  templ : ByteString
  trans : Tmat4x4 K
  deriving DecidableEq

/-- The effects before the halt stay. -/
abbrev Load (ι K : Type) := ExceptT Halt (StateM (Loader ι K))

namespace Load

variable {ι K α β : Type}

def exec (x : Load ι K α) (st : Loader ι K) : Except Halt α × Loader ι K := x st

def ofNode (x : Except NodeCall α) : Load ι K α := fun st => (x.mapError .nullNode, st)

variable {x : Load ι K α} {f : α → Load ι K β} {st st' : Loader ι K}

theorem exec_bind_ok {a : α} (h : exec x st = (.ok a, st')) : exec (x >>= f) st = exec (f a) st' := by
  change exec (ExceptT.mk (fun s => ExceptT.bindCont f (exec x s).1 (exec x s).2)) st = _
  change ExceptT.bindCont f (exec x st).1 (exec x st).2 = _
  rw [h]
  rfl

theorem exec_bind_error {e : Halt} (h : exec x st = (.error e, st')) :
    exec (x >>= f) st = (.error e, st') := by
  change exec (ExceptT.mk (fun s => ExceptT.bindCont f (exec x s).1 (exec x s).2)) st = _
  change ExceptT.bindCont f (exec x st).1 (exec x st).2 = _
  rw [h]
  rfl

theorem exec_ofNode_ok {x : Except NodeCall α} {a : α} (h : x = .ok a) :
    (ofNode x).exec st = (.ok a, st) := by
  rw [h]
  rfl

theorem exec_ofNode_error {x : Except NodeCall α} {call : NodeCall} (h : x = .error call) :
    (ofNode x).exec st = (.error (.nullNode call), st) := by
  rw [h]
  rfl

theorem ofNode_ok_bind (a : α) : (ofNode (.ok a) >>= f) = f a := rfl

theorem exec_modifyGet (g : Loader ι K → α × Loader ι K) :
    exec (modifyGet g) st = (.ok (g st).1, (g st).2) := rfl

theorem exec_modify (g : Loader ι K → Loader ι K) : exec (modify g) st = (.ok (), g st) := rfl

end Load

section

variable {K : Type} [Add K] [Sub K] [Mul K] [IntCast K] (lib : CLib K)

def parseTransform (node : NodePtr) : Except NodeCall (Tmat4x4 K) := do
  let trans : Tmat4x4 K := .new
  if node.isNull then
    return trans
  let pos ← node.firstNode (literal "Position")
  let quat ← node.firstNode (literal "Quaternion")
  let trans ← if pos.isNull then pure trans else do
    let x := lib.atof (← pos.text (literal "X"))
    let y := lib.atof (← pos.text (literal "Y"))
    let z := lib.atof (← pos.text (literal "Z"))
    pure (Glm.translate trans ⟨x, y, z⟩)
  if quat.isNull then
    return trans
  let x := lib.atof (← quat.text (literal "X"))
  let y := lib.atof (← quat.text (literal "Y"))
  let z := lib.atof (← quat.text (literal "Z"))
  let w := lib.atof (← quat.text (literal "W"))
  return trans * mat4Cast (tquat x y z w)

def parseQuaternion (quat : NodePtr) : Except NodeCall (Tquat K) := do
  if quat.isNull then
    return .new
  let x := lib.atof (← quat.text (literal "X"))
  let y := lib.atof (← quat.text (literal "Y"))
  let z := lib.atof (← quat.text (literal "Z"))
  let w := lib.atof (← quat.text (literal "W"))
  return tquat x y z w

/-- What `loadMobGroup` reads before it places the first mob. -/
def readMobGroup (node : NodePtr) : Except NodeCall (MobGroup K) := do
  let templ ← node.text (literal "Template")
  let quat ← parseQuaternion lib (← node.firstNode (literal "Quaternion"))
  let height := lib.atof (← node.text (literal "Height"))
  let gridNode ← node.firstNode (literal "Grid")
  let xmin := lib.atof (← gridNode.text (literal "xmin"))
  let xmax := lib.atof (← gridNode.text (literal "xmax"))
  let ymin := lib.atof (← gridNode.text (literal "ymin"))
  let ymax := lib.atof (← gridNode.text (literal "ymax"))
  let xdiv := lib.atoi (← gridNode.text (literal "xdiv"))
  let ydiv := lib.atoi (← gridNode.text (literal "ydiv"))
  return ⟨templ, quat, height, xmin, xmax, ymin, ymax, xdiv, ydiv⟩

def readBlocker (node : NodePtr) : Except NodeCall (Blocker K) := do
  let templ ← node.text (literal "Template")
  let trans ← parseTransform lib (← node.firstNode (literal "Transform"))
  return ⟨templ, trans⟩

namespace MobGroup

variable [Div K] (g : MobGroup K)

def xdelta : K := (g.xmax - g.xmin) / ((g.xdiv - 1).toInt : K)

def ydelta : K := (g.ymax - g.ymin) / ((g.ydiv - 1).toInt : K)

def trans (x y : K) : Tmat4x4 K := Glm.translate .new ⟨x, y, g.height⟩ * mat4Cast g.quat

end MobGroup

end

namespace Loader

variable {ι K : Type} [Add ι] [OfNat ι 1] (st : Loader ι K)

def getNextIdentifier : ι × Loader ι K := (st.nextId, { st with nextId := st.nextId + 1 })

def addPhysical (templ : ByteString) (trans : Tmat4x4 K) (isCharacter : Bool) : ι × Loader ι K :=
  let (id, st) := st.getNextIdentifier
  (id, { st with added := st.added ++ [⟨id, templ, trans, isCharacter⟩] })

def addMob (templ : ByteString) (trans : Tmat4x4 K) : Loader ι K :=
  let (id, st) := st.addPhysical templ trans true
  { st with baddies := st.baddies ++ [⟨templ, id⟩] }

def addBlocker (b : Blocker K) : Loader ι K := (st.addPhysical b.templ b.trans false).2

end Loader

section

variable {ι K : Type} [Add ι] [OfNat ι 1] [Add K] [Sub K] [Mul K] [Div K] [IntCast K]

/-- The loops of `loadMobGroup`, `for(float x = xmin, i = 0; i < xdiv; ++i, x += xdelta)`. -/
def placeMobs (fuel : Nat) (g : MobGroup K) : Loader ι K → Bool × Loader ι K :=
  ForLoop.run (fun (_, i) => i < Binary32.ofInt g.xdiv.toInt)
    (fun (x, i) => (x + g.xdelta, i.increment))
    (fun (x, _) =>
      ForLoop.run (fun (_, j) => j < Binary32.ofInt g.ydiv.toInt)
        (fun (y, j) => (y + g.ydelta, j.increment))
        (fun (y, _) st => (true, st.addMob g.templ (g.trans x y)))
        fuel (g.ymin, Binary32.ofInt 0))
    fuel (g.xmin, Binary32.ofInt 0)

variable (lib : CLib K)

def loadMobGroup (fuel : Nat) (node : NodePtr) : Load ι K Unit := do
  let g ← .ofNode (readMobGroup lib node)
  let ended ← modifyGet (placeMobs fuel g)
  if !ended then
    throw .outOfFuel

/-- The loop on the siblings: `next_sibling()` gets no name. -/
def loadBlockers : List XmlNode → Load ι K Unit
  | [] => return
  | node :: siblings => do
    let b ← .ofNode (readBlocker lib (node :: siblings))
    modify (Loader.addBlocker · b)
    loadBlockers siblings

def loadWorld (fuel : Nat) (doc : XmlNode) : Load ι K Unit := do
  let root ← .ofNode (NodePtr.firstNode (literal "QuintsesWorld") [doc])
  if root.isNull then
    return
  let spawn ← .ofNode (root.firstNode (literal "PlayerSpawn"))
  if !spawn.isNull then
    let trans ← .ofNode (spawn.firstNode (literal "Transform") >>= parseTransform lib)
    modify ({ · with playerSpawn := trans })
  loadMobGroup lib fuel (← .ofNode (root.firstNode (literal "MobGroup")))
  loadBlockers lib (← .ofNode (root.firstNode (literal "Blocker")))

end

end Quintses
