import Quintses.WorldFile

/-! What a section of the world file has to contain, and what is read from one
that does. -/

namespace Quintses

open Glm

namespace XmlNode

variable (n : XmlNode)

def CompletePosition : Prop := n.HasAll ["X", "Y", "Z"]

def CompleteQuaternion : Prop := n.HasAll ["X", "Y", "Z", "W"]

/-- Both parts of a transform may be left out. -/
def CompleteTransform : Prop :=
  (∀ p ∈ n.child? (literal "Position"), p.CompletePosition) ∧
    ∀ q ∈ n.child? (literal "Quaternion"), q.CompleteQuaternion

def CompleteSpawn : Prop := ∀ t ∈ n.child? (literal "Transform"), t.CompleteTransform

def CompleteBlocker : Prop :=
  n.Has (literal "Template") ∧ ∀ t ∈ n.child? (literal "Transform"), t.CompleteTransform

def CompleteMobGroup : Prop :=
  n.HasAll ["Template", "Height", "Grid"] ∧
    (∀ q ∈ n.child? (literal "Quaternion"), q.CompleteQuaternion) ∧
    (n.childD (literal "Grid")).HasAll ["xmin", "xmax", "ymin", "ymax", "xdiv", "ydiv"]

instance : Decidable n.CompletePosition := inferInstanceAs (Decidable (n.HasAll _))

instance : Decidable n.CompleteQuaternion := inferInstanceAs (Decidable (n.HasAll _))

instance : Decidable n.CompleteTransform := inferInstanceAs (Decidable (_ ∧ _))

instance : Decidable n.CompleteSpawn := inferInstanceAs (Decidable (∀ t ∈ n.child? _, _))

instance : Decidable n.CompleteBlocker := inferInstanceAs (Decidable (_ ∧ _))

instance : Decidable n.CompleteMobGroup := inferInstanceAs (Decidable (_ ∧ _))

end XmlNode

section

variable {K : Type} [Add K] [Sub K] [Mul K] [IntCast K] (lib : CLib K) (n : XmlNode)

def positionOf : Tvec3 K :=
  ⟨lib.atof (n.textOf (literal "X")), lib.atof (n.textOf (literal "Y")), lib.atof (n.textOf (literal "Z"))⟩

/-- With the arguments in the order in which the parsers pass them. -/
def quaternionOf : Tquat K :=
  tquat (lib.atof (n.textOf (literal "X"))) (lib.atof (n.textOf (literal "Y")))
    (lib.atof (n.textOf (literal "Z"))) (lib.atof (n.textOf (literal "W")))

def transformOf : Tmat4x4 K :=
  let trans := match n.child? (literal "Position") with
    | none => Tmat4x4.new
    | some p => Glm.translate .new (positionOf lib p)
  match n.child? (literal "Quaternion") with
    | none => trans
    | some q => trans * mat4Cast (quaternionOf lib q)

def sectionTransform : Tmat4x4 K := ((n.child? (literal "Transform")).map (transformOf lib)).getD .new

def sectionQuaternion : Tquat K := ((n.child? (literal "Quaternion")).map (quaternionOf lib)).getD .new

def blockerOf : Blocker K := ⟨n.textOf (literal "Template"), sectionTransform lib n⟩

def mobGroupOf : MobGroup K :=
  let grid := n.childD (literal "Grid")
  ⟨n.textOf (literal "Template"), sectionQuaternion lib n, lib.atof (n.textOf (literal "Height")),
    lib.atof (grid.textOf (literal "xmin")), lib.atof (grid.textOf (literal "xmax")),
    lib.atof (grid.textOf (literal "ymin")), lib.atof (grid.textOf (literal "ymax")),
    lib.atoi (grid.textOf (literal "xdiv")), lib.atoi (grid.textOf (literal "ydiv"))⟩

variable {lib n} {rest : List XmlNode}

theorem if_completePosition {α : Type} (a b : α) : (if n.CompletePosition then a else b) =
    if n.Has (literal "X") then if n.Has (literal "Y") then if n.Has (literal "Z") then a
      else b else b else b := by
  simp [XmlNode.CompletePosition, XmlNode.HasAll, ite_and]

theorem if_completeQuaternion {α : Type} (a b : α) : (if n.CompleteQuaternion then a else b) =
    if n.Has (literal "X") then if n.Has (literal "Y") then if n.Has (literal "Z") then
      if n.Has (literal "W") then a else b else b else b else b := by
  simp [XmlNode.CompleteQuaternion, XmlNode.HasAll, ite_and]

omit [Add K] [Sub K] [Mul K] in
theorem parseQuaternion_ptr {quat : NodePtr} {c : Option XmlNode} (h : quat.head? = c) :
    parseQuaternion lib quat = if ∀ q ∈ c, q.CompleteQuaternion
      then .ok ((c.map (quaternionOf lib)).getD .new) else .error .value := by
  subst h
  cases quat with
  | nil => simp [parseQuaternion, NodePtr.isNull, pure, Except.pure]
  | cons q later =>
    simp only [List.head?_cons, Option.mem_some_iff, forall_eq', if_completeQuaternion]
    simp only [parseQuaternion, NodePtr.isNull, List.isEmpty_cons, Bool.false_eq_true, if_false,
      NodePtr.text_bind]
    rfl

theorem parseTransform_cons : parseTransform lib (n :: rest) =
    if n.CompleteTransform then .ok (transformOf lib n) else .error .value := by
  simp only [XmlNode.CompleteTransform, transformOf, ← XmlNode.head?_startingAt]
  simp only [parseTransform, NodePtr.firstNode_cons, NodePtr.ok_bind]
  -- each of the two parts is there or not
  cases n.startingAt (literal "Position") <;> cases n.startingAt (literal "Quaternion") <;>
    simp only [NodePtr.isNull, List.isEmpty_nil, List.isEmpty_cons, if_true, Bool.false_eq_true,
      if_false, pure_bind, NodePtr.text_bind] <;>
    simp [if_completePosition, if_completeQuaternion, ite_and] <;>
    rfl

theorem parseTransform_ptr {node : NodePtr} {c : Option XmlNode} (h : node.head? = c) :
    parseTransform lib node = if ∀ t ∈ c, t.CompleteTransform
      then .ok ((c.map (transformOf lib)).getD .new) else .error .value := by
  subst h
  cases node with
  | nil => simp [parseTransform, NodePtr.isNull, pure, Except.pure]
  | cons t later => simp [parseTransform_cons]

theorem parseTransform_section : (NodePtr.firstNode (literal "Transform") (n :: rest) >>= parseTransform lib) =
    if n.CompleteSpawn then .ok (sectionTransform lib n) else .error .value :=
  parseTransform_ptr (n.head?_startingAt _)

theorem readBlocker_cons : readBlocker lib (n :: rest) =
    if n.CompleteBlocker then .ok (blockerOf lib n) else .error .value := by
  have hiff : n.CompleteBlocker ↔
      n.Has (literal "Template") ∧ ∀ t ∈ n.child? (literal "Transform"), t.CompleteTransform := Iff.rfl
  simp only [readBlocker, NodePtr.text_bind, NodePtr.firstNode_cons, NodePtr.ok_bind,
    parseTransform_ptr (n.head?_startingAt _), NodePtr.ite_bind, if_congr hiff rfl rfl, ite_and]
  rfl

omit [Add K] [Sub K] [Mul K] in
theorem readMobGroup_of_complete (h : n.CompleteMobGroup) :
    readMobGroup lib (n :: rest) = .ok (mobGroupOf lib n) := by
  obtain ⟨hfields, hquat, hgrid⟩ := h
  have hqhead := n.head?_startingAt (literal "Quaternion")
  have hghead := n.head?_startingAt (literal "Grid")
  simp only [XmlNode.HasAll, List.forall_mem_cons] at hfields hgrid
  obtain ⟨m, hm⟩ := Option.isSome_iff_exists.mp hfields.2.2.1
  have hchild : n.childD (literal "Grid") = m := by rw [XmlNode.childD, hm, Option.getD_some]
  obtain ⟨later, hlater⟩ := List.head?_eq_some_iff.mp (hghead.trans hm)
  rw [hchild] at hgrid
  simp only [readMobGroup, NodePtr.text_bind, NodePtr.firstNode_cons, hlater, NodePtr.ok_bind,
    parseQuaternion_ptr hqhead, if_pos hquat, hfields, hgrid, if_true]
  rw [mobGroupOf, hchild]
  rfl

variable (lib) in
omit [Add K] [Sub K] [Mul K] in
theorem readMobGroup_of_not (h : ¬n.CompleteMobGroup) (rest : List XmlNode) :
    ∃ call, readMobGroup lib (n :: rest) = .error call := by
  have hqhead := n.head?_startingAt (literal "Quaternion")
  have hghead := n.head?_startingAt (literal "Grid")
  simp only [readMobGroup, NodePtr.text_bind, NodePtr.firstNode_cons, NodePtr.ok_bind,
    parseQuaternion_ptr hqhead, NodePtr.ite_bind]
  split_ifs with ht hquat hh
  · cases hgrid : n.startingAt (literal "Grid") with
    | nil => exact ⟨_, rfl⟩
    | cons m later =>
      have hm : n.child? (literal "Grid") = some m := by rw [← hghead, hgrid, List.head?_cons]
      have hhas : n.Has (literal "Grid") := by rw [XmlNode.Has, hm, Option.isSome_some]
      have hchild : n.childD (literal "Grid") = m := by rw [XmlNode.childD, hm, Option.getD_some]
      simp only [NodePtr.text_bind]
      split_ifs with h1 h2 h3 h4 h5 h6
      · refine absurd ⟨?_, hquat, ?_⟩ h
        · simp [XmlNode.HasAll, ht, hh, hhas]
        · simp [XmlNode.HasAll, hchild, h1, h2, h3, h4, h5, h6]
      all_goals exact ⟨_, rfl⟩
  all_goals exact ⟨_, rfl⟩

end

section

variable {ι K : Type} [Add ι] [OfNat ι 1] [Add K] [Sub K] [Mul K] [Div K] [IntCast K] {lib : CLib K}
  {n : XmlNode}

theorem loadMobGroup_of_complete (h : n.CompleteMobGroup) (rest : List XmlNode) (fuel : Nat) (st : Loader ι K) :
    (loadMobGroup lib fuel (n :: rest)).exec st =
      (if (placeMobs fuel (mobGroupOf lib n) st).1 then .ok () else .error .outOfFuel,
        (placeMobs fuel (mobGroupOf lib n) st).2) := by
  rw [loadMobGroup, Load.exec_bind_ok (Load.exec_ofNode_ok (readMobGroup_of_complete h)),
    Load.exec_bind_ok (Load.exec_modifyGet _)]
  cases (placeMobs fuel (mobGroupOf lib n) st).1 <;> rfl

variable (lib)

theorem loadMobGroup_of_not (h : ¬n.CompleteMobGroup) (rest : List XmlNode) (fuel : Nat) (st : Loader ι K) :
    ∃ call, (loadMobGroup lib fuel (n :: rest)).exec st = (.error (.nullNode call), st) := by
  obtain ⟨call, hcall⟩ := readMobGroup_of_not lib h rest
  exact ⟨call, Load.exec_bind_error (Load.exec_ofNode_error hcall)⟩

end

end Quintses
