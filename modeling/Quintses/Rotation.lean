import Quintses.WorldReads
import Mathlib.Algebra.Quaternion
import Mathlib.Tactic.LinearCombination

/-! What the quaternions of the world file do to a point. -/

namespace Quintses

open Glm

section

variable {K : Type} [Field K]

def Glm.Tquat.toQuaternion (q : Tquat K) : Quaternion K := ⟨q.w, q.x, q.y, q.z⟩

def Glm.Tvec3.toQuaternion (v : Tvec3 K) : Quaternion K := ⟨0, v.x, v.y, v.z⟩

@[simp] theorem Glm.Tquat.toQuaternion_re (q : Tquat K) : q.toQuaternion.re = q.w := rfl

@[simp] theorem Glm.Tquat.toQuaternion_imI (q : Tquat K) : q.toQuaternion.imI = q.x := rfl

@[simp] theorem Glm.Tquat.toQuaternion_imJ (q : Tquat K) : q.toQuaternion.imJ = q.y := rfl

@[simp] theorem Glm.Tquat.toQuaternion_imK (q : Tquat K) : q.toQuaternion.imK = q.z := rfl

@[simp] theorem Glm.Tvec3.toQuaternion_re (v : Tvec3 K) : v.toQuaternion.re = 0 := rfl

@[simp] theorem Glm.Tvec3.toQuaternion_imI (v : Tvec3 K) : v.toQuaternion.imI = v.x := rfl

@[simp] theorem Glm.Tvec3.toQuaternion_imJ (v : Tvec3 K) : v.toQuaternion.imJ = v.y := rfl

@[simp] theorem Glm.Tvec3.toQuaternion_imK (v : Tvec3 K) : v.toQuaternion.imK = v.z := rfl

/-- The matrix turns every point by `q` and then moves it by `p`. -/
def Moves (m : Tmat4x4 K) (p : Tvec3 K) (q : Quaternion K) : Prop :=
  ∀ v : Tvec3 K, m * (⟨v.x, v.y, v.z, 1⟩ : Tvec4 K) =
    let r := q * v.toQuaternion * q⁻¹
    ⟨p.x + r.imI, p.y + r.imJ, p.z + r.imK, 1⟩

theorem inv_of_unit {q : Quaternion K} (h : Quaternion.normSq q = 1) : q⁻¹ = star q := by
  rw [Quaternion.inv_def, h, inv_one, one_smul]

theorem moves_translate_mul_mat4Cast (p : Tvec3 K) {q : Tquat K}
    (hq : Quaternion.normSq q.toQuaternion = 1) : Moves (Glm.translate .new p * mat4Cast q) p q.toQuaternion := by
  intro v
  have hunit : q.w ^ 2 + q.x ^ 2 + q.y ^ 2 + q.z ^ 2 = 1 := by
    rw [← hq, Quaternion.normSq_def']
    rfl
  rw [translate_mul_mat4Cast, inv_of_unit hq]
  change (⟨_, _, _, _⟩ : Tvec4 K) = ⟨_, _, _, _⟩
  simp only [Tvec4.mk.injEq, mat4Cast, Tmat4x4.ofTmat3x3, mat3Cast, Quaternion.re_mul, Quaternion.imI_mul,
    Quaternion.imJ_mul, Quaternion.imK_mul, Quaternion.re_star, Quaternion.imI_star, Quaternion.imJ_star,
    Quaternion.imK_star, Tquat.toQuaternion_re, Tquat.toQuaternion_imI, Tquat.toQuaternion_imJ,
    Tquat.toQuaternion_imK, Tvec3.toQuaternion_re, Tvec3.toQuaternion_imI, Tvec3.toQuaternion_imJ,
    Tvec3.toQuaternion_imK, Int.cast_one, Int.cast_ofNat, Int.cast_zero]
  refine ⟨?_, ?_, ?_, ?_⟩
  · linear_combination -v.x * hunit
  · linear_combination -v.y * hunit
  · linear_combination -v.z * hunit
  · ring

variable (lib : CLib K)

/-- `W + X i + Y j + Z k` -/
def writtenQuaternion (n : XmlNode) : Quaternion K :=
  ⟨lib.atof (n.textOf (literal "W")), lib.atof (n.textOf (literal "X")), lib.atof (n.textOf (literal "Y")),
    lib.atof (n.textOf (literal "Z"))⟩

theorem normSq_quaternionOf (n : XmlNode) : Quaternion.normSq (quaternionOf lib n).toQuaternion =
    Quaternion.normSq (writtenQuaternion lib n) := by
  rw [Quaternion.normSq_def', Quaternion.normSq_def']
  change lib.atof _ ^ 2 + lib.atof _ ^ 2 + lib.atof _ ^ 2 + lib.atof _ ^ 2 = _
  unfold writtenQuaternion
  ring

/-- Every number goes one place further, so all four have to be the same. -/
theorem toQuaternion_quaternionOf_iff (n : XmlNode) :
    (quaternionOf lib n).toQuaternion = writtenQuaternion lib n ↔
      (writtenQuaternion lib n).imI = (writtenQuaternion lib n).imJ ∧
      (writtenQuaternion lib n).imJ = (writtenQuaternion lib n).imK ∧
      (writtenQuaternion lib n).imK = (writtenQuaternion lib n).re := by
  constructor
  · intro h
    have hI := congrArg QuaternionAlgebra.imI h
    have hJ := congrArg QuaternionAlgebra.imJ h
    have hK := congrArg QuaternionAlgebra.imK h
    exact ⟨hI.symm, hJ.symm, hK.symm⟩
  · rintro ⟨hI, hJ, hK⟩
    exact Quaternion.ext _ _ (hI.trans (hJ.trans hK)) hI.symm hJ.symm hK.symm

variable {lib}

theorem quaternionOf_congr {n n' : XmlNode} (h : writtenQuaternion lib n' = writtenQuaternion lib n) :
    quaternionOf lib n' = quaternionOf lib n := by
  have hW := congrArg QuaternionAlgebra.re h
  have hX := congrArg QuaternionAlgebra.imI h
  have hY := congrArg QuaternionAlgebra.imJ h
  have hZ := congrArg QuaternionAlgebra.imK h
  exact Tquat.ext hY hZ hW hX

variable (lib)

theorem rotations_mean_iff {t pos rot quat : XmlNode} (siblings siblings' : List XmlNode)
    (hpos : t.child? (literal "Position") = some pos) (hposition : pos.CompletePosition)
    (hrot : t.child? (literal "Quaternion") = some rot) (hrotation : rot.CompleteQuaternion)
    (hunit : Quaternion.normSq (writtenQuaternion lib rot) = 1)
    (hquat : quat.CompleteQuaternion) (hsame : writtenQuaternion lib quat = writtenQuaternion lib rot) :
    ∃ m r, parseTransform lib (t :: siblings) = .ok m ∧ parseQuaternion lib (quat :: siblings') = .ok r ∧
      m = Glm.translate .new (positionOf lib pos) * mat4Cast r ∧
      (Moves m (positionOf lib pos) (writtenQuaternion lib rot) ∧
          r.toQuaternion = writtenQuaternion lib rot ↔
        (writtenQuaternion lib rot).imI = (writtenQuaternion lib rot).imJ ∧
        (writtenQuaternion lib rot).imJ = (writtenQuaternion lib rot).imK ∧
        (writtenQuaternion lib rot).imK = (writtenQuaternion lib rot).re) := by
  have hcomplete : t.CompleteTransform := by
    simp [XmlNode.CompleteTransform, hpos, hrot, hposition, hrotation]
  have hm : parseTransform lib (t :: siblings) =
      .ok (Glm.translate .new (positionOf lib pos) * mat4Cast (quaternionOf lib rot)) := by
    rw [parseTransform_cons, if_pos hcomplete, transformOf, hpos, hrot]
  have hr : parseQuaternion lib (quat :: siblings') = .ok (quaternionOf lib rot) := by
    rw [parseQuaternion_ptr rfl, ← quaternionOf_congr hsame]
    simp [hquat]
  refine ⟨_, _, hm, hr, rfl, ?_⟩
  rw [← toQuaternion_quaternionOf_iff]
  refine ⟨And.right, fun h => ⟨?_, h⟩⟩
  rw [← h]
  exact moves_translate_mul_mat4Cast _ ((normSq_quaternionOf lib rot).trans hunit)

end

def noTurn : XmlNode := .branch "Quaternion" [.leaf "X" "0", .leaf "Y" "0", .leaf "Z" "0", .leaf "W" "1"]

def toOneTwoThree : XmlNode := .branch "Position" [.leaf "X" "1", .leaf "Y" "2", .leaf "Z" "3"]

theorem writtenQuaternion_noTurn : writtenQuaternion (CLib.numerals : CLib ℚ) noTurn = 1 :=
  Quaternion.ext _ _ (by decide) (by decide) (by decide) (by decide)

theorem rotations_mean_iff_noTurn :
    ∃ m r, parseTransform (CLib.numerals : CLib ℚ) [.branch "Transform" [toOneTwoThree, noTurn]] = .ok m ∧
      parseQuaternion CLib.numerals [noTurn] = .ok r ∧
      m = Glm.translate .new (positionOf CLib.numerals toOneTwoThree) * mat4Cast r ∧
      (Moves m (positionOf CLib.numerals toOneTwoThree) (writtenQuaternion CLib.numerals noTurn) ∧
          r.toQuaternion = writtenQuaternion CLib.numerals noTurn ↔
        (writtenQuaternion (CLib.numerals : CLib ℚ) noTurn).imI = (writtenQuaternion CLib.numerals noTurn).imJ ∧
        (writtenQuaternion (CLib.numerals : CLib ℚ) noTurn).imJ = (writtenQuaternion CLib.numerals noTurn).imK ∧
        (writtenQuaternion (CLib.numerals : CLib ℚ) noTurn).imK = (writtenQuaternion CLib.numerals noTurn).re) :=
  rotations_mean_iff CLib.numerals [] [] rfl (by decide) rfl (by decide)
    (by rw [writtenQuaternion_noTurn, map_one]) (by decide) rfl

section

variable {K : Type} [Field K] [LinearOrder K] [IsStrictOrderedRing K]

theorem im_eq_zero_of_commutes {s : Quaternion K}
    (h : ∀ v : Tvec3 K, s * v.toQuaternion = v.toQuaternion * s) : s.imI = 0 ∧ s.imJ = 0 ∧ s.imK = 0 := by
  have hK := congrArg QuaternionAlgebra.imJ (h ⟨1, 0, 0⟩)
  have hJ := congrArg QuaternionAlgebra.imK (h ⟨1, 0, 0⟩)
  have hI := congrArg QuaternionAlgebra.imK (h ⟨0, 1, 0⟩)
  simp only [Quaternion.imJ_mul, Quaternion.imK_mul, Tvec3.toQuaternion_re, Tvec3.toQuaternion_imI,
    Tvec3.toQuaternion_imJ, Tvec3.toQuaternion_imK] at hK hJ hI
  refine ⟨?_, ?_, ?_⟩ <;> linarith

theorem re_conj (q : Quaternion K) (v : Tvec3 K) : (q * v.toQuaternion * star q).re = 0 := by
  simp
  ring

theorem moves_unique {m : Tmat4x4 K} {p : Tvec3 K} {q q' : Quaternion K} (hq : Quaternion.normSq q = 1)
    (hq' : Quaternion.normSq q' = 1) (h : Moves m p q) (h' : Moves m p q') : q' = q ∨ q' = -q := by
  have hconj (v : Tvec3 K) : q * v.toQuaternion * star q = q' * v.toQuaternion * star q' := by
    have hv := (h v).symm.trans (h' v)
    rw [inv_of_unit hq, inv_of_unit hq'] at hv
    have hx := add_left_cancel (congrArg Tvec4.x hv)
    have hy := add_left_cancel (congrArg Tvec4.y hv)
    have hz := add_left_cancel (congrArg Tvec4.z hv)
    exact Quaternion.ext _ _ ((re_conj q v).trans (re_conj q' v).symm) hx hy hz
  have hself : star q * q = 1 := by rw [Quaternion.star_mul_self, hq, Quaternion.coe_one]
  have hself' : star q' * q' = 1 := by rw [Quaternion.star_mul_self, hq', Quaternion.coe_one]
  have hself'' : q * star q = 1 := by rw [Quaternion.self_mul_star, hq, Quaternion.coe_one]
  let s := star q * q'
  have hcomm (v : Tvec3 K) : s * v.toQuaternion = v.toQuaternion * s := by
    calc
      s * v.toQuaternion = star q * (q' * v.toQuaternion * star q') * q' := by
        rw [mul_assoc, mul_assoc, mul_assoc, hself', mul_one]
      _ = star q * (q * v.toQuaternion * star q) * q' := by rw [hconj v]
      _ = star q * q * v.toQuaternion * s := by simp only [s, mul_assoc]
      _ = v.toQuaternion * s := by rw [hself, one_mul]
  obtain ⟨hI, hJ, hK⟩ := im_eq_zero_of_commutes hcomm
  have hs : s = (s.re : Quaternion K) := Quaternion.ext _ _ rfl hI hJ hK
  have hnorm : s.re ^ 2 = 1 := by
    have hs1 : Quaternion.normSq s = 1 := by
      rw [map_mul, Quaternion.normSq_star, hq, hq', mul_one]
    rw [Quaternion.normSq_def', hI, hJ, hK] at hs1
    linarith
  have hq's : q' = q * s := by rw [← mul_assoc, hself'', one_mul]
  rcases sq_eq_one_iff.mp hnorm with h1 | h1
  · left
    rw [hq's, hs, h1, Quaternion.coe_one, mul_one]
  · right
    rw [hq's, hs, h1]
    simp

/-- The matrix that `parseTransform` returns is right for the two signs of the
quaternion it was built from and for no other. -/
theorem moves_iff (p : Tvec3 K) {r : Tquat K} {q : Quaternion K} (hr : Quaternion.normSq r.toQuaternion = 1)
    (hq : Quaternion.normSq q = 1) : Moves (Glm.translate .new p * mat4Cast r) p q ↔
      q = r.toQuaternion ∨ q = -r.toQuaternion := by
  have hmoves := moves_translate_mul_mat4Cast p hr
  constructor
  · exact fun h => moves_unique hr hq hmoves h
  · rintro (rfl | rfl)
    · exact hmoves
    · intro v
      rw [hmoves v]
      simp [inv_neg]

/-- The half of the property that is about `parseTransform` alone. -/
theorem moves_quaternionOf_iff (lib : CLib K) (p : Tvec3 K) {n : XmlNode}
    (hunit : Quaternion.normSq (writtenQuaternion lib n) = 1) :
    Moves (Glm.translate .new p * mat4Cast (quaternionOf lib n)) p (writtenQuaternion lib n) ↔
      ((writtenQuaternion lib n).imI = (writtenQuaternion lib n).imJ ∧
        (writtenQuaternion lib n).imJ = (writtenQuaternion lib n).imK ∧
        (writtenQuaternion lib n).imK = (writtenQuaternion lib n).re) ∨
      ((writtenQuaternion lib n).imI = -(writtenQuaternion lib n).imJ ∧
        (writtenQuaternion lib n).imJ = -(writtenQuaternion lib n).imK ∧
        (writtenQuaternion lib n).imK = -(writtenQuaternion lib n).re) := by
  rw [moves_iff p ((normSq_quaternionOf lib n).trans hunit) hunit]
  refine or_congr (eq_comm.trans (toQuaternion_quaternionOf_iff lib n)) ?_
  constructor
  · intro h
    have hI := congrArg QuaternionAlgebra.imI h
    have hJ := congrArg QuaternionAlgebra.imJ h
    have hK := congrArg QuaternionAlgebra.imK h
    exact ⟨hI, hJ, hK⟩
  · rintro ⟨hI, hJ, hK⟩
    refine Quaternion.ext _ _ ?_ hI hJ hK
    change (writtenQuaternion lib n).re = -(writtenQuaternion lib n).imI
    rw [hI, hJ, hK]
    ring

end

/-- The identity comes out as half a turn about the third axis. -/
theorem not_rotations_mean :
    ∃ m r, parseTransform (CLib.numerals : CLib ℚ) [.branch "Transform" [toOneTwoThree, noTurn]] = .ok m ∧
      parseQuaternion (CLib.numerals : CLib ℚ) [noTurn] = .ok r ∧
      ¬Moves m ⟨1, 2, 3⟩ (writtenQuaternion (CLib.numerals : CLib ℚ) noTurn) ∧
      r.toQuaternion ≠ writtenQuaternion (CLib.numerals : CLib ℚ) noTurn := by
  have hunit : Quaternion.normSq (writtenQuaternion (CLib.numerals : CLib ℚ) noTurn) = 1 := by
    rw [writtenQuaternion_noTurn, map_one]
  refine ⟨Glm.translate .new ⟨1, 2, 3⟩ * mat4Cast (quaternionOf CLib.numerals noTurn),
    quaternionOf CLib.numerals noTurn, rfl, rfl, ?_, ?_⟩
  · rw [moves_quaternionOf_iff CLib.numerals _ hunit]
    decide
  · rw [Ne, toQuaternion_quaternionOf_iff]
    decide

end Quintses
