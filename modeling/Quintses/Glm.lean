import Mathlib.Algebra.Field.Defs
import Mathlib.Data.Int.Cast.Basic
import Mathlib.Tactic.Ring

/-! The vectors, matrices and quaternions of `3rdparty/glm` that place the
objects of the world. A matrix is given by its columns. -/

namespace Quintses.Glm

@[ext] structure Tvec3 (K : Type*) where
  x : K
  y : K
  z : K
  deriving DecidableEq

@[ext] structure Tvec4 (K : Type*) where
  x : K
  y : K
  z : K
  w : K
  deriving DecidableEq

@[ext] structure Tquat (K : Type*) where
  x : K
  y : K
  z : K
  w : K
  deriving DecidableEq

@[ext] structure Tmat3x3 (K : Type*) where
  col0 : Tvec3 K
  col1 : Tvec3 K
  col2 : Tvec3 K
  deriving DecidableEq

@[ext] structure Tmat4x4 (K : Type*) where
  col0 : Tvec4 K
  col1 : Tvec4 K
  col2 : Tvec4 K
  col3 : Tvec4 K
  deriving DecidableEq

/-- The constructor with four arguments takes `w` first. -/
def tquat {K : Type*} (w x y z : K) : Tquat K := ⟨x, y, z, w⟩

section

variable {K : Type*} [Add K] [Mul K]

instance : Add (Tvec4 K) := ⟨fun v1 v2 => ⟨v1.x + v2.x, v1.y + v2.y, v1.z + v2.z, v1.w + v2.w⟩⟩

instance : HMul (Tvec4 K) K (Tvec4 K) := ⟨fun v s => ⟨v.x * s, v.y * s, v.z * s, v.w * s⟩⟩

instance : HMul (Tmat4x4 K) (Tvec4 K) (Tvec4 K) := ⟨fun m v =>
  ⟨m.col0.x * v.x + m.col1.x * v.y + m.col2.x * v.z + m.col3.x * v.w,
    m.col0.y * v.x + m.col1.y * v.y + m.col2.y * v.z + m.col3.y * v.w,
    m.col0.z * v.x + m.col1.z * v.y + m.col2.z * v.z + m.col3.z * v.w,
    m.col0.w * v.x + m.col1.w * v.y + m.col2.w * v.z + m.col3.w * v.w⟩⟩

def Tmat4x4.onColumn (a : Tmat4x4 K) (b : Tvec4 K) : Tvec4 K :=
  a.col0 * b.x + a.col1 * b.y + a.col2 * b.z + a.col3 * b.w

instance : Mul (Tmat4x4 K) := ⟨fun m1 m2 =>
  ⟨m1.onColumn m2.col0, m1.onColumn m2.col1, m1.onColumn m2.col2, m1.onColumn m2.col3⟩⟩

def translate (m : Tmat4x4 K) (v : Tvec3 K) : Tmat4x4 K :=
  { m with col3 := m.col0 * v.x + m.col1 * v.y + m.col2 * v.z + m.col3 }

end

section

variable {K : Type*} [IntCast K]

def Tquat.new : Tquat K := ⟨(0 : Int), (0 : Int), (0 : Int), (1 : Int)⟩

def Tmat4x4.new : Tmat4x4 K :=
  let zero : K := (0 : Int)
  let one : K := (1 : Int)
  ⟨⟨one, zero, zero, zero⟩, ⟨zero, one, zero, zero⟩, ⟨zero, zero, one, zero⟩, ⟨zero, zero, zero, one⟩⟩

def Tmat4x4.ofTmat3x3 (m : Tmat3x3 K) : Tmat4x4 K :=
  let zero : K := (0 : Int)
  ⟨⟨m.col0.x, m.col0.y, m.col0.z, zero⟩, ⟨m.col1.x, m.col1.y, m.col1.z, zero⟩,
    ⟨m.col2.x, m.col2.y, m.col2.z, zero⟩, ⟨zero, zero, zero, (1 : Int)⟩⟩

variable [Add K] [Sub K] [Mul K]

def mat3Cast (q : Tquat K) : Tmat3x3 K :=
  let one : K := (1 : Int)
  let two : K := (2 : Int)
  ⟨⟨one - two * q.y * q.y - two * q.z * q.z,
      two * q.x * q.y + two * q.w * q.z,
      two * q.x * q.z - two * q.w * q.y⟩,
    ⟨two * q.x * q.y - two * q.w * q.z,
      one - two * q.x * q.x - two * q.z * q.z,
      two * q.y * q.z + two * q.w * q.x⟩,
    ⟨two * q.x * q.z + two * q.w * q.y,
      two * q.y * q.z - two * q.w * q.x,
      one - two * q.x * q.x - two * q.y * q.y⟩⟩

def mat4Cast (q : Tquat K) : Tmat4x4 K := .ofTmat3x3 (mat3Cast q)

end

section

variable {K : Type*} [Add K]

@[simp] theorem Tvec4.add_x (u v : Tvec4 K) : (u + v).x = u.x + v.x := rfl

@[simp] theorem Tvec4.add_y (u v : Tvec4 K) : (u + v).y = u.y + v.y := rfl

@[simp] theorem Tvec4.add_z (u v : Tvec4 K) : (u + v).z = u.z + v.z := rfl

@[simp] theorem Tvec4.add_w (u v : Tvec4 K) : (u + v).w = u.w + v.w := rfl

end

section

variable {K : Type*} [Mul K]

@[simp] theorem Tvec4.mul_x (u : Tvec4 K) (s : K) : (u * s).x = u.x * s := rfl

@[simp] theorem Tvec4.mul_y (u : Tvec4 K) (s : K) : (u * s).y = u.y * s := rfl

@[simp] theorem Tvec4.mul_z (u : Tvec4 K) (s : K) : (u * s).z = u.z * s := rfl

@[simp] theorem Tvec4.mul_w (u : Tvec4 K) (s : K) : (u * s).w = u.w * s := rfl

end

section

variable {K : Type*} [Field K]

theorem translate_new (v : Tvec3 K) :
    translate .new v = { Tmat4x4.new with col3 := ⟨v.x, v.y, v.z, 1⟩ } := by
  unfold translate
  congr 1
  ext <;> simp [Tmat4x4.new]

/-- A rotation moved to `p`. -/
theorem translate_mul_mat4Cast (p : Tvec3 K) (q : Tquat K) :
    translate .new p * mat4Cast q = { mat4Cast q with col3 := ⟨p.x, p.y, p.z, 1⟩ } := by
  have hcol (b : Tvec4 K) : (translate .new p).onColumn b =
      ⟨b.x + p.x * b.w, b.y + p.y * b.w, b.z + p.z * b.w, b.w⟩ := by
    rw [translate_new]
    ext <;> simp [Tmat4x4.onColumn, Tmat4x4.new]
  change (⟨_, _, _, _⟩ : Tmat4x4 K) = _
  rw [hcol, hcol, hcol, hcol]
  simp [mat4Cast, Tmat4x4.ofTmat3x3]

end

end Quintses.Glm
