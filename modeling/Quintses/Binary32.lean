import Mathlib.Algebra.Order.Ring.Int
import Mathlib.Tactic.Ring

/-! The integers among the binary32 floats: 24 bits of significand, rounded to
the nearest and of two nearest to the even one. They are so far below the
largest float that overflow to infinity is left out. -/

namespace Binary32

def ulpExp (n : Nat) : Nat := n.log2 - 23

def roundNat (n : Nat) : Nat :=
  let e := ulpExp n
  let q := n / 2 ^ e
  let r := n % 2 ^ e
  if 2 * r < 2 ^ e ∨ 2 * r = 2 ^ e ∧ q % 2 = 0 then q * 2 ^ e else (q + 1) * 2 ^ e

def roundInt : Int → Int
  | .ofNat n => roundNat n
  | .negSucc n => -roundNat (n + 1)

def Representable (n : Nat) : Prop := ∃ m e, m < 2 ^ 24 ∧ n = m * 2 ^ e

theorem lt_two_pow_ulpExp (n : Nat) : n < 2 ^ (24 + ulpExp n) := by
  have hlog : n < 2 ^ (n.log2 + 1) := Nat.lt_log2_self
  have hexp : n.log2 + 1 ≤ 24 + ulpExp n := by
    unfold ulpExp
    omega
  exact hlog.trans_le (Nat.pow_le_pow_right (by decide) hexp)

theorem two_pow_ulpExp_le {n : Nat} (h : ulpExp n ≠ 0) : 2 ^ (23 + ulpExp n) ≤ n := by
  have hne : n ≠ 0 := by
    rintro rfl
    exact h rfl
  have hexp : 23 + ulpExp n = n.log2 := by
    unfold ulpExp at h ⊢
    omega
  rw [hexp]
  exact Nat.log2_self_le hne

theorem ulpExp_le {n e : Nat} (hn : n ≠ 0) (h : n < 2 ^ (24 + e)) : ulpExp n ≤ e := by
  have hlog : n.log2 < 24 + e := (Nat.log2_lt hn).mpr h
  unfold ulpExp
  omega

theorem roundNat_of_dvd {n : Nat} (h : 2 ^ ulpExp n ∣ n) : roundNat n = n := by
  have hmod : n % 2 ^ ulpExp n = 0 := Nat.mod_eq_zero_of_dvd h
  have hpos : 0 < 2 ^ ulpExp n := Nat.two_pow_pos _
  simp only [roundNat, hmod, Nat.mul_zero, hpos, true_or, if_true]
  exact Nat.div_mul_cancel h

theorem roundNat_of_representable {n : Nat} (h : Representable n) : roundNat n = n := by
  obtain ⟨m, e, hm, rfl⟩ := h
  by_cases hzero : m * 2 ^ e = 0
  · rw [hzero]
    rfl
  · have hlt : m * 2 ^ e < 2 ^ (24 + e) := by
      rw [Nat.pow_add]
      exact Nat.mul_lt_mul_of_pos_right hm (Nat.two_pow_pos e)
    have hle := ulpExp_le hzero hlt
    exact roundNat_of_dvd ((pow_dvd_pow 2 hle).mul_left m)

theorem representable_two_pow (e : Nat) : Representable (2 ^ e) := ⟨1, e, by decide, (Nat.one_mul _).symm⟩

/-- A significand that is rounded up to `2 ^ 24` goes on to the next exponent. -/
theorem representable_mul_two_pow {q e : Nat} (h : q ≤ 2 ^ 24) : Representable (q * 2 ^ e) := by
  rcases Nat.lt_or_eq_of_le h with h | rfl
  · exact ⟨q, e, h, rfl⟩
  · rw [← Nat.pow_add]
    exact representable_two_pow _

theorem representable_roundNat (n : Nat) : Representable (roundNat n) := by
  have hq : n / 2 ^ ulpExp n < 2 ^ 24 := by
    rw [Nat.div_lt_iff_lt_mul (Nat.two_pow_pos _), ← Nat.pow_add]
    exact lt_two_pow_ulpExp n
  unfold roundNat
  dsimp only
  split
  · exact representable_mul_two_pow (Nat.le_of_lt hq)
  · exact representable_mul_two_pow hq

/-- Rounding down does not go below a float. -/
theorem le_roundNat {r n : Nat} (hr : Representable r) (h : r ≤ n) : r ≤ roundNat n := by
  have hdown : r ≤ n / 2 ^ ulpExp n * 2 ^ ulpExp n := by
    obtain ⟨m, e, hm, rfl⟩ := hr
    by_cases he : ulpExp n ≤ e
    · obtain ⟨k, rfl⟩ := Nat.exists_eq_add_of_le he
      have hfac : m * 2 ^ (ulpExp n + k) = m * 2 ^ k * 2 ^ ulpExp n := by ring
      rw [hfac] at h ⊢
      exact Nat.mul_le_mul_right _ ((Nat.le_div_iff_mul_le (Nat.two_pow_pos _)).mpr h)
    · have hone : ulpExp n ≠ 0 := by omega
      have hq : 2 ^ 23 ≤ n / 2 ^ ulpExp n := by
        rw [Nat.le_div_iff_mul_le (Nat.two_pow_pos _), ← Nat.pow_add]
        exact two_pow_ulpExp_le hone
      calc
        m * 2 ^ e ≤ 2 ^ 24 * 2 ^ e := Nat.mul_le_mul_right _ (Nat.le_of_lt hm)
        _ = 2 ^ 23 * 2 ^ (e + 1) := by ring
        _ ≤ 2 ^ 23 * 2 ^ ulpExp n := Nat.mul_le_mul_left _ (Nat.pow_le_pow_right (by decide) (by omega))
        _ ≤ n / 2 ^ ulpExp n * 2 ^ ulpExp n := Nat.mul_le_mul_right _ hq
  refine hdown.trans ?_
  unfold roundNat
  dsimp only
  split
  · exact Nat.le_refl _
  · exact Nat.mul_le_mul_right _ (Nat.le_succ _)

theorem roundNat_of_le {n : Nat} (h : n ≤ 2 ^ 24) : roundNat n = n := by
  have hr := representable_mul_two_pow (e := 0) h
  rw [Nat.pow_zero, Nat.mul_one] at hr
  exact roundNat_of_representable hr

/-- The first integer that is not a float lies half way between two of them. -/
theorem roundNat_gap : roundNat (2 ^ 24 + 1) = 2 ^ 24 := by decide

theorem roundInt_roundInt (n : Int) : roundInt (roundInt n) = roundInt n := by
  have hnat (k : Nat) : roundNat (roundNat k) = roundNat k :=
    roundNat_of_representable (representable_roundNat k)
  cases n with
  | ofNat n => exact congrArg Int.ofNat (hnat n)
  | negSucc n =>
    change roundInt (-(roundNat (n + 1) : Int)) = _
    cases hk : roundNat (n + 1) with
    | zero => simp [roundInt, hk]; rfl
    | succ k =>
      have hh := hnat (n + 1)
      rw [hk] at hh
      change -(roundNat (k + 1) : Int) = -(roundNat (n + 1) : Int)
      rw [hh, hk]

end Binary32

structure Binary32 where
  val : Int
  rounded : Binary32.roundInt val = val

namespace Binary32

def ofInt (n : Int) : Binary32 := ⟨roundInt n, roundInt_roundInt n⟩

instance : Add Binary32 := ⟨fun a b => ofInt (a.val + b.val)⟩

instance : LT Binary32 := ⟨fun a b => a.val < b.val⟩

instance (a b : Binary32) : Decidable (a < b) := inferInstanceAs (Decidable (a.val < b.val))

theorem lt_iff {a b : Binary32} : a < b ↔ a.val < b.val := Iff.rfl

theorem val_ofInt_natCast (n : Nat) : (ofInt n).val = roundNat n := rfl

theorem val_ofInt_of_nonpos {n : Int} (h : n ≤ 0) : (ofInt n).val ≤ 0 := by
  cases n with
  | ofNat n =>
    obtain rfl : n = 0 := by simpa using h
    decide
  | negSucc n =>
    change -(roundNat (n + 1) : Int) ≤ 0
    omega

def increment (a : Binary32) : Binary32 := a + ofInt 1

/-- A float counter gets stuck where the integers have gaps. -/
theorem val_increment_iterate (k : Nat) : (increment^[k] (ofInt 0)).val = (min k (2 ^ 24) : Nat) := by
  induction k with
  | zero => rfl
  | succ k ih =>
    rw [Function.iterate_succ_apply']
    change roundInt ((increment^[k] (ofInt 0)).val + (ofInt 1).val) = _
    have hone : (ofInt 1).val = 1 := by decide
    rw [ih, hone]
    change (roundNat (min k (2 ^ 24) + 1) : Int) = _
    by_cases hk : k < 2 ^ 24
    · rw [Nat.min_eq_left hk.le, Nat.min_eq_left hk, roundNat_of_le hk]
    · rw [Nat.min_eq_right (by omega), Nat.min_eq_right (by omega), roundNat_gap]

theorem increment_lt_ofInt {n : Int} (h : n ≤ 2 ^ 24 + 1) (k : Nat) :
    increment^[k] (ofInt 0) < ofInt n ↔ k < min n.toNat (2 ^ 24) := by
  rw [lt_iff, val_increment_iterate]
  by_cases hpos : n ≤ 0
  · have hval := val_ofInt_of_nonpos hpos
    omega
  · obtain ⟨m, rfl⟩ := Int.eq_ofNat_of_zero_le (by omega : 0 ≤ n)
    have hval : roundNat m = min m (2 ^ 24) := by
      by_cases hm : m ≤ 2 ^ 24
      · rw [roundNat_of_le hm, Nat.min_eq_left hm]
      · obtain rfl : m = 2 ^ 24 + 1 := by omega
        decide
    rw [val_ofInt_natCast, hval, Int.toNat_natCast]
    omega

theorem increment_lt_ofInt_of_gt {n : Int} (h : 2 ^ 24 + 1 < n) (k : Nat) :
    increment^[k] (ofInt 0) < ofInt n := by
  rw [lt_iff, val_increment_iterate]
  obtain ⟨m, rfl⟩ := Int.eq_ofNat_of_zero_le (by omega : 0 ≤ n)
  have hrep : Representable (2 ^ 24 + 2) := ⟨2 ^ 23 + 1, 1, by decide, by decide⟩
  have hle : 2 ^ 24 + 2 ≤ roundNat m := le_roundNat hrep (by omega)
  rw [val_ofInt_natCast]
  omega

end Binary32
