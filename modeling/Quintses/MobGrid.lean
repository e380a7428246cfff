import Quintses.WorldReads
import Mathlib.Algebra.Group.Basic
import Mathlib.Data.Rat.Defs
import Mathlib.Algebra.Order.Field.Rat
import Mathlib.Tactic.FieldSimp
import Mathlib.Tactic.Linarith
import Mathlib.Tactic.Positivity

/-! The grid of mobs. The counters of its loops are floats, which stop at
`2 ^ 24`: the next integer is not a float. -/

namespace Quintses

open Glm

/-- `m` rows of `n` each, the row number first. -/
def gridList {α : Type*} (f : Nat → Nat → α) (m n : Nat) : List α :=
  (List.range m).flatMap (fun i => (List.range n).map (f i))

theorem length_gridList {α : Type*} (f : Nat → Nat → α) (m n : Nat) : (gridList f m n).length = m * n := by
  simp [gridList]

theorem gridList_succ {α : Type*} (f : Nat → Nat → α) (m n : Nat) :
    gridList f (m + 1) n = gridList f m n ++ (List.range n).map (f m) := by
  simp [gridList, List.range_succ]

theorem getElem?_gridList {α : Type*} (f : Nat → Nat → α) {m n i j : Nat} (hi : i < m) (hj : j < n) :
    (gridList f m n)[i * n + j]? = some (f i j) := by
  induction m with
  | zero => omega
  | succ m ih =>
    rw [gridList_succ]
    rcases Nat.lt_or_eq_of_le (Nat.le_of_lt_succ hi) with hlt | rfl
    · have hin : i * n + j < m * n := by
        calc
          i * n + j < i * n + n := by omega
          _ = (i + 1) * n := (Nat.succ_mul i n).symm
          _ ≤ m * n := Nat.mul_le_mul_right n hlt
      rw [List.getElem?_append_left (by rwa [length_gridList])]
      exact ih hlt
    · rw [List.getElem?_append_right (by rw [length_gridList]; omega), length_gridList,
        Nat.add_sub_cancel_left]
      simp [hj]

namespace Loader

variable {ι K : Type} [Add ι] [OfNat ι 1]

def addMobs (templ : ByteString) (ts : List (Tmat4x4 K)) (st : Loader ι K) : Loader ι K :=
  ts.foldl (fun st t => st.addMob templ t) st

/-- What a loop that places mobs at `ts` has done. -/
structure Placed (templ : ByteString) (ts : List (Tmat4x4 K)) (st st' : Loader ℕ K) : Prop where
  nextId : st'.nextId = st.nextId + ts.length
  playerSpawn : st'.playerSpawn = st.playerSpawn
  added : st'.added = st.added ++ ts.mapIdx (fun k t => ⟨st.nextId + k, templ, t, true⟩)
  baddies : st'.baddies = st.baddies ++ ts.mapIdx (fun k _ => ⟨templ, st.nextId + k⟩)

theorem placed_addMobs (templ : ByteString) (ts : List (Tmat4x4 K)) (st : Loader ℕ K) :
    Placed templ ts st (st.addMobs templ ts) := by
  induction ts generalizing st with
  | nil => exact ⟨rfl, rfl, (List.append_nil _).symm, (List.append_nil _).symm⟩
  | cons t ts ih =>
    have htail := ih (st.addMob templ t)
    have hidx (k : Nat) : st.nextId + 1 + k = st.nextId + (k + 1) := by omega
    constructor
    · exact htail.nextId.trans (hidx _)
    · exact htail.playerSpawn
    · refine htail.added.trans ?_
      simp [addMob, addPhysical, getNextIdentifier, List.mapIdx_cons, hidx]
    · refine htail.baddies.trans ?_
      simp [addMob, addPhysical, getNextIdentifier, List.mapIdx_cons, hidx]

end Loader

theorem counters_iterate {K : Type} [Add K] (d x : K) (k : Nat) :
    (fun ((x, i) : K × Binary32) => (x + d, i.increment))^[k] (x, Binary32.ofInt 0) =
      ((· + d)^[k] x, Binary32.increment^[k] (Binary32.ofInt 0)) := by
  induction k with
  | zero => rfl
  | succ k ih => rw [Function.iterate_succ_apply', Function.iterate_succ_apply',
      Function.iterate_succ_apply', ih]

/-- The rounds of a loop with a float counter and the bound `n`, if it ends. -/
def rounds (n : Int) : Nat := min n.toNat (2 ^ 24)

theorem counter_lt_iff {K : Type} [Add K] {n : Int} (h : n ≤ 2 ^ 24 + 1) (d x : K) (k : Nat) :
    ((fun ((x, i) : K × Binary32) => (x + d, i.increment))^[k] (x, Binary32.ofInt 0)).2 <
      Binary32.ofInt n ↔ k < rounds n := by
  rw [counters_iterate]
  exact Binary32.increment_lt_ofInt h k

theorem counter_lt_of_gt {K : Type} [Add K] {n : Int} (h : 2 ^ 24 + 1 < n) (d x : K) (k : Nat) :
    ((fun ((x, i) : K × Binary32) => (x + d, i.increment))^[k] (x, Binary32.ofInt 0)).2 <
      Binary32.ofInt n := by
  rw [counters_iterate]
  exact Binary32.increment_lt_ofInt_of_gt h k

def GridEnds (xdiv ydiv : Int) : Prop := xdiv ≤ 0 ∨ xdiv ≤ 2 ^ 24 + 1 ∧ ydiv ≤ 2 ^ 24 + 1

instance (xdiv ydiv : Int) : Decidable (GridEnds xdiv ydiv) := inferInstanceAs (Decidable (_ ∨ _))

namespace MobGroup

variable {ι K : Type} [Add ι] [OfNat ι 1] [Add K] [Sub K] [Mul K] [Div K] [IntCast K] (g : MobGroup K)

def xAt (i : Nat) : K := (· + g.xdelta)^[i] g.xmin

def yAt (j : Nat) : K := (· + g.ydelta)^[j] g.ymin

def gridAt (i j : Nat) : Tmat4x4 K := g.trans (g.xAt i) (g.yAt j)

/-- The places of the mobs in the order of the loops. -/
def places : List (Tmat4x4 K) := gridList g.gridAt (rounds g.xdiv.toInt) (rounds g.ydiv.toInt)

end MobGroup

section

variable {ι K : Type} [Add ι] [OfNat ι 1] [Add K] [Sub K] [Mul K] [Div K] [IntCast K]

def placeColumn (fuel : Nat) (g : MobGroup K) (x : K) : Loader ι K → Bool × Loader ι K :=
  ForLoop.run (fun (_, j) => j < Binary32.ofInt g.ydiv.toInt)
    (fun (y, j) => (y + g.ydelta, j.increment))
    (fun (y, _) st => (true, st.addMob g.templ (g.trans x y)))
    fuel (g.ymin, Binary32.ofInt 0)

variable {g : MobGroup K}

theorem placeColumn_of_le {fuel : Nat} (hend : g.ydiv.toInt ≤ 2 ^ 24 + 1) (hfuel : rounds g.ydiv.toInt < fuel)
    (x : K) (st : Loader ι K) : placeColumn fuel g x st =
      (true, st.addMobs g.templ ((List.range (rounds g.ydiv.toInt)).map (fun j => g.trans x (g.yAt j)))) := by
  rw [Loader.addMobs, List.foldl_map]
  unfold placeColumn
  rw [ForLoop.run_of_count (n := rounds g.ydiv.toInt)
    (f := fun (y, _) st => st.addMob g.templ (g.trans x y)) ?_ ?_ hfuel (fun _ _ _ => rfl)]
  · simp only [counters_iterate]
    rfl
  · exact fun k hk => (counter_lt_iff hend g.ydelta g.ymin k).mpr hk
  · exact fun h => absurd ((counter_lt_iff hend g.ydelta g.ymin _).mp h) (Nat.lt_irrefl _)

theorem placeColumn_of_gt (hend : 2 ^ 24 + 1 < g.ydiv.toInt) (fuel : Nat) (x : K) (st : Loader ι K) :
    (placeColumn fuel g x st).1 = false :=
  ForLoop.run_of_endless (fun k => counter_lt_of_gt hend g.ydelta g.ymin k) fuel st

theorem rounds_of_nonpos {n : Int} (h : n ≤ 0) : rounds n = 0 := by
  unfold rounds
  omega

theorem placeMobs_of_ends {fuel : Nat} (hend : GridEnds g.xdiv.toInt g.ydiv.toInt)
    (hx : rounds g.xdiv.toInt < fuel) (hy : 0 < rounds g.xdiv.toInt → rounds g.ydiv.toInt < fuel)
    (st : Loader ι K) : placeMobs fuel g st = (true, st.addMobs g.templ g.places) := by
  have hxdiv : g.xdiv.toInt ≤ 2 ^ 24 + 1 := by
    unfold GridEnds at hend
    omega
  rw [Loader.addMobs, MobGroup.places, gridList, List.foldl_flatMap]
  change ForLoop.run _ _ (fun v : K × Binary32 => placeColumn fuel g v.1) _ _ _ = _
  rw [ForLoop.run_of_count (n := rounds g.xdiv.toInt) (f := fun v st =>
    st.addMobs g.templ ((List.range (rounds g.ydiv.toInt)).map (fun j => g.trans v.1 (g.yAt j)))) ?_ ?_ hx ?_]
  · simp only [counters_iterate]
    rfl
  · exact fun k hk => (counter_lt_iff hxdiv g.xdelta g.xmin k).mpr hk
  · exact fun h => absurd ((counter_lt_iff hxdiv g.xdelta g.xmin _).mp h) (Nat.lt_irrefl _)
  · intro k hk st
    have hydiv : g.ydiv.toInt ≤ 2 ^ 24 + 1 := by
      rcases hend with hzero | ⟨-, h⟩
      · rw [rounds_of_nonpos hzero] at hk
        omega
      · exact h
    exact placeColumn_of_le hydiv (hy (Nat.zero_lt_of_lt hk)) _ st

theorem placeMobs_of_not_ends (hend : ¬GridEnds g.xdiv.toInt g.ydiv.toInt) (fuel : Nat) (st : Loader ι K) :
    (placeMobs fuel g st).1 = false := by
  unfold GridEnds at hend
  by_cases hx : 2 ^ 24 + 1 < g.xdiv.toInt
  · exact ForLoop.run_of_endless (fun k => counter_lt_of_gt hx g.xdelta g.xmin k) fuel st
  · have hy : 2 ^ 24 + 1 < g.ydiv.toInt := by omega
    have hone : 0 < rounds g.xdiv.toInt := by
      unfold rounds
      omega
    refine ForLoop.run_of_stuck (s := (g.xmin, Binary32.ofInt 0)) ?_ ?_ fuel
    · exact (counter_lt_iff (by omega) g.xdelta g.xmin 0).mpr hone
    · exact placeColumn_of_gt hy fuel g.xmin st

theorem placeMobs_ended {fuel : Nat} {st st' : Loader ι K} (h : placeMobs fuel g st = (true, st')) :
    GridEnds g.xdiv.toInt g.ydiv.toInt ∧ st' = st.addMobs g.templ g.places := by
  have htrue : (placeMobs fuel g st).1 = true := congrArg Prod.fst h
  have hend : GridEnds g.xdiv.toInt g.ydiv.toInt := by
    by_contra hnot
    rw [placeMobs_of_not_ends hnot] at htrue
    cases htrue
  have hxdiv : g.xdiv.toInt ≤ 2 ^ 24 + 1 := by
    unfold GridEnds at hend
    omega
  have hx : rounds g.xdiv.toInt < fuel :=
    ForLoop.lt_of_ended (fun k hk => (counter_lt_iff hxdiv g.xdelta g.xmin k).mpr hk) htrue
  have hy (hpos : 0 < rounds g.xdiv.toInt) : rounds g.ydiv.toInt < fuel := by
    have hcolumn : (placeColumn fuel g g.xmin st).1 = true :=
      ForLoop.body_of_ended (s := (g.xmin, Binary32.ofInt 0)) htrue
        ((counter_lt_iff hxdiv g.xdelta g.xmin 0).mpr hpos)
    have hydiv : g.ydiv.toInt ≤ 2 ^ 24 + 1 := by
      by_contra hgt
      rw [placeColumn_of_gt (not_le.mp hgt)] at hcolumn
      cases hcolumn
    exact ForLoop.lt_of_ended (fun k hk => (counter_lt_iff hydiv g.ydelta g.ymin k).mpr hk) hcolumn
  have hrun := placeMobs_of_ends hend hx hy st
  exact ⟨hend, congrArg Prod.snd (h.symm.trans hrun)⟩

end

section

variable {K : Type} [Add K] [Sub K] [Mul K] [Div K] [IntCast K]

theorem rounds_mul_rounds {x y : Int} (hend : GridEnds x y) :
    rounds x * rounds y = x.toNat * y.toNat ↔
      x ≤ 0 ∨ y ≤ 0 ∧ x ≤ 2 ^ 24 + 1 ∨ x ≤ 2 ^ 24 ∧ y ≤ 2 ^ 24 := by
  have hle (n : Int) : rounds n ≤ n.toNat := Nat.min_le_left _ _
  unfold GridEnds at hend
  constructor
  · intro h
    by_contra hno
    have hx : 0 < rounds x := by
      unfold rounds
      omega
    have hy : 0 < y.toNat := by omega
    -- a counter that ends is one round short at most
    have hshort : rounds x < x.toNat ∨ rounds y < y.toNat := by
      unfold rounds
      omega
    have hlt : rounds x * rounds y < x.toNat * y.toNat := by
      rcases hshort with hshort | hshort
      · exact Nat.mul_lt_mul_of_lt_of_le hshort (hle y) hy
      · exact Nat.mul_lt_mul_of_le_of_lt (hle x) hshort (hx.trans_le (hle x))
    omega
  · rintro (hx | ⟨hy, -⟩ | ⟨hx, hy⟩)
    · rw [rounds_of_nonpos hx, Int.toNat_of_nonpos hx, Nat.zero_mul, Nat.zero_mul]
    · rw [rounds_of_nonpos hy, Int.toNat_of_nonpos hy, Nat.mul_zero, Nat.mul_zero]
    · have hsame {n : Int} (hn : n ≤ 2 ^ 24) : rounds n = n.toNat := Nat.min_eq_left (by omega)
      rw [hsame hx, hsame hy]

theorem mobGrid_size_iff (g : MobGroup K) (st : Loader ℕ K) :
    (∃ fuel st' ts, placeMobs fuel g st = (true, st') ∧
      ts.length = g.xdiv.toInt.toNat * g.ydiv.toInt.toNat ∧ Loader.Placed g.templ ts st st') ↔
      g.xdiv.toInt ≤ 0 ∨ g.ydiv.toInt ≤ 0 ∧ g.xdiv.toInt ≤ 2 ^ 24 + 1 ∨
        g.xdiv.toInt ≤ 2 ^ 24 ∧ g.ydiv.toInt ≤ 2 ^ 24 := by
  have hplaces : g.places.length = rounds g.xdiv.toInt * rounds g.ydiv.toInt := length_gridList _ _ _
  constructor
  · rintro ⟨fuel, st', ts, hrun, hlen, hplaced⟩
    obtain ⟨hend, rfl⟩ := placeMobs_ended hrun
    have hids := hplaced.nextId.symm.trans (Loader.placed_addMobs g.templ g.places st).nextId
    refine (rounds_mul_rounds hend).mp ?_
    omega
  · intro h
    have hend : GridEnds g.xdiv.toInt g.ydiv.toInt := by
      unfold GridEnds
      omega
    refine ⟨rounds g.xdiv.toInt + rounds g.ydiv.toInt + 1, _, g.places,
      placeMobs_of_ends hend (by omega) (fun _ => by omega) st, ?_, Loader.placed_addMobs _ _ _⟩
    exact hplaces.trans ((rounds_mul_rounds hend).mpr h)

theorem not_mobGrid_size : ¬∃ fuel st' ts,
    placeMobs fuel ⟨literal "Baddie", .new, -25, -8, 8, -4, 12, 16777218, 1⟩
      (⟨1, .new, [], []⟩ : Loader ℕ ℚ) = (true, st') ∧
    ts.length = 16777218 ∧ Loader.Placed (literal "Baddie") ts ⟨1, .new, [], []⟩ st' := by
  rintro ⟨fuel, st', ts, hrun, -, -⟩
  obtain ⟨hend, -⟩ := placeMobs_ended hrun
  exact absurd hend (by decide)

end

namespace Glm

def Tmat4x4.position {K : Type*} (m : Tmat4x4 K) : Tvec3 K := ⟨m.col3.x, m.col3.y, m.col3.z⟩

end Glm

namespace MobGroup

variable {K : Type} (g : MobGroup K)

def columns : Nat := g.xdiv.toInt.toNat

def rows : Nat := g.ydiv.toInt.toNat

end MobGroup

/-- Mob `k` of those placed between `st` and `st'` stands at `p`. -/
def Stands {K : Type} (templ : ByteString) (st st' : Loader ℕ K) (k : Nat) (p : Tvec3 K) : Prop :=
  ∃ trans : Tmat4x4 K,
    st'.baddies[st.baddies.length + k]? = some ⟨templ, st.nextId + k⟩ ∧
    st'.added[st.added.length + k]? = some ⟨st.nextId + k, templ, trans, true⟩ ∧
    trans.position = p

theorem Loader.Placed.stands {K : Type} {templ : ByteString} {ts : List (Tmat4x4 K)} {st st' : Loader ℕ K}
    (h : Placed templ ts st st') {k : Nat} {t : Tmat4x4 K} (hk : ts[k]? = some t) :
    Stands templ st st' k t.position := by
  refine ⟨t, ?_, ?_, rfl⟩
  · rw [h.baddies, List.getElem?_append_right (Nat.le_add_right _ _), Nat.add_sub_cancel_left]
    simp [List.getElem?_mapIdx, hk]
  · rw [h.added, List.getElem?_append_right (Nat.le_add_right _ _), Nat.add_sub_cancel_left]
    simp [List.getElem?_mapIdx, hk]

section

variable (g : MobGroup ℚ)

theorem position_gridAt (i j : Nat) : (g.gridAt i j).position =
    ⟨g.xmin + i * g.xdelta, g.ymin + j * g.ydelta, g.height⟩ := by
  have hx : g.xAt i = g.xmin + i * g.xdelta := by
    rw [MobGroup.xAt, add_right_iterate, nsmul_eq_mul]
  have hy : g.yAt j = g.ymin + j * g.ydelta := by
    rw [MobGroup.yAt, add_right_iterate, nsmul_eq_mul]
  rw [MobGroup.gridAt, MobGroup.trans, translate_mul_mat4Cast, ← hx, ← hy]
  rfl

theorem toInt_sub_one {a : Int32} (h : 2 ≤ a.toInt) : (a - 1).toInt = a.toInt - 1 := by
  have hlt := a.toInt_lt
  rw [Int32.toInt_sub]
  change (a.toInt - 1).bmod (2 ^ 32) = _
  exact Int.bmod_eq_of_le (by omega) (by omega)

/-- What the loops do to a grid with two columns and two rows at least. -/
structure OnRectangle (st st' : Loader ℕ ℚ) : Prop where
  size : st'.baddies.length = st.baddies.length + g.columns * g.rows
  place : ∀ i < g.columns, ∀ j < g.rows, Stands g.templ st st' (i * g.rows + j)
    ⟨g.xmin + i * (g.xmax - g.xmin) / (g.columns - 1), g.ymin + j * (g.ymax - g.ymin) / (g.rows - 1), g.height⟩
  corners : Stands g.templ st st' 0 ⟨g.xmin, g.ymin, g.height⟩ ∧
    Stands g.templ st st' (g.rows - 1) ⟨g.xmin, g.ymax, g.height⟩ ∧
    Stands g.templ st st' ((g.columns - 1) * g.rows) ⟨g.xmax, g.ymin, g.height⟩ ∧
    Stands g.templ st st' (g.columns * g.rows - 1) ⟨g.xmax, g.ymax, g.height⟩
  inside : g.xmin ≤ g.xmax → g.ymin ≤ g.ymax → ∀ k < g.columns * g.rows, ∃ p : Tvec3 ℚ,
    Stands g.templ st st' k p ∧ g.xmin ≤ p.x ∧ p.x ≤ g.xmax ∧ g.ymin ≤ p.y ∧ p.y ≤ g.ymax

variable {g}

theorem line_between {a b : ℚ} {i n : Nat} (hab : a ≤ b) (hn : 2 ≤ n) (hi : i < n) :
    a ≤ a + i * (b - a) / (n - 1) ∧ a + i * (b - a) / (n - 1) ≤ b := by
  have hn' : (1 : ℚ) ≤ n - 1 := by
    have hcast : (2 : ℚ) ≤ n := by exact_mod_cast hn
    linarith
  have hi' : (i : ℚ) ≤ n - 1 := by
    have hcast : (i : ℚ) + 1 ≤ n := by exact_mod_cast hi
    linarith
  have hpos : (0 : ℚ) < n - 1 := by linarith
  have hlen : 0 ≤ b - a := by linarith
  constructor
  · have hoff : 0 ≤ i * (b - a) / (n - 1) := by positivity
    linarith
  · have hoff : i * (b - a) / (n - 1) ≤ b - a := by
      rw [div_le_iff₀ hpos, mul_comm]
      exact mul_le_mul_of_nonneg_left hi' hlen
    linarith

theorem line_last (a b : ℚ) {n : Nat} (hn : 2 ≤ n) : a + (n - 1 : Nat) * (b - a) / (n - 1) = b := by
  have hn' : (n : ℚ) - 1 ≠ 0 := by
    have hcast : (2 : ℚ) ≤ n := by exact_mod_cast hn
    linarith
  rw [Nat.cast_sub (by omega), Nat.cast_one, mul_comm, mul_div_assoc, div_self hn']
  ring

theorem cast_toInt_sub_one {a : Int32} (h : 2 ≤ a.toInt) :
    ((a - 1).toInt : ℚ) = (a.toInt.toNat : ℚ) - 1 := by
  have hnat : (a.toInt.toNat : ℤ) = a.toInt := Int.toNat_of_nonneg (by omega)
  rw [toInt_sub_one h, ← hnat, Int.cast_sub, Int.cast_natCast, Int.cast_one, Int.toNat_natCast]

theorem onRectangle {st st' : Loader ℕ ℚ} (hx : 2 ≤ g.columns) (hy : 2 ≤ g.rows)
    (hsize : st'.baddies.length = st.baddies.length + g.columns * g.rows)
    (hplace : ∀ i < g.columns, ∀ j < g.rows, Stands g.templ st st' (i * g.rows + j)
      ⟨g.xmin + i * (g.xmax - g.xmin) / (g.columns - 1), g.ymin + j * (g.ymax - g.ymin) / (g.rows - 1),
        g.height⟩) : OnRectangle g st st' := by
  have hfirst (a b : ℚ) (n : Nat) : a + (0 : Nat) * (b - a) / (n - 1) = a := by simp
  refine ⟨hsize, hplace, ⟨?_, ?_, ?_, ?_⟩, ?_⟩
  · have h := hplace 0 (by omega) 0 (by omega)
    rwa [hfirst, hfirst, Nat.zero_mul, Nat.zero_add] at h
  · have h := hplace 0 (by omega) (g.rows - 1) (by omega)
    rwa [hfirst, line_last _ _ hy, Nat.zero_mul, Nat.zero_add] at h
  · have h := hplace (g.columns - 1) (by omega) 0 (by omega)
    rwa [hfirst, line_last _ _ hx, Nat.add_zero] at h
  · have h := hplace (g.columns - 1) (by omega) (g.rows - 1) (by omega)
    have hlast : (g.columns - 1) * g.rows + (g.rows - 1) = g.columns * g.rows - 1 := by
      obtain ⟨c, hc⟩ : ∃ c, g.columns = c + 1 := ⟨g.columns - 1, by omega⟩
      rw [hc, Nat.add_sub_cancel, Nat.succ_mul]
      omega
    rwa [line_last _ _ hx, line_last _ _ hy, hlast] at h
  · intro hxx hyy k hk
    have hrow : k % g.rows < g.rows := Nat.mod_lt _ (by omega)
    have hcolumn : k / g.rows < g.columns := (Nat.div_lt_iff_lt_mul (by omega)).mpr hk
    have h := hplace _ hcolumn _ hrow
    rw [Nat.mul_comm, Nat.div_add_mod] at h
    exact ⟨_, h, (line_between hxx hx hcolumn).1, (line_between hxx hx hcolumn).2,
      (line_between hyy hy hrow).1, (line_between hyy hy hrow).2⟩

theorem mobGrid_positions (lib : CLib ℚ) {node : XmlNode} (siblings : List XmlNode) (st : Loader ℕ ℚ)
    (hnode : node.CompleteMobGroup)
    (hx : 2 ≤ (mobGroupOf lib node).xdiv.toInt ∧ (mobGroupOf lib node).xdiv.toInt ≤ 2 ^ 24)
    (hy : 2 ≤ (mobGroupOf lib node).ydiv.toInt ∧ (mobGroupOf lib node).ydiv.toInt ≤ 2 ^ 24) :
    ∃ fuel st', (loadMobGroup lib fuel (node :: siblings)).exec st = (.ok (), st') ∧
      OnRectangle (mobGroupOf lib node) st st' := by
  generalize hg : mobGroupOf lib node = g at hx hy
  have hend : GridEnds g.xdiv.toInt g.ydiv.toInt := Or.inr ⟨by omega, by omega⟩
  have hcolumns : rounds g.xdiv.toInt = g.columns := Nat.min_eq_left (by omega)
  have hrows : rounds g.ydiv.toInt = g.rows := Nat.min_eq_left (by omega)
  let fuel := g.columns + g.rows + 1
  have hrun : placeMobs fuel g st = (true, st.addMobs g.templ g.places) :=
    placeMobs_of_ends hend (by omega) (fun _ => by omega) st
  have hplaced := Loader.placed_addMobs g.templ g.places st
  have hlen : g.places.length = g.columns * g.rows := by
    rw [MobGroup.places, length_gridList, hcolumns, hrows]
  refine ⟨fuel, st.addMobs g.templ g.places, ?_, ?_⟩
  · rw [loadMobGroup_of_complete hnode siblings, hg, hrun]
    rfl
  · refine onRectangle (by unfold MobGroup.columns; omega) (by unfold MobGroup.rows; omega) ?_ ?_
    · rw [hplaced.baddies, List.length_append, List.length_mapIdx, hlen]
    · intro i hi j hj
      have hat : g.places[i * g.rows + j]? = some (g.gridAt i j) := by
        rw [MobGroup.places, hcolumns, hrows]
        exact getElem?_gridList _ hi hj
      have hstands := hplaced.stands hat
      have hxdelta : g.xdelta = (g.xmax - g.xmin) / (g.columns - 1) := by
        rw [MobGroup.xdelta, cast_toInt_sub_one hx.1, MobGroup.columns]
      have hydelta : g.ydelta = (g.ymax - g.ymin) / (g.rows - 1) := by
        rw [MobGroup.ydelta, cast_toInt_sub_one hy.1, MobGroup.rows]
      rwa [position_gridAt, hxdelta, hydelta, ← mul_div_assoc, ← mul_div_assoc] at hstands

/-- The mob group of `data/world.xml`, its numbers without their fractions. -/
def shippedMobGroup : XmlNode :=
  .branch "MobGroup" [.leaf "Template" "Baddie", .leaf "Height" "-25",
    .branch "Quaternion" [.leaf "X" "0", .leaf "Y" "0", .leaf "Z" "0", .leaf "W" "-1"],
    .branch "Grid" [.leaf "xmin" "-8", .leaf "xmax" "8", .leaf "ymin" "-4", .leaf "ymax" "12",
      .leaf "xdiv" "7", .leaf "ydiv" "5"]]

theorem mobGrid_positions_shipped : ∃ fuel st',
    (loadMobGroup CLib.numerals fuel [shippedMobGroup]).exec (⟨1, .new, [], []⟩ : Loader ℕ ℚ) = (.ok (), st') ∧
      OnRectangle (mobGroupOf CLib.numerals shippedMobGroup) ⟨1, .new, [], []⟩ st' :=
  mobGrid_positions CLib.numerals [] ⟨1, .new, [], []⟩ (by decide) (by decide) (by decide)

end

end Quintses
