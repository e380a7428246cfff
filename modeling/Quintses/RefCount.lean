import Quintses.Heap
import Mathlib.Data.List.Count

/-! Shared counters on the heap, each to hold the number of pointers to it. A
null pointer is counted nowhere. -/

namespace RefCount

/-- What is allocated is what is pointed to, and holds the number of pointers. -/
structure Exact (counters : Heap UInt32) (pointers : List Nat) : Prop where
  counted : ∀ p n, counters.find? p = some n → n.toNat = pointers.count p
  allocated : ∀ p, p ∈ counters.keys ↔ p ≠ 0 ∧ p ∈ pointers

namespace Exact

variable {counters : Heap UInt32} {ps qs : List Nat} {p : Nat}

theorem nil : Exact StdMap.empty [] := ⟨fun p n h => by simp at h, fun p => by simp [StdMap.mem_keys]⟩

theorem perm (h : Exact counters ps) (hp : ps.Perm qs) : Exact counters qs :=
  ⟨fun p n hn => (h.counted p n hn).trans (hp.count_eq p), fun p => by rw [h.allocated, hp.mem_iff]⟩

/-- What is done to the counter at `p` leaves the others exact. -/
theorem update {counters' : Heap UInt32} (h : Exact counters ps)
    (hfind : ∀ q, q ≠ p → counters'.find? q = counters.find? q)
    (hcount : ∀ q, q ≠ p → qs.count q = ps.count q)
    (hat : ∀ n, counters'.find? p = some n → n.toNat = qs.count p)
    (hkey : p ∈ counters'.keys ↔ p ≠ 0 ∧ p ∈ qs) : Exact counters' qs := by
  refine ⟨fun q n hn => ?_, fun q => ?_⟩
  · by_cases hq : q = p
    · subst hq
      exact hat n hn
    · rw [hfind q hq] at hn
      rw [hcount q hq, h.counted q n hn]
  · by_cases hq : q = p
    · subst hq
      exact hkey
    · have hmem : q ∈ qs ↔ q ∈ ps := by rw [← List.count_pos_iff, ← List.count_pos_iff, hcount q hq]
      rw [StdMap.mem_keys, hfind q hq, ← StdMap.mem_keys, h.allocated, hmem]

theorem find?_null (h : Exact counters ps) : counters.find? 0 = none := by
  by_contra hno
  exact ((h.allocated 0).mp (StdMap.mem_keys.mpr (Option.ne_none_iff_exists'.mp hno))).1 rfl

theorem null_cons (h : Exact counters ps) : Exact counters (0 :: ps) := by
  refine h.update (p := 0) (fun q _ => rfl) (fun q hq => List.count_cons_of_ne hq.symm) ?_ ?_
  · simp [h.find?_null]
  · simp [StdMap.mem_keys, h.find?_null]

theorem of_null_cons (h : Exact counters (0 :: ps)) : Exact counters ps := by
  refine h.update (p := 0) (fun q _ => rfl) (fun q hq => (List.count_cons_of_ne hq.symm).symm) ?_ ?_
  · simp [h.find?_null]
  · simp [StdMap.mem_keys, h.find?_null]

theorem find? (h : Exact counters ps) (hne : p ≠ 0) (hp : p ∈ ps) :
    ∃ n, counters.find? p = some n ∧ n.toNat = ps.count p := by
  obtain ⟨n, hn⟩ := StdMap.mem_keys.mp ((h.allocated p).mpr ⟨hne, hp⟩)
  exact ⟨n, hn, h.counted p n hn⟩

/-- A counter that wrapped around would not be exact. -/
theorem count_lt (h : Exact counters ps) (hne : p ≠ 0) (hp : p ∈ ps) : ps.count p < UInt32.size := by
  obtain ⟨n, -, hn⟩ := h.find? hne hp
  exact hn ▸ n.toNat_lt

theorem fresh_not_mem (h : Exact counters ps) : counters.fresh ∉ ps := by
  intro hp
  obtain ⟨n, hn, -⟩ := h.find? (Heap.fresh_ne_zero counters) hp
  simp [Heap.find?_fresh] at hn

theorem alloc (h : Exact counters ps) : Exact (counters.alloc 1) (counters.fresh :: ps) := by
  refine h.update (fun q hq => by simp [hq]) (fun q hq => List.count_cons_of_ne hq.symm) (fun n hn => ?_) ?_
  · have hone : n = 1 := by simpa using hn.symm
    rw [hone, List.count_cons_self, List.count_eq_zero.mpr h.fresh_not_mem]
    rfl
  · simp [StdMap.mem_keys, Heap.fresh_ne_zero]

theorem increment (h : Exact counters ps) (hne : p ≠ 0) (hp : p ∈ ps) (hlt : ps.count p + 1 < UInt32.size) :
    Exact (counters.modify p (· + 1)) (p :: ps) := by
  obtain ⟨m, hm, hcount⟩ := h.find? hne hp
  refine h.update (fun q hq => by simp [hq]) (fun q hq => List.count_cons_of_ne hq.symm) (fun n hn => ?_) ?_
  · have hsucc : m + 1 = n := by simpa [hm] using hn
    rw [List.count_cons_self, ← hsucc, UInt32.toNat_add, hcount]
    exact Nat.mod_eq_of_lt hlt
  · simp [StdMap.mem_keys, hm, hne]

theorem decrement (h : Exact counters (p :: ps)) (hne : p ≠ 0) (hp : p ∈ ps) :
    Exact (counters.modify p (· - 1)) ps ∧ (counters.modify p (· - 1)).find? p ≠ some 0 := by
  obtain ⟨m, hm, hcount⟩ := h.find? hne List.mem_cons_self
  rw [List.count_cons_self] at hcount
  have hle : (1 : UInt32) ≤ m := UInt32.le_iff_toNat_le.mpr (by simp [hcount])
  have hpred : (m - 1).toNat = ps.count p := by
    rw [UInt32.toNat_sub_of_le _ _ hle, hcount]
    rfl
  refine ⟨h.update (fun q hq => by simp [hq]) (fun q hq => (List.count_cons_of_ne hq.symm).symm)
    (fun n hn => ?_) ?_, fun hzero => ?_⟩
  · have hn : m - 1 = n := by simpa [hm] using hn
    rw [← hn, hpred]
  · simp [StdMap.mem_keys, hm, hne, hp]
  · have hzero : m - 1 = 0 := by simpa [hm] using hzero
    rw [hzero] at hpred
    exact absurd hpred.symm (Nat.ne_of_gt (List.count_pos_iff.mpr hp))

theorem last (h : Exact counters (p :: ps)) (hne : p ≠ 0) (hp : p ∉ ps) :
    (counters.modify p (· - 1)).find? p = some 0 ∧ Exact (Heap.free (counters.modify p (· - 1)) p) ps := by
  obtain ⟨m, hm, hcount⟩ := h.find? hne List.mem_cons_self
  rw [List.count_cons_self, List.count_eq_zero.mpr hp] at hcount
  have hone : m = 1 := UInt32.toNat_inj.mp hcount
  refine ⟨by simp [hm, hone], h.update (p := p) (fun q hq => by simp [hq])
    (fun q hq => (List.count_cons_of_ne hq.symm).symm) ?_ ?_⟩
  · simp
  · simp [StdMap.mem_keys, hp]

end Exact

end RefCount
