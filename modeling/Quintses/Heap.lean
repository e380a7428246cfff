import Quintses.StdMap
import Mathlib.Order.Nat

/-! A heap of cells at natural addresses, with 0 as the null pointer, and the
lists that hang together by a `next` pointer in it. -/

abbrev Heap (β : Type*) := StdMap Nat β

namespace Heap

variable {β : Type*}

/-- An address that holds no cell. A freed address can be handed out again. -/
def fresh (h : Heap β) : Nat := h.keys.foldr max 0 + 1

def alloc (h : Heap β) (b : β) : Heap β := h.assign h.fresh b

def free (h : Heap β) (a : Nat) : Heap β := h.erase a

theorem le_foldr_max {a : Nat} {l : List Nat} (ha : a ∈ l) : a ≤ l.foldr max 0 := by
  induction l with
  | nil => simp at ha
  | cons x xs ih =>
    simp only [List.foldr_cons]
    rcases List.mem_cons.mp ha with rfl | ha
    · exact Nat.le_max_left _ _
    · exact (ih ha).trans (Nat.le_max_right _ _)

theorem fresh_ne_zero (h : Heap β) : h.fresh ≠ 0 := Nat.succ_ne_zero _

theorem find?_fresh (h : Heap β) : h.find? h.fresh = none := by
  cases hf : h.find? h.fresh with
  | none => rfl
  | some b =>
    have hle := le_foldr_max (StdMap.mem_keys.mpr ⟨b, hf⟩)
    simp only [fresh] at hle
    omega

theorem ne_fresh_of_find? {h : Heap β} {a : Nat} {b : β} (ha : h.find? a = some b) :
    a ≠ h.fresh := by
  intro he
  simp [he, find?_fresh] at ha

@[simp] theorem find?_alloc (h : Heap β) (b : β) (a : Nat) :
    (h.alloc b).find? a = if a = h.fresh then some b else h.find? a := StdMap.find?_assign h _ _ b

@[simp] theorem find?_free (h : Heap β) (a a' : Nat) :
    (h.free a).find? a' = if a' = a then none else h.find? a' := StdMap.find?_erase h a a'

theorem keys_alloc_perm (h : Heap β) (b : β) : (h.alloc b).keys.Perm (h.fresh :: h.keys) :=
  StdMap.keys_assign_perm h.find?_fresh

theorem find?_alloc_of_find? {h : Heap β} {a : Nat} {b : β} (c : β) (ha : h.find? a = some b) :
    (h.alloc c).find? a = some b := by
  simp [ne_fresh_of_find? ha, ha]

/-- Free the cells at these addresses; `none` if one of them holds no cell. -/
def delete? : Heap β → List Nat → Option (Heap β)
  | h, [] => some h
  | h, a :: as => if (h.find? a).isSome then delete? (h.free a) as else none

/-- Cells that are all there are freed one after the other, and no other changes. -/
theorem delete?_of_perm {h : Heap β} {as rest : List Nat} (hk : h.keys.Perm (as ++ rest)) :
    h.delete? as = some (as.foldl free h) ∧ (as.foldl free h).keys.Perm rest ∧
      ∀ a, a ∉ as → (as.foldl free h).find? a = h.find? a := by
  induction as generalizing h with
  | nil => exact ⟨rfl, hk, fun _ _ => rfl⟩
  | cons a as ih =>
    obtain ⟨b, hb⟩ : ∃ b, h.find? a = some b := StdMap.mem_keys.mp (hk.mem_iff.mpr List.mem_cons_self)
    have hfree : (h.free a).keys.Perm (as ++ rest) :=
      (List.perm_cons a).mp ((StdMap.keys_erase_perm hb).symm.trans hk)
    obtain ⟨hd, hrest, hsame⟩ := ih hfree
    refine ⟨by simp [delete?, hb, hd], hrest, fun x hx => ?_⟩
    obtain ⟨hne, hx⟩ := not_or.mp (mt List.mem_cons.mpr hx)
    rw [List.foldl_cons, hsame x hx, find?_free, if_neg hne]

/-- Following `next` from `p` visits exactly the listed cells and ends at null. -/
def Chain (h : Heap β) (next : β → Nat) : Nat → List (Nat × β) → Prop
  | p, [] => p = 0
  | p, c :: l => p = c.1 ∧ p ≠ 0 ∧ h.find? p = some c.2 ∧ Chain h next (next c.2) l

variable {h h' : Heap β} {next : β → Nat} {p : Nat} {l l' : List (Nat × β)}

theorem Chain.congr (hc : Chain h next p l)
    (hsame : ∀ c ∈ l, h'.find? c.1 = h.find? c.1) : Chain h' next p l := by
  induction l generalizing p with
  | nil => exact hc
  | cons c l ih =>
    obtain ⟨hp, hnull, hcell, hrest⟩ := hc
    have hh := hsame c List.mem_cons_self
    exact ⟨hp, hnull, by rw [hp] at hcell ⊢; rw [hh, hcell],
      ih hrest (fun d hd => hsame d (List.mem_cons_of_mem c hd))⟩

theorem Chain.find? (hc : Chain h next p l) {c : Nat × β} (hmem : c ∈ l) :
    h.find? c.1 = some c.2 := by
  induction l generalizing p with
  | nil => simp at hmem
  | cons d l ih =>
    obtain ⟨hp, _, hcell, hrest⟩ := hc
    rcases List.mem_cons.mp hmem with rfl | hmem
    · exact hp ▸ hcell
    · exact ih hrest hmem

theorem Chain.unique (hc : Chain h next p l) (hc' : Chain h next p l') : l = l' := by
  induction l generalizing p l' with
  | nil =>
    cases l' with
    | nil => rfl
    | cons c' l' => exact absurd hc hc'.2.1
  | cons c l ih =>
    cases l' with
    | nil => exact absurd hc' hc.2.1
    | cons c' l' =>
      obtain ⟨hp, _, hcell, hrest⟩ := hc
      obtain ⟨hp', _, hcell', hrest'⟩ := hc'
      have he : c = c' := Prod.ext (hp.symm.trans hp') (Option.some.inj (hcell.symm.trans hcell'))
      subst he
      exact congrArg (c :: ·) (ih hrest hrest')

theorem Chain.suffix (hc : Chain h next p l) {c : Nat × β} (hmem : c ∈ l) :
    ∃ tail, Chain h next c.1 (c :: tail) ∧ tail.length < l.length := by
  induction l generalizing p with
  | nil => simp at hmem
  | cons d l ih =>
    rcases List.mem_cons.mp hmem with rfl | hmem
    · exact ⟨l, by rw [← hc.1]; exact hc, by simp⟩
    · obtain ⟨tail, ht, hlt⟩ := ih hc.2.2.2 hmem
      exact ⟨tail, ht, hlt.trans (by simp)⟩

theorem Chain.head_not_mem {c : Nat × β} (hc : Chain h next p (c :: l)) :
    ∀ d ∈ l, d.1 ≠ c.1 := by
  intro d hd he
  obtain ⟨tail, ht, hlt⟩ := Chain.suffix hc.2.2.2 hd
  have hu := Chain.unique hc (by rw [hc.1, ← he]; exact ht)
  have hlen := congrArg List.length hu
  simp only [List.length_cons] at hlen
  omega

theorem Chain.nodup (hc : Chain h next p l) : (l.map Prod.fst).Nodup := by
  induction l generalizing p with
  | nil => exact List.nodup_nil
  | cons c l ih =>
    refine List.nodup_cons.mpr ⟨fun hm => ?_, ih hc.2.2.2⟩
    obtain ⟨d, hd, he⟩ := List.mem_map.mp hm
    exact hc.head_not_mem d hd he

theorem Chain.free_head {c : Nat × β} (hc : Chain h next p (c :: l)) :
    Chain (h.free p) next (next c.2) l := by
  refine hc.2.2.2.congr (fun d hd => ?_)
  have hne : d.1 ≠ p := hc.1 ▸ hc.head_not_mem d hd
  simp [hne]

end Heap
