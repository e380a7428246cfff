import Quintses.PopOrder

/-! Values that pass through several containers, one after the other, into a
cell that keeps the last one to arrive. -/

namespace Stages

variable {α : Type*}

/-- Nothing but `m` can be the last value in the cell: the first container that
is not empty holds only `m`, or all are empty and the cell has it. -/
def Settled (m : α) : List (List α) → Option α → Prop
  | [], cell => cell = some m
  | q :: stages, cell => (∀ x ∈ q, x = m) ∧ (q = [] → Settled m stages cell)

variable {m : α} {stages stages' : List (List α)} {cell cell' : Option α}

theorem Settled.append_imp (before : List (List α))
    (hrest : Settled m stages cell → Settled m stages' cell')
    (h : Settled m (before ++ stages) cell) : Settled m (before ++ stages') cell' := by
  induction before with
  | nil => exact hrest h
  | cons q before ih => exact ⟨h.1, fun he => ih (h.2 he)⟩

theorem settled_enter (o : PopOrder) {q : List α} (hq : ∀ x ∈ q, x = m) :
    Settled m (o.add q m :: stages) cell := by
  refine ⟨fun x hx => ?_, fun he => ?_⟩
  · rcases PopOrder.mem_add.mp hx with rfl | hx
    · rfl
    · exact hq x hx
  · have hm : m ∈ o.add q m := PopOrder.mem_add.mpr (Or.inl rfl)
    rw [he] at hm
    cases hm

theorem Settled.take {x : α} {q : List α} (h : Settled m ((x :: q) :: [] :: stages) cell) :
    Settled m (q :: [x] :: stages) cell := by
  refine ⟨fun y hy => h.1 y (List.mem_cons_of_mem x hy), fun _ => ⟨fun y hy => ?_, fun he => ?_⟩⟩
  · rw [List.mem_singleton.mp hy]
    exact h.1 x List.mem_cons_self
  · cases he

theorem Settled.forward (o : PopOrder) {x : α} {q : List α} (hq : ∀ y ∈ q, y = x)
    (h : Settled m ([x] :: q :: stages) cell) : Settled m ([] :: o.add q x :: stages) cell := by
  obtain rfl : x = m := h.1 x List.mem_cons_self
  refine ⟨fun y hy => ?_, fun _ => settled_enter o hq⟩
  cases hy

theorem Settled.arrive {x : α} (h : Settled m [[x]] cell) : Settled m [[]] (some x) := by
  obtain rfl : x = m := h.1 x List.mem_cons_self
  refine ⟨fun y hy => ?_, fun _ => rfl⟩
  cases hy

theorem Settled.cell_eq (h : Settled m stages cell) (hempty : ∀ q ∈ stages, q = []) : cell = some m := by
  induction stages with
  | nil => exact h
  | cons q stages ih =>
    exact ih (h.2 (hempty q List.mem_cons_self)) (fun q' hq' => hempty q' (List.mem_cons_of_mem q hq'))

/-- What is on its way, the next to arrive first. -/
def line (stages : List (List α)) : List α := stages.reverse.flatten

theorem line_cons (q : List α) (stages : List (List α)) : line (q :: stages) = line stages ++ q := by
  simp [line]

end Stages
