import Mathlib.Data.List.Basic

/-! What holds of a history since some event in it, as in temporal logic. -/

variable {α : Type*}

/-- Some event met `p`, given what came before it, and all later ones met `q`. -/
def Since (p : List α → α → Prop) (q : α → Prop) (history : List α) : Prop :=
  ∃ before a later, history = before ++ a :: later ∧ p before a ∧ ∀ b ∈ later, q b

namespace Since

variable {p p' : List α → α → Prop} {q q' : α → Prop} {history : List α} {a : α}

theorem not_nil : ¬ Since p q [] := by
  rintro ⟨before, a, later, h, -⟩
  simp at h

theorem append_iff : Since p q (history ++ [a]) ↔ p history a ∨ q a ∧ Since p q history := by
  constructor
  · rintro ⟨before, b, later, h, hb, hlater⟩
    rcases List.eq_nil_or_concat later with rfl | ⟨later, c, rfl⟩
    · obtain ⟨rfl, he⟩ := List.append_inj' h rfl
      cases he
      exact Or.inl hb
    · have hsplit : history ++ [a] = (before ++ b :: later) ++ [c] := by simpa using h
      obtain ⟨rfl, he⟩ := List.append_inj' hsplit rfl
      cases he
      exact Or.inr ⟨hlater a (by simp), before, b, later, rfl, hb, fun d hd => hlater d (by simp [hd])⟩
  · rintro (hp | ⟨hq, before, b, later, rfl, hb, hlater⟩)
    · exact ⟨history, a, [], rfl, hp, fun b hb => by cases hb⟩
    · refine ⟨before, b, later ++ [a], by simp, hb, fun c hc => ?_⟩
      rcases List.mem_append.mp hc with hc | hc
      · exact hlater c hc
      · exact List.mem_singleton.mp hc ▸ hq

end Since
