import Mathlib.Data.List.Basic

/-! Loops whose body may fail, go round again or leave with a result. The
first argument bounds the number of rounds. -/

namespace Loop

variable {σ ρ : Type*}

def iterate (body : σ → Option (σ ⊕ ρ)) : Nat → σ → Option ρ
  | 0, _ => none
  | fuel + 1, s =>
    match body s with
    | none => none
    | some (.inl s') => iterate body fuel s'
    | some (.inr r) => some r

variable {body : σ → Option (σ ⊕ ρ)}

theorem iterate_of_exit {s : σ} {r : ρ} (h : body s = some (.inr r)) (fuel : Nat) :
    iterate body (fuel + 1) s = some r := by
  simp [iterate, h]

end Loop
