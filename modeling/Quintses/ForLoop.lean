import Mathlib.Data.List.Basic
import Mathlib.Logic.Function.Iterate

/-! Loops with a condition, a step of the loop variables and a body that may
itself stay in a loop. -/

namespace ForLoop

variable {σ τ : Type*}

/-- At most `fuel` rounds. The flag says whether the loop has ended. -/
def run (cond : σ → Prop) [DecidablePred cond] (next : σ → σ) (body : σ → τ → Bool × τ) :
    Nat → σ → τ → Bool × τ
  | 0, _, t => (false, t)
  | fuel + 1, s, t =>
    if cond s then
      match body s t with
      | (true, t) => run cond next body fuel (next s) t
      | (false, t) => (false, t)
    else
      (true, t)

variable {cond : σ → Prop} [DecidablePred cond] {next : σ → σ} {body : σ → τ → Bool × τ}

theorem run_succ_of_not {s : σ} (h : ¬cond s) (fuel : Nat) (t : τ) :
    run cond next body (fuel + 1) s t = (true, t) := by
  rw [run, if_neg h]

theorem run_succ_of_ended {s : σ} {t t' : τ} (h : cond s) (hb : body s t = (true, t')) (fuel : Nat) :
    run cond next body (fuel + 1) s t = run cond next body fuel (next s) t' := by
  rw [run, if_pos h, hb]

theorem run_succ_of_stuck {s : σ} {t t' : τ} (h : cond s) (hb : body s t = (false, t')) (fuel : Nat) :
    run cond next body (fuel + 1) s t = (false, t') := by
  rw [run, if_pos h, hb]

/-- A loop whose condition fails for the first time after `n` rounds. -/
theorem run_of_count {f : σ → τ → τ} {n : Nat} {s : σ} (hin : ∀ k < n, cond (next^[k] s))
    (hout : ¬cond (next^[n] s)) {fuel : Nat} (hfuel : n < fuel)
    (hbody : ∀ k < n, ∀ t, body (next^[k] s) t = (true, f (next^[k] s) t)) (t : τ) :
    run cond next body fuel s t = (true, (List.range n).foldl (fun t k => f (next^[k] s) t) t) := by
  induction n generalizing s t fuel with
  | zero =>
    obtain ⟨fuel, rfl⟩ := Nat.exists_eq_add_of_lt hfuel
    rw [Nat.zero_add]
    exact run_succ_of_not hout fuel t
  | succ n ih =>
    obtain ⟨fuel, rfl⟩ : ∃ m, fuel = m + 1 := ⟨fuel - 1, by omega⟩
    have hfirst := hbody 0 n.succ_pos t
    rw [run_succ_of_ended (s := s) (hin 0 n.succ_pos) hfirst]
    rw [ih (fun k hk => hin (k + 1) (by omega)) hout (by omega) (fun k hk => hbody (k + 1) (by omega)),
      List.range_succ_eq_map, List.foldl_cons, List.foldl_map]
    rfl

theorem run_of_endless {s : σ} (h : ∀ k, cond (next^[k] s)) (fuel : Nat) (t : τ) :
    (run cond next body fuel s t).1 = false := by
  induction fuel generalizing s t with
  | zero => rfl
  | succ fuel ih =>
    cases hb : body s t with
    | mk ended t' =>
      cases ended with
      | false => rw [run_succ_of_stuck (s := s) (h 0) hb]
      | true =>
        rw [run_succ_of_ended (s := s) (h 0) hb]
        exact ih (fun k => h (k + 1)) t'

theorem run_of_stuck {s : σ} (h : cond s) {t : τ} (hb : (body s t).1 = false) (fuel : Nat) :
    (run cond next body fuel s t).1 = false := by
  cases fuel with
  | zero => rfl
  | succ fuel =>
    have hpair : body s t = (false, (body s t).2) := Prod.ext hb rfl
    rw [run_succ_of_stuck h hpair]

theorem body_of_ended {s : σ} {t : τ} {fuel : Nat} (h : (run cond next body fuel s t).1 = true)
    (hc : cond s) : (body s t).1 = true := by
  by_contra hb
  have hstuck : (run cond next body fuel s t).1 = false := run_of_stuck hc (Bool.eq_false_iff.mpr hb) fuel
  exact Bool.false_ne_true (hstuck.symm.trans h)

theorem lt_of_ended {n : Nat} {s : σ} (hin : ∀ k < n, cond (next^[k] s)) {fuel : Nat} {t : τ}
    (h : (run cond next body fuel s t).1 = true) : n < fuel := by
  induction n generalizing s t fuel with
  | zero =>
    cases fuel with
    | zero => cases h
    | succ fuel => exact fuel.succ_pos
  | succ n ih =>
    cases fuel with
    | zero => cases h
    | succ fuel =>
      have hone : cond s := hin 0 n.succ_pos
      cases hb : body s t with
      | mk ended t' =>
        cases ended with
        | false =>
          rw [run_succ_of_stuck hone hb] at h
          cases h
        | true =>
          rw [run_succ_of_ended hone hb] at h
          exact Nat.succ_lt_succ (ih (fun k hk => hin (k + 1) (Nat.succ_lt_succ hk)) h)

theorem run_invariant {P : τ → Prop} (hbody : ∀ s t, P t → P (body s t).2) {t : τ} (ht : P t)
    (fuel : Nat) (s : σ) : P (run cond next body fuel s t).2 := by
  induction fuel generalizing s t with
  | zero => exact ht
  | succ fuel ih =>
    unfold run
    split
    · have hone := hbody s t ht
      split
      next t' hb =>
        rw [hb] at hone
        exact ih hone (next s)
      next t' hb =>
        rw [hb] at hone
        exact hone
    · exact ht

end ForLoop
