import Mathlib.Data.List.Basic

/-! Deterministic labelled transition systems. A label fixes every choice of
the scheduler and of the environment, so a run is a list of labels. -/

namespace Lts

variable {σ α : Type*} {step : σ → α → Option σ}

/-- Perform the labels in order; `none` if one of them is not enabled. -/
def run (step : σ → α → Option σ) : σ → List α → Option σ
  | s, [] => some s
  | s, a :: as => (step s a).bind (fun t => run step t as)

/-- Every state the run passes through, first and last included. -/
def Along (step : σ → α → Option σ) (good : σ → Prop) : σ → List α → Prop
  | s, [] => good s
  | s, a :: as => good s ∧ ∀ t, step s a = some t → Along step good t as

/-- Every label the run takes meets the condition in the state it is taken in. -/
def Guarded (step : σ → α → Option σ) (ok : σ → α → Prop) : σ → List α → Prop
  | _, [] => True
  | s, a :: as => ∀ t, step s a = some t → ok s a ∧ Guarded step ok t as

instance decidableGuarded {ok : σ → α → Prop} [∀ s a, Decidable (ok s a)] :
    (s : σ) → (as : List α) → Decidable (Guarded step ok s as)
  | _, [] => .isTrue trivial
  | s, a :: as =>
    match h : step s a with
    | none => .isTrue (fun t ht => by rw [h] at ht; cases ht)
    | some t =>
      have : Decidable (Guarded step ok t as) := decidableGuarded t as
      decidable_of_iff (ok s a ∧ Guarded step ok t as)
        ⟨fun hg u hu => by rw [h] at hu; cases hu; exact hg, fun hg => hg t h⟩

@[simp] theorem run_nil (s : σ) : run step s [] = some s := rfl

theorem run_cons (s : σ) (a : α) (as : List α) :
    run step s (a :: as) = (step s a).bind (fun t => run step t as) := rfl

theorem run_cons_some {s t : σ} {a : α} {as : List α} :
    run step s (a :: as) = some t ↔ ∃ r, step s a = some r ∧ run step r as = some t := by
  simp [run_cons, Option.bind_eq_some_iff]

theorem run_append (s : σ) (as bs : List α) :
    run step s (as ++ bs) = (run step s as).bind (fun t => run step t bs) := by
  induction as generalizing s with
  | nil => rfl
  | cons a as ih =>
    cases h : step s a with
    | none => simp [run_cons, h]
    | some r => simp [run_cons, h, ih]

theorem Along.head {good : σ → Prop} {s : σ} {as : List α} (h : Along step good s as) : good s := by
  cases as with
  | nil => exact h
  | cons a as => exact h.1

theorem Along.last {good : σ → Prop} {s t : σ} {as : List α} (h : Along step good s as)
    (hr : run step s as = some t) : good t := by
  induction as generalizing s with
  | nil => simpa [run_nil] using (Option.some.inj hr) ▸ h
  | cons a as ih =>
    obtain ⟨r, hs, hr⟩ := run_cons_some.mp hr
    exact ih (h.2 r hs) hr

theorem Along.mono {p q : σ → Prop} (hpq : ∀ s, p s → q s) {s : σ} {as : List α}
    (h : Along step p s as) : Along step q s as := by
  induction as generalizing s with
  | nil => exact hpq s h
  | cons a as ih => exact ⟨hpq s h.1, fun t ht => ih (h.2 t ht)⟩

theorem Along.and {p q : σ → Prop} {s : σ} {as : List α} (hp : Along step p s as)
    (hq : Along step q s as) : Along step (fun s => p s ∧ q s) s as := by
  induction as generalizing s with
  | nil => exact ⟨hp, hq⟩
  | cons a as ih => exact ⟨⟨hp.1, hq.1⟩, fun t ht => ih (hp.2 t ht) (hq.2 t ht)⟩

theorem guarded_append {ok : σ → α → Prop} {s t : σ} {as bs : List α}
    (hr : run step s as = some t) :
    Guarded step ok s (as ++ bs) ↔ Guarded step ok s as ∧ Guarded step ok t bs := by
  induction as generalizing s with
  | nil => simp [Guarded, Option.some.inj hr]
  | cons a as ih =>
    obtain ⟨r, hs, hr⟩ := run_cons_some.mp hr
    simp [Guarded, hs, ih hr, and_assoc]

/-- What holds at the start and is kept by every step that meets the
condition holds in every state of a run whose steps all meet it. -/
theorem Guarded.along {ok : σ → α → Prop} (inv : σ → Prop)
    (hstep : ∀ s a t, inv s → ok s a → step s a = some t → inv t)
    {s : σ} {as : List α} (hs : inv s) (h : Guarded step ok s as) : Along step inv s as := by
  induction as generalizing s with
  | nil => exact hs
  | cons a as ih =>
    refine ⟨hs, fun t ht => ?_⟩
    obtain ⟨hok, hrest⟩ := h t ht
    exact ih (hstep s a t hs hok ht) hrest

theorem Guarded.invariant {ok : σ → α → Prop} (inv : σ → Prop)
    (hstep : ∀ s a t, inv s → ok s a → step s a = some t → inv t)
    {s t : σ} {as : List α} (hs : inv s) (h : Guarded step ok s as)
    (hr : run step s as = some t) : inv t :=
  (h.along inv hstep hs).last hr

/-- A measure that never falls is below its last value all along. -/
theorem along_le_last {measure : σ → Nat} (hmono : ∀ s a t, step s a = some t → measure s ≤ measure t)
    {s t : σ} {as : List α} (hr : run step s as = some t) :
    Along step (fun r => measure r ≤ measure t) s as := by
  induction as generalizing s with
  | nil => exact Nat.le_of_eq (congrArg measure (Option.some.inj hr))
  | cons a as ih =>
    obtain ⟨r, hs, hr⟩ := run_cons_some.mp hr
    have hrest := ih hr
    refine ⟨Nat.le_trans (hmono s a r hs) hrest.head, fun u hu => ?_⟩
    obtain rfl : r = u := Option.some.inj (hs.symm.trans hu)
    exact hrest

/-- The condition is exact when a step that misses it leads to a bad state at
once: then a run whose steps all meet `pre` stays good precisely when they all
meet the condition. -/
theorem along_iff_guarded_of {pre ok : σ → α → Prop} {good : σ → Prop} (inv : σ → Prop)
    (hgood : ∀ s, inv s → good s)
    (hstep : ∀ s a t, inv s → pre s a → ok s a → step s a = some t → inv t)
    (hbad : ∀ s a t, inv s → pre s a → ¬ ok s a → step s a = some t → ¬ good t)
    {s : σ} (hs : inv s) {as : List α} (hpre : Guarded step pre s as) :
    Along step good s as ↔ Guarded step ok s as := by
  induction as generalizing s with
  | nil => exact ⟨fun _ => trivial, fun _ => hgood s hs⟩
  | cons a as ih =>
    constructor
    · intro h t ht
      have hrest := h.2 t ht
      obtain ⟨hp, hpre⟩ := hpre t ht
      have hok : ok s a := by
        by_contra hno
        exact hbad s a t hs hp hno ht hrest.head
      exact ⟨hok, (ih (hstep s a t hs hp hok ht) hpre).mp hrest⟩
    · intro h
      refine ⟨hgood s hs, fun t ht => ?_⟩
      obtain ⟨hp, hpre⟩ := hpre t ht
      obtain ⟨hok, hrest⟩ := h t ht
      exact (ih (hstep s a t hs hp hok ht) hpre).mpr hrest

theorem Guarded.trivial (s : σ) (as : List α) : Guarded step (fun _ _ => True) s as := by
  induction as generalizing s with
  | nil => exact True.intro
  | cons a as ih => exact fun t _ => ⟨True.intro, ih t⟩

theorem along_of_step (inv : σ → Prop) (hstep : ∀ s a t, inv s → step s a = some t → inv t)
    {s : σ} (hs : inv s) (as : List α) : Along step inv s as :=
  (Guarded.trivial s as).along inv (fun s a t h _ => hstep s a t h) hs

/-- A run that misses the condition ends badly when a miss leads to a bad state
and no step leaves the bad states. -/
theorem last_of_not_guarded {ok : σ → α → Prop} (inv bad : σ → Prop)
    (hstep : ∀ s a t, inv s → ok s a → step s a = some t → inv t)
    (hmiss : ∀ s a t, inv s → ¬ ok s a → step s a = some t → bad t)
    (hkeep : ∀ s a t, bad s → step s a = some t → bad t) {s t : σ} {as : List α} (hs : inv s)
    (hr : run step s as = some t) (hno : ¬ Guarded step ok s as) : bad t := by
  induction as generalizing s with
  | nil => exact absurd True.intro hno
  | cons a as ih =>
    obtain ⟨r, hsa, hr⟩ := run_cons_some.mp hr
    by_cases hok : ok s a
    · refine ih (hstep s a r hs hok hsa) hr (fun hg => hno (fun u hu => ?_))
      obtain rfl : r = u := Option.some.inj (hsa.symm.trans hu)
      exact ⟨hok, hg⟩
    · exact (along_of_step bad hkeep (hmiss s a r hs hok hsa) as).last hr

theorem along_iff_guarded {ok : σ → α → Prop} {good : σ → Prop} (inv : σ → Prop)
    (hgood : ∀ s, inv s → good s)
    (hstep : ∀ s a t, inv s → ok s a → step s a = some t → inv t)
    (hbad : ∀ s a t, inv s → ¬ ok s a → step s a = some t → ¬ good t)
    {s : σ} (hs : inv s) (as : List α) : Along step good s as ↔ Guarded step ok s as :=
  along_iff_guarded_of inv hgood (fun s a t hi _ => hstep s a t hi) (fun s a t hi _ => hbad s a t hi) hs
    (Guarded.trivial s as)

/-- Where the paying labels take from a measure and only the adding ones put
something back, there are no more of the first than was there and was added. -/
theorem countP_le (inv : σ → Prop) (measure : σ → Nat) (pays adds : α → Bool) (gain : Nat)
    (hinv : ∀ s a t, inv s → step s a = some t → inv t)
    (hcost : ∀ s a t, inv s → step s a = some t →
      (if pays a then 1 else 0) + measure t ≤ measure s + (if adds a then gain else 0))
    {s t : σ} {as : List α} (hs : inv s) (hr : run step s as = some t) :
    as.countP pays + measure t ≤ measure s + gain * as.countP adds := by
  induction as generalizing s with
  | nil =>
    obtain rfl := Option.some.inj hr
    simp
  | cons a as ih =>
    obtain ⟨r, hsa, hr⟩ := run_cons_some.mp hr
    have hfirst := hcost s a r hs hsa
    have hrest := ih (hinv s a r hs hsa) hr
    have hgain : gain * (if adds a then 1 else 0) = if adds a then gain else 0 := by split <;> simp
    rw [List.countP_cons, List.countP_cons, Nat.mul_add, hgain]
    omega

end Lts
