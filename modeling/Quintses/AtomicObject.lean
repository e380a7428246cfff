import Mathlib.Logic.Function.Basic
import Quintses.Lts

/-! Objects whose calls take effect at one moment. The observer sees calls and
returns; between the two, at a moment of its own, each call is applied to the
state as a whole. -/

inductive CallEvent (τ ι ρ : Type*)
  | invoke (t : τ) (op : ι)
  | respond (t : τ) (r : ρ)

inductive CallPhase (ι ρ : Type*)
  | idle
  | called (op : ι)
  | done (r : ρ)

structure AtomicObject (τ σ ι ρ : Type*) where
  state : σ
  phase : τ → CallPhase ι ρ

namespace AtomicObject

variable {τ σ ι ρ : Type*}

def init (s : σ) : AtomicObject τ σ ι ρ := ⟨s, fun _ => .idle⟩

variable [DecidableEq τ]

def goto (o : AtomicObject τ σ ι ρ) (t : τ) (p : CallPhase ι ρ) : AtomicObject τ σ ι ρ :=
  { o with phase := Function.update o.phase t p }

theorem phase_goto (o : AtomicObject τ σ ι ρ) (t u : τ) (p : CallPhase ι ρ) :
    (o.goto t p).phase u = if u = t then p else o.phase u :=
  Function.update_apply o.phase t p u

theorem goto_self {o : AtomicObject τ σ ι ρ} {t : τ} {p : CallPhase ι ρ} (h : o.phase t = p) :
    o.goto t p = o := by
  simp [goto, ← h]

theorem goto_goto (o : AtomicObject τ σ ι ρ) (t : τ) (p p' : CallPhase ι ρ) :
    (o.goto t p).goto t p' = o.goto t p' := by
  simp [goto]

variable (apply : σ → ι → Option (ρ × σ))

/-- The steps with what is seen of them. `apply` has no result where a call
has to wait. -/
inductive Steps : AtomicObject τ σ ι ρ → List (CallEvent τ ι ρ) → AtomicObject τ σ ι ρ → Prop
  | refl (o : AtomicObject τ σ ι ρ) : Steps o [] o
  | invoke {o o' : AtomicObject τ σ ι ρ} {t : τ} {op : ι} {es : List (CallEvent τ ι ρ)}
    (h : o.phase t = .idle) (hs : Steps (o.goto t (.called op)) es o') : Steps o (.invoke t op :: es) o'
  | point {o o' : AtomicObject τ σ ι ρ} {t : τ} {op : ι} {r : ρ} {s : σ} {es : List (CallEvent τ ι ρ)}
    (h : o.phase t = .called op) (ha : apply o.state op = some (r, s))
    (hs : Steps ({ o with state := s }.goto t (.done r)) es o') : Steps o es o'
  | respond {o o' : AtomicObject τ σ ι ρ} {t : τ} {r : ρ} {es : List (CallEvent τ ι ρ)}
    (h : o.phase t = .done r) (hs : Steps (o.goto t .idle) es o') : Steps o (.respond t r :: es) o'

/-- The history can be explained by an object whose calls are atomic. -/
def Explains (s : σ) (history : List (CallEvent τ ι ρ)) : Prop :=
  ∃ o, Steps apply (init s) history o

variable {apply}

theorem Steps.append {o o' o'' : AtomicObject τ σ ι ρ} {es es' : List (CallEvent τ ι ρ)}
    (h : Steps apply o es o') (h' : Steps apply o' es' o'') : Steps apply o (es ++ es') o'' := by
  induction h with
  | refl o => exact h'
  | invoke hp _ ih => exact .invoke hp (ih h')
  | point hp ha _ ih => exact .point hp ha (ih h')
  | respond hp _ ih => exact .respond hp (ih h')

variable {κ α : Type*}

/-- What is seen of a run. -/
def observe (step : κ → α → Option κ) (seen : κ → α → κ → List (CallEvent τ ι ρ)) :
    κ → List α → List (CallEvent τ ι ρ)
  | _, [] => []
  | c, a :: as => (step c a).elim [] (fun d => seen c a d ++ observe step seen d as)

/-- An implementation is atomic when each of its steps can be answered by steps
of the object under which the same is seen. -/
theorem explains_observe {step : κ → α → Option κ} {seen : κ → α → κ → List (CallEvent τ ι ρ)}
    (related : κ → AtomicObject τ σ ι ρ → Prop)
    (hstep : ∀ c a d o, related c o → step c a = some d → ∃ o', Steps apply o (seen c a d) o' ∧ related d o')
    {c : κ} {s : σ} (hinit : related c (init s)) (as : List α) : Explains apply s (observe step seen c as) := by
  have hrun (o : AtomicObject τ σ ι ρ) (h : related c o) : ∃ o', Steps apply o (observe step seen c as) o' := by
    clear hinit
    induction as generalizing c o with
    | nil => exact ⟨o, .refl o⟩
    | cons a as ih =>
      cases hs : step c a with
      | none => exact ⟨o, by simpa [observe, hs] using Steps.refl o⟩
      | some d =>
        obtain ⟨o', hseen, hd⟩ := hstep c a d o h hs
        obtain ⟨o'', hrest⟩ := ih o' hd
        exact ⟨o'', by simpa [observe, hs] using hseen.append hrest⟩
  exact hrun (init s) hinit

end AtomicObject
