import Mathlib.Data.List.Basic

/-! A mutex with a condition variable. A thread that waits gives the mutex up
and sleeps until a notification or a spurious wake-up takes it off the list. -/

structure Monitor (τ : Type*) where
  holder : Option τ
  waiting : List τ

namespace Monitor

variable {τ : Type*} {m m' : Monitor τ} {t u : τ} {inside inside' : τ → Prop}

def new : Monitor τ := ⟨none, []⟩

def lock (m : Monitor τ) (t : τ) : Option (Monitor τ) :=
  if m.holder.isNone then some { m with holder := some t } else none

def unlock (m : Monitor τ) : Monitor τ := { m with holder := none }

def wait (m : Monitor τ) (t : τ) : Monitor τ := ⟨none, t :: m.waiting⟩

/-- The way out of `wait`: awake again, the thread takes the mutex back. -/
def relock [DecidableEq τ] (m : Monitor τ) (t : τ) : Option (Monitor τ) :=
  if t ∈ m.waiting then none else m.lock t

def notifyAll (m : Monitor τ) : Monitor τ := { m with waiting := [] }

def wake [DecidableEq τ] (m : Monitor τ) (t : τ) : Monitor τ :=
  { m with waiting := m.waiting.filter (· ≠ t) }

/-- `notify_one` wakes one of the threads that sleep, if there is one; the
environment chooses which. -/
def notifyOne [DecidableEq τ] (m : Monitor τ) (t : τ) : Option (Monitor τ) :=
  if m.waiting.isEmpty || t ∈ m.waiting then some (m.wake t) else none

theorem lock_eq_some : m.lock t = some m' ↔ m.holder = none ∧ m' = { m with holder := some t } := by
  unfold lock
  split_ifs with hfree
  · rw [Option.some.injEq, eq_comm]
    exact ⟨fun he => ⟨Option.isNone_iff_eq_none.mp hfree, he⟩, fun he => he.2⟩
  · simp only [false_iff, not_and]
    exact fun he => absurd (Option.isNone_iff_eq_none.mpr he) hfree

theorem relock_eq_some [DecidableEq τ] :
    m.relock t = some m' ↔ t ∉ m.waiting ∧ m.holder = none ∧ m' = { m with holder := some t } := by
  unfold relock
  split_ifs with hasleep
  · simp [hasleep]
  · simp [hasleep, lock_eq_some]

theorem mem_waiting_wake [DecidableEq τ] : u ∈ (m.wake t).waiting ↔ u ∈ m.waiting ∧ u ≠ t := by
  simp [wake]

theorem notifyOne_eq_some [DecidableEq τ] :
    m.notifyOne t = some m' ↔ (m.waiting = [] ∨ t ∈ m.waiting) ∧ m' = m.wake t := by
  unfold notifyOne
  split_ifs with hwake
  · rw [Option.some.injEq, eq_comm]
    exact ⟨fun he => ⟨by simpa using hwake, he⟩, fun he => he.2⟩
  · simp only [false_iff, not_and]
    exact fun he => absurd (by simpa using he) hwake

/-- The mutex is held by the thread inside the critical section, if there is one. -/
def Guards (m : Monitor τ) (inside : τ → Prop) : Prop := ∀ t, m.holder = some t ↔ inside t

namespace Guards

theorem unique (h : m.Guards inside) (ht : inside t) (hu : inside u) : t = u :=
  Option.some.inj (((h t).mpr ht).symm.trans ((h u).mpr hu))

theorem congr (h : m.Guards inside) (hholder : m'.holder = m.holder)
    (hsame : ∀ u, inside' u ↔ inside u) : m'.Guards inside' := by
  intro u
  rw [hholder, h u, hsame u]

theorem enter (h : m.Guards inside) (hfree : m.holder = none) (hholder : m'.holder = some t) (ht : inside' t)
    (hsame : ∀ u, u ≠ t → (inside' u ↔ inside u)) : m'.Guards inside' := by
  intro u
  rw [hholder, Option.some.injEq]
  by_cases hu : u = t
  · subst hu
    exact ⟨fun _ => ht, fun _ => rfl⟩
  · have hout : ¬ inside u := by
      rw [← h u, hfree]
      simp
    rw [hsame u hu]
    exact ⟨fun he => absurd he.symm hu, fun hin => absurd hin hout⟩

theorem leave (h : m.Guards inside) (ht : inside t) (hholder : m'.holder = none) (hout : ¬ inside' t)
    (hsame : ∀ u, u ≠ t → (inside' u ↔ inside u)) : m'.Guards inside' := by
  intro u
  rw [hholder]
  by_cases hu : u = t
  · subst hu
    simp [hout]
  · have hother : ¬ inside u := fun hin => hu (h.unique hin ht)
    simp [hsame u hu, hother]

end Guards

end Monitor
