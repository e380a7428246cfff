import Quintses.XmlDom

/-! The handles of one document of `XmlDom` in several threads. The destructor
in `core/util/xml.hpp` decrements the counter with one access to it and decides
with another. -/

namespace Quintses

open Lts

/-- How far the destructor of a handle has come. -/
inductive HandleStage
  | alive | decremented | deletingCount | deletingDocument | released
  deriving DecidableEq

structure SharedDom where
  /-- `*m_count`; `none` once it is deleted. -/
  count : Option UInt32
  handles : StdMap Nat HandleStage
  countDeletes : Nat
  documentDeletes : Nat
  /-- The counter was read or written after it had been deleted. -/
  touched : Bool

inductive SharedDomStep
  | copy (self rhs : Nat)
  | decrement (self : Nat)
  | read (self : Nat)
  | deleteCount (self : Nat)
  | deleteDocument (self : Nat)

namespace SharedDom

/-- A document with the handle that was constructed from its text. -/
def new : SharedDom := ⟨some 1, StdMap.empty.assign 0 .alive, 0, 0, false⟩

variable (s : SharedDom)

def Enabled : SharedDomStep → Prop
  | .copy self rhs => s.handles.find? self = none ∧ s.handles.find? rhs = some .alive
  | .decrement self => s.handles.find? self = some .alive
  | .read self => s.handles.find? self = some .decremented
  | .deleteCount self => s.handles.find? self = some .deletingCount
  | .deleteDocument self => s.handles.find? self = some .deletingDocument

instance : (a : SharedDomStep) → Decidable (s.Enabled a)
  | .copy _ _ => inferInstanceAs (Decidable (_ ∧ _))
  | .decrement _ | .read _ | .deleteCount _ | .deleteDocument _ => inferInstanceAs (Decidable (_ = _))

/-- Access the counter. -/
def access (f : UInt32 → SharedDom) : SharedDom := s.count.elim { s with touched := true } f

def apply : SharedDomStep → SharedDom
  | .copy self _ => s.access (fun n => { s with count := some (n + 1), handles := s.handles.assign self .alive })
  | .decrement self =>
    s.access (fun n => { s with count := some (n - 1), handles := s.handles.assign self .decremented })
  | .read self =>
    s.access (fun n => { s with handles := s.handles.assign self (if n = 0 then .deletingCount else .released) })
  | .deleteCount self =>
    { s with count := none, handles := s.handles.assign self .deletingDocument, countDeletes := s.countDeletes + 1 }
  | .deleteDocument self =>
    { s with handles := s.handles.assign self .released, documentDeletes := s.documentDeletes + 1 }

def step (s : SharedDom) (a : SharedDomStep) : Option SharedDom :=
  if s.touched = false ∧ s.Enabled a then some (s.apply a) else none

def number (stage : HandleStage) : Nat := s.handles.values.count stage

def unreleased : Nat :=
  s.number .alive + s.number .decremented + s.number .deletingCount + s.number .deletingDocument

/-- Nothing is deleted twice, or while a handle has not been released, and a
counter that has been deleted is left alone. -/
structure DecidedOnce (s : SharedDom) : Prop where
  count : s.countDeletes ≤ 1
  document : s.documentDeletes ≤ 1
  last : 0 < s.countDeletes ∨ 0 < s.documentDeletes → s.number .alive = 0
  untouched : s.touched = false

/-- The handle that finds the counter at zero is the only one that is not
released. -/
def LastReads (s : SharedDom) : SharedDomStep → Prop
  | .read _ => s.count = some 0 → s.unreleased = 1
  | .copy _ _ | .decrement _ | .deleteCount _ | .deleteDocument _ => True

/-- The counter counts until one handle is left to delete it, and then the document. -/
inductive Course (s : SharedDom) : Prop
  | counting (hcount : s.count = some (UInt32.ofNat (s.number .alive)))
      (hbusy : s.number .deletingCount = 0 ∧ s.number .deletingDocument = 0)
      (hlast : s.number .alive = 0 → 0 < s.number .decremented)
      (hdeletes : s.countDeletes = 0 ∧ s.documentDeletes = 0)
  | deletingCount (hbusy : s.unreleased = 1 ∧ s.number .deletingCount = 1)
      (hdeletes : s.countDeletes = 0 ∧ s.documentDeletes = 0)
  | deletingDocument (hbusy : s.unreleased = 1 ∧ s.number .deletingDocument = 1)
      (hdeletes : s.countDeletes = 1 ∧ s.documentDeletes = 0)
  | released (hbusy : s.unreleased = 0) (hdeletes : s.countDeletes = 1 ∧ s.documentDeletes = 1)

variable {s} {t : SharedDom} {a : SharedDomStep} {self : Nat} {stage stage' : HandleStage} {n : UInt32}

theorem step_eq_some : step s a = some t ↔ s.touched = false ∧ s.Enabled a ∧ s.apply a = t := by
  rw [step]
  split_ifs with h
  · simp [h]
  · exact ⟨fun h' => (by cases h'), fun h' => absurd ⟨h'.1, h'.2.1⟩ h⟩

@[simp] theorem access_of_some {f : UInt32 → SharedDom} (h : s.count = some n) : s.access f = f n := by
  simp [access, h]

theorem number_pos (h : s.handles.find? self = some stage) : 0 < s.number stage :=
  List.count_pos_iff.mpr (List.mem_map.mpr ⟨(self, stage), StdMap.mem_entries.mpr h, rfl⟩)

structure Moved (s t : SharedDom) (stage stage' : HandleStage) : Prop where
  pos : 0 < s.number stage
  number : ∀ r, t.number r + (if stage = r then 1 else 0) = s.number r + (if stage' = r then 1 else 0)

theorem moved (h : s.handles.find? self = some stage)
    (ht : t.handles = s.handles.assign self stage') : Moved s t stage stage' :=
  ⟨number_pos h, fun r => by rw [number, number, ht]; exact StdMap.count_values_assign h r⟩

theorem Moved.numbers (h : Moved s t stage stage') :
    t.number .alive + (if stage = .alive then 1 else 0) =
        s.number .alive + (if stage' = .alive then 1 else 0) ∧
      t.number .decremented + (if stage = .decremented then 1 else 0) =
        s.number .decremented + (if stage' = .decremented then 1 else 0) ∧
      t.number .deletingCount + (if stage = .deletingCount then 1 else 0) =
        s.number .deletingCount + (if stage' = .deletingCount then 1 else 0) ∧
      t.number .deletingDocument + (if stage = .deletingDocument then 1 else 0) =
        s.number .deletingDocument + (if stage' = .deletingDocument then 1 else 0) :=
  ⟨h.number _, h.number _, h.number _, h.number _⟩

theorem number_copy (h : s.handles.find? self = none) (ht : t.handles = s.handles.assign self .alive)
    (r : HandleStage) : t.number r = s.number r + (if .alive = r then 1 else 0) := by
  rw [number, ht, (StdMap.values_assign_perm h).count_eq, List.count_cons]
  simp [number]

/-- Before anything is deleted the counter is there. -/
theorem Course.count_of_pos (h : Course s) (hpos : 0 < s.number .alive + s.number .decremented) :
    s.count = some (UInt32.ofNat (s.number .alive)) ∧
      (s.number .deletingCount = 0 ∧ s.number .deletingDocument = 0) ∧
      s.countDeletes = 0 ∧ s.documentDeletes = 0 := by
  cases h with
  | counting hcount hbusy hlast hdeletes => exact ⟨hcount, hbusy, hdeletes⟩
  | deletingCount hbusy =>
    simp only [unreleased] at hbusy
    omega
  | deletingDocument hbusy =>
    simp only [unreleased] at hbusy
    omega
  | released hbusy =>
    simp only [unreleased] at hbusy
    omega

theorem Course.of_deletingCount (h : Course s) (hpos : 0 < s.number .deletingCount) :
    s.unreleased = 1 ∧ s.countDeletes = 0 ∧ s.documentDeletes = 0 := by
  cases h with
  | counting hcount hbusy => omega
  | deletingCount hbusy hdeletes => exact ⟨hbusy.1, hdeletes⟩
  | deletingDocument hbusy =>
    simp only [unreleased] at hbusy
    omega
  | released hbusy =>
    simp only [unreleased] at hbusy
    omega

theorem Course.of_deletingDocument (h : Course s) (hpos : 0 < s.number .deletingDocument) :
    s.unreleased = 1 ∧ s.countDeletes = 1 ∧ s.documentDeletes = 0 := by
  cases h with
  | counting hcount hbusy => omega
  | deletingCount hbusy =>
    simp only [unreleased] at hbusy
    omega
  | deletingDocument hbusy hdeletes => exact ⟨hbusy.1, hdeletes⟩
  | released hbusy =>
    simp only [unreleased] at hbusy
    omega

theorem Course.step (h : Course s) (hok : s.LastReads a) (hen : s.Enabled a) : Course (s.apply a) := by
  cases a with
  | copy self rhs =>
    have halive := number_pos hen.2
    obtain ⟨hcount, hbusy, hdeletes⟩ := h.count_of_pos (by omega)
    have hnumber := fun r => number_copy (t := s.apply (.copy self rhs)) hen.1 (by simp [apply, hcount]) r
    refine .counting ?_ ?_ ?_ ?_
    · rw [hnumber, if_pos rfl, UInt32.ofNat_add]
      simp [apply, hcount]
    · simpa [hnumber] using hbusy
    · simp [hnumber]
    · simpa [apply, hcount] using hdeletes
  | decrement self =>
    have halive := number_pos hen
    obtain ⟨hcount, hbusy, hdeletes⟩ := h.count_of_pos (by omega)
    have hmoved : Moved s (s.apply (.decrement self)) .alive .decremented :=
      moved hen (by simp [apply, hcount])
    obtain ⟨ha, hd, hc, he⟩ := hmoved.numbers
    simp only [reduceCtorEq, if_true, if_false, Nat.add_zero] at ha hd hc he
    refine .counting ?_ (by omega) (by omega) (by simpa [apply, hcount] using hdeletes)
    have hpred : s.number .alive - 1 = (s.apply (.decrement self)).number .alive := by omega
    rw [← hpred, UInt32.ofNat_sub halive]
    simp [apply, hcount]
  | read self =>
    have hdecremented := number_pos hen
    obtain ⟨hcount, hbusy, hdeletes⟩ := h.count_of_pos (by omega)
    by_cases hzero : UInt32.ofNat (s.number .alive) = 0
    · have hone : s.unreleased = 1 := hok (by rw [hcount, hzero])
      have hmoved : Moved s (s.apply (.read self)) .decremented .deletingCount :=
        moved hen (by simp [apply, hcount, hzero])
      obtain ⟨ha, hd, hc, he⟩ := hmoved.numbers
      simp only [reduceCtorEq, if_true, if_false, Nat.add_zero] at ha hd hc he
      simp only [unreleased] at hone
      exact .deletingCount (by simp only [unreleased]; omega) (by simpa [apply, hcount] using hdeletes)
    · have hmoved : Moved s (s.apply (.read self)) .decremented .released :=
        moved hen (by simp [apply, hcount, hzero])
      obtain ⟨ha, hd, hc, he⟩ := hmoved.numbers
      simp only [reduceCtorEq, if_true, if_false, Nat.add_zero] at ha hd hc he
      refine .counting ?_ (by omega) (fun h0 => ?_) (by simpa [apply, hcount] using hdeletes)
      · rw [ha]
        simp [apply, hcount]
      · rw [ha] at h0
        exact absurd (by rw [h0]; rfl) hzero
  | deleteCount self =>
    have hpos := number_pos hen
    have hmoved : Moved s (s.apply (.deleteCount self)) .deletingCount .deletingDocument := moved hen rfl
    obtain ⟨ha, hd, hc, he⟩ := hmoved.numbers
    simp only [reduceCtorEq, if_true, if_false, Nat.add_zero] at ha hd hc he
    obtain ⟨hone, hdeletes⟩ := h.of_deletingCount hpos
    simp only [unreleased] at hone
    exact .deletingDocument (by simp only [unreleased]; omega) ⟨by simp [apply, hdeletes], hdeletes.2⟩
  | deleteDocument self =>
    have hpos := number_pos hen
    have hmoved : Moved s (s.apply (.deleteDocument self)) .deletingDocument .released := moved hen rfl
    obtain ⟨ha, hd, hc, he⟩ := hmoved.numbers
    simp only [reduceCtorEq, if_true, if_false, Nat.add_zero] at ha hd hc he
    obtain ⟨hone, hdeletes⟩ := h.of_deletingDocument hpos
    simp only [unreleased] at hone
    exact .released (by simp only [unreleased]; omega) ⟨hdeletes.1, by simp [apply, hdeletes]⟩

theorem Course.touched_apply (h : Course s) (hen : s.Enabled a) : (s.apply a).touched = s.touched := by
  cases a with
  | copy self rhs =>
    have halive := number_pos hen.2
    simp [apply, (h.count_of_pos (by omega)).1]
  | decrement self =>
    have halive := number_pos hen
    simp [apply, (h.count_of_pos (by omega)).1]
  | read self =>
    have hdecremented := number_pos hen
    simp [apply, (h.count_of_pos (by omega)).1]
  | deleteCount self => rfl
  | deleteDocument self => rfl

theorem Course.decidedOnce (h : Course s) (huntouched : s.touched = false) : s.DecidedOnce := by
  cases h with
  | counting hcount hbusy hlast hdeletes => exact ⟨by omega, by omega, by omega, huntouched⟩
  | deletingCount hbusy hdeletes => exact ⟨by omega, by omega, by omega, huntouched⟩
  | deletingDocument hbusy hdeletes =>
    simp only [unreleased] at hbusy
    exact ⟨by omega, by omega, by omega, huntouched⟩
  | released hbusy hdeletes =>
    simp only [unreleased] at hbusy
    exact ⟨by omega, by omega, by omega, huntouched⟩

theorem Course.deleted (h : Course s) (hall : s.unreleased = 0) : s.countDeletes = 1 ∧ s.documentDeletes = 1 := by
  cases h with
  | counting hcount hbusy hlast hdeletes =>
    simp only [unreleased] at hall
    omega
  | deletingCount hbusy => omega
  | deletingDocument hbusy => omega
  | released hbusy hdeletes => exact hdeletes

def deleters (s : SharedDom) : Nat := s.countDeletes + s.number .deletingCount

/-- Somebody deletes the counter too early: there will be another, or an access
to what is deleted. -/
inductive Spoilt (s : SharedDom) : Prop
  | touched (h : s.touched = true)
  | two (h : 2 ≤ s.deleters)
  | early (hone : 1 ≤ s.deleters)
      (hcount : s.count = none ∨ s.count = some (UInt32.ofNat (s.number .alive)))
      (hleft : 0 < s.number .alive + s.number .decremented)

theorem Course.spoilt (h : Course s) (hno : ¬ s.LastReads a) (hen : s.Enabled a) : Spoilt (s.apply a) := by
  cases a with
  | read self =>
    obtain ⟨hzero, hmany⟩ := Classical.not_imp.mp hno
    have hdecremented := number_pos hen
    obtain ⟨hcount, hbusy, hdeletes⟩ := h.count_of_pos (by omega)
    have hmoved : Moved s (s.apply (.read self)) .decremented .deletingCount :=
      moved hen (by simp [apply, hzero])
    obtain ⟨ha, hd, hc, he⟩ := hmoved.numbers
    simp only [reduceCtorEq, if_true, if_false, Nat.add_zero] at ha hd hc he
    simp only [unreleased] at hmany
    refine .early (by simp only [deleters]; omega) (Or.inr ?_) (by omega)
    rw [ha, ← hcount]
    simp [apply, hzero]
  | copy self rhs => exact absurd trivial hno
  | decrement self => exact absurd trivial hno
  | deleteCount self => exact absurd trivial hno
  | deleteDocument self => exact absurd trivial hno

theorem Spoilt.of_left (h : Spoilt s) (huntouched : s.touched = false) (hdeleters : s.deleters ≤ t.deleters)
    (hleft : s.count = none ∨ s.count = some (UInt32.ofNat (s.number .alive)) →
      0 < s.number .alive + s.number .decremented →
      (t.count = none ∨ t.count = some (UInt32.ofNat (t.number .alive))) ∧
        0 < t.number .alive + t.number .decremented) : Spoilt t := by
  cases h with
  | touched h => exact absurd h (by simp [huntouched])
  | two h => exact .two (h.trans hdeleters)
  | early hone hcount h =>
    obtain ⟨hcount, h⟩ := hleft hcount h
    exact .early (hone.trans hdeleters) hcount h

theorem Spoilt.step (h : Spoilt s) (huntouched : s.touched = false) (hen : s.Enabled a) :
    Spoilt (s.apply a) := by
  cases a with
  | copy self rhs =>
    cases hcount : s.count with
    | none => exact .touched (by simp [apply, access, hcount])
    | some n =>
      have hnumber := fun r => number_copy (t := s.apply (.copy self rhs)) hen.1 (by simp [apply, hcount]) r
      have hdeletes : (s.apply (.copy self rhs)).countDeletes = s.countDeletes := by simp [apply, hcount]
      refine h.of_left huntouched (by simp [deleters, hnumber, hdeletes]) (fun hn hleft => ?_)
      have hn : n = UInt32.ofNat (s.number .alive) := by simpa [hcount] using hn
      refine ⟨Or.inr ?_, by simp only [hnumber, if_true]; omega⟩
      rw [hnumber, if_pos rfl, UInt32.ofNat_add, ← hn]
      simp [apply, hcount]
  | decrement self =>
    cases hcount : s.count with
    | none => exact .touched (by simp [apply, access, hcount])
    | some n =>
      have hmoved : Moved s (s.apply (.decrement self)) .alive .decremented :=
        moved hen (by simp [apply, hcount])
      have halive := hmoved.pos
      obtain ⟨ha, hd, hc, -⟩ := hmoved.numbers
      simp only [reduceCtorEq, if_true, if_false, Nat.add_zero] at ha hd hc
      have hdeletes : (s.apply (.decrement self)).countDeletes = s.countDeletes := by simp [apply, hcount]
      refine h.of_left huntouched (by simp [deleters, hc, hdeletes]) (fun hn hleft => ?_)
      have hn : n = UInt32.ofNat (s.number .alive) := by simpa [hcount] using hn
      refine ⟨Or.inr ?_, by omega⟩
      have hpred : s.number .alive - 1 = (s.apply (.decrement self)).number .alive := by omega
      rw [← hpred, UInt32.ofNat_sub halive, ← hn]
      simp [apply, hcount]
  | read self =>
    cases hcount : s.count with
    | none => exact .touched (by simp [apply, access, hcount])
    | some n =>
      by_cases hzero : n = 0
      · -- one more deletes the counter
        have hmoved : Moved s (s.apply (.read self)) .decremented .deletingCount :=
          moved hen (by simp [apply, hcount, hzero])
        have hmore : (s.apply (.read self)).deleters = s.deleters + 1 := by
          have hc := hmoved.number .deletingCount
          simp only [reduceCtorEq, if_true, if_false, Nat.add_zero] at hc
          rw [deleters, hc]
          simp [apply, hcount, deleters, Nat.add_assoc]
        cases h with
        | touched h => exact absurd h (by simp [huntouched])
        | two h => exact .two (by omega)
        | early hone => exact .two (by omega)
      · have hmoved : Moved s (s.apply (.read self)) .decremented .released :=
          moved hen (by simp [apply, hcount, hzero])
        obtain ⟨ha, hd, hc, -⟩ := hmoved.numbers
        simp only [reduceCtorEq, if_true, if_false, Nat.add_zero] at ha hd hc
        have hdeletes : (s.apply (.read self)).countDeletes = s.countDeletes := by simp [apply, hcount]
        refine h.of_left huntouched (by simp [deleters, hc, hdeletes]) (fun hn hleft => ?_)
        have hn : n = UInt32.ofNat (s.number .alive) := by simpa [hcount] using hn
        have halive : s.number .alive ≠ 0 := fun h0 => hzero (by rw [hn, h0]; rfl)
        refine ⟨Or.inr ?_, by omega⟩
        rw [ha, ← hn]
        simp [apply, hcount]
  | deleteCount self =>
    have hmoved : Moved s (s.apply (.deleteCount self)) .deletingCount .deletingDocument := moved hen rfl
    obtain ⟨ha, hd, hc, -⟩ := hmoved.numbers
    simp only [reduceCtorEq, if_true, if_false, Nat.add_zero] at ha hd hc
    have hdeletes : (s.apply (.deleteCount self)).countDeletes = s.countDeletes + 1 := rfl
    refine h.of_left huntouched (by simp only [deleters]; omega) (fun hn hleft => ?_)
    exact ⟨Or.inl rfl, by omega⟩
  | deleteDocument self =>
    have hmoved : Moved s (s.apply (.deleteDocument self)) .deletingDocument .released := moved hen rfl
    obtain ⟨ha, hd, hc, -⟩ := hmoved.numbers
    simp only [reduceCtorEq, if_false, Nat.add_zero] at ha hd hc
    have hdeletes : (s.apply (.deleteDocument self)).countDeletes = s.countDeletes := rfl
    refine h.of_left huntouched (by simp only [deleters]; omega) (fun hn hleft => ?_)
    exact ⟨by rw [ha]; exact hn, by omega⟩

def Inv (s : SharedDom) : Prop := s.touched = false ∧ Course s

theorem inv_new : Inv new :=
  ⟨rfl, .counting (by decide) (by decide) (by decide) ⟨rfl, rfl⟩⟩

theorem Inv.step (h : Inv s) (hok : s.LastReads a) (hs : SharedDom.step s a = some t) : Inv t := by
  obtain ⟨huntouched, hen, rfl⟩ := step_eq_some.mp hs
  exact ⟨(h.2.touched_apply hen).trans huntouched, h.2.step hok hen⟩

theorem spoilt_of_not_guarded {as : List SharedDomStep} (hr : run step new as = some t)
    (hno : ¬ Guarded step LastReads new as) : Spoilt t := by
  refine last_of_not_guarded Inv Spoilt (fun s a t h hok hs => h.step hok hs) ?_ ?_ inv_new hr hno
  · intro s a t h hno hs
    obtain ⟨-, hen, rfl⟩ := step_eq_some.mp hs
    exact h.2.spoilt hno hen
  · intro s a t h hs
    obtain ⟨huntouched, hen, rfl⟩ := step_eq_some.mp hs
    exact h.step huntouched hen

theorem along_inv {as : List SharedDomStep} (h : Guarded step LastReads new as) : Along step Inv new as :=
  h.along Inv (fun _ _ _ hi hok hs => hi.step hok hs) inv_new

/-- The last release is decided once where only the last handle finds the
counter at zero. Where another one does, the run goes wrong before all handles
are released. -/
theorem decidedOnce_iff (as : List SharedDomStep) :
    (Guarded step LastReads new as → Along step DecidedOnce new as) ∧
      ∀ t, run step new as = some t → t.unreleased = 0 →
        ((Along step DecidedOnce new as ∧ t.countDeletes = 1 ∧ t.documentDeletes = 1) ↔
          Guarded step LastReads new as) := by
  have honce : Guarded step LastReads new as → Along step DecidedOnce new as :=
    fun h => (along_inv h).mono (fun s hi => hi.2.decidedOnce hi.1)
  refine ⟨honce, fun t hr hall => ⟨fun h => ?_, fun h => ⟨honce h, ((along_inv h).last hr).2.deleted hall⟩⟩⟩
  by_contra hno
  have hlast : t.DecidedOnce := h.1.last hr
  cases spoilt_of_not_guarded hr hno with
  | touched ht => exact absurd ht (by simp [hlast.untouched])
  | two htwo =>
    simp only [unreleased] at hall
    simp only [deleters] at htwo
    omega
  | early hone hcount hleft =>
    simp only [unreleased] at hall
    omega

/-- Both handles are decremented before one of them reads. -/
theorem not_decidedOnce : ¬ ∀ as, Along step DecidedOnce new as := by
  intro h
  have hlast := (h [.copy 1 0, .decrement 0, .decrement 1, .read 0, .read 1, .deleteCount 0,
    .deleteDocument 0, .deleteCount 1]).last rfl
  exact absurd hlast.count (by decide)

/-- The steps of a destructor that finds `n` in the counter and is not interrupted. -/
def destructor (self : Nat) (n : UInt32) : List SharedDomStep :=
  .decrement self :: .read self :: (if n - 1 = 0 then [.deleteCount self, .deleteDocument self] else [])

/-- Without the other threads it is the destructor of `XmlHeap`. -/
theorem run_destructor {x : XmlDom} {heap : XmlHeap} (hne : x.count ≠ 0)
    (hheap : heap.counters.find? x.count = some n) (hcount : s.count = some n)
    (hself : s.handles.find? self = some .alive) (huntouched : s.touched = false) :
    ∃ t, run step s (destructor self n) = some t ∧ t.handles.find? self = some .released ∧
      t.count = (heap.destroy x).counters.find? x.count := by
  have hdecremented : (heap.fetchAndDecrementP x.count).counters.find? x.count = some (n - 1) := by
    simp [XmlHeap.fetchAndDecrementP, hheap]
  by_cases hlast : n - 1 = 0
  · have hrelease : heap.destroy x = (heap.fetchAndDecrementP x.count).delete x := by
      rw [XmlHeap.destroy, if_pos hne]
      exact if_pos (by rw [hdecremented, hlast])
    refine ⟨_, by simp [destructor, hlast, run, step, Enabled, apply, hself, huntouched, hcount]; rfl, ?_, ?_⟩
    · simp
    · simp [hrelease, XmlHeap.delete]
  · have hrelease : heap.destroy x = heap.fetchAndDecrementP x.count := by
      rw [XmlHeap.destroy, if_pos hne]
      exact if_neg (by simp [hdecremented, hlast])
    refine ⟨_, by simp [destructor, hlast, run, step, Enabled, apply, hself, huntouched, hcount]; rfl, ?_, ?_⟩
    · simp
    · rw [hrelease, hdecremented]

end SharedDom

end Quintses
