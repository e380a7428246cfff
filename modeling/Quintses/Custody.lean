import Quintses.Lts
import Quintses.StdMap
import Mathlib.Data.List.Perm.Basic

/-! Things that are allocated on a heap, wait in places, and are taken out by
threads that work on one of them at a time. What a thread does to the thing in
its hand is a list of operations. -/

inductive CustodyOp (π : Type*)
  | access
  | delete
  | push (p : π)
  /-- What ends the program. -/
  | escape
  deriving DecidableEq

structure CustodyTask (π τ : Type*) where
  thread : τ
  id : Nat
  plan : List (CustodyOp π)
  deriving DecidableEq

/-- Identities are not used again. The last three lists are the history: what
threads got into their hands, what they deleted and what they passed on. -/
structure Custody (π τ μ : Type*) where
  heap : StdMap Nat μ
  next : Nat
  waiting : List (π × Nat)
  tasks : List (CustodyTask π τ)
  received : List Nat
  deleted : List Nat
  passedOn : List Nat
  fault : Bool
  ended : Bool

/-- `make` is a `new` whose result is pushed at once, `create` one whose result
stays in the thread's hand. -/
inductive CustodyAction (π τ μ ω : Type*)
  | make (p : π) (m : μ)
  | create (t : τ) (m : μ) (o : ω)
  | take (t : τ) (p : π) (i : Nat) (o : ω)
  | act (task : CustodyTask π τ)

namespace Custody

variable {π τ μ ω : Type*}

/-- Accesses, and then one deletion or one push to a place that takes such things. -/
def Linear (carries : π → Bool) : List (CustodyOp π) → Prop
  | [] => False
  | .access :: ops => Linear carries ops
  | .delete :: ops => ops = []
  | .push p :: ops => carries p = true ∧ ops = []
  | .escape :: _ => True

/-- The code of the threads: which places take which things, which thread serves
which place, and what it does to what it takes or creates, for any outcome of
what it calls. -/
structure Rules (π τ μ ω : Type*) where
  carries : μ → π → Bool
  serves : τ → π → Bool
  creates : τ → μ → Bool
  plan : π → μ → ω → List (CustodyOp π)
  createPlan : τ → μ → ω → List (CustodyOp π)
  plan_linear : ∀ p m o, carries m p = true → Linear (carries m) (plan p m o)
  createPlan_linear : ∀ t m o, creates t m = true → Linear (carries m) (createPlan t m o)

def new : Custody π τ μ := ⟨StdMap.empty, 0, [], [], [], [], [], false, false⟩

variable (R : Rules π τ μ ω) (s : Custody π τ μ)

section Step

variable [DecidableEq π] [DecidableEq τ]

def Free (t : τ) : Prop := ∀ task ∈ s.tasks, task.thread ≠ t

instance (t : τ) : Decidable (s.Free t) :=
  inferInstanceAs (Decidable (∀ task ∈ s.tasks, task.thread ≠ t))

def follow (task : CustodyTask π τ) (ops : List (CustodyOp π)) : List (CustodyTask π τ) :=
  match ops with
  | [] => s.tasks.erase task
  | op :: ops => { task with plan := op :: ops } :: s.tasks.erase task

def act (task : CustodyTask π τ) : Custody π τ μ :=
  match task.plan with
  | [] => { s with tasks := s.follow task [] }
  | .access :: ops =>
    if s.heap.contains task.id then { s with tasks := s.follow task ops } else { s with fault := true }
  | .delete :: ops =>
    if s.heap.contains task.id then
      { s with heap := s.heap.erase task.id, deleted := task.id :: s.deleted, tasks := s.follow task ops }
    else { s with fault := true }
  | .push p :: ops =>
    { s with
      waiting := (p, task.id) :: s.waiting
      passedOn := task.id :: s.passedOn
      tasks := s.follow task ops }
  | .escape :: _ => { s with ended := true }

def take (t : τ) (p : π) (i : Nat) (o : ω) : Custody π τ μ :=
  match s.heap.find? i with
  | none => { s with fault := true }
  | some m =>
    { s with
      waiting := s.waiting.erase (p, i)
      tasks := ⟨t, i, R.plan p m o⟩ :: s.tasks
      received := i :: s.received }

def step (s : Custody π τ μ) (a : CustodyAction π τ μ ω) : Option (Custody π τ μ) :=
  if s.fault || s.ended then none
  else
    match a with
    | .make p m =>
      if R.carries m p then
        some { s with heap := s.heap.assign s.next m, next := s.next + 1, waiting := (p, s.next) :: s.waiting }
      else none
    | .create t m o =>
      if s.Free t ∧ R.creates t m then
        some { s with
          heap := s.heap.assign s.next m
          next := s.next + 1
          tasks := ⟨t, s.next, R.createPlan t m o⟩ :: s.tasks
          received := s.next :: s.received }
      else none
    | .take t p i o =>
      if s.Free t ∧ R.serves t p ∧ (p, i) ∈ s.waiting then some (s.take R t p i o) else none
    | .act task => if task ∈ s.tasks then some (s.act task) else none

end Step

def inHand : List Nat := s.tasks.map CustodyTask.id

def held : List Nat := s.waiting.map Prod.snd ++ s.inHand

/-- Nothing is held twice, deleted twice or used after its deletion, and what a
thread gets into its hand it deletes or passes on once. -/
structure Sound (s : Custody π τ μ) : Prop where
  fault : s.fault = false
  held : s.held.Nodup
  alive : ∀ i ∈ s.held, s.heap.contains i = true
  deleted : s.deleted.Nodup
  balanced : ∀ i, s.received.count i = s.deleted.count i + s.passedOn.count i + s.inHand.count i

/-- Each held thing is there and of the kind that its holder expects. -/
structure Kept (R : Rules π τ μ ω) (s : Custody π τ μ) : Prop where
  fault : s.fault = false
  held : s.held.Nodup
  carried : ∀ e ∈ s.waiting, ∃ m, s.heap.find? e.2 = some m ∧ R.carries m e.1 = true
  linear : ∀ task ∈ s.tasks, ∃ m, s.heap.find? task.id = some m ∧ Linear (R.carries m) task.plan
  fresh : ∀ i m, s.heap.find? i = some m → i < s.next
  gone : ∀ i ∈ s.deleted, i < s.next ∧ s.heap.find? i = none
  deleted : s.deleted.Nodup
  balanced : ∀ i, s.received.count i = s.deleted.count i + s.passedOn.count i + s.inHand.count i

variable {R s} {s' : Custody π τ μ} {a : CustodyAction π τ μ ω}

theorem kept_new : Kept R (new : Custody π τ μ) :=
  ⟨rfl, List.nodup_nil, by simp [new], by simp [new], by simp [new], by simp [new], List.nodup_nil,
    by simp [new, inHand]⟩

theorem Kept.alive (h : Kept R s) {i : Nat} (hi : i ∈ s.held) : ∃ m, s.heap.find? i = some m := by
  rcases List.mem_append.mp hi with hi | hi
  · obtain ⟨e, he, rfl⟩ := List.mem_map.mp hi
    obtain ⟨m, hm, -⟩ := h.carried e he
    exact ⟨m, hm⟩
  · obtain ⟨task, ht, rfl⟩ := List.mem_map.mp hi
    obtain ⟨m, hm, -⟩ := h.linear task ht
    exact ⟨m, hm⟩

theorem Kept.sound (h : Kept R s) : s.Sound := by
  refine ⟨h.fault, h.held, fun i hi => ?_, h.deleted, h.balanced⟩
  obtain ⟨m, hm⟩ := h.alive hi
  simp [StdMap.contains, hm]

theorem Kept.next_not_held (h : Kept R s) : s.next ∉ s.held := by
  intro hi
  obtain ⟨m, hm⟩ := h.alive hi
  exact absurd (h.fresh _ m hm) (Nat.lt_irrefl _)

theorem Kept.assign_next (h : Kept R s) (m : μ) {i : Nat} {m' : μ} (hi : s.heap.find? i = some m') :
    (s.heap.assign s.next m).find? i = some m' := by
  have hne : i ≠ s.next := Nat.ne_of_lt (h.fresh i m' hi)
  simp [hne, hi]

theorem Kept.allocated (h : Kept R s) (m : μ) :
    (∀ i m', (s.heap.assign s.next m).find? i = some m' → i < s.next + 1) ∧
      ∀ i ∈ s.deleted, i < s.next + 1 ∧ (s.heap.assign s.next m).find? i = none := by
  constructor
  · intro i m' hi
    rcases StdMap.find?_assign_cases hi with ⟨rfl, -⟩ | ⟨-, hold⟩
    · omega
    · have := h.fresh i m' hold
      omega
  · intro i hi
    obtain ⟨hlt, hnone⟩ := h.gone i hi
    exact ⟨by omega, by simp [Nat.ne_of_lt hlt, hnone]⟩

theorem Kept.make (h : Kept R s) {p : π} {m : μ} (hc : R.carries m p = true) :
    Kept R { s with
      heap := s.heap.assign s.next m
      next := s.next + 1
      waiting := (p, s.next) :: s.waiting } := by
  obtain ⟨hfresh, hgone⟩ := h.allocated m
  have hheld : (s.next :: s.held).Nodup := List.nodup_cons.mpr ⟨h.next_not_held, h.held⟩
  refine ⟨h.fault, hheld, ?_, ?_, hfresh, hgone, h.deleted, h.balanced⟩
  · intro e he
    rcases List.mem_cons.mp he with rfl | he
    · exact ⟨m, by simp, hc⟩
    · obtain ⟨m', hm', hc'⟩ := h.carried e he
      exact ⟨m', h.assign_next m hm', hc'⟩
  · intro task ht
    obtain ⟨m', hm', hlin⟩ := h.linear task ht
    exact ⟨m', h.assign_next m hm', hlin⟩

theorem Kept.create (h : Kept R s) {t : τ} {m : μ} (hc : R.creates t m = true) (o : ω) :
    Kept R { s with
      heap := s.heap.assign s.next m
      next := s.next + 1
      tasks := ⟨t, s.next, R.createPlan t m o⟩ :: s.tasks
      received := s.next :: s.received } := by
  obtain ⟨hfresh, hgone⟩ := h.allocated m
  refine ⟨h.fault, ?_, ?_, ?_, hfresh, hgone, h.deleted, ?_⟩
  · exact List.perm_middle.nodup_iff.mpr (List.nodup_cons.mpr ⟨h.next_not_held, h.held⟩)
  · intro e he
    obtain ⟨m', hm', hc'⟩ := h.carried e he
    exact ⟨m', h.assign_next m hm', hc'⟩
  · intro task ht
    rcases List.mem_cons.mp ht with rfl | ht
    · exact ⟨m, by simp, R.createPlan_linear t m o hc⟩
    · obtain ⟨m', hm', hlin⟩ := h.linear task ht
      exact ⟨m', h.assign_next m hm', hlin⟩
  · intro i
    have hb := h.balanced i
    simp only [inHand, List.map_cons, List.count_cons] at hb ⊢
    omega

variable [DecidableEq π]

theorem Kept.take (h : Kept R s) {t : τ} {p : π} {i : Nat} (hm : (p, i) ∈ s.waiting) (o : ω) :
    Kept R (s.take R t p i o) := by
  obtain ⟨m, hfind, hcarries⟩ := h.carried (p, i) hm
  have hperm : s.waiting.Perm ((p, i) :: s.waiting.erase (p, i)) := List.perm_cons_erase hm
  simp only [Custody.take, hfind]
  have hcarried : ∀ e ∈ s.waiting.erase (p, i), ∃ m, s.heap.find? e.2 = some m ∧ R.carries m e.1 = true :=
    fun e he => h.carried e (List.mem_of_mem_erase he)
  refine ⟨h.fault, ?_, hcarried, ?_, h.fresh, h.gone, h.deleted, ?_⟩
  · have hmoved : s.held.Perm ((s.waiting.erase (p, i)).map Prod.snd ++ i :: s.inHand) :=
      ((hperm.map Prod.snd).append_right s.inHand).trans List.perm_middle.symm
    exact hmoved.nodup_iff.mp h.held
  · intro task ht
    rcases List.mem_cons.mp ht with rfl | ht
    · exact ⟨m, hfind, R.plan_linear p m o hcarries⟩
    · exact h.linear task ht
  · intro j
    have hb := h.balanced j
    simp only [inHand, List.map_cons, List.count_cons] at hb ⊢
    omega

variable [DecidableEq τ]

theorem inHand_erase {task : CustodyTask π τ} (ht : task ∈ s.tasks) :
    s.inHand.Perm (task.id :: (s.tasks.erase task).map CustodyTask.id) :=
  (List.perm_cons_erase ht).map CustodyTask.id

theorem Kept.access (h : Kept R s) {task : CustodyTask π τ} (ht : task ∈ s.tasks) {op : CustodyOp π}
    {ops : List (CustodyOp π)} {m : μ} (hm : s.heap.find? task.id = some m)
    (hlin : Linear (R.carries m) (op :: ops)) :
    Kept R { s with tasks := { task with plan := op :: ops } :: s.tasks.erase task } := by
  have hsame := inHand_erase ht
  refine ⟨h.fault, ?_, h.carried, ?_, h.fresh, h.gone, h.deleted, ?_⟩
  · exact (hsame.append_left _).nodup_iff.mp h.held
  · intro task' ht'
    rcases List.mem_cons.mp ht' with rfl | ht'
    · exact ⟨m, hm, hlin⟩
    · exact h.linear task' (List.mem_of_mem_erase ht')
  · intro i
    rw [h.balanced i, hsame.count_eq i]
    rfl

theorem Kept.delete (h : Kept R s) {task : CustodyTask π τ} (ht : task ∈ s.tasks) :
    Kept R { s with
      heap := s.heap.erase task.id, deleted := task.id :: s.deleted, tasks := s.tasks.erase task } := by
  have hsame := inHand_erase ht
  have hmoved : s.held.Perm (task.id :: (s.waiting.map Prod.snd ++ (s.tasks.erase task).map CustodyTask.id)) :=
    (hsame.append_left _).trans List.perm_middle
  obtain ⟨hnot, hnodup⟩ := List.nodup_cons.mp (hmoved.nodup_iff.mp h.held)
  obtain ⟨m, hm, -⟩ := h.linear task ht
  have hother {i : Nat} {m' : μ} (hne : i ≠ task.id) (hi : s.heap.find? i = some m') :
      (s.heap.erase task.id).find? i = some m' := by
    simp [hne, hi]
  refine ⟨h.fault, hnodup, ?_, ?_, ?_, ?_, ?_, ?_⟩
  · intro e he
    obtain ⟨m', hm', hc⟩ := h.carried e he
    have hne : e.2 ≠ task.id := by
      intro heq
      exact hnot (List.mem_append_left _ (heq ▸ List.mem_map_of_mem he))
    exact ⟨m', hother hne hm', hc⟩
  · intro task' ht'
    obtain ⟨m', hm', hlin⟩ := h.linear task' (List.mem_of_mem_erase ht')
    have hne : task'.id ≠ task.id := by
      intro heq
      exact hnot (List.mem_append_right _ (heq ▸ List.mem_map_of_mem ht'))
    exact ⟨m', hother hne hm', hlin⟩
  · intro i m' hi
    exact h.fresh i m' (StdMap.find?_of_erase hi).2
  · intro i hi
    rcases List.mem_cons.mp hi with rfl | hi
    · exact ⟨h.fresh _ m hm, by simp⟩
    · obtain ⟨hlt, hnone⟩ := h.gone i hi
      exact ⟨hlt, by simp [hnone]⟩
  · refine List.nodup_cons.mpr ⟨fun hmem => ?_, h.deleted⟩
    rw [(h.gone task.id hmem).2] at hm
    cases hm
  · intro i
    have hb := h.balanced i
    rw [hsame.count_eq i] at hb
    simp only [inHand, List.count_cons] at hb ⊢
    omega

theorem Kept.push (h : Kept R s) {task : CustodyTask π τ} (ht : task ∈ s.tasks) {p : π} {m : μ}
    (hm : s.heap.find? task.id = some m) (hc : R.carries m p = true) :
    Kept R { s with
      waiting := (p, task.id) :: s.waiting
      passedOn := task.id :: s.passedOn
      tasks := s.tasks.erase task } := by
  have hsame := inHand_erase ht
  have hmoved : s.held.Perm (task.id :: (s.waiting.map Prod.snd ++ (s.tasks.erase task).map CustodyTask.id)) :=
    (hsame.append_left _).trans List.perm_middle
  refine ⟨h.fault, hmoved.nodup_iff.mp h.held, ?_, ?_, h.fresh, h.gone, h.deleted, ?_⟩
  · intro e he
    rcases List.mem_cons.mp he with rfl | he
    · exact ⟨m, hm, hc⟩
    · exact h.carried e he
  · exact fun task' ht' => h.linear task' (List.mem_of_mem_erase ht')
  · intro i
    have hb := h.balanced i
    rw [hsame.count_eq i] at hb
    simp only [inHand, List.count_cons] at hb ⊢
    omega

theorem Kept.act (h : Kept R s) {task : CustodyTask π τ} (ht : task ∈ s.tasks) : Kept R (s.act task) := by
  obtain ⟨m, hm, hlin⟩ := h.linear task ht
  have hthere : s.heap.contains task.id = true := by simp [StdMap.contains, hm]
  unfold Custody.act
  cases hplan : task.plan with
  | nil =>
    rw [hplan] at hlin
    exact hlin.elim
  | cons op ops =>
    rw [hplan] at hlin
    cases op with
    | access =>
      simp only [hthere, if_true]
      cases ops with
      | nil => exact (show False from hlin).elim
      | cons op ops => exact h.access ht hm hlin
    | delete =>
      obtain rfl : ops = [] := hlin
      simp only [hthere, if_true]
      exact h.delete ht
    | push p =>
      obtain ⟨hc, rfl⟩ := hlin
      exact h.push ht hm hc
    | escape =>
      exact ⟨h.fault, h.held, h.carried, h.linear, h.fresh, h.gone, h.deleted, h.balanced⟩

theorem step_kept (h : Kept R s) (hs : step R s a = some s') : Kept R s' := by
  simp only [step, Option.ite_none_left_eq_some] at hs
  obtain ⟨-, hs⟩ := hs
  cases a with
  | make p m =>
    simp only [Option.ite_none_right_eq_some, Option.some.injEq] at hs
    obtain ⟨hc, rfl⟩ := hs
    exact h.make hc
  | create t m o =>
    simp only [Option.ite_none_right_eq_some, Option.some.injEq] at hs
    obtain ⟨⟨-, hc⟩, rfl⟩ := hs
    exact h.create hc o
  | take t p i o =>
    simp only [Option.ite_none_right_eq_some, Option.some.injEq] at hs
    obtain ⟨⟨-, -, hm⟩, rfl⟩ := hs
    exact h.take hm o
  | act task =>
    simp only [Option.ite_none_right_eq_some, Option.some.injEq] at hs
    obtain ⟨ht, rfl⟩ := hs
    exact h.act ht

/-- Threads that treat each thing linearly keep custody in every run. -/
theorem along_sound (R : Rules π τ μ ω) (as : List (CustodyAction π τ μ ω)) :
    Lts.Along (step R) Sound (new : Custody π τ μ) as := by
  have halong : Lts.Along (step R) (Kept R) (new : Custody π τ μ) as :=
    Lts.along_of_step (Kept R) (fun _ _ _ h hs => step_kept h hs) kept_new as
  exact halong.mono (fun s h => h.sound)

end Custody
