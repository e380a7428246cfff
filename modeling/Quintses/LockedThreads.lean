import Quintses.LockFree
import Quintses.Monitor

/-! `lockedQueue` under any number of threads, each in `push`, `wait_pop` or
`try_pop`. Whoever holds the mutex is alone with the deque, so the calls act one
after the other, on a first-in-first-out queue. -/

namespace Quintses

open AtomicObject

variable {α : Type}

/-- Where a thread is in a call. -/
inductive LockedPc (α : Type)
  | idle
  | lock (request : QueueRequest α)
  | testEmpty (t : α)
  | pushBack (t : α) (wasEmpty : Bool)
  | unlock (wasEmpty : Bool)
  | notify (wasEmpty : Bool)
  | whileEmpty
  | wait
  | waiting
  | ifEmpty
  /-- Leaving `try_pop` with false gives the mutex back, as leaving with a value does. -/
  | returnFalse
  | front (call : PopCall)
  | popFront (call : PopCall) (val : α)
  | returnVal (val : α)

namespace LockedPc

def inside : LockedPc α → Bool
  | idle | lock _ | notify _ | waiting => false
  | testEmpty _ | pushBack _ _ | unlock _ | whileEmpty | wait | ifEmpty | returnFalse | front _ | popFront _ _
  | returnVal _ => true

/-- What a thread knows of the deque. -/
def Knows : LockedPc α → List α → Prop
  | front _, q => q ≠ []
  | popFront _ val, q => q.head? = some val
  | _, _ => True

def phase : LockedPc α → CallPhase (QueueRequest α) (QueueReply α)
  | idle => .idle
  | lock request => .called request
  | testEmpty t | pushBack t _ => .called (.push t)
  | unlock _ | notify _ => .done .pushed
  | whileEmpty | wait | waiting => .called (.pop .waitPop)
  | ifEmpty => .called (.pop .tryPop)
  | front call | popFront call _ => .called (.pop call)
  | returnFalse => .done (.popped none)
  | returnVal val => .done (.popped (some val))

/-- What a thread goes on to once it has the mutex. -/
def entry : QueueRequest α → LockedPc α
  | .push t => testEmpty t
  | .pop .waitPop => whileEmpty
  | .pop .tryPop => ifEmpty

theorem inside_entry (request : QueueRequest α) : (entry request).inside = true := by
  rcases request with t | call
  · rfl
  · cases call <;> rfl

theorem phase_entry (request : QueueRequest α) : (entry request).phase = .called request := by
  rcases request with t | call
  · rfl
  · cases call <;> rfl

theorem knows_entry (request : QueueRequest α) (q : List α) : (entry request).Knows q := by
  rcases request with t | call
  · trivial
  · cases call <;> trivial

theorem knows_of_outside {pc : LockedPc α} (h : pc.inside = false) (q : List α) : pc.Knows q := by
  cases pc <;> trivial

end LockedPc

structure LockedThreads (α : Type) where
  queue : LockedQueue α
  monitor : Monitor Nat
  pcs : Nat → LockedPc α

inductive LockedAction (α : Type)
  | call (i : Nat) (request : QueueRequest α)
  /-- `woken` is the thread that `notify_one` wakes. -/
  | thread (i : Nat) (woken : Nat)
  | spuriousWake (i : Nat)

namespace LockedThreads

def new : LockedThreads α := ⟨.new, .new, fun _ => .idle⟩

variable (s : LockedThreads α)

def goto (i : Nat) (pc : LockedPc α) : LockedThreads α := { s with pcs := Function.update s.pcs i pc }

def stepThread (i woken : Nat) : Option (LockedThreads α) :=
  match s.pcs i with
  | .idle => none
  | .lock request => (s.monitor.lock i).map (fun monitor => { s.goto i (.entry request) with monitor })
  | .testEmpty t => some (s.goto i (.pushBack t s.queue.queue.isEmpty))
  | .pushBack t wasEmpty => some { s.goto i (.unlock wasEmpty) with queue := ⟨s.queue.queue ++ [t]⟩ }
  | .unlock wasEmpty => some { s.goto i (.notify wasEmpty) with monitor := s.monitor.unlock }
  | .notify wasEmpty =>
    if wasEmpty then (s.monitor.notifyOne woken).map (fun monitor => { s.goto i .idle with monitor })
    else some (s.goto i .idle)
  | .whileEmpty => some (s.goto i (if s.queue.queue.isEmpty then .wait else .front .waitPop))
  | .wait => some { s.goto i .waiting with monitor := s.monitor.wait i }
  | .waiting => (s.monitor.relock i).map (fun monitor => { s.goto i .whileEmpty with monitor })
  | .ifEmpty => some (s.goto i (if s.queue.queue.isEmpty then .returnFalse else .front .tryPop))
  | .front call => s.queue.queue.head?.map (fun val => s.goto i (.popFront call val))
  | .popFront _ val => some { s.goto i (.returnVal val) with queue := ⟨s.queue.queue.tail⟩ }
  | .returnFalse | .returnVal _ => some { s.goto i .idle with monitor := s.monitor.unlock }

def step (s : LockedThreads α) : LockedAction α → Option (LockedThreads α)
  | .call i request =>
    match s.pcs i with
    | .idle => some (s.goto i (.lock request))
    | _ => none
  | .thread i woken => s.stepThread i woken
  | .spuriousWake i => if i ∈ s.monitor.waiting then some { s with monitor := s.monitor.wake i } else none

def seen (s : LockedThreads α) (a : LockedAction α) (_ : LockedThreads α) :
    List (CallEvent Nat (QueueRequest α) (QueueReply α)) :=
  match a with
  | .call i request => [.invoke i request]
  | .thread i _ =>
    match s.pcs i with
    | .notify _ => [.respond i .pushed]
    | .returnFalse => [.respond i (.popped none)]
    | .returnVal val => [.respond i (.popped (some val))]
    | _ => []
  | .spuriousWake _ => []

structure Sound (s : LockedThreads α) : Prop where
  guards : s.monitor.Guards (fun i => (s.pcs i).inside = true)
  knows : ∀ i, (s.pcs i).Knows s.queue.queue

structure Related (s : LockedThreads α) (o : AtomicObject Nat (List α) (QueueRequest α) (QueueReply α)) :
    Prop extends s.Sound where
  state : o.state = s.queue.queue
  phases : ∀ i, o.phase i = (s.pcs i).phase

variable {s} {s' : LockedThreads α} {o : AtomicObject Nat (List α) (QueueRequest α) (QueueReply α)} {i j : Nat}
  {pc : LockedPc α} {monitor : Monitor Nat}

theorem pcs_goto : (s.goto i pc).pcs j = if j = i then pc else s.pcs j := Function.update_apply s.pcs i pc j

theorem related_new : (new : LockedThreads α).Related (init []) where
  guards i := by simp [new, Monitor.new, LockedPc.inside]
  knows _ := trivial
  state := rfl
  phases _ := rfl

theorem inside_goto_of_ne (hj : j ≠ i) : ((s.goto i pc).pcs j).inside = true ↔ (s.pcs j).inside = true := by
  rw [pcs_goto, if_neg hj]

theorem inside_goto_self : ((s.goto i pc).pcs i).inside = pc.inside := by
  rw [pcs_goto, if_pos rfl]

namespace Sound

theorem stay (h : s.Sound) (pc : LockedPc α) (hin : pc.inside = (s.pcs i).inside) :
    s.monitor.Guards (fun j => ((s.goto i pc).pcs j).inside = true) := by
  refine h.guards.congr rfl (fun j => ?_)
  by_cases hj : j = i
  · subst hj
    rw [inside_goto_self, hin]
  · exact inside_goto_of_ne hj

theorem enter (h : s.Sound) (hlock : s.monitor.lock i = some monitor) (hin : pc.inside = true) :
    monitor.Guards (fun j => ((s.goto i pc).pcs j).inside = true) := by
  obtain ⟨hfree, rfl⟩ := Monitor.lock_eq_some.mp hlock
  exact h.guards.enter hfree rfl (inside_goto_self.trans hin) (fun j hj => inside_goto_of_ne hj)

theorem leave (h : s.Sound) (pc : LockedPc α) (hin : (s.pcs i).inside = true) (hfree : monitor.holder = none)
    (hout : pc.inside = false) : monitor.Guards (fun j => ((s.goto i pc).pcs j).inside = true) := by
  refine h.guards.leave hin hfree ?_ (fun j hj => inside_goto_of_ne hj)
  rw [inside_goto_self, hout]
  exact Bool.false_ne_true

end Sound

/-- Only the thread inside the critical section knows anything of the deque. -/
theorem Related.move (h : s.Related o) (queue : List α)
    (hguards : monitor.Guards (fun j => ((s.goto i pc).pcs j).inside = true)) (hknows : pc.Knows queue)
    (halone : queue = s.queue.queue ∨ (s.pcs i).inside = true) :
    Related { s.goto i pc with queue := ⟨queue⟩, monitor } ({ o with state := queue }.goto i pc.phase) := by
  refine ⟨⟨hguards, fun j => ?_⟩, rfl, fun j => ?_⟩
  · change ((s.goto i pc).pcs j).Knows queue
    by_cases hj : j = i
    · rwa [pcs_goto, if_pos hj]
    · rw [pcs_goto, if_neg hj]
      rcases halone with rfl | hin
      · exact h.knows j
      · refine LockedPc.knows_of_outside (Bool.eq_false_iff.mpr (fun hjn => hj ?_)) queue
        exact h.guards.unique hjn hin
  · change _ = ((s.goto i pc).pcs j).phase
    rw [phase_goto, pcs_goto]
    split_ifs
    · rfl
    · exact h.phases j

theorem Related.keep (h : s.Related o)
    (hguards : monitor.Guards (fun j => ((s.goto i pc).pcs j).inside = true))
    (hknows : pc.Knows s.queue.queue) : Related { s.goto i pc with monitor } (o.goto i pc.phase) := by
  have hmove := h.move s.queue.queue hguards hknows (Or.inl rfl)
  have hsame : { o with state := s.queue.queue } = o := by rw [← h.state]
  rwa [hsame] at hmove

theorem Related.silent (h : s.Related o)
    (hguards : monitor.Guards (fun j => ((s.goto i pc).pcs j).inside = true)) (hknows : pc.Knows s.queue.queue)
    (hphase : pc.phase = (s.pcs i).phase) : Related { s.goto i pc with monitor } o := by
  have hkeep := h.keep hguards hknows
  rwa [goto_self ((h.phases i).trans hphase.symm)] at hkeep

theorem Related.wake (h : s.Related o) (t : Nat) : Related { s with monitor := s.monitor.wake t } o :=
  ⟨⟨h.guards.congr rfl (fun _ => Iff.rfl), h.knows⟩, h.state, h.phases⟩

theorem Related.thread {woken : Nat} (h : s.Related o) (hs : s.stepThread i woken = some s') :
    ∃ o', Steps (QueueRequest.serve .fifo) o (seen s (.thread i woken) s') o' ∧ s'.Related o' := by
  have hphase := h.phases i
  have hknows := h.knows i
  have hstate := h.state
  unfold stepThread at hs
  cases hp : s.pcs i with
  | idle => simp [hp] at hs
  | lock request =>
    simp only [hp] at hs
    obtain ⟨monitor, hlock, rfl⟩ := Option.map_eq_some_iff.mp hs
    refine ⟨o, by simpa only [seen, hp] using Steps.refl o, ?_⟩
    exact h.silent (h.enter hlock (LockedPc.inside_entry request)) (LockedPc.knows_entry request _)
      (by rw [hp]; exact LockedPc.phase_entry request)
  | testEmpty t =>
    simp only [hp, Option.some.injEq] at hs
    subst hs
    refine ⟨o, by simpa only [seen, hp] using Steps.refl o, ?_⟩
    exact h.silent (h.stay _ (by rw [hp]; rfl)) trivial (by rw [hp]; rfl)
  | pushBack t wasEmpty =>
    simp only [hp, Option.some.injEq] at hs
    subst hs
    have happly : QueueRequest.serve .fifo o.state (.push t) = some (.pushed, s.queue.queue ++ [t]) := by
      rw [hstate]
      cases s.queue.queue <;> rfl
    refine ⟨_, by simpa only [seen, hp] using Steps.point (hphase.trans (by rw [hp]; rfl)) happly (.refl _), ?_⟩
    exact h.move _ (h.stay (.unlock wasEmpty) (by rw [hp]; rfl)) trivial (Or.inr (by rw [hp]; rfl))
  | unlock wasEmpty =>
    simp only [hp, Option.some.injEq] at hs
    subst hs
    refine ⟨o, by simpa only [seen, hp] using Steps.refl o, ?_⟩
    exact h.silent (h.leave _ (by rw [hp]; rfl) rfl rfl) trivial (by rw [hp]; rfl)
  | notify wasEmpty =>
    have hkeep := h.keep (h.stay .idle (by rw [hp]; rfl)) trivial
    refine ⟨_, by simpa only [seen, hp] using Steps.respond (hphase.trans (by rw [hp]; rfl)) (.refl _), ?_⟩
    simp only [hp] at hs
    split_ifs at hs
    · obtain ⟨monitor, hwake, rfl⟩ := Option.map_eq_some_iff.mp hs
      obtain ⟨-, rfl⟩ := Monitor.notifyOne_eq_some.mp hwake
      exact hkeep.wake woken
    · cases hs
      exact hkeep
  | whileEmpty =>
    simp only [hp, Option.some.injEq] at hs
    subst hs
    refine ⟨o, by simpa only [seen, hp] using Steps.refl o, ?_⟩
    split_ifs with hempty
    · exact h.silent (h.stay _ (by rw [hp]; rfl)) trivial (by rw [hp]; rfl)
    · exact h.silent (h.stay _ (by rw [hp]; rfl)) (fun he => hempty (by rw [he]; rfl)) (by rw [hp]; rfl)
  | wait =>
    simp only [hp, Option.some.injEq] at hs
    subst hs
    refine ⟨o, by simpa only [seen, hp] using Steps.refl o, ?_⟩
    exact h.silent (h.leave _ (by rw [hp]; rfl) rfl rfl) trivial (by rw [hp]; rfl)
  | waiting =>
    simp only [hp] at hs
    obtain ⟨monitor, hlock, rfl⟩ := Option.map_eq_some_iff.mp hs
    obtain ⟨-, hfree, hm⟩ := Monitor.relock_eq_some.mp hlock
    refine ⟨o, by simpa only [seen, hp] using Steps.refl o, ?_⟩
    exact h.silent (h.enter (Monitor.lock_eq_some.mpr ⟨hfree, hm⟩) rfl) trivial (by rw [hp]; rfl)
  | ifEmpty =>
    simp only [hp, Option.some.injEq] at hs
    subst hs
    by_cases hempty : s.queue.queue.isEmpty = true
    · have hnil : s.queue.queue = [] := List.isEmpty_iff.mp hempty
      have happly : QueueRequest.serve .fifo o.state (.pop .tryPop) = some (.popped none, s.queue.queue) := by
        rw [hstate, hnil]
        rfl
      refine ⟨_, by simpa only [seen, hp] using Steps.point (hphase.trans (by rw [hp]; rfl)) happly (.refl _), ?_⟩
      rw [if_pos hempty]
      exact h.move _ (h.stay .returnFalse (by rw [hp]; rfl)) trivial (Or.inl rfl)
    · refine ⟨o, by simpa only [seen, hp] using Steps.refl o, ?_⟩
      rw [if_neg hempty]
      exact h.silent (h.stay _ (by rw [hp]; rfl)) (fun he => hempty (by rw [he]; rfl)) (by rw [hp]; rfl)
  | front call =>
    simp only [hp] at hs
    obtain ⟨val, hval, rfl⟩ := Option.map_eq_some_iff.mp hs
    refine ⟨o, by simpa only [seen, hp] using Steps.refl o, ?_⟩
    exact h.silent (h.stay _ (by rw [hp]; rfl)) hval (by rw [hp]; rfl)
  | popFront call val =>
    simp only [hp, Option.some.injEq] at hs
    subst hs
    rw [hp] at hknows
    obtain ⟨rest, hq⟩ := List.head?_eq_some_iff.mp hknows
    have happly : QueueRequest.serve .fifo o.state (.pop call) =
        some (.popped (some val), s.queue.queue.tail) := by
      rw [hstate, hq]
      cases call <;> rfl
    refine ⟨_, by simpa only [seen, hp] using Steps.point (hphase.trans (by rw [hp]; rfl)) happly (.refl _), ?_⟩
    exact h.move _ (h.stay (.returnVal val) (by rw [hp]; rfl)) trivial (Or.inr (by rw [hp]; rfl))
  | _ =>
    simp only [hp, Option.some.injEq] at hs
    subst hs
    refine ⟨_, by simpa only [seen, hp] using Steps.respond (hphase.trans (by rw [hp]; rfl)) (.refl _), ?_⟩
    exact h.keep (h.leave .idle (by rw [hp]; rfl) rfl rfl) trivial

theorem step_related {a : LockedAction α} (h : s.Related o) (hs : step s a = some s') :
    ∃ o', Steps (QueueRequest.serve .fifo) o (seen s a s') o' ∧ s'.Related o' := by
  cases a with
  | call i request =>
    simp only [step] at hs
    split at hs
    case h_1 hp =>
      cases hs
      have hidle : o.phase i = .idle := (h.phases i).trans (by rw [hp]; rfl)
      exact ⟨_, .invoke hidle (.refl _), h.keep (h.stay (.lock request) (by rw [hp]; rfl)) trivial⟩
    case h_2 => cases hs
  | thread i woken => exact h.thread hs
  | spuriousWake i =>
    simp only [step] at hs
    split_ifs at hs
    cases hs
    exact ⟨o, .refl o, h.wake i⟩

/-- Whatever the threads do, their calls and results are those of an atomic
first-in-first-out queue. -/
theorem explained_by_queue (as : List (LockedAction α)) :
    Explains (QueueRequest.serve .fifo) [] (observe step seen (new : LockedThreads α) as) := by
  refine explains_observe Related ?_ related_new as
  exact fun s a s' o h hs => step_related h hs

end LockedThreads

end Quintses
