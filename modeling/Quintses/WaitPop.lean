import Quintses.Lts
import Quintses.Monitor
import Quintses.Queue

/-! The threads of `lockedQueue` around its mutex and its condition variable:
any number of them in `push`, one in `wait_pop`. -/

namespace Quintses

open Lts

inductive QueueThread
  | pusher (i : Nat)
  | consumer
  deriving DecidableEq

/-- Where a thread is in `push(t)` of the locked queue. -/
inductive LockedPushPc (α : Type)
  | idle
  | testEmpty (t : α)
  | pushBack (t : α) (wasEmpty : Bool)
  | unlock (wasEmpty : Bool)
  | notify (wasEmpty : Bool)

/-- Where the consumer is in `wait_pop()`. -/
inductive WaitPopPc (α : Type)
  | idle
  | testEmpty
  | wait
  | waiting
  | front
  | popFront (val : α)
  | unlock (val : α)

namespace LockedPushPc

variable {α : Type}

def inside : LockedPushPc α → Bool
  | testEmpty _ | pushBack _ _ | unlock _ => true
  | idle | notify _ => false

/-- It has appended to the empty deque and has not notified yet. -/
def notifies : LockedPushPc α → Bool
  | unlock wasEmpty | notify wasEmpty => wasEmpty
  | idle | testEmpty _ | pushBack _ _ => false

end LockedPushPc

def WaitPopPc.inside {α : Type} : WaitPopPc α → Bool
  | testEmpty | wait | front | popFront _ | unlock _ => true
  | idle | waiting => false

structure WaitQueue (α : Type) where
  queue : LockedQueue α
  monitor : Monitor QueueThread
  pushers : Nat → LockedPushPc α
  consumer : WaitPopPc α
  /-- What has been appended and what `wait_pop` has returned. -/
  appended : List α
  returned : List α

inductive WaitAction (α : Type)
  /-- The thread calls `push(t)` and locks the mutex. -/
  | push (i : Nat) (t : α)
  /-- `woken` is the thread that `notify_one` wakes. -/
  | pusher (i : Nat) (woken : QueueThread)
  | consumer
  | spuriousWake (t : QueueThread)

namespace WaitQueue

variable {α : Type}

def new : WaitQueue α := ⟨.new, .new, fun _ => .idle, .idle, [], []⟩

variable (s : WaitQueue α)

def goto (i : Nat) (pc : LockedPushPc α) : WaitQueue α := { s with pushers := Function.update s.pushers i pc }

def stepPusher (i : Nat) (woken : QueueThread) : Option (WaitQueue α) :=
  match s.pushers i with
  | .idle => none
  | .testEmpty t => some (s.goto i (.pushBack t s.queue.queue.isEmpty))
  | .pushBack t wasEmpty =>
    some { s.goto i (.unlock wasEmpty) with
      queue := ⟨s.queue.queue ++ [t]⟩, appended := s.appended ++ [t] }
  | .unlock wasEmpty => some { s.goto i (.notify wasEmpty) with monitor := s.monitor.unlock }
  | .notify wasEmpty =>
    if wasEmpty then
      (s.monitor.notifyOne woken).map (fun monitor => { s.goto i .idle with monitor })
    else some (s.goto i .idle)

def stepConsumer : Option (WaitQueue α) :=
  match s.consumer with
  | .idle => (s.monitor.lock .consumer).map (fun monitor => { s with monitor, consumer := .testEmpty })
  | .testEmpty => some { s with consumer := if s.queue.queue.isEmpty then .wait else .front }
  | .wait => some { s with monitor := s.monitor.wait .consumer, consumer := .waiting }
  | .waiting => (s.monitor.relock .consumer).map (fun monitor => { s with monitor, consumer := .testEmpty })
  | .front => s.queue.queue.head?.map (fun val => { s with consumer := .popFront val })
  | .popFront val => some { s with queue := ⟨s.queue.queue.tail⟩, consumer := .unlock val }
  | .unlock val =>
    some { s with monitor := s.monitor.unlock, consumer := .idle, returned := s.returned ++ [val] }

def step (s : WaitQueue α) : WaitAction α → Option (WaitQueue α)
  | .push i t =>
    match s.pushers i with
    | .idle => (s.monitor.lock (.pusher i)).map (fun monitor => { s.goto i (.testEmpty t) with monitor })
    | _ => none
  | .pusher i woken => s.stepPusher i woken
  | .consumer => s.stepConsumer
  | .spuriousWake t => if t ∈ s.monitor.waiting then some { s with monitor := s.monitor.wake t } else none

def inside : QueueThread → Prop
  | .pusher i => (s.pushers i).inside = true
  | .consumer => s.consumer.inside = true

/-- The consumer does not sleep on a deque that has something in it, unless the
thread that has to wake it is on its way. -/
def NoLostWakeUp : Prop :=
  .consumer ∈ s.monitor.waiting → s.queue.queue ≠ [] → ∃ i, (s.pushers i).notifies = true

def inHand : List α :=
  match s.consumer with
  | .unlock val => [val]
  | _ => []

/-- The consumer gets what was appended, in that order. -/
structure InOrder (s : WaitQueue α) : Prop where
  all : s.appended = s.returned ++ s.inHand ++ s.queue.queue
  front : ∀ val, s.consumer = .popFront val → s.queue.queue.head? = some val

/-- What the threads know of the deque is true as long as they hold the mutex,
and only the consumer ever sleeps. -/
structure Signalled (s : WaitQueue α) : Prop where
  guards : s.monitor.Guards s.inside
  sleeping : ∀ t ∈ s.monitor.waiting, t = .consumer ∧ s.consumer = .waiting
  tested : ∀ i t wasEmpty, s.pushers i = .pushBack t wasEmpty → wasEmpty = s.queue.queue.isEmpty
  empty : s.consumer = .wait → s.queue.queue = []
  notified : s.NoLostWakeUp

variable {s} {s' : WaitQueue α} {i j : Nat} {pc : LockedPushPc α}

theorem pushers_goto : (s.goto i pc).pushers j = if j = i then pc else s.pushers j := by
  unfold goto
  by_cases hj : j = i
  · subst hj
    simp
  · simp [hj]

theorem inside_goto_of_ne {t : QueueThread} (ht : t ≠ .pusher i) : (s.goto i pc).inside t ↔ s.inside t := by
  cases t with
  | consumer => rfl
  | pusher j =>
    have hj : j ≠ i := fun he => ht (he ▸ rfl)
    simp only [inside, pushers_goto, if_neg hj]

theorem inside_goto_self : (s.goto i pc).inside (.pusher i) ↔ pc.inside = true := by
  simp only [inside, pushers_goto, if_true]

theorem inside_goto (hpc : pc.inside = (s.pushers i).inside) (t : QueueThread) :
    (s.goto i pc).inside t ↔ s.inside t := by
  by_cases ht : t = .pusher i
  · rw [ht, inside_goto_self, hpc]
    rfl
  · exact inside_goto_of_ne ht

theorem pushers_goto_cases {pc' : LockedPushPc α} (h : (s.goto i pc).pushers j = pc') :
    j = i ∧ pc = pc' ∨ j ≠ i ∧ s.pushers j = pc' := by
  rw [pushers_goto] at h
  split_ifs at h with hj
  · exact Or.inl ⟨hj, h⟩
  · exact Or.inr ⟨hj, h⟩

theorem notifies_goto (hpc : (s.pushers i).notifies = true → pc.notifies = true)
    (h : ∃ j, (s.pushers j).notifies = true) : ∃ j, ((s.goto i pc).pushers j).notifies = true := by
  obtain ⟨j, hj⟩ := h
  refine ⟨j, ?_⟩
  rw [pushers_goto]
  split_ifs with he
  · exact hpc (he ▸ hj)
  · exact hj

namespace Signalled

/-- The deque does not change under the hands of a thread that holds the mutex. -/
theorem alone (h : s.Signalled) (hi : (s.pushers i).inside = true) :
    s.consumer ≠ .wait ∧ ∀ j t wasEmpty, s.pushers j = .pushBack t wasEmpty → j = i := by
  have hin : s.inside (.pusher i) := hi
  refine ⟨fun hwait => ?_, fun j t wasEmpty hj => ?_⟩
  · have hc : s.inside .consumer := by
      simp only [inside, hwait]
      rfl
    cases h.guards.unique hin hc
  · have hjn : s.inside (.pusher j) := by
      simp only [inside, hj]
      rfl
    cases h.guards.unique hin hjn
    rfl

theorem new : (new : WaitQueue α).Signalled where
  guards t := by
    cases t <;> simp [WaitQueue.new, Monitor.new, inside, LockedPushPc.inside, WaitPopPc.inside]
  sleeping t ht := by cases ht
  tested i t wasEmpty hi := by cases hi
  empty hc := by cases hc
  notified ht := by cases ht

theorem push (h : s.Signalled) {t : α} {monitor : Monitor QueueThread} (hpc : s.pushers i = .idle)
    (hlock : s.monitor.lock (.pusher i) = some monitor) :
    Signalled { s.goto i (.testEmpty t) with monitor } := by
  obtain ⟨hfree, rfl⟩ := Monitor.lock_eq_some.mp hlock
  refine ⟨?_, h.sleeping, fun j u b hj => ?_, h.empty, fun hs hq => ?_⟩
  · exact h.guards.enter hfree rfl (inside_goto_self.mpr rfl) (fun u hu => inside_goto_of_ne hu)
  · rcases pushers_goto_cases hj with ⟨-, he⟩ | ⟨-, hold⟩
    · cases he
    · exact h.tested j u b hold
  · exact notifies_goto (fun hn => by simp [hpc, LockedPushPc.notifies] at hn) (h.notified hs hq)

theorem testEmpty (h : s.Signalled) {t : α} (hpc : s.pushers i = .testEmpty t) :
    (s.goto i (.pushBack t s.queue.queue.isEmpty)).Signalled := by
  refine ⟨?_, h.sleeping, fun j u b hj => ?_, h.empty, fun hs hq => ?_⟩
  · exact h.guards.congr rfl (inside_goto (by rw [hpc]; rfl))
  · rcases pushers_goto_cases hj with ⟨-, he⟩ | ⟨-, hold⟩
    · cases he
      rfl
    · exact h.tested j u b hold
  · exact notifies_goto (fun hn => by simp [hpc, LockedPushPc.notifies] at hn) (h.notified hs hq)

theorem pushBack (h : s.Signalled) {t : α} {wasEmpty : Bool} (hpc : s.pushers i = .pushBack t wasEmpty) :
    Signalled { s.goto i (.unlock wasEmpty) with
      queue := ⟨s.queue.queue ++ [t]⟩, appended := s.appended ++ [t] } := by
  obtain ⟨hwait, honly⟩ := h.alone (by rw [hpc]; rfl)
  have hempty := h.tested i t wasEmpty hpc
  refine ⟨?_, h.sleeping, fun j u b hj => ?_, fun hc => absurd hc hwait, fun hs _ => ?_⟩
  · exact h.guards.congr rfl (inside_goto (by rw [hpc]; rfl))
  · rcases pushers_goto_cases hj with ⟨-, he⟩ | ⟨hne, hold⟩
    · cases he
    · exact absurd (honly j u b hold) hne
  · -- either this thread has to notify now, or another one has had to before
    by_cases hq : s.queue.queue = []
    · refine ⟨i, ?_⟩
      change ((s.goto i (.unlock wasEmpty)).pushers i).notifies = true
      rw [pushers_goto, if_pos rfl, hempty, hq]
      rfl
    · exact notifies_goto (fun hn => by simp [hpc, LockedPushPc.notifies] at hn) (h.notified hs hq)

theorem unlock (h : s.Signalled) {wasEmpty : Bool} (hpc : s.pushers i = .unlock wasEmpty) :
    Signalled { s.goto i (.notify wasEmpty) with monitor := s.monitor.unlock } := by
  have hin : s.inside (.pusher i) := by
    simp only [inside, hpc]
    rfl
  refine ⟨?_, h.sleeping, fun j u b hj => ?_, h.empty, fun hs hq => ?_⟩
  · have hout : ¬ (s.goto i (.notify wasEmpty)).inside (.pusher i) := by
      rw [inside_goto_self]
      exact Bool.false_ne_true
    exact h.guards.leave hin rfl hout (fun u hu => inside_goto_of_ne hu)
  · rcases pushers_goto_cases hj with ⟨-, he⟩ | ⟨-, hold⟩
    · cases he
    · exact h.tested j u b hold
  · exact notifies_goto (fun hn => by simpa [hpc, LockedPushPc.notifies] using hn) (h.notified hs hq)

theorem wake (h : s.Signalled) (t : QueueThread) : Signalled { s with monitor := s.monitor.wake t } := by
  refine ⟨h.guards.congr rfl (fun _ => Iff.rfl), fun u hu => ?_, h.tested, h.empty, fun hs hq => ?_⟩
  · exact h.sleeping u (Monitor.mem_waiting_wake.mp hu).1
  · exact h.notified (Monitor.mem_waiting_wake.mp hs).1 hq

theorem leave (h : s.Signalled) {wasEmpty : Bool} (hpc : s.pushers i = .notify wasEmpty)
    (hdone : wasEmpty = true → .consumer ∉ s.monitor.waiting) : (s.goto i .idle).Signalled := by
  refine ⟨?_, h.sleeping, fun j u b hj => ?_, h.empty, fun hs hq => ?_⟩
  · exact h.guards.congr rfl (inside_goto (by rw [hpc]; rfl))
  · rcases pushers_goto_cases hj with ⟨-, he⟩ | ⟨-, hold⟩
    · cases he
    · exact h.tested j u b hold
  · refine notifies_goto (fun hn => ?_) (h.notified hs hq)
    rw [hpc] at hn
    exact absurd hs (hdone hn)

theorem notify (h : s.Signalled) {woken : QueueThread} {monitor : Monitor QueueThread}
    (hpc : s.pushers i = .notify true) (hwake : s.monitor.notifyOne woken = some monitor) :
    Signalled { s.goto i .idle with monitor } := by
  obtain ⟨hwhom, rfl⟩ := Monitor.notifyOne_eq_some.mp hwake
  refine (h.wake woken).leave hpc (fun _ hs => ?_)
  obtain ⟨hmem, hne⟩ := Monitor.mem_waiting_wake.mp hs
  -- nobody but the consumer sleeps, so it is the one that is woken
  rcases hwhom with hnone | hsome
  · rw [hnone] at hmem
    cases hmem
  · exact hne (h.sleeping woken hsome).1.symm

theorem stepPusher (h : s.Signalled) {woken : QueueThread} (hs : s.stepPusher i woken = some s') :
    s'.Signalled := by
  unfold WaitQueue.stepPusher at hs
  split at hs
  case h_1 hpc => cases hs
  case h_2 t hpc =>
    cases hs
    exact h.testEmpty hpc
  case h_3 t wasEmpty hpc =>
    cases hs
    exact h.pushBack hpc
  case h_4 wasEmpty hpc =>
    cases hs
    exact h.unlock hpc
  case h_5 wasEmpty hpc =>
    cases wasEmpty with
    | false =>
      cases hs
      exact h.leave hpc (fun he => (by cases he))
    | true =>
      obtain ⟨monitor, hwake, rfl⟩ := Option.map_eq_some_iff.mp hs
      exact h.notify hpc hwake

/-- A step of the consumer that keeps the mutex and the deque. -/
theorem stay (h : s.Signalled) {pc : WaitPopPc α} (hout : s.consumer ≠ .waiting)
    (hin : pc.inside = s.consumer.inside) (hempty : pc = .wait → s.queue.queue = []) :
    Signalled { s with consumer := pc } := by
  refine ⟨h.guards.congr rfl (fun t => ?_), fun t ht => ?_, h.tested, hempty, h.notified⟩
  · cases t with
    | pusher i => rfl
    | consumer => simp only [inside, hin]
  · exact absurd (h.sleeping t ht).2 hout

theorem lock (h : s.Signalled) {monitor : Monitor QueueThread}
    (hawake : ∀ t, t ∉ s.monitor.waiting) (hlock : s.monitor.lock .consumer = some monitor) :
    Signalled { s with monitor, consumer := .testEmpty } := by
  obtain ⟨hfree, rfl⟩ := Monitor.lock_eq_some.mp hlock
  refine ⟨?_, fun t ht => absurd ht (hawake t), h.tested, fun hc => (by cases hc), h.notified⟩
  refine h.guards.enter hfree rfl rfl (fun t ht => ?_)
  cases t with
  | consumer => exact absurd rfl ht
  | pusher i => rfl

theorem relock (h : s.Signalled) {monitor : Monitor QueueThread}
    (hlock : s.monitor.relock .consumer = some monitor) :
    Signalled { s with monitor, consumer := .testEmpty } := by
  obtain ⟨hawake, hfree, hm⟩ := Monitor.relock_eq_some.mp hlock
  refine h.lock (fun t ht => ?_) (Monitor.lock_eq_some.mpr ⟨hfree, hm⟩)
  exact hawake ((h.sleeping t ht).1 ▸ ht)

theorem release (h : s.Signalled) {pc : WaitPopPc α} {monitor : Monitor QueueThread} {returned : List α}
    (hin : s.consumer.inside = true) (hout : pc.inside = false) (hfree : monitor.holder = none)
    (hsleep : ∀ t ∈ monitor.waiting, t = .consumer ∧ pc = .waiting) (hq : pc = .waiting → s.queue.queue = []) :
    Signalled { s with monitor, consumer := pc, returned } := by
  have hleft (t : QueueThread) (ht : t ≠ .consumer) :
      ({ s with monitor, consumer := pc, returned } : WaitQueue α).inside t ↔ s.inside t := by
    cases t with
    | pusher i => rfl
    | consumer => exact absurd rfl ht
  refine ⟨?_, hsleep, h.tested, fun hc => ?_, fun hs hne => absurd (hq (hsleep _ hs).2) hne⟩
  · have hc : s.inside .consumer := hin
    exact h.guards.leave hc hfree (Bool.eq_false_iff.mp hout) hleft
  · change pc = .wait at hc
    rw [hc] at hout
    cases hout

theorem popFront (h : s.Signalled) {val : α} (hpc : s.consumer = .popFront val) :
    Signalled { s with queue := ⟨s.queue.queue.tail⟩, consumer := .unlock val } := by
  have hin : s.inside .consumer := by
    simp only [inside, hpc]
    rfl
  have hasleep (t : QueueThread) : t ∉ s.monitor.waiting := by
    intro ht
    have hc := (h.sleeping t ht).2
    rw [hpc] at hc
    cases hc
  refine ⟨h.guards.congr rfl (fun t => ?_), fun t ht => absurd ht (hasleep t), fun i t wasEmpty hi => ?_,
    fun hc => (by cases hc), fun hs => absurd hs (hasleep _)⟩
  · cases t with
    | pusher i => rfl
    | consumer =>
      simp only [inside, hpc]
      rfl
  · have hpusher : s.inside (.pusher i) := by
      change (s.pushers i).inside = true
      rw [show s.pushers i = .pushBack t wasEmpty from hi]
      rfl
    cases h.guards.unique hin hpusher

theorem stepConsumer (h : s.Signalled) (hs : s.stepConsumer = some s') : s'.Signalled := by
  have hawake (hc : s.consumer ≠ .waiting) (t : QueueThread) : t ∉ s.monitor.waiting :=
    fun ht => hc (h.sleeping t ht).2
  unfold WaitQueue.stepConsumer at hs
  split at hs
  case h_1 hpc =>
    obtain ⟨monitor, hlock, rfl⟩ := Option.map_eq_some_iff.mp hs
    exact h.lock (hawake (by simp [hpc])) hlock
  case h_2 hpc =>
    cases hs
    refine h.stay (by simp [hpc]) ?_ ?_
    · rw [hpc]
      split_ifs <;> rfl
    · split_ifs with hq
      · exact fun _ => List.isEmpty_iff.mp hq
      · exact fun he => (by cases he)
  case h_3 hpc =>
    cases hs
    refine h.release (by rw [hpc]; rfl) rfl rfl (fun t ht => ?_) (fun _ => h.empty hpc)
    rcases List.mem_cons.mp ht with rfl | ht
    · exact ⟨rfl, rfl⟩
    · exact absurd ht (hawake (by simp [hpc]) t)
  case h_4 hpc =>
    obtain ⟨monitor, hlock, rfl⟩ := Option.map_eq_some_iff.mp hs
    exact h.relock hlock
  case h_5 hpc =>
    obtain ⟨val, hval, rfl⟩ := Option.map_eq_some_iff.mp hs
    exact h.stay (by simp [hpc]) (by rw [hpc]; rfl) (fun he => (by cases he))
  case h_6 val hpc =>
    cases hs
    exact h.popFront hpc
  case h_7 val hpc =>
    cases hs
    exact h.release (by rw [hpc]; rfl) rfl rfl (fun t ht => absurd ht (hawake (by simp [hpc]) t))
      (fun he => (by cases he))

end Signalled

theorem step_signalled {a : WaitAction α} (h : s.Signalled) (hs : step s a = some s') : s'.Signalled := by
  cases a with
  | push i t =>
    simp only [step] at hs
    split at hs
    case h_1 hpc =>
      obtain ⟨monitor, hlock, rfl⟩ := Option.map_eq_some_iff.mp hs
      exact h.push hpc hlock
    case h_2 => cases hs
  | pusher i woken => exact h.stepPusher hs
  | consumer => exact h.stepConsumer hs
  | spuriousWake t =>
    simp only [step] at hs
    split_ifs at hs
    cases hs
    exact h.wake t

theorem inOrder_new : (new : WaitQueue α).InOrder := ⟨rfl, fun val hc => by cases hc⟩

theorem InOrder.congr (h : s.InOrder) (hqueue : s'.queue = s.queue) (happended : s'.appended = s.appended)
    (hreturned : s'.returned ++ s'.inHand = s.returned ++ s.inHand)
    (hfront : ∀ val, s'.consumer = .popFront val → s.consumer = .popFront val ∨ s.queue.queue.head? = some val) :
    s'.InOrder := by
  refine ⟨by rw [happended, hreturned, hqueue, h.all], fun val hc => ?_⟩
  rw [hqueue]
  exact (hfront val hc).elim (h.front val) id

theorem step_inOrder {a : WaitAction α} (h : s.InOrder) (hs : step s a = some s') : s'.InOrder := by
  cases a with
  | push i t =>
    simp only [step] at hs
    split at hs
    case h_1 hpc =>
      obtain ⟨monitor, -, rfl⟩ := Option.map_eq_some_iff.mp hs
      exact h.congr rfl rfl rfl (fun _ => Or.inl)
    case h_2 => cases hs
  | pusher i woken =>
    simp only [step, stepPusher] at hs
    split at hs
    case h_1 => cases hs
    case h_2 => cases hs; exact h.congr rfl rfl rfl (fun _ => Or.inl)
    case h_3 t wasEmpty hpc =>
      cases hs
      refine ⟨?_, fun val hc => ?_⟩
      · exact (congrArg (· ++ [t]) h.all).trans (List.append_assoc _ _ _)
      · exact List.head?_append.trans (by rw [h.front val hc]; rfl)
    case h_4 => cases hs; exact h.congr rfl rfl rfl (fun _ => Or.inl)
    case h_5 wasEmpty hpc =>
      cases wasEmpty with
      | false =>
        cases hs
        exact h.congr rfl rfl rfl (fun _ => Or.inl)
      | true =>
        obtain ⟨monitor, -, rfl⟩ := Option.map_eq_some_iff.mp hs
        exact h.congr rfl rfl rfl (fun _ => Or.inl)
  | consumer =>
    simp only [step, stepConsumer] at hs
    split at hs
    case h_1 hpc =>
      obtain ⟨monitor, -, rfl⟩ := Option.map_eq_some_iff.mp hs
      exact h.congr rfl rfl (by simp [inHand, hpc]) (fun val hc => (by cases hc))
    case h_2 hpc =>
      cases hs
      by_cases hq : s.queue.queue.isEmpty = true
      · exact h.congr rfl rfl (by simp [inHand, hpc, hq]) (fun val hc => (by simp [hq] at hc))
      · exact h.congr rfl rfl (by simp [inHand, hpc, hq]) (fun val hc => (by simp [hq] at hc))
    case h_3 hpc =>
      cases hs
      exact h.congr rfl rfl (by simp [inHand, hpc]) (fun val hc => (by cases hc))
    case h_4 hpc =>
      obtain ⟨monitor, -, rfl⟩ := Option.map_eq_some_iff.mp hs
      exact h.congr rfl rfl (by simp [inHand, hpc]) (fun val hc => (by cases hc))
    case h_5 hpc =>
      obtain ⟨val, hval, rfl⟩ := Option.map_eq_some_iff.mp hs
      refine h.congr rfl rfl (by simp [inHand, hpc]) (fun val' hc => Or.inr ?_)
      cases hc
      exact hval
    case h_6 val hpc =>
      cases hs
      obtain ⟨rest, hq⟩ := List.head?_eq_some_iff.mp (h.front val hpc)
      refine ⟨?_, fun val' hc => (by cases hc)⟩
      have hall := h.all
      simp only [inHand, hpc, hq] at hall
      simpa [inHand, hq] using hall
    case h_7 val hpc =>
      cases hs
      exact h.congr rfl rfl (by simp [inHand, hpc]) (fun val' hc => (by cases hc))
  | spuriousWake t =>
    simp only [step] at hs
    split_ifs at hs
    cases hs
    exact h.congr rfl rfl rfl (fun _ => Or.inl)

theorem popped_in_order (as : List (WaitAction α)) : Along step InOrder new as :=
  along_of_step InOrder (fun _ _ _ h hs => step_inOrder h hs) inOrder_new as

/-- No wake-up is lost, whatever the threads do and whoever wakes up by itself. -/
theorem no_lost_wakeUp (as : List (WaitAction α)) : Along step NoLostWakeUp new as :=
  (along_of_step Signalled (fun _ _ _ h hs => step_signalled h hs) Signalled.new as).mono
    (fun _ h => h.notified)

end WaitQueue

end Quintses
