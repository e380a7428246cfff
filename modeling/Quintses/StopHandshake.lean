import Quintses.Lts
import Quintses.Monitor

/-! The end of a worker thread and of the object it belongs to: the owner asks
the worker to stop, waits until `m_running` is false and deletes the object. -/

namespace Quintses

open Lts

inductive Worked
  | localServer
  | remoteServer
  | btPhysics
  | alAudio
  | glLoader

inductive Party
  | owner
  | worker
  deriving DecidableEq

/-- Where the thread is in `run()`, from its loop on. -/
inductive RunPc
  | loop
  | lock
  | clearRunning
  | unlock
  | notify
  | exited
  deriving DecidableEq

/-- Where the owner is in `finish()` or `waitForTermination()` and the `delete`
after it. -/
inductive FinishPc
  | ask
  | lock
  | test
  | wait
  | waiting
  | unlock
  | delete
  | done
  deriving DecidableEq

def RunPc.inside : RunPc → Bool
  | .clearRunning | .unlock => true
  | .loop | .lock | .notify | .exited => false

def FinishPc.inside : FinishPc → Bool
  | .test | .wait | .unlock => true
  | .ask | .lock | .waiting | .delete | .done => false

def RunPc.live : RunPc → Bool
  | .loop | .lock | .clearRunning => true
  | .unlock | .notify | .exited => false

def FinishPc.seen : FinishPc → Bool
  | .unlock | .delete | .done => true
  | .ask | .lock | .test | .wait | .waiting => false

structure StopHandshake where
  run : RunPc
  finish : FinishPc
  status : Monitor Party
  running : Bool
  /-- `m_finish` is set, the service is stopped or a shutdown message pushed. -/
  asked : Bool
  deleted : Bool
  /-- The worker has used a member of the deleted object. -/
  touched : Bool

inductive StopAction
  | owner
  /-- `leaves` is whether the loop ends here. -/
  | worker (leaves : Bool)
  | spuriousWake

/-- A loop on `m_finish` ends exactly when it is set. A service that was stopped
returns from `run()`, and it also returns on its own; the server's queue may
hold messages before the shutdown message, and other threads' shutdown messages. -/
def Worked.MayLeave (asked leaves : Bool) : Worked → Prop
  | .btPhysics | .alAudio | .glLoader => leaves = asked
  | .remoteServer => asked = true → leaves = true
  | .localServer => True

instance (asked leaves : Bool) : (c : Worked) → Decidable (c.MayLeave asked leaves)
  | .btPhysics | .alAudio | .glLoader => inferInstanceAs (Decidable (leaves = asked))
  | .remoteServer => inferInstanceAs (Decidable (asked = true → leaves = true))
  | .localServer => .isTrue trivial

namespace StopHandshake

/-- The worker is in its loop and the owner is about to end it. -/
def new : StopHandshake := ⟨.loop, .ask, .new, true, false, false, false⟩

variable (c : Worked) (s : StopHandshake)

/-- Every step of the worker uses a member of the object. -/
def touch : StopHandshake := { s with touched := s.touched || s.deleted }

def stepOwner : Option StopHandshake :=
  match s.finish with
  | .ask => some { s with asked := true, finish := .lock }
  | .lock => (s.status.lock .owner).map (fun status => { s with status, finish := .test })
  | .test => some { s with finish := if s.running then .wait else .unlock }
  | .wait => some { s with status := s.status.wait .owner, finish := .waiting }
  | .waiting => (s.status.relock .owner).map (fun status => { s with status, finish := .test })
  | .unlock => some { s with status := s.status.unlock, finish := .delete }
  | .delete => some { s with deleted := true, finish := .done }
  | .done => none

def stepWorker (leaves : Bool) : Option StopHandshake :=
  match s.run with
  | .loop =>
    if c.MayLeave s.asked leaves then some { s.touch with run := if leaves then .lock else .loop } else none
  | .lock => (s.status.lock .worker).map (fun status => { s.touch with status, run := .clearRunning })
  | .clearRunning => some { s.touch with running := false, run := .unlock }
  | .unlock => some { s.touch with status := s.status.unlock, run := .notify }
  | .notify => some { s.touch with status := s.status.notifyAll, run := .exited }
  | .exited => none

def step (s : StopHandshake) : StopAction → Option StopHandshake
  | .owner => s.stepOwner
  | .worker leaves => s.stepWorker c leaves
  | .spuriousWake =>
    if .owner ∈ s.status.waiting then some { s with status := s.status.wake .owner } else none

def inside : Party → Prop
  | .owner => s.finish.inside = true
  | .worker => s.run.inside = true

/-- What holds whenever the two threads have got to these places. The owner sees
`m_running` false under the lock, so the worker has left its critical section. -/
structure Placed (s : StopHandshake) : Prop where
  guards : s.status.Guards s.inside
  running : s.running = s.run.live
  seen : s.finish.seen = true → s.run = .notify ∨ s.run = .exited
  deleted : s.deleted = true ↔ s.finish = .done

variable {c : Worked} {s s' : StopHandshake} {a : StopAction} {leaves : Bool}

inductive Change (s : StopHandshake) : StopAction → StopHandshake → Prop
  | ask (hp : s.finish = .ask) : Change s .owner { s with asked := true, finish := .lock }
  | ownerLock (hp : s.finish = .lock) (hfree : s.status.holder = none) :
    Change s .owner { s with status := { s.status with holder := some .owner }, finish := .test }
  | test (hp : s.finish = .test) :
    Change s .owner { s with finish := if s.running then .wait else .unlock }
  | wait (hp : s.finish = .wait) :
    Change s .owner { s with status := s.status.wait .owner, finish := .waiting }
  | relock (hp : s.finish = .waiting) (hfree : s.status.holder = none) :
    Change s .owner { s with status := { s.status with holder := some .owner }, finish := .test }
  | ownerUnlock (hp : s.finish = .unlock) :
    Change s .owner { s with status := s.status.unlock, finish := .delete }
  | delete (hp : s.finish = .delete) : Change s .owner { s with deleted := true, finish := .done }
  | loop {leaves : Bool} (hp : s.run = .loop) :
    Change s (.worker leaves) { s.touch with run := if leaves then .lock else .loop }
  | workerLock {leaves : Bool} (hp : s.run = .lock) (hfree : s.status.holder = none) :
    Change s (.worker leaves)
      { s.touch with status := { s.status with holder := some .worker }, run := .clearRunning }
  | clearRunning {leaves : Bool} (hp : s.run = .clearRunning) :
    Change s (.worker leaves) { s.touch with running := false, run := .unlock }
  | workerUnlock {leaves : Bool} (hp : s.run = .unlock) :
    Change s (.worker leaves) { s.touch with status := s.status.unlock, run := .notify }
  | notify {leaves : Bool} (hp : s.run = .notify) :
    Change s (.worker leaves) { s.touch with status := s.status.notifyAll, run := .exited }
  | spuriousWake : Change s .spuriousWake { s with status := s.status.wake .owner }

theorem stepOwner_change (h : s.stepOwner = some s') : Change s .owner s' := by
  unfold stepOwner at h
  split at h
  case h_1 hp => cases h; exact .ask hp
  case h_2 hp =>
    simp only [Option.map_eq_some_iff, Monitor.lock_eq_some] at h
    obtain ⟨m, ⟨hfree, rfl⟩, rfl⟩ := h
    exact .ownerLock hp hfree
  case h_3 hp => cases h; exact .test hp
  case h_4 hp => cases h; exact .wait hp
  case h_5 hp =>
    simp only [Option.map_eq_some_iff, Monitor.relock_eq_some] at h
    obtain ⟨m, ⟨-, hfree, rfl⟩, rfl⟩ := h
    exact .relock hp hfree
  case h_6 hp => cases h; exact .ownerUnlock hp
  case h_7 hp => cases h; exact .delete hp
  case h_8 hp => cases h

theorem stepWorker_change (h : s.stepWorker c leaves = some s') : Change s (.worker leaves) s' := by
  unfold stepWorker at h
  split at h
  case h_1 hp =>
    simp only [Option.ite_none_right_eq_some, Option.some.injEq] at h
    obtain ⟨-, rfl⟩ := h
    exact .loop hp
  case h_2 hp =>
    simp only [Option.map_eq_some_iff, Monitor.lock_eq_some] at h
    obtain ⟨m, ⟨hfree, rfl⟩, rfl⟩ := h
    exact .workerLock hp hfree
  case h_3 hp => cases h; exact .clearRunning hp
  case h_4 hp => cases h; exact .workerUnlock hp
  case h_5 hp => cases h; exact .notify hp
  case h_6 hp => cases h

theorem step_change (h : step c s a = some s') : Change s a s' := by
  cases a with
  | owner => exact stepOwner_change h
  | worker leaves => exact stepWorker_change h
  | spuriousWake =>
    simp only [step, Option.ite_none_right_eq_some, Option.some.injEq] at h
    obtain ⟨-, rfl⟩ := h
    exact .spuriousWake

theorem placed_new : new.Placed := by
  refine ⟨fun t => ?_, rfl, by simp [new, FinishPc.seen], by simp [new]⟩
  cases t <;> simp [new, Monitor.new, inside, FinishPc.inside, RunPc.inside]

theorem inside_worker_of_run (h : s'.run = s.run) :
    ∀ u, u ≠ Party.owner → (s'.inside u ↔ s.inside u) := by
  intro u hu
  cases u with
  | owner => exact absurd rfl hu
  | worker => simp only [inside, h]

theorem inside_owner_of_finish (h : s'.finish = s.finish) :
    ∀ u, u ≠ Party.worker → (s'.inside u ↔ s.inside u) := by
  intro u hu
  cases u with
  | owner => simp only [inside, h]
  | worker => exact absurd rfl hu

theorem inside_congr (hfinish : s'.finish.inside = s.finish.inside) (hrun : s'.run.inside = s.run.inside) :
    ∀ u, s'.inside u ↔ s.inside u := by
  intro u
  cases u with
  | owner => simp only [inside, hfinish]
  | worker => simp only [inside, hrun]

theorem inside_owner {pc : FinishPc} (hp : s.finish = pc) (hin : pc.inside = true) : s.inside .owner := by
  rw [inside, hp]
  exact hin

theorem Change.guards (hs : Change s a s') (h : s.status.Guards s.inside) : s'.status.Guards s'.inside := by
  cases hs with
  | ask hp =>
    have hout : FinishPc.lock.inside = s.finish.inside := by rw [hp]; rfl
    exact h.congr rfl (inside_congr hout rfl)
  | ownerLock hp hfree =>
    exact h.enter hfree rfl (inside_owner rfl rfl) (inside_worker_of_run rfl)
  | test hp =>
    refine h.congr rfl (inside_congr ?_ rfl)
    rw [hp]
    cases s.running <;> rfl
  | wait hp =>
    have hown : s.inside .owner := inside_owner hp rfl
    exact h.leave hown rfl (by simp [inside, FinishPc.inside]) (inside_worker_of_run rfl)
  | relock hp hfree =>
    exact h.enter hfree rfl (inside_owner rfl rfl) (inside_worker_of_run rfl)
  | ownerUnlock hp =>
    have hown : s.inside .owner := inside_owner hp rfl
    exact h.leave hown rfl (by simp [inside, FinishPc.inside]) (inside_worker_of_run rfl)
  | delete hp =>
    have hout : FinishPc.done.inside = s.finish.inside := by rw [hp]; rfl
    exact h.congr rfl (inside_congr hout rfl)
  | @loop leaves hp =>
    refine h.congr rfl (inside_congr rfl ?_)
    rw [hp]
    cases leaves <;> rfl
  | workerLock hp hfree =>
    exact h.enter hfree rfl (by simp [inside, RunPc.inside]) (inside_owner_of_finish rfl)
  | clearRunning hp =>
    have hin : RunPc.unlock.inside = s.run.inside := by rw [hp]; rfl
    exact h.congr rfl (inside_congr rfl hin)
  | workerUnlock hp =>
    have hworker : s.inside .worker := by
      rw [inside, hp]
      rfl
    exact h.leave hworker rfl (by simp [inside, RunPc.inside]) (inside_owner_of_finish rfl)
  | notify hp =>
    have hout : RunPc.exited.inside = s.run.inside := by rw [hp]; rfl
    exact h.congr rfl (inside_congr rfl hout)
  | spuriousWake => exact h.congr rfl (fun u => Iff.rfl)

theorem Change.running (hs : Change s a s') (h : s.running = s.run.live) : s'.running = s'.run.live := by
  cases hs with
  | @loop leaves hp =>
    rw [hp] at h
    cases leaves <;> exact h
  | workerLock hp hfree =>
    rw [hp] at h
    exact h
  | clearRunning hp => rfl
  | workerUnlock hp =>
    rw [hp] at h
    exact h
  | notify hp =>
    rw [hp] at h
    exact h
  | _ => exact h

theorem Change.deleted_iff (hs : Change s a s') (h : s.deleted = true ↔ s.finish = .done) :
    s'.deleted = true ↔ s'.finish = .done := by
  cases hs with
  | test hp =>
    rw [hp] at h
    cases hr : s.running <;> simpa [hr] using h
  | delete hp => simp
  | ask hp | ownerLock hp hfree | wait hp | relock hp hfree | ownerUnlock hp =>
    rw [hp] at h
    simpa using h
  | _ => exact h

theorem Placed.late_of_test (h : s.Placed) (hp : s.finish = .test) (hstop : s.running = false) :
    s.run = .notify ∨ s.run = .exited := by
  have hown : s.inside .owner := inside_owner hp rfl
  have hlive : s.run.live = false := by rw [← h.running, hstop]
  have hout : s.run.inside ≠ true := by
    intro hin
    have hworker : s.inside .worker := hin
    cases h.guards.unique hown hworker
  cases hr : s.run with
  | notify => exact Or.inl rfl
  | exited => exact Or.inr rfl
  | _ => simp [hr, RunPc.live, RunPc.inside] at hlive hout

theorem Change.late (hs : Change s a s') (h : s.Placed) :
    s'.finish.seen = true → s'.run = .notify ∨ s'.run = .exited := by
  intro hseen
  cases hs with
  | test hp =>
    cases hr : s.running with
    | false => exact h.late_of_test hp hr
    | true => simp [hr, FinishPc.seen] at hseen
  | ownerUnlock hp | delete hp =>
    have hbefore : s.finish.seen = true := by rw [hp]; rfl
    exact h.seen hbefore
  | ask hp | ownerLock hp hfree | wait hp | relock hp hfree => simp [FinishPc.seen] at hseen
  | workerUnlock hp => exact Or.inl rfl
  | notify hp => exact Or.inr rfl
  | loop hp | workerLock hp hfree | clearRunning hp =>
    have hlate := h.seen hseen
    simp [hp] at hlate
  | spuriousWake => exact h.seen hseen

theorem Placed.step (h : s.Placed) (hs : step c s a = some s') : s'.Placed := by
  have hc := step_change hs
  exact ⟨hc.guards h.guards, hc.running h.running, hc.late h, hc.deleted_iff h.deleted⟩

/-- The object is deleted only when the worker has notified for the last time. -/
def NotifiedFirst (s : StopHandshake) : StopAction → Prop
  | .owner => s.finish = .delete → s.run = .exited
  | .worker _ | .spuriousWake => True

instance (s : StopHandshake) : (a : StopAction) → Decidable (s.NotifiedFirst a)
  | .owner => inferInstanceAs (Decidable (s.finish = .delete → s.run = .exited))
  | .worker _ | .spuriousWake => .isTrue trivial

structure Unharmed (s : StopHandshake) : Prop where
  placed : s.Placed
  untouched : s.touched = false
  gone : s.deleted = true → s.run = .exited

/-- Deleted under the worker, which has one step to go. -/
structure Outlived (s : StopHandshake) : Prop where
  deleted : s.deleted = true
  gone : s.finish = .done
  late : s.run = .notify ∨ s.touched = true

theorem stepOwner_keeps (hs : s.stepOwner = some s') :
    s'.run = s.run ∧ s'.touched = s.touched ∧ (s.finish ≠ .delete → s'.deleted = s.deleted) := by
  cases stepOwner_change hs with
  | delete hp => exact ⟨rfl, rfl, fun hlive => absurd hp hlive⟩
  | _ => exact ⟨rfl, rfl, fun _ => rfl⟩

theorem stepWorker_touched (hs : s.stepWorker c leaves = some s') :
    s.run ≠ .exited ∧ s'.deleted = s.deleted ∧ s'.finish = s.finish ∧
      s'.touched = (s.touched || s.deleted) := by
  cases stepWorker_change hs with
  | loop hp | workerLock hp hfree | clearRunning hp | workerUnlock hp | notify hp =>
    exact ⟨by simp [hp], rfl, rfl, rfl⟩

theorem step_unharmed (h : s.Unharmed) (hok : s.NotifiedFirst a) (hs : step c s a = some s') :
    s'.Unharmed := by
  cases a with
  | owner =>
    obtain ⟨hrun, htouched, hkept⟩ := stepOwner_keeps hs
    refine ⟨h.placed.step hs, htouched.trans h.untouched, fun hd => ?_⟩
    rw [hrun]
    by_cases hdel : s.finish = .delete
    · exact hok hdel
    · have hbefore : s.deleted = true := (hkept hdel).symm.trans hd
      exact h.gone hbefore
  | worker leaves =>
    obtain ⟨hlive, hdel, -, htouched⟩ := stepWorker_touched hs
    have hnot : s.deleted = false := by
      cases hd : s.deleted with
      | false => rfl
      | true => exact absurd (h.gone hd) hlive
    refine ⟨h.placed.step hs, by rw [htouched, h.untouched, hnot]; rfl, fun hd => ?_⟩
    rw [hdel, hnot] at hd
    cases hd
  | spuriousWake =>
    have hplaced := h.placed.step hs
    simp only [step, Option.ite_none_right_eq_some, Option.some.injEq] at hs
    obtain ⟨-, rfl⟩ := hs
    exact ⟨hplaced, h.untouched, h.gone⟩

theorem outlived_of_not_first (h : s.Unharmed) (hno : ¬ s.NotifiedFirst a) (hs : step c s a = some s') :
    s'.Outlived := by
  cases a with
  | owner =>
    obtain ⟨hdelete, hlate⟩ := Classical.not_imp.mp hno
    have hseen : s.finish.seen = true := by rw [hdelete]; rfl
    have hnotify : s.run = .notify := (h.placed.seen hseen).resolve_right hlate
    simp only [step, stepOwner, hdelete, Option.some.injEq] at hs
    subst hs
    exact ⟨rfl, rfl, Or.inl hnotify⟩
  | worker leaves => exact absurd True.intro hno
  | spuriousWake => exact absurd True.intro hno

theorem step_outlived (h : s.Outlived) (hs : step c s a = some s') : s'.Outlived := by
  cases a with
  | owner => simp [step, stepOwner, h.gone] at hs
  | worker leaves =>
    obtain ⟨-, hdel, hfinish, htouched⟩ := stepWorker_touched hs
    have htouch : s'.touched = true := by rw [htouched, h.deleted, Bool.or_true]
    exact ⟨hdel.trans h.deleted, hfinish.trans h.gone, Or.inr htouch⟩
  | spuriousWake =>
    simp only [step, Option.ite_none_right_eq_some, Option.some.injEq] at hs
    obtain ⟨-, rfl⟩ := hs
    exact ⟨h.deleted, h.gone, h.late⟩

theorem Outlived.touches (h : s.Outlived) :
    s.touched = true ∨ ∃ t, step c s (.worker true) = some t ∧ t.touched = true := by
  refine h.late.symm.imp id (fun hnotify => ?_)
  refine ⟨{ s.touch with status := s.status.notifyAll, run := .exited }, ?_, ?_⟩
  · simp only [step, stepWorker, hnotify]
  · simp only [touch, h.deleted, Bool.or_true]

/-- Whichever class it is, the worker leaves the deleted object alone if the
deletion comes after its `notify_all`, and it touches the object otherwise. -/
theorem untouched_of_notified (c : Worked) (as : List StopAction) :
    (Guarded (step c) NotifiedFirst new as → Along (step c) (fun s => s.touched = false) new as) ∧
      ∀ s, Lts.run (step c) new as = some s → ¬ Guarded (step c) NotifiedFirst new as →
        s.touched = true ∨ ∃ t, step c s (.worker true) = some t ∧ t.touched = true := by
  have hnew : new.Unharmed := ⟨placed_new, rfl, fun hd => by cases hd⟩
  constructor
  · intro hg
    have halong := hg.along Unharmed (fun _ _ _ h hok hs => step_unharmed h hok hs) hnew
    exact halong.mono (fun s h => h.untouched)
  · intro s hr hno
    have hout : s.Outlived := last_of_not_guarded Unharmed Outlived
      (fun _ _ _ h hok hs => step_unharmed h hok hs) (fun _ _ _ h hok hs => outlived_of_not_first h hok hs)
      (fun _ _ _ h hs => step_outlived h hs) hnew hr hno
    exact hout.touches

def orderly : List StopAction :=
  List.replicate 4 .owner ++ List.replicate 5 (.worker true) ++ List.replicate 4 .owner

theorem untouched_of_notified_orderly :
    Along (step .btPhysics) (fun s => s.touched = false) new orderly ∧
      (Lts.run (step .btPhysics) new orderly).map deleted = some true :=
  ⟨(untouched_of_notified .btPhysics orderly).1 (by decide), by decide⟩

/-- The worker unlocks, the owner finds `m_running` false without having waited
and deletes the object, and the worker notifies its condition variable. -/
def lateNotify : List StopAction :=
  [.owner, .worker true, .worker true, .worker true, .worker true,
    .owner, .owner, .owner, .owner, .worker true]

theorem lateNotify_touched (c : Worked) : (Lts.run (step c) new lateNotify).map touched = some true := by
  cases c <;> decide

theorem not_untouched : ¬ ∀ c as, Along (step c) (fun s => s.touched = false) new as := by
  intro h
  obtain ⟨s, hr, ht⟩ := Option.map_eq_some_iff.mp (lateNotify_touched .btPhysics)
  have hfalse : s.touched = false := (h .btPhysics lateNotify).last hr
  rw [ht] at hfalse
  cases hfalse

end StopHandshake

end Quintses
