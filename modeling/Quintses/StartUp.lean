import Quintses.Connection
import Quintses.Lts
import Quintses.Monitor

/-! The start of a `RemoteServer`: `addClient` starts the thread of `run`, waits
for `m_running` and arms the first read, while the new thread already serves
`m_service`. -/

namespace Quintses

open Lts

/-- Where the client's thread is in `addClient`, from `m_running = false` on;
the lock is held until the function returns. -/
inductive AddClientPc
  | clearRunning
  | launch
  | lock
  | test
  | wait
  | waiting
  | asyncRead
  | unlock
  | returned
  deriving DecidableEq

inductive ServicePc
  | notStarted
  | lock
  | setRunning
  | unlock
  | notify
  | service
  | serverClosed
  | relock
  | clearRunning
  | finalUnlock
  | finalNotify
  | exited
  /-- An exception has left `run`, which ends the program. -/
  | terminated
  deriving DecidableEq

inductive ClientThread
  | client
  | service
  deriving DecidableEq

structure StartUp where
  client : AddClientPc
  thread : ServicePc
  status : Monitor ClientThread
  running : Bool
  /-- The `writeMsg` handlers that wait in `m_service`. -/
  posted : List ServerMsg
  reading : Bool
  /-- `m_service.stop()` was called: by `waitForTermination` or by a handler whose
  read or write failed. -/
  stopped : Bool

inductive Completion
  | write (fails : Bool)
  /-- The read completes on a connection that delivers these bytes. -/
  | read (s : List UInt8)

inductive StartUpAction
  | client
  | pushMessage (msg : ServerMsg)
  | waitForTermination
  | service (c : Completion)
  | spuriousWake

def AddClientPc.armed : AddClientPc → Bool
  | .unlock | .returned => true
  | .clearRunning | .launch | .lock | .test | .wait | .waiting | .asyncRead => false

def AddClientPc.awaits : AddClientPc → Bool
  | .test | .wait | .waiting => true
  | .clearRunning | .launch | .lock | .asyncRead | .unlock | .returned => false

/-- `m_service.run()` has returned. -/
def ServicePc.closed : ServicePc → Bool
  | .serverClosed | .relock | .clearRunning | .finalUnlock | .finalNotify | .exited => true
  | .notStarted | .lock | .setRunning | .unlock | .notify | .service | .terminated => false

/-- `m_running` was true and is false again. -/
def ServicePc.cleared : ServicePc → Bool
  | .finalUnlock | .finalNotify | .exited => true
  | .notStarted | .lock | .setRunning | .unlock | .notify | .service | .serverClosed | .relock
  | .clearRunning | .terminated => false

namespace StartUp

/-- `m_running` is not initialised. -/
def new (running : Bool) : StartUp := ⟨.clearRunning, .notStarted, .new, running, [], false, false⟩

variable (order : ByteOrder) (s : StartUp)

def stepClient : Option StartUp :=
  match s.client with
  | .clearRunning => some { s with running := false, client := .launch }
  | .launch => some { s with thread := .lock, client := .lock }
  | .lock => (s.status.lock .client).map (fun status => { s with status, client := .test })
  | .test => some { s with client := if s.running then .asyncRead else .wait }
  | .wait => some { s with status := s.status.wait .client, client := .waiting }
  | .waiting => (s.status.relock .client).map (fun status => { s with status, client := .test })
  | .asyncRead => some { s with reading := true, client := .unlock }
  | .unlock => some { s with status := s.status.unlock, client := .returned }
  | .returned => none

def writeMsg (fails : Bool) : Option StartUp :=
  match s.posted with
  | [] => none
  | _ :: posted => some { s with posted, stopped := s.stopped || fails }

def readMsg (bytes : List UInt8) : Option StartUp :=
  if s.reading then
    match RemoteServer.round order bytes with
    | .next _ _ => some s
    | .stop => some { s with reading := false, stopped := true }
    | .escaped _ => some { s with thread := .terminated }
  else none

def serve (c : Completion) : Option StartUp :=
  if s.stopped ∨ (s.posted = [] ∧ s.reading = false) then some { s with thread := .serverClosed }
  else
    match c with
    | .write fails => s.writeMsg fails
    | .read bytes => s.readMsg order bytes

def stepService (c : Completion) : Option StartUp :=
  match s.thread with
  | .notStarted => none
  | .lock => (s.status.lock .service).map (fun status => { s with status, thread := .setRunning })
  | .setRunning => some { s with running := true, thread := .unlock }
  | .unlock => some { s with status := s.status.unlock, thread := .notify }
  | .notify => some { s with status := s.status.notifyAll, thread := .service }
  | .service => s.serve order c
  | .serverClosed => some { s with thread := .relock }
  | .relock => (s.status.lock .service).map (fun status => { s with status, thread := .clearRunning })
  | .clearRunning => some { s with running := false, thread := .finalUnlock }
  | .finalUnlock => some { s with status := s.status.unlock, thread := .finalNotify }
  | .finalNotify => some { s with status := s.status.notifyAll, thread := .exited }
  | .exited => none
  | .terminated => none

def step (s : StartUp) (a : StartUpAction) : Option StartUp :=
  if s.thread = .terminated then none
  else
    match a with
    | .client => s.stepClient
    | .pushMessage msg => if s.client = .returned then some { s with posted := s.posted ++ [msg] } else none
    | .waitForTermination => if s.client = .returned then some { s with stopped := true } else none
    | .service c => s.stepService order c
    | .spuriousWake =>
      if .client ∈ s.status.waiting then some { s with status := s.status.wake .client } else none

/-- The thread reaches `serverClosed` only after a `stop()`, and `addClient` does
not wait any more once `m_running` has been cleared. -/
structure RaceFree (s : StartUp) : Prop where
  stopped : s.thread.closed = true → s.stopped = true
  released : s.thread.cleared = true → s.client.awaits = false

/-- Whenever `m_service.run()` looks for work, `addClient` has armed its read. -/
def ArmedFirst (s : StartUp) : StartUpAction → Prop
  | .service _ => s.thread = .service → s.client.armed = true
  | .client | .pushMessage _ | .waitForTermination | .spuriousWake => True

/-- Until `addClient` has armed its read there is no work, and from then on
there is until `stop()` is called. -/
structure Working (s : StartUp) : Prop where
  idle : s.client.armed = false → s.reading = false ∧ s.posted = [] ∧ s.stopped = false
  busy : s.client.armed = true → s.reading = true ∨ s.stopped = true

structure Started (s : StartUp) : Prop where
  working : s.Working
  stopped : s.thread.closed = true → s.client.armed = true ∧ s.stopped = true

variable {order : ByteOrder} {s s' : StartUp} {a : StartUpAction}

inductive Change (order : ByteOrder) (s : StartUp) : StartUpAction → StartUp → Prop
  | clearRunning (hp : s.client = .clearRunning) :
    Change order s .client { s with running := false, client := .launch }
  | launch (hp : s.client = .launch) : Change order s .client { s with thread := .lock, client := .lock }
  | clientLock (hp : s.client = .lock) (hfree : s.status.holder = none) :
    Change order s .client { s with status := { s.status with holder := some .client }, client := .test }
  | test (hp : s.client = .test) :
    Change order s .client { s with client := if s.running then .asyncRead else .wait }
  | wait (hp : s.client = .wait) :
    Change order s .client { s with status := s.status.wait .client, client := .waiting }
  | relock (hp : s.client = .waiting) (hfree : s.status.holder = none) :
    Change order s .client { s with status := { s.status with holder := some .client }, client := .test }
  | asyncRead (hp : s.client = .asyncRead) :
    Change order s .client { s with reading := true, client := .unlock }
  | clientUnlock (hp : s.client = .unlock) :
    Change order s .client { s with status := s.status.unlock, client := .returned }
  | pushMessage {msg : ServerMsg} (hp : s.client = .returned) :
    Change order s (.pushMessage msg) { s with posted := s.posted ++ [msg] }
  | waitForTermination (hp : s.client = .returned) :
    Change order s .waitForTermination { s with stopped := true }
  | serviceLock {c : Completion} (hp : s.thread = .lock) (hfree : s.status.holder = none) :
    Change order s (.service c)
      { s with status := { s.status with holder := some .service }, thread := .setRunning }
  | setRunning {c : Completion} (hp : s.thread = .setRunning) :
    Change order s (.service c) { s with running := true, thread := .unlock }
  | serviceUnlock {c : Completion} (hp : s.thread = .unlock) :
    Change order s (.service c) { s with status := s.status.unlock, thread := .notify }
  | notify {c : Completion} (hp : s.thread = .notify) :
    Change order s (.service c) { s with status := s.status.notifyAll, thread := .service }
  | serve {c : Completion} {s' : StartUp} (hp : s.thread = .service) (hs : s.serve order c = some s') :
    Change order s (.service c) s'
  | serverClosed {c : Completion} (hp : s.thread = .serverClosed) :
    Change order s (.service c) { s with thread := .relock }
  | serviceRelock {c : Completion} (hp : s.thread = .relock) (hfree : s.status.holder = none) :
    Change order s (.service c)
      { s with status := { s.status with holder := some .service }, thread := .clearRunning }
  | serviceClear {c : Completion} (hp : s.thread = .clearRunning) :
    Change order s (.service c) { s with running := false, thread := .finalUnlock }
  | finalUnlock {c : Completion} (hp : s.thread = .finalUnlock) :
    Change order s (.service c) { s with status := s.status.unlock, thread := .finalNotify }
  | finalNotify {c : Completion} (hp : s.thread = .finalNotify) :
    Change order s (.service c) { s with status := s.status.notifyAll, thread := .exited }
  | spuriousWake : Change order s .spuriousWake { s with status := s.status.wake .client }

theorem stepClient_change (h : s.stepClient = some s') : Change order s .client s' := by
  unfold stepClient at h
  split at h
  case h_1 hp => cases h; exact .clearRunning hp
  case h_2 hp => cases h; exact .launch hp
  case h_3 hp =>
    simp only [Option.map_eq_some_iff, Monitor.lock_eq_some] at h
    obtain ⟨m, ⟨hfree, rfl⟩, rfl⟩ := h
    exact .clientLock hp hfree
  case h_4 hp => cases h; exact .test hp
  case h_5 hp => cases h; exact .wait hp
  case h_6 hp =>
    simp only [Option.map_eq_some_iff, Monitor.relock_eq_some] at h
    obtain ⟨m, ⟨-, hfree, rfl⟩, rfl⟩ := h
    exact .relock hp hfree
  case h_7 hp => cases h; exact .asyncRead hp
  case h_8 hp => cases h; exact .clientUnlock hp
  case h_9 hp => cases h

theorem stepService_change {c : Completion} (h : s.stepService order c = some s') :
    Change order s (.service c) s' := by
  unfold stepService at h
  split at h
  case h_1 hp => cases h
  case h_2 hp =>
    simp only [Option.map_eq_some_iff, Monitor.lock_eq_some] at h
    obtain ⟨m, ⟨hfree, rfl⟩, rfl⟩ := h
    exact .serviceLock hp hfree
  case h_3 hp => cases h; exact .setRunning hp
  case h_4 hp => cases h; exact .serviceUnlock hp
  case h_5 hp => cases h; exact .notify hp
  case h_6 hp => exact .serve hp h
  case h_7 hp => cases h; exact .serverClosed hp
  case h_8 hp =>
    simp only [Option.map_eq_some_iff, Monitor.lock_eq_some] at h
    obtain ⟨m, ⟨hfree, rfl⟩, rfl⟩ := h
    exact .serviceRelock hp hfree
  case h_9 hp => cases h; exact .serviceClear hp
  case h_10 hp => cases h; exact .finalUnlock hp
  case h_11 hp => cases h; exact .finalNotify hp
  case h_12 hp => cases h
  case h_13 hp => cases h

theorem step_change (h : step order s a = some s') : Change order s a s' := by
  simp only [step, Option.ite_none_left_eq_some] at h
  obtain ⟨-, h⟩ := h
  cases a with
  | client => exact stepClient_change h
  | service c => exact stepService_change h
  | pushMessage msg =>
    simp only [Option.ite_none_right_eq_some, Option.some.injEq] at h
    obtain ⟨hp, rfl⟩ := h
    exact .pushMessage hp
  | waitForTermination =>
    simp only [Option.ite_none_right_eq_some, Option.some.injEq] at h
    obtain ⟨hp, rfl⟩ := h
    exact .waitForTermination hp
  | spuriousWake =>
    simp only [Option.ite_none_right_eq_some, Option.some.injEq] at h
    obtain ⟨-, rfl⟩ := h
    exact .spuriousWake

theorem started_new (running : Bool) : (new running).Started :=
  ⟨⟨fun _ => ⟨rfl, rfl, rfl⟩, fun h => (by cases h)⟩, fun h => (by cases h)⟩

theorem cleared_closed (h : s.thread.cleared = true) : s.thread.closed = true := by
  cases hp : s.thread <;> simp [hp, ServicePc.cleared, ServicePc.closed] at h ⊢

theorem Started.raceFree (h : s.Started) : s.RaceFree := by
  refine ⟨fun hc => (h.stopped hc).2, fun hc => ?_⟩
  have harmed := (h.stopped (cleared_closed hc)).1
  cases hp : s.client <;> simp [hp, AddClientPc.armed, AddClientPc.awaits] at harmed ⊢

/-- What a round of `m_service.run()` does to the work, and when it returns. -/
theorem serve_spec {c : Completion} (hs : s.serve order c = some s') :
    s'.client = s.client ∧ (s.posted = [] → s.reading = false → s' = { s with thread := .serverClosed }) ∧
      (s.stopped = true → s'.stopped = true) ∧
      (s.reading = true → s'.reading = true ∨ s'.stopped = true) ∧
      (s'.thread.closed = true →
        s.stopped = true ∨ (s.posted = [] ∧ s.reading = false) ∨ s.thread.closed = true) := by
  unfold serve at hs
  by_cases hout : s.stopped ∨ (s.posted = [] ∧ s.reading = false)
  · simp only [hout, if_true, Option.some.injEq] at hs
    subst hs
    refine ⟨rfl, fun _ _ => rfl, id, Or.inl, fun _ => ?_⟩
    rcases hout with hstop | hidle
    · exact Or.inl hstop
    · exact Or.inr (Or.inl hidle)
  · have hwork : s.posted = [] → s.reading = false → False := fun hp hr => hout (Or.inr ⟨hp, hr⟩)
    simp only [hout, if_false] at hs
    cases c with
    | write fails =>
      simp only [writeMsg] at hs
      split at hs
      · cases hs
      · cases hs
        exact ⟨rfl, fun hp hr => absurd hr (hwork hp), fun hstop => by simp [hstop], Or.inl,
          fun hc => Or.inr (Or.inr hc)⟩
    | read bytes =>
      simp only [readMsg] at hs
      split_ifs at hs with hreading
      split at hs
      · cases hs
        exact ⟨rfl, fun hp hr => absurd hr (hwork hp), id, Or.inl, fun hc => Or.inr (Or.inr hc)⟩
      · cases hs
        exact ⟨rfl, fun hp hr => absurd hr (hwork hp), fun _ => rfl, fun _ => Or.inr rfl,
          fun hc => Or.inr (Or.inr hc)⟩
      · cases hs
        exact ⟨rfl, fun hp hr => absurd hr (hwork hp), id, Or.inl, fun hc => by cases hc⟩

theorem Working.step (h : s.Working) (hs : step order s a = some s') : s'.Working := by
  cases step_change hs with
  | clearRunning hp | launch hp | clientLock hp hfree | wait hp | relock hp hfree =>
    have hunarmed : s.client.armed = false := by rw [hp]; rfl
    exact ⟨fun _ => h.idle hunarmed, fun harmed => by cases harmed⟩
  | test hp =>
    have hunarmed : s.client.armed = false := by rw [hp]; rfl
    refine ⟨fun _ => h.idle hunarmed, fun harmed => ?_⟩
    cases hr : s.running <;> simp [hr, AddClientPc.armed] at harmed
  | asyncRead hp => exact ⟨fun hunarmed => (by cases hunarmed), fun _ => Or.inl rfl⟩
  | clientUnlock hp =>
    have harmed : s.client.armed = true := by rw [hp]; rfl
    exact ⟨fun hunarmed => (by cases hunarmed), fun _ => h.busy harmed⟩
  | pushMessage hp =>
    refine ⟨fun hunarmed => ?_, h.busy⟩
    simp [hp, AddClientPc.armed] at hunarmed
  | waitForTermination hp =>
    refine ⟨fun hunarmed => ?_, fun _ => Or.inr rfl⟩
    simp [hp, AddClientPc.armed] at hunarmed
  | serve hp hserve =>
    obtain ⟨hclient, hidle, hstopped, hreading, -⟩ := serve_spec hserve
    constructor
    · intro hunarmed
      rw [hclient] at hunarmed
      obtain ⟨hr, hposted, hstop⟩ := h.idle hunarmed
      rw [hidle hposted hr]
      exact ⟨hr, hposted, hstop⟩
    · intro harmed
      rw [hclient] at harmed
      rcases h.busy harmed with hr | hstop
      · exact hreading hr
      · exact Or.inr (hstopped hstop)
  | _ => exact ⟨h.idle, h.busy⟩

theorem step_started (h : s.Started) (hok : s.ArmedFirst a) (hs : step order s a = some s') : s'.Started := by
  refine ⟨h.working.step hs, fun hclosed => ?_⟩
  cases step_change hs with
  | clearRunning hp | clientLock hp hfree | test hp | wait hp | relock hp hfree | asyncRead hp =>
    -- the service does not return while the read is not armed
    have harmed := (h.stopped hclosed).1
    rw [hp] at harmed
    cases harmed
  | clientUnlock hp => exact ⟨rfl, (h.stopped hclosed).2⟩
  | waitForTermination hp => exact ⟨(h.stopped hclosed).1, rfl⟩
  | launch hp | serviceLock hp hfree | setRunning hp | serviceUnlock hp | notify hp => cases hclosed
  | serve hp hserve =>
    have harmed : s.client.armed = true := hok hp
    obtain ⟨hclient, -, hstopped, -, hreturned⟩ := serve_spec hserve
    have hstop : s.stopped = true := by
      rcases hreturned hclosed with hstop | ⟨-, hidle⟩ | hbefore
      · exact hstop
      · exact (h.working.busy harmed).resolve_left (by simp [hidle])
      · simp [hp, ServicePc.closed] at hbefore
    exact ⟨by rw [hclient]; exact harmed, hstopped hstop⟩
  | serverClosed hp | serviceRelock hp hfree | serviceClear hp | finalUnlock hp | finalNotify hp =>
    have hbefore : s.thread.closed = true := by rw [hp]; rfl
    exact h.stopped hbefore
  | pushMessage hp | spuriousWake => exact h.stopped hclosed

theorem not_raceFree_of_unarmed (h : s.Started) (hno : ¬ s.ArmedFirst a) (hs : step order s a = some s') :
    ¬ s'.RaceFree := by
  cases a with
  | service c =>
    obtain ⟨hserve, hunarmed⟩ := Classical.not_imp.mp hno
    obtain ⟨hreading, hposted, hstopped⟩ := h.working.idle (by simpa using hunarmed)
    have hclosed : s' = { s with thread := .serverClosed } := by
      simp only [step, stepService, hserve, Option.ite_none_left_eq_some] at hs
      exact (serve_spec hs.2).2.1 hposted hreading
    intro hfree
    rw [hclosed] at hfree
    have hstop : s.stopped = true := hfree.stopped rfl
    rw [hstopped] at hstop
    cases hstop
  | client => exact absurd True.intro hno
  | pushMessage msg => exact absurd True.intro hno
  | waitForTermination => exact absurd True.intro hno
  | spuriousWake => exact absurd True.intro hno

/-- The start is free of races exactly when `addClient` arms its read before
`m_service.run()` looks for work. -/
theorem race_free_iff (order : ByteOrder) (running : Bool) (as : List StartUpAction) :
    Along (step order) RaceFree (new running) as ↔ Guarded (step order) ArmedFirst (new running) as :=
  along_iff_guarded Started (fun _ h => h.raceFree) (fun _ _ _ h hok hs => step_started h hok hs)
    (fun _ _ _ h hno hs => not_raceFree_of_unarmed h hno hs) (started_new running) as

/-- The thread runs from its start into `serverClosed` before `addClient` has
taken the lock. -/
def overtaken : List StartUpAction :=
  [.client, .client] ++ List.replicate 5 (.service (.write false))

/-- It goes on to its end, and then `addClient` tests `m_running`. -/
def tooLate : List StartUpAction :=
  overtaken ++ List.replicate 5 (.service (.write false)) ++ [.client, .client]

/-- Nobody sets `m_running` again once it was cleared. -/
def Abandoned (s : StartUp) : Prop :=
  s.thread.cleared = true ∧ s.running = false ∧ (s.client = .lock ∨ s.client.awaits = true)

theorem step_abandoned (h : s.Abandoned) (hs : step order s a = some s') : s'.Abandoned := by
  obtain ⟨hcleared, hrunning, hclient⟩ := h
  cases step_change hs with
  | clientLock hp hfree | wait hp | relock hp hfree => exact ⟨hcleared, hrunning, Or.inr rfl⟩
  | test hp =>
    refine ⟨hcleared, hrunning, Or.inr ?_⟩
    simp [hrunning, AddClientPc.awaits]
  | clearRunning hp | launch hp | asyncRead hp | clientUnlock hp | pushMessage hp | waitForTermination hp =>
    simp [hp, AddClientPc.awaits] at hclient
  | finalUnlock hp | finalNotify hp => exact ⟨rfl, hrunning, hclient⟩
  | serviceLock hp hfree | setRunning hp | serviceUnlock hp | notify hp | serve hp hserve | serverClosed hp
  | serviceRelock hp hfree | serviceClear hp =>
    simp [hp, ServicePc.cleared] at hcleared
  | spuriousWake => exact ⟨hcleared, hrunning, hclient⟩

/-- An `addClient` that comes too late waits for ever, however often it is woken. -/
theorem along_abandoned (h : s.Abandoned) (as : List StartUpAction) :
    Along (step order) (fun s => s.client ≠ .returned) s as := by
  have halong : Along (step order) Abandoned s as :=
    along_of_step Abandoned (fun _ _ _ h hs => step_abandoned h hs) h as
  refine halong.mono (fun t ht he => ?_)
  have hc := ht.2.2
  simp [he, AddClientPc.awaits] at hc

theorem not_race_free :
    (¬ ∀ order running as, Along (step order) (fun s => s.thread.closed = true → s.stopped = true)
      (new running) as) ∧
    (¬ ∀ order running as, Along (step order) (fun s => s.thread.cleared = true → s.client.awaits = false)
      (new running) as) := by
  constructor
  · intro h
    have hlast : (run (step .little) (new false) overtaken).map
        (fun s => (s.thread.closed, s.stopped)) = some (true, false) := by decide
    obtain ⟨s, hr, he⟩ := Option.map_eq_some_iff.mp hlast
    obtain ⟨hclosed, hstopped⟩ := Prod.mk.inj he
    have hstop : s.stopped = true := (h .little false overtaken).last hr hclosed
    rw [hstopped] at hstop
    cases hstop
  · intro h
    have hlast : (run (step .little) (new false) tooLate).map
        (fun s => (s.thread.cleared, s.client.awaits)) = some (true, true) := by decide
    obtain ⟨s, hr, he⟩ := Option.map_eq_some_iff.mp hlast
    obtain ⟨hcleared, hawaits⟩ := Prod.mk.inj he
    have hnot : s.client.awaits = false := (h .little false tooLate).last hr hcleared
    rw [hawaits] at hnot
    cases hnot

end StartUp

end Quintses
