import Quintses.RemoteGame

/-! The end of `qntcli`. From start to end one of its threads can go on, and once
`m_finished` is set they come to their end in a bounded number of steps. The
synchronous reads and writes of a handler are part of its step: they complete,
with the bytes or with an error. `m_service.stop()` does not interrupt them, so a
server that sends half of a message and keeps the connection open is outside of
this. -/

namespace Quintses

open Lts

/-- Where the thread holds the lock of `m_status_mutex`. -/
def AddClientPc.inside : AddClientPc → Bool
  | .test | .wait | .asyncRead | .unlock => true
  | .clearRunning | .launch | .lock | .waiting | .returned => false

def ServicePc.inside : ServicePc → Bool
  | .setRunning | .unlock | .clearRunning | .finalUnlock => true
  | _ => false

def RemotePc.inside : RemotePc → Bool
  | .test | .wait | .unlock => true
  | _ => false

/-- The thread is in `run`, between the assignments to `m_running`. -/
def ServicePc.up : ServicePc → Bool
  | .unlock | .notify | .service | .serverClosed | .relock | .clearRunning => true
  | _ => false

/-- The thread has not yet called `notify_all` for the first time. -/
def ServicePc.starting : ServicePc → Bool
  | .lock | .setRunning | .unlock | .notify => true
  | _ => false

/-- `m_service` is stopped. -/
def RemotePc.stopping : RemotePc → Bool
  | .lock | .test | .wait | .waiting | .unlock | .ended => true
  | _ => false

def ServicePc.left : ServicePc → Nat
  | .exited | .terminated => 0
  | .finalNotify => 1
  | .finalUnlock => 2
  | .clearRunning => 3
  | .relock => 4
  | .serverClosed => 5
  | .service => 6
  | .notify => 7
  | .unlock => 8
  | .setRunning => 9
  | .lock => 10
  | .notStarted => 11

/-- The way out of the main loop once `m_finished` is set. -/
def RemotePc.left (asleep : Bool) : RemotePc → Nat
  | .ended => 0
  | .unlock => 1
  | .wait => 3
  | .test => 4
  | .lock => 5
  | .waiting => if asleep then 2 else 5
  | .stop => 6
  | .loopHead => 7
  | .drawing => 8
  | .loadPlayer => 9
  | .events => 10
  | .addClient | .draining => 11

def RemoteAction.ofThreads : RemoteAction → Bool
  | .main _ | .service _ => true
  | .spuriousWake => false

def RemoteAction.wakes : RemoteAction → Bool
  | .spuriousWake => true
  | .main _ | .service _ => false

namespace RemoteGame

variable {order : PopOrder} {bytes : ByteOrder} {setup : LocalGame.Setup} {n n' : RemoteGame} {a : RemoteAction}

/-- `m_service.run()` looks for work only after `addClient` has armed its read. -/
def ArmedFirst (n : RemoteGame) : RemoteAction → Prop
  | .service _ => n.server.thread = .service → n.server.client.armed = true
  | .main _ | .spuriousWake => True

instance (n : RemoteGame) (a : RemoteAction) : Decidable (n.ArmedFirst a) :=
  match a with
  | .service _ => inferInstanceAs (Decidable (n.server.thread = .service → n.server.client.armed = true))
  | .main _ | .spuriousWake => inferInstanceAs (Decidable True)

/-- Unless the program has ended one of its threads can take a step. -/
def CanGoOn (order : PopOrder) (bytes : ByteOrder) (setup : LocalGame.Setup) (n : RemoteGame) : Prop :=
  n.server.thread ≠ .terminated → n.pc ≠ .ended →
    ∃ a : RemoteAction, a.ofThreads = true ∧ (step order bytes setup n a).isSome

def Inside (n : RemoteGame) : ClientThread → Prop
  | .client => n.server.client.inside = true ∨ n.pc.inside = true
  | .service => n.server.thread.inside = true

/-- Where the threads are with each other. -/
structure Paired (n : RemoteGame) : Prop where
  started : n.server.Started
  guards : n.server.status.Guards n.Inside
  phase : n.pc = .addClient ↔ n.server.client ≠ .returned
  launched : n.server.thread = .notStarted ↔ n.server.client = .clearRunning ∨ n.server.client = .launch
  flag : n.server.client ≠ .clearRunning → n.server.running = n.server.thread.up
  tested : (n.server.client = .wait → n.server.running = false) ∧ (n.pc = .wait → n.server.running = true)
  asleep : .client ∈ n.server.status.waiting → n.server.client = .waiting ∧ n.server.thread.starting = true ∨
    n.pc = .waiting ∧ n.server.thread ≠ .notStarted ∧ n.server.thread ≠ .exited
  stopped : n.pc.stopping = true → n.server.stopped = true

theorem paired_init (running : Bool) (incoming : List UInt8) : (init running incoming).Paired where
  started := StartUp.started_new running
  guards t := by
    cases t <;>
      simp [init, StartUp.new, Monitor.new, Inside, AddClientPc.inside, ServicePc.inside, RemotePc.inside]
  phase := by simp [init, StartUp.new]
  launched := by simp [init, StartUp.new]
  flag h := absurd rfl h
  tested := by simp [init, StartUp.new]
  asleep h := by cases h
  stopped h := by cases h

theorem Paired.returned (h : n.Paired) (hpc : n.pc ≠ .addClient) : n.server.client = .returned := by
  by_contra hno
  exact hpc (h.phase.mpr hno)

/-- In `addClient` nobody sleeps but in its own `wait`. -/
theorem Paired.awake (h : n.Paired) (hclient : n.server.client ≠ .waiting) (hpc : n.pc ≠ .waiting) :
    .client ∉ n.server.status.waiting := by
  intro hm
  rcases h.asleep hm with ⟨he, _⟩ | ⟨he, _⟩
  · exact hclient he
  · exact hpc he

/-- A thread that is not up while `addClient` waits for it is about to be. -/
theorem Paired.starting (h : n.Paired) (hlive : n.server.thread ≠ .terminated) (hp : n.server.client = .wait) :
    n.server.thread.starting = true := by
  have hdown : n.server.thread.up = false := (h.flag (by simp [hp])).symm.trans (h.tested.1 hp)
  have hlaunched := h.launched
  have hstopped := h.started.stopped
  cases hthread : n.server.thread <;>
    simp [hthread, hp, ServicePc.up, ServicePc.starting, ServicePc.closed, AddClientPc.armed]
      at hdown hlaunched hstopped hlive ⊢

theorem guards_enter (h : n.server.status.Guards n.Inside) (hfree : n.server.status.holder = none)
    (hholder : n'.server.status.holder = some .client) (hin : n'.Inside .client)
    (hthread : n'.server.thread = n.server.thread) : n'.server.status.Guards n'.Inside := by
  refine h.enter hfree hholder hin (fun t ht => ?_)
  cases t with
  | client => exact absurd rfl ht
  | service => simp [Inside, hthread]

theorem guards_leave (h : n.server.status.Guards n.Inside) (hin : n.Inside .client)
    (hholder : n'.server.status.holder = none) (hout : ¬ n'.Inside .client)
    (hthread : n'.server.thread = n.server.thread) : n'.server.status.Guards n'.Inside := by
  refine h.leave hin hholder hout (fun t ht => ?_)
  cases t with
  | client => exact absurd rfl ht
  | service => simp [Inside, hthread]

theorem guards_stay (h : n.server.status.Guards n.Inside)
    (hholder : n'.server.status.holder = n.server.status.holder) (hmain : n'.Inside .client ↔ n.Inside .client)
    (hthread : n'.server.thread.inside = n.server.thread.inside) : n'.server.status.Guards n'.Inside := by
  refine h.congr hholder (fun t => ?_)
  cases t with
  | client => exact hmain
  | service => simp [Inside, hthread]

/-- The main thread is in `addClient` until that returns. -/
theorem paired_addClient (hpc : n'.pc = if n'.server.client = .returned then .loadPlayer else .addClient)
    (hstarted : n'.server.Started) (hguards : n'.server.status.Guards n'.Inside)
    (hlaunched : n'.server.thread = .notStarted ↔ n'.server.client = .clearRunning ∨ n'.server.client = .launch)
    (hflag : n'.server.client ≠ .clearRunning → n'.server.running = n'.server.thread.up)
    (htested : n'.server.client = .wait → n'.server.running = false)
    (hasleep : .client ∈ n'.server.status.waiting →
      n'.server.client = .waiting ∧ n'.server.thread.starting = true) : n'.Paired where
  started := hstarted
  guards := hguards
  phase := by
    rw [hpc]
    by_cases hc : n'.server.client = .returned <;> simp [hc]
  launched := hlaunched
  flag := hflag
  tested := by
    refine ⟨htested, fun hw => ?_⟩
    rw [hpc] at hw
    split at hw <;> cases hw
  asleep hm := Or.inl (hasleep hm)
  stopped hstop := by
    rw [hpc] at hstop
    split at hstop <;> cases hstop

theorem Paired.client {server : StartUp} (h : n.Paired) (hlive : n.server.thread ≠ .terminated)
    (hpc : n.pc = .addClient) (hstarted : server.Started) (hs : StartUp.step bytes n.server .client = some server) :
    Paired { n with server, pc := if server.client = .returned then .loadPlayer else .addClient } := by
  have hlaunched := h.launched
  have hawake (hc : n.server.client ≠ .waiting) : .client ∉ n.server.status.waiting := h.awake hc (by simp [hpc])
  cases StartUp.step_change hs with
  | clearRunning hp =>
    have hthread : n.server.thread = .notStarted := hlaunched.mpr (Or.inl hp)
    refine paired_addClient rfl hstarted (guards_stay h.guards rfl ?_ rfl) (by simp [hthread])
      (fun _ => by rw [hthread]; rfl) (fun _ => rfl) (fun hm => absurd hm (hawake (by simp [hp])))
    simp [Inside, hp, hpc, AddClientPc.inside, RemotePc.inside]
  | launch hp =>
    have hthread : n.server.thread = .notStarted := hlaunched.mpr (Or.inr hp)
    have hrunning : n.server.running = false := by
      rw [h.flag (by simp [hp]), hthread]
      rfl
    refine paired_addClient rfl hstarted (guards_stay h.guards rfl ?_ (by rw [hthread]; rfl)) (by simp)
      (fun _ => hrunning) (fun _ => hrunning) (fun hm => absurd hm (hawake (by simp [hp])))
    simp [Inside, hp, hpc, AddClientPc.inside, RemotePc.inside]
  | clientLock hp hfree =>
    exact paired_addClient rfl hstarted (guards_enter h.guards hfree rfl (Or.inl rfl) rfl) (by simpa [hp] using hlaunched)
      (fun _ => h.flag (by simp [hp])) (by simp) (fun hm => absurd hm (hawake (by simp [hp])))
  | test hp =>
    refine paired_addClient rfl hstarted (guards_stay h.guards rfl ?_ rfl) ?_ (fun _ => h.flag (by simp [hp])) ?_
      (fun hm => absurd hm (hawake (by simp [hp])))
    · cases n.server.running <;> simp [Inside, hp, AddClientPc.inside]
    · cases n.server.running <;> simpa [hp] using hlaunched
    · cases n.server.running <;> simp
  | wait hp =>
    refine paired_addClient rfl hstarted (guards_leave h.guards (Or.inl (by rw [hp]; rfl)) rfl ?_ rfl)
      (by simpa [hp] using hlaunched) (fun _ => h.flag (by simp [hp])) (by simp)
      (fun _ => ⟨rfl, h.starting hlive hp⟩)
    simp [Inside, AddClientPc.inside, RemotePc.inside]
  | relock hp hfree =>
    have hout : .client ∉ n.server.status.waiting := by
      simp only [StartUp.step, hlive, if_false, StartUp.stepClient, hp, Option.map_eq_some_iff,
        Monitor.relock_eq_some] at hs
      obtain ⟨m, ⟨hout, -⟩, -⟩ := hs
      exact hout
    exact paired_addClient rfl hstarted (guards_enter h.guards hfree rfl (Or.inl rfl) rfl) (by simpa [hp] using hlaunched)
      (fun _ => h.flag (by simp [hp])) (by simp) (fun hm => absurd hm hout)
  | asyncRead hp =>
    refine paired_addClient rfl hstarted (guards_stay h.guards rfl ?_ rfl) (by simpa [hp] using hlaunched)
      (fun _ => h.flag (by simp [hp])) (by simp) (fun hm => absurd hm (hawake (by simp [hp])))
    simp [Inside, hp, AddClientPc.inside]
  | clientUnlock hp =>
    refine paired_addClient rfl hstarted (guards_leave h.guards (Or.inl (by rw [hp]; rfl)) rfl ?_ rfl)
      (by simpa [hp] using hlaunched) (fun _ => h.flag (by simp [hp])) (by simp)
      (fun hm => absurd hm (hawake (by simp [hp])))
    simp [Inside, AddClientPc.inside, RemotePc.inside]

/-- Steps that neither thread notices. -/
theorem Paired.frame (h : n.Paired) (hstarted : n'.server.Started) (hclient : n'.server.client = n.server.client)
    (hthread : n'.server.thread = n.server.thread) (hstatus : n'.server.status = n.server.status)
    (hrunning : n'.server.running = n.server.running) (hphase : n'.pc = .addClient ↔ n.pc = .addClient)
    (hinside : n'.pc.inside = n.pc.inside) (hwait : n'.pc = .wait → n.pc = .wait)
    (hwaiting : n.pc = .waiting → n'.pc = .waiting) (hstop : n'.pc.stopping = true → n'.server.stopped = true) :
    n'.Paired where
  started := hstarted
  guards := guards_stay h.guards (by rw [hstatus]) (by simp only [Inside, hclient, hinside]) (by rw [hthread])
  phase := by rw [hphase, hclient, h.phase]
  launched := by rw [hthread, hclient, h.launched]
  flag := by rw [hclient, hrunning, hthread]; exact h.flag
  tested := by
    rw [hclient, hrunning]
    exact ⟨h.tested.1, fun hp => h.tested.2 (hwait hp)⟩
  asleep hm := by
    rw [hclient, hthread]
    rw [hstatus] at hm
    exact (h.asleep hm).imp_right (fun hw => ⟨hwaiting hw.1, hw.2⟩)
  stopped := hstop

/-- The main thread is in `waitForTermination`. -/
theorem Paired.awaiting (h : n.Paired) (hold : n.pc.stopping = true) (hnew : n'.pc.stopping = true)
    (hserver : n'.server = { n.server with status := n'.server.status }) (hguards : n'.server.status.Guards n'.Inside)
    (htested : n'.pc = .wait → n.server.running = true)
    (hasleep : .client ∈ n'.server.status.waiting →
      n'.pc = .waiting ∧ n.server.thread ≠ .notStarted ∧ n.server.thread ≠ .exited) : n'.Paired where
  started := by
    rw [hserver]
    exact ⟨⟨h.started.working.idle, h.started.working.busy⟩, h.started.stopped⟩
  guards := hguards
  phase := by
    have hbefore : n.pc ≠ .addClient := by
      intro he
      rw [he] at hold
      cases hold
    have hafter : n'.pc ≠ .addClient := by
      intro he
      rw [he] at hnew
      cases hnew
    rw [hserver]
    simp [hafter, h.returned hbefore]
  launched := by rw [hserver]; exact h.launched
  flag := by rw [hserver]; exact h.flag
  tested := by rw [hserver]; exact ⟨h.tested.1, htested⟩
  asleep hm := by
    rw [hserver]
    exact Or.inr (hasleep hm)
  stopped _ := by rw [hserver]; exact h.stopped hold

theorem Paired.await {pc : RemotePc} {status : Monitor ClientThread} (h : n.Paired) (hw : n.Awaits pc status) :
    Paired { n with server := { n.server with status }, pc } := by
  cases hw with
  | lock hpc hfree =>
    have hclient := h.returned (by simp [hpc])
    exact h.awaiting (by rw [hpc]; rfl) rfl rfl (guards_enter h.guards hfree rfl (Or.inr rfl) rfl) (by simp)
      (fun hm => absurd hm (h.awake (by simp [hclient]) (by simp [hpc])))
  | test hpc =>
    have hclient := h.returned (by simp [hpc])
    refine h.awaiting (by rw [hpc]; rfl) ?_ rfl (guards_stay h.guards rfl ?_ rfl) ?_
      (fun hm => absurd hm (h.awake (by simp [hclient]) (by simp [hpc])))
    · cases n.server.running <;> rfl
    · cases n.server.running <;> simp [Inside, hpc, RemotePc.inside]
    · cases n.server.running <;> simp
  | wait hpc =>
    have hclient := h.returned (by simp [hpc])
    have hup : n.server.thread ≠ .notStarted ∧ n.server.thread ≠ .exited := by
      have he := (h.flag (by simp [hclient])).symm.trans (h.tested.2 hpc)
      constructor <;> intro hthread <;> rw [hthread] at he <;> cases he
    refine h.awaiting (by rw [hpc]; rfl) rfl rfl (guards_leave h.guards (Or.inr (by rw [hpc]; rfl)) rfl ?_ rfl) (by simp)
      (fun _ => ⟨rfl, hup⟩)
    simp [Inside, hclient, AddClientPc.inside, RemotePc.inside]
  | relock hpc hawake hfree =>
    exact h.awaiting (by rw [hpc]; rfl) rfl rfl (guards_enter h.guards hfree rfl (Or.inr rfl) rfl) (by simp)
      (fun hm => absurd hm hawake)
  | unlock hpc =>
    have hclient := h.returned (by simp [hpc])
    refine h.awaiting (by rw [hpc]; rfl) rfl rfl (guards_leave h.guards (Or.inr (by rw [hpc]; rfl)) rfl ?_ rfl) (by simp)
      (fun hm => absurd hm (h.awake (by simp [hclient]) (by simp [hpc])))
    simp [Inside, hclient, AddClientPc.inside, RemotePc.inside]

theorem guards_serviceStay {server : StartUp} (h : n.server.status.Guards n.Inside)
    (hholder : server.status.holder = n.server.status.holder) (hclient : server.client = n.server.client)
    (hin : server.thread.inside = n.server.thread.inside) : server.status.Guards (Inside { n with server }) :=
  @guards_stay n { n with server } h hholder (by simp only [Inside, hclient]) hin

theorem guards_serviceEnter {server : StartUp} (h : n.server.status.Guards n.Inside)
    (hfree : n.server.status.holder = none) (hholder : server.status.holder = some .service)
    (hin : server.thread.inside = true) (hclient : server.client = n.server.client) :
    server.status.Guards (Inside { n with server }) := by
  refine h.enter hfree hholder hin (fun t ht => ?_)
  cases t with
  | client => simp [Inside, hclient]
  | service => exact absurd rfl ht

theorem guards_serviceLeave {server : StartUp} (h : n.server.status.Guards n.Inside)
    (hin : n.server.thread.inside = true) (hholder : server.status.holder = none) (hout : server.thread.inside = false)
    (hclient : server.client = n.server.client) : server.status.Guards (Inside { n with server }) := by
  have hnot : ¬ Inside { n with server } .service := by simp [Inside, hout]
  refine h.leave (show n.Inside .service from hin) hholder hnot (fun t ht => ?_)
  cases t with
  | client => simp [Inside, hclient]
  | service => exact absurd rfl ht

/-- The two threads do not hold the lock both. -/
theorem Paired.apart (h : n.Paired) (hthread : n.server.thread.inside = true) : ¬ n.Inside .client := by
  intro hin
  have hsame : ClientThread.client = .service := h.guards.unique hin hthread
  cases hsame

/-- A step of the io thread from one place in `run` to the next. -/
theorem Paired.advance {server : StartUp} (h : n.Paired) (hstarted : server.Started)
    (hclient : server.client = n.server.client) (hguards : server.status.Guards (Inside { n with server }))
    (hold : n.server.thread ≠ .notStarted) (hnew : server.thread ≠ .notStarted)
    (hflag : n.server.running = n.server.thread.up → server.running = server.thread.up)
    (htested : server.running = n.server.running ∨ ¬ n.Inside .client)
    (hasleep : server.status.waiting = [] ∨ server.status.waiting = n.server.status.waiting ∧
      (n.server.thread.starting = true → server.thread.starting = true) ∧ server.thread ≠ .exited)
    (hstop : n.server.stopped = true → server.stopped = true) : Paired { n with server } where
  started := hstarted
  guards := hguards
  phase := by simp only [hclient, h.phase]
  launched := by
    have hlaunched := h.launched
    simpa [hclient, hold, hnew] using hlaunched
  flag hc := hflag (h.flag (hclient ▸ hc))
  tested := by
    rcases htested with hrunning | hout
    · simp only [hclient, hrunning]
      exact h.tested
    · refine ⟨fun hw => absurd (Or.inl ?_) hout, fun hw => absurd (Or.inr ?_) hout⟩
      · rw [← hclient, show server.client = .wait from hw]
        rfl
      · rw [show n.pc = .wait from hw]
        rfl
  asleep hm := by
    rcases hasleep with hnone | ⟨hsame, hstart, hexit⟩
    · simp [hnone] at hm
    · simp only [hsame] at hm
      simp only [hclient]
      exact (h.asleep hm).imp (fun hl => ⟨hl.1, hstart hl.2⟩) (fun hr => ⟨hr.1, hnew, hexit⟩)
  stopped hp := hstop (h.stopped hp)

theorem serve_frame {s s' : StartUp} {c : Completion} (hs : s.serve bytes c = some s') :
    s'.status = s.status ∧ s'.running = s.running ∧
      (s'.thread = s.thread ∨ s'.thread = .serverClosed ∨ s'.thread = .terminated) := by
  by_cases hidle : s.Idle
  · rw [StartUp.serve_of_idle bytes hidle, Option.some.injEq] at hs
    subst hs
    exact ⟨rfl, rfl, Or.inr (Or.inl rfl)⟩
  · rw [StartUp.serve_of_busy bytes hidle] at hs
    cases c with
    | write fails =>
      simp only [StartUp.writeMsg] at hs
      split at hs <;> cases hs
      exact ⟨rfl, rfl, Or.inl rfl⟩
    | read incoming =>
      simp only [StartUp.readMsg, Option.ite_none_right_eq_some] at hs
      obtain ⟨-, hs⟩ := hs
      split at hs <;> cases hs
      · exact ⟨rfl, rfl, Or.inl rfl⟩
      · exact ⟨rfl, rfl, Or.inl rfl⟩
      · exact ⟨rfl, rfl, Or.inr (Or.inr rfl)⟩

theorem Paired.service {server : StartUp} {c : Completion} (h : n.Paired) (hstarted : server.Started)
    (hlive : server.thread ≠ .terminated) (hs : StartUp.step bytes n.server (.service c) = some server) :
    Paired { n with server } := by
  have hrun {thread : ServicePc} (hp : n.server.thread = thread) (hup : thread.up = server.thread.up) :
      n.server.running = n.server.thread.up → n.server.running = server.thread.up := by
    rw [hp, hup]
    exact id
  cases StartUp.step_change hs with
  | serviceLock hp hfree =>
    exact h.advance hstarted rfl (guards_serviceEnter h.guards hfree rfl rfl rfl) (by simp [hp]) (by simp)
      (hrun hp rfl) (Or.inl rfl) (Or.inr ⟨rfl, fun _ => rfl, by simp⟩) id
  | setRunning hp =>
    exact h.advance hstarted rfl (guards_serviceStay h.guards rfl rfl (by rw [hp]; rfl)) (by simp [hp]) (by simp)
      (fun _ => rfl) (Or.inr (h.apart (by rw [hp]; rfl))) (Or.inr ⟨rfl, fun _ => rfl, by simp⟩) id
  | serviceUnlock hp =>
    exact h.advance hstarted rfl (guards_serviceLeave h.guards (by rw [hp]; rfl) rfl rfl rfl) (by simp [hp]) (by simp)
      (hrun hp rfl) (Or.inl rfl) (Or.inr ⟨rfl, fun _ => rfl, by simp⟩) id
  | notify hp =>
    exact h.advance hstarted rfl (guards_serviceStay h.guards rfl rfl (by rw [hp]; rfl)) (by simp [hp]) (by simp)
      (hrun hp rfl) (Or.inl rfl) (Or.inl rfl) id
  | serve hp hserve =>
    obtain ⟨hclient, -, hstop, -, -⟩ := StartUp.serve_spec hserve
    obtain ⟨hstatus, hrunning, hthread⟩ := serve_frame hserve
    have hnext : server.thread = .service ∨ server.thread = .serverClosed := by
      rcases hthread with he | he | he
      · exact Or.inl (he.trans hp)
      · exact Or.inr he
      · exact absurd he hlive
    have hsame : server.thread.inside = n.server.thread.inside ∧ n.server.thread.up = server.thread.up := by
      rcases hnext with he | he <;> simp [he, hp, ServicePc.inside, ServicePc.up]
    refine h.advance hstarted hclient (guards_serviceStay h.guards (by rw [hstatus]) hclient hsame.1)
      (by simp [hp]) ?_ (fun he => by rw [hrunning, he, hsame.2]) (Or.inl hrunning) (Or.inr ⟨by rw [hstatus], ?_, ?_⟩) hstop
    · rcases hnext with he | he <;> simp [he]
    · simp [hp, ServicePc.starting]
    · rcases hnext with he | he <;> simp [he]
  | serverClosed hp =>
    exact h.advance hstarted rfl (guards_serviceStay h.guards rfl rfl (by rw [hp]; rfl)) (by simp [hp]) (by simp)
      (hrun hp rfl) (Or.inl rfl) (Or.inr ⟨rfl, by simp [hp, ServicePc.starting], by simp⟩) id
  | serviceRelock hp hfree =>
    exact h.advance hstarted rfl (guards_serviceEnter h.guards hfree rfl rfl rfl) (by simp [hp]) (by simp)
      (hrun hp rfl) (Or.inl rfl) (Or.inr ⟨rfl, by simp [hp, ServicePc.starting], by simp⟩) id
  | serviceClear hp =>
    exact h.advance hstarted rfl (guards_serviceStay h.guards rfl rfl (by rw [hp]; rfl)) (by simp [hp]) (by simp)
      (fun _ => rfl) (Or.inr (h.apart (by rw [hp]; rfl))) (Or.inr ⟨rfl, by simp [hp, ServicePc.starting], by simp⟩) id
  | finalUnlock hp =>
    exact h.advance hstarted rfl (guards_serviceLeave h.guards (by rw [hp]; rfl) rfl rfl rfl) (by simp [hp]) (by simp)
      (hrun hp rfl) (Or.inl rfl) (Or.inr ⟨rfl, by simp [hp, ServicePc.starting], by simp⟩) id
  | finalNotify hp =>
    exact h.advance hstarted rfl (guards_serviceStay h.guards rfl rfl (by rw [hp]; rfl)) (by simp [hp]) (by simp)
      (hrun hp rfl) (Or.inl rfl) (Or.inl rfl) id

/-- The main thread goes on without the io thread. -/
theorem Paired.alone {server : StartUp} {pc : RemotePc} (h : n.Paired) (hstarted : server.Started)
    (hclient : server.client = n.server.client) (hthread : server.thread = n.server.thread)
    (hstatus : server.status = n.server.status) (hrunning : server.running = n.server.running)
    (hold : n.pc ≠ .addClient ∧ n.pc.inside = false ∧ n.pc ≠ .waiting)
    (hnew : pc ≠ .addClient ∧ pc.inside = false ∧ pc ≠ .wait) (hstop : pc.stopping = true → server.stopped = true)
    (client : LocalClient) (platform : PlatformState) : Paired { n with server, client, platform, pc } :=
  h.frame hstarted hclient hthread hstatus hrunning (iff_of_false hnew.1 hold.1) (hnew.2.1.trans hold.2.1.symm)
    (fun hw => absurd hw hnew.2.2) (fun hw => absurd hw hold.2.2) hstop

theorem live_of_step (hs : step order bytes setup n a = some n') : n.server.thread ≠ .terminated := by
  intro he
  simp [step, he] at hs

theorem step_paired (h : n.server.thread ≠ .terminated → n.Paired) (hok : n.ArmedFirst a)
    (hs : step order bytes setup n a = some n') (hlive : n'.server.thread ≠ .terminated) : n'.Paired := by
  have hbefore := live_of_step hs
  have hp := h hbefore
  cases step_change hs with
  | addClient hpc hstart => exact hp.client hbefore hpc (StartUp.step_started hp.started (by trivial) hstart) hstart
  | loadPlayer hpc hpush =>
    have hstarted := StartUp.step_started hp.started (by trivial) hpush
    cases StartUp.step_change hpush with
    | pushMessage hreturned =>
      exact hp.alone hstarted rfl rfl rfl rfl (by simp [hpc, RemotePc.inside]) (by simp [RemotePc.inside])
        (by simp [RemotePc.stopping]) n.client n.platform
  | told hpc hpushed hpush =>
    have hstarted := StartUp.step_started hp.started (by trivial) hpush
    cases StartUp.step_change hpush with
    | pushMessage hreturned =>
      exact hp.alone hstarted rfl rfl rfl rfl (by simp [hpc, RemotePc.inside]) (by simp [RemotePc.inside])
        (by simp [RemotePc.stopping]) n.client _
  | quiet hpc hpushed =>
    exact hp.alone hp.started rfl rfl rfl rfl (by simp [hpc, RemotePc.inside]) (by simp [RemotePc.inside])
      (by simp [RemotePc.stopping]) n.client _
  | tryPop hpc hq =>
    exact hp.frame hp.started rfl rfl rfl rfl Iff.rfl rfl id id (by simp [hpc, RemotePc.stopping])
  | loopHead hpc =>
    exact hp.alone hp.started rfl rfl rfl rfl (by simp [hpc, RemotePc.inside])
      (by cases n.platform.finished <;> simp [RemotePc.inside])
      (by cases n.platform.finished <;> simp [RemotePc.stopping]) n.client n.platform
  | drained hpc hq =>
    exact hp.alone hp.started rfl rfl rfl rfl (by simp [hpc, RemotePc.inside]) (by simp [RemotePc.inside])
      (by simp [RemotePc.stopping]) n.client n.platform
  | draw hpc =>
    exact hp.alone hp.started rfl rfl rfl rfl (by simp [hpc, RemotePc.inside]) (by simp [RemotePc.inside])
      (by simp [RemotePc.stopping]) n.client n.platform
  | stop hpc hwait =>
    have hstarted := StartUp.step_started hp.started (by trivial) hwait
    cases StartUp.step_change hwait with
    | waitForTermination hreturned =>
      exact hp.alone hstarted rfl rfl rfl rfl (by simp [hpc, RemotePc.inside]) (by simp [RemotePc.inside])
        (fun _ => rfl) n.client n.platform
  | await hw => exact hp.await hw
  | @service handler server hserve =>
    have hstarted := StartUp.step_started hp.started (by exact hok) hserve
    have hpaired := hp.service hstarted hlive hserve
    have hpc : (n.served order bytes handler).pc = n.pc := (served_platform order bytes n handler).2.2
    exact hpaired.frame hstarted rfl rfl rfl rfl (by simp only [hpc]) (by simp only [hpc]) (by simp only [hpc]; exact id)
      (by simp only [hpc]; exact id) (by simp only [hpc]; exact hpaired.stopped)
  | spuriousWake hwake =>
    have hstarted := StartUp.step_started hp.started (by trivial) hwake
    cases StartUp.step_change hwake with
    | spuriousWake =>
      exact {
        started := hstarted
        guards := guards_serviceStay hp.guards rfl rfl rfl
        phase := hp.phase
        launched := hp.launched
        flag := hp.flag
        tested := hp.tested
        asleep := fun hm => absurd rfl (Monitor.mem_waiting_wake.mp hm).2
        stopped := hp.stopped }

/-- The io thread can go on where it is not waiting for the mutex or for work. -/
theorem service_isSome (hlive : n.server.thread ≠ .terminated)
    (hthread : n.server.thread ≠ .notStarted ∧ n.server.thread ≠ .exited)
    (hfree : n.server.thread = .lock ∨ n.server.thread = .relock → n.server.status.holder = none)
    (hidle : n.server.thread = .service → n.server.Idle) :
    ∃ a : RemoteAction, a.ofThreads = true ∧ (step order bytes setup n a).isSome := by
  refine ⟨.service .readMsg, rfl, ?_⟩
  rw [step, if_neg hlive]
  simp only [act, served_server, Option.isSome_map, StartUp.step, hlive, if_false]
  cases hp : n.server.thread with
  | notStarted => exact absurd hp hthread.1
  | exited => exact absurd hp hthread.2
  | terminated => exact absurd hp hlive
  | lock => simp [StartUp.stepService, hp, Monitor.lock, hfree (Or.inl hp)]
  | relock => simp [StartUp.stepService, hp, Monitor.lock, hfree (Or.inr hp)]
  | service => simp [StartUp.stepService, hp, StartUp.serve_of_idle bytes (hidle hp)]
  | _ => simp [StartUp.stepService, hp]

/-- Whoever holds the mutex can go on; where it is free the main thread can. -/
theorem Paired.unblocked (h : n.Paired) (hlive : n.server.thread ≠ .terminated) (hout : ¬ n.Inside .client)
    (hmain : n.server.status.holder = none →
      ∃ a : RemoteAction, a.ofThreads = true ∧ (step order bytes setup n a).isSome) :
    ∃ a : RemoteAction, a.ofThreads = true ∧ (step order bytes setup n a).isSome := by
  cases hholder : n.server.status.holder with
  | none => exact hmain hholder
  | some t =>
    have hin := (h.guards t).mp hholder
    cases t with
    | client => exact absurd hin hout
    | service =>
      have hinside : n.server.thread.inside = true := hin
      refine service_isSome hlive ⟨?_, ?_⟩ ?_ ?_
      · intro he
        simp [he, ServicePc.inside] at hinside
      · intro he
        simp [he, ServicePc.inside] at hinside
      · rintro (he | he) <;> simp [he, ServicePc.inside] at hinside
      · intro he
        simp [he, ServicePc.inside] at hinside

/-- A step of the main thread on its own. -/
theorem main_isSome (hlive : n.server.thread ≠ .terminated) (h : (n.main order bytes setup []).isSome) :
    ∃ a : RemoteAction, a.ofThreads = true ∧ (step order bytes setup n a).isSome :=
  ⟨.main [], rfl, by simpa [step, hlive] using h⟩

theorem Paired.addClient_isSome (h : n.Paired) (hlive : n.server.thread ≠ .terminated) (hpc : n.pc = .addClient) :
    ∃ a : RemoteAction, a.ofThreads = true ∧ (step order bytes setup n a).isSome := by
  have hthread := h.launched
  have hgo (hs : n.server.stepClient.isSome) :
      ∃ a : RemoteAction, a.ofThreads = true ∧ (step order bytes setup n a).isSome := by
    refine main_isSome hlive ?_
    simpa [RemoteGame.main, hpc, act, StartUp.step, hlive] using hs
  cases hp : n.server.client with
  | returned => exact absurd hp (h.phase.mp hpc)
  | lock =>
    refine h.unblocked hlive (by simp [Inside, hp, hpc, AddClientPc.inside, RemotePc.inside]) (fun hfree => hgo ?_)
    simp [StartUp.stepClient, hp, Monitor.lock, hfree]
  | waiting =>
    refine h.unblocked hlive (by simp [Inside, hp, hpc, AddClientPc.inside, RemotePc.inside]) (fun hfree => ?_)
    by_cases hm : .client ∈ n.server.status.waiting
    · rcases h.asleep hm with ⟨-, hstart⟩ | ⟨he, -⟩
      · refine service_isSome hlive ⟨by simp [hthread, hp], ?_⟩ (fun _ => hfree) ?_
        · intro he
          simp [he, ServicePc.starting] at hstart
        · intro he
          simp [he, ServicePc.starting] at hstart
      · simp [hpc] at he
    · exact hgo (by simp [StartUp.stepClient, hp, Monitor.relock, Monitor.lock, hm, hfree])
  | _ => exact hgo (by simp [StartUp.stepClient, hp])

theorem Paired.canGoOn (h : n.server.thread ≠ .terminated → n.Paired) : n.CanGoOn order bytes setup := by
  intro hlive hend
  have hp := h hlive
  cases hpc : n.pc with
  | addClient => exact hp.addClient_isSome hlive hpc
  | ended => exact absurd hpc hend
  | lock =>
    have hclient := hp.returned (by simp [hpc])
    refine hp.unblocked hlive (by simp [Inside, hclient, hpc, AddClientPc.inside, RemotePc.inside]) (fun hfree => ?_)
    exact main_isSome hlive (by simp [RemoteGame.main, hpc, Monitor.lock, hfree])
  | waiting =>
    have hclient := hp.returned (by simp [hpc])
    refine hp.unblocked hlive (by simp [Inside, hclient, hpc, AddClientPc.inside, RemotePc.inside]) (fun hfree => ?_)
    by_cases hm : .client ∈ n.server.status.waiting
    · rcases hp.asleep hm with ⟨he, -⟩ | ⟨-, hthread⟩
      · simp [hclient] at he
      · exact service_isSome hlive hthread (fun _ => hfree) (fun _ => Or.inl (hp.stopped (by rw [hpc]; rfl)))
    · exact main_isSome hlive (by simp [RemoteGame.main, hpc, Monitor.relock, Monitor.lock, hm, hfree])
  | loadPlayer =>
    have hclient := hp.returned (by simp [hpc])
    exact main_isSome hlive (by simp [RemoteGame.main, hpc, goto, act, StartUp.step, hlive, hclient])
  | stop =>
    have hclient := hp.returned (by simp [hpc])
    exact main_isSome hlive (by simp [RemoteGame.main, hpc, goto, act, StartUp.step, hlive, hclient])
  | events =>
    have hclient := hp.returned (by simp [hpc])
    refine main_isSome hlive ?_
    simp only [RemoteGame.main, hpc]
    split
    · rfl
    · simp [goto, act, StartUp.step, hlive, hclient]
  | draining =>
    refine main_isSome hlive ?_
    cases hq : n.client.msgQueue <;> simp [RemoteGame.main, hpc, hq, LocalClient.step]
  | _ => exact main_isSome hlive (by simp [RemoteGame.main, hpc])

/-- What the io thread has left to do, and what it can still cause. -/
def work (n : RemoteGame) : Nat :=
  4 * n.server.thread.left + (if n.server.stopped then 0 else 1) + n.server.posted.length + 2 * n.incoming.length +
    n.client.msgQueue.length

/-- Once `m_finished` is set the two threads take no more steps than these and
those that a spurious wake-up adds. -/
def left (n : RemoteGame) : Nat := n.pc.left (decide (.client ∈ n.server.status.waiting)) + n.work

structure Finishing (n : RemoteGame) : Prop where
  finished : n.platform.finished = true
  armed : n.server.client.armed = true

/-- A wake-up gives the main thread at most three steps back. -/
theorem left_le (pc : RemotePc) (before after : Bool) : pc.left after ≤ pc.left before + 3 := by
  cases pc <;> cases before <;> cases after <;> decide

theorem Awaits.left {pc : RemotePc} {status : Monitor ClientThread} (hw : n.Awaits pc status) :
    1 + pc.left (decide (.client ∈ status.waiting)) ≤ n.pc.left (decide (.client ∈ n.server.status.waiting)) := by
  cases hw with
  | lock hpc hfree => simp [hpc, RemotePc.left]
  | test hpc => cases n.server.running <;> simp [hpc, RemotePc.left]
  | wait hpc => simp [hpc, RemotePc.left, Monitor.wait]
  | relock hpc hawake hfree => simp [hpc, RemotePc.left, hawake]
  | unlock hpc => simp [hpc, RemotePc.left]

theorem round_shorter {s rest : List UInt8} {msg : ClientMsg} (h : RemoteServer.round bytes s = .next msg rest) :
    rest.length < s.length := by
  rw [RemoteServer.round_eq] at h
  obtain ⟨read, rfl, hm⟩ := (typedRound_next_iff bytes (ClientMsg.reads_received bytes) s rest msg).mp h
  have hpos := List.length_pos_iff.mpr hm.ne_nil
  rw [List.length_append]
  omega

theorem serve_work (order : PopOrder) {handler : RemoteHandler} {server : StartUp} (hp : n.server.thread = .service)
    (hs : n.server.serve bytes (handler.completion n.incoming) = some server) :
    1 + work { n.served order bytes handler with server } ≤ n.work := by
  by_cases hidle : n.server.Idle
  · rw [StartUp.serve_of_idle bytes hidle, Option.some.injEq] at hs
    subst hs
    simp only [served, hp, hidle, if_true, work, ServicePc.left]
    omega
  · have hstopped : n.server.stopped = false := by
      cases he : n.server.stopped with
      | false => rfl
      | true => exact absurd (Or.inl he) hidle
    rw [StartUp.serve_of_busy bytes hidle] at hs
    cases handler with
    | writeMsg failsAfter =>
      simp only [RemoteHandler.completion, StartUp.writeMsg] at hs
      cases hq : n.server.posted with
      | nil => simp [hq] at hs
      | cons msg posted =>
        simp only [hq, Option.some.injEq] at hs
        subst hs
        simp only [served, hp, hidle, if_false, hq, work, hstopped, Bool.false_or, Bool.false_eq_true, List.length_cons]
        split <;> omega
    | readMsg =>
      simp only [RemoteHandler.completion, StartUp.readMsg, Option.ite_none_right_eq_some] at hs
      obtain ⟨-, hs⟩ := hs
      cases hround : RemoteServer.round bytes n.incoming with
      | next msg rest =>
        have hshort := round_shorter hround
        simp only [hround, Option.some.injEq] at hs
        subst hs
        have hqueue : (n.client.pushMessage order msg).msgQueue.length = n.client.msgQueue.length + 1 := by
          cases order <;> simp [LocalClient.pushMessage, PopOrder.add]
        simp only [served, hp, hidle, if_false, hround, work, hqueue]
        omega
      | stop =>
        simp only [hround, Option.some.injEq] at hs
        subst hs
        simp only [served, hp, hidle, if_false, hround, work, hstopped, if_true, Bool.false_eq_true]
        omega
      | escaped e =>
        simp only [hround, Option.some.injEq] at hs
        subst hs
        simp only [served, hp, hidle, if_false, hround, work, ServicePc.left]
        omega

theorem served_elsewhere (order : PopOrder) (bytes : ByteOrder) (handler : RemoteHandler) (h : n.server.thread ≠ .service) :
    (n.served order bytes handler).client = n.client ∧ (n.served order bytes handler).incoming = n.incoming := by
  unfold served
  split
  case h_1 hp => exact absurd hp h
  case h_2 => exact ⟨rfl, rfl⟩
  case h_3 => exact ⟨rfl, rfl⟩

/-- A step of the io thread costs more than a wake-up gives, except in `m_service.run()`,
where it wakes nobody. -/
theorem service_left (order : PopOrder) {handler : RemoteHandler} {server : StartUp}
    (hs : StartUp.step bytes n.server (.service (handler.completion n.incoming)) = some server) :
    1 + RemoteGame.left { n.served order bytes handler with server } ≤ n.left := by
  have hpc : (n.served order bytes handler).pc = n.pc := (served_platform order bytes n handler).2.2
  have hleft : RemoteGame.left { n.served order bytes handler with server } =
      n.pc.left (decide (.client ∈ server.status.waiting)) + work { n.served order bytes handler with server } :=
    congrArg (fun pc => pc.left (decide (.client ∈ server.status.waiting)) + _) hpc
  have hwoken := left_le n.pc (decide (.client ∈ n.server.status.waiting)) (decide (.client ∈ server.status.waiting))
  by_cases hthread : n.server.thread = .service
  · have hserve : n.server.serve bytes (handler.completion n.incoming) = some server := by
      simpa [StartUp.step, StartUp.stepService, hthread] using hs
    have hwork := serve_work order hthread hserve
    rw [(serve_frame hserve).1] at hleft
    rw [hleft, RemoteGame.left]
    omega
  · obtain ⟨hclient, hincoming⟩ := served_elsewhere order bytes handler hthread
    have hwork : 4 + work { n.served order bytes handler with server } ≤ n.work := by
      simp only [work, hclient, hincoming]
      cases StartUp.step_change hs with
      | serve hp hserve => exact absurd hp hthread
      | serviceLock hp | setRunning hp | serviceUnlock hp | notify hp | serverClosed hp | serviceRelock hp
      | serviceClear hp | finalUnlock hp | finalNotify hp =>
        simp only [hp, ServicePc.left]
        omega
    rw [hleft, RemoteGame.left]
    omega

theorem client_armed {s s' : StartUp} (hs : StartUp.step bytes s .client = some s') (h : s.client.armed = true) :
    s' = { s with status := s.status.unlock, client := .returned } := by
  cases StartUp.step_change hs with
  | clientUnlock hp => rfl
  | clearRunning hp | launch hp | clientLock hp | test hp | wait hp | relock hp | asyncRead hp =>
    rw [hp] at h
    cases h

theorem service_client {s s' : StartUp} {c : Completion} (hs : StartUp.step bytes s (.service c) = some s') :
    s'.client = s.client := by
  cases StartUp.step_change hs with
  | serve hp hserve => exact (StartUp.serve_spec hserve).1
  | _ => rfl

theorem finished_served {handler : RemoteHandler} : (n.served order bytes handler).platform.finished = true ↔
    n.platform.finished = true ∨ n.server.thread = .serverClosed := by
  unfold served
  split
  case h_1 hp =>
    repeat' split
    all_goals simp [hp]
  case h_2 hp => simp [hp]
  case h_3 hservice hclosed => exact (or_iff_left hclosed).symm

theorem finished_platformEvents {atoms : XAtoms} {self : ClientPtr} {st : PlatformState} (events : List XEvent)
    (h : st.finished = true) : (st.platformEvents atoms self events).finished = true := by
  have hkeys (st : PlatformState) (changed : Bool) (keysym : UInt64) :
      (st.processKey changed keysym).1.finished = st.finished := by
    unfold PlatformState.processKey
    split <;> rfl
  have hevent (r : PlatformState × Bool) (e : XEvent) (hr : r.1.finished = true) :
      (PlatformState.handleEvent atoms r e).1.finished = true := by
    cases e with
    | clientMessage messageType data =>
      simp only [PlatformState.handleEvent]
      split
      · rfl
      · exact hr
    | keyRelease keysym => exact (hkeys _ r.2 keysym).trans hr
    | keyPress keysym => exact (hkeys _ r.2 keysym).trans hr
    | other type => exact hr
  have hfold : (events.foldl (PlatformState.handleEvent atoms) (st, false)).1.finished = true :=
    List.foldlRecOn events (PlatformState.handleEvent atoms) h (fun r hr e _ => hevent r e hr)
  simp only [PlatformState.platformEvents]
  split <;> exact hfold

/-- `m_finished` is not set before the read is armed. -/
def LateEnd (n : RemoteGame) : Prop := n.platform.finished = true → n.server.client.armed = true

theorem step_lateEnd (hp : n.Paired) (h : n.LateEnd) (hs : step order bytes setup n a = some n') : n'.LateEnd := by
  intro hfinished
  have hreturned (hpc : n.pc ≠ .addClient) : n.server.client.armed = true := by
    rw [hp.returned hpc]
    rfl
  cases step_change hs with
  | addClient hpc hstart =>
    rw [client_armed hstart (h hfinished)]
    rfl
  | loadPlayer hpc hpush | told hpc hpushed hpush =>
    cases StartUp.step_change hpush with
    | pushMessage => exact hreturned (by simp [hpc])
  | stop hpc hwait =>
    cases StartUp.step_change hwait with
    | waitForTermination => exact hreturned (by simp [hpc])
  | quiet hpc | tryPop hpc | loopHead hpc | drained hpc | draw hpc => exact hreturned (by simp [hpc])
  | await hw => cases hw with
    | lock hpc | test hpc | wait hpc | relock hpc | unlock hpc => exact hreturned (by simp [hpc])
  | service hserve =>
    refine (congrArg AddClientPc.armed (service_client hserve)).trans ?_
    rcases finished_served.mp hfinished with hbefore | hclosed
    · exact h hbefore
    · exact (hp.started.stopped (by rw [hclosed]; rfl)).1
  | spuriousWake hwake =>
    cases StartUp.step_change hwake with
    | spuriousWake => exact h hfinished

/-- A step of the main thread that the io thread does not notice. -/
theorem left_lt (hthread : n'.server.thread = n.server.thread)
    (hstopped : n.server.stopped = true → n'.server.stopped = true) (hincoming : n'.incoming = n.incoming)
    (hmain : ∀ asleep asleep', n'.pc.left asleep' + n'.server.posted.length + n'.client.msgQueue.length <
      n.pc.left asleep + n.server.posted.length + n.client.msgQueue.length) : 1 + n'.left ≤ n.left := by
  have hless := hmain (decide (.client ∈ n.server.status.waiting)) (decide (.client ∈ n'.server.status.waiting))
  have hstop : (if n'.server.stopped then 0 else 1) ≤ if n.server.stopped then 0 else 1 := by
    by_cases hs : n.server.stopped = true
    · simp [hstopped hs]
    · simp only [hs, Bool.false_eq_true, if_false]
      split <;> omega
  simp only [left, work, hthread, hincoming]
  omega

theorem step_finishing (h : n.Finishing) (hs : step order bytes setup n a = some n') :
    n'.Finishing ∧ (if a.ofThreads then 1 else 0) + n'.left ≤ n.left + (if a.wakes then 3 else 0) := by
  have hfinished := h.finished
  cases step_change hs with
  | addClient hpc hstart =>
    rw [client_armed hstart h.armed]
    exact ⟨⟨hfinished, rfl⟩, left_lt rfl id rfl (by simp [hpc, RemotePc.left])⟩
  | loadPlayer hpc hpush =>
    cases StartUp.step_change hpush with
    | pushMessage =>
      -- the message that is posted costs the io thread a step
      refine ⟨⟨hfinished, h.armed⟩, left_lt rfl id rfl (fun _ _ => ?_)⟩
      simp only [hpc, RemotePc.left, List.length_append, List.length_singleton]
      omega
  | told hpc hpushed hpush =>
    cases StartUp.step_change hpush with
    | pushMessage =>
      refine ⟨⟨finished_platformEvents _ hfinished, h.armed⟩, left_lt rfl id rfl (fun _ _ => ?_)⟩
      simp only [hpc, RemotePc.left, List.length_append, List.length_singleton]
      omega
  | quiet hpc hpushed =>
    exact ⟨⟨finished_platformEvents _ hfinished, h.armed⟩, left_lt rfl id rfl (by simp [hpc, RemotePc.left])⟩
  | tryPop hpc hq =>
    refine ⟨⟨hfinished, h.armed⟩, left_lt rfl id rfl (fun _ _ => ?_)⟩
    simp only [hpc, RemotePc.left, LocalClient.handle_msgQueue, hq, List.length_cons]
    omega
  | loopHead hpc =>
    exact ⟨⟨hfinished, h.armed⟩, left_lt rfl id rfl (by simp [hpc, hfinished, RemotePc.left])⟩
  | drained hpc hq => exact ⟨⟨hfinished, h.armed⟩, left_lt rfl id rfl (by simp [hpc, RemotePc.left])⟩
  | draw hpc => exact ⟨⟨hfinished, h.armed⟩, left_lt rfl id rfl (by simp [hpc, RemotePc.left])⟩
  | stop hpc hwait =>
    cases StartUp.step_change hwait with
    | waitForTermination =>
      exact ⟨⟨hfinished, h.armed⟩, left_lt rfl (fun _ => rfl) rfl (by simp [hpc, RemotePc.left])⟩
  | await hw =>
    have hleft := hw.left
    refine ⟨⟨hfinished, h.armed⟩, ?_⟩
    simp only [RemoteAction.ofThreads, RemoteAction.wakes, left, work, if_true, Bool.false_eq_true, if_false]
    omega
  | @service handler server hserve =>
    have hclient := congrArg AddClientPc.armed (service_client hserve)
    exact ⟨⟨finished_served.mpr (Or.inl hfinished), hclient.trans h.armed⟩, service_left order hserve⟩
  | spuriousWake hwake =>
    cases StartUp.step_change hwake with
    | spuriousWake =>
      have hwoken := left_le n.pc (decide (.client ∈ n.server.status.waiting))
        (decide (.client ∈ (n.server.status.wake .client).waiting))
      refine ⟨⟨hfinished, h.armed⟩, ?_⟩
      simp only [RemoteAction.ofThreads, RemoteAction.wakes, left, work, if_true, Bool.false_eq_true, if_false]
      omega

theorem Finishing.armedFirst (h : n.Finishing) (a : RemoteAction) : n.ArmedFirst a := by
  cases a with
  | service handler => exact fun _ => h.armed
  | main events => trivial
  | spuriousWake => trivial

/-- As long as `m_service.run()` does not look for work before `addClient` has
armed its read, one of the threads of `qntcli` can always go on, and once
`m_finished` is set they take only so many steps more. -/
theorem remote_game_ends (order : PopOrder) (bytes : ByteOrder) (setup : LocalGame.Setup) (running : Bool)
    (incoming : List UInt8) {as : List RemoteAction}
    (harmed : Guarded (step order bytes setup) ArmedFirst (init running incoming) as) :
    Along (step order bytes setup) (CanGoOn order bytes setup) (init running incoming) as ∧
      ∀ n bs n', run (step order bytes setup) (init running incoming) as = some n → n.platform.finished = true →
        run (step order bytes setup) n bs = some n' →
        bs.countP RemoteAction.ofThreads ≤ n.left + 3 * bs.countP RemoteAction.wakes ∧ n'.CanGoOn order bytes setup := by
  have hall : Along (step order bytes setup) (fun n => n.server.thread ≠ .terminated → n.Paired ∧ n.LateEnd)
      (init running incoming) as := by
    refine harmed.along _ (fun n a n' h hok hs hlive => ?_) (fun _ => ⟨paired_init running incoming, fun hf => by cases hf⟩)
    obtain ⟨hpaired, hlate⟩ := h (live_of_step hs)
    exact ⟨step_paired (fun _ => hpaired) hok hs hlive, step_lateEnd hpaired hlate hs⟩
  refine ⟨hall.mono (fun n h => Paired.canGoOn (fun hlive => (h hlive).1)), fun n bs n' hn hfinished hrun => ?_⟩
  have hend (n : RemoteGame) (a : RemoteAction) (n' : RemoteGame)
      (h : n.server.thread ≠ .terminated → n.Finishing ∧ n.Paired) (hs : step order bytes setup n a = some n')
      (hlive : n'.server.thread ≠ .terminated) : n'.Finishing ∧ n'.Paired := by
    obtain ⟨hfin, hpaired⟩ := h (live_of_step hs)
    exact ⟨(step_finishing hfin hs).1, step_paired (fun _ => hpaired) (hfin.armedFirst a) hs hlive⟩
  have hstart (hlive : n.server.thread ≠ .terminated) : n.Finishing ∧ n.Paired := by
    obtain ⟨hpaired, hlate⟩ := hall.last hn hlive
    exact ⟨⟨hfinished, hlate hfinished⟩, hpaired⟩
  constructor
  · have hcount := countP_le _ left RemoteAction.ofThreads RemoteAction.wakes 3 hend
      (fun n a n' h hs => (step_finishing (h (live_of_step hs)).1 hs).2) hstart hrun
    omega
  · exact Paired.canGoOn (fun hlive => ((along_of_step _ hend hstart bs).last hrun hlive).2)

/-- The client starts, the connection ends and `serverClosed` is called. -/
def lost : List RemoteAction := [.main [], .main []] ++ List.replicate 4 (.service .readMsg) ++
  List.replicate 5 (.main []) ++ List.replicate 3 (.service .readMsg)

/-- The main thread sleeps in `waitForTermination` until the io thread wakes it. -/
def leaves : List RemoteAction := List.replicate 5 (.main []) ++ List.replicate 4 (.service .readMsg) ++
  List.replicate 3 (.main [])

theorem remote_game_ends_lost : ∃ n n', run (step .fifo .little ⟨1, ⟨1, 2⟩⟩) (init true []) lost = some n ∧
    run (step .fifo .little ⟨1, ⟨1, 2⟩⟩) n leaves = some n' ∧ n.left = 24 ∧ n'.pc = .ended ∧
    leaves.countP RemoteAction.ofThreads ≤ n.left + 3 * leaves.countP RemoteAction.wakes ∧
    n'.CanGoOn .fifo .little ⟨1, ⟨1, 2⟩⟩ := by
  have hrun : (run (step .fifo .little ⟨1, ⟨1, 2⟩⟩) (init true []) lost).map
      (fun n => (n.platform.finished, n.left)) = some (true, 24) := by decide
  have hthen : (run (step .fifo .little ⟨1, ⟨1, 2⟩⟩) (init true []) (lost ++ leaves)).map RemoteGame.pc =
      some .ended := by decide
  obtain ⟨n, hn, he⟩ := Option.map_eq_some_iff.mp hrun
  obtain ⟨n', hn', hend⟩ := Option.map_eq_some_iff.mp hthen
  rw [run_append, hn] at hn'
  simp only [Prod.mk.injEq] at he
  refine ⟨n, n', hn, hn', he.2, hend, ?_⟩
  exact (remote_game_ends .fifo .little ⟨1, ⟨1, 2⟩⟩ true [] (by decide)).2 n leaves n' hn he.1 hn'

end RemoteGame

end Quintses
