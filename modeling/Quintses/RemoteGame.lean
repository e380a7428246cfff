import Quintses.Delivery
import Quintses.Drawing
import Quintses.LocalGame
import Quintses.StartUp

/-! The whole of `qntcli`: the main thread, which runs a `LocalClient`, with a
`RemoteServer` and the io thread that it starts. The connection stands, and
what arrives on it is given. -/

namespace Quintses

open Lts

/-- Where the main thread is: in the constructor of `LocalClient`, in `mainloop`
or in `waitForTermination` of the `RemoteServer`. -/
inductive RemotePc
  | addClient
  | loadPlayer
  | loopHead
  | draining
  | events
  | drawing
  | stop
  | lock
  | test
  | wait
  | waiting
  | unlock
  | ended
  deriving DecidableEq

structure RemoteGame where
  server : StartUp
  client : LocalClient
  platform : PlatformState
  pc : RemotePc
  /-- The bytes the socket still delivers before it ends or fails. -/
  incoming : List UInt8
  sent : List UInt8

/-- The handler that the io thread runs next. -/
inductive RemoteHandler
  | writeMsg (failsAfter : Option Nat)
  | readMsg
  deriving DecidableEq

inductive RemoteAction
  /-- The events are those that are in the queue of the X server. -/
  | main (events : List XEvent)
  | service (handler : RemoteHandler)
  | spuriousWake
  deriving DecidableEq

def RemoteHandler.completion (incoming : List UInt8) : RemoteHandler → Completion
  | .writeMsg failsAfter => .write failsAfter.isSome
  | .readMsg => .read incoming

namespace StartUp

/-- `m_service.run()` finds that it has nothing to do. -/
def Idle (s : StartUp) : Prop := s.stopped ∨ (s.posted = [] ∧ s.reading = false)

instance (s : StartUp) : Decidable s.Idle := inferInstanceAs (Decidable (_ ∨ _))

theorem serve_of_idle {s : StartUp} (order : ByteOrder) (h : s.Idle) (c : Completion) :
    s.serve order c = some { s with thread := .serverClosed } :=
  if_pos h

theorem serve_of_busy {s : StartUp} (order : ByteOrder) (h : ¬ s.Idle) (c : Completion) :
    s.serve order c = match c with
      | .write fails => s.writeMsg fails
      | .read bytes => s.readMsg order bytes :=
  if_neg h

end StartUp

namespace RemoteGame

/-- `m_running` is not initialised. -/
def init (running : Bool) (incoming : List UInt8) : RemoteGame :=
  ⟨StartUp.new running, LocalClient.new, PlatformState.new, .addClient, incoming, []⟩

def goto (n : RemoteGame) (pc : RemotePc) : RemoteGame := { n with pc }

def withStatus (n : RemoteGame) (status : Monitor ClientThread) : RemoteGame :=
  { n with server := { n.server with status } }

def act (bytes : ByteOrder) (n : RemoteGame) (a : StartUpAction) : Option RemoteGame :=
  (StartUp.step bytes n.server a).map (fun server => { n with server })

def main (order : PopOrder) (bytes : ByteOrder) (setup : LocalGame.Setup) (n : RemoteGame) (events : List XEvent) :
    Option RemoteGame :=
  match n.pc with
  | .addClient =>
    (n.act bytes .client).map (fun n => n.goto (if n.server.client = .returned then .loadPlayer else .addClient))
  | .loadPlayer => (n.goto .loopHead).act bytes (.pushMessage (.loadPlayer setup.self playerTemplate))
  | .loopHead => some (n.goto (if n.platform.finished then .stop else .draining))
  | .draining =>
    match n.client.msgQueue with
    | [] => some (n.goto .events)
    | _ :: _ => (LocalClient.step order n.client .tryPop).map (fun client => { n with client })
  | .events =>
    let platform := n.platform.platformEvents setup.atoms setup.self events
    match platform.pushed.drop n.platform.pushed.length with
    | [] => some { n.goto .drawing with platform }
    | msg :: _ => { n.goto .drawing with platform }.act bytes (.pushMessage msg)
  | .drawing => some (n.goto .loopHead)
  -- `isLocal` is false, so the server is not told
  | .stop => (n.goto .lock).act bytes .waitForTermination
  | .lock => (n.server.status.lock .client).map (fun status => (n.goto .test).withStatus status)
  | .test => some (n.goto (if n.server.running then .wait else .unlock))
  | .wait => some ((n.goto .waiting).withStatus (n.server.status.wait .client))
  | .waiting => (n.server.status.relock .client).map (fun status => (n.goto .test).withStatus status)
  | .unlock => some ((n.goto .ended).withStatus n.server.status.unlock)
  | .ended => none

/-- What the next step of the io thread does outside the `RemoteServer`. -/
def served (order : PopOrder) (bytes : ByteOrder) (n : RemoteGame) (handler : RemoteHandler) : RemoteGame :=
  match n.server.thread with
  | .service =>
    if n.server.Idle then n
    else
      match handler with
      | .writeMsg failsAfter =>
        match n.server.posted with
        | [] => n
        | msg :: _ => { n with sent := n.sent ++ IoService.taken failsAfter (RemoteServer.writeMsg bytes msg) }
      | .readMsg =>
        match RemoteServer.round bytes n.incoming with
        | .next msg rest => { n with client := n.client.pushMessage order msg, incoming := rest }
        | .stop | .escaped _ => n
  | .serverClosed => { n with platform := { n.platform with finished := true } }
  | _ => n

/-- An exception that leaves the io thread ends the program. -/
def step (order : PopOrder) (bytes : ByteOrder) (setup : LocalGame.Setup) (n : RemoteGame) (a : RemoteAction) :
    Option RemoteGame :=
  if n.server.thread = .terminated then none
  else
    match a with
    | .main events => n.main order bytes setup events
    | .service handler => (n.served order bytes handler).act bytes (.service (handler.completion n.incoming))
    | .spuriousWake => n.act bytes .spuriousWake

/-- A step of the main thread in `waitForTermination`, while it waits for the io
thread. -/
inductive Awaits (n : RemoteGame) : RemotePc → Monitor ClientThread → Prop
  | lock (hpc : n.pc = .lock) (hfree : n.server.status.holder = none) :
    Awaits n .test { n.server.status with holder := some .client }
  | test (hpc : n.pc = .test) : Awaits n (if n.server.running then .wait else .unlock) n.server.status
  | wait (hpc : n.pc = .wait) : Awaits n .waiting (n.server.status.wait .client)
  | relock (hpc : n.pc = .waiting) (hawake : .client ∉ n.server.status.waiting)
    (hfree : n.server.status.holder = none) : Awaits n .test { n.server.status with holder := some .client }
  | unlock (hpc : n.pc = .unlock) : Awaits n .ended n.server.status.unlock

/-- What a step of the program is made of. -/
inductive Change (order : PopOrder) (bytes : ByteOrder) (setup : LocalGame.Setup) (n : RemoteGame) :
    RemoteAction → RemoteGame → Prop
  | addClient {events : List XEvent} {server : StartUp} (hpc : n.pc = .addClient)
    (hs : StartUp.step bytes n.server .client = some server) :
    Change order bytes setup n (.main events)
      { n with server, pc := if server.client = .returned then .loadPlayer else .addClient }
  | loadPlayer {events : List XEvent} {server : StartUp} (hpc : n.pc = .loadPlayer)
    (hs : StartUp.step bytes n.server (.pushMessage (.loadPlayer setup.self playerTemplate)) = some server) :
    Change order bytes setup n (.main events) { n with server, pc := .loopHead }
  | told {events : List XEvent} {server : StartUp} {state : UInt16} (hpc : n.pc = .events)
    (hpushed : (n.platform.platformEvents setup.atoms setup.self events).pushed =
      n.platform.pushed ++ [.input setup.self state])
    (hs : StartUp.step bytes n.server (.pushMessage (.input setup.self state)) = some server) :
    Change order bytes setup n (.main events)
      { n with server, platform := n.platform.platformEvents setup.atoms setup.self events, pc := .drawing }
  | quiet {events : List XEvent} (hpc : n.pc = .events)
    (hpushed : (n.platform.platformEvents setup.atoms setup.self events).pushed = n.platform.pushed) :
    Change order bytes setup n (.main events)
      { n with platform := n.platform.platformEvents setup.atoms setup.self events, pc := .drawing }
  | tryPop {events : List XEvent} {msg : ClientMsg} {rest : List ClientMsg} (hpc : n.pc = .draining)
    (hq : n.client.msgQueue = msg :: rest) :
    Change order bytes setup n (.main events) { n with client := { n.client with msgQueue := rest }.handle msg }
  | loopHead {events : List XEvent} (hpc : n.pc = .loopHead) :
    Change order bytes setup n (.main events) { n with pc := if n.platform.finished then .stop else .draining }
  | drained {events : List XEvent} (hpc : n.pc = .draining) (hq : n.client.msgQueue = []) :
    Change order bytes setup n (.main events) { n with pc := .events }
  | draw {events : List XEvent} (hpc : n.pc = .drawing) :
    Change order bytes setup n (.main events) { n with pc := .loopHead }
  | stop {events : List XEvent} {server : StartUp} (hpc : n.pc = .stop)
    (hs : StartUp.step bytes n.server .waitForTermination = some server) :
    Change order bytes setup n (.main events) { n with server, pc := .lock }
  | await {events : List XEvent} {pc : RemotePc} {status : Monitor ClientThread} (hw : n.Awaits pc status) :
    Change order bytes setup n (.main events) { n with server := { n.server with status }, pc }
  | service {handler : RemoteHandler} {server : StartUp}
    (hs : StartUp.step bytes n.server (.service (handler.completion n.incoming)) = some server) :
    Change order bytes setup n (.service handler) { n.served order bytes handler with server }
  | spuriousWake {server : StartUp} (hs : StartUp.step bytes n.server .spuriousWake = some server) :
    Change order bytes setup n .spuriousWake { n with server }

variable {order : PopOrder} {bytes : ByteOrder} {setup : LocalGame.Setup} {n n' : RemoteGame} {a : RemoteAction}

theorem act_eq_some {b : StartUpAction} : n.act bytes b = some n' ↔
    ∃ server, StartUp.step bytes n.server b = some server ∧ { n with server } = n' :=
  Option.map_eq_some_iff

theorem served_server (order : PopOrder) (bytes : ByteOrder) (n : RemoteGame) (handler : RemoteHandler) :
    (n.served order bytes handler).server = n.server := by
  unfold served
  repeat' split
  all_goals rfl

theorem served_platform (order : PopOrder) (bytes : ByteOrder) (n : RemoteGame) (handler : RemoteHandler) :
    (n.served order bytes handler).platform.keymap = n.platform.keymap ∧
      (n.served order bytes handler).platform.pushed = n.platform.pushed ∧
      (n.served order bytes handler).pc = n.pc := by
  unfold served
  repeat' split
  all_goals exact ⟨rfl, rfl, rfl⟩

theorem main_change {events : List XEvent} (h : n.main order bytes setup events = some n') :
    Change order bytes setup n (.main events) n' := by
  unfold RemoteGame.main at h
  split at h
  case h_1 hpc =>
    obtain ⟨m, hact, rfl⟩ := Option.map_eq_some_iff.mp h
    obtain ⟨server, hs, rfl⟩ := act_eq_some.mp hact
    exact .addClient hpc hs
  case h_2 hpc =>
    obtain ⟨server, hs, rfl⟩ := act_eq_some.mp h
    exact .loadPlayer hpc hs
  case h_3 hpc => cases h; exact .loopHead hpc
  case h_4 hpc =>
    split at h
    case h_1 hq => cases h; exact .drained hpc hq
    case h_2 msg rest hq =>
      obtain ⟨client, hclient, rfl⟩ := Option.map_eq_some_iff.mp h
      obtain rfl : { n.client with msgQueue := rest }.handle msg = client := by
        simpa [LocalClient.step, hq] using hclient
      exact .tryPop hpc hq
  case h_5 hpc =>
    rcases n.platform.pushed_platformEvents setup.atoms setup.self events with he | he
    · simp only [he, List.drop_length] at h
      cases h
      exact .quiet hpc he
    · simp only [he, List.drop_left] at h
      obtain ⟨server, hs, rfl⟩ := act_eq_some.mp h
      exact .told hpc he hs
  case h_6 hpc => cases h; exact .draw hpc
  case h_7 hpc =>
    obtain ⟨server, hs, rfl⟩ := act_eq_some.mp h
    exact .stop hpc hs
  case h_8 hpc =>
    obtain ⟨status, hlock, rfl⟩ := Option.map_eq_some_iff.mp h
    obtain ⟨hfree, rfl⟩ := Monitor.lock_eq_some.mp hlock
    exact .await (.lock hpc hfree)
  case h_9 hpc => cases h; exact .await (.test hpc)
  case h_10 hpc => cases h; exact .await (.wait hpc)
  case h_11 hpc =>
    obtain ⟨status, hlock, rfl⟩ := Option.map_eq_some_iff.mp h
    obtain ⟨hawake, hfree, rfl⟩ := Monitor.relock_eq_some.mp hlock
    exact .await (.relock hpc hawake hfree)
  case h_12 hpc => cases h; exact .await (.unlock hpc)
  case h_13 hpc => cases h

theorem step_change (h : step order bytes setup n a = some n') : Change order bytes setup n a n' := by
  simp only [step, Option.ite_none_left_eq_some] at h
  obtain ⟨-, h⟩ := h
  cases a with
  | main events => exact main_change h
  | service handler =>
    obtain ⟨server, hs, rfl⟩ := act_eq_some.mp h
    rw [served_server] at hs
    exact .service hs
  | spuriousWake =>
    obtain ⟨server, hs, rfl⟩ := act_eq_some.mp h
    exact .spuriousWake hs

end RemoteGame

end Quintses
