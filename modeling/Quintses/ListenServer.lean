import Quintses.ClientLifetime
import Quintses.Removal
import Quintses.Shutdown

/-! The whole of `qntsrv`: the io loop with its acceptor and its clients, the
game server behind them, and the calls that each makes on the other. A call of
`pushMessage` on a client posts a handler; the calls that a handler makes on the
server come before the handlers it posts itself. A run says something about the
program up to the first `readMsg` of an object that is gone. -/

namespace Quintses

open Lts

def ServerCall.action : ServerCall → Action
  | .addClient cli => .addClient cli
  | .removeClient cli => .removeClient cli
  | .pushMessage msg => .pushMessage msg

/-- The call on the server that a handler makes when it runs. -/
def IoService.serverCall (bytes : ByteOrder) (io : IoService) : IoAction → Option ServerCall
  | .accept self _ => some (.addClient self)
  | .runPosted (some _) =>
    match io.posted.head? with
    | some (self, .writeMsg _) =>
      (io.clients.find? self).bind (fun cli =>
        if cli.markedForDelete then none else some (.removeClient self))
    | _ => none
  | .completeRead self =>
    (io.clients.find? self).bind (fun cli =>
      if cli.markedForDelete then none
      else
        match RemoteClient.round bytes self cli.incoming with
        | .next msg _ => some (.pushMessage msg)
        | .stop => some (.removeClient self)
        | .escaped _ => none)
  | .runPosted none | .pushMessage _ _ | .abortRead _ => none

/-- `serverClosed` closes the socket, which then delivers nothing more. -/
def IoService.serverClosed (io : IoService) (c : ClientPtr) : IoService :=
  { io with clients := io.clients.modify c (fun cli => { cli with incoming := [] }) }

def Call.post? : Call → Option IoAction
  | .pushMessage c msg => some (.pushMessage c msg)
  | .serverClosed _ | .addPhysical _ _ _ _ _ | .delPhysical _ _ => none

def Call.closed? : Call → Option ClientPtr
  | .serverClosed c => some c
  | .pushMessage _ _ | .addPhysical _ _ _ _ _ | .delPhysical _ _ => none

def Event.call? : Event → Option Call
  | .call made => some made
  | .addClient _ | .removeClient _ | .received _ | .handled _ => none

/-- The calls made between two states of a run, oldest first. -/
def GameServer.callsUpTo (s s' : GameServer) : List Call :=
  ((s'.log.take (s'.log.length - s.log.length)).filterMap Event.call?).reverse

structure ListenServer extends QntSrv where
  io : IoService
  /-- The object on which the next connection is accepted. -/
  nextClient : ClientPtr
  /-- After an error nothing is accepted any more. -/
  accepting : Bool

inductive ListenAction
  /-- The bytes are those that the peer will send, the pointer is that of the
  `RemoteClient` allocated for the next connection. -/
  | handleAccept (incoming : List UInt8) (next : ClientPtr)
  | acceptError
  | handler (a : IoAction)
  | server
  | physics (mats : List Mat4)
  /-- `SignalHandler::signal`. -/
  | signal
  | watcher

/-- The step of the game server that is taken outside the io loop. -/
def ListenAction.game? : ListenAction → Option Action
  | .server => some .server
  | .physics mats => some (.physics mats)
  | .signal => some (.pushMessage (.shutdown 0))
  | .handleAccept _ _ | .acceptError | .handler _ | .watcher => none

namespace ListenServer

def init (playerSpawn : Mat4) (world : List WorldEntry) (nextClient : ClientPtr) : ListenServer :=
  ⟨QntSrv.init playerSpawn world, IoService.init, nextClient, true⟩

def Fresh (n : ListenServer) (c : ClientPtr) : Prop := c ≠ 0 ∧ .addClient c ∉ n.io.calls

instance (n : ListenServer) (c : ClientPtr) : Decidable (n.Fresh c) := inferInstanceAs (Decidable (_ ∧ _))

def isHandler : IoAction → Bool
  | .runPosted _ | .completeRead _ | .abortRead _ => true
  | .accept _ _ | .pushMessage _ _ => false

/-- A handler runs, and the server with it if the handler calls it. A call of
the server on a client whose object is gone has no defined effect. -/
def runHandler (order : PopOrder) (bytes : ByteOrder) (n : ListenServer) (a : IoAction) : Option ListenServer :=
  match n.io.serverCall bytes a with
  | none => (IoService.step bytes n.io a).map (fun io => { n with io })
  | some call => do
    let game ← GameServer.step order n.game call.action
    let io ← run (IoService.step bytes) n.io ((n.game.callsUpTo game).filterMap Call.post? ++ [a])
    return { n with game, io }

/-- `handleAccept` without an error. -/
def accept (order : PopOrder) (bytes : ByteOrder) (n : ListenServer) (incoming : List UInt8)
    (next : ClientPtr) : Option ListenServer := do
  let game ← GameServer.step order n.game (.addClient n.nextClient)
  let io ← run (IoService.step bytes) n.io
    (.accept n.nextClient incoming :: (n.game.callsUpTo game).filterMap Call.post?)
  return { n with game, io, nextClient := next }

def runGame (order : PopOrder) (bytes : ByteOrder) (n : ListenServer) (a : Action) : Option ListenServer := do
  let game ← GameServer.step order n.game a
  let io ← run (IoService.step bytes) n.io ((n.game.callsUpTo game).filterMap Call.post?)
  return { n with
    game
    io := ((n.game.callsUpTo game).filterMap Call.closed?).foldl IoService.serverClosed io }

def step (order : PopOrder) (bytes : ByteOrder) (n : ListenServer) : ListenAction → Option ListenServer
  | .handleAccept incoming next =>
    if n.serviceStopped = false ∧ n.accepting = true ∧ n.Fresh next ∧ next ≠ n.nextClient then
      n.accept order bytes incoming next
    else none
  | .acceptError =>
    if n.serviceStopped = false ∧ n.accepting = true then some { n with accepting := false } else none
  | .handler a => if n.serviceStopped = false ∧ isHandler a then n.runHandler order bytes a else none
  | .server => n.runGame order bytes .server
  | .physics mats => n.runGame order bytes (.physics mats)
  | .signal => n.runGame order bytes (.pushMessage (.shutdown 0))
  | .watcher =>
    if n.game.server.running ∨ n.serviceStopped then none else some { n with serviceStopped := true }

variable {order : PopOrder} {bytes : ByteOrder} {n n' : ListenServer}

/-- What a step of the program is made of. -/
inductive Change (order : PopOrder) (bytes : ByteOrder) (n : ListenServer) : ListenAction → ListenServer → Prop
  | accept {incoming : List UInt8} {next : ClientPtr} {game : GameServer} {io : IoService}
    (hnext : n.Fresh next) (hne : next ≠ n.nextClient)
    (hgame : GameServer.step order n.game (.addClient n.nextClient) = some game)
    (hio : run (IoService.step bytes) n.io
      (.accept n.nextClient incoming :: (n.game.callsUpTo game).filterMap Call.post?) = some io) :
    Change order bytes n (.handleAccept incoming next) { n with game, io, nextClient := next }
  | acceptError : Change order bytes n .acceptError { n with accepting := false }
  | alone {a : IoAction} {io : IoService} (ha : isHandler a = true) (hcall : n.io.serverCall bytes a = none)
    (hio : IoService.step bytes n.io a = some io) : Change order bytes n (.handler a) { n with io }
  | calling {a : IoAction} {call : ServerCall} {game : GameServer} {io : IoService} (ha : isHandler a = true)
    (hcall : n.io.serverCall bytes a = some call)
    (hgame : GameServer.step order n.game call.action = some game)
    (hio : run (IoService.step bytes) n.io ((n.game.callsUpTo game).filterMap Call.post? ++ [a]) = some io) :
    Change order bytes n (.handler a) { n with game, io }
  | game {l : ListenAction} {a : Action} {game : GameServer} {io : IoService} (hl : l.game? = some a)
    (hgame : GameServer.step order n.game a = some game)
    (hio : run (IoService.step bytes) n.io ((n.game.callsUpTo game).filterMap Call.post?) = some io) :
    Change order bytes n l { n with
      game
      io := ((n.game.callsUpTo game).filterMap Call.closed?).foldl IoService.serverClosed io }
  | watcher : Change order bytes n .watcher { n with serviceStopped := true }

theorem runGame_change {l : ListenAction} {a : Action} (hl : l.game? = some a)
    (h : n.runGame order bytes a = some n') : Change order bytes n l n' := by
  simp only [runGame, Option.bind_eq_bind, Option.bind_eq_some_iff] at h
  obtain ⟨game, hgame, io, hio, h⟩ := h
  cases h
  exact .game hl hgame hio

theorem step_change {a : ListenAction} (h : step order bytes n a = some n') : Change order bytes n a n' := by
  cases a with
  | handleAccept incoming next =>
    simp only [step] at h
    split at h
    case isFalse => cases h
    case isTrue hok =>
      obtain ⟨_, _, hnext, hne⟩ := hok
      simp only [ListenServer.accept, Option.bind_eq_bind, Option.bind_eq_some_iff] at h
      obtain ⟨game, hgame, io, hio, h⟩ := h
      cases h
      exact .accept hnext hne hgame hio
  | acceptError =>
    simp only [step] at h
    split at h <;> cases h
    exact .acceptError
  | handler a =>
    simp only [step] at h
    split at h
    case isFalse => cases h
    case isTrue hok =>
      simp only [runHandler] at h
      split at h
      case h_1 hcall =>
        obtain ⟨io, hio, rfl⟩ := Option.map_eq_some_iff.mp h
        exact .alone hok.2 hcall hio
      case h_2 call hcall =>
        simp only [Option.bind_eq_bind, Option.bind_eq_some_iff] at h
        obtain ⟨game, hgame, io, hio, h⟩ := h
        cases h
        exact .calling hok.2 hcall hgame hio
  | server => exact runGame_change rfl h
  | physics mats => exact runGame_change rfl h
  | signal => exact runGame_change rfl h
  | watcher =>
    simp only [step] at h
    split at h <;> cases h
    exact .watcher

end ListenServer

def Call.posted? : Call → Option (ClientPtr × PostedHandler)
  | .pushMessage c msg => some (c, .writeMsg msg)
  | .serverClosed _ | .addPhysical _ _ _ _ _ | .delPhysical _ _ => none

namespace IoService

variable {bytes : ByteOrder} {io io' : IoService} {a : IoAction}

theorem escaped_of_step (h : step bytes io a = some io') : io.escaped = none := by
  cases he : io.escaped with
  | none => rfl
  | some e => simp [step, he] at h

theorem step_calls (h : step bytes io a = some io') : io'.calls = (io.serverCall bytes a).toList ++ io.calls := by
  cases a with
  | accept self incoming =>
    obtain ⟨_, _, _, rfl⟩ := step_accept.mp h
    rfl
  | pushMessage self msg =>
    obtain ⟨_, _, rfl⟩ := step_pushMessage.mp h
    rfl
  | runPosted failsAfter =>
    obtain ⟨_, self, rest, ⟨msg, hp, rfl⟩ | ⟨hp, rfl⟩⟩ := step_runPosted.mp h
    · cases hf : io.clients.find? self with
      | none => cases failsAfter <;> simp [onObject, ran, serverCall, hp, hf]
      | some cli =>
        cases failsAfter with
        | none => simp [onObject, ran, serverCall, hf, IoService.writeMsg]
        | some k =>
          cases hm : cli.markedForDelete <;>
            simp [onObject, ran, serverCall, hp, hf, hm, IoService.writeMsg, tearDown]
    · cases hf : io.clients.find? self <;> cases failsAfter <;> simp [onObject, ran, serverCall, hp, hf, deleteSelf]
  | completeRead self =>
    obtain ⟨_, cli, hf, _, rfl⟩ := step_completeRead.mp h
    cases hm : cli.markedForDelete with
    | true =>
      obtain ⟨type, rest, he⟩ := readMsg_of_marked bytes (io.ran self .readMsg) self hm
      rw [he]
      simp [serverCall, hf, hm, ran]
    | false =>
      obtain ⟨type, left, ⟨msg, rest, hr, he⟩ | ⟨hr, he⟩ | ⟨e, hr, he⟩⟩ :=
        readMsg_of_unmarked bytes (io.ran self .readMsg) self hm
      · rw [he]
        simp [serverCall, hf, hm, hr, ran]
      · rw [he]
        simp [serverCall, hf, hm, hr, ran, tearDown]
      · rw [he]
        simp [serverCall, hf, hm, hr, ran]
  | abortRead self =>
    obtain ⟨_, _, rfl⟩ := step_abortRead.mp h
    rfl

/-- A handler calls the server for a client whose object lives, to remove it or
with a message that was read whole. -/
theorem serverCall_cases {call : ServerCall} (ha : ListenServer.isHandler a = true)
    (hcall : io.serverCall bytes a = some call) :
    ∃ self cli, io.clients.find? self = some cli ∧ cli.markedForDelete = false ∧
      (call = .removeClient self ∨ ∃ msg rest, a = .completeRead self ∧
        RemoteClient.round bytes self cli.incoming = .next msg rest ∧ call = .pushMessage msg) := by
  cases a with
  | runPosted failsAfter =>
    cases failsAfter with
    | none => cases hcall
    | some k =>
      simp only [serverCall] at hcall
      split at hcall
      case h_1 self msg hp =>
        obtain ⟨cli, hf, hcall⟩ := Option.bind_eq_some_iff.mp hcall
        cases hm : cli.markedForDelete with
        | true => simp [hm] at hcall
        | false =>
          simp only [hm, Bool.false_eq_true, if_false, Option.some.injEq] at hcall
          exact ⟨self, cli, hf, hm, Or.inl hcall.symm⟩
      case h_2 => cases hcall
  | completeRead self =>
    simp only [serverCall, Option.bind_eq_some_iff] at hcall
    obtain ⟨cli, hf, hcall⟩ := hcall
    cases hm : cli.markedForDelete with
    | true => simp [hm] at hcall
    | false =>
      simp only [hm, Bool.false_eq_true, if_false] at hcall
      cases hr : RemoteClient.round bytes self cli.incoming with
      | next msg rest =>
        simp only [hr, Option.some.injEq] at hcall
        exact ⟨self, cli, hf, hm, Or.inr ⟨msg, rest, rfl, hr, hcall.symm⟩⟩
      | stop =>
        simp only [hr, Option.some.injEq] at hcall
        exact ⟨self, cli, hf, hm, Or.inl hcall.symm⟩
      | escaped e => simp [hr] at hcall
  | abortRead self => cases hcall
  | accept self incoming => cases ha
  | pushMessage self msg => cases ha

def post (io : IoService) (calls : List Call) : IoService :=
  { io with posted := io.posted ++ calls.filterMap Call.posted? }

theorem run_posts {calls : List Call} (h : run (step bytes) io (calls.filterMap Call.post?) = some io') :
    io' = io.post calls := by
  induction calls generalizing io with
  | nil => simpa [post, eq_comm] using h
  | cons call calls ih =>
    cases call with
    | pushMessage c msg =>
      obtain ⟨io₁, hs, hr⟩ := run_cons_some.mp h
      obtain ⟨_, _, rfl⟩ := step_pushMessage.mp hs
      simpa [post, Call.posted?] using ih hr
    | _ => exact ih h

theorem posts_run (bytes : ByteOrder) (io : IoService) {calls : List Call} (hn : io.escaped = none)
    (hc : ∀ call ∈ calls, ∀ c, call.target = some c → io.Connected c) :
    run (step bytes) io (calls.filterMap Call.post?) = some (io.post calls) := by
  induction calls generalizing io with
  | nil => simp [post]
  | cons call calls ih =>
    have hrest : ∀ call ∈ calls, ∀ c, call.target = some c → io.Connected c :=
      fun call hm => hc call (List.mem_cons_of_mem _ hm)
    cases call with
    | pushMessage c msg =>
      have hs : step bytes io (.pushMessage c msg) = some { io with posted := io.posted ++ [(c, .writeMsg msg)] } :=
        step_pushMessage.mpr ⟨hn, hc _ List.mem_cons_self c rfl, rfl⟩
      have hrun := ih { io with posted := io.posted ++ [(c, .writeMsg msg)] } hn hrest
      exact run_cons_some.mpr ⟨_, hs, hrun.trans (by simp [post, Call.posted?])⟩
    | _ => exact ih io hn hrest

theorem Consistent.run_posts {calls : List Call} (h : io.Consistent)
    (hr : run (step bytes) io (calls.filterMap Call.post?) = some io') : io'.Consistent :=
  (along_of_step Consistent (fun _ _ _ hi hs => step_consistent hi hs) h _).last hr

/-- Handlers are posted at the end of the queue, so they do not get in the way of the one that runs. -/
theorem step_post_isSome (calls : List Call) (h : (step bytes io a).isSome) (ha : ListenServer.isHandler a = true) :
    (step bytes (io.post calls) a).isSome := by
  obtain ⟨io', h⟩ := Option.isSome_iff_exists.mp h
  cases a with
  | runPosted failsAfter =>
    obtain ⟨hn, self, rest, ⟨msg, hp, _⟩ | ⟨hp, _⟩⟩ := step_runPosted.mp h
    · simp [step, hn, post, hp]
    · simp [step, hn, post, hp]
  | completeRead self =>
    obtain ⟨hn, cli, hf, hr, _⟩ := step_completeRead.mp h
    simp [step, hn, post, hf, hr]
  | abortRead self =>
    obtain ⟨hn, hm, _⟩ := step_abortRead.mp h
    simp [step, hn, post, hm]
  | accept self incoming => cases ha
  | pushMessage self msg => cases ha

theorem serverCall_post {calls : List Call} {call : ServerCall} (h : io.serverCall bytes a = some call) :
    (io.post calls).serverCall bytes a = some call := by
  cases a with
  | runPosted failsAfter =>
    cases failsAfter with
    | none => cases h
    | some k =>
      cases hp : io.posted with
      | nil => simp [serverCall, hp] at h
      | cons e rest => simpa [serverCall, post, hp] using h
  | _ => exact h

theorem Consistent.serverClosed (h : io.Consistent) (c : ClientPtr) : (io.serverClosed c).Consistent := by
  cases hf : io.clients.find? c with
  | none =>
    rw [IoService.serverClosed, StdMap.modify_of_find?_none _ hf]
    exact h
  | some cli =>
    have hassign : io.clients.modify c (fun cli => { cli with incoming := [] }) =
        io.clients.assign c { cli with incoming := [] } := by
      refine StdMap.eq_of_find? (fun d => ?_)
      by_cases hd : d = c <;> simp [hd, hf]
    rw [IoService.serverClosed, hassign]
    exact h.update hf rfl (fun hm hn => h.reading hn c cli hf hm)

end IoService

end Quintses
