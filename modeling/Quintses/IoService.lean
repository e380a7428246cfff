import Quintses.Connection
import Quintses.Lts
import Quintses.StdMap
import Mathlib.Order.Nat

/-! The io loop of the listening server with all its `RemoteClient` objects.
Handlers run one at a time and posted handlers run in post order. A client
pointer stands for one object, not for an address that is used again. -/

namespace Quintses

structure RemoteClient where
  nextMsgType : UInt32
  markedForDelete : Bool
  /-- An `async_read` on the socket is outstanding. -/
  reading : Bool
  /-- The bytes the socket still delivers before it ends or fails. -/
  incoming : List UInt8
  sent : List UInt8
  deriving DecidableEq

inductive PostedHandler
  | writeMsg (msg : ClientMsg)
  | deleteSelf
  deriving DecidableEq

inductive HandlerName
  | writeMsg
  | readMsg
  | deleteSelf
  deriving DecidableEq

/-- The calls that clients make on their server. -/
inductive ServerCall
  | addClient (cli : ClientPtr)
  | removeClient (cli : ClientPtr)
  | pushMessage (msg : ServerMsg)
  deriving DecidableEq

/-- The lists `calls` and `history` have the newest entry first. -/
structure IoService where
  clients : StdMap ClientPtr RemoteClient
  posted : List (ClientPtr × PostedHandler)
  /-- Reads of destroyed sockets that have not completed yet. -/
  aborted : List ClientPtr
  calls : List ServerCall
  history : List (ClientPtr × HandlerName)
  /-- The exception that left a handler and with it `io_service::run`. -/
  escaped : Option ReadError

inductive IoAction
  | accept (self : ClientPtr) (incoming : List UInt8)
  | pushMessage (self : ClientPtr) (msg : ClientMsg)
  /-- The socket takes everything written, or fails after some bytes. -/
  | runPosted (failsAfter : Option Nat)
  | completeRead (self : ClientPtr)
  /-- The read of a destroyed socket completes. -/
  | abortRead (self : ClientPtr)

namespace IoService

def init : IoService := ⟨StdMap.empty, [], [], [], [], none⟩

def Connected (io : IoService) (self : ClientPtr) : Prop :=
  .addClient self ∈ io.calls ∧ .removeClient self ∉ io.calls

instance (io : IoService) (self : ClientPtr) : Decidable (io.Connected self) :=
  inferInstanceAs (Decidable (_ ∧ _))

def ran (io : IoService) (self : ClientPtr) (name : HandlerName) : IoService :=
  { io with history := (self, name) :: io.history }

/-- `addClient(this)` and the first `async_read`. -/
def spinup (io : IoService) (self : ClientPtr) (incoming : List UInt8) : IoService :=
  { io with
    clients := io.clients.assign self ⟨0, false, true, incoming, []⟩
    calls := .addClient self :: io.calls }

/-- `removeClient(this)`, the mark and the posted `deleteSelf`. -/
def tearDown (io : IoService) (self : ClientPtr) (cli : RemoteClient) : IoService :=
  { io with
    clients := io.clients.assign self { cli with markedForDelete := true }
    posted := io.posted ++ [(self, .deleteSelf)]
    calls := .removeClient self :: io.calls }

def writeMsg (order : ByteOrder) (io : IoService) (self : ClientPtr) (cli : RemoteClient)
    (msg : ClientMsg) (failsAfter : Option Nat) : IoService :=
  let bytes := RemoteClient.writeMsg order msg
  match failsAfter with
  | none => { io with clients := io.clients.assign self { cli with sent := cli.sent ++ bytes } }
  | some n =>
    let cli := { cli with sent := cli.sent ++ bytes.take n }
    if cli.markedForDelete then { io with clients := io.clients.assign self cli }
    else io.tearDown self cli

def readMsg (order : ByteOrder) (io : IoService) (self : ClientPtr) (cli : RemoteClient) : IoService :=
  let c := completeRead order cli.incoming
  let cli := { cli with reading := false, nextMsgType := c.2.1, incoming := c.2.2 }
  match RemoteClient.readMsg order self cli.markedForDelete c.1 cli.nextMsgType cli.incoming with
  | none => { io with clients := io.clients.assign self cli }
  | some (.next msg rest) =>
    { io with
      clients := io.clients.assign self { cli with reading := true, incoming := rest }
      calls := .pushMessage msg :: io.calls }
  | some .stop => io.tearDown self cli
  | some (.escaped e) => { io with clients := io.clients.assign self cli, escaped := some e }

/-- `delete this`: the socket goes with the object and an outstanding read
completes later with `operation_aborted`. -/
def deleteSelf (io : IoService) (self : ClientPtr) (cli : RemoteClient) : IoService :=
  { io with
    clients := io.clients.erase self
    aborted := if cli.reading then io.aborted ++ [self] else io.aborted }

/-- A handler of an object that is gone has no defined effect; it is only recorded. -/
def onObject (io : IoService) (self : ClientPtr) (f : RemoteClient → IoService) : IoService :=
  match io.clients.find? self with
  | none => io
  | some cli => f cli

/-- Once an exception has left the loop nothing runs any more. `abortRead` is the
`readMsg` of an object that is gone: the source looks at freed memory there, so
what a run does after it says nothing about the program. -/
def step (order : ByteOrder) (io : IoService) (a : IoAction) : Option IoService :=
  if io.escaped.isSome then none
  else
    match a with
    | .accept self incoming =>
      if self = 0 ∨ .addClient self ∈ io.calls then none else some (io.spinup self incoming)
    | .pushMessage self msg =>
      if io.Connected self then some { io with posted := io.posted ++ [(self, .writeMsg msg)] } else none
    | .runPosted failsAfter =>
      match io.posted with
      | [] => none
      | (self, .writeMsg msg) :: rest =>
        let io := { io with posted := rest }.ran self .writeMsg
        some (io.onObject self (fun cli => io.writeMsg order self cli msg failsAfter))
      | (self, .deleteSelf) :: rest =>
        let io := { io with posted := rest }.ran self .deleteSelf
        some (io.onObject self (fun cli => io.deleteSelf self cli))
    | .completeRead self =>
      match io.clients.find? self with
      | some cli => if cli.reading then some ((io.ran self .readMsg).readMsg order self cli) else none
      | none => none
    | .abortRead self =>
      if self ∈ io.aborted then some ({ io with aborted := io.aborted.erase self }.ran self .readMsg) else none

variable {order : ByteOrder} {io io' : IoService} {self : ClientPtr} {cli cli' : RemoteClient}

theorem step_accept {incoming : List UInt8} : step order io (.accept self incoming) = some io' ↔
    io.escaped = none ∧ self ≠ 0 ∧ .addClient self ∉ io.calls ∧ io' = io.spinup self incoming := by
  cases he : io.escaped <;> simp [step, he, and_assoc, eq_comm (b := io')]

theorem step_pushMessage {msg : ClientMsg} : step order io (.pushMessage self msg) = some io' ↔
    io.escaped = none ∧ io.Connected self ∧
      io' = { io with posted := io.posted ++ [(self, .writeMsg msg)] } := by
  cases he : io.escaped with
  | some e => simp [step, he]
  | none => simp only [step, he, Option.isSome_none, Bool.false_eq_true, if_false,
      Option.ite_none_right_eq_some, Option.some.injEq, true_and, eq_comm (b := io')]

theorem step_runPosted {failsAfter : Option Nat} : step order io (.runPosted failsAfter) = some io' ↔
    io.escaped = none ∧ ∃ self rest,
      (∃ msg, io.posted = (self, .writeMsg msg) :: rest ∧
        io' = ({ io with posted := rest }.ran self .writeMsg).onObject self
          (fun cli => ({ io with posted := rest }.ran self .writeMsg).writeMsg order self cli msg failsAfter)) ∨
      (io.posted = (self, .deleteSelf) :: rest ∧
        io' = ({ io with posted := rest }.ran self .deleteSelf).onObject self
          (fun cli => ({ io with posted := rest }.ran self .deleteSelf).deleteSelf self cli)) := by
  cases he : io.escaped with
  | some e => simp [step, he]
  | none =>
    cases hp : io.posted with
    | nil => simp [step, he, hp]
    | cons entry rest =>
      obtain ⟨c, handler⟩ := entry
      cases handler with
      | writeMsg msg => simp [step, he, hp, eq_comm (b := io')]
      | deleteSelf => simp [step, he, hp, eq_comm (b := io')]

theorem step_completeRead : step order io (.completeRead self) = some io' ↔
    io.escaped = none ∧ ∃ cli, io.clients.find? self = some cli ∧ cli.reading = true ∧
      io' = (io.ran self .readMsg).readMsg order self cli := by
  cases he : io.escaped with
  | some e => simp [step, he]
  | none =>
    cases hf : io.clients.find? self with
    | none => simp [step, he, hf]
    | some cli => simp [step, he, hf, eq_comm (b := io')]

theorem step_abortRead : step order io (.abortRead self) = some io' ↔
    io.escaped = none ∧ self ∈ io.aborted ∧
      io' = { io with aborted := io.aborted.erase self }.ran self .readMsg := by
  cases he : io.escaped <;> simp [step, he, eq_comm (b := io')]

theorem writeMsg_cases (order : ByteOrder) (io : IoService) (self : ClientPtr) (cli : RemoteClient)
    (msg : ClientMsg) (failsAfter : Option Nat) : ∃ sent,
    io.writeMsg order self cli msg failsAfter =
      { io with clients := io.clients.assign self { cli with sent := sent } } ∨
    cli.markedForDelete = false ∧
      io.writeMsg order self cli msg failsAfter = io.tearDown self { cli with sent := sent } := by
  cases failsAfter with
  | none => exact ⟨_, Or.inl rfl⟩
  | some n =>
    refine ⟨cli.sent ++ (RemoteClient.writeMsg order msg).take n, ?_⟩
    cases hm : cli.markedForDelete with
    | true => exact Or.inl (by simp [writeMsg, hm])
    | false => exact Or.inr ⟨rfl, by simp [writeMsg, hm]⟩

theorem readMsg_of_marked (order : ByteOrder) (io : IoService) (self : ClientPtr)
    (hm : cli.markedForDelete = true) : ∃ type rest,
    let done := { cli with reading := false, nextMsgType := type, incoming := rest }
    io.readMsg order self cli = { io with clients := io.clients.assign self done } :=
  ⟨(completeRead order cli.incoming).2.1, (completeRead order cli.incoming).2.2,
    by simp [readMsg, RemoteClient.readMsg, hm]⟩

theorem readMsg_of_unmarked (order : ByteOrder) (io : IoService) (self : ClientPtr)
    (hm : cli.markedForDelete = false) : ∃ type left,
    let done := { cli with reading := false, nextMsgType := type, incoming := left }
    (∃ msg rest, RemoteClient.round order self cli.incoming = .next msg rest ∧
      io.readMsg order self cli =
        { io with
          clients := io.clients.assign self { done with reading := true, incoming := rest }
          calls := .pushMessage msg :: io.calls }) ∨
    (RemoteClient.round order self cli.incoming = .stop ∧
      io.readMsg order self cli = io.tearDown self done) ∨
    (∃ e, RemoteClient.round order self cli.incoming = .escaped e ∧
      io.readMsg order self cli =
        { io with clients := io.clients.assign self done, escaped := some e }) := by
  refine ⟨(completeRead order cli.incoming).2.1, (completeRead order cli.incoming).2.2, ?_⟩
  have hround : RemoteClient.round order self cli.incoming = dispatch (completeRead order cli.incoming).1
      (ServerMsg.create (completeRead order cli.incoming).2.1 self) (ServerMsg.read order)
      (completeRead order cli.incoming).2.2 := rfl
  cases hr : RemoteClient.round order self cli.incoming with
  | next msg rest =>
    refine Or.inl ⟨msg, rest, rfl, ?_⟩
    simp [readMsg, RemoteClient.readMsg, hm, ← hround, hr]
  | stop =>
    refine Or.inr (Or.inl ⟨rfl, ?_⟩)
    simp [readMsg, RemoteClient.readMsg, hm, ← hround, hr]
  | escaped e =>
    refine Or.inr (Or.inr ⟨e, rfl, ?_⟩)
    simp [readMsg, RemoteClient.readMsg, hm, ← hround, hr]

end IoService

end Quintses
