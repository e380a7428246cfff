import Quintses.Connection
import Quintses.Custody
import Quintses.LocalClient
import Quintses.PhysicsDelete

/-! Who holds which `ServerMsg` and `ClientMsg`. For each function that gets a
message by pointer the model lists its reads of members, its `delete` and its
pushes in the order of the source; between two of them every other thread may
run. Where a list pushes the message or ends the program, the model of what the
function computes does so too. -/

namespace Quintses

inductive AnyMsg
  | server (msg : ServerMsg)
  | client (msg : ClientMsg)

/-- The queues, and the posted `writeMsg` handlers of each connection. -/
inductive Place
  | serverQueue
  | physicsQueue
  | clientQueue
  | remoteClient (self : ClientPtr)
  | remoteServer
  deriving DecidableEq

/-- The loops that take messages out, the last two of them an `io_service`. -/
inductive Loop
  | server
  | physics
  | client
  | serverService
  | clientService
  deriving DecidableEq

inductive WritePart
  | type
  | body

/-- What the code calls decides: whether a drawable or an object is found, where
a write fails, whether `read` throws and whether `m_client` is set. -/
structure CallOutcome where
  found : Bool
  fails : Option WritePart
  throws : Bool
  client : Bool

abbrev MsgOp := CustodyOp Place

def LocalServer.loadPlayerOps : List MsgOp :=
  -- `m_sender`, and the template for the physics and for the clients
  [.access, .access, .access]

/-- The switch in `LocalServer::run`, which reads the type first. -/
def LocalServer.runOps : ServerMsg → List MsgOp
  | .shutdown _ => [.access, .delete]
  | .input _ _ => [.access, .push .physicsQueue]
  | .loadPlayer _ _ => .access :: (LocalServer.loadPlayerOps ++ [.delete])
  | .bullet _ => [.access, .delete]

/-- The switch in `BtPhysics::parseMessage` and the `delete` after it. To delete
an object that is not there reads through a null pointer. -/
def BtPhysics.parseOps (found : Bool) (msg : ServerMsg) : List MsgOp :=
  .access :: (match msg with
    | .bullet (.forceState _ _) => [.access, .access]
    | .input _ _ => [.access, .access]
    | .bullet (.addPhys _ template _) =>
      match planes.find? (fun i => i.1 = template) with
      | none => [.access, .access]
      | some _ => [.access, .access, .access]
    | .bullet (.addChar _ _ _) => [.access, .access]
    | .bullet (.delPhys _) => .access :: .access :: (if found then [] else [.escape])
    | .bullet (.delChar _) => .access :: .access :: (if found then [] else [.escape])
    | .shutdown _ | .loadPlayer _ _ => []) ++ [.delete]

/-- `GlRender::pushMessage` keeps nothing of the message; it stops early when
the drawable is there already, or is not there. -/
def GlRender.pushMessageOps (found : Bool) : ClientMsg → List MsgOp
  | .addDrawable _ => .access :: .access :: (if found then [] else [.access, .access])
  | .transDrawable _ => .access :: .access :: (if found then [.access] else [])
  | .delDrawable _ => [.access, .access]
  | .addAudible _ | .transAudible _ | .delAudible _ => [.access]

/-- The switch in `LocalClient::mainloop` and the `delete` after it. -/
def LocalClient.mainloopOps (found : Bool) (msg : ClientMsg) : List MsgOp :=
  .access :: (match msg with
    | .addDrawable _ | .transDrawable _ | .delDrawable _ => GlRender.pushMessageOps found msg
    | .addAudible _ | .transAudible _ | .delAudible _ => []) ++ [.delete]

/-- Both `writeMsg`: the exception of a failed write is caught before the `delete`. -/
def writeMsgOps (fails : Option WritePart) : List MsgOp :=
  (match fails with
    | some .type => [.access]
    | some .body => [.access, .access]
    | none => [.access, .access]) ++ [.delete]

/-- From `ServerMsg::create` on; what `read` throws is not caught. -/
def RemoteClient.readMsgOps (throws : Bool) : List MsgOp :=
  .access :: (if throws then [.escape] else [.push .serverQueue])

def RemoteServer.readMsgOps (throws client : Bool) : List MsgOp :=
  .access :: (if throws then [.escape] else if client then [.push .clientQueue] else [.delete])

def AnyMsg.carried : AnyMsg → Place → Bool
  | .server _, .serverQueue | .server _, .physicsQueue | .server _, .remoteServer => true
  | .client _, .clientQueue | .client _, .remoteClient _ => true
  | _, _ => false

def Loop.serves : Loop → Place → Bool
  | .server, .serverQueue => true
  | .physics, .physicsQueue => true
  | .client, .clientQueue => true
  | .serverService, .remoteClient _ => true
  | .clientService, .remoteServer => true
  | _, _ => false

def Loop.creates : Loop → AnyMsg → Bool
  | .serverService, .server _ => true
  | .clientService, .client _ => true
  | _, _ => false

def Place.ops (o : CallOutcome) : Place → AnyMsg → List MsgOp
  | .serverQueue, .server msg => LocalServer.runOps msg
  | .physicsQueue, .server msg => BtPhysics.parseOps o.found msg
  | .clientQueue, .client msg => LocalClient.mainloopOps o.found msg
  | .remoteClient _, .client _ => writeMsgOps o.fails
  | .remoteServer, .server _ => writeMsgOps o.fails
  | _, _ => []

def Loop.createOps (o : CallOutcome) : Loop → List MsgOp
  | .serverService => RemoteClient.readMsgOps o.throws
  | .clientService => RemoteServer.readMsgOps o.throws o.client
  | .server | .physics | .client => []

open Custody

theorem linear_accesses {carries : Place → Bool} {ops ops' : List MsgOp} (h : ∀ op ∈ ops, op = .access)
    (h' : Linear carries ops') : Linear carries (ops ++ ops') := by
  induction ops with
  | nil => exact h'
  | cons op ops ih =>
    obtain rfl := h op List.mem_cons_self
    exact ih (fun op hm => h op (List.mem_cons_of_mem _ hm))

theorem LocalServer.runOps_linear (msg : ServerMsg) :
    Linear (AnyMsg.server msg).carried (LocalServer.runOps msg) := by
  cases msg with
  | input sender state => exact ⟨rfl, rfl⟩
  | _ => rfl

/-- No branch of the switch returns before the `delete`. -/
theorem BtPhysics.parseOps_linear {carries : Place → Bool} (found : Bool) (msg : ServerMsg) :
    Linear carries (BtPhysics.parseOps found msg) := by
  cases msg with
  | bullet b =>
    cases b with
    | addPhys objid template matrix =>
      simp only [parseOps]
      split <;> rfl
    | delPhys objid =>
      cases found
      · trivial
      · rfl
    | delChar objid =>
      cases found
      · trivial
      · rfl
    | _ => rfl
  | _ => rfl

theorem LocalClient.mainloopOps_linear {carries : Place → Bool} (found : Bool) (msg : ClientMsg) :
    Linear carries (LocalClient.mainloopOps found msg) := by
  refine linear_accesses (fun op hm => ?_) (show Linear carries [.delete] from rfl)
  rcases List.mem_cons.mp hm with rfl | hm
  · rfl
  · cases msg with
    | addDrawable msg => cases found <;> simpa [GlRender.pushMessageOps] using hm
    | transDrawable msg => cases found <;> simpa [GlRender.pushMessageOps] using hm
    | delDrawable msg => simpa [GlRender.pushMessageOps] using hm
    | _ => cases hm

theorem writeMsgOps_linear {carries : Place → Bool} (fails : Option WritePart) :
    Linear carries (writeMsgOps fails) := by
  cases fails with
  | none => rfl
  | some part => cases part <;> rfl

/-- The message itself enters the physics queue as often as the list pushes it. -/
theorem LocalServer.runOps_push (order : PopOrder) {s : GameServer} (hlive : s.physicsDeleted = false)
    (msg : ServerMsg) : (s.handle order msg).physics.msgQueue.count msg =
      s.physics.msgQueue.count msg + (LocalServer.runOps msg).count (.push .physicsQueue) := by
  cases msg with
  | shutdown sender => rfl
  | bullet b => rfl
  | input sender state =>
    have hqueue : (s.handle order (.input sender state)).physics.msgQueue =
        order.add s.physics.msgQueue (.input sender state) := by
      simp [GameServer.handle, GameServer.onPhysics, GameServer.goto, GameServer.record, hlive, BtPhysics.pushMessage]
    rw [hqueue, (order.perm_add _ _).count_eq, List.count_cons_self]
    rfl
  | loadPlayer sender template =>
    -- what it pushes are other messages
    let calls := (s.server.loadPlayer sender template).2
    have hqueue : (s.handle order (.loadPlayer sender template)).physics.msgQueue =
        (calls.filterMap Call.toPhysics).foldl order.add s.physics.msgQueue := by
      simp [GameServer.handle, GameServer.apply_eq, GameServer.performed, GameServer.goto, GameServer.record, hlive,
        BtPhysics.enqueue, calls]
    have hother : (calls.filterMap Call.toPhysics).count (.loadPlayer sender template) = 0 := by
      refine List.count_eq_zero.mpr (fun hm => ?_)
      obtain ⟨call, _, hcall⟩ := List.mem_filterMap.mp hm
      obtain ⟨b, he⟩ := GameServer.toPhysics_bullet hcall
      cases he
    rw [hqueue, (order.perm_foldl_add _ _).count_eq, List.count_append, hother, Nat.zero_add]
    rfl

/-- The list ends the program where the function reads through a null pointer. -/
theorem BtPhysics.parseOps_escape_iff {p : BtPhysics} {msg : ServerMsg} (srv : LocalServer) {found : Bool}
    (hfound : found = false ↔ p.Misses msg) :
    .escape ∈ BtPhysics.parseOps found msg ↔ ∃ e, p.parseMessage msg srv = .error e := by
  rw [parseMessage_error_iff, ← hfound]
  have hfinds (hnot : ¬ p.Misses msg) : found = true := by simpa using fun he => hnot (hfound.mp he)
  cases msg with
  | bullet b =>
    cases b with
    | delPhys id => cases found <;> simp [parseOps]
    | delChar id => cases found <;> simp [parseOps]
    | addPhys id template matrix =>
      rw [hfinds (fun hm => by cases hm)]
      simp only [parseOps]
      split <;> simp
    | _ =>
      rw [hfinds (fun hm => by cases hm)]
      simp [parseOps]
  | _ =>
    rw [hfinds (fun hm => by cases hm)]
    simp [parseOps]

theorem dispatch_iff {μ : Type} {read : μ → SocketReader μ} {s : List UInt8} {m : μ} {throws : Bool}
    (ht : throws = true ↔ ∃ e, read m s = .error e) :
    (throws = false ↔ ∃ msg rest, dispatch false (some m) read s = .next msg rest) ∧
      (throws = true ↔ ∃ e, dispatch false (some m) read s = .escaped e) := by
  cases hr : read m s with
  | ok r =>
    have hno : throws = false := by simpa [hr] using ht
    simp [dispatch, hr, hno]
  | error e =>
    have hyes : throws = true := ht.mpr ⟨e, hr⟩
    simp [dispatch, hr, hyes]

/-- The message that was created is pushed if the round hands it on, and the
exception leaves the handler if the round lets it. -/
theorem RemoteClient.readMsgOps_iff {order : ByteOrder} {self : ClientPtr} {type : UInt32} {s : List UInt8}
    {m : ServerMsg} (hm : ServerMsg.create type self = some m) {throws : Bool}
    (ht : throws = true ↔ ∃ e, ServerMsg.read order m s = .error e) :
    (.push .serverQueue ∈ RemoteClient.readMsgOps throws ↔
      ∃ msg rest, RemoteClient.readMsg order self false false type s = some (.next msg rest)) ∧
    (.escape ∈ RemoteClient.readMsgOps throws ↔
      ∃ e, RemoteClient.readMsg order self false false type s = some (.escaped e)) := by
  obtain ⟨hnext, hescaped⟩ := dispatch_iff ht
  simp only [RemoteClient.readMsg, hm, Bool.false_eq_true, if_false, Option.some.injEq, ← hnext, ← hescaped]
  cases throws <;> simp [readMsgOps]

theorem RemoteServer.readMsgOps_iff {order : ByteOrder} {type : UInt32} {s : List UInt8} {m : ClientMsg}
    (hm : ClientMsg.create type = some m) {throws client : Bool}
    (ht : throws = true ↔ ∃ e, ClientMsg.read order m s = .error e) :
    (.push .clientQueue ∈ RemoteServer.readMsgOps throws client ↔
      client = true ∧ ∃ msg rest, RemoteServer.readMsg order false type s = .next msg rest) ∧
    (.escape ∈ RemoteServer.readMsgOps throws client ↔ ∃ e, RemoteServer.readMsg order false type s = .escaped e) := by
  obtain ⟨hnext, hescaped⟩ := dispatch_iff ht
  simp only [RemoteServer.readMsg, hm, ← hnext, ← hescaped]
  cases throws <;> cases client <;> simp [readMsgOps]

/-- The main loop keeps nothing of a message, and neither does the renderer. -/
theorem LocalClient.mainloopOps_push (c : LocalClient) (found : Bool) (msg : ClientMsg) :
    (c.handle msg).msgQueue = c.msgQueue ∧ ∀ p, .push p ∉ LocalClient.mainloopOps found msg := by
  cases msg with
  | addDrawable msg => cases found <;> simp [LocalClient.handle, mainloopOps, GlRender.pushMessageOps]
  | transDrawable msg => cases found <;> simp [LocalClient.handle, mainloopOps, GlRender.pushMessageOps]
  | _ => simp [LocalClient.handle, mainloopOps, GlRender.pushMessageOps]

theorem Place.ops_linear (o : CallOutcome) (p : Place) (m : AnyMsg) (h : m.carried p = true) :
    Linear m.carried (p.ops o m) := by
  cases m with
  | server msg =>
    cases p with
    | serverQueue => exact LocalServer.runOps_linear msg
    | physicsQueue => exact BtPhysics.parseOps_linear o.found msg
    | remoteServer => exact writeMsgOps_linear o.fails
    | clientQueue => cases h
    | remoteClient self => cases h
  | client msg =>
    cases p with
    | clientQueue => exact LocalClient.mainloopOps_linear o.found msg
    | remoteClient self => exact writeMsgOps_linear o.fails
    | serverQueue => cases h
    | physicsQueue => cases h
    | remoteServer => cases h

theorem Loop.createOps_linear (o : CallOutcome) (t : Loop) (m : AnyMsg) (h : t.creates m = true) :
    Linear m.carried (t.createOps o) := by
  cases t with
  | serverService =>
    cases m with
    | server msg =>
      simp only [createOps, RemoteClient.readMsgOps]
      cases o.throws
      · exact ⟨rfl, rfl⟩
      · trivial
    | client msg => cases h
  | clientService =>
    cases m with
    | server msg => cases h
    | client msg =>
      simp only [createOps, RemoteServer.readMsgOps]
      cases o.throws
      · cases o.client
        · rfl
        · exact ⟨rfl, rfl⟩
      · trivial
  | server => cases m <;> cases h
  | physics => cases m <;> cases h
  | client => cases m <;> cases h

def messageRules : Rules Place Loop AnyMsg CallOutcome where
  carries := AnyMsg.carried
  serves := Loop.serves
  creates := Loop.creates
  plan p m o := p.ops o m
  createPlan t _ o := t.createOps o
  plan_linear p m o h := p.ops_linear o m h
  createPlan_linear t m o h := t.createOps_linear o m h

/-- The ownership of messages is linear in every run of the loops, the handlers
and whoever else pushes messages. -/
theorem messages_owned_linearly (as : List (CustodyAction Place Loop AnyMsg CallOutcome)) :
    Lts.Along (step messageRules) Sound new as :=
  along_sound messageRules as

end Quintses
