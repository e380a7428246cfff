import Quintses.Frames
import Quintses.Wire

/-! The two ends of a connection, `client/remoteserver.cpp` and
`server/remoteclient.cpp`. Each end has one read of the type word outstanding,
whose completion runs `readMsg`. -/

namespace Quintses

open SocketWrapper

/-- The completion of `async_read` on `m_next_msg_type`: whether it reports an
error, the type, and what follows it. After an error nobody looks at the type. -/
def completeRead (order : ByteOrder) (s : List UInt8) : Bool × UInt32 × List UInt8 :=
  match readPod order UInt32 s with
  | .ok (type, rest) => (false, type, rest)
  | .error _ => (true, 0, [])

/-- The common part of both `readMsg`: `stop` on an error code or an unknown
type, and whatever `read` throws is not caught. -/
def dispatch {μ : Type} (err : Bool) (msg : Option μ) (read : μ → SocketReader μ) (s : List UInt8) :
    Outcome UInt8 μ ReadError :=
  if err then .stop
  else
    match msg with
    | none => .stop
    | some msg =>
      match read msg s with
      | .ok (msg, rest) => .next msg rest
      | .error e => .escaped e

def typedRound {μ : Type} (order : ByteOrder) (create : UInt32 → Option μ) (read : μ → SocketReader μ)
    (s : List UInt8) : Outcome UInt8 μ ReadError :=
  dispatch (completeRead order s).1 (create (completeRead order s).2.1) read (completeRead order s).2.2

namespace RemoteServer

def writeMsg (order : ByteOrder) (msg : ServerMsg) : List UInt8 :=
  writePod order msg.type ++ msg.write order

/-- `stop` is `m_service.stop()`. -/
def readMsg (order : ByteOrder) (err : Bool) (nextMsgType : UInt32) (s : List UInt8) :
    Outcome UInt8 ClientMsg ReadError :=
  dispatch err (ClientMsg.create nextMsgType) (ClientMsg.read order) s

def round (order : ByteOrder) (s : List UInt8) : Outcome UInt8 ClientMsg ReadError :=
  let c := completeRead order s
  readMsg order c.1 c.2.1 c.2.2

/-- The messages pushed to `m_client`, and whether `serverClosed` is called on
it or which exception leaves `run`; `none` if the bound on the rounds is hit. -/
def run (order : ByteOrder) (client : ClientPtr) (fuel : Nat) (s : List UInt8) :
    Option (List ClientMsg × Except ReadError Bool) :=
  (Frames.receive (round order) fuel s).map (fun r =>
    (if client = 0 then [] else r.1, r.2.map (fun _ => client != 0)))

end RemoteServer

namespace RemoteClient

def writeMsg (order : ByteOrder) (msg : ClientMsg) : List UInt8 :=
  writePod order msg.type ++ msg.write order

/-- `none` where it returns at once; `stop` is `removeClient` followed by the
posted `deleteSelf`. -/
def readMsg (order : ByteOrder) (self : ClientPtr) (markedForDelete err : Bool) (nextMsgType : UInt32)
    (s : List UInt8) : Option (Outcome UInt8 ServerMsg ReadError) :=
  if markedForDelete then none
  else some (dispatch err (ServerMsg.create nextMsgType self) (ServerMsg.read order) s)

def round (order : ByteOrder) (self : ClientPtr) (s : List UInt8) : Outcome UInt8 ServerMsg ReadError :=
  let c := completeRead order s
  (readMsg order self false c.1 c.2.1 c.2.2).getD .stop

end RemoteClient

theorem completeRead_append (order : ByteOrder) (type : UInt32) (rest : List UInt8) :
    completeRead order (writePod order type ++ rest) = (false, type, rest) := by
  simp [completeRead, (reads_readPod order UInt32).run rfl]

theorem completeRead_of_lt (order : ByteOrder) {s : List UInt8} (h : s.length < 4) :
    completeRead order s = (true, 0, []) := by
  have hread : readPod order UInt32 s = .error .systemError := by
    rw [readPod, Reader.bind_run, SocketWrapper.read]
    exact congrArg (Except.bind · _) (Reader.take_of_lt h)
  simp [completeRead, hread]

theorem typeWord_cases (order : ByteOrder) (s : List UInt8) :
    s.length < 4 ∨ ∃ (type : UInt32) (rest : List UInt8), s = writePod order type ++ rest := by
  by_cases h : s.length < 4
  · exact Or.inl h
  · refine Or.inr ⟨Pod.ofBytes order (s.take 4), s.drop 4, ?_⟩
    have hlen : (s.take 4).length = Pod.size UInt32 := by
      change _ = 4
      simp
      omega
    rw [writePod, Pod.toBytes_ofBytes order _ hlen, List.take_append_drop]

theorem length_typeWord (order : ByteOrder) (type : UInt32) : (writePod order type).length = 4 :=
  Pod.length_toBytes order type

theorem typeWord_inj {order : ByteOrder} {type type' : UInt32} {rest rest' : List UInt8}
    (h : writePod order type ++ rest = writePod order type' ++ rest') : type = type' ∧ rest = rest' := by
  have hh := congrArg (completeRead order) h
  simpa [completeRead_append] using hh

section

variable {μ : Type} {order : ByteOrder} {create : UInt32 → Option μ} {read : μ → SocketReader μ}
  {layout : UInt32 → List UInt8 → μ → Prop}

/-- The stream ends within a type word or goes on with an unknown type. -/
def NoMessage (order : ByteOrder) (create : UInt32 → Option μ) (s : List UInt8) : Prop :=
  s.length < 4 ∨ ∃ (type : UInt32) (rest : List UInt8), s = writePod order type ++ rest ∧ create type = none

/-- A known type and the whole body of a message of that type. -/
def Message (order : ByteOrder) (create : UInt32 → Option μ) (layout : UInt32 → List UInt8 → μ → Prop)
    (bs : List UInt8) (msg : μ) : Prop :=
  ∃ (type : UInt32) (body : List UInt8), bs = writePod order type ++ body ∧ (create type).isSome ∧
    layout type body msg

theorem Message.ne_nil {bs : List UInt8} {msg : μ} (h : Message order create layout bs msg) :
    bs ≠ [] := by
  rintro rfl
  obtain ⟨type, body, he, _⟩ := h
  have := congrArg List.length he
  simp [length_typeWord] at this
  omega

theorem typedRound_stop_iff (order : ByteOrder) (create : UInt32 → Option μ) (read : μ → SocketReader μ)
    (s : List UInt8) :
    typedRound order create read s = .stop ↔ NoMessage order create s := by
  rcases typeWord_cases order s with hs | ⟨type, rest, rfl⟩
  · simp [typedRound, completeRead_of_lt order hs, dispatch, NoMessage, hs]
  · have hlen : ¬ (writePod order type ++ rest).length < 4 := by
      simp [length_typeWord]
    simp only [typedRound, completeRead_append, NoMessage, hlen, false_or]
    cases hc : create type with
    | none =>
      have hno : ∃ (type' : UInt32) (rest' : List UInt8),
          writePod order type ++ rest = writePod order type' ++ rest' ∧ create type' = none :=
        ⟨type, rest, rfl, hc⟩
      simp only [hno, iff_true, dispatch]
      rfl
    | some msg =>
      have hno : ¬ ∃ (type' : UInt32) (rest' : List UInt8),
          writePod order type ++ rest = writePod order type' ++ rest' ∧ create type' = none := by
        rintro ⟨type', rest', he, hc'⟩
        rw [← (typeWord_inj he).1, hc] at hc'
        cases hc'
      simp only [hno, iff_false, dispatch]
      cases read msg rest <;> simp

theorem typedRound_next_iff (order : ByteOrder)
    (hreads : ∀ type fresh, create type = some fresh → Reader.Reads (read fresh) (layout type))
    (s rest : List UInt8) (msg : μ) : typedRound order create read s = .next msg rest ↔
      ∃ bs, s = bs ++ rest ∧ Message order create layout bs msg := by
  constructor
  · intro h
    rcases typeWord_cases order s with hs | ⟨type, tail, rfl⟩
    · simp [typedRound, completeRead_of_lt order hs, dispatch] at h
    · simp only [typedRound, completeRead_append, dispatch] at h
      cases hc : create type with
      | none => simp [hc] at h
      | some fresh =>
        cases hr : read fresh tail with
        | error e => simp [hc, hr] at h
        | ok p =>
          obtain ⟨msg', rest'⟩ := p
          obtain ⟨rfl, rfl⟩ : msg' = msg ∧ rest' = rest := by simpa [hc, hr] using h
          obtain ⟨body, rfl, hl⟩ := (hreads type fresh hc tail msg' rest').mp hr
          exact ⟨_, (List.append_assoc ..).symm, type, body, rfl, by simp [hc], hl⟩
  · rintro ⟨_, rfl, type, body, rfl, hc, hl⟩
    obtain ⟨fresh, hc⟩ := Option.isSome_iff_exists.mp hc
    rw [List.append_assoc, typedRound, completeRead_append]
    simp [dispatch, hc, (hreads type fresh hc).run hl]

/-- A round on this stream neither misses a part of a body nor overflows. -/
def Servable (order : ByteOrder) (create : UInt32 → Option μ) (layout : UInt32 → List UInt8 → μ → Prop)
    (s : List UInt8) : Prop :=
  NoMessage order create s ∨ ∃ bs rest msg, s = bs ++ rest ∧ Message order create layout bs msg

theorem typedRound_escaped_iff
    (hreads : ∀ type fresh, create type = some fresh → Reader.Reads (read fresh) (layout type))
    (s : List UInt8) :
    (∃ e, typedRound order create read s = .escaped e) ↔ ¬ Servable order create layout s := by
  have hstop := typedRound_stop_iff order create read s
  have hnext := typedRound_next_iff order hreads s
  cases hr : typedRound order create read s with
  | next msg rest =>
    obtain ⟨bs, hs, hm⟩ := (hnext rest msg).mp hr
    have hyes : Servable order create layout s := Or.inr ⟨bs, rest, msg, hs, hm⟩
    simp [hyes]
  | stop =>
    have hyes : Servable order create layout s := Or.inl (hstop.mp hr)
    simp [hyes]
  | escaped e =>
    have hno : ¬ Servable order create layout s := by
      rintro (hl | ⟨bs, rest, msg, hs, hm⟩)
      · rw [hstop.mpr hl] at hr
        cases hr
      · rw [(hnext rest msg).mpr ⟨bs, hs, hm⟩] at hr
        cases hr
    simp [hno]

/-- The receiver of a stream gives up in the ordinary way exactly when the
stream consists of whole messages before it ends or goes on with an unknown type. -/
theorem receive_typedRound_ok_iff (order : ByteOrder)
    (hreads : ∀ type fresh, create type = some fresh → Reader.Reads (read fresh) (layout type))
    {fuel : Nat} {s : List UInt8} (hfuel : s.length < fuel) :
    (∃ msgs rest, Frames.receive (typedRound order create read) fuel s = some (msgs, .ok rest)) ↔
      Frames.Framed (fun bs => ∃ msg, Message order create layout bs msg) (NoMessage order create) s := by
  refine Frames.receive_ok_iff (typedRound_stop_iff order create read) (fun s rest => ?_) ?_ hfuel
  · constructor
    · rintro ⟨msg, h⟩
      obtain ⟨bs, hs, hm⟩ := (typedRound_next_iff order hreads s rest msg).mp h
      exact ⟨bs, hs, msg, hm⟩
    · rintro ⟨bs, hs, msg, hm⟩
      exact ⟨msg, (typedRound_next_iff order hreads s rest msg).mpr ⟨bs, hs, hm⟩⟩
  · rintro bs ⟨msg, hm⟩
    exact hm.ne_nil

end

def ClientMsg.Received (order : ByteOrder) (type : UInt32) (body : List UInt8) (msg : ClientMsg) : Prop :=
  msg.type = type ∧ msg.Layout order body

def ServerMsg.Received (order : ByteOrder) (cli : ClientPtr) (type : UInt32) (body : List UInt8)
    (msg : ServerMsg) : Prop :=
  msg.type = type ∧ msg.sender = cli ∧ msg.Layout order body

theorem ClientMsg.reads_received (order : ByteOrder) (type : UInt32) (fresh : ClientMsg)
    (hc : create type = some fresh) : Reader.Reads (fresh.read order) (Received order type) := by
  have hr := reads order fresh
  rwa [type_of_create hc] at hr

theorem ServerMsg.reads_received (order : ByteOrder) (cli : ClientPtr) (type : UInt32)
    (fresh : ServerMsg) (hc : create type cli = some fresh) :
    Reader.Reads (fresh.read order) (Received order cli type) := by
  obtain ⟨hwire, htype, hsender⟩ := onWire_of_create hc
  have hr := reads order hwire
  rwa [htype, hsender] at hr

theorem RemoteServer.round_eq (order : ByteOrder) :
    round order = typedRound order ClientMsg.create (ClientMsg.read order) := rfl

theorem RemoteClient.round_eq (order : ByteOrder) (self : ClientPtr) :
    round order self = typedRound order (ServerMsg.create · self) (ServerMsg.read order) := rfl

theorem RemoteClient.round_next {order : ByteOrder} {self : ClientPtr} {s rest : List UInt8}
    {msg : ServerMsg} (h : round order self s = .next msg rest) :
    (ServerMsg.create msg.type self).isSome ∧ msg.sender = self := by
  rw [round_eq] at h
  obtain ⟨bs, _, type, body, _, hc, htype, hsender, _⟩ :=
    (typedRound_next_iff order (ServerMsg.reads_received order self) s rest msg).mp h
  exact ⟨htype ▸ hc, hsender⟩

end Quintses
