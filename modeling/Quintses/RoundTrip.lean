import Quintses.Connection

/-! Streams of messages written by one end and read by the other. They come
back in full unless a string has the one length whose successor is zero in 32
bits. -/

namespace Quintses

open SocketWrapper

/-- The strings that XML values, literals and `readString` produce. -/
def Plain (template : ByteString) : Prop := 0 ∉ template ∧ template.length < 2 ^ 32

/-- `readString` allocates room for the terminator. -/
def Terminable (template : ByteString) : Prop := template.length ≠ 2 ^ 32 - 1

theorem length_lt_of_terminable {template : ByteString} (hp : Plain template)
    (ht : Terminable template) : template.length < 2 ^ 32 - 1 := by
  have hlt := hp.2
  have hne := ht
  unfold Terminable at hne
  omega

theorem ClientAddObjectMsg.write_layout (order : ByteOrder) {msg : ClientAddObjectMsg}
    (hp : Plain msg.template) (ht : Terminable msg.template) : msg.Layout order (msg.write order) :=
  ⟨_, rfl, writeString_layout order hp.1 (length_lt_of_terminable hp ht)⟩

theorem ClientAddObjectMsg.read_overflow (order : ByteOrder) {msg : ClientAddObjectMsg}
    (ht : ¬ Terminable msg.template) (fresh : ClientAddObjectMsg) (rest : List UInt8) :
    fresh.read order (msg.write order ++ rest) = .error .outOfBounds := by
  unfold Terminable at ht
  rw [read, write, List.append_assoc, Reader.bind_run, (reads_readPod order UInt32).run rfl]
  simp only [Except.bind, Reader.bind_run]
  rw [readString_overflow order (by omega)]

namespace ClientMsg

theorem write_layout (order : ByteOrder) {msg : ClientMsg} (hp : ∀ t ∈ msg.template?, Plain t)
    (ht : ∀ t ∈ msg.template?, Terminable t) : msg.Layout order (msg.write order) := by
  cases msg with
  | addDrawable msg => exact msg.write_layout order (hp _ rfl) (ht _ rfl)
  | addAudible msg => exact msg.write_layout order (hp _ rfl) (ht _ rfl)
  | transDrawable msg => rfl
  | transAudible msg => rfl
  | delDrawable msg => rfl
  | delAudible msg => rfl

theorem read_overflow (order : ByteOrder) {msg fresh : ClientMsg} (htype : fresh.type = msg.type)
    (ht : ¬ ∀ t ∈ msg.template?, Terminable t) (rest : List UInt8) :
    fresh.read order (msg.write order ++ rest) = .error .outOfBounds := by
  cases msg with
  | addDrawable msg =>
    have ht' : ¬ Terminable msg.template := fun h => ht (fun t hm => by cases hm; exact h)
    cases fresh <;> simp [type] at htype
    exact Reader.map_error _ (ClientAddObjectMsg.read_overflow order ht' _ rest)
  | addAudible msg =>
    have ht' : ¬ Terminable msg.template := fun h => ht (fun t hm => by cases hm; exact h)
    cases fresh <;> simp [type] at htype
    exact Reader.map_error _ (ClientAddObjectMsg.read_overflow order ht' _ rest)
  | _ => exact absurd (fun t hm => by cases hm) ht

theorem round_writeMsg (order : ByteOrder) {msg : ClientMsg} (hp : ∀ t ∈ msg.template?, Plain t)
    (ht : ∀ t ∈ msg.template?, Terminable t) (rest : List UInt8) :
    RemoteServer.round order (RemoteClient.writeMsg order msg ++ rest) = .next msg rest := by
  obtain ⟨fresh, hc, hty⟩ := create_type msg
  rw [RemoteServer.round_eq, RemoteClient.writeMsg, List.append_assoc, typedRound, completeRead_append]
  simp [dispatch, hc, (reads order fresh).run ⟨hty.symm, write_layout order hp ht⟩]

theorem round_writeMsg_overflow (order : ByteOrder) {msg : ClientMsg}
    (ht : ¬ ∀ t ∈ msg.template?, Terminable t) (rest : List UInt8) :
    RemoteServer.round order (RemoteClient.writeMsg order msg ++ rest) = .escaped .outOfBounds := by
  obtain ⟨fresh, hc, hty⟩ := create_type msg
  rw [RemoteServer.round_eq, RemoteClient.writeMsg, List.append_assoc, typedRound, completeRead_append]
  simp [dispatch, hc, read_overflow order hty ht]

end ClientMsg

namespace ServerMsg

theorem write_layout (order : ByteOrder) {msg : ServerMsg} (hp : ∀ t ∈ msg.template?, Plain t)
    (ht : ∀ t ∈ msg.template?, Terminable t) : msg.Layout order (msg.write order) := by
  cases msg with
  | loadPlayer cli template =>
    exact writeString_layout order (hp _ rfl).1 (length_lt_of_terminable (hp _ rfl) (ht _ rfl))
  | _ => rfl

theorem layout_withSender {order : ByteOrder} {bs : List UInt8} {msg : ServerMsg} (cli : ClientPtr) :
    (msg.withSender cli).Layout order bs ↔ msg.Layout order bs := by
  cases msg <;> rfl

theorem create_withSender {msg : ServerMsg} (hw : msg.OnWire) (cli : ClientPtr) :
    ∃ fresh, create msg.type cli = some fresh ∧ fresh.OnWire ∧
      (msg.withSender cli).type = fresh.type ∧ (msg.withSender cli).sender = fresh.sender := by
  cases msg with
  | bullet msg => exact hw.elim
  | _ => exact ⟨_, rfl, trivial, rfl, rfl⟩

theorem read_overflow (order : ByteOrder) {msg fresh : ServerMsg} {cli : ClientPtr}
    (hc : create msg.type cli = some fresh) (ht : ¬ ∀ t ∈ msg.template?, Terminable t)
    (rest : List UInt8) : fresh.read order (msg.write order ++ rest) = .error .outOfBounds := by
  cases msg with
  | loadPlayer sender template =>
    obtain rfl : loadPlayer cli [] = fresh := Option.some.inj hc
    have hlen : template.length = 2 ^ 32 - 1 := by
      by_contra hne
      exact ht (fun t hm => by cases hm; exact hne)
    exact Reader.map_error (loadPlayer cli) (readString_overflow order hlen rest)
  | _ => exact absurd (fun t hm => by cases hm) ht

theorem round_writeMsg (order : ByteOrder) {msg : ServerMsg} (hw : msg.OnWire)
    (hp : ∀ t ∈ msg.template?, Plain t) (ht : ∀ t ∈ msg.template?, Terminable t)
    (cli : ClientPtr) (rest : List UInt8) :
    RemoteClient.round order cli (RemoteServer.writeMsg order msg ++ rest) =
      .next (msg.withSender cli) rest := by
  obtain ⟨fresh, hc, hwire, hty, hsender⟩ := create_withSender hw cli
  have hread := (reads order hwire).run
    ⟨hty, hsender, (layout_withSender cli).mpr (write_layout order hp ht)⟩ rest
  rw [RemoteClient.round_eq, RemoteServer.writeMsg, List.append_assoc, typedRound, completeRead_append]
  simp [dispatch, hc, hread]

theorem round_writeMsg_overflow (order : ByteOrder) {msg : ServerMsg} (hw : msg.OnWire)
    (ht : ¬ ∀ t ∈ msg.template?, Terminable t) (cli : ClientPtr) (rest : List UInt8) :
    RemoteClient.round order cli (RemoteServer.writeMsg order msg ++ rest) =
      .escaped .outOfBounds := by
  obtain ⟨fresh, hc, _⟩ := create_withSender hw cli
  rw [RemoteClient.round_eq, RemoteServer.writeMsg, List.append_assoc, typedRound, completeRead_append]
  simp [dispatch, hc, read_overflow order hc ht]

end ServerMsg

theorem typedRound_nil {μ : Type} (order : ByteOrder) (create : UInt32 → Option μ)
    (read : μ → SocketReader μ) : typedRound order create read [] = .stop := by
  simp [typedRound, completeRead_of_lt order (s := []) (by simp), dispatch]

def ClientMsg.Sendable (msg : ClientMsg) : Prop := ∀ t ∈ msg.template?, Plain t

def ServerMsg.Sendable (msg : ServerMsg) : Prop := msg.OnWire ∧ ∀ t ∈ msg.template?, Plain t

/-- Both directions give the messages back and read all bytes; the messages to
the server come back with the connection as their sender. -/
def RoundTrip (order : ByteOrder) (cli : ClientPtr) (down : List ClientMsg) (up : List ServerMsg) : Prop :=
  (∀ fuel, down.length < fuel →
    Frames.receive (RemoteServer.round order) fuel (down.flatMap (RemoteClient.writeMsg order)) =
      some (down, .ok [])) ∧
  (∀ fuel, up.length < fuel →
    Frames.receive (RemoteClient.round order cli) fuel (up.flatMap (RemoteServer.writeMsg order)) =
      some (up.map (ServerMsg.withSender cli), .ok []))

theorem down_iff (order : ByteOrder) {down : List ClientMsg} (hdown : ∀ m ∈ down, m.Sendable)
    {fuel : Nat} (hfuel : down.length < fuel) :
    Frames.receive (RemoteServer.round order) fuel (down.flatMap (RemoteClient.writeMsg order)) =
      some (down, .ok []) ↔ ∀ m ∈ down, ∀ t ∈ m.template?, Terminable t := by
  have hh := Frames.receive_flatMap_iff (RemoteClient.writeMsg order) id
    (fun m => ∀ t ∈ m.template?, Terminable t)
    (fun m hm ht rest => ClientMsg.round_writeMsg order (hdown m hm) ht rest)
    (fun m _ ht rest => ⟨_, ClientMsg.round_writeMsg_overflow order ht rest⟩)
    (typedRound_nil order _ _) hfuel
  rwa [List.map_id] at hh

theorem up_iff (order : ByteOrder) (cli : ClientPtr) {up : List ServerMsg}
    (hup : ∀ m ∈ up, m.Sendable) {fuel : Nat} (hfuel : up.length < fuel) :
    Frames.receive (RemoteClient.round order cli) fuel (up.flatMap (RemoteServer.writeMsg order)) =
      some (up.map (ServerMsg.withSender cli), .ok []) ↔
      ∀ m ∈ up, ∀ t ∈ m.template?, Terminable t :=
  Frames.receive_flatMap_iff (RemoteServer.writeMsg order) (ServerMsg.withSender cli)
    (fun m => ∀ t ∈ m.template?, Terminable t)
    (fun m hm ht rest => ServerMsg.round_writeMsg order (hup m hm).1 (hup m hm).2 ht cli rest)
    (fun m hm ht rest => ⟨_, ServerMsg.round_writeMsg_overflow order (hup m hm).1 ht cli rest⟩)
    (typedRound_nil order (ServerMsg.create · cli) (ServerMsg.read order)) hfuel

theorem roundTrip_iff (order : ByteOrder) (cli : ClientPtr) {down : List ClientMsg}
    {up : List ServerMsg} (hdown : ∀ m ∈ down, m.Sendable) (hup : ∀ m ∈ up, m.Sendable) :
    RoundTrip order cli down up ↔
      (∀ m ∈ down, ∀ t ∈ m.template?, t.length ≠ 2 ^ 32 - 1) ∧
        ∀ m ∈ up, ∀ t ∈ m.template?, t.length ≠ 2 ^ 32 - 1 := by
  constructor
  · rintro ⟨hd, hu⟩
    exact ⟨(down_iff order hdown (Nat.lt_succ_self _)).mp (hd _ (Nat.lt_succ_self _)),
      (up_iff order cli hup (Nat.lt_succ_self _)).mp (hu _ (Nat.lt_succ_self _))⟩
  · rintro ⟨hd, hu⟩
    exact ⟨fun fuel hfuel => (down_iff order hdown hfuel).mpr hd,
      fun fuel hfuel => (up_iff order cli hup hfuel).mpr hu⟩

theorem roundTrip_iff_three_messages :
    RoundTrip .little 1 [.addDrawable ⟨7, [80]⟩, .delAudible ⟨7⟩] [.loadPlayer 0 [80, 81]] := by
  refine (roundTrip_iff .little 1 ?_ ?_).mpr (by simp [ClientMsg.template?, ServerMsg.template?])
  · simp [ClientMsg.Sendable, ClientMsg.template?, Plain]
  · simp [ServerMsg.Sendable, ServerMsg.OnWire, ServerMsg.template?, Plain]

/-- A drawable whose template has 2 ^ 32 - 1 characters does not come back. -/
theorem not_roundTrip_longest_template :
    ¬ ∀ (order : ByteOrder) (cli : ClientPtr) (down : List ClientMsg) (up : List ServerMsg),
      (∀ m ∈ down, m.Sendable) → (∀ m ∈ up, m.Sendable) → RoundTrip order cli down up := by
  intro h
  let template : ByteString := List.replicate (2 ^ 32 - 1) 65
  have hlen : template.length = 2 ^ 32 - 1 := List.length_replicate
  have hplain : Plain template := by
    refine ⟨fun hm => ?_, by rw [hlen]; decide⟩
    cases List.eq_of_mem_replicate hm
  have hdown : ∀ m ∈ [ClientMsg.addDrawable ⟨1, template⟩], m.Sendable := by
    intro m hm t ht
    cases List.mem_singleton.mp hm
    cases ht
    exact hplain
  have hrun := (h .little 1 [.addDrawable ⟨1, template⟩] [] hdown (by simp)).1 2 (by simp)
  have hterm := (down_iff .little hdown (by simp)).mp hrun _ List.mem_cons_self _ rfl
  exact hterm hlen

end Quintses
