import Quintses.RoundTrip

/-! Writing a message again after it has been read. A string is cut at its
first zero byte, so the bytes come back exactly when there is none. -/

namespace Quintses

open SocketWrapper

namespace SocketWrapper

theorem takeWhile_eq_self_iff {raw : List UInt8} : raw.takeWhile (· != 0) = raw ↔ 0 ∉ raw := by
  rw [List.takeWhile_eq_self_iff]
  constructor
  · intro h hm
    exact absurd (h 0 hm) (by decide)
  · intro h b hb
    have hne : b ≠ 0 := fun he => h (he ▸ hb)
    simpa using hne

theorem writeString_eq_iff {order : ByteOrder} {bs : List UInt8} {str : ByteString}
    (h : StringLayout order bs str) : writeString order str = bs ↔ 0 ∉ bs.drop 4 := by
  obtain ⟨len, raw, rfl, hraw, hlen, rfl⟩ := h
  have hlt := len.toNat_lt
  have hcut : (raw.takeWhile (· != 0)).length ≤ raw.length := (List.takeWhile_prefix _).length_le
  have hdrop : (writePod order len ++ raw).drop 4 = raw := List.drop_left' (Pod.length_toBytes order len)
  rw [writeString_eq order (by omega), hdrop]
  constructor
  · intro he
    have hsame : raw.takeWhile (· != 0) = raw :=
      List.append_inj_right he ((Pod.length_toBytes order _).trans (Pod.length_toBytes order _).symm)
    exact takeWhile_eq_self_iff.mp hsame
  · intro hno
    rw [takeWhile_eq_self_iff.mpr hno, hraw, UInt32.ofNat_toNat]

end SocketWrapper

/-- The bytes of the string in a complete message to the client: they follow
the type, the id and the length. -/
def ClientMsg.rawString? (order : ByteOrder) (bs : List UInt8) : Option (List UInt8) :=
  match (completeRead order bs).2.1 with
  | 0 | 1 => some (bs.drop 12)
  | _ => none

/-- In a message to the server they follow the type and the length. -/
def ServerMsg.rawString? (order : ByteOrder) (bs : List UInt8) : Option (List UInt8) :=
  match (completeRead order bs).2.1 with
  | 2 => some (bs.drop 8)
  | _ => none

theorem drop_typeWord (order : ByteOrder) (word : UInt32) (bs : List UInt8) (k : Nat) :
    (writePod order word ++ bs).drop (4 + k) = bs.drop k := by
  have hk : 4 + k - (writePod order word).length = k := by
    rw [length_typeWord]
    omega
  rw [List.drop_append, List.drop_eq_nil_of_le (by rw [length_typeWord]; omega), List.nil_append, hk]

theorem ClientAddObjectMsg.write_eq_iff {order : ByteOrder} {body : List UInt8} {msg : ClientAddObjectMsg}
    (h : msg.Layout order body) : msg.write order = body ↔ 0 ∉ body.drop 8 := by
  obtain ⟨tail, rfl, htail⟩ := h
  have hdrop : (writePod order msg.objid ++ tail).drop 8 = tail.drop 4 := drop_typeWord order _ tail 4
  rw [hdrop, ← writeString_eq_iff htail, write, List.append_cancel_left_eq]

/-- A message without a string is written back as it was read. -/
theorem write_eq_iff_of_none {written body : List UInt8} {raw? : Option (List UInt8)}
    (he : written = body) (hnone : raw? = none) : written = body ↔ ∀ raw ∈ raw?, 0 ∉ raw := by
  simp [he, hnone]

theorem ClientMsg.write_eq_iff {order : ByteOrder} {body : List UInt8} {msg : ClientMsg}
    (h : msg.Layout order body) : msg.write order = body ↔
      ∀ raw ∈ rawString? order (writePod order msg.type ++ body), 0 ∉ raw := by
  have hdrop (type : UInt32) : (writePod order type ++ body).drop 12 = body.drop 8 :=
    drop_typeWord order type body 8
  cases msg with
  | addDrawable msg =>
    have hraw : rawString? order (writePod order (0 : UInt32) ++ body) = some (body.drop 8) := by
      simp [rawString?, completeRead_append, hdrop]
    simpa [write, type, hraw] using msg.write_eq_iff h
  | addAudible msg =>
    have hraw : rawString? order (writePod order (1 : UInt32) ++ body) = some (body.drop 8) := by
      simp [rawString?, completeRead_append, hdrop]
    simpa [write, type, hraw] using msg.write_eq_iff h
  | transDrawable msg => exact write_eq_iff_of_none h.symm (by simp [rawString?, completeRead_append, type])
  | transAudible msg => exact write_eq_iff_of_none h.symm (by simp [rawString?, completeRead_append, type])
  | delDrawable msg => exact write_eq_iff_of_none h.symm (by simp [rawString?, completeRead_append, type])
  | delAudible msg => exact write_eq_iff_of_none h.symm (by simp [rawString?, completeRead_append, type])

theorem ServerMsg.write_eq_iff {order : ByteOrder} {body : List UInt8} {msg : ServerMsg}
    (hwire : msg.OnWire) (h : msg.Layout order body) : msg.write order = body ↔
      ∀ raw ∈ rawString? order (writePod order msg.type ++ body), 0 ∉ raw := by
  cases msg with
  | shutdown sender => exact write_eq_iff_of_none h.symm (by simp [rawString?, completeRead_append, type])
  | input sender state => exact write_eq_iff_of_none h.symm (by simp [rawString?, completeRead_append, type])
  | loadPlayer sender template =>
    have hdrop : (writePod order (2 : UInt32) ++ body).drop 8 = body.drop 4 := drop_typeWord order 2 body 4
    have hraw : rawString? order (writePod order (2 : UInt32) ++ body) = some (body.drop 4) := by
      simp [rawString?, completeRead_append, hdrop]
    simpa [write, type, hraw] using writeString_eq_iff h
  | bullet msg => exact hwire.elim

theorem RemoteServer.reencode_iff {order : ByteOrder} {bs : List UInt8} {msg : ClientMsg}
    (h : round order bs = .next msg []) : RemoteClient.writeMsg order msg = bs ↔
      ∀ raw ∈ ClientMsg.rawString? order bs, 0 ∉ raw := by
  rw [round_eq] at h
  obtain ⟨_, hbs, type, body, rfl, _, rfl, hl⟩ :=
    (typedRound_next_iff order (ClientMsg.reads_received order) bs [] msg).mp h
  rw [List.append_nil] at hbs
  rw [hbs, RemoteClient.writeMsg, List.append_cancel_left_eq]
  exact ClientMsg.write_eq_iff hl

theorem RemoteClient.reencode_iff {order : ByteOrder} {self : ClientPtr} {bs : List UInt8}
    {msg : ServerMsg} (h : round order self bs = .next msg []) : RemoteServer.writeMsg order msg = bs ↔
      ∀ raw ∈ ServerMsg.rawString? order bs, 0 ∉ raw := by
  have hcreate := (round_next h).1
  have hwire : msg.OnWire := by
    cases msg with
    | bullet b => cases b <;> simp [ServerMsg.create, ServerMsg.type] at hcreate
    | _ => trivial
  rw [round_eq] at h
  obtain ⟨_, hbs, type, body, rfl, _, rfl, _, hl⟩ :=
    (typedRound_next_iff order (ServerMsg.reads_received order self) bs [] msg).mp h
  rw [List.append_nil] at hbs
  rw [hbs, RemoteServer.writeMsg, List.append_cancel_left_eq]
  exact ServerMsg.write_eq_iff hwire hl

theorem RemoteServer.rewritten_inj {order : ByteOrder} {bs bs' : List UInt8} {msg : ClientMsg}
    (h : round order bs = .next msg []) (h' : round order bs' = .next msg [])
    (hbs : ∀ raw ∈ ClientMsg.rawString? order bs, 0 ∉ raw)
    (hbs' : ∀ raw ∈ ClientMsg.rawString? order bs', 0 ∉ raw) : bs = bs' :=
  ((reencode_iff h).mpr hbs).symm.trans ((reencode_iff h').mpr hbs')

theorem RemoteClient.rewritten_inj {order : ByteOrder} {self : ClientPtr} {bs bs' : List UInt8}
    {msg : ServerMsg} (h : round order self bs = .next msg []) (h' : round order self bs' = .next msg [])
    (hbs : ∀ raw ∈ ServerMsg.rawString? order bs, 0 ∉ raw)
    (hbs' : ∀ raw ∈ ServerMsg.rawString? order bs', 0 ∉ raw) : bs = bs' :=
  ((reencode_iff h).mpr hbs).symm.trans ((reencode_iff h').mpr hbs')

/-- A complete message comes back byte for byte exactly when the bytes of its
string have no zero among them, and among such bytes each message has its own. -/
theorem rewritten_iff (order : ByteOrder) (self : ClientPtr) :
    (∀ bs msg, RemoteServer.round order bs = .next msg [] →
      (RemoteClient.writeMsg order msg = bs ↔ ∀ raw ∈ ClientMsg.rawString? order bs, 0 ∉ raw)) ∧
    (∀ bs msg, RemoteClient.round order self bs = .next msg [] →
      (RemoteServer.writeMsg order msg = bs ↔ ∀ raw ∈ ServerMsg.rawString? order bs, 0 ∉ raw)) ∧
    (∀ bs bs' msg, RemoteServer.round order bs = .next msg [] → RemoteServer.round order bs' = .next msg [] →
      (∀ raw ∈ ClientMsg.rawString? order bs, 0 ∉ raw) → (∀ raw ∈ ClientMsg.rawString? order bs', 0 ∉ raw) →
      bs = bs') ∧
    (∀ bs bs' msg, RemoteClient.round order self bs = .next msg [] →
      RemoteClient.round order self bs' = .next msg [] →
      (∀ raw ∈ ServerMsg.rawString? order bs, 0 ∉ raw) → (∀ raw ∈ ServerMsg.rawString? order bs', 0 ∉ raw) →
      bs = bs') :=
  ⟨fun _ _ h => RemoteServer.reencode_iff h, fun _ _ h => RemoteClient.reencode_iff h,
    fun _ _ _ h h' hbs hbs' => RemoteServer.rewritten_inj h h' hbs hbs',
    fun _ _ _ h h' hbs hbs' => RemoteClient.rewritten_inj h h' hbs hbs'⟩

theorem rewritten_iff_template :
    RemoteClient.writeMsg .little (.addDrawable ⟨7, [80]⟩) = [0, 0, 0, 0, 7, 0, 0, 0, 1, 0, 0, 0, 80] ∧
    RemoteServer.writeMsg .little (.loadPlayer 1 [80]) = [2, 0, 0, 0, 1, 0, 0, 0, 80] :=
  ⟨((rewritten_iff .little 1).1 [0, 0, 0, 0, 7, 0, 0, 0, 1, 0, 0, 0, 80] (.addDrawable ⟨7, [80]⟩)
      (by rfl)).mpr (by decide),
    ((rewritten_iff .little 1).2.1 [2, 0, 0, 0, 1, 0, 0, 0, 80] (.loadPlayer 1 [80]) (by rfl)).mpr (by decide)⟩

/-- A player template of one zero byte is written back as the empty string,
whose bytes decode to the same message. -/
theorem not_rewritten_zero_byte :
    ¬ (∀ order self bs msg, RemoteClient.round order self bs = .next msg [] →
      RemoteServer.writeMsg order msg = bs) ∧
    ¬ (∀ order self bs bs' msg, RemoteClient.round order self bs = .next msg [] →
      RemoteClient.round order self bs' = .next msg [] → bs = bs') := by
  constructor
  · intro h
    have hh := h .little 1 [2, 0, 0, 0, 1, 0, 0, 0, 0] (.loadPlayer 1 []) (by rfl)
    exact absurd hh (by decide)
  · intro h
    have hh := h .little 1 [2, 0, 0, 0, 1, 0, 0, 0, 0] [2, 0, 0, 0, 0, 0, 0, 0] (.loadPlayer 1 [])
      (by rfl) (by rfl)
    exact absurd hh (by decide)

end Quintses
