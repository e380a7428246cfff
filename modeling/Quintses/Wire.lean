import Quintses.Messages

/-! The bytes of each message class: what `write` produces and exactly what
`read` accepts. -/

namespace Quintses

open SocketWrapper

def ClientAddObjectMsg.Layout (order : ByteOrder) (bs : List UInt8) (msg : ClientAddObjectMsg) : Prop :=
  ∃ tail, bs = writePod order msg.objid ++ tail ∧ StringLayout order tail msg.template

def ClientTransObjectMsg.Layout (order : ByteOrder) (bs : List UInt8) (msg : ClientTransObjectMsg) :
    Prop :=
  bs = msg.write order

def ClientDelObjectMsg.Layout (order : ByteOrder) (bs : List UInt8) (msg : ClientDelObjectMsg) : Prop :=
  bs = msg.write order

theorem ClientAddObjectMsg.reads (order : ByteOrder) (msg : ClientAddObjectMsg) :
    Reader.Reads (msg.read order) (Layout order) := by
  refine ((reads_readPod order UInt32).bind (fun objid =>
    (reads_readString order).map (fun template => (⟨objid, template⟩ : ClientAddObjectMsg)))).congr
      (fun bs m => ?_)
  constructor
  · rintro ⟨pre, tail, objid, rfl, rfl, template, ht, rfl⟩
    exact ⟨tail, rfl, ht⟩
  · rintro ⟨tail, rfl, ht⟩
    exact ⟨_, tail, m.objid, rfl, rfl, m.template, ht, rfl⟩

theorem ClientTransObjectMsg.reads (order : ByteOrder) (msg : ClientTransObjectMsg) :
    Reader.Reads (msg.read order) (Layout order) := by
  refine ((reads_readPod order UInt32).bind (fun objid =>
    (Reader.reads_take ReadError.systemError 64).map
      (fun transform => (⟨objid, transform⟩ : ClientTransObjectMsg)))).congr (fun bs m => ?_)
  constructor
  · rintro ⟨pre, post, objid, rfl, rfl, transform, rfl, rfl⟩
    rfl
  · rintro rfl
    exact ⟨_, _, m.objid, rfl, rfl, m.transform, rfl, rfl⟩

theorem ClientDelObjectMsg.reads (order : ByteOrder) (msg : ClientDelObjectMsg) :
    Reader.Reads (msg.read order) (Layout order) := by
  refine ((reads_readPod order UInt32).map
    (fun objid => (⟨objid⟩ : ClientDelObjectMsg))).congr (fun bs m => ?_)
  constructor
  · rintro ⟨objid, rfl, rfl⟩
    rfl
  · rintro rfl
    exact ⟨m.objid, rfl, rfl⟩

namespace ClientMsg

def Layout (order : ByteOrder) (bs : List UInt8) : ClientMsg → Prop
  | addDrawable msg => msg.Layout order bs
  | addAudible msg => msg.Layout order bs
  | transDrawable msg => msg.Layout order bs
  | transAudible msg => msg.Layout order bs
  | delDrawable msg => msg.Layout order bs
  | delAudible msg => msg.Layout order bs

theorem create_type (msg : ClientMsg) : ∃ fresh, create msg.type = some fresh ∧ fresh.type = msg.type := by
  cases msg <;> exact ⟨_, rfl, rfl⟩

theorem type_of_create {type : UInt32} {fresh : ClientMsg} (h : create type = some fresh) :
    fresh.type = type := by
  unfold create at h
  split at h <;> cases h <;> rfl

theorem reads (order : ByteOrder) (fresh : ClientMsg) :
    Reader.Reads (fresh.read order) (fun bs msg => msg.type = fresh.type ∧ msg.Layout order bs) := by
  cases fresh with
  | addDrawable fresh =>
    refine ((fresh.reads order).map addDrawable).congr (fun bs msg => ?_)
    cases msg <;> simp [type, Layout]
  | addAudible fresh =>
    refine ((fresh.reads order).map addAudible).congr (fun bs msg => ?_)
    cases msg <;> simp [type, Layout]
  | transDrawable fresh =>
    refine ((fresh.reads order).map transDrawable).congr (fun bs msg => ?_)
    cases msg <;> simp [type, Layout]
  | transAudible fresh =>
    refine ((fresh.reads order).map transAudible).congr (fun bs msg => ?_)
    cases msg <;> simp [type, Layout]
  | delDrawable fresh =>
    refine ((fresh.reads order).map delDrawable).congr (fun bs msg => ?_)
    cases msg <;> simp [type, Layout]
  | delAudible fresh =>
    refine ((fresh.reads order).map delAudible).congr (fun bs msg => ?_)
    cases msg <;> simp [type, Layout]

end ClientMsg

namespace ServerMsg

def Layout (order : ByteOrder) (bs : List UInt8) : ServerMsg → Prop
  | shutdown _ => bs = []
  | input _ state => bs = writePod order state
  | loadPlayer _ template => StringLayout order bs template
  | bullet _ => bs = []

theorem onWire_of_create {type : UInt32} {cli : ClientPtr} {fresh : ServerMsg}
    (h : create type cli = some fresh) : fresh.OnWire ∧ fresh.type = type ∧ fresh.sender = cli := by
  unfold create at h
  split at h <;> cases h <;> exact ⟨trivial, rfl, rfl⟩

theorem reads (order : ByteOrder) {fresh : ServerMsg} (hwire : fresh.OnWire) :
    Reader.Reads (fresh.read order)
      (fun bs msg => msg.type = fresh.type ∧ msg.sender = fresh.sender ∧ msg.Layout order bs) := by
  cases fresh with
  | shutdown cli =>
    refine (Reader.reads_pure (shutdown cli)).congr (fun bs msg => ?_)
    cases msg with
    | bullet msg => cases msg <;> simp [type]
    | _ => simp [type, sender, Layout, and_comm]
  | input cli state =>
    refine ((reads_readPod order UInt16).map (input cli)).congr (fun bs msg => ?_)
    cases msg with
    | bullet msg => cases msg <;> simp [type]
    | _ => simp [type, sender, Layout, and_comm, eq_comm]
  | loadPlayer cli template =>
    refine ((reads_readString order).map (loadPlayer cli)).congr (fun bs msg => ?_)
    cases msg with
    | bullet msg => cases msg <;> simp [type]
    | _ => simp [type, sender, Layout, and_comm, eq_comm]
  | bullet msg => exact hwire.elim

end ServerMsg

end Quintses
