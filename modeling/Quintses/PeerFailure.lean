import Quintses.SelfDeletion

/-! Peers whose stream ends or fails. Only an error code at the type word is
handled; what a read of a body throws leaves the io loop. A write that fails
deletes the object under its own read, whose `readMsg` then looks at an object
that is gone. -/

namespace Quintses

open Lts

namespace IoService

/-- No exception has left the loop, no `readMsg` waits that is bound to an object
that is gone, a client that is not read from any more has been removed, and every
handler that waits for the loop can still run. -/
structure Contained (order : ByteOrder) (io : IoService) : Prop where
  escaped : io.escaped = none
  aborted : io.aborted = []
  removed : ∀ c, io.Connected c → ∃ cli, io.clients.find? c = some cli ∧ cli.reading = true
  reads : ∀ c cli, io.clients.find? c = some cli → cli.reading = true →
    (step order io (.completeRead c)).isSome
  posted : io.posted ≠ [] → ∀ failsAfter, (step order io (.runPosted failsAfter)).isSome

/-- A completed type word that names a class is followed by a whole body of it. -/
def BodyArrives (order : ByteOrder) (io : IoService) : IoAction → Prop
  | .completeRead c => ∀ cli, io.clients.find? c = some cli → cli.markedForDelete = false →
    Servable order (ServerMsg.create · c) (ServerMsg.Received order c) cli.incoming
  | _ => True

structure Withstood (order : ByteOrder) (io : IoService) (a : IoAction) : Prop where
  bodyArrives : io.BodyArrives order a
  readCompleted : io.ReadCompleted a

variable {order : ByteOrder} {io io' : IoService} {self : ClientPtr} {cli : RemoteClient}

theorem Consistent.contained (h : io.Consistent) (hn : io.escaped = none) (hab : io.aborted = []) :
    Contained order io where
  escaped := hn
  aborted := hab
  removed c hc := by
    obtain ⟨cli, hf, hm⟩ := h.connected c hc
    exact ⟨cli, hf, h.reading hn c cli hf hm⟩
  reads c cli hf hr := by simp [step, hn, hf, hr]
  posted hp failsAfter := by
    cases hq : io.posted with
    | nil => exact absurd hq hp
    | cons e rest =>
      obtain ⟨c, handler⟩ := e
      cases handler <;> simp [step, hn, hq]

theorem round_escaped_iff (order : ByteOrder) (self : ClientPtr) (s : List UInt8) :
    (∃ e, RemoteClient.round order self s = .escaped e) ↔
      ¬ Servable order (ServerMsg.create · self) (ServerMsg.Received order self) s := by
  rw [RemoteClient.round_eq]
  exact typedRound_escaped_iff (ServerMsg.reads_received order self) s

theorem readMsg_escaped (hn : io.escaped = none) :
    (io.readMsg order self cli).escaped = none ↔ (cli.markedForDelete = false →
      Servable order (ServerMsg.create · self) (ServerMsg.Received order self) cli.incoming) := by
  cases hm : cli.markedForDelete with
  | true =>
    obtain ⟨type, rest, he⟩ := readMsg_of_marked order io self hm
    simp [he, hn]
  | false =>
    have hiff := round_escaped_iff order self cli.incoming
    obtain ⟨type, left, ⟨msg, rest, hr, he⟩ | ⟨hr, he⟩ | ⟨e, hr, he⟩⟩ :=
      readMsg_of_unmarked order io self hm
    · have hs := not_not.mp (hiff.not.mp (by simp [hr]))
      simp [he, hn, hs]
    · have hs := not_not.mp (hiff.not.mp (by simp [hr]))
      simp [he, hn, hs, tearDown]
    · have hs := hiff.mp ⟨e, hr⟩
      simp [he, hs]

theorem writeMsg_escaped (msg : ClientMsg) (failsAfter : Option Nat) :
    (io.writeMsg order self cli msg failsAfter).escaped = io.escaped := by
  obtain ⟨sent, he | ⟨_, he⟩⟩ := writeMsg_cases order io self cli msg failsAfter <;> simp [he, tearDown]

theorem step_escaped_iff {a : IoAction} (hs : step order io a = some io') :
    io'.escaped = none ↔ BodyArrives order io a := by
  cases a with
  | accept self incoming =>
    obtain ⟨hn, _, _, rfl⟩ := step_accept.mp hs
    simp [BodyArrives, spinup, hn]
  | pushMessage self msg =>
    obtain ⟨hn, _, rfl⟩ := step_pushMessage.mp hs
    simp [BodyArrives, hn]
  | runPosted failsAfter =>
    obtain ⟨hn, self, rest, ⟨msg, _, rfl⟩ | ⟨_, rfl⟩⟩ := step_runPosted.mp hs
    · cases hf : io.clients.find? self with
      | none => simp [BodyArrives, onObject, ran, hf, hn]
      | some cli => simp [BodyArrives, onObject, ran, hf, writeMsg_escaped, hn]
    · cases hf : io.clients.find? self with
      | none => simp [BodyArrives, onObject, ran, hf, hn]
      | some cli => simp [BodyArrives, onObject, ran, hf, deleteSelf, hn]
  | completeRead self =>
    obtain ⟨hn, cli, hf, _, rfl⟩ := step_completeRead.mp hs
    rw [readMsg_escaped (by exact hn)]
    simp [BodyArrives, hf]
  | abortRead self =>
    obtain ⟨hn, _, rfl⟩ := step_abortRead.mp hs
    simp [BodyArrives, ran, hn]

theorem step_withstood_iff (h : io.Consistent) (hab : io.aborted = []) {a : IoAction}
    (hs : step order io a = some io') :
    (io'.escaped = none ∧ io'.aborted = []) ↔ io.Withstood order a := by
  rw [step_escaped_iff hs, step_aborted_iff h hab hs]
  exact ⟨fun ⟨hbody, hread⟩ => ⟨hbody, hread⟩, fun ⟨hbody, hread⟩ => ⟨hbody, hread⟩⟩

theorem along_contained_iff (order : ByteOrder) (as : List IoAction) :
    Along (step order) (Contained order) init as ↔ Guarded (step order) (Withstood order) init as := by
  refine along_iff_guarded (fun io => io.Consistent ∧ io.escaped = none ∧ io.aborted = [])
    (fun io h => h.1.contained h.2.1 h.2.2) ?_ ?_ ⟨consistent_init, rfl, rfl⟩ as
  · intro io a io' h hok hs
    exact ⟨step_consistent h.1 hs, (step_withstood_iff h.1 h.2.2 hs).mpr hok⟩
  · intro io a io' h hno hs hc
    exact hno ((step_withstood_iff h.1 h.2.2 hs).mp ⟨hc.escaped, hc.aborted⟩)

end IoService

def WholeMessages (order : ByteOrder) (s : List UInt8) : Prop :=
  Frames.Framed (fun bs => ∃ msg, Message order ClientMsg.create (ClientMsg.Received order) bs msg)
    (NoMessage order ClientMsg.create) s

theorem run_serverClosed_iff (order : ByteOrder) (client : ClientPtr) {fuel : Nat} {s : List UInt8}
    (hfuel : s.length < fuel) :
    (∃ msgs, RemoteServer.run order client fuel s = some (msgs, .ok (client != 0))) ↔
      WholeMessages order s := by
  have hh := receive_typedRound_ok_iff order (ClientMsg.reads_received order) hfuel
  rw [WholeMessages, ← hh, RemoteServer.run, RemoteServer.round_eq]
  constructor
  · rintro ⟨msgs, he⟩
    obtain ⟨⟨got, out⟩, hr, he⟩ := Option.map_eq_some_iff.mp he
    cases out with
    | error e => cases he
    | ok rest => exact ⟨got, rest, hr⟩
  · rintro ⟨msgs, rest, hr⟩
    exact ⟨if client = 0 then [] else msgs, by simp [hr, Except.map]⟩

theorem peer_failure_contained_iff (order : ByteOrder) :
    (∀ as, Along (IoService.step order) (IoService.Contained order) IoService.init as ↔
      Guarded (IoService.step order) (IoService.Withstood order) IoService.init as) ∧
    ∀ (client : ClientPtr) (s : List UInt8) (rounds : Nat),
      (∃ msgs, RemoteServer.run order client (s.length + 1 + rounds) s = some (msgs, .ok (client != 0))) ↔
        WholeMessages order s :=
  ⟨IoService.along_contained_iff order, fun client s rounds => run_serverClosed_iff order client (by omega)⟩

/-- A client that sends the type of an input message and closes. -/
theorem not_contained_input_without_state :
    ¬ ∀ order as, Along (IoService.step order) (IoService.Contained order) IoService.init as := by
  intro h
  have hrun : (run (IoService.step .little) IoService.init
      [.accept 1 [1, 0, 0, 0], .completeRead 1]).map IoService.escaped = some (some .systemError) := by
    decide
  obtain ⟨io, hio, he⟩ := Option.map_eq_some_iff.mp hrun
  have hn := ((h .little [.accept 1 [1, 0, 0, 0], .completeRead 1]).last hio).escaped
  rw [he] at hn
  cases hn

end Quintses
