import Quintses.ClientLifetime

/-! The deferred deletion of a client object. It is in the clear only when the
outstanding read has completed before `deleteSelf` runs. -/

namespace Quintses

open Lts

/-- No `writeMsg` or `readMsg` of an object runs after its `deleteSelf`; the
newest handler comes first. -/
def SafeHistory (history : List (ClientPtr × HandlerName)) : Prop :=
  history.Pairwise (fun later earlier => earlier.2 = .deleteSelf → later.2 ≠ .deleteSelf →
    later.1 ≠ earlier.1)

instance (history : List (ClientPtr × HandlerName)) : Decidable (SafeHistory history) :=
  inferInstanceAs (Decidable (List.Pairwise _ history))

namespace IoService

/-- A `deleteSelf` that runs finds no `async_read` of its object outstanding. -/
def ReadCompleted (io : IoService) : IoAction → Prop
  | .runPosted _ => ∀ e ∈ io.posted.head?, e.2 = .deleteSelf →
    ∀ cli ∈ io.clients.find? e.1, cli.reading = false
  | _ => True

instance (io : IoService) (a : IoAction) : Decidable (io.ReadCompleted a) :=
  match a with
  | .runPosted _ => inferInstanceAs (Decidable (∀ e ∈ io.posted.head?, _))
  | .accept _ _ | .pushMessage _ _ | .completeRead _ | .abortRead _ => inferInstanceAs (Decidable True)

structure Clear (io : IoService) : Prop where
  consistent : io.Consistent
  safe : SafeHistory io.history
  aborted : io.aborted = []

variable {order : ByteOrder} {io io' : IoService} {self : ClientPtr} {cli : RemoteClient}

theorem Clear.ran_live (h : io.Clear) (hf : io.clients.find? self = some cli) (name : HandlerName) :
    SafeHistory (io.ran self name).history := by
  refine List.pairwise_cons.mpr ⟨?_, h.safe⟩
  rintro ⟨c, _⟩ he rfl _ rfl
  have hnone := (h.consistent.deleted _ he).2
  rw [hf] at hnone
  cases hnone

theorem writeMsg_frame (msg : ClientMsg) (failsAfter : Option Nat) :
    (io.writeMsg order self cli msg failsAfter).history = io.history ∧
      (io.writeMsg order self cli msg failsAfter).aborted = io.aborted := by
  obtain ⟨sent, he | ⟨_, he⟩⟩ := writeMsg_cases order io self cli msg failsAfter <;> simp [he, tearDown]

theorem readMsg_frame : (io.readMsg order self cli).history = io.history ∧
    (io.readMsg order self cli).aborted = io.aborted := by
  cases hm : cli.markedForDelete with
  | true =>
    obtain ⟨type, rest, he⟩ := readMsg_of_marked order io self hm
    simp [he]
  | false =>
    obtain ⟨type, left, ⟨msg, rest, _, he⟩ | ⟨_, he⟩ | ⟨e, _, he⟩⟩ :=
      readMsg_of_unmarked order io self hm <;> simp [he, tearDown]

/-- As long as no read of a destroyed socket waits, the next one comes from a
`deleteSelf` with its own read outstanding. -/
theorem step_aborted_iff (h : io.Consistent) (hab : io.aborted = []) {a : IoAction}
    (hs : step order io a = some io') : io'.aborted = [] ↔ io.ReadCompleted a := by
  cases a with
  | accept self incoming =>
    obtain ⟨_, _, _, rfl⟩ := step_accept.mp hs
    simp [ReadCompleted, spinup, hab]
  | pushMessage self msg =>
    obtain ⟨_, _, rfl⟩ := step_pushMessage.mp hs
    simp [ReadCompleted, hab]
  | runPosted failsAfter =>
    obtain ⟨_, self, rest, ⟨msg, hp, rfl⟩ | ⟨hp, rfl⟩⟩ := step_runPosted.mp hs
    · obtain ⟨cli, hf, _⟩ := h.posted (self, .writeMsg msg) (hp ▸ List.mem_cons_self)
      simp [ReadCompleted, onObject, ran, hf, hp, writeMsg_frame, hab]
    · obtain ⟨cli, hf, _⟩ := h.posted (self, .deleteSelf) (hp ▸ List.mem_cons_self)
      simp [ReadCompleted, onObject, ran, hf, hp, deleteSelf, hab]
  | completeRead self =>
    obtain ⟨_, cli, _, _, rfl⟩ := step_completeRead.mp hs
    simp [ReadCompleted, readMsg_frame, ran, hab]
  | abortRead self =>
    obtain ⟨_, hm, _⟩ := step_abortRead.mp hs
    rw [hab] at hm
    cases hm

theorem step_clear (h : io.Clear) {a : IoAction} (hok : io.ReadCompleted a)
    (hs : step order io a = some io') : io'.Clear := by
  refine ⟨step_consistent h.consistent hs, ?_, (step_aborted_iff h.consistent h.aborted hs).mpr hok⟩
  cases a with
  | accept self incoming =>
    obtain ⟨_, _, _, rfl⟩ := step_accept.mp hs
    exact h.safe
  | pushMessage self msg =>
    obtain ⟨_, _, rfl⟩ := step_pushMessage.mp hs
    exact h.safe
  | runPosted failsAfter =>
    obtain ⟨_, self, rest, ⟨msg, hp, rfl⟩ | ⟨hp, rfl⟩⟩ := step_runPosted.mp hs
    · obtain ⟨cli, hf, _⟩ := h.consistent.posted (self, .writeMsg msg) (hp ▸ List.mem_cons_self)
      simp only [onObject, ran, hf, writeMsg_frame]
      exact h.ran_live hf .writeMsg
    · obtain ⟨cli, hf, _⟩ := h.consistent.posted (self, .deleteSelf) (hp ▸ List.mem_cons_self)
      simp only [onObject, ran, hf, deleteSelf]
      exact h.ran_live hf .deleteSelf
  | completeRead self =>
    obtain ⟨_, cli, hf, _, rfl⟩ := step_completeRead.mp hs
    rw [readMsg_frame.1]
    exact h.ran_live hf .readMsg
  | abortRead self =>
    obtain ⟨_, hm, _⟩ := step_abortRead.mp hs
    rw [h.aborted] at hm
    cases hm

end IoService

theorem self_deletion_safe (order : ByteOrder) {as : List IoAction}
    (h : Guarded (IoService.step order) IoService.ReadCompleted IoService.init as) :
    Along (IoService.step order) (fun io => SafeHistory io.history) IoService.init as := by
  have hclear : IoService.init.Clear := ⟨IoService.consistent_init, List.Pairwise.nil, rfl⟩
  exact (h.along IoService.Clear (fun _ _ _ hc hok hs => IoService.step_clear hc hok hs) hclear).mono
    (fun _ hc => hc.safe)

theorem self_deletion_safe_unknown_type :
    Along (IoService.step .little) (fun io => SafeHistory io.history) IoService.init
      [.accept 1 [9, 0, 0, 0], .pushMessage 1 (.delDrawable ⟨5⟩), .completeRead 1,
        .runPosted none, .runPosted none] :=
  self_deletion_safe .little (by decide)

/-- After a failed write the read is still outstanding when the object goes. -/
theorem not_safe_failed_write : ¬ ∀ order as,
    Along (IoService.step order) (fun io => SafeHistory io.history) IoService.init as := by
  intro h
  let as : List IoAction := [.accept 1 [], .pushMessage 1 (.delDrawable ⟨5⟩), .runPosted (some 0),
    .runPosted none, .abortRead 1]
  have hrun : (run (IoService.step .little) IoService.init as).map IoService.history =
      some [(1, .readMsg), (1, .deleteSelf), (1, .writeMsg)] := by decide
  obtain ⟨io, hio, he⟩ := Option.map_eq_some_iff.mp hrun
  have hsafe := (h .little as).last hio
  simp only [he] at hsafe
  exact absurd hsafe (by decide)

end Quintses
