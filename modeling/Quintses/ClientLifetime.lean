import Quintses.IoService

/-! What holds of the objects and handlers of the io loop in every run: an
object lives until its own `deleteSelf`, the last handler posted for it. -/

namespace Quintses.IoService

structure Consistent (io : IoService) : Prop where
  added : ∀ c cli, io.clients.find? c = some cli → .addClient c ∈ io.calls
  connected : ∀ c, io.Connected c → ∃ cli, io.clients.find? c = some cli ∧ cli.markedForDelete = false
  marked : ∀ c cli, io.clients.find? c = some cli → cli.markedForDelete = true →
    .removeClient c ∈ io.calls
  reading : io.escaped = none → ∀ c cli, io.clients.find? c = some cli →
    cli.markedForDelete = false → cli.reading = true
  posted : ∀ e ∈ io.posted, ∃ cli, io.clients.find? e.1 = some cli ∧
    (e.2 = .deleteSelf → cli.markedForDelete = true)
  deleteLast : io.posted.Pairwise (fun a b => a.2 = .deleteSelf → a.1 ≠ b.1)
  deleted : ∀ c, (c, HandlerName.deleteSelf) ∈ io.history →
    .addClient c ∈ io.calls ∧ io.clients.find? c = none

theorem consistent_init : init.Consistent where
  added := by simp [init]
  connected := by simp [init, Connected]
  marked := by simp [init]
  reading := by simp [init]
  posted := by simp [init]
  deleteLast := List.Pairwise.nil
  deleted := by simp [init]

variable {order : ByteOrder} {io io' : IoService} {self : ClientPtr} {cli cli' : RemoteClient}

namespace Consistent

theorem spinup (h : io.Consistent) (hnew : .addClient self ∉ io.calls) (incoming : List UInt8) :
    (io.spinup self incoming).Consistent := by
  have hdead : io.clients.find? self = none := by
    cases hf : io.clients.find? self with
    | none => rfl
    | some cli => exact absurd (h.added self cli hf) hnew
  refine ⟨?_, ?_, ?_, ?_, ?_, h.deleteLast, ?_⟩
  · intro c cli hf
    rcases StdMap.find?_assign_cases hf with ⟨rfl, -⟩ | ⟨-, hold⟩
    · exact List.mem_cons_self
    · exact List.mem_cons_of_mem _ (h.added c cli hold)
  · intro c hc
    by_cases he : c = self
    · exact ⟨⟨0, false, true, incoming, []⟩, by simp [IoService.spinup, he], rfl⟩
    · have hold : io.Connected c := by
        simpa [Connected, IoService.spinup, he] using hc
      simpa [IoService.spinup, he] using h.connected c hold
  · intro c cli hf hm
    rcases StdMap.find?_assign_cases hf with ⟨-, rfl⟩ | ⟨-, hold⟩
    · cases hm
    · exact List.mem_cons_of_mem _ (h.marked c cli hold hm)
  · intro hn c cli hf hm
    rcases StdMap.find?_assign_cases hf with ⟨-, rfl⟩ | ⟨-, hold⟩
    · rfl
    · exact h.reading hn c cli hold hm
  · intro e he
    obtain ⟨cli, hf, hm⟩ := h.posted e he
    have hc : e.1 ≠ self := by
      intro hc
      rw [hc, hdead] at hf
      cases hf
    exact ⟨cli, by simpa [IoService.spinup, hc] using hf, hm⟩
  · intro c hc
    obtain ⟨hadd, hf⟩ := h.deleted c hc
    have hne : c ≠ self := fun he => hnew (he ▸ hadd)
    exact ⟨List.mem_cons_of_mem _ hadd, by simpa [IoService.spinup, hne] using hf⟩

theorem post (h : io.Consistent) (hc : io.Connected self) (msg : ClientMsg) :
    Consistent { io with posted := io.posted ++ [(self, .writeMsg msg)] } := by
  obtain ⟨cli, hf, hm⟩ := h.connected self hc
  refine ⟨h.added, h.connected, h.marked, h.reading, ?_, ?_, h.deleted⟩
  · intro e he
    rcases List.mem_append.mp he with he | he
    · exact h.posted e he
    · rw [List.mem_singleton.mp he]
      exact ⟨cli, hf, by simp⟩
  · refine List.pairwise_append.mpr ⟨h.deleteLast, List.pairwise_singleton _ _, ?_⟩
    intro a ha b hb hdel he
    -- a posted `deleteSelf` means that the object is marked
    obtain ⟨cli', hf', hm'⟩ := h.posted a ha
    rw [List.mem_singleton.mp hb] at he
    rw [he, hf] at hf'
    rw [← Option.some.inj hf', hm] at hm'
    exact Bool.noConfusion (hm' hdel)

theorem ran (h : io.Consistent) (self : ClientPtr) (name : HandlerName) (hname : name ≠ .deleteSelf) :
    (io.ran self name).Consistent := by
  refine ⟨h.added, h.connected, h.marked, h.reading, h.posted, h.deleteLast, fun c hc => ?_⟩
  rcases List.mem_cons.mp hc with hc | hc
  · exact absurd (congrArg Prod.snd hc).symm hname
  · exact h.deleted c hc

theorem take {rest : List (ClientPtr × PostedHandler)} {e : ClientPtr × PostedHandler}
    (h : io.Consistent) (hp : io.posted = e :: rest) : Consistent { io with posted := rest } := by
  have hlast := h.deleteLast
  rw [hp] at hlast
  exact ⟨h.added, h.connected, h.marked, h.reading,
    fun e' he => h.posted e' (hp ▸ List.mem_cons_of_mem e he), hlast.of_cons, h.deleted⟩

theorem drop (h : io.Consistent) (l : List ClientPtr) : Consistent { io with aborted := l } :=
  ⟨h.added, h.connected, h.marked, h.reading, h.posted, h.deleteLast, h.deleted⟩

theorem received (h : io.Consistent) (msg : ServerMsg) :
    Consistent { io with calls := .pushMessage msg :: io.calls } := by
  refine ⟨fun c cli hf => List.mem_cons_of_mem _ (h.added c cli hf), fun c hc => ?_,
    fun c cli hf hm => List.mem_cons_of_mem _ (h.marked c cli hf hm), h.reading, h.posted, h.deleteLast,
    fun c hc => ⟨List.mem_cons_of_mem _ (h.deleted c hc).1, (h.deleted c hc).2⟩⟩
  exact h.connected c (by simpa [Connected] using hc)

theorem update (h : io.Consistent) (hf : io.clients.find? self = some cli)
    (hm : cli'.markedForDelete = cli.markedForDelete)
    (hr : cli'.markedForDelete = false → io.escaped = none → cli'.reading = true) :
    Consistent { io with clients := io.clients.assign self cli' } := by
  refine ⟨?_, ?_, ?_, ?_, ?_, h.deleteLast, ?_⟩
  · intro c x hx
    rcases StdMap.find?_assign_cases hx with ⟨rfl, -⟩ | ⟨-, hold⟩
    · exact h.added c cli hf
    · exact h.added c x hold
  · intro c hc
    obtain ⟨x, hx, hxm⟩ := h.connected c hc
    by_cases he : c = self
    · rw [he, hf] at hx
      exact ⟨cli', by simp [he], by rw [hm, Option.some.inj hx, hxm]⟩
    · exact ⟨x, by simpa [he] using hx, hxm⟩
  · intro c x hx hxm
    rcases StdMap.find?_assign_cases hx with ⟨rfl, rfl⟩ | ⟨-, hold⟩
    · exact h.marked c cli hf (hm ▸ hxm)
    · exact h.marked c x hold hxm
  · intro hn c x hx hxm
    rcases StdMap.find?_assign_cases hx with ⟨-, rfl⟩ | ⟨-, hold⟩
    · exact hr hxm hn
    · exact h.reading hn c x hold hxm
  · intro e he
    obtain ⟨x, hx, hxm⟩ := h.posted e he
    by_cases hc : e.1 = self
    · rw [hc, hf] at hx
      exact ⟨cli', by simp [hc], fun hd => by rw [hm, Option.some.inj hx, hxm hd]⟩
    · exact ⟨x, by simpa [hc] using hx, hxm⟩
  · intro c hc
    obtain ⟨hadd, hnone⟩ := h.deleted c hc
    have hne : c ≠ self := by
      intro he
      rw [he, hf] at hnone
      cases hnone
    exact ⟨hadd, by simpa [hne] using hnone⟩

theorem fail (h : io.Consistent) (e : ReadError) : Consistent { io with escaped := some e } :=
  ⟨h.added, h.connected, h.marked, by simp, h.posted, h.deleteLast, h.deleted⟩

theorem tearDown (h : io.Consistent) (hf : io.clients.find? self = some cli)
    (hm : cli.markedForDelete = false) (cli' : RemoteClient) : (io.tearDown self cli').Consistent := by
  refine ⟨?_, ?_, ?_, ?_, ?_, ?_, ?_⟩
  · intro c x hx
    refine List.mem_cons_of_mem _ ?_
    rcases StdMap.find?_assign_cases hx with ⟨rfl, -⟩ | ⟨-, hold⟩
    · exact h.added c cli hf
    · exact h.added c x hold
  · intro c hc
    have hne : c ≠ self := fun he => hc.2 (he ▸ List.mem_cons_self)
    have hold : io.Connected c := by simpa [Connected, IoService.tearDown, hne] using hc
    simpa [IoService.tearDown, hne] using h.connected c hold
  · intro c x hx hxm
    rcases StdMap.find?_assign_cases hx with ⟨rfl, -⟩ | ⟨-, hold⟩
    · exact List.mem_cons_self
    · exact List.mem_cons_of_mem _ (h.marked c x hold hxm)
  · intro hn c x hx hxm
    rcases StdMap.find?_assign_cases hx with ⟨-, rfl⟩ | ⟨-, hold⟩
    · cases hxm
    · exact h.reading hn c x hold hxm
  · intro e he
    by_cases hc : e.1 = self
    · exact ⟨{ cli' with markedForDelete := true }, by simp [IoService.tearDown, hc], fun _ => rfl⟩
    · rcases List.mem_append.mp he with he | he
      · simpa [IoService.tearDown, hc] using h.posted e he
      · exact absurd (congrArg Prod.fst (List.mem_singleton.mp he)) hc
  · refine List.pairwise_append.mpr ⟨h.deleteLast, List.pairwise_singleton _ _, ?_⟩
    intro a ha b hb hdel he
    obtain ⟨x, hx, hxm⟩ := h.posted a ha
    rw [List.mem_singleton.mp hb] at he
    rw [he, hf] at hx
    rw [← Option.some.inj hx, hm] at hxm
    exact Bool.noConfusion (hxm hdel)
  · intro c hc
    obtain ⟨hadd, hnone⟩ := h.deleted c hc
    have hne : c ≠ self := by
      intro he
      rw [he, hf] at hnone
      cases hnone
    exact ⟨List.mem_cons_of_mem _ hadd, by simpa [IoService.tearDown, hne] using hnone⟩

theorem delete {rest : List (ClientPtr × PostedHandler)} (h : io.Consistent)
    (hp : io.posted = (self, .deleteSelf) :: rest) (hf : io.clients.find? self = some cli) :
    (({ io with posted := rest }.ran self .deleteSelf).deleteSelf self cli).Consistent := by
  have hlast := h.deleteLast
  rw [hp] at hlast
  have hgone : ∀ e ∈ rest, e.1 ≠ self := fun e he hc => (List.pairwise_cons.mp hlast).1 e he rfl hc.symm
  refine ⟨?_, ?_, ?_, ?_, ?_, hlast.of_cons, ?_⟩
  · intro c x hx
    exact h.added c x (StdMap.find?_of_erase hx).2
  · intro c hc
    obtain ⟨x, hx, hxm⟩ := h.connected c hc
    have hne : c ≠ self := by
      rintro rfl
      obtain ⟨y, hy, hym⟩ := h.posted (c, .deleteSelf) (hp ▸ List.mem_cons_self)
      rw [hx] at hy
      rw [← Option.some.inj hy, hxm] at hym
      exact Bool.noConfusion (hym rfl)
    exact ⟨x, by simpa [deleteSelf, IoService.ran, hne] using hx, hxm⟩
  · intro c x hx hxm
    exact h.marked c x (StdMap.find?_of_erase hx).2 hxm
  · intro hn c x hx hxm
    exact h.reading hn c x (StdMap.find?_of_erase hx).2 hxm
  · intro e he
    simpa [deleteSelf, IoService.ran, hgone e he] using h.posted e (hp ▸ List.mem_cons_of_mem _ he)
  · intro c hc
    by_cases he : c = self
    · subst he
      exact ⟨h.added c cli hf, by simp [deleteSelf, IoService.ran]⟩
    · have hold : (c, HandlerName.deleteSelf) ∈ io.history := by
        simpa [deleteSelf, IoService.ran, he] using hc
      obtain ⟨hadd, hnone⟩ := h.deleted c hold
      exact ⟨hadd, by simpa [deleteSelf, IoService.ran, he] using hnone⟩

theorem writeMsg (h : io.Consistent) (hf : io.clients.find? self = some cli) (msg : ClientMsg)
    (failsAfter : Option Nat) : (io.writeMsg order self cli msg failsAfter).Consistent := by
  obtain ⟨sent, he | ⟨hm, he⟩⟩ := writeMsg_cases order io self cli msg failsAfter
  · rw [he]
    exact h.update hf rfl (fun hm hn => h.reading hn self cli hf hm)
  · rw [he]
    exact h.tearDown hf hm _

theorem readMsg (h : io.Consistent) (hf : io.clients.find? self = some cli) :
    (io.readMsg order self cli).Consistent := by
  cases hm : cli.markedForDelete with
  | true =>
    obtain ⟨type, rest, he⟩ := readMsg_of_marked order io self hm
    rw [he]
    exact h.update hf rfl (fun hn => by simp [hm] at hn)
  | false =>
    obtain ⟨type, left, ⟨msg, rest, _, he⟩ | ⟨_, he⟩ | ⟨e, _, he⟩⟩ :=
      readMsg_of_unmarked order io self hm
    · rw [he]
      exact (h.received msg).update hf rfl (fun _ _ => rfl)
    · rw [he]
      exact h.tearDown hf hm _
    · rw [he]
      exact (h.fail e).update hf rfl (fun _ hn => by cases hn)

end Consistent

theorem step_consistent (h : io.Consistent) {a : IoAction} (hs : step order io a = some io') :
    io'.Consistent := by
  cases a with
  | accept self incoming =>
    obtain ⟨_, _, hnew, rfl⟩ := step_accept.mp hs
    exact h.spinup hnew incoming
  | pushMessage self msg =>
    obtain ⟨_, hc, rfl⟩ := step_pushMessage.mp hs
    exact h.post hc msg
  | runPosted failsAfter =>
    obtain ⟨_, self, rest, ⟨msg, hp, rfl⟩ | ⟨hp, rfl⟩⟩ := step_runPosted.mp hs
    · obtain ⟨cli, hf, _⟩ := h.posted (self, .writeMsg msg) (hp ▸ List.mem_cons_self)
      have hran := (h.take hp).ran self .writeMsg (by decide)
      simp only [onObject, IoService.ran, hf]
      exact hran.writeMsg hf msg failsAfter
    · obtain ⟨cli, hf, _⟩ := h.posted (self, .deleteSelf) (hp ▸ List.mem_cons_self)
      simp only [onObject, IoService.ran, hf]
      exact h.delete hp hf
  | completeRead self =>
    obtain ⟨_, cli, hf, _, rfl⟩ := step_completeRead.mp hs
    exact (h.ran self .readMsg (by decide)).readMsg hf
  | abortRead self =>
    obtain ⟨_, _, rfl⟩ := step_abortRead.mp hs
    exact (h.drop _).ran self .readMsg (by decide)

end Quintses.IoService
