import Quintses.ClientLifetime

/-! How often a connection is torn down, and what its object still does after
`m_marked_for_delete` is set. -/

namespace Quintses.IoService

open Lts

/-- One `removeClient` call for a marked object and none before; the
`deleteSelf` posted with it stays posted as long as the object lives. -/
structure RemovedOnce (io : IoService) : Prop where
  removed : ∀ c, .removeClient c ∈ io.calls → .addClient c ∈ io.calls
  atMostOnce : ∀ c, io.calls.count (.removeClient c) ≤ 1
  calls : ∀ c cli, io.clients.find? c = some cli →
    io.calls.count (.removeClient c) = cli.markedForDelete.toNat
  posted : ∀ c cli, io.clients.find? c = some cli →
    io.posted.count (c, .deleteSelf) = cli.markedForDelete.toNat
  aborted : ∀ c ∈ io.aborted, io.clients.find? c = none ∧ .addClient c ∈ io.calls

def pushedBy (io : IoService) (c : ClientPtr) : List ServerCall :=
  io.calls.filter (fun call => match call with
    | .pushMessage msg => msg.sender = c
    | _ => false)

/-- The reads of a type word that the object has armed: each has run `readMsg`
or is outstanding. -/
def readsArmed (io : IoService) (c : ClientPtr) : Nat :=
  io.history.count (c, .readMsg) + ((io.clients.find? c).map (fun cli => cli.reading.toNat)).getD 0

/-- The object has been marked, and since then nothing was pushed or armed for it. -/
structure Retired (c : ClientPtr) (pushed : List ServerCall) (armed : Nat) (io : IoService) : Prop where
  added : .addClient c ∈ io.calls
  pushed : io.pushedBy c = pushed
  live : ∀ cli, io.clients.find? c = some cli → cli.markedForDelete = true ∧
    io.history.count (c, .readMsg) + cli.reading.toNat = armed

/-- The write that runs fails, or the read that completes has met an error or an
unknown type word. -/
def Fails (order : ByteOrder) (io : IoService) (c : ClientPtr) (cli : RemoteClient) : IoAction → Prop
  | .runPosted failsAfter => failsAfter ≠ none ∧ ∃ msg rest, io.posted = (c, .writeMsg msg) :: rest
  | .completeRead self => self = c ∧ NoMessage order (ServerMsg.create · c) cli.incoming
  | .accept _ _ | .pushMessage _ _ | .abortRead _ => False

structure TornDown (io : IoService) (c : ClientPtr) : Prop where
  called : io.calls.count (.removeClient c) = 1
  posted : io.posted.count (c, .deleteSelf) = 1
  marked : ∃ cli, io.clients.find? c = some cli ∧ cli.markedForDelete = true

structure TornDownOnce (order : ByteOrder) (io : IoService) : Prop where
  atMostOnce : ∀ c, io.calls.count (.removeClient c) ≤ 1
  failed : ∀ c cli, io.clients.find? c = some cli → cli.markedForDelete = false → ∀ a io',
    step order io a = some io' → (io'.TornDown c ↔ io.Fails order c cli a)
  posted : ∀ c cli, io.clients.find? c = some cli →
    io.posted.count (c, .deleteSelf) = io.calls.count (.removeClient c)
  marked : ∀ c cli, io.clients.find? c = some cli →
    (cli.markedForDelete = true ↔ .removeClient c ∈ io.calls)
  quiet : ∀ c cli, io.clients.find? c = some cli → cli.markedForDelete = true → ∀ as,
    Along (step order) (fun io' => io'.pushedBy c = io.pushedBy c ∧
      ((io'.clients.find? c).isSome → io'.readsArmed c = io.readsArmed c)) io as

variable {order : ByteOrder} {io io' : IoService} {self : ClientPtr} {cli cli' : RemoteClient}

theorem ne_of_none {c : ClientPtr} (hf : io.clients.find? self = some cli)
    (hnone : io.clients.find? c = none) : c ≠ self := by
  rintro rfl
  rw [hf] at hnone
  cases hnone

theorem removedOnce_init : init.RemovedOnce where
  removed := by simp [init]
  atMostOnce := by simp [init]
  calls := by simp [init]
  posted := by simp [init]
  aborted := by simp [init]

namespace RemovedOnce

theorem spinup (h : io.RemovedOnce) (hc : io.Consistent) (hnew : .addClient self ∉ io.calls)
    (incoming : List UInt8) : (io.spinup self incoming).RemovedOnce := by
  have hzero : io.calls.count (.removeClient self) = 0 :=
    List.count_eq_zero.mpr (fun hm => hnew (h.removed self hm))
  have hnone : io.posted.count (self, .deleteSelf) = 0 := by
    refine List.count_eq_zero.mpr (fun hm => ?_)
    obtain ⟨cli, hf, _⟩ := hc.posted _ hm
    exact hnew (hc.added self cli hf)
  refine ⟨?_, ?_, ?_, ?_, ?_⟩
  · intro c hm
    rcases List.mem_cons.mp hm with hm | hm
    · cases hm
    · exact List.mem_cons_of_mem _ (h.removed c hm)
  · intro c
    simpa [IoService.spinup] using h.atMostOnce c
  · intro c cli hf
    rcases StdMap.find?_assign_cases hf with ⟨rfl, rfl⟩ | ⟨-, hold⟩
    · simpa [IoService.spinup] using hzero
    · simpa [IoService.spinup] using h.calls c cli hold
  · intro c cli hf
    rcases StdMap.find?_assign_cases hf with ⟨rfl, rfl⟩ | ⟨-, hold⟩
    · simpa [IoService.spinup] using hnone
    · simpa [IoService.spinup] using h.posted c cli hold
  · intro c hm
    obtain ⟨hnone, hadd⟩ := h.aborted c hm
    have he : c ≠ self := fun he => hnew (he ▸ hadd)
    exact ⟨by simpa [IoService.spinup, he] using hnone, List.mem_cons_of_mem _ hadd⟩

theorem post (h : io.RemovedOnce) (msg : ClientMsg) :
    RemovedOnce { io with posted := io.posted ++ [(self, .writeMsg msg)] } :=
  ⟨h.removed, h.atMostOnce, h.calls, fun c cli hf => by simpa using h.posted c cli hf, h.aborted⟩

theorem ran (h : io.RemovedOnce) (self : ClientPtr) (name : HandlerName) :
    (io.ran self name).RemovedOnce :=
  ⟨h.removed, h.atMostOnce, h.calls, h.posted, h.aborted⟩

theorem take {rest : List (ClientPtr × PostedHandler)} {msg : ClientMsg} (h : io.RemovedOnce)
    (hp : io.posted = (self, .writeMsg msg) :: rest) : RemovedOnce { io with posted := rest } :=
  ⟨h.removed, h.atMostOnce, h.calls, fun c cli hf => by simpa [hp] using h.posted c cli hf, h.aborted⟩

theorem drop (h : io.RemovedOnce) (self : ClientPtr) :
    RemovedOnce { io with aborted := io.aborted.erase self } :=
  ⟨h.removed, h.atMostOnce, h.calls, h.posted, fun c hm => h.aborted c (List.mem_of_mem_erase hm)⟩

theorem received (h : io.RemovedOnce) (msg : ServerMsg) :
    RemovedOnce { io with calls := .pushMessage msg :: io.calls } :=
  ⟨fun c hm => List.mem_cons_of_mem _ (h.removed c (by simpa using hm)),
    fun c => by simpa using h.atMostOnce c, fun c cli hf => by simpa using h.calls c cli hf, h.posted,
    fun c hm => ⟨(h.aborted c hm).1, List.mem_cons_of_mem _ (h.aborted c hm).2⟩⟩

theorem fail (h : io.RemovedOnce) (e : ReadError) : RemovedOnce { io with escaped := some e } :=
  ⟨h.removed, h.atMostOnce, h.calls, h.posted, h.aborted⟩

theorem update (h : io.RemovedOnce) (hf : io.clients.find? self = some cli)
    (hm : cli'.markedForDelete = cli.markedForDelete) :
    RemovedOnce { io with clients := io.clients.assign self cli' } := by
  refine ⟨h.removed, h.atMostOnce, ?_, ?_, ?_⟩
  · intro c x hx
    rcases StdMap.find?_assign_cases hx with ⟨rfl, rfl⟩ | ⟨-, hold⟩
    · rw [hm]
      exact h.calls c cli hf
    · exact h.calls c x hold
  · intro c x hx
    rcases StdMap.find?_assign_cases hx with ⟨rfl, rfl⟩ | ⟨-, hold⟩
    · rw [hm]
      exact h.posted c cli hf
    · exact h.posted c x hold
  · intro c hm
    obtain ⟨hnone, hadd⟩ := h.aborted c hm
    have he : c ≠ self := ne_of_none hf hnone
    exact ⟨by simpa [he] using hnone, hadd⟩

theorem tearDown (h : io.RemovedOnce) (hc : io.Consistent) (hf : io.clients.find? self = some cli)
    (hm : cli.markedForDelete = false) (cli' : RemoteClient) : (io.tearDown self cli').RemovedOnce := by
  have hcalls := h.calls self cli hf
  have hposted := h.posted self cli hf
  rw [hm] at hcalls hposted
  refine ⟨?_, ?_, ?_, ?_, ?_⟩
  · intro c hr
    rcases List.mem_cons.mp hr with hr | hr
    · obtain rfl : c = self := by simpa using hr
      exact List.mem_cons_of_mem _ (hc.added c cli hf)
    · exact List.mem_cons_of_mem _ (h.removed c hr)
  · intro c
    by_cases he : c = self
    · simp [IoService.tearDown, he, hcalls]
    · simpa [IoService.tearDown, List.count_cons, Ne.symm he] using h.atMostOnce c
  · intro c x hx
    rcases StdMap.find?_assign_cases hx with ⟨rfl, rfl⟩ | ⟨hne, hold⟩
    · simp [IoService.tearDown, hcalls]
    · simpa [IoService.tearDown, List.count_cons, hne.symm] using h.calls c x hold
  · intro c x hx
    rcases StdMap.find?_assign_cases hx with ⟨rfl, rfl⟩ | ⟨hne, hold⟩
    · simp [IoService.tearDown, hposted]
    · simpa [IoService.tearDown, List.count_append, List.count_cons, hne.symm] using h.posted c x hold
  · intro c hm'
    obtain ⟨hnone, hadd⟩ := h.aborted c hm'
    have he : c ≠ self := ne_of_none hf hnone
    exact ⟨by simpa [IoService.tearDown, he] using hnone, List.mem_cons_of_mem _ hadd⟩

theorem delete {rest : List (ClientPtr × PostedHandler)} (h : io.RemovedOnce) (hc : io.Consistent)
    (hf : io.clients.find? self = some cli) (hp : io.posted = (self, .deleteSelf) :: rest) :
    (({ io with posted := rest }.ran self .deleteSelf).deleteSelf self cli).RemovedOnce := by
  refine ⟨h.removed, h.atMostOnce, ?_, ?_, ?_⟩
  · intro c x hx
    exact h.calls c x (StdMap.find?_of_erase hx).2
  · intro c x hx
    obtain ⟨hne, hold⟩ := StdMap.find?_of_erase hx
    have hh := h.posted c x hold
    simpa [deleteSelf, IoService.ran, hp, List.count_cons, hne.symm] using hh
  · intro c hm
    by_cases he : c = self
    · exact ⟨by simp [deleteSelf, he], he ▸ hc.added self cli hf⟩
    · have hold : c ∈ io.aborted := by
        cases hr : cli.reading <;> simpa [deleteSelf, IoService.ran, hr, he] using hm
      obtain ⟨hnone, hadd⟩ := h.aborted c hold
      exact ⟨by simpa [deleteSelf, IoService.ran, he] using hnone, hadd⟩

theorem writeMsg (h : io.RemovedOnce) (hc : io.Consistent) (hf : io.clients.find? self = some cli)
    (msg : ClientMsg) (failsAfter : Option Nat) :
    (io.writeMsg order self cli msg failsAfter).RemovedOnce := by
  obtain ⟨sent, he | ⟨hm, he⟩⟩ := writeMsg_cases order io self cli msg failsAfter
  · rw [he]
    exact h.update hf rfl
  · rw [he]
    exact h.tearDown hc hf hm _

theorem readMsg (h : io.RemovedOnce) (hc : io.Consistent) (hf : io.clients.find? self = some cli) :
    (io.readMsg order self cli).RemovedOnce := by
  cases hm : cli.markedForDelete with
  | true =>
    obtain ⟨type, rest, he⟩ := readMsg_of_marked order io self hm
    rw [he]
    exact h.update hf rfl
  | false =>
    obtain ⟨type, left, ⟨msg, rest, _, he⟩ | ⟨_, he⟩ | ⟨e, _, he⟩⟩ :=
      readMsg_of_unmarked order io self hm
    · rw [he]
      exact (h.received msg).update hf rfl
    · rw [he]
      exact h.tearDown hc hf hm _
    · rw [he]
      exact (h.fail e).update hf rfl

end RemovedOnce

theorem step_removedOnce (h : io.RemovedOnce) (hc : io.Consistent) {a : IoAction}
    (hs : step order io a = some io') : io'.RemovedOnce := by
  cases a with
  | accept self incoming =>
    obtain ⟨_, _, hnew, rfl⟩ := step_accept.mp hs
    exact h.spinup hc hnew incoming
  | pushMessage self msg =>
    obtain ⟨_, _, rfl⟩ := step_pushMessage.mp hs
    exact h.post msg
  | runPosted failsAfter =>
    obtain ⟨_, self, rest, ⟨msg, hp, rfl⟩ | ⟨hp, rfl⟩⟩ := step_runPosted.mp hs
    · obtain ⟨cli, hf, _⟩ := hc.posted (self, .writeMsg msg) (hp ▸ List.mem_cons_self)
      have hran := (h.take hp).ran self .writeMsg
      have hcran := (hc.take hp).ran self .writeMsg (by decide)
      simp only [onObject, IoService.ran, hf]
      exact hran.writeMsg hcran hf msg failsAfter
    · obtain ⟨cli, hf, _⟩ := hc.posted (self, .deleteSelf) (hp ▸ List.mem_cons_self)
      simp only [onObject, IoService.ran, hf]
      exact h.delete hc hf hp
  | completeRead self =>
    obtain ⟨_, cli, hf, _, rfl⟩ := step_completeRead.mp hs
    exact (h.ran self .readMsg).readMsg (hc.ran self .readMsg (by decide)) hf
  | abortRead self =>
    obtain ⟨_, _, rfl⟩ := step_abortRead.mp hs
    exact (h.drop self).ran self .readMsg

section

variable {c : ClientPtr} {msg : ClientMsg} {failsAfter : Option Nat}

theorem writeMsg_marks (hm : cli.markedForDelete = false) :
    ∃ cli', (io.writeMsg order self cli msg failsAfter).clients.find? self = some cli' ∧
      (cli'.markedForDelete = true ↔ failsAfter ≠ none) := by
  cases failsAfter with
  | none =>
    refine ⟨{ cli with sent := cli.sent ++ RemoteClient.writeMsg order msg }, ?_, by simp [hm]⟩
    simp [writeMsg]
  | some k =>
    let sent := cli.sent ++ (RemoteClient.writeMsg order msg).take k
    refine ⟨{ cli with sent, markedForDelete := true }, ?_, by simp⟩
    simp [writeMsg, hm, tearDown, sent]

theorem readMsg_marks (hm : cli.markedForDelete = false) :
    ∃ cli', (io.readMsg order self cli).clients.find? self = some cli' ∧
      (cli'.markedForDelete = true ↔ NoMessage order (ServerMsg.create · self) cli.incoming) := by
  rw [← typedRound_stop_iff order _ (ServerMsg.read order), ← RemoteClient.round_eq]
  obtain ⟨type, left, ⟨msg, rest, hr, he⟩ | ⟨hr, he⟩ | ⟨e, hr, he⟩⟩ := readMsg_of_unmarked order io self hm
  · refine ⟨{ cli with reading := true, nextMsgType := type, incoming := rest }, ?_, by simp [hr, hm]⟩
    simp [he]
  · refine ⟨{ cli with reading := false, nextMsgType := type, incoming := left, markedForDelete := true }, ?_, ?_⟩
    · simp [he, tearDown]
    · simp [hr]
  · refine ⟨{ cli with reading := false, nextMsgType := type, incoming := left }, ?_, by simp [hr, hm]⟩
    simp [he]

theorem writeMsg_other (hne : c ≠ self) :
    (io.writeMsg order self cli msg failsAfter).clients.find? c = io.clients.find? c := by
  obtain ⟨sent, he | ⟨_, he⟩⟩ := writeMsg_cases order io self cli msg failsAfter <;> simp [he, tearDown, hne]

theorem readMsg_other (hne : c ≠ self) : (io.readMsg order self cli).clients.find? c = io.clients.find? c := by
  cases hm : cli.markedForDelete with
  | true =>
    obtain ⟨type, rest, he⟩ := readMsg_of_marked order io self hm
    simp [he, hne]
  | false =>
    obtain ⟨type, left, ⟨msg, rest, _, he⟩ | ⟨_, he⟩ | ⟨e, _, he⟩⟩ :=
      readMsg_of_unmarked order io self hm <;> simp [he, tearDown, hne]

/-- An object that is not marked is marked by the steps that fail, and by no others. -/
theorem step_marks (hc : io.Consistent) (hf : io.clients.find? c = some cli) (hm : cli.markedForDelete = false)
    {a : IoAction} (hs : step order io a = some io') :
    ∃ cli', io'.clients.find? c = some cli' ∧ (cli'.markedForDelete = true ↔ io.Fails order c cli a) := by
  have hsame (hfind : io'.clients.find? c = io.clients.find? c) (hno : ¬ io.Fails order c cli a) :
      ∃ cli', io'.clients.find? c = some cli' ∧ (cli'.markedForDelete = true ↔ io.Fails order c cli a) :=
    ⟨cli, hfind.trans hf, by simp [hm, hno]⟩
  cases a with
  | accept self incoming =>
    obtain ⟨_, _, hnew, rfl⟩ := step_accept.mp hs
    have hne : c ≠ self := fun he => hnew (he ▸ hc.added c cli hf)
    exact hsame (by simp [spinup, hne]) (by simp [Fails])
  | pushMessage self msg =>
    obtain ⟨_, _, rfl⟩ := step_pushMessage.mp hs
    exact hsame rfl (by simp [Fails])
  | runPosted failsAfter =>
    obtain ⟨_, self, rest, ⟨msg, hp, rfl⟩ | ⟨hp, rfl⟩⟩ := step_runPosted.mp hs
    · obtain ⟨other, hother, _⟩ := hc.posted (self, .writeMsg msg) (hp ▸ List.mem_cons_self)
      simp only [onObject, ran, hother]
      by_cases he : c = self
      · subst he
        obtain rfl : cli = other := Option.some.inj (hf.symm.trans hother)
        obtain ⟨cli', hf', hiff⟩ := @writeMsg_marks order ({ io with posted := rest }.ran c .writeMsg) c cli msg
          failsAfter hm
        exact ⟨cli', hf', by simpa [Fails, hp] using hiff⟩
      · refine ⟨cli, (writeMsg_other he).trans hf, ?_⟩
        simp [Fails, hp, hm, Ne.symm he]
    · obtain ⟨other, hother, hmarked⟩ := hc.posted (self, .deleteSelf) (hp ▸ List.mem_cons_self)
      have hne : c ≠ self := by
        rintro rfl
        obtain rfl : cli = other := Option.some.inj (hf.symm.trans hother)
        simp [hm] at hmarked
      simp only [onObject, ran, hother]
      exact ⟨cli, by simpa [deleteSelf, hne] using hf, by simp [Fails, hp, hm]⟩
  | completeRead self =>
    obtain ⟨_, other, hother, _, rfl⟩ := step_completeRead.mp hs
    by_cases he : c = self
    · subst he
      obtain rfl : cli = other := Option.some.inj (hf.symm.trans hother)
      obtain ⟨cli', hf', hiff⟩ := @readMsg_marks order (io.ran c .readMsg) c cli hm
      exact ⟨cli', hf', by simpa [Fails] using hiff⟩
    · exact hsame (readMsg_other he) (by simp [Fails, Ne.symm he])
  | abortRead self =>
    obtain ⟨_, _, rfl⟩ := step_abortRead.mp hs
    exact hsame rfl (by simp [Fails])

theorem RemovedOnce.tornDown_iff (h : io.RemovedOnce) (hf : io.clients.find? c = some cli) :
    io.TornDown c ↔ cli.markedForDelete = true := by
  constructor
  · rintro ⟨_, _, cli', hf', hm⟩
    obtain rfl : cli = cli' := Option.some.inj (hf.symm.trans hf')
    exact hm
  · intro hm
    exact ⟨by rw [h.calls c cli hf, hm]; rfl, by rw [h.posted c cli hf, hm]; rfl, cli, hf, hm⟩

end

section

variable {c : ClientPtr} {pushed : List ServerCall} {armed : Nat}

theorem pushedBy_cons (call : ServerCall) (h : ∀ msg, call = .pushMessage msg → msg.sender ≠ c) :
    { io with calls := call :: io.calls }.pushedBy c = io.pushedBy c := by
  cases call with
  | pushMessage msg => simp [pushedBy, h msg rfl]
  | _ => rfl

namespace Retired

theorem call (h : Retired c pushed armed io) (call : ServerCall)
    (hc : ∀ msg, call = .pushMessage msg → msg.sender ≠ c) :
    Retired c pushed armed { io with calls := call :: io.calls } :=
  ⟨List.mem_cons_of_mem _ h.added, (pushedBy_cons call hc).trans h.pushed, h.live⟩

theorem ran (h : Retired c pushed armed io) {name : HandlerName} (hname : name = .readMsg → self ≠ c) :
    Retired c pushed armed (io.ran self name) := by
  refine ⟨h.added, h.pushed, fun cli hf => ?_⟩
  have hne : (self, name) ≠ (c, HandlerName.readMsg) := by
    rintro he
    exact hname (congrArg Prod.snd he) (congrArg Prod.fst he)
  simpa [IoService.ran, List.count_cons, hne] using h.live cli hf

theorem post (h : Retired c pushed armed io) (posted : List (ClientPtr × PostedHandler)) :
    Retired c pushed armed { io with posted := posted } :=
  ⟨h.added, h.pushed, h.live⟩

theorem assign (h : Retired c pushed armed io) (cli' : RemoteClient)
    (hsame : self = c → ∃ cli, io.clients.find? c = some cli ∧
      cli'.markedForDelete = cli.markedForDelete ∧ cli'.reading = cli.reading) :
    Retired c pushed armed { io with clients := io.clients.assign self cli' } := by
  refine ⟨h.added, h.pushed, fun x hx => ?_⟩
  by_cases he : c = self
  · obtain ⟨cli, hf, hm, hr⟩ := hsame he.symm
    obtain rfl : cli' = x := by simpa [he] using hx
    simpa only [hm, hr] using h.live cli hf
  · exact h.live x (by simpa [he] using hx)

theorem tearDown (h : Retired c pushed armed io) (hne : self ≠ c) (cli : RemoteClient) :
    Retired c pushed armed (io.tearDown self cli) := by
  have hcall := h.call (.removeClient self) (by simp)
  have hpost := hcall.post (io.posted ++ [(self, PostedHandler.deleteSelf)])
  exact hpost.assign { cli with markedForDelete := true } (fun he => absurd he hne)

theorem deleteSelf (h : Retired c pushed armed io) (cli : RemoteClient) :
    Retired c pushed armed (io.deleteSelf self cli) := by
  refine ⟨h.added, h.pushed, fun x hx => ?_⟩
  by_cases he : c = self
  · simp [IoService.deleteSelf, he] at hx
  · exact h.live x (by simpa [IoService.deleteSelf, he] using hx)

theorem writeMsg (h : Retired c pushed armed io) (hf : io.clients.find? self = some cli)
    (msg : ClientMsg) (failsAfter : Option Nat) :
    Retired c pushed armed (io.writeMsg order self cli msg failsAfter) := by
  obtain ⟨sent, he | ⟨hm, he⟩⟩ := writeMsg_cases order io self cli msg failsAfter
  · rw [he]
    exact h.assign _ (fun hc => ⟨cli, hc ▸ hf, rfl, rfl⟩)
  · rw [he]
    refine h.tearDown (fun hc => ?_) _
    have hmarked := (h.live cli (hc ▸ hf)).1
    rw [hm] at hmarked
    cases hmarked

theorem readMsg_self (h : Retired c pushed armed io) (hf : io.clients.find? c = some cli)
    (hr : cli.reading = true) : Retired c pushed armed ((io.ran c .readMsg).readMsg order c cli) := by
  obtain ⟨hm, harmed⟩ := h.live cli hf
  obtain ⟨type, rest, he⟩ := readMsg_of_marked order (io.ran c .readMsg) c hm
  rw [he]
  refine ⟨h.added, h.pushed, fun x hx => ?_⟩
  obtain rfl : _ = x := by simpa [IoService.ran] using hx
  exact ⟨hm, by simpa [IoService.ran, hr, Nat.add_assoc] using harmed⟩

theorem readMsg_other (h : Retired c pushed armed io) (hne : self ≠ c) (cli : RemoteClient) :
    Retired c pushed armed (io.readMsg order self cli) := by
  cases hm : cli.markedForDelete with
  | true =>
    obtain ⟨type, rest, he⟩ := readMsg_of_marked order io self hm
    rw [he]
    exact h.assign _ (fun hc => absurd hc hne)
  | false =>
    obtain ⟨type, left, ⟨msg, rest, hr, he⟩ | ⟨_, he⟩ | ⟨e, _, he⟩⟩ :=
      readMsg_of_unmarked order io self hm
    · rw [he]
      have hcall := h.call (.pushMessage msg) (fun m hm => by
        cases hm
        exact (RemoteClient.round_next hr).2 ▸ hne)
      exact hcall.assign _ (fun hc => absurd hc hne)
    · rw [he]
      exact h.tearDown hne _
    · rw [he]
      have hassign := h.assign { cli with reading := false, nextMsgType := type, incoming := left }
        (fun hc => absurd hc hne)
      exact ⟨hassign.added, hassign.pushed, hassign.live⟩

end Retired

end

theorem step_retired {c : ClientPtr} {pushed : List ServerCall} {armed : Nat} (h : io.RemovedOnce)
    (hc : io.Consistent) (hr : Retired c pushed armed io) {a : IoAction}
    (hs : step order io a = some io') : Retired c pushed armed io' := by
  cases a with
  | accept self incoming =>
    obtain ⟨_, _, hnew, rfl⟩ := step_accept.mp hs
    exact (hr.call (.addClient self) (by simp)).assign _ (fun he => absurd (he ▸ hr.added) hnew)
  | pushMessage self msg =>
    obtain ⟨_, _, rfl⟩ := step_pushMessage.mp hs
    exact hr.post _
  | runPosted failsAfter =>
    obtain ⟨_, self, rest, ⟨msg, hp, rfl⟩ | ⟨hp, rfl⟩⟩ := step_runPosted.mp hs
    · obtain ⟨cli, hf, _⟩ := hc.posted (self, .writeMsg msg) (hp ▸ List.mem_cons_self)
      have hran : Retired c pushed armed ({ io with posted := rest }.ran self .writeMsg) :=
        (hr.post rest).ran (by simp)
      simp only [onObject, IoService.ran, hf]
      exact hran.writeMsg hf msg failsAfter
    · obtain ⟨cli, hf, _⟩ := hc.posted (self, .deleteSelf) (hp ▸ List.mem_cons_self)
      have hran : Retired c pushed armed ({ io with posted := rest }.ran self .deleteSelf) :=
        (hr.post rest).ran (by simp)
      simp only [onObject, IoService.ran, hf]
      exact hran.deleteSelf cli
  | completeRead self =>
    obtain ⟨_, cli, hf, hread, rfl⟩ := step_completeRead.mp hs
    by_cases he : self = c
    · subst he
      exact hr.readMsg_self hf hread
    · exact (hr.ran (fun _ => he)).readMsg_other he cli
  | abortRead self =>
    obtain ⟨_, hm, rfl⟩ := step_abortRead.mp hs
    have hdrop : Retired c pushed armed { io with aborted := io.aborted.erase self } :=
      ⟨hr.added, hr.pushed, hr.live⟩
    by_cases he : self = c
    · -- a read that is aborted belongs to an object that is gone
      refine ⟨hr.added, hr.pushed, fun cli hf => ?_⟩
      have hnone := (h.aborted self hm).1
      rw [he] at hnone
      exact absurd (hf.symm.trans hnone) (by simp)
    · exact hdrop.ran (fun _ => he)

theorem along_retired {c : ClientPtr} {pushed : List ServerCall} {armed : Nat} (h : io.RemovedOnce)
    (hc : io.Consistent) (hr : Retired c pushed armed io) (as : List IoAction) :
    Along (step order) (Retired c pushed armed) io as := by
  have hstep : ∀ s a t, (s.RemovedOnce ∧ s.Consistent ∧ Retired c pushed armed s) →
      step order s a = some t → t.RemovedOnce ∧ t.Consistent ∧ Retired c pushed armed t := by
    rintro s a t ⟨h1, h2, h3⟩ hs
    exact ⟨step_removedOnce h1 h2 hs, step_consistent h2 hs, step_retired h1 h2 h3 hs⟩
  have halong := along_of_step _ hstep ⟨h, hc, hr⟩ as
  exact halong.mono (fun s hs => hs.2.2)

/-- What a marked object has pushed and armed by now stays as it is. -/
theorem along_quiet {c : ClientPtr} (h : io.RemovedOnce) (hc : io.Consistent)
    (hf : io.clients.find? c = some cli) (hm : cli.markedForDelete = true) (as : List IoAction) :
    Along (step order) (fun io' => io'.pushedBy c = io.pushedBy c ∧
      ((io'.clients.find? c).isSome → io'.readsArmed c = io.readsArmed c)) io as := by
  have hstart : Retired c (io.pushedBy c) (io.readsArmed c) io := by
    refine ⟨hc.added c cli hf, rfl, fun x hx => ?_⟩
    obtain rfl : cli = x := Option.some.inj (hf.symm.trans hx)
    exact ⟨hm, by simp [readsArmed, hf]⟩
  refine (along_retired h hc hstart as).mono (fun t ht => ⟨ht.pushed, fun hlive => ?_⟩)
  obtain ⟨x, hx⟩ := Option.isSome_iff_exists.mp hlive
  have harmed := (ht.live x hx).2
  simpa [readsArmed, hx] using harmed

theorem RemovedOnce.tornDownOnce (h : io.RemovedOnce) (hc : io.Consistent) : io.TornDownOnce order where
  atMostOnce := h.atMostOnce
  failed c cli hf hm a io' hs := by
    obtain ⟨cli', hf', hiff⟩ := step_marks hc hf hm hs
    rw [(step_removedOnce h hc hs).tornDown_iff hf', hiff]
  posted c cli hf := (h.posted c cli hf).trans (h.calls c cli hf).symm
  marked c cli hf := by
    rw [← List.count_pos_iff, h.calls c cli hf]
    cases cli.markedForDelete <;> simp
  quiet _ _ hf hm as := along_quiet h hc hf hm as

/-- Over every order of the handlers: an object is torn down by the first of its
failures and by nothing else, which calls `removeClient` once, marks it and posts
one `deleteSelf`; once it is marked it pushes nothing and arms no read. -/
theorem torn_down_once (order : ByteOrder) (as : List IoAction) :
    Along (step order) (TornDownOnce order) init as := by
  have hstep : ∀ s a t, (s.RemovedOnce ∧ s.Consistent) → step order s a = some t →
      t.RemovedOnce ∧ t.Consistent := by
    rintro s a t ⟨h1, h2⟩ hs
    exact ⟨step_removedOnce h1 h2 hs, step_consistent h2 hs⟩
  have halong := along_of_step _ hstep ⟨removedOnce_init, consistent_init⟩ as
  exact halong.mono (fun io h => h.1.tornDownOnce h.2)

end Quintses.IoService
