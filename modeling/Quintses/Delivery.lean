import Quintses.Contracts
import Quintses.RoundTrip
import Quintses.Strings

/-! The messages from the server to its clients. They wait as posted handlers,
then lie on the wire, then are decoded by the `RemoteServer` at the other end. -/

namespace Quintses

open Lts

def Call.to? (c : ClientPtr) : Call → Option ClientMsg
  | .pushMessage d msg => if d = c then some msg else none
  | .serverClosed _ | .addPhysical _ _ _ _ _ | .delPhysical _ _ => none

namespace GameServer

/-- What the server has pushed to a client, in order. -/
def pushedTo (s : GameServer) (c : ClientPtr) : List ClientMsg :=
  (s.log.filterMap Event.call?).reverse.filterMap (Call.to? c)

variable {order : PopOrder} {s s' : GameServer} {a : Action} {c : ClientPtr}

theorem Change.pushedTo (h : Change order s a s') :
    s'.pushedTo c = s.pushedTo c ++ (s.callsUpTo s').filterMap (Call.to? c) := by
  obtain ⟨news, hlog, _, hcalls⟩ := h.callsUpTo
  rw [hcalls, GameServer.pushedTo, hlog]
  simp [GameServer.pushedTo]

theorem pushedTo_of_not_added (ht : s.Traced) (hc : .addClient c ∉ s.log) : s.pushedTo c = [] := by
  refine List.filterMap_eq_nil_iff.mpr (fun call hcall => ?_)
  rw [List.mem_reverse, mem_call?] at hcall
  cases call with
  | pushMessage d msg =>
    have hd : d ≠ c := by
      rintro rfl
      exact hc (ht.called _ d hcall rfl)
    simp [Call.to?, hd]
  | _ => rfl

theorem pushedTo_strings {p : ByteString → Prop} (h : s.Strings p) :
    ∀ msg ∈ s.pushedTo c, ∀ t ∈ msg.template?, p t := by
  intro msg hm t ht
  obtain ⟨call, hcall, he⟩ := List.mem_filterMap.mp hm
  rw [List.mem_reverse, mem_call?] at hcall
  cases call with
  | pushMessage d m =>
    simp only [Call.to?] at he
    split at he <;> cases he
    exact h.pushed _ hcall t ht
  | _ => cases he

end GameServer

/-- A message whose strings survive `writeString` and `readString`. -/
def Deliverable (template : ByteString) : Prop := Plain template ∧ Terminable template

namespace IoService

def waiting? (c : ClientPtr) : ClientPtr × PostedHandler → Option ClientMsg
  | (d, .writeMsg msg) => if d = c then some msg else none
  | (_, .deleteSelf) => none

/-- The messages to a client whose handlers have not run yet. -/
def waitingFor (io : IoService) (c : ClientPtr) : List ClientMsg := io.posted.filterMap (waiting? c)

/-- What has been written to a client is the first of what was pushed to it; the rest waits. -/
def Sends (bytes : ByteOrder) (c : ClientPtr) (pushed : List ClientMsg) (io : IoService) : Prop :=
  ∀ cli, io.clients.find? c = some cli → ∃ written, pushed = written ++ io.waitingFor c ∧
    cli.sent = written.flatMap (RemoteClient.writeMsg bytes)

/-- A write to the client takes all bytes. -/
def WritesTake (c : ClientPtr) (io : IoService) : IoAction → Prop
  | .runPosted failsAfter => (io.posted.head?.bind (waiting? c)).isSome → failsAfter = none
  | .accept _ _ | .pushMessage _ _ | .completeRead _ | .abortRead _ => True

instance (c : ClientPtr) (io : IoService) (a : IoAction) : Decidable (io.WritesTake c a) :=
  match a with
  | .runPosted failsAfter =>
    inferInstanceAs (Decidable ((io.posted.head?.bind (waiting? c)).isSome → failsAfter = none))
  | .accept _ _ | .pushMessage _ _ | .completeRead _ | .abortRead _ => inferInstanceAs (Decidable True)

variable {bytes : ByteOrder} {io io' : IoService} {a : IoAction} {c : ClientPtr} {pushed : List ClientMsg}

theorem waitingFor_post (calls : List Call) :
    (io.post calls).waitingFor c = io.waitingFor c ++ calls.filterMap (Call.to? c) := by
  rw [waitingFor, post, List.filterMap_append, List.filterMap_filterMap]
  refine congrArg (io.waitingFor c ++ ·) (List.filterMap_congr (fun call _ => ?_))
  cases call <;> rfl

theorem Sends.post (h : io.Sends bytes c pushed) (calls : List Call) :
    (io.post calls).Sends bytes c (pushed ++ calls.filterMap (Call.to? c)) := by
  intro cli hf
  obtain ⟨written, he, hsent⟩ := h cli hf
  exact ⟨written, by rw [waitingFor_post, he, List.append_assoc], hsent⟩

theorem waitingFor_of_dead (h : io.Consistent) (hf : io.clients.find? c = none) : io.waitingFor c = [] := by
  refine List.filterMap_eq_nil_iff.mpr (fun e he => ?_)
  obtain ⟨cli, hcli, _⟩ := h.posted e he
  have hne : e.1 ≠ c := by
    intro hc
    rw [hc, hf] at hcli
    cases hcli
  obtain ⟨d, handler⟩ := e
  cases handler with
  | writeMsg msg => simp [waiting?, hne]
  | deleteSelf => rfl

/-- Nothing but a write changes what a client has been sent. -/
theorem Sends.of_sent (h : io.Sends bytes c pushed) (hw : io'.waitingFor c = io.waitingFor c)
    (hsent : ∀ cli', io'.clients.find? c = some cli' → ∃ cli, io.clients.find? c = some cli ∧
      cli'.sent = cli.sent) : io'.Sends bytes c pushed := by
  intro cli' hf'
  obtain ⟨cli, hf, he⟩ := hsent cli' hf'
  obtain ⟨written, hpushed, hs⟩ := h cli hf
  exact ⟨written, by rw [hw, hpushed], he.trans hs⟩

theorem readMsg_sent {self : ClientPtr} {cli : RemoteClient} (hf : io.clients.find? self = some cli) :
    (io.readMsg bytes self cli).waitingFor c = io.waitingFor c ∧
    ∀ cli', (io.readMsg bytes self cli).clients.find? c = some cli' → ∃ old, io.clients.find? c = some old ∧
      cli'.sent = old.sent := by
  have hassign {done : RemoteClient} (hd : done.sent = cli.sent) (cli' : RemoteClient)
      (h : (io.clients.assign self done).find? c = some cli') :
      ∃ old, io.clients.find? c = some old ∧ cli'.sent = old.sent := by
    rcases StdMap.find?_assign_cases h with ⟨rfl, rfl⟩ | ⟨-, hold⟩
    · exact ⟨cli, hf, hd⟩
    · exact ⟨cli', hold, rfl⟩
  cases hm : cli.markedForDelete with
  | true =>
    obtain ⟨type, rest, he⟩ := readMsg_of_marked bytes io self hm
    rw [he]
    exact ⟨rfl, hassign rfl⟩
  | false =>
    obtain ⟨type, left, ⟨msg, rest, _, he⟩ | ⟨_, he⟩ | ⟨e, _, he⟩⟩ := readMsg_of_unmarked bytes io self hm
    · rw [he]
      exact ⟨rfl, hassign rfl⟩
    · rw [he]
      exact ⟨by simp [waitingFor, tearDown, waiting?], hassign rfl⟩
    · rw [he]
      exact ⟨rfl, hassign rfl⟩

/-- The part of a write that the socket takes. -/
def taken (failsAfter : Option Nat) (bs : List UInt8) : List UInt8 :=
  match failsAfter with
  | none => bs
  | some k => bs.take k

theorem taken_prefix (failsAfter : Option Nat) (bs : List UInt8) : taken failsAfter bs <+: bs := by
  cases failsAfter with
  | none => exact List.prefix_refl bs
  | some k => exact List.take_prefix k bs

/-- What a write does to its client and to the others. -/
theorem writeMsg_sent (bytes : ByteOrder) {self : ClientPtr} {cli : RemoteClient} (hf : io.clients.find? self = some cli)
    (msg : ClientMsg) (failsAfter : Option Nat) :
    (io.writeMsg bytes self cli msg failsAfter).waitingFor c = io.waitingFor c ∧
    ∀ cli', (io.writeMsg bytes self cli msg failsAfter).clients.find? c = some cli' →
      ∃ old, io.clients.find? c = some old ∧ (c ≠ self ∧ cli'.sent = old.sent ∨
        c = self ∧ cli'.sent = old.sent ++ taken failsAfter (RemoteClient.writeMsg bytes msg)) := by
  have hassign {done : RemoteClient}
      (hd : done.sent = cli.sent ++ taken failsAfter (RemoteClient.writeMsg bytes msg)) (cli' : RemoteClient)
      (h : (io.clients.assign self done).find? c = some cli') :
      ∃ old, io.clients.find? c = some old ∧ (c ≠ self ∧ cli'.sent = old.sent ∨
        c = self ∧ cli'.sent = old.sent ++ taken failsAfter (RemoteClient.writeMsg bytes msg)) := by
    rcases StdMap.find?_assign_cases h with ⟨rfl, rfl⟩ | ⟨hne, hold⟩
    · exact ⟨cli, hf, Or.inr ⟨rfl, hd⟩⟩
    · exact ⟨cli', hold, Or.inl ⟨hne, rfl⟩⟩
  cases failsAfter with
  | none => exact ⟨rfl, hassign rfl⟩
  | some k =>
    simp only [IoService.writeMsg]
    split
    · exact ⟨rfl, hassign rfl⟩
    · exact ⟨by simp [waitingFor, tearDown, waiting?], hassign rfl⟩

theorem waitingFor_cons {e : ClientPtr × PostedHandler} {rest : List (ClientPtr × PostedHandler)}
    (hp : io.posted = e :: rest) :
    io.waitingFor c = (waiting? c e).toList ++ rest.filterMap (waiting? c) := by
  rw [waitingFor, hp]
  cases h : waiting? c e <;> simp [h]

theorem Sends.prefix (h : io.Sends bytes c pushed) {cli : RemoteClient} (hf : io.clients.find? c = some cli) :
    cli.sent <+: pushed.flatMap (RemoteClient.writeMsg bytes) := by
  obtain ⟨written, he, hsent⟩ := h cli hf
  rw [hsent, he, List.flatMap_append]
  exact List.prefix_append _ _

/-- A handler writes the next message that waits, or the part of it that the
socket takes. -/
theorem Sends.handler (h : io.Sends bytes c pushed) (hi : io.Consistent) (ha : ListenServer.isHandler a = true)
    (hs : step bytes io a = some io') :
    (io.WritesTake c a → io'.Sends bytes c pushed) ∧
      ∀ cli, io'.clients.find? c = some cli → cli.sent <+: pushed.flatMap (RemoteClient.writeMsg bytes) := by
  have hboth {io' : IoService} (hsends : io'.Sends bytes c pushed) : (io.WritesTake c a → io'.Sends bytes c pushed) ∧
      ∀ cli, io'.clients.find? c = some cli → cli.sent <+: pushed.flatMap (RemoteClient.writeMsg bytes) :=
    ⟨fun _ => hsends, fun _ hf => hsends.prefix hf⟩
  cases a with
  | accept self incoming => cases ha
  | pushMessage self msg => cases ha
  | abortRead self =>
    obtain ⟨_, _, rfl⟩ := step_abortRead.mp hs
    exact hboth (h.of_sent rfl (fun cli' hf => ⟨cli', hf, rfl⟩))
  | completeRead self =>
    obtain ⟨_, cli, hf, _, rfl⟩ := step_completeRead.mp hs
    have hran : (io.ran self .readMsg).clients.find? self = some cli := hf
    obtain ⟨hw, hsent⟩ := readMsg_sent (c := c) hran
    exact hboth (h.of_sent hw hsent)
  | runPosted failsAfter =>
    obtain ⟨_, self, rest, ⟨msg, hp, rfl⟩ | ⟨hp, rfl⟩⟩ := step_runPosted.mp hs
    · obtain ⟨cli, hf, _⟩ := hi.posted (self, .writeMsg msg) (hp ▸ List.mem_cons_self)
      have hran : ({ io with posted := rest }.ran self .writeMsg).clients.find? self = some cli := hf
      have hwait : io.waitingFor c = (waiting? c (self, .writeMsg msg)).toList ++ rest.filterMap (waiting? c) :=
        waitingFor_cons hp
      obtain ⟨hw, hsent⟩ := writeMsg_sent (c := c) bytes hran msg failsAfter
      simp only [onObject, hran]
      by_cases hc : c = self
      · subst hc
        have hhead : waiting? c (c, .writeMsg msg) = some msg := by simp [waiting?]
        rw [hhead] at hwait
        constructor
        · intro htake cli' hf'
          obtain rfl : failsAfter = none := htake (by simp [hp, hhead])
          obtain ⟨old, hold, ⟨hne, _⟩ | ⟨_, he⟩⟩ := hsent cli' hf'
          · exact absurd rfl hne
          · obtain ⟨written, hpushed, hdone⟩ := h old hold
            refine ⟨written ++ [msg], ?_, ?_⟩
            · rw [hpushed, hwait, hw, List.append_assoc]
              rfl
            · rw [he, hdone, List.flatMap_append]
              simp [taken]
        · intro cli' hf'
          obtain ⟨old, hold, ⟨hne, _⟩ | ⟨_, he⟩⟩ := hsent cli' hf'
          · exact absurd rfl hne
          · obtain ⟨written, hpushed, hdone⟩ := h old hold
            obtain ⟨tail, htail⟩ := taken_prefix failsAfter (RemoteClient.writeMsg bytes msg)
            refine ⟨tail ++ (rest.filterMap (waiting? c)).flatMap (RemoteClient.writeMsg bytes), ?_⟩
            have hcut : taken failsAfter (RemoteClient.writeMsg bytes msg) ++
                (tail ++ (rest.filterMap (waiting? c)).flatMap (RemoteClient.writeMsg bytes)) =
                (msg :: rest.filterMap (waiting? c)).flatMap (RemoteClient.writeMsg bytes) := by
              rw [← List.append_assoc, htail, List.flatMap_cons]
            rw [hpushed, hwait, he, hdone, List.flatMap_append, List.append_assoc, hcut]
            rfl
      · have hhead : waiting? c (self, .writeMsg msg) = none := by simp [waiting?, Ne.symm hc]
        rw [hhead] at hwait
        refine hboth (h.of_sent (hw.trans hwait.symm) (fun cli' hf' => ?_))
        obtain ⟨old, hold, ⟨_, he⟩ | ⟨rfl, _⟩⟩ := hsent cli' hf'
        · exact ⟨old, hold, he⟩
        · exact absurd rfl hc
    · obtain ⟨cli, hf, _⟩ := hi.posted (self, .deleteSelf) (hp ▸ List.mem_cons_self)
      have hran : ({ io with posted := rest }.ran self .deleteSelf).clients.find? self = some cli := hf
      simp only [onObject, hran]
      refine hboth (h.of_sent (waitingFor_cons hp).symm (fun cli' hf' => ⟨cli', ?_, rfl⟩))
      exact (StdMap.find?_of_erase hf').2

theorem Sends.spinup (h : io.Sends bytes c pushed) {self : ClientPtr} {incoming : List UInt8}
    (hself : self = c → pushed = io.waitingFor c) : (io.spinup self incoming).Sends bytes c pushed := by
  intro cli hf
  rcases StdMap.find?_assign_cases hf with ⟨rfl, rfl⟩ | ⟨-, hold⟩
  · exact ⟨[], hself rfl, rfl⟩
  · exact h cli hold

theorem Sends.serverClosed (h : io.Sends bytes c pushed) (d : ClientPtr) :
    (io.serverClosed d).Sends bytes c pushed := by
  refine h.of_sent rfl (fun cli' hf => ?_)
  simp only [IoService.serverClosed, StdMap.find?_modify] at hf
  split at hf
  case isTrue hd =>
    obtain ⟨cli, hcli, rfl⟩ := Option.map_eq_some_iff.mp hf
    exact ⟨cli, hd ▸ hcli, rfl⟩
  case isFalse => exact ⟨cli', hf, rfl⟩

theorem WritesTake.post (h : io.WritesTake c a) {call : ServerCall} (hcall : io.serverCall bytes a = some call)
    (calls : List Call) : (io.post calls).WritesTake c a := by
  cases a with
  | runPosted failsAfter =>
    cases hp : io.posted with
    | nil => cases failsAfter <;> simp [serverCall, hp] at hcall
    | cons e rest => simpa [WritesTake, IoService.post, hp] using h
  | _ => trivial

end IoService

namespace ListenServer

variable {order : PopOrder} {bytes : ByteOrder} {n n' : ListenServer} {l : ListenAction} {c : ClientPtr}

def WritesTake (c : ClientPtr) (n : ListenServer) : ListenAction → Prop
  | .handler a => n.io.WritesTake c a
  | .handleAccept _ _ | .acceptError | .server | .physics _ | .signal | .watcher => True

instance (c : ClientPtr) (n : ListenServer) (l : ListenAction) : Decidable (n.WritesTake c l) :=
  match l with
  | .handler a => inferInstanceAs (Decidable (n.io.WritesTake c a))
  | .handleAccept _ _ | .acceptError | .server | .physics _ | .signal | .watcher => inferInstanceAs (Decidable True)

def Sends (bytes : ByteOrder) (c : ClientPtr) (n : ListenServer) : Prop := n.io.Sends bytes c (n.game.pushedTo c)

theorem sends_step (hj : n.Joint) (h : n.Sends bytes c) (hs : step order bytes n l = some n') :
    (n.WritesTake c l → n'.Sends bytes c) ∧ ∀ cli, n'.io.clients.find? c = some cli →
      cli.sent <+: (n'.game.pushedTo c).flatMap (RemoteClient.writeMsg bytes) := by
  have hboth (hsends : n'.Sends bytes c) : (n.WritesTake c l → n'.Sends bytes c) ∧
      ∀ cli, n'.io.clients.find? c = some cli →
        cli.sent <+: (n'.game.pushedTo c).flatMap (RemoteClient.writeMsg bytes) :=
    ⟨fun _ => hsends, fun _ hf => hsends.prefix hf⟩
  cases step_change hs with
  | @accept incoming next game io hnext hne hgame hio =>
    obtain ⟨io₁, hacc, hr⟩ := run_cons_some.mp hio
    obtain ⟨_, _, hnew, rfl⟩ := IoService.step_accept.mp hacc
    obtain rfl := IoService.run_posts hr
    refine hboth ?_
    rw [Sends, (GameServer.step_change hgame).2.pushedTo]
    refine IoService.Sends.post (h.spinup (fun he => ?_)) _
    subst he
    have hdead : n.io.clients.find? n.nextClient = none := by
      cases hf : n.io.clients.find? n.nextClient with
      | none => rfl
      | some cli => exact absurd (hj.consistent.added _ cli hf) hnew
    rw [IoService.waitingFor_of_dead hj.consistent hdead]
    exact GameServer.pushedTo_of_not_added hj.traced (fun hm => hnew ((hj.added _).mpr hm))
  | acceptError => exact hboth h
  | @alone a io ha hcall hio => exact IoService.Sends.handler h hj.consistent ha hio
  | @calling a call game io ha hcall hgame hio =>
    obtain ⟨io₁, hr, hlast⟩ := run_snoc hio
    have hcons := hj.consistent.run_posts hr
    obtain rfl := IoService.run_posts hr
    have hsends := IoService.Sends.post h (n.game.callsUpTo game)
    rw [← (GameServer.step_change hgame).2.pushedTo] at hsends
    obtain ⟨hall, hcut⟩ := hsends.handler hcons ha hlast
    exact ⟨fun htake => hall (htake.post hcall _), hcut⟩
  | @game l a game io hl hgame hio =>
    obtain rfl := IoService.run_posts hio
    refine hboth ?_
    rw [Sends, (GameServer.step_change hgame).2.pushedTo]
    have hclose (cs : List ClientPtr) {io : IoService} {pushed : List ClientMsg}
        (hio : io.Sends bytes c pushed) : (cs.foldl IoService.serverClosed io).Sends bytes c pushed := by
      induction cs generalizing io with
      | nil => exact hio
      | cons d cs ih => exact ih (hio.serverClosed d)
    exact hclose _ (IoService.Sends.post h _)
  | watcher => exact hboth h

theorem sends_init (playerSpawn : Mat4) (world : List WorldEntry) (nextClient : ClientPtr) :
    (init playerSpawn world nextClient).Sends bytes c := by
  intro cli hf
  cases hf

theorem deliverable_playerTemplate : Deliverable playerTemplate := by
  refine ⟨⟨by decide, by decide⟩, ?_⟩
  rw [Terminable]
  decide

/-- What `readString` returns can be written and read again. -/
theorem deliverable_of_round {self sender : ClientPtr} {template : ByteString} {s rest : List UInt8}
    (h : RemoteClient.round bytes self s = .next (.loadPlayer sender template) rest) : Deliverable template := by
  rw [RemoteClient.round_eq] at h
  obtain ⟨bs, _, type, body, _, _, _, _, len, raw, _, hraw, hne, rfl⟩ :=
    (typedRound_next_iff bytes (ServerMsg.reads_received bytes self) s rest _).mp h
  have hle : (raw.takeWhile (· != 0)).length ≤ len.toNat := hraw ▸ (List.takeWhile_prefix _).length_le
  have hlt : len.toNat < 2 ^ 32 - 1 := by
    have hbound := len.toNat_lt
    rw [ne_eq, ← UInt32.toNat_inj] at hne
    simp only [UInt32.reduceToNat] at hne
    omega
  refine ⟨⟨fun hm => ?_, by omega⟩, ?_⟩
  · simpa using List.mem_takeWhile_imp hm
  · rw [Terminable]
    omega

theorem strings_listen (h : n.game.Strings Deliverable) (hs : step order bytes n l = some n') :
    n'.game.Strings Deliverable := by
  cases step_change hs with
  | accept hnext hne hgame hio => exact GameServer.strings_step h deliverable_playerTemplate (by simp) hgame
  | @calling a call game io ha hcall hgame hio =>
    refine GameServer.strings_step h deliverable_playerTemplate (fun d t he => ?_) hgame
    obtain ⟨self, cli, _, _, rfl | ⟨msg, rest, rfl, hround, rfl⟩⟩ := IoService.serverCall_cases ha hcall
    · cases he
    · cases he
      exact deliverable_of_round hround
  | @game l a game io hl hgame hio =>
    refine GameServer.strings_step h deliverable_playerTemplate (fun d t he => ?_) hgame
    subst he
    cases l <;> cases hl
  | _ => exact h

/-- A client of the run, and what is on its way to it. -/
structure Feeds (bytes : ByteOrder) (c : ClientPtr) (n : ListenServer) : Prop where
  joint : n.Joint
  sends : n.Sends bytes c
  strings : n.game.Strings Deliverable

theorem feeds_init (playerSpawn : Mat4) {world : List WorldEntry} {nextClient : ClientPtr} (hnext : nextClient ≠ 0)
    (hworld : ∀ templ mat, .mob templ mat ∈ world → Deliverable templ) :
    (init playerSpawn world nextClient).Feeds bytes c where
  joint := joint_init playerSpawn world hnext
  sends := sends_init playerSpawn world nextClient
  strings := GameServer.strings_init playerSpawn hworld

theorem feeds_step (h : n.Feeds bytes c) (htake : n.WritesTake c l) (hs : step order bytes n l = some n') :
    n'.Feeds bytes c where
  joint := joint_step h.joint hs
  sends := (sends_step h.joint h.sends hs).1 htake
  strings := strings_listen h.strings hs

theorem round_pushed (h : n.game.Strings Deliverable) {msg : ClientMsg} (hm : msg ∈ n.game.pushedTo c)
    (rest : List UInt8) : RemoteServer.round bytes (RemoteClient.writeMsg bytes msg ++ rest) = .next msg rest :=
  have hgood := GameServer.pushedTo_strings h msg hm
  ClientMsg.round_writeMsg bytes (fun t ht => (hgood t ht).1) (fun t ht => (hgood t ht).2) rest

/-- What the `RemoteServer` hands to its client of the bytes that have arrived. -/
def Hears (bytes : ByteOrder) (heard : List UInt8) (got : List ClientMsg) : Prop :=
  ∀ client fuel, client ≠ 0 → heard.length < fuel → ∃ out, RemoteServer.run bytes client fuel heard = some (got, out)

theorem hears_of_receive {heard : List UInt8} {got : List ClientMsg}
    (h : ∀ fuel, heard.length < fuel → ∃ out, Frames.receive (RemoteServer.round bytes) fuel heard = some (got, out)) :
    Hears bytes heard got := by
  intro client fuel hclient hfuel
  obtain ⟨out, hout⟩ := h fuel hfuel
  exact ⟨_, by rw [RemoteServer.run, hout, Option.map_some, if_neg hclient]⟩

end ListenServer

theorem typedRound_local {μ : Type} {order : ByteOrder} {create : UInt32 → Option μ} {read : μ → SocketReader μ}
    {layout : UInt32 → List UInt8 → μ → Prop}
    (hreads : ∀ type fresh, create type = some fresh → Reader.Reads (read fresh) (layout type)) :
    Frames.Local (typedRound order create read) where
  takes s msg rest h := by
    obtain ⟨bs, rfl, hm⟩ := (typedRound_next_iff order hreads s rest msg).mp h
    have := List.length_pos_iff.mpr hm.ne_nil
    rw [List.length_append]
    omega
  append s msg rest tail h := by
    obtain ⟨bs, rfl, hm⟩ := (typedRound_next_iff order hreads s rest msg).mp h
    exact (typedRound_next_iff order hreads _ _ msg).mpr ⟨bs, List.append_assoc .., hm⟩

namespace ListenServer

/-- Whatever part of the bytes written for a client has arrived, its
`RemoteServer` has been given the first of the messages that the server pushed to
it, in order, until a write fails; as long as none does, only what waits to be
written and what is under way is missing. -/
theorem delivered_in_order (order : PopOrder) (bytes : ByteOrder) (playerSpawn : Mat4)
    {world : List WorldEntry} {nextClient c : ClientPtr} {as : List ListenAction} {l : ListenAction}
    {n : ListenServer} {cli : RemoteClient} {heard : List UInt8} (hnext : nextClient ≠ 0)
    (hworld : ∀ templ mat, .mob templ mat ∈ world → Deliverable templ)
    (htake : Guarded (step order bytes) (WritesTake c) (init playerSpawn world nextClient) as)
    (hrun : run (step order bytes) (init playerSpawn world nextClient) (as ++ [l]) = some n)
    (hf : n.io.clients.find? c = some cli) (hheard : heard <+: cli.sent) :
    ∃ got later, n.game.pushedTo c = got ++ later ∧ Hears bytes heard got ∧
      (Guarded (step order bytes) (WritesTake c) (init playerSpawn world nextClient) (as ++ [l]) →
        heard = cli.sent → later = n.io.waitingFor c) := by
  have hall := hrun
  rw [run_append, Option.bind_eq_some_iff] at hrun
  obtain ⟨m, hm, hlast⟩ := hrun
  obtain ⟨n', hs, hn⟩ := run_cons_some.mp hlast
  obtain rfl := Option.some.inj hn
  have hfeeds : m.Feeds bytes c := htake.invariant _ (fun _ _ _ h hok hs => feeds_step h hok hs)
    (feeds_init playerSpawn hnext hworld) hm
  have hround : ∀ msg ∈ n'.game.pushedTo c, ∀ rest,
      RemoteServer.round bytes (RemoteClient.writeMsg bytes msg ++ rest) = .next (id msg) rest :=
    fun msg hmem => round_pushed (strings_listen hfeeds.strings hs) hmem
  obtain ⟨hnext, hcut⟩ := sends_step hfeeds.joint hfeeds.sends hs
  obtain ⟨got, later, hpushed, hgot⟩ := Frames.receive_prefix
    (typedRound_local (ClientMsg.reads_received bytes)) hround (hheard.trans (hcut cli hf))
  simp only [List.map_id] at hgot
  refine ⟨got, later, hpushed, hears_of_receive hgot, fun hguard he => ?_⟩
  have hok : m.WritesTake c l := by
    obtain ⟨_, hrest⟩ := (guarded_append hm).mp hguard
    exact (hrest n' hs).1
  obtain ⟨written, hsplit, hsent⟩ := hnext hok cli hf
  -- the written messages are whole, so all of them are decoded
  have hwhole := Frames.receive_flatMap_iff (RemoteClient.writeMsg bytes) id (fun _ => True)
    (fun msg hmem _ => hround msg (hsplit ▸ List.mem_append_left _ hmem)) (fun _ _ hno => absurd trivial hno)
    (typedRound_nil bytes _ _) (Nat.lt_succ_of_le (Nat.le_add_right written.length heard.length))
  have hreceived := hwhole.mpr (fun _ _ => trivial)
  rw [← hsent, ← he, List.map_id] at hreceived
  obtain ⟨out, hout⟩ := hgot (written.length + heard.length + 1) (by omega)
  obtain ⟨rfl, _⟩ := Prod.mk.inj (Option.some.inj (hreceived.symm.trans hout))
  exact List.append_cancel_left (hpushed.symm.trans hsplit)

/-- A client loads its player and is told of it. -/
def oneLoad : List ListenAction := [.server, .handleAccept [2, 0, 0, 0, 1, 0, 0, 0, 80] 2,
  .handler (.completeRead 1), .server, .server]

theorem delivered_in_order_one_load : ∃ n cli, n.io.clients.find? 1 = some cli ∧
    run (step .lifo .little) (init zeroMat [] 1) (oneLoad ++ [.handler (.runPosted none)]) = some n ∧
    ∃ got later, n.game.pushedTo 1 = got ++ later ∧ Hears .little cli.sent got ∧
      (Guarded (step .lifo .little) (WritesTake 1) (init zeroMat [] 1) (oneLoad ++ [.handler (.runPosted none)]) →
        cli.sent = cli.sent → later = n.io.waitingFor 1) := by
  have hrun : (run (step .lifo .little) (init zeroMat [] 1) (oneLoad ++ [.handler (.runPosted none)])).map
      (fun n => (n.io.clients.find? 1).isSome) = some true := by decide
  obtain ⟨n, hn, hsome⟩ := Option.map_eq_some_iff.mp hrun
  obtain ⟨cli, hcli⟩ := Option.isSome_iff_exists.mp hsome
  exact ⟨n, cli, hcli, hn, delivered_in_order .lifo .little zeroMat (by decide) (by simp) (by decide) hn hcli
    (List.prefix_refl _)⟩

end ListenServer

end Quintses
