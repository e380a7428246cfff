import Quintses.Arrival
import Quintses.Keyboard
import Quintses.RemoteScreen

/-! From the keyboard of a `qntcli` to the character in `qntsrv`, in the
locked-queue build of the server, while other clients come and go. -/

namespace Quintses

open Lts Stages

namespace GameServer

variable {s s' : GameServer} {a : Action} {c d : ClientPtr} {id : UInt32} {sent : List UInt16} {msg : ServerMsg}

theorem toPhysics_removeClient (srv : LocalServer) (hid : (srv.clients.find? d).getD 0 ≠ 0) :
    (srv.removeClient d).2.filterMap Call.toPhysics = [.bullet (.delChar ((srv.clients.find? d).getD 0))] := by
  have hquiet (cs : List ClientPtr) (m : ClientMsg) : (LocalServer.tell cs m).filterMap Call.toPhysics = [] :=
    List.filterMap_eq_nil_iff.mpr (fun call hc => LocalServer.toPhysics_tell hc)
  simp [LocalServer.removeClient, hid, Call.toPhysics, hquiet]

/-- What the removal of a client leaves as it is for the others. -/
structure Others (s s' : GameServer) (c : ClientPtr) : Prop where
  server : s'.serverPending = s.serverPending
  physics : s'.physicsPending = s.physicsPending ∨ ∃ b, s'.physicsPending = s.physicsPending ++ [.bullet b]
  find : s'.server.clients.find? c = s.server.clients.find? c
  characters : s'.physics.characters = s.physics.characters

theorem Change.others (h : Change .fifo s (.removeClient d) s') (hfault : s'.fault = none) (hd : d ≠ c) :
    Others s s' c := by
  cases h with
  | removeClient hadd =>
    refine ⟨@apply_serverPending .fifo s _, ?_, ?_, apply_characters _⟩
    · by_cases hid : (s.server.clients.find? d).getD 0 = 0
      · left
        refine apply_quiet_physicsPending (fun call hcall => ?_)
        simp [LocalServer.removeClient, hid] at hcall
      · right
        have hlive : s.physicsDeleted = false := by
          cases hdel : s.physicsDeleted with
          | false => rfl
          | true =>
            have hnone : (s.apply .fifo (s.server.removeClient d)).fault = none := hfault
            rw [removeClient_deletedPhysics hdel hid] at hnone
            cases hnone
        have hall := apply_fifo_physicsPending (r := s.server.removeClient d) hlive
        rw [toPhysics_removeClient s.server hid] at hall
        exact ⟨_, hall⟩
    · simp [record, apply_server, LocalServer.removeClient, Ne.symm hd]

theorem Others.unasked (ho : Others s s' c) (h : s.Unasked c) : s'.Unasked c := by
  refine ⟨ho.find.trans h.find, by rw [ho.server]; exact h.server, ?_⟩
  rcases ho.physics with he | ⟨b, he⟩
  · rw [he, h.physics]
  · rw [he, inputs_append, h.physics]
    rfl

theorem Others.steered (ho : Others s s' c) (h : s.Steered c sent) : s'.Steered c sent := by
  rcases ho.physics with he | ⟨b, he⟩
  · exact h.still ho.server he ho.find (fun id _ _ => by rw [ho.characters])
  · exact h.made ho.server he ho.find ho.characters

/-- How far the server is with a client that first asks for its character, by
what it has received from it. -/
structure Serves (c : ClientPtr) (s : GameServer) : Prop where
  orderly : s.Orderly
  unasked : s.receivedFrom c = [] → s.Unasked c
  steered : ∀ template rest, s.receivedFrom c = .loadPlayer c template :: rest →
    (∀ template, .loadPlayer c template ∉ rest) → s.Steered c (inputs c rest)

theorem serves_init (playerSpawn : Mat4) (world : List WorldEntry) (c : ClientPtr) :
    (init playerSpawn world).Serves c where
  orderly := orderly_init playerSpawn world
  unasked _ := unasked_init playerSpawn world c
  steered _ _ h := by cases h

theorem silent_of_sender (h : msg.sender ≠ c) : msg.Silent c := by
  constructor
  · cases msg with
    | input sender state => simpa [ServerMsg.inputOf, ServerMsg.sender] using h
    | _ => rfl
  · rintro template rfl
    exact h rfl

theorem from?_eq_some (h : a.from? c = some msg) : a = .pushMessage msg := by
  cases a with
  | pushMessage m =>
    simp only [Action.from?, Option.ite_none_right_eq_some, Option.some.injEq] at h
    rw [h.2]
  | _ => cases h

theorem silent_of_from? (h : a.from? c = none) :
    a.inputOf c = none ∧ ∀ template, a ≠ .pushMessage (.loadPlayer c template) := by
  cases a with
  | pushMessage m =>
    have hsilent : m.Silent c := silent_of_sender (by simpa [Action.from?] using h)
    exact ⟨hsilent.input, fun template he => hsilent.load template (Action.pushMessage.inj he)⟩
  | _ => exact ⟨rfl, by simp⟩

theorem step_serves (h : s.Serves c) (hfresh : s.IdsFresh a) (hstay : a ≠ .removeClient c)
    (hs : step .fifo s a = some s') (hfault : s'.fault = none) : s'.Serves c := by
  obtain ⟨hf, hc⟩ := step_change hs
  have hrec := hc.receivedFrom (c := c)
  refine ⟨hc.orderly h.orderly hf hfresh, fun hnil => ?_, fun template rest hreceived hrest => ?_⟩
  · rw [hrec, List.append_eq_nil_iff] at hnil
    have hold := h.unasked hnil.1
    by_cases hremove : ∃ d, a = .removeClient d
    · obtain ⟨d, rfl⟩ := hremove
      exact (hc.others hfault (fun he => hstay (he ▸ rfl))).unasked hold
    · refine (hc.flow h.orderly.late hfault (fun d he => hremove ⟨d, he⟩)).unasked hold (fun msg he => ?_)
      subst he
      refine silent_of_sender (fun hsender => ?_)
      simp [Action.from?, hsender] at hnil
  · by_cases hremove : ∃ d, a = .removeClient d
    · obtain ⟨d, rfl⟩ := hremove
      rw [hrec] at hreceived
      exact (hc.others hfault (fun he => hstay (he ▸ rfl))).steered
        (h.steered template rest (by simpa [Action.from?] using hreceived) hrest)
    · have hflow := hc.flow h.orderly.late hfault (fun d he => hremove ⟨d, he⟩)
      rw [hrec] at hreceived
      cases hfrom : a.from? c with
      | none =>
        obtain ⟨hinput, hload⟩ := silent_of_from? hfrom
        rw [hfrom, Option.toList_none, List.append_nil] at hreceived
        have hnext := hflow.steered (h.steered template rest hreceived hrest) h.orderly hf hfresh hload
        rwa [hinput, Option.toList_none, List.append_nil] at hnext
      | some msg =>
        obtain rfl := from?_eq_some hfrom
        rw [hfrom, Option.toList_some] at hreceived
        cases hold : s.receivedFrom c with
        | nil =>
          rw [hold, List.nil_append, List.cons.injEq] at hreceived
          obtain ⟨rfl, rfl⟩ := hreceived
          exact hflow.ask (h.unasked hold)
        | cons first old =>
          rw [hold, List.cons_append, List.cons.injEq] at hreceived
          obtain ⟨rfl, rfl⟩ := hreceived
          have hearlier (t : ByteString) : .loadPlayer c t ∉ old :=
            fun hm => hrest t (List.mem_append_left _ hm)
          rw [inputs_append, inputs_singleton]
          refine hflow.steered (h.steered template old hold hearlier) h.orderly hf hfresh (fun t he => ?_)
          exact hrest t (List.mem_append_right _ (by simp [Action.pushMessage.inj he]))

end GameServer

theorem RemoteServer.writeMsg_ne_nil (bytes : ByteOrder) (msg : ServerMsg) : writeMsg bytes msg ≠ [] := by
  have hlen := length_typeWord bytes msg.type
  intro he
  rw [(List.append_eq_nil_iff.mp he).1] at hlen
  cases hlen

namespace ListenServer

variable {bytes : ByteOrder} {n n' : ListenServer} {l : ListenAction} {c : ClientPtr}

/-- The server goes on and the client stays. -/
def Serving (c : ClientPtr) (n : ListenServer) : Prop :=
  n.game.fault = none → .removeClient c ∉ n.game.log → n.game.Serves c

theorem serving_step (h : n.Serving c) (hfresh : n.IdsFresh l) (hs : step .fifo bytes n l = some n') :
    n'.Serving c := by
  intro hfault hstay
  rcases step_game hs with he | ⟨a, hgame, ha⟩
  · rw [he] at hfault hstay ⊢
    exact h hfault hstay
  · obtain ⟨hf, hc⟩ := GameServer.step_change hgame
    have hkept : a ≠ .removeClient c := fun he => hstay ((hc.removed_iff c).mpr (Or.inl he))
    exact GameServer.step_serves (h hf (fun hm => hstay (hc.log_mono hm))) (hfresh.act ha) hkept hgame hfault

end ListenServer

namespace RemoteGame

open PlatformState

variable {order : PopOrder} {bytes : ByteOrder} {setup : LocalGame.Setup} {n n' : RemoteGame} {a : RemoteAction}
  {events : List XEvent}

/-- What a step of the io thread writes. -/
inductive Wrote (bytes : ByteOrder) (n n' : RemoteGame) : Prop
  | still (hsent : n'.sent = n.sent) (hposted : n'.server.posted = n.server.posted)
    (hstop : n.server.stopped = true → n'.server.stopped = true)
  | wrote {msg : ServerMsg} {failsAfter : Option Nat} (hlive : n.server.stopped = false)
    (hposted : n.server.posted = msg :: n'.server.posted)
    (hsent : n'.sent = n.sent ++ IoService.taken failsAfter (RemoteServer.writeMsg bytes msg))
    (hfails : failsAfter = none ∨ n'.server.stopped = true)

theorem service_wrote {handler : RemoteHandler} {server : StartUp}
    (hs : StartUp.step bytes n.server (.service (handler.completion n.incoming)) = some server) :
    Wrote bytes n { n.served order bytes handler with server } := by
  cases StartUp.step_change hs with
  | serve hp hserve =>
    by_cases hidle : n.server.Idle
    · rw [StartUp.serve_of_idle bytes hidle, Option.some.injEq] at hserve
      subst hserve
      exact .still (by simp [served, hp, hidle]) rfl id
    · have hlive : n.server.stopped = false := by simpa using fun hstop => hidle (Or.inl hstop)
      rw [StartUp.serve_of_busy bytes hidle] at hserve
      cases handler with
      | writeMsg failsAfter =>
        simp only [RemoteHandler.completion, StartUp.writeMsg] at hserve
        cases hposted : n.server.posted with
        | nil => simp [hposted] at hserve
        | cons msg rest =>
          simp only [hposted, Option.some.injEq] at hserve
          subst hserve
          have hsent : (n.served order bytes (.writeMsg failsAfter)).sent =
              n.sent ++ IoService.taken failsAfter (RemoteServer.writeMsg bytes msg) := by
            simp [served, hp, hidle, hposted]
          refine .wrote hlive hposted hsent ?_
          cases failsAfter <;> simp
      | readMsg =>
        have hsent : (n.served order bytes .readMsg).sent = n.sent := by
          simp only [served, hp, hidle, if_false]
          split <;> rfl
        simp only [RemoteHandler.completion, StartUp.readMsg, Option.ite_none_right_eq_some] at hserve
        obtain ⟨-, hserve⟩ := hserve
        split at hserve <;> cases hserve
        · exact .still hsent rfl id
        · exact .still hsent rfl (fun _ => rfl)
        · exact .still hsent rfl id
  | serviceLock hp | setRunning hp | serviceUnlock hp | notify hp | serverClosed hp | serviceRelock hp
  | serviceClear hp | finalUnlock hp | finalNotify hp => exact .still (by simp [served, hp]) rfl id

/-- What the client has for the server so far. -/
def wanted (setup : LocalGame.Setup) (n : RemoteGame) : List ServerMsg :=
  if n.pc = .addClient ∨ n.pc = .loadPlayer then [] else .loadPlayer setup.self playerTemplate :: n.platform.pushed

/-- The messages are written in order until a write fails. -/
def Sends (bytes : ByteOrder) (setup : LocalGame.Setup) (n : RemoteGame) : Prop :=
  (∃ written, n.wanted setup = written ++ n.server.posted ∧ n.sent = written.flatMap (RemoteServer.writeMsg bytes)) ∨
    n.server.stopped = true ∧ n.sent <+: (n.wanted setup).flatMap (RemoteServer.writeMsg bytes)

theorem Sends.prefix (h : n.Sends bytes setup) : n.sent <+: (n.wanted setup).flatMap (RemoteServer.writeMsg bytes) := by
  rcases h with ⟨written, he, hsent⟩ | ⟨_, hcut⟩
  · rw [he, hsent, List.flatMap_append]
    exact List.prefix_append _ _
  · exact hcut

theorem Sends.more {msgs : List ServerMsg} (h : n.Sends bytes setup) (hwanted : n'.wanted setup = n.wanted setup ++ msgs)
    (hposted : n'.server.posted = n.server.posted ++ msgs) (hsent : n'.sent = n.sent)
    (hstop : n.server.stopped = true → n'.server.stopped = true) : n'.Sends bytes setup := by
  rcases h with ⟨written, he, hs⟩ | ⟨hstopped, hcut⟩
  · exact Or.inl ⟨written, by rw [hwanted, he, hposted, List.append_assoc], by rw [hsent, hs]⟩
  · refine Or.inr ⟨hstop hstopped, ?_⟩
    rw [hsent, hwanted, List.flatMap_append]
    exact hcut.trans (List.prefix_append _ _)

theorem Sends.wrote (h : n.Sends bytes setup) (hw : Wrote bytes n n') (hwanted : n'.wanted setup = n.wanted setup) :
    n'.Sends bytes setup := by
  cases hw with
  | still hsent hposted hstop =>
    exact h.more (by rw [hwanted, List.append_nil]) (by rw [hposted, List.append_nil]) hsent hstop
  | @wrote msg failsAfter hlive hposted hsent hfails =>
    rcases h with ⟨written, he, hs⟩ | ⟨hstopped, _⟩
    · rw [hposted] at he
      rcases hfails with rfl | hstop
      · refine Or.inl ⟨written ++ [msg], by simp [hwanted, he], ?_⟩
        simp [hsent, hs, IoService.taken]
      · right
        refine ⟨hstop, ?_⟩
        obtain ⟨tail, htail⟩ := IoService.taken_prefix failsAfter (RemoteServer.writeMsg bytes msg)
        refine ⟨tail ++ n'.server.posted.flatMap (RemoteServer.writeMsg bytes), ?_⟩
        have hcut : IoService.taken failsAfter (RemoteServer.writeMsg bytes msg) ++
            (tail ++ n'.server.posted.flatMap (RemoteServer.writeMsg bytes)) =
            (msg :: n'.server.posted).flatMap (RemoteServer.writeMsg bytes) := by
          rw [← List.append_assoc, htail, List.flatMap_cons]
        rw [hwanted, he, hsent, hs, List.flatMap_append, List.append_assoc, hcut]
    · rw [hlive] at hstopped
      cases hstopped

/-- What the main thread has in hand of its own. -/
structure Typing (bytes : ByteOrder) (setup : LocalGame.Setup) (events : List XEvent) (n : RemoteGame) : Prop where
  early : n.pc = .addClient ∨ n.pc = .loadPlayer → n.platform.pushed = []
  inputs : ∀ msg ∈ n.platform.pushed, ∃ state, msg = .input setup.self state
  sends : n.Sends bytes setup
  tracks : Tracks events n.platform

/-- The events that a step takes from the X server. -/
def taken (n : RemoteGame) : RemoteAction → List XEvent
  | .main events => if n.pc = .events then events else []
  | .service _ | .spuriousWake => []

/-- All the events that the program has taken from the X server. -/
def typed (order : PopOrder) (bytes : ByteOrder) (setup : LocalGame.Setup) (n : RemoteGame) :
    List RemoteAction → List XEvent
  | [] => []
  | a :: as => n.taken a ++ ((step order bytes setup n a).map (fun n' => n'.typed order bytes setup as)).getD []

theorem typing_init (bytes : ByteOrder) (setup : LocalGame.Setup) (running : Bool) (incoming : List UInt8) :
    (init running incoming).Typing bytes setup [] where
  early _ := rfl
  inputs _ h := by cases h
  sends := Or.inl ⟨[], rfl, rfl⟩
  tracks := tracks_new

theorem startUp_quiet {server : StartUp} {b : StartUpAction} (hb : b = .client ∨ b = .waitForTermination ∨ b = .spuriousWake)
    (hs : StartUp.step bytes n.server b = some server) :
    server.posted = n.server.posted ∧ (n.server.stopped = true → server.stopped = true) := by
  rcases hb with rfl | rfl | rfl <;> cases StartUp.step_change hs <;> exact ⟨rfl, by simp⟩

theorem startUp_post {server : StartUp} {msg : ServerMsg} (hs : StartUp.step bytes n.server (.pushMessage msg) = some server) :
    server.posted = n.server.posted ++ [msg] ∧ server.stopped = n.server.stopped := by
  cases StartUp.step_change hs with
  | pushMessage hp => exact ⟨rfl, rfl⟩

theorem Typing.frame (h : n.Typing bytes setup events) (hsent : n'.sent = n.sent) (hplatform : n'.platform = n.platform)
    (hposted : n'.server.posted = n.server.posted) (hstop : n.server.stopped = true → n'.server.stopped = true)
    (hpc : n'.pc = .addClient ∨ n'.pc = .loadPlayer ↔ n.pc = .addClient ∨ n.pc = .loadPlayer) :
    n'.Typing bytes setup events := by
  have hwanted : n'.wanted setup = n.wanted setup := by simp only [wanted, hpc, hplatform]
  refine ⟨fun he => by rw [hplatform]; exact h.early (hpc.mp he), by rw [hplatform]; exact h.inputs, ?_,
    by rw [hplatform]; exact h.tracks⟩
  exact h.sends.more (by rw [hwanted, List.append_nil]) (by rw [hposted, List.append_nil]) hsent hstop

theorem taken_eq_nil {batch : List XEvent} (hpc : n.pc ≠ .events) : n.taken (.main batch) = [] := if_neg hpc

theorem step_typing (h : n.Typing bytes setup events) (hstep : step order bytes setup n a = some n') :
    n'.Typing bytes setup (events ++ n.taken a) := by
  cases step_change hstep with
  | @addClient batch server hpc hs =>
    obtain ⟨hposted, hstop⟩ := startUp_quiet (Or.inl rfl) hs
    rw [taken_eq_nil (by simp [hpc]), List.append_nil]
    exact h.frame rfl rfl hposted hstop (by simp only [hpc]; split <;> simp)
  | @loadPlayer batch server hpc hs =>
    obtain ⟨hposted, hstop⟩ := startUp_post hs
    rw [taken_eq_nil (by simp [hpc]), List.append_nil]
    refine ⟨by simp, h.inputs, h.sends.more ?_ hposted rfl (fun he => hstop.trans he), h.tracks⟩
    simp [wanted, hpc, h.early (Or.inr hpc)]
  | @told batch server state hpc hpushed hs =>
    obtain ⟨hposted, hstop⟩ := startUp_post hs
    rw [show n.taken (.main batch) = batch from if_pos hpc]
    refine ⟨by simp, fun msg hm => ?_, h.sends.more ?_ hposted rfl (fun he => hstop.trans he),
      (platformEvents_tracks h.tracks batch).1⟩
    · rw [hpushed, List.mem_append, List.mem_singleton] at hm
      rcases hm with hm | rfl
      · exact h.inputs msg hm
      · exact ⟨state, rfl⟩
    · simp [wanted, hpc, hpushed]
  | @quiet batch hpc hpushed =>
    rw [show n.taken (.main batch) = batch from if_pos hpc]
    have hwanted : wanted setup { n with
        platform := n.platform.platformEvents setup.atoms setup.self batch, pc := .drawing } = n.wanted setup ++ [] := by
      simp [wanted, hpc, hpushed]
    exact ⟨by simp, by rw [hpushed]; exact h.inputs, h.sends.more hwanted (List.append_nil _).symm rfl id,
      (platformEvents_tracks h.tracks batch).1⟩
  | @tryPop batch msg rest hpc hq =>
    rw [taken_eq_nil (by simp [hpc]), List.append_nil]
    exact h.frame rfl rfl rfl id Iff.rfl
  | @loopHead batch hpc =>
    rw [taken_eq_nil (by simp [hpc]), List.append_nil]
    exact h.frame rfl rfl rfl id (by simp only [hpc]; split <;> simp)
  | @drained batch hpc hq =>
    rw [taken_eq_nil (by simp [hpc]), List.append_nil]
    exact h.frame rfl rfl rfl id (by simp [hpc])
  | @draw batch hpc =>
    rw [taken_eq_nil (by simp [hpc]), List.append_nil]
    exact h.frame rfl rfl rfl id (by simp [hpc])
  | @stop batch server hpc hs =>
    obtain ⟨hposted, hstop⟩ := startUp_quiet (Or.inr (Or.inl rfl)) hs
    rw [taken_eq_nil (by simp [hpc]), List.append_nil]
    exact h.frame rfl rfl hposted hstop (by simp [hpc])
  | @await batch pc status hw =>
    have hpc : n.pc ≠ .events ∧ (pc = .addClient ∨ pc = .loadPlayer ↔ n.pc = .addClient ∨ n.pc = .loadPlayer) := by
      cases hw with
      | test hpc => rw [hpc]; cases n.server.running <;> simp
      | lock hpc | wait hpc | relock hpc | unlock hpc => simp [hpc]
    rw [taken_eq_nil hpc.1, List.append_nil]
    exact h.frame rfl rfl rfl id hpc.2
  | @service handler server hs =>
    obtain ⟨hkeymap, hpushed, hpc⟩ := served_platform order bytes n handler
    have hwanted : wanted setup { n.served order bytes handler with server } = n.wanted setup := by
      simp only [wanted, hpc, hpushed]
    refine ⟨fun he => hpushed.trans (h.early (hpc ▸ he)), by rw [hpushed]; exact h.inputs,
      h.sends.wrote (service_wrote hs) hwanted, ?_⟩
    rw [taken, List.append_nil]
    exact h.tracks.congr hkeymap hpushed
  | spuriousWake hs =>
    obtain ⟨hposted, hstop⟩ := startUp_quiet (Or.inr (Or.inr rfl)) hs
    rw [taken, List.append_nil]
    exact h.frame rfl rfl hposted hstop Iff.rfl

theorem run_typing {as : List RemoteAction} (h : n.Typing bytes setup events)
    (hrun : run (step order bytes setup) n as = some n') :
    n'.Typing bytes setup (events ++ n.typed order bytes setup as) := by
  induction as generalizing n events with
  | nil =>
    obtain rfl := Option.some.inj hrun
    rwa [typed, List.append_nil]
  | cons a as ih =>
    obtain ⟨r, hs, hrun⟩ := run_cons_some.mp hrun
    have hnext := ih (step_typing h hs) hrun
    rw [List.append_assoc] at hnext
    rw [typed, hs]
    exact hnext

theorem Typing.wanted_good (h : n.Typing bytes setup events) {msg : ServerMsg} (hm : msg ∈ n.wanted setup) :
    msg.OnWire ∧ ∀ t ∈ msg.template?, Deliverable t := by
  unfold wanted at hm
  split at hm
  · cases hm
  · rcases List.mem_cons.mp hm with rfl | hm
    · exact ⟨trivial, by simpa [ServerMsg.template?] using ListenServer.deliverable_playerTemplate⟩
    · obtain ⟨state, rfl⟩ := h.inputs msg hm
      exact ⟨trivial, by simp [ServerMsg.template?]⟩

/-- The first message is the request for a character. -/
theorem wanted_cons {first : ServerMsg} {rest later : List ServerMsg} (h : n.wanted setup = first :: rest ++ later) :
    first = .loadPlayer setup.self playerTemplate ∧ n.platform.pushed = rest ++ later := by
  unfold wanted at h
  split at h
  · cases h
  · obtain ⟨rfl, he⟩ := List.cons.inj h
    exact ⟨rfl, he⟩

/-- All that the client has for the server is written, has arrived and has been
taken up, and the physics has not cleaned up. -/
structure CaughtUp (server : ListenServer) (c : ClientPtr) (stream : List UInt8) (n : RemoteGame) : Prop where
  asked : n.pc ≠ .addClient ∧ n.pc ≠ .loadPlayer
  written : n.server.posted = [] ∧ n.server.stopped = false
  arrived : stream = n.sent
  standing : server.io.escaped = none ∧ .call (.serverClosed c) ∉ server.game.log
  read : ∃ cli, server.io.clients.find? c = some cli ∧ cli.markedForDelete = false ∧ cli.incoming = []
  drained : server.game.Drained
  physics : server.game.physicsPc ≠ .stopped

/-- As long as the physics has not cleaned up: the character of the client does
what the client has told of its keys up to some time, and does what the keys say
that are held down once all has arrived. -/
structure KeysReach (server : ListenServer) (c : ClientPtr) (stream : List UInt8) (events : List XEvent)
    (n : RemoteGame) : Prop where
  told : server.game.physicsPc ≠ .stopped → ∀ id, server.game.Owns c id → ∃ told later,
    n.platform.pushed.filterMap ServerMsg.state? = told ++ later ∧
      server.game.state? id = some (told.getLast?.getD 0)
  held : n.CaughtUp server c stream → ∃ id state, server.game.Owns c id ∧ server.game.state? id = some state ∧
    ∀ key : InputState, key.Watched → (state.toBitVec.getLsbD key.bit = true ↔ lastKeyEvent key events = some true)

end RemoteGame

namespace GameServer

variable {s : GameServer} {c : ClientPtr} {id : UInt32} {sent : List UInt16}

theorem inputs_withSender (c : ClientPtr) (msgs : List ServerMsg) :
    inputs c (msgs.map (ServerMsg.withSender c)) = msgs.filterMap ServerMsg.state? := by
  rw [inputs, List.filterMap_map]
  refine List.filterMap_congr (fun msg _ => ?_)
  cases msg <;> simp [ServerMsg.withSender, ServerMsg.inputOf, ServerMsg.state?]

/-- A character that is there has had the first of the inputs. -/
theorem Steered.state (h : s.Steered c sent) (ho : s.Orderly) (hf : s.fault = none) (howns : s.Owns c id) :
    ∃ told later, sent = told ++ later ∧ s.state? id = some (told.getLast?.getD 0) := by
  cases h with
  | asked hfind =>
    rw [howns.find] at hfind
    cases hfind
  | @loaded i template mat pre post hfind hid hserver hphysics =>
    obtain rfl : id = i := Option.some.inj (howns.find.symm.trans hfind)
    have hadd : id ∈ s.addIds := by simp [addIds, hphysics, ServerMsg.addChar?]
    exact absurd howns.character ((ho.tracked hf).creates_absent id hadd)
  | @playing i arrived hplays hserver hstate hsent =>
    obtain rfl : id = i := Option.some.inj (howns.find.symm.trans hplays.find)
    exact ⟨arrived, _, hsent, hstate⟩

end GameServer

namespace RemoteGame

variable {order : PopOrder} {bytes : ByteOrder} {setup : LocalGame.Setup} {n : RemoteGame} {events : List XEvent}
  {server : ListenServer} {c : ClientPtr} {stream : List UInt8}

/-- Where the server is with the keys, by what it has received of the client. -/
theorem Typing.steered (h : n.Typing bytes setup events) (hserves : server.game.Serves c)
    {first : ServerMsg} {rest later : List ServerMsg} (hwanted : n.wanted setup = first :: rest ++ later)
    (hreceived : server.game.receivedFrom c = (first :: rest).map (ServerMsg.withSender c)) :
    server.game.Steered c (rest.filterMap ServerMsg.state?) := by
  obtain ⟨rfl, hpushed⟩ := wanted_cons hwanted
  rw [← GameServer.inputs_withSender c]
  refine hserves.steered playerTemplate _ hreceived (fun template hm => ?_)
  obtain ⟨msg, hmem, he⟩ := List.mem_map.mp hm
  obtain ⟨state, rfl⟩ := h.inputs msg (hpushed ▸ List.mem_append_left _ hmem)
  cases he

theorem Typing.keysReach (h : n.Typing bytes setup events) (hserves : server.game.Serves c)
    (hfault : server.game.fault = none) (hreads : server.Reads bytes c (n.wanted setup) stream) :
    n.KeysReach server c stream events := by
  obtain ⟨done, later, hwanted, hreceived, hleft⟩ := hreads.split
  constructor
  · intro _ id howns
    cases done with
    | nil =>
      have hnone := (hserves.unasked hreceived).find
      rw [howns.find] at hnone
      cases hnone
    | cons first rest =>
      obtain ⟨told, more, hsplit, hstate⟩ :=
        (h.steered hserves hwanted hreceived).state hserves.orderly hfault howns
      refine ⟨told, more ++ later.filterMap ServerMsg.state?, ?_, hstate⟩
      rw [(wanted_cons hwanted).2, List.filterMap_append, hsplit, List.append_assoc]
  · intro hall
    have hsent : n.sent = (n.wanted setup).flatMap (RemoteServer.writeMsg bytes) := by
      rcases h.sends with ⟨written, he, hs⟩ | ⟨hstopped, _⟩
      · rw [hs, he, hall.written.1, List.append_nil]
      · rw [hall.written.2] at hstopped
        cases hstopped
    obtain ⟨cli, hf, hmark, hempty⟩ := hall.read
    have hread := (hleft cli hf hmark hall.standing.1).2 hall.standing.2
    rw [hempty, List.append_nil, hall.arrived, hsent] at hread
    -- what has been read is all of it
    obtain rfl : [] = later := Frames.cut_eq (RemoteServer.writeMsg_ne_nil bytes)
      ((List.append_nil _).trans hwanted) hread
    rw [List.append_nil] at hwanted
    have hcons : n.wanted setup = .loadPlayer setup.self playerTemplate :: n.platform.pushed :=
      if_neg (not_or.mpr hall.asked)
    rw [← hwanted, hcons] at hreceived
    have hsteered := h.steered hserves (hcons.trans (List.append_nil _).symm) hreceived
    obtain ⟨id, howns, hstate⟩ := hsteered.drained hall.drained
    rw [← h.tracks.told] at hstate
    exact ⟨id, _, howns, hstate, h.tracks.watched⟩

/-- In every run of `qntsrv` with fresh ids and every run of a `qntcli` whose
bytes arrive at it: while the client stays connected and the physics runs, its
keys reach its character in order, and once all is taken up it does what they
say. -/
theorem remote_keys_move_player (order : PopOrder) (bytes : ByteOrder) (setup : LocalGame.Setup) (running : Bool)
    (incoming : List UInt8) (playerSpawn : Mat4) (world : List WorldEntry) {nextClient next : ClientPtr}
    {as bs : List ListenAction} {server server' : ListenServer} {cs : List RemoteAction} (hnext : nextClient ≠ 0)
    (hfresh : Guarded (ListenServer.step .fifo bytes) ListenServer.IdsFresh
      (ListenServer.init playerSpawn world nextClient) (as ++ .handleAccept stream next :: bs))
    (hrun : run (ListenServer.step .fifo bytes) (ListenServer.init playerSpawn world nextClient) as = some server)
    (hthen : run (ListenServer.step .fifo bytes) server (.handleAccept stream next :: bs) = some server')
    (hclient : run (step order bytes setup) (init running incoming) cs = some n) (hstream : stream <+: n.sent)
    (hfault : server'.game.fault = none) (hstay : .removeClient server.nextClient ∉ server'.game.log) :
    n.KeysReach server' server.nextClient stream ((init running incoming).typed order bytes setup cs) := by
  have htyping := run_typing (typing_init bytes setup running incoming) hclient
  have hserving : server'.Serving server.nextClient := by
    refine hfresh.invariant _ (fun _ _ _ h hok hs => ListenServer.serving_step h hok hs)
      (fun _ _ => GameServer.serves_init playerSpawn world _) ?_
    rw [run_append, hrun]
    exact hthen
  have hreads : server'.Reads bytes server.nextClient (n.wanted setup) stream :=
    ListenServer.run_reads hnext (fun _ hm => htyping.wanted_good hm) (hstream.trans htyping.sends.prefix) hrun hthen
  exact htyping.keysReach (hserving hfault hstay) hfault hreads

/-- The client starts, asks for its player and tells that a key is held down. -/
def press : List RemoteAction := [.main [], .main []] ++ List.replicate 4 (.service .readMsg) ++
  List.replicate 5 (.main []) ++ [.service (.writeMsg none), .main [], .main [], .main [.keyPress 0xff51],
  .service (.writeMsg none)]

def pressed : List UInt8 := [2, 0, 0, 0, 6, 0, 0, 0, 80, 108, 97, 121, 101, 114, 1, 0, 0, 0, 1, 0]

/-- The server accepts the client, reads its messages and handles them. -/
def pressArrives : List ListenAction := [.handleAccept pressed 2, .handler (.completeRead 1),
  .handler (.completeRead 1)] ++ List.replicate 4 .server ++ List.replicate 5 (.physics [])

theorem remote_keys_move_player_press : ∃ server server' n,
    run (ListenServer.step .fifo .little) (ListenServer.init zeroMat [] 1) [.server] = some server ∧
    run (ListenServer.step .fifo .little) server pressArrives = some server' ∧
    run (step .lifo .little ⟨1, ⟨1, 2⟩⟩) (init true []) press = some n ∧
    (server'.game.physicsPc ≠ .stopped ∧ server'.game.state? 1 = some 1 ∧ n.sent = pressed) ∧
    n.KeysReach server' server.nextClient pressed ((init true []).typed .lifo .little ⟨1, ⟨1, 2⟩⟩ press) := by
  have hserver : (run (ListenServer.step .fifo .little) (ListenServer.init zeroMat [] 1) [.server]).map
      ListenServer.nextClient = some 1 := by decide
  have hall : (run (ListenServer.step .fifo .little) (ListenServer.init zeroMat [] 1)
      ([.server] ++ pressArrives)).map (fun server => (server.game.physicsPc, server.game.state? 1, server.game.fault,
        decide (.removeClient 1 ∈ server.game.log))) = some (.draining, some 1, none, false) := by decide
  have hclient : (run (step .lifo .little ⟨1, ⟨1, 2⟩⟩) (init true []) press).map RemoteGame.sent =
      some pressed := by decide
  obtain ⟨server, hs, hnext⟩ := Option.map_eq_some_iff.mp hserver
  obtain ⟨server', hs', he⟩ := Option.map_eq_some_iff.mp hall
  obtain ⟨n, hn, hsent⟩ := Option.map_eq_some_iff.mp hclient
  rw [run_append, hs] at hs'
  simp only [Prod.mk.injEq, decide_eq_false_iff_not] at he
  obtain ⟨hphysics, hstate, hfault, hstay⟩ := he
  refine ⟨server, server', n, hs, hs', hn, ⟨by simp [hphysics], hstate, hsent⟩, ?_⟩
  exact remote_keys_move_player .lifo .little ⟨1, ⟨1, 2⟩⟩ true [] zeroMat [] (by decide) (by decide) hs hs' hn
    (hsent ▸ List.prefix_refl _) hfault (hnext ▸ hstay)

end RemoteGame

end Quintses
