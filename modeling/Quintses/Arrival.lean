import Quintses.Delivery

/-! The messages from the clients to the server, from the bytes that a client
sends to what `pushMessage` is given. -/

namespace Quintses

open Lts

def Event.from? (c : ClientPtr) : Event → Option ServerMsg
  | .received msg => if msg.sender = c then some msg else none
  | .addClient _ | .removeClient _ | .handled _ | .call _ => none

def Action.from? (c : ClientPtr) : Action → Option ServerMsg
  | .pushMessage msg => if msg.sender = c then some msg else none
  | .addClient _ | .removeClient _ | .server | .physics _ => none

namespace GameServer

/-- What has been pushed to the server from a client, in order. -/
def receivedFrom (s : GameServer) (c : ClientPtr) : List ServerMsg := (s.log.filterMap (Event.from? c)).reverse

variable {order : PopOrder} {s s' : GameServer} {a : Action} {c : ClientPtr}

theorem from?_calls (calls : List Call) : (calls.map Event.call).reverse.filterMap (Event.from? c) = [] := by
  refine List.filterMap_eq_nil_iff.mpr (fun e he => ?_)
  obtain ⟨call, _, rfl⟩ : ∃ call ∈ calls, Event.call call = e := by simpa using he
  rfl

theorem Change.receivedFrom (h : Change order s a s') :
    s'.receivedFrom c = s.receivedFrom c ++ (a.from? c).toList := by
  have hquiet (events : List Event) (hlog : s'.log = events ++ s.log)
      (hnil : events.filterMap (Event.from? c) = []) : s'.receivedFrom c = s.receivedFrom c ++ [] := by
    rw [GameServer.receivedFrom, hlog, List.filterMap_append, hnil, List.append_nil]
    rfl
  cases h with
  | quietServer h => exact hquiet [] h.log rfl
  | quietPhysics h => exact hquiet [] h.log rfl
  | @addClient d hd hnew =>
    refine hquiet ((((s.server.addClient d).2.map Event.call).reverse) ++ [.addClient d]) ?_ ?_
    · simp [apply_log, record]
    · rw [List.filterMap_append, from?_calls]
      rfl
  | @removeClient d hd =>
    refine hquiet (.removeClient d :: ((s.server.removeClient d).2.map Event.call).reverse) ?_ ?_
    · simp [apply_log, record]
    · exact from?_calls _
  | @receive msg h =>
    by_cases hs : msg.sender = c <;> simp [GameServer.receivedFrom, record, setServer, Action.from?, Event.from?, hs]
  | takeServer hpc hq => exact hquiet [] rfl rfl
  | @handle msg hpc =>
    refine hquiet (((s.handleCalls msg).map Event.call).reverse ++ [.handled msg]) (by simp [handle_log]) ?_
    rw [List.filterMap_append, from?_calls]
    rfl
  | mob hpc => exact hquiet [_] (by rw [allocPhysical_eq, apply_log]; rfl) rfl
  | blocker hpc => exact hquiet [_] (by rw [allocPhysical_eq, apply_log]; rfl) rfl
  | pushBack hpc => exact hquiet [] rfl rfl
  | close hpc => exact hquiet _ (apply_log _) (from?_calls _)
  | takePhysics hpc hq => exact hquiet [] rfl rfl
  | parse hpc => exact hquiet [] (parse_log s _) rfl
  | callbacks hpc => exact hquiet [] rfl rfl
  | transforms hpc => exact hquiet _ (apply_log _) (from?_calls _)

theorem Change.closed_logged (h : Change order s a s') (hc : c ∈ (s.callsUpTo s').filterMap Call.closed?) :
    .call (.serverClosed c) ∈ s'.log := by
  obtain ⟨news, hlog, _, hcalls⟩ := h.callsUpTo
  obtain ⟨call, hmem, he⟩ := List.mem_filterMap.mp hc
  rw [hcalls, List.mem_reverse, mem_call?] at hmem
  cases call with
  | serverClosed d =>
    obtain rfl : d = c := Option.some.inj he
    exact hlog ▸ List.mem_append_left _ hmem
  | _ => cases he

end GameServer

namespace IoService

variable {bytes : ByteOrder} {io io' : IoService} {a : IoAction} {c : ClientPtr}

/-- What is left to read from a client that is not torn down: all of it unless the handler read a message. -/
theorem handler_incoming (hi : io.Consistent) (ha : ListenServer.isHandler a = true) (hs : step bytes io a = some io')
    {cli' : RemoteClient} (hf' : io'.clients.find? c = some cli') (hm' : cli'.markedForDelete = false)
    (hn : io'.escaped = none) : ∃ cli, io.clients.find? c = some cli ∧ cli.markedForDelete = false ∧
      (cli'.incoming = cli.incoming ∧ (∀ msg, io.serverCall bytes a = some (.pushMessage msg) → msg.sender ≠ c) ∨
        ∃ msg, a = .completeRead c ∧ RemoteClient.round bytes c cli.incoming = .next msg cli'.incoming ∧
          io.serverCall bytes a = some (.pushMessage msg)) := by
  cases a with
  | accept self incoming => cases ha
  | pushMessage self msg => cases ha
  | abortRead self =>
    obtain ⟨_, _, rfl⟩ := step_abortRead.mp hs
    exact ⟨cli', hf', hm', Or.inl ⟨rfl, by simp [serverCall]⟩⟩
  | runPosted failsAfter =>
    have hquiet : ∀ msg, io.serverCall bytes (.runPosted failsAfter) = some (.pushMessage msg) → msg.sender ≠ c := by
      intro msg hcall
      obtain ⟨self, cli, _, _, he | ⟨_, _, he, _⟩⟩ := serverCall_cases ha hcall <;> cases he
    obtain ⟨_, self, rest, ⟨msg, hp, rfl⟩ | ⟨hp, rfl⟩⟩ := step_runPosted.mp hs
    · obtain ⟨cli, hf, _⟩ := hi.posted (self, .writeMsg msg) (hp ▸ List.mem_cons_self)
      have hran : ({ io with posted := rest }.ran self .writeMsg).clients.find? self = some cli := hf
      simp only [onObject, hran] at hf'
      obtain ⟨sent, he | ⟨_, he⟩⟩ := writeMsg_cases bytes ({ io with posted := rest }.ran self .writeMsg) self cli
        msg failsAfter
      · rw [he] at hf'
        rcases StdMap.find?_assign_cases hf' with ⟨rfl, rfl⟩ | ⟨-, hold⟩
        · exact ⟨cli, hf, hm', Or.inl ⟨rfl, hquiet⟩⟩
        · exact ⟨cli', hold, hm', Or.inl ⟨rfl, hquiet⟩⟩
      · rw [he] at hf'
        rcases StdMap.find?_assign_cases hf' with ⟨rfl, rfl⟩ | ⟨-, hold⟩
        · cases hm'
        · exact ⟨cli', hold, hm', Or.inl ⟨rfl, hquiet⟩⟩
    · obtain ⟨cli, hf, _⟩ := hi.posted (self, .deleteSelf) (hp ▸ List.mem_cons_self)
      have hran : ({ io with posted := rest }.ran self .deleteSelf).clients.find? self = some cli := hf
      simp only [onObject, hran] at hf'
      exact ⟨cli', (StdMap.find?_of_erase hf').2, hm', Or.inl ⟨rfl, hquiet⟩⟩
  | completeRead self =>
    obtain ⟨_, cli, hf, _, rfl⟩ := step_completeRead.mp hs
    have hother (hne : c ≠ self) (hold : io.clients.find? c = some cli') : ∃ cli, io.clients.find? c = some cli ∧
        cli.markedForDelete = false ∧ (cli'.incoming = cli.incoming ∧
          (∀ msg, io.serverCall bytes (.completeRead self) = some (.pushMessage msg) → msg.sender ≠ c) ∨
        ∃ msg, IoAction.completeRead self = .completeRead c ∧
          RemoteClient.round bytes c cli.incoming = .next msg cli'.incoming ∧
          io.serverCall bytes (.completeRead self) = some (.pushMessage msg)) := by
      refine ⟨cli', hold, hm', Or.inl ⟨rfl, fun msg hcall => ?_⟩⟩
      obtain ⟨d, x, _, _, he | ⟨m, rest, hself, hround, he⟩⟩ := serverCall_cases ha hcall
      · cases he
      · cases he
        cases hself
        exact (RemoteClient.round_next hround).2 ▸ hne.symm
    cases hm : cli.markedForDelete with
    | true =>
      obtain ⟨type, rest, he⟩ := readMsg_of_marked bytes (io.ran self .readMsg) self hm
      rw [he] at hf'
      rcases StdMap.find?_assign_cases hf' with ⟨rfl, rfl⟩ | ⟨hne, hold⟩
      · exact absurd (hm.symm.trans hm') (by simp)
      · exact hother hne hold
    | false =>
      obtain ⟨type, left, ⟨msg, rest, hr, he⟩ | ⟨hr, he⟩ | ⟨e, hr, he⟩⟩ :=
        readMsg_of_unmarked bytes (io.ran self .readMsg) self hm
      · rw [he] at hf'
        rcases StdMap.find?_assign_cases hf' with ⟨rfl, rfl⟩ | ⟨hne, hold⟩
        · exact ⟨cli, hf, hm, Or.inr ⟨msg, rfl, hr, by simp [serverCall, hf, hm, hr]⟩⟩
        · exact hother hne hold
      · rw [he] at hf'
        rcases StdMap.find?_assign_cases hf' with ⟨rfl, rfl⟩ | ⟨hne, hold⟩
        · cases hm'
        · exact hother hne hold
      · rw [he] at hn
        cases hn

theorem find?_closed (cs : List ClientPtr) (io : IoService) (c : ClientPtr) :
    (cs.foldl IoService.serverClosed io).clients.find? c =
      if c ∈ cs then (io.clients.find? c).map (fun cli => { cli with incoming := [] }) else io.clients.find? c := by
  induction cs generalizing io with
  | nil => simp
  | cons d cs ih =>
    rw [List.foldl_cons, ih]
    by_cases hd : c = d
    · subst hd
      cases hf : io.clients.find? c <;> simp [IoService.serverClosed, hf]
    · simp [IoService.serverClosed, hd]

end IoService

namespace ListenServer

variable {order : PopOrder} {bytes : ByteOrder} {n n' : ListenServer} {l : ListenAction} {c : ClientPtr}
  {up : List ServerMsg} {stream : List UInt8}

/-- What has been read of a client is the first of what it sends; the rest is
still to come, unless the server has closed the connection. -/
structure Reads (bytes : ByteOrder) (c : ClientPtr) (up : List ServerMsg) (stream : List UInt8)
    (n : ListenServer) : Prop where
  added : .addClient c ∈ n.io.calls
  split : ∃ done later, up = done ++ later ∧ n.game.receivedFrom c = done.map (ServerMsg.withSender c) ∧
    (∀ cli, n.io.clients.find? c = some cli → cli.markedForDelete = false → n.io.escaped = none →
      cli.incoming <+: later.flatMap (RemoteServer.writeMsg bytes) ∧
      (.call (.serverClosed c) ∉ n.game.log → stream = done.flatMap (RemoteServer.writeMsg bytes) ++ cli.incoming))

/-- Nothing is read of the client in this step. -/
theorem Reads.frame (h : n.Reads bytes c up stream) (hadd : .addClient c ∈ n'.io.calls)
    (hrec : n'.game.receivedFrom c = n.game.receivedFrom c) (hlog : ∀ e ∈ n.game.log, e ∈ n'.game.log)
    (hsame : ∀ cli', n'.io.clients.find? c = some cli' → cli'.markedForDelete = false → n'.io.escaped = none →
      n.io.escaped = none ∧ ∃ cli, n.io.clients.find? c = some cli ∧ cli.markedForDelete = false ∧
        (cli'.incoming = cli.incoming ∨ cli'.incoming = [] ∧ .call (.serverClosed c) ∈ n'.game.log)) :
    n'.Reads bytes c up stream := by
  obtain ⟨done, later, hup, hgot, hleft⟩ := h.split
  refine ⟨hadd, done, later, hup, hrec.trans hgot, fun cli' hf' hm' hn' => ?_⟩
  obtain ⟨hn, cli, hf, hm, he | ⟨he, hclosed⟩⟩ := hsame cli' hf' hm' hn'
  · rw [he]
    exact ⟨(hleft cli hf hm hn).1, fun hno => (hleft cli hf hm hn).2 (fun hmem => hno (hlog _ hmem))⟩
  · rw [he]
    exact ⟨List.nil_prefix, fun hno => absurd hclosed hno⟩

theorem closed_escaped (cs : List ClientPtr) (io : IoService) :
    (cs.foldl IoService.serverClosed io).escaped = io.escaped := by
  induction cs generalizing io with
  | nil => rfl
  | cons c cs ih => exact ih (io.serverClosed c)

theorem calls_mono (hs : step order bytes n l = some n') {call : ServerCall} (hc : call ∈ n.io.calls) :
    call ∈ n'.io.calls := by
  cases step_change hs with
  | accept hnext hne hgame hio =>
    obtain ⟨io₁, hacc, hr⟩ := run_cons_some.mp hio
    obtain rfl := IoService.run_posts hr
    simp only [IoService.post, IoService.step_calls hacc]
    exact List.mem_append_right _ hc
  | acceptError => exact hc
  | alone ha hcall hio =>
    rw [IoService.step_calls hio]
    exact List.mem_append_right _ hc
  | calling ha hcall hgame hio =>
    rw [calling_calls hcall hio]
    exact List.mem_cons_of_mem _ hc
  | game hl hgame hio =>
    obtain rfl := IoService.run_posts hio
    rw [(closed_frame _ _).1]
    exact hc
  | watcher => exact hc

/-- Nothing is received from a client before it is accepted. -/
theorem unheard_step (hj : n.Joint) (hc : c ≠ 0)
    (h : .addClient c ∉ n.io.calls → n.game.receivedFrom c = []) (hs : step order bytes n l = some n')
    (hno : .addClient c ∉ n'.io.calls) : n'.game.receivedFrom c = [] := by
  have hold := h (fun hm => hno (calls_mono hs hm))
  have hadded : .addClient c ∉ n.io.calls := fun hm => hno (calls_mono hs hm)
  have hgame {a : Action} {game : GameServer} (hg : GameServer.step order n.game a = some game)
      (hfrom : a.from? c = none) : game.receivedFrom c = [] := by
    rw [(GameServer.step_change hg).2.receivedFrom, hold, hfrom]
    rfl
  cases step_change hs with
  | accept _ _ hg _ => exact hgame hg rfl
  | @calling a call game io ha hcall hg hio =>
    refine hgame hg ?_
    obtain ⟨self, cli, hf, _, rfl | ⟨msg, rest, _, hround, rfl⟩⟩ := IoService.serverCall_cases ha hcall
    · rfl
    · have hne : msg.sender ≠ c := by
        rw [(RemoteClient.round_next hround).2]
        rintro rfl
        exact hadded (hj.consistent.added self cli hf)
      simp [ServerCall.action, Action.from?, hne]
  | @game l a game io hl hg hio =>
    refine hgame hg ?_
    cases l <;> cases hl <;> simp [Action.from?, ServerMsg.sender, Ne.symm hc]
  | _ => exact hold

theorem reads_step (hj : n.Joint) (h : n.Reads bytes c up stream) (hc : c ≠ 0)
    (hup : ∀ msg ∈ up, msg.OnWire ∧ ∀ t ∈ msg.template?, Deliverable t) (hs : step order bytes n l = some n') :
    n'.Reads bytes c up stream := by
  have hadd := calls_mono hs h.added
  cases step_change hs with
  | @accept incoming next game io hnext hne hgame hio =>
    obtain ⟨io₁, hacc, hr⟩ := run_cons_some.mp hio
    obtain ⟨hn, _, hnew, rfl⟩ := IoService.step_accept.mp hacc
    obtain rfl := IoService.run_posts hr
    have hc := (GameServer.step_change hgame).2
    refine h.frame hadd (by rw [hc.receivedFrom]; exact List.append_nil _) (fun e he => hc.log_mono he) ?_
    intro cli' hf' hm' hn'
    rcases StdMap.find?_assign_cases hf' with ⟨rfl, rfl⟩ | ⟨-, hold⟩
    · exact absurd h.added hnew
    · exact ⟨hn, cli', hold, hm', Or.inl rfl⟩
  | acceptError => exact h.frame hadd rfl (fun _ he => he) (fun cli' hf' hm' hn' => ⟨hn', cli', hf', hm', Or.inl rfl⟩)
  | @alone a io ha hcall hio =>
    refine h.frame hadd rfl (fun _ he => he) (fun cli' hf' hm' hn' => ?_)
    obtain ⟨cli, hf, hm, ⟨he, _⟩ | ⟨msg, _, _, hno⟩⟩ := IoService.handler_incoming hj.consistent ha hio hf' hm' hn'
    · exact ⟨IoService.escaped_of_step hio, cli, hf, hm, Or.inl he⟩
    · rw [hcall] at hno
      cases hno
  | @calling a call game io ha hcall hgame hio =>
    have hg := (GameServer.step_change hgame).2
    obtain ⟨io₁, hr, hlast⟩ := run_snoc hio
    have hcons := hj.consistent.run_posts hr
    obtain rfl := IoService.run_posts hr
    have hn : (n.io.post (n.game.callsUpTo game)).escaped = none := IoService.escaped_of_step hlast
    have hpost : (n.io.post (n.game.callsUpTo game)).serverCall bytes a = some call := IoService.serverCall_post hcall
    -- a call that is not a message of the client leaves what is read of it alone
    have hother (hfrom : call.action.from? c = none) (hmsg : ∀ msg, call = .pushMessage msg → a ≠ .completeRead c) :
        Reads bytes c up stream { n with game, io } := by
      refine h.frame hadd (by rw [hg.receivedFrom, hfrom]; exact List.append_nil _) (fun e he => hg.log_mono he) ?_
      intro cli' hf' hm' hn'
      obtain ⟨cli, hf, hm, ⟨he, _⟩ | ⟨msg, ha, _, hmine⟩⟩ := IoService.handler_incoming hcons ha hlast hf' hm' hn'
      · exact ⟨hn, cli, hf, hm, Or.inl he⟩
      · rw [hpost] at hmine
        exact absurd ha (hmsg msg (Option.some.inj hmine))
    obtain ⟨self, cli, hf, hm, rfl | ⟨msg, rest, rfl, hround, rfl⟩⟩ := IoService.serverCall_cases ha hcall
    · exact hother rfl (by simp)
    · have hsender : msg.sender = self := (RemoteClient.round_next hround).2
      by_cases hself : self = c
      · subst hself
        obtain ⟨done, later, rfl, hgot, hleft⟩ := h.split
        obtain ⟨hpre, hrest⟩ := hleft cli hf hm hn
        obtain ⟨m, later, rfl, rfl, he, htail⟩ := Frames.next_of_prefix
          (typedRound_local (ServerMsg.reads_received bytes self)) (fun m hmem rest =>
            ServerMsg.round_writeMsg bytes (hup m (List.mem_append_right _ hmem)).1
              (fun t ht => ((hup m (List.mem_append_right _ hmem)).2 t ht).1)
              (fun t ht => ((hup m (List.mem_append_right _ hmem)).2 t ht).2) self rest) hpre hround
        refine ⟨hadd, done ++ [m], later, by simp, ?_, fun cli' hf' hm' hn' => ?_⟩
        · rw [hg.receivedFrom, hgot]
          simp [ServerCall.action, Action.from?, hsender]
        · obtain ⟨old, hold, _, ⟨_, hno⟩ | ⟨msg, _, hround', hmine⟩⟩ :=
            IoService.handler_incoming hcons ha hlast hf' hm' hn'
          · exact absurd hsender (hno _ hpost)
          · obtain rfl : cli = old := Option.some.inj (hf.symm.trans hold)
            rw [hround] at hround'
            obtain ⟨_, rfl⟩ := Outcome.next.inj hround'
            refine ⟨htail, fun hno => ?_⟩
            rw [hrest (fun hmem => hno (hg.log_mono hmem)), he]
            simp
      · refine hother (by simp [ServerCall.action, Action.from?, hsender, hself]) (fun _ _ hread => ?_)
        exact hself (IoAction.completeRead.inj hread)
  | @game l a game io hl hgame hio =>
    have hg := (GameServer.step_change hgame).2
    obtain rfl := IoService.run_posts hio
    have hquiet : a.from? c = none := by
      cases l <;> cases hl <;> simp [Action.from?, ServerMsg.sender, Ne.symm hc]
    refine h.frame hadd (by rw [hg.receivedFrom, hquiet]; exact List.append_nil _) (fun e he => hg.log_mono he) ?_
    intro cli' hf' hm' hn'
    rw [closed_escaped] at hn'
    rw [IoService.find?_closed] at hf'
    split at hf'
    case isTrue hclosed =>
      obtain ⟨cli, hf, rfl⟩ := Option.map_eq_some_iff.mp hf'
      exact ⟨hn', cli, hf, hm', Or.inr ⟨rfl, hg.closed_logged hclosed⟩⟩
    case isFalse => exact ⟨hn', cli', hf', hm', Or.inl rfl⟩
  | watcher => exact h.frame hadd rfl (fun _ he => he) (fun cli' hf' hm' hn' => ⟨hn', cli', hf', hm', Or.inl rfl⟩)

theorem reads_accept {next : ClientPtr} (hold : .addClient n.nextClient ∉ n.io.calls → n.game.receivedFrom n.nextClient = [])
    (hstream : stream <+: up.flatMap (RemoteServer.writeMsg bytes))
    (hs : step order bytes n (.handleAccept stream next) = some n') : n'.Reads bytes n.nextClient up stream := by
  cases step_change hs with
  | @accept _ _ game io hnext hne hgame hio =>
    obtain ⟨io₁, hacc, hr⟩ := run_cons_some.mp hio
    obtain ⟨hn, _, hnew, rfl⟩ := IoService.step_accept.mp hacc
    obtain rfl := IoService.run_posts hr
    refine ⟨List.mem_cons_self, [], up, rfl, ?_, fun cli hf _ _ => ?_⟩
    · rw [(GameServer.step_change hgame).2.receivedFrom, hold hnew]
      rfl
    · rcases StdMap.find?_assign_cases hf with ⟨-, rfl⟩ | ⟨hother, -⟩
      · exact ⟨hstream, fun _ => rfl⟩
      · exact absurd rfl hother
  | game hl => cases hl

/-- What has been read of the client that is accepted after a run. -/
theorem run_reads {playerSpawn : Mat4} {world : List WorldEntry} {nextClient next : ClientPtr}
    {as bs : List ListenAction} (hnext : nextClient ≠ 0)
    (hup : ∀ msg ∈ up, msg.OnWire ∧ ∀ t ∈ msg.template?, Deliverable t)
    (hstream : stream <+: up.flatMap (RemoteServer.writeMsg bytes))
    (hrun : run (step order bytes) (init playerSpawn world nextClient) as = some n)
    (hthen : run (step order bytes) n (.handleAccept stream next :: bs) = some n') :
    n'.Reads bytes n.nextClient up stream := by
  have hj : n.Joint := (along_of_step Joint (fun _ _ _ hj hs => joint_step hj hs)
    (joint_init playerSpawn world hnext) as).last hrun
  have hunheard : .addClient n.nextClient ∉ n.io.calls → n.game.receivedFrom n.nextClient = [] := by
    refine ((along_of_step (fun m => m.Joint ∧ (.addClient n.nextClient ∉ m.io.calls →
      m.game.receivedFrom n.nextClient = [])) (fun m l m' h hs => ?_) ⟨joint_init playerSpawn world hnext, ?_⟩
        as).last hrun).2
    · exact ⟨joint_step h.1 hs, unheard_step h.1 hj.spare.1 h.2 hs⟩
    · exact fun _ => rfl
  obtain ⟨m, haccept, hrest⟩ := run_cons_some.mp hthen
  have hfirst := reads_accept hunheard hstream haccept
  exact ((along_of_step (fun m => m.Joint ∧ m.Reads bytes n.nextClient up stream)
    (fun m l m' h hs => ⟨joint_step h.1 hs, reads_step h.1 h.2 hj.spare.1 hup hs⟩)
    ⟨joint_step hj haccept, hfirst⟩ bs).last hrest).2

/-- The messages of a client reach the server in the order in which it sent
them, with the client as their sender. Of a connection that stands the server
has read whole messages, and the rest of the bytes is still to come. -/
theorem received_in_order (order : PopOrder) (bytes : ByteOrder) (playerSpawn : Mat4) (world : List WorldEntry)
    {nextClient next : ClientPtr} {as bs : List ListenAction} {n n' : ListenServer} {up : List ServerMsg}
    {stream : List UInt8} (hnext : nextClient ≠ 0)
    (hup : ∀ msg ∈ up, msg.OnWire ∧ ∀ t ∈ msg.template?, Deliverable t)
    (hstream : stream <+: up.flatMap (RemoteServer.writeMsg bytes))
    (hrun : run (step order bytes) (init playerSpawn world nextClient) as = some n)
    (hthen : run (step order bytes) n (.handleAccept stream next :: bs) = some n') :
    ∃ done later, up = done ++ later ∧
      n'.game.receivedFrom n.nextClient = done.map (ServerMsg.withSender n.nextClient) ∧
      ∀ cli, n'.io.clients.find? n.nextClient = some cli → cli.markedForDelete = false → n'.io.escaped = none →
        .call (.serverClosed n.nextClient) ∉ n'.game.log →
        stream = done.flatMap (RemoteServer.writeMsg bytes) ++ cli.incoming := by
  obtain ⟨done, later, he, hgot, hleft⟩ := (run_reads hnext hup hstream hrun hthen).split
  exact ⟨done, later, he, hgot, fun cli hf hm hn hno => (hleft cli hf hm hn).2 hno⟩

/-- The client has sent one message and half of the type of the next. -/
theorem received_in_order_one_load : ∃ n n', run (step .lifo .little) (init zeroMat [] 1) [.server] = some n ∧
    run (step .lifo .little) n [.handleAccept [2, 0, 0, 0, 1, 0, 0, 0, 80, 1, 0] 2, .handler (.completeRead 1)] =
      some n' ∧
    ∃ done later, [.loadPlayer 0 [80], .input 0 3] = done ++ later ∧
      n'.game.receivedFrom n.nextClient = done.map (ServerMsg.withSender n.nextClient) ∧
      ∀ cli, n'.io.clients.find? n.nextClient = some cli → cli.markedForDelete = false → n'.io.escaped = none →
        .call (.serverClosed n.nextClient) ∉ n'.game.log →
        [2, 0, 0, 0, 1, 0, 0, 0, 80, 1, 0] = done.flatMap (RemoteServer.writeMsg .little) ++ cli.incoming := by
  have hfirst : (run (step .lifo .little) (init zeroMat [] 1) [.server]).isSome := by decide
  obtain ⟨n, hn⟩ := Option.isSome_iff_exists.mp hfirst
  have hboth : (run (step .lifo .little) (init zeroMat [] 1) ([.server] ++
      [.handleAccept [2, 0, 0, 0, 1, 0, 0, 0, 80, 1, 0] 2, .handler (.completeRead 1)])).isSome := by decide
  obtain ⟨n', hn'⟩ := Option.isSome_iff_exists.mp hboth
  rw [run_append, hn] at hn'
  refine ⟨n, n', hn, hn', received_in_order .lifo .little zeroMat [] (by decide) ?_ (by decide) hn hn'⟩
  simp [ServerMsg.OnWire, ServerMsg.template?, Deliverable, Plain, Terminable]

end ListenServer

end Quintses
