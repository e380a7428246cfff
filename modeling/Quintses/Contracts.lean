import Quintses.ListenServer
import Quintses.Orphans

/-! What the two halves of `qntsrv` rely on each other for. A handler calls the
server for a client that was added once and is not removed yet, and the server
calls only clients whose objects live. The one call that the server cannot take
is the removal of a client with a player after `delete m_physics`. -/

namespace Quintses

open Lts

def ServerMsg.player? : ServerMsg → Option ClientPtr
  | .input sender _ => some sender
  | .shutdown _ | .loadPlayer _ _ | .bullet _ => none

namespace GameServer

variable {order : PopOrder} {s s' : GameServer} {a : Action}

theorem Change.callsUpTo (h : Change order s a s') : ∃ news, s'.log = news ++ s.log ∧ News s s' a news ∧
    s.callsUpTo s' = (news.filterMap Event.call?).reverse := by
  obtain ⟨news, hlog, hnews⟩ := h.news
  exact ⟨news, hlog, hnews, by simp [GameServer.callsUpTo, hlog]⟩

theorem mem_call? {call : Call} {events : List Event} :
    call ∈ events.filterMap Event.call? ↔ .call call ∈ events := by
  rw [List.mem_filterMap]
  constructor
  · rintro ⟨e, he, hc⟩
    cases e <;> cases hc
    exact he
  · exact fun he => ⟨_, he, rfl⟩

/-- The server calls only clients that it has been given and that have not been taken from it. -/
theorem Change.target_present (h : Change order s a s') (ht : s.Traced) (hg : s'.Gone) {call : Call}
    (hc : call ∈ s.callsUpTo s') {c : ClientPtr} (htarget : call.target = some c) :
    .addClient c ∈ s'.log ∧ .removeClient c ∉ s'.log := by
  obtain ⟨news, _, hnews, he⟩ := h.callsUpTo
  rw [he, List.mem_reverse, mem_call?] at hc
  rcases hnews.target call c hc htarget with hknown | rfl
  · exact ⟨(h.traced ht).known c hknown, fun hr => hg.unknown c hr hknown⟩
  · refine ⟨(h.added_iff c).mpr (Or.inl rfl), fun hr => ?_⟩
    cases h with
    | addClient hc hnew => exact hnew (ht.removed c (((Change.addClient hc hnew).removed_iff c).mp hr |>.resolve_left (by simp)))

theorem call_fault_iff {call : ServerCall} (hs : step order s call.action = some s') :
    s'.fault = none ↔ s.LeavesInTime call.action := by
  obtain ⟨hf, hc⟩ := step_change hs
  cases call with
  | addClient c =>
    cases hc with
    | addClient _ _ =>
      have hsame : (s.record (.addClient c)).fault = none := hf
      rw [apply_fault_of_quiet (fun call hm => LocalServer.toPhysics_addClient hm), hsame]
      exact ⟨fun _ => trivial, fun _ => rfl⟩
  | removeClient c =>
    cases hc with
    | removeClient _ =>
      change (s.apply order (s.server.removeClient c)).fault = none ↔ _
      cases hd : s.physicsDeleted with
      | false => simp [apply_fault_of_live hd, hf, ServerCall.action, LeavesInTime, hd]
      | true =>
        by_cases hid : (s.server.clients.find? c).getD 0 = 0
        · rw [apply_fault_of_quiet (by simp [LocalServer.removeClient, hid])]
          simp [hf, ServerCall.action, LeavesInTime, hid]
        · simp [removeClient_deletedPhysics hd hid, ServerCall.action, LeavesInTime, hd, hid]
  | pushMessage msg =>
    cases hc with
    | receive _ => exact ⟨fun _ => trivial, fun _ => hf⟩

instance (s : GameServer) (a : Action) : Decidable (s.SenderPresent a) :=
  match a with
  | .server => decidable_of_iff (∀ msg ∈ s.serverPc.hand, msg.loader?.all (fun c => .removeClient c ∉ s.log)) (by
      cases hpc : s.serverPc with
      | handling msg => cases msg <;> simp [SenderPresent, ServerPc.hand, ServerMsg.loader?, hpc]
      | _ => simp [SenderPresent, ServerPc.hand, hpc])
  | .physics _ => decidable_of_iff (∀ msg ∈ s.physicsPc.hand, msg.player?.all (fun c => .removeClient c ∉ s.log)) (by
      cases hpc : s.physicsPc with
      | parsing msg => cases msg <;> simp [SenderPresent, PhysicsPc.hand, ServerMsg.player?, hpc]
      | _ => simp [SenderPresent, PhysicsPc.hand, hpc])
  | .addClient _ | .removeClient _ | .pushMessage _ => inferInstanceAs (Decidable True)

end GameServer

namespace ListenServer

/-- The two halves agree on who has been added and who has been removed. -/
structure Joint (n : ListenServer) : Prop where
  consistent : n.io.Consistent
  traced : n.game.Traced
  added : ∀ c, .addClient c ∈ n.io.calls ↔ .addClient c ∈ n.game.log
  removed : ∀ c, .removeClient c ∈ n.io.calls ↔ .removeClient c ∈ n.game.log
  spare : n.Fresh n.nextClient

/-- A message that the server takes up is not of a removed client. -/
def SenderPresent (n : ListenServer) (l : ListenAction) : Prop := ∀ a ∈ l.game?, n.game.SenderPresent a

instance (n : ListenServer) (l : ListenAction) : Decidable (n.SenderPresent l) :=
  Option.decidableForallMem l.game?

/-- A handler that runs does not remove a client with a player after `delete m_physics`. -/
def LeavesInTime (bytes : ByteOrder) (n : ListenServer) (a : IoAction) : Prop :=
  ∀ call ∈ n.io.serverCall bytes a, n.game.LeavesInTime call.action

/-- Whatever one half is ready to do, the other half lets it, and no call goes to
a client that is not there. -/
structure Served (order : PopOrder) (bytes : ByteOrder) (n : ListenServer) : Prop where
  handler : n.serviceStopped = false → ∀ a, isHandler a = true → (IoService.step bytes n.io a).isSome →
    ∃ n', step order bytes n (.handler a) = some n' ∧ (n'.game.fault = none ↔ n.LeavesInTime bytes a)
  accept : n.serviceStopped = false → n.accepting = true → ∀ incoming next, n.Fresh next →
    next ≠ n.nextClient → ∃ n', step order bytes n (.handleAccept incoming next) = some n' ∧ n'.game.fault = none
  thread : ∀ l a, l.game? = some a → n.game.SenderPresent a → (GameServer.step order n.game a).isSome →
    (step order bytes n l).isSome
  called : ∀ l n', n.SenderPresent l → step order bytes n l = some n' →
    ∀ call ∈ n.game.callsUpTo n'.game, ∀ c, call.target = some c → n'.io.Connected c ∧
      ∃ cli, n'.io.clients.find? c = some cli ∧ cli.markedForDelete = false

variable {order : PopOrder} {bytes : ByteOrder} {n n' : ListenServer}

theorem run_snoc {io io' : IoService} {ps : List IoAction} {a : IoAction}
    (h : run (IoService.step bytes) io (ps ++ [a]) = some io') :
    ∃ io₁, run (IoService.step bytes) io ps = some io₁ ∧ IoService.step bytes io₁ a = some io' := by
  rw [run_append, Option.bind_eq_some_iff] at h
  obtain ⟨io₁, hr, h⟩ := h
  obtain ⟨io₂, hs, h⟩ := run_cons_some.mp h
  exact ⟨io₁, hr, hs.trans h⟩

theorem closed_frame (cs : List ClientPtr) (io : IoService) :
    (cs.foldl IoService.serverClosed io).calls = io.calls ∧ (io.Consistent → (cs.foldl IoService.serverClosed io).Consistent) := by
  induction cs generalizing io with
  | nil => exact ⟨rfl, id⟩
  | cons c cs ih =>
    obtain ⟨hcalls, hcons⟩ := ih (io.serverClosed c)
    exact ⟨hcalls, fun h => hcons (h.serverClosed c)⟩

theorem calling_calls {io io' : IoService} {calls : List Call} {a : IoAction} {call : ServerCall}
    (hcall : io.serverCall bytes a = some call)
    (h : run (IoService.step bytes) io (calls.filterMap Call.post? ++ [a]) = some io') :
    io'.calls = call :: io.calls := by
  obtain ⟨io₁, hr, hs⟩ := run_snoc h
  obtain rfl := IoService.run_posts hr
  rw [IoService.step_calls hs, IoService.serverCall_post hcall]
  rfl

theorem action_injective {call : ServerCall} {c : ClientPtr} :
    (call.action = .addClient c ↔ call = .addClient c) ∧ (call.action = .removeClient c ↔ call = .removeClient c) := by
  cases call <;> simp [ServerCall.action]

theorem joint_step (hj : n.Joint) {l : ListenAction} (h : step order bytes n l = some n') : n'.Joint := by
  have hgame {a : Action} {game : GameServer} (hs : GameServer.step order n.game a = some game) :
      game.Traced ∧ (∀ c, .addClient c ∈ game.log ↔ a = .addClient c ∨ .addClient c ∈ n.io.calls) ∧
        ∀ c, .removeClient c ∈ game.log ↔ a = .removeClient c ∨ .removeClient c ∈ n.io.calls := by
    have hc := (GameServer.step_change hs).2
    exact ⟨hc.traced hj.traced, fun c => by rw [hc.added_iff, hj.added],
      fun c => by rw [hc.removed_iff, hj.removed]⟩
  cases step_change h with
  | @accept incoming next game io hnext hne hs hio =>
    obtain ⟨ht, hadd, hrem⟩ := hgame hs
    obtain ⟨io₁, hacc, hr⟩ := run_cons_some.mp hio
    obtain rfl := IoService.run_posts hr
    have hcalls : io₁.calls = .addClient n.nextClient :: n.io.calls := IoService.step_calls hacc
    refine ⟨(IoService.step_consistent hj.consistent hacc).run_posts hr, ht, fun c => ?_, fun c => ?_, ?_⟩
    · rw [hadd, IoService.post, hcalls]
      simp [eq_comm]
    · rw [hrem, IoService.post, hcalls]
      simp
    · refine ⟨hnext.1, ?_⟩
      simp only [IoService.post, hcalls, List.mem_cons, ServerCall.addClient.injEq, not_or]
      exact ⟨hne, hnext.2⟩
  | acceptError => exact ⟨hj.consistent, hj.traced, hj.added, hj.removed, hj.spare⟩
  | @alone a io ha hcall hio =>
    have hcalls : io.calls = n.io.calls := by rw [IoService.step_calls hio, hcall]; rfl
    exact ⟨IoService.step_consistent hj.consistent hio, hj.traced, fun c => by rw [hcalls, hj.added],
      fun c => by rw [hcalls, hj.removed], by rw [Fresh, hcalls]; exact hj.spare⟩
  | @calling a call game io ha hcall hs hio =>
    obtain ⟨ht, hadd, hrem⟩ := hgame hs
    have hcalls := calling_calls hcall hio
    obtain ⟨io₁, hr, hlast⟩ := run_snoc hio
    refine ⟨IoService.step_consistent (hj.consistent.run_posts hr) hlast, ht, fun c => ?_, fun c => ?_, ?_⟩
    · rw [hadd, hcalls, List.mem_cons, action_injective.1, eq_comm]
    · rw [hrem, hcalls, List.mem_cons, action_injective.2, eq_comm]
    · obtain ⟨self, cli, _, _, rfl | ⟨msg, rest, _, _, rfl⟩⟩ := IoService.serverCall_cases ha hcall
      · simpa [Fresh, hcalls] using hj.spare
      · simpa [Fresh, hcalls] using hj.spare
  | @game _ a game io hl hs hio =>
    obtain ⟨ht, hadd, hrem⟩ := hgame hs
    obtain ⟨hcalls, hcons⟩ := closed_frame ((n.game.callsUpTo game).filterMap Call.closed?) io
    have hposted : io.calls = n.io.calls := by rw [IoService.run_posts hio]; rfl
    rw [hposted] at hcalls
    have hquiet (c : ClientPtr) : a ≠ .addClient c ∧ a ≠ .removeClient c := by
      cases l <;> cases hl <;> simp
    refine ⟨hcons (hj.consistent.run_posts hio), ht, fun c => ?_, fun c => ?_, ?_⟩
    · rw [hadd, hcalls]
      simp [(hquiet c).1]
    · rw [hrem, hcalls]
      simp [(hquiet c).2]
    · rw [Fresh, hcalls]
      exact hj.spare
  | watcher => exact ⟨hj.consistent, hj.traced, hj.added, hj.removed, hj.spare⟩

theorem gone_step (hj : n.Joint) (hg : n.game.Gone) {l : ListenAction} (hok : n.SenderPresent l)
    (h : step order bytes n l = some n') : n'.game.Gone := by
  have hgame {a : Action} {game : GameServer} (hs : GameServer.step order n.game a = some game)
      (hok : n.game.SenderPresent a) : game.Gone := (GameServer.step_change hs).2.gone hj.traced hg hok
  cases step_change h with
  | accept hnext hne hs hio => exact hgame hs trivial
  | calling ha hcall hs hio => exact hgame hs (by cases ‹ServerCall› <;> trivial)
  | game hl hs hio => exact hgame hs (hok _ hl)
  | _ => exact hg

/-- The calls of a step of the server go to clients that are connected. -/
theorem targets_connected (hj : n.Joint) (hg : n.game.Gone) {a : Action} {game : GameServer}
    (hs : GameServer.step order n.game a = some game) (hok : n.game.SenderPresent a)
    (hadd : ∀ c, a ≠ .addClient c) : ∀ call ∈ n.game.callsUpTo game, ∀ c, call.target = some c →
      n.io.Connected c := by
  intro call hcall c htarget
  have hc := (GameServer.step_change hs).2
  obtain ⟨hin, hout⟩ := hc.target_present hj.traced (hc.gone hj.traced hg hok) hcall htarget
  have hin : .addClient c ∈ n.game.log := ((hc.added_iff c).mp hin).resolve_left (hadd c)
  have hout : .removeClient c ∉ n.game.log := fun hm => hout (hc.log_mono hm)
  exact ⟨(hj.added c).mpr hin, fun hm => hout ((hj.removed c).mp hm)⟩

theorem accepted_connected (hj : n.Joint) (hg : n.game.Gone) {game : GameServer} {incoming : List UInt8}
    (hs : GameServer.step order n.game (.addClient n.nextClient) = some game) :
    ∀ call ∈ n.game.callsUpTo game, ∀ c, call.target = some c →
      (n.io.spinup n.nextClient incoming).Connected c := by
  intro call hcall c htarget
  have hc := (GameServer.step_change hs).2
  obtain ⟨hin, hout⟩ := hc.target_present hj.traced (hc.gone hj.traced hg trivial) hcall htarget
  have hout : .removeClient c ∉ n.io.calls := fun hm => hout (hc.log_mono ((hj.removed c).mp hm))
  refine ⟨?_, by simpa [IoService.spinup] using hout⟩
  rcases (hc.added_iff c).mp hin with he | hin
  · cases he
    exact List.mem_cons_self
  · exact List.mem_cons_of_mem _ ((hj.added c).mpr hin)

theorem calling_enabled (order : PopOrder) (hj : n.Joint) (hf : n.game.fault = none) {a : IoAction} {call : ServerCall}
    (ha : isHandler a = true) (hcall : n.io.serverCall bytes a = some call) :
    (GameServer.step order n.game call.action).isSome := by
  obtain ⟨self, cli, hfind, _, rfl | ⟨msg, rest, _, hround, rfl⟩⟩ := IoService.serverCall_cases ha hcall
  · have hadd : .addClient self ∈ n.game.log := (hj.added self).mp (hj.consistent.added self cli hfind)
    simp [GameServer.step, hf, ServerCall.action, hadd]
  · have hadd : .addClient self ∈ n.game.log := (hj.added self).mp (hj.consistent.added self cli hfind)
    obtain ⟨hcreate, hsender⟩ := RemoteClient.round_next hround
    have hpush : n.game.Pushable msg := by
      cases msg with
      | shutdown sender => trivial
      | input sender state =>
        obtain rfl : sender = self := hsender
        exact hadd
      | loadPlayer sender template =>
        obtain rfl : sender = self := hsender
        exact hadd
      | bullet b => cases b <;> simp [ServerMsg.create, ServerMsg.type] at hcreate
    simp [GameServer.step, hf, ServerCall.action, hpush]

theorem serverCall_action {io : IoService} {a : IoAction} {call : ServerCall} (ha : isHandler a = true)
    (hcall : io.serverCall bytes a = some call) (c : ClientPtr) : call.action ≠ .addClient c := by
  obtain ⟨self, cli, _, _, rfl | ⟨msg, rest, _, _, rfl⟩⟩ := IoService.serverCall_cases ha hcall <;>
    simp [ServerCall.action]

/-- A call of the server in a step goes to a client that is connected after it. -/
theorem called_connected (hj : n.Joint) (hg : n.game.Gone) {l : ListenAction} (hok : n.SenderPresent l)
    (h : step order bytes n l = some n') : ∀ call ∈ n.game.callsUpTo n'.game, ∀ c, call.target = some c →
      n'.io.Connected c := by
  have hj' := joint_step hj h
  have hg' := gone_step hj hg hok h
  have hgame {a : Action} {game : GameServer} (hs : GameServer.step order n.game a = some game)
      (hgone : game.Gone) : ∀ call ∈ n.game.callsUpTo game, ∀ c, call.target = some c →
        .addClient c ∈ game.log ∧ .removeClient c ∉ game.log :=
    fun call hcall c htarget => (GameServer.step_change hs).2.target_present hj.traced hgone hcall htarget
  have hsame (he : n'.game = n.game) : ∀ call ∈ n.game.callsUpTo n'.game, ∀ c, call.target = some c →
      .addClient c ∈ n'.game.log ∧ .removeClient c ∉ n'.game.log := by
    simp [he, GameServer.callsUpTo]
  have htarget : ∀ call ∈ n.game.callsUpTo n'.game, ∀ c, call.target = some c →
      .addClient c ∈ n'.game.log ∧ .removeClient c ∉ n'.game.log := by
    cases step_change h with
    | accept _ _ hs _ => exact hgame hs hg'
    | calling _ _ hs _ => exact hgame hs hg'
    | game _ hs _ => exact hgame hs hg'
    | acceptError => exact hsame rfl
    | alone _ _ _ => exact hsame rfl
    | watcher => exact hsame rfl
  intro call hcall c hc
  obtain ⟨hin, hout⟩ := htarget call hcall c hc
  exact ⟨(hj'.added c).mpr hin, fun hm => hout ((hj'.removed c).mp hm)⟩

theorem Joint.served (hj : n.Joint) (hg : n.game.Gone) (hf : n.game.fault = none) (hn : n.io.escaped = none) :
    Served order bytes n where
  handler hstop a ha hs := by
    cases hcall : n.io.serverCall bytes a with
    | none =>
      obtain ⟨io, hio⟩ := Option.isSome_iff_exists.mp hs
      refine ⟨{ n with io }, by simp [step, hstop, ha, runHandler, hcall, hio], ?_⟩
      simp [hf, LeavesInTime, hcall]
    | some call =>
      obtain ⟨game, hgame⟩ := Option.isSome_iff_exists.mp (calling_enabled order hj hf ha hcall)
      have hposts := IoService.posts_run bytes n.io hn
        (targets_connected hj hg hgame (by cases call <;> trivial) (serverCall_action ha hcall))
      obtain ⟨io, hio⟩ := Option.isSome_iff_exists.mp
        (IoService.step_post_isSome (n.game.callsUpTo game) hs ha)
      have hrun : run (IoService.step bytes) n.io ((n.game.callsUpTo game).filterMap Call.post? ++ [a]) = some io := by
        rw [run_append, hposts]
        simp [run_cons, hio]
      refine ⟨{ n with game, io }, by simp [step, hstop, ha, runHandler, hcall, hgame, hrun], ?_⟩
      simpa [LeavesInTime, hcall] using GameServer.call_fault_iff hgame
  accept hstop hacc incoming next hnext hne := by
    have hnew : .addClient n.nextClient ∉ n.game.log := fun hm => hj.spare.2 ((hj.added _).mpr hm)
    obtain ⟨game, hgame⟩ : ∃ game, GameServer.step order n.game (.addClient n.nextClient) = some game := by
      simp [GameServer.step, hf, hj.spare.1, hnew]
    have hspin : IoService.step bytes n.io (.accept n.nextClient incoming) = some (n.io.spinup n.nextClient incoming) :=
      IoService.step_accept.mpr ⟨hn, hj.spare.1, hj.spare.2, rfl⟩
    have hposts := IoService.posts_run bytes (n.io.spinup n.nextClient incoming) hn
      (accepted_connected hj hg hgame)
    refine ⟨{ n with game, io := (n.io.spinup n.nextClient incoming).post (n.game.callsUpTo game), nextClient := next },
      ?_, ?_⟩
    · simp [step, hstop, hacc, hnext, hne, ListenServer.accept, hgame, run_cons, hspin, hposts]
    · exact (@GameServer.call_fault_iff _ _ _ (.addClient n.nextClient) hgame).mpr trivial
  thread l a hl hok hs := by
    obtain ⟨game, hgame⟩ := Option.isSome_iff_exists.mp hs
    have hposts := IoService.posts_run bytes n.io hn
      (targets_connected hj hg hgame hok (by cases l <;> cases hl <;> simp))
    cases l <;> cases hl <;> simp [step, runGame, hgame, hposts]
  called l n' hok h call hcall c htarget := by
    have hconn := called_connected hj hg hok h call hcall c htarget
    exact ⟨hconn, (joint_step hj h).consistent.connected c hconn⟩

theorem joint_init (playerSpawn : Mat4) (world : List WorldEntry) {nextClient : ClientPtr} (h : nextClient ≠ 0) :
    (init playerSpawn world nextClient).Joint where
  consistent := IoService.consistent_init
  traced := GameServer.traced_init playerSpawn world
  added := by simp [init, QntSrv.init, GameServer.init, IoService.init]
  removed := by simp [init, QntSrv.init, GameServer.init, IoService.init]
  spare := ⟨h, by simp [init, IoService.init]⟩

/-- As long as no message of a removed client is taken up, the io loop and the
game server keep each other's contracts: whatever a handler is ready to do the
server lets it do without a fault, unless it removes a player after
`delete m_physics`, and the server calls only clients whose objects live. -/
theorem contracts_kept (order : PopOrder) (bytes : ByteOrder) (playerSpawn : Mat4) (world : List WorldEntry)
    {nextClient : ClientPtr} (hnext : nextClient ≠ 0) {as : List ListenAction}
    (h : Guarded (step order bytes) SenderPresent (init playerSpawn world nextClient) as) :
    Along (step order bytes) (fun n => n.game.fault = none → n.io.escaped = none → Served order bytes n)
      (init playerSpawn world nextClient) as := by
  have hgone : (init playerSpawn world nextClient).game.Gone :=
    ⟨by simp [init, QntSrv.init, GameServer.init], by simp [init, QntSrv.init, GameServer.init]⟩
  refine (h.along (fun n => n.Joint ∧ n.game.Gone) ?_ ⟨joint_init playerSpawn world hnext, hgone⟩).mono
    (fun _ hn => hn.1.served hn.2)
  rintro n l n' ⟨hj, hg⟩ hok hs
  exact ⟨joint_step hj hs, gone_step hj hg hok hs⟩

/-- A client loads its player and hangs up. -/
theorem contracts_kept_one_client : Along (step .lifo .little)
    (fun n => n.game.fault = none → n.io.escaped = none → Served .lifo .little n) (init zeroMat [] 1)
    [.server, .handleAccept [2, 0, 0, 0, 1, 0, 0, 0, 80] 2, .handler (.completeRead 1), .server, .server,
      .physics [], .physics [], .physics [], .handler (.runPosted none), .handler (.completeRead 1),
      .handler (.runPosted none)] :=
  contracts_kept .lifo .little zeroMat [] (by decide) (by decide)

end ListenServer

end Quintses
