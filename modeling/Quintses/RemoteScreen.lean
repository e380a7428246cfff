import Quintses.RemoteGame
import Quintses.Screen
import Quintses.ShutdownEnds

/-! From the game server in `qntsrv` to the screen of a `qntcli` that is
connected to it. -/

namespace Quintses

open Lts

namespace RemoteGame

variable {order : PopOrder} {bytes : ByteOrder} {setup : LocalGame.Setup} {n n' : RemoteGame} {a : RemoteAction}
  {down : List ClientMsg} {stream : List UInt8}

/-- What a step does with the messages for the client. -/
inductive Shift (order : PopOrder) (bytes : ByteOrder) (n n' : RemoteGame) : Prop
  | still (hclient : n'.client = n.client) (hincoming : n'.incoming = n.incoming)
  | handled {msg : ClientMsg} {rest : List ClientMsg} (hq : n.client.msgQueue = msg :: rest)
    (hclient : n'.client = { n.client with msgQueue := rest }.handle msg) (hincoming : n'.incoming = n.incoming)
  | read {msg : ClientMsg} (hround : RemoteServer.round bytes n.incoming = .next msg n'.incoming)
    (hclient : n'.client = n.client.pushMessage order msg)

theorem served_shift (order : PopOrder) (bytes : ByteOrder) (n : RemoteGame) (handler : RemoteHandler) :
    Shift order bytes n (n.served order bytes handler) := by
  unfold served
  split
  case h_1 =>
    split
    case isTrue => exact .still rfl rfl
    case isFalse =>
      cases handler with
      | writeMsg failsAfter =>
        simp only
        split <;> exact .still rfl rfl
      | readMsg =>
        simp only
        split
        case h_1 msg rest hround => exact .read hround rfl
        case h_2 => exact .still rfl rfl
        case h_3 => exact .still rfl rfl
  case h_2 => exact .still rfl rfl
  case h_3 => exact .still rfl rfl

theorem step_shift (h : step order bytes setup n a = some n') : Shift order bytes n n' := by
  cases step_change h with
  | tryPop hpc hq => exact .handled hq rfl rfl
  | @service handler server hs =>
    cases served_shift order bytes n handler with
    | still hclient hincoming => exact .still hclient hincoming
    | handled hq hclient hincoming => exact .handled hq hclient hincoming
    | read hround hclient => exact .read hround hclient
  | _ => exact .still rfl rfl

/-- Of these messages the client has handled the first; the next wait in its
queue, and the rest has not been read. -/
def Shown (bytes : ByteOrder) (down : List ClientMsg) (stream : List UInt8) (n : RemoteGame) : Prop :=
  ∃ handled later, down = handled ++ n.client.msgQueue ++ later ∧ n.client.renderer = GlRender.after handled ∧
    stream = (handled ++ n.client.msgQueue).flatMap (RemoteClient.writeMsg bytes) ++ n.incoming

theorem shown_init (running : Bool) : (init running stream).Shown bytes down stream :=
  ⟨[], down, rfl, rfl, rfl⟩

theorem step_shown (hround : ∀ msg ∈ down, ∀ rest,
      RemoteServer.round bytes (RemoteClient.writeMsg bytes msg ++ rest) = .next msg rest)
    (hstream : stream <+: down.flatMap (RemoteClient.writeMsg bytes)) (h : n.Shown bytes down stream)
    (hs : step .fifo bytes setup n a = some n') : n'.Shown bytes down stream := by
  obtain ⟨handled, later, hdown, hrenderer, hread⟩ := h
  cases step_shift hs with
  | still hclient hincoming => exact ⟨handled, later, by rw [hclient, hdown], by rw [hclient, hrenderer],
      by rw [hclient, hincoming, hread]⟩
  | @handled msg rest hq hclient hincoming =>
    have hqueue : n'.client.msgQueue = rest := by rw [hclient, LocalClient.handle_msgQueue]
    have hall : handled ++ n.client.msgQueue = (handled ++ [msg]) ++ n'.client.msgQueue := by simp [hq, hqueue]
    refine ⟨handled ++ [msg], later, by rw [← hall, hdown], ?_, by rw [← hall, hincoming, hread]⟩
    rw [hclient, LocalGame.handle_renderer, hrenderer, GlRender.after, GlRender.after, List.foldl_append]
    rfl
  | @read msg hnext hclient =>
    have hall : down.flatMap (RemoteClient.writeMsg bytes) =
        (handled ++ n.client.msgQueue).flatMap (RemoteClient.writeMsg bytes) ++
          later.flatMap (RemoteClient.writeMsg bytes) := by rw [hdown, List.flatMap_append]
    have hrest : n.incoming <+: later.flatMap (RemoteClient.writeMsg bytes) := by
      rw [hall, hread] at hstream
      exact (List.prefix_append_right_inj _).mp hstream
    obtain ⟨_, later, rfl, rfl, hsplit, -⟩ := Frames.next_of_prefix (typedRound_local (ClientMsg.reads_received bytes))
      (fun m hm rest => hround m (hdown ▸ List.mem_append_right _ hm) rest) hrest hnext
    have hqueue : n'.client.msgQueue = n.client.msgQueue ++ [msg] := by rw [hclient]; rfl
    refine ⟨handled, later, by simp [hdown, hqueue], by rw [hclient]; exact hrenderer, ?_⟩
    rw [hread, hqueue, hsplit]
    simp

end RemoteGame

namespace ListenServer

variable {order : PopOrder} {bytes : ByteOrder} {n n' : ListenServer} {l : ListenAction} {c : ClientPtr}

/-- What the threads of the server make known reaches all connected clients. -/
def AllHear (n : ListenServer) (l : ListenAction) : Prop := ∀ a ∈ l.game?, n.game.AllHear a

/-- A new id is neither zero nor one that is in use. -/
def IdsFresh (n : ListenServer) (l : ListenAction) : Prop := ∀ a ∈ l.game?, n.game.IdsFresh a

instance (n : ListenServer) (l : ListenAction) : Decidable (n.AllHear l) := Option.decidableForallMem l.game?

instance (n : ListenServer) (l : ListenAction) : Decidable (n.IdsFresh l) := Option.decidableForallMem l.game?

theorem step_game (h : step order bytes n l = some n') : n'.game = n.game ∨
    ∃ a, GameServer.step order n.game a = some n'.game ∧ (a.ofThreads = true → l.game? = some a) := by
  cases step_change h with
  | accept hnext hne hgame hio => exact Or.inr ⟨_, hgame, fun ha => (by cases ha)⟩
  | @calling a call game io ha hcall hgame hio =>
    refine Or.inr ⟨_, hgame, fun ha => ?_⟩
    cases call <;> cases ha
  | game hl hgame hio => exact Or.inr ⟨_, hgame, fun _ => hl⟩
  | _ => exact Or.inl rfl

theorem IdsFresh.act (h : n.IdsFresh l) {a : Action} (ha : a.ofThreads = true → l.game? = some a) : n.game.IdsFresh a := by
  cases a with
  | server => exact h _ (ha rfl)
  | _ => trivial

theorem AllHear.act (h : n.AllHear l) {a : Action} (ha : a.ofThreads = true → l.game? = some a) : n.game.AllHear a := by
  cases a with
  | server => exact h _ (ha rfl)
  | physics mats => exact h _ (ha rfl)
  | _ => trivial

structure Aware (n : ListenServer) : Prop where
  traced : n.game.Traced
  ownIds : n.game.OwnIds
  informed : n.game.Informed

theorem aware_init (playerSpawn : Mat4) (world : List WorldEntry) (nextClient : ClientPtr) :
    (init playerSpawn world nextClient).Aware where
  traced := GameServer.traced_init playerSpawn world
  ownIds := GameServer.ownIds_init playerSpawn world
  informed := GameServer.informed_init playerSpawn world

theorem aware_step (h : n.Aware) (hfresh : n.IdsFresh l) (hhear : n.AllHear l)
    (hs : step order bytes n l = some n') : n'.Aware := by
  rcases step_game hs with he | ⟨a, hgame, ha⟩
  · exact ⟨he ▸ h.traced, he ▸ h.ownIds, he ▸ h.informed⟩
  · have hc := (GameServer.step_change hgame).2
    have hnew := hfresh.act ha
    have hall := hhear.act ha
    exact ⟨hc.traced h.traced, hc.ownIds h.ownIds hnew, GameServer.told_step h.traced h.ownIds h.informed hall hgame,
      hc.nonzero h.informed hnew hall, fun c => GameServer.known_of_connected_step hgame (h.informed.known c)⟩

end ListenServer

theorem RemoteClient.writeMsg_ne_nil (bytes : ByteOrder) (msg : ClientMsg) : writeMsg bytes msg ≠ [] := by
  have hlen := length_typeWord bytes msg.type
  intro he
  rw [(List.append_eq_nil_iff.mp he).1] at hlen
  cases hlen

namespace RemoteGame

/-- The renderer has the characters of the server and no others, each where the
server has last placed it. -/
def ShowsWorld (server : ListenServer) (c : ClientPtr) (n : RemoteGame) : Prop :=
  ∀ id, (n.client.renderer.view id ≠ none ↔
      (∃ d, server.game.server.clients.find? d = some id) ∨ id ∈ server.game.server.baddies.map BaddieData.id) ∧
    ∀ t, n.client.renderer.view id = some (some t) ↔ MovedLast id t (server.game.pushedTo c)

/-- In every run of `qntsrv` in which no write to the client fails, and every
run of a `qntcli` to which the first of these bytes arrive: the client shows the
first of the messages that were pushed to it, and once all have arrived and are
handled it shows the world, if everything new reaches all clients. -/
theorem remote_shows_the_world (order : PopOrder) (bytes : ByteOrder) (setup : LocalGame.Setup) (running : Bool)
    (playerSpawn : Mat4) {world : List WorldEntry} {nextClient c : ClientPtr} {as : List ListenAction}
    {server : ListenServer} {cli : RemoteClient} {stream : List UInt8} {bs : List RemoteAction} {n : RemoteGame}
    (hnext : nextClient ≠ 0) (hworld : ∀ templ mat, .mob templ mat ∈ world → Deliverable templ)
    (htake : Guarded (ListenServer.step order bytes) (ListenServer.WritesTake c)
      (ListenServer.init playerSpawn world nextClient) as)
    (hserver : run (ListenServer.step order bytes) (ListenServer.init playerSpawn world nextClient) as = some server)
    (hf : server.io.clients.find? c = some cli) (hstream : stream <+: cli.sent)
    (hclient : run (step .fifo bytes setup) (init running stream) bs = some n) :
    ∃ handled later, server.game.pushedTo c = handled ++ n.client.msgQueue ++ later ∧
      n.client.renderer = GlRender.after handled ∧
      (stream = cli.sent → n.incoming = [] → later = server.io.waitingFor c ∧
        (Guarded (ListenServer.step order bytes) (fun server l => server.IdsFresh l ∧ server.AllHear l)
            (ListenServer.init playerSpawn world nextClient) as →
          server.game.Connected c → later = [] → n.client.msgQueue = [] → n.ShowsWorld server c)) := by
  have hfeeds : server.Feeds bytes c := htake.invariant _ (fun _ _ _ h hok hs => ListenServer.feeds_step h hok hs)
    (ListenServer.feeds_init playerSpawn hnext hworld) hserver
  have hsent := hfeeds.sends.prefix hf
  have hwhole := hstream.trans hsent
  obtain ⟨handled, later, hpushed, hrenderer, hread⟩ : n.Shown bytes (server.game.pushedTo c) stream :=
    (along_of_step _ (fun _ _ _ h hs => step_shown (fun _ hm => ListenServer.round_pushed hfeeds.strings hm) hwhole h hs)
      (shown_init running) bs).last hclient
  refine ⟨handled, later, hpushed, hrenderer, fun hall hempty => ⟨?_, fun hhear hcon hlater hqueue id => ?_⟩⟩
  · obtain ⟨written, hsplit, hsent⟩ := hfeeds.sends cli hf
    refine Frames.cut_eq (RemoteClient.writeMsg_ne_nil bytes) (hpushed.symm.trans hsplit) ?_
    rw [← hsent, ← hall, hread, hempty, List.append_nil]
  · have haware : server.Aware := hhear.invariant _
      (fun _ _ _ h hok hs => ListenServer.aware_step h hok.1 hok.2 hs)
      (ListenServer.aware_init playerSpawn world nextClient) hserver
    rw [hlater, hqueue, List.append_nil, List.append_nil] at hpushed
    rw [hrenderer, ← hpushed]
    exact ⟨GameServer.view_pushedTo.trans (haware.informed.told c hcon id), (GlRender.view_after id _).2⟩

/-- The client starts, asks for its player, reads what it is told and handles it. -/
def firstFrame : List RemoteAction := [.main [], .main []] ++ List.replicate 4 (.service .readMsg) ++
  List.replicate 5 (.main []) ++ [.service .readMsg, .main [], .main [], .main []]

theorem remote_shows_the_world_one_load : ∃ server cli n,
    run (ListenServer.step .lifo .little) (ListenServer.init zeroMat [] 1)
      (ListenServer.oneLoad ++ [.handler (.runPosted none)]) = some server ∧
    server.io.clients.find? 1 = some cli ∧
    run (step .fifo .little ⟨1, ⟨1, 2⟩⟩) (init true cli.sent) firstFrame = some n ∧
    n.client.renderer.view 1 = some none ∧ n.ShowsWorld server 1 := by
  have hserver : (run (ListenServer.step .lifo .little) (ListenServer.init zeroMat [] 1)
      (ListenServer.oneLoad ++ [.handler (.runPosted none)])).map (fun server =>
        ((server.io.clients.find? 1).map RemoteClient.sent, (server.io.waitingFor 1).isEmpty,
          decide (server.game.Connected 1))) =
        some (some [0, 0, 0, 0, 1, 0, 0, 0, 1, 0, 0, 0, 80], true, true) := by decide
  have hclient : (run (step .fifo .little ⟨1, ⟨1, 2⟩⟩)
      (init true [0, 0, 0, 0, 1, 0, 0, 0, 1, 0, 0, 0, 80]) firstFrame).map (fun n =>
        (n.incoming, n.client.msgQueue.isEmpty, n.client.renderer.view 1)) = some ([], true, some none) := by decide
  obtain ⟨server, hs, he⟩ := Option.map_eq_some_iff.mp hserver
  obtain ⟨n, hn, hread⟩ := Option.map_eq_some_iff.mp hclient
  simp only [Prod.mk.injEq, decide_eq_true_eq, List.isEmpty_iff] at he hread
  obtain ⟨hsent, hwaiting, hcon⟩ := he
  obtain ⟨hincoming, hqueue, hview⟩ := hread
  obtain ⟨cli, hf, hbytes⟩ := Option.map_eq_some_iff.mp hsent
  rw [← hbytes] at hn
  refine ⟨server, cli, n, hs, hf, hn, hview, ?_⟩
  obtain ⟨handled, later, -, -, hall⟩ := remote_shows_the_world .lifo .little ⟨1, ⟨1, 2⟩⟩ true zeroMat (by decide)
    (by simp) (by decide) hs hf (List.prefix_refl _) hn
  obtain ⟨hlater, hshows⟩ := hall rfl hincoming
  exact hshows (by decide) hcon (hlater.trans hwaiting) hqueue

end RemoteGame

end Quintses
