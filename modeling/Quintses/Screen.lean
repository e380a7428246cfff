import Quintses.Announce
import Quintses.Keyboard

/-! From the server to the screen, in the locked-queue build of the program. -/

namespace Quintses

open Lts

def ServerPc.mob? : ServerPc → Option BaddieData
  | .pushBack b _ => some b
  | _ => none

namespace GameServer

variable {s : GameServer} {c : ClientPtr} {id : UInt32} {sent : List UInt16}

theorem mem_hear {view : Option (Option Mat4)} {ids : List UInt32} (msg : ClientMsg) (h : view ≠ none ↔ id ∈ ids) :
    SceneOp.run view (msg.sceneOp id).toList ≠ none ↔ id ∈ hear c (.pushMessage c msg) ids := by
  cases msg with
  | addDrawable msg =>
    by_cases hid : msg.objid = id
    · cases view <;> simp [ClientMsg.sceneOp, hear, hid, SceneOp.run, SceneOp.apply]
    · simpa [ClientMsg.sceneOp, hear, hid, Ne.symm hid, SceneOp.run] using h
  | transDrawable msg =>
    by_cases hid : msg.objid = id
    · cases view <;> simpa [ClientMsg.sceneOp, hear, hid, SceneOp.run, SceneOp.apply] using h
    · simpa [ClientMsg.sceneOp, hear, hid, SceneOp.run] using h
  | delDrawable msg =>
    by_cases hid : msg.objid = id
    · simp [ClientMsg.sceneOp, hear, hid, SceneOp.run, SceneOp.apply]
    · simpa [ClientMsg.sceneOp, hear, hid, Ne.symm hid, SceneOp.run] using h
  | _ => simpa [ClientMsg.sceneOp, hear, SceneOp.run] using h

/-- A client that handles its messages in order draws what it has been told of. -/
theorem view_pushedTo : (GlRender.after (s.pushedTo c)).view id ≠ none ↔ id ∈ told c s.log := by
  have hlog (log : List Event) :
      (GlRender.after ((log.filterMap Event.call?).reverse.filterMap (Call.to? c))).view id ≠ none ↔
        id ∈ told c log := by
    induction log with
    | nil => exact iff_of_false (fun h => h rfl) List.not_mem_nil
    | cons e log ih =>
      cases e with
      | call call =>
        have hcons : (Event.call call :: log).filterMap Event.call? = call :: log.filterMap Event.call? := rfl
        rw [hcons, List.reverse_cons, List.filterMap_append, told]
        by_cases htarget : ∃ msg, call = .pushMessage c msg
        · obtain ⟨msg, rfl⟩ := htarget
          have hto : [Call.pushMessage c msg].filterMap (Call.to? c) = [msg] := by simp [Call.to?]
          rw [hto, GlRender.view_after_append]
          exact mem_hear msg ih
        · have hto : [call].filterMap (Call.to? c) = [] ∧ hear c call (told c log) = told c log := by
            cases call with
            | pushMessage d msg =>
              have hd : d ≠ c := fun he => htarget ⟨msg, he ▸ rfl⟩
              exact ⟨by simp [Call.to?, hd], hear_of_target_ne (by simp [Call.target, hd]) _⟩
            | _ => exact ⟨rfl, rfl⟩
          rw [hto.1, hto.2, List.append_nil, ih]
      | _ => exact ih
  exact hlog s.log

theorem Unasked.first (h : s.Unasked c) {template : ByteString} : .loadPlayer c template ∉ s.serverPending :=
  fun hm => (h.server _ hm).load template rfl

theorem Steered.first (h : s.Steered c sent) {template : ByteString}
    (hm : .loadPlayer c template ∈ s.serverPending) : s.server.clients.find? c = none := by
  cases h with
  | asked hfind => exact hfind
  | loaded hfind hid hserver => exact absurd hm (hserver template)
  | playing howns hserver => exact absurd hm (hserver template)

theorem not_mem_of_inputs {msgs : List ServerMsg} (h : inputs c msgs = []) (state : UInt16) :
    .input c state ∉ msgs := by
  intro hm
  have hnone := List.filterMap_eq_nil_iff.mp h _ hm
  simp [ServerMsg.inputOf] at hnone

theorem Steered.looksUp (h : s.Steered c sent) {state : UInt16} (hm : .input c state ∈ s.physicsPending) :
    s.server.clients.find? c ≠ none := by
  cases h with
  | asked hfind hserver hpre hpost hphysics => exact absurd hm (not_mem_of_inputs hphysics state)
  | loaded hfind => simp [hfind]
  | playing howns => simp [howns.find]

end GameServer

namespace LocalGame

variable {setup : Setup} {n n' : LocalGame} {l : LocalAction}

/-- A mob becomes known only while there is no client. -/
def WorldFirst (n : LocalGame) : LocalAction → Prop
  | .server => n.game.serverPc.mob?.isSome → n.pc = .adding
  | .main _ | .physics _ => True

instance (n : LocalGame) (l : LocalAction) : Decidable (WorldFirst n l) :=
  match l with
  | .server => inferInstanceAs (Decidable (n.game.serverPc.mob?.isSome → n.pc = .adding))
  | .main _ | .physics _ => inferInstanceAs (Decidable True)

/-- Whenever no message waits, the renderer has the characters of the server
and no others, each where the server has last placed it. -/
def ShowsWorld (setup : Setup) (n : LocalGame) : Prop :=
  n.pc ≠ .adding → n.client.msgQueue = [] → ∀ id,
    (n.client.renderer.view id ≠ none ↔
      (∃ d, n.game.server.clients.find? d = some id) ∨ id ∈ n.game.server.baddies.map BaddieData.id) ∧
    ∀ t, n.client.renderer.view id = some (some t) ↔ MovedLast id t (n.game.pushedTo setup.self)

structure Synced (setup : Setup) (n : LocalGame) : Prop where
  driven : ∃ events, n.Driven setup events
  traced : n.game.Traced
  informed : n.game.Informed
  alone : ∀ c, .addClient c ∈ n.game.log → c = setup.self
  stays : ∀ c, .removeClient c ∉ n.game.log
  handled : ∃ handled, n.game.pushedTo setup.self = handled ++ n.client.msgQueue ∧
    n.client.renderer = GlRender.after handled

theorem synced_init (setup : Setup) (playerSpawn : Mat4) (world : List WorldEntry) :
    (init playerSpawn world).Synced setup where
  driven := ⟨[], driven_init setup playerSpawn world⟩
  traced := GameServer.traced_init playerSpawn world
  informed := GameServer.informed_init playerSpawn world
  alone c h := by cases h
  stays c h := by cases h
  handled := ⟨[], rfl, rfl⟩

theorem Synced.showsWorld (hs : n.Synced setup) : n.ShowsWorld setup := by
  intro hadding hempty id
  obtain ⟨events, hd⟩ := hs.driven
  obtain ⟨handled, hpushed, hrenderer⟩ := hs.handled
  rw [hempty, List.append_nil] at hpushed
  rw [hrenderer, ← hpushed]
  refine ⟨?_, (GlRender.view_after id _).2⟩
  rw [GameServer.view_pushedTo]
  exact hs.informed.told setup.self ⟨hd.added hadding, hs.stays setup.self⟩ id

theorem Synced.unentered (hs : n.Synced setup) {template : ByteString}
    (hm : .loadPlayer setup.self template ∈ n.game.serverPending) :
    n.game.server.clients.find? setup.self = none := by
  obtain ⟨events, hd⟩ := hs.driven
  by_cases hearly : n.pc = .adding ∨ n.pc = .loading
  · exact (hd.unasked hearly).1.find
  · obtain ⟨hadd, hload⟩ := not_or.mp hearly
    exact (hd.steered hadd hload).first hm

theorem Synced.entered (hs : n.Synced setup) {state : UInt16}
    (hm : .input setup.self state ∈ n.game.physicsPending) :
    n.game.server.clients.find? setup.self ≠ none := by
  obtain ⟨events, hd⟩ := hs.driven
  by_cases hearly : n.pc = .adding ∨ n.pc = .loading
  · exact absurd hm (GameServer.not_mem_of_inputs (hd.unasked hearly).1.physics state)
  · obtain ⟨hadd, hload⟩ := not_or.mp hearly
    exact (hd.steered hadd hload).looksUp hm

/-- With one client, everything new reaches everybody. -/
theorem Synced.allHear (hs : n.Synced setup) {a : Action} (hact : n.act? setup l = some a) (hworld : n.WorldFirst l) :
    n.game.AllHear a := by
  obtain ⟨events, hd⟩ := hs.driven
  rcases act?_cases hact with ⟨rfl, rfl⟩ | ⟨mats, rfl, rfl⟩ | ⟨_, ⟨rfl, _⟩ | ⟨_, _, rfl, _⟩⟩
  · show n.game.HeardByAll n.game.serverPc
    cases hpc : n.game.serverPc with
    | pushBack b todo =>
      intro c hc
      have hadding : n.pc = .adding := hworld (by rw [hpc]; rfl)
      exact hd.unadded hadding (hs.alone c hc.1 ▸ hc.1)
    | handling msg =>
      cases msg with
      | loadPlayer d template =>
        have hmem : .loadPlayer d template ∈ n.game.serverPending := by
          simp [GameServer.serverPending, hpc, ServerPc.hand]
        obtain rfl : d = setup.self := hs.alone d (hs.traced.serverPending _ hmem)
        have hnone := hs.unentered hmem
        exact fun c hc => ⟨fun _ => hnone, fun _ => Or.inl (hs.alone c hc.1)⟩
      | _ => trivial
    | _ => trivial
  · show n.game.LooksUp n.game.physicsPc
    cases hpc : n.game.physicsPc with
    | parsing msg =>
      cases msg with
      | input d state =>
        have hmem : .input d state ∈ n.game.physicsPending := by
          simp [GameServer.physicsPending, hpc, PhysicsPc.hand]
        obtain rfl : d = setup.self := hs.alone d (hs.traced.physicsPending _ hmem)
        exact hs.entered hmem
      | _ => trivial
    | _ => trivial
  · trivial
  · trivial

theorem foldl_pushMessage_fifo (msgs : List ClientMsg) (client : LocalClient) :
    (msgs.foldl (LocalClient.pushMessage .fifo) client).msgQueue = client.msgQueue ++ msgs ∧
      (msgs.foldl (LocalClient.pushMessage .fifo) client).renderer = client.renderer := by
  induction msgs generalizing client with
  | nil => exact ⟨(List.append_nil _).symm, rfl⟩
  | cons msg msgs ih =>
    obtain ⟨hqueue, hrenderer⟩ := ih (client.pushMessage .fifo msg)
    rw [List.foldl_cons, hqueue, hrenderer]
    exact ⟨by simp [LocalClient.pushMessage, PopOrder.add], rfl⟩

theorem handle_renderer (client : LocalClient) (msg : ClientMsg) :
    (client.handle msg).renderer = client.renderer.pushMessage msg := by
  cases msg <;> rfl

theorem step_synced (hs : n.Synced setup) (hfresh : n.IdsFresh l) (hworld : n.WorldFirst l)
    (h : step .fifo setup n l = some n') : n'.Synced setup := by
  obtain ⟨events, hd⟩ := hs.driven
  have hd' : ∃ events, n'.Driven setup events := ⟨_, step_driven hd hfresh h⟩
  cases step_change h with
  | @played l a game hact hgame =>
    obtain ⟨hf, hc⟩ := GameServer.step_change hgame
    have hok := hs.allHear hact hworld
    have hnew := idsFresh_act hact hfresh
    refine ⟨hd', hc.traced hs.traced, ⟨GameServer.told_step hs.traced hd.orderly.ids hs.informed hok hgame,
      hc.nonzero hs.informed hnew hok,
      fun c => GameServer.known_of_connected_step hgame (hs.informed.known c)⟩, fun c hadd => ?_, fun c hrem => ?_, ?_⟩
    · rcases (hc.added_iff c).mp hadd with rfl | hold
      · rcases act?_cases hact with ⟨he, _⟩ | ⟨_, he, _⟩ | ⟨_, ⟨he, _⟩ | ⟨_, _, he, _⟩⟩ <;> cases he
        rfl
      · exact hs.alone c hold
    · rcases (hc.removed_iff c).mp hrem with he | hold
      · exact act?_stays hact c he
      · exact hs.stays c hold
    · obtain ⟨handled, hpushed, hrenderer⟩ := hs.handled
      have hqueue := foldl_pushMessage_fifo
        ((n.game.callsUpTo game).filterMap (Call.to? setup.self)) n.client
      refine ⟨handled, ?_, hqueue.2.trans hrenderer⟩
      have hall := hc.pushedTo (c := setup.self)
      rw [hpushed, List.append_assoc, ← hqueue.1] at hall
      exact hall
  | @tryPop batch msg rest hpc hq =>
    refine ⟨hd', hs.traced, hs.informed, hs.alone, hs.stays, ?_⟩
    obtain ⟨handled, hpushed, hrenderer⟩ := hs.handled
    refine ⟨handled ++ [msg], ?_, ?_⟩
    · rw [hpushed, hq, LocalClient.handle_msgQueue]
      simp
    · rw [handle_renderer, hrenderer, GlRender.after, GlRender.after, List.foldl_append]
      rfl
  | alone hact hne hdrained hstopped => exact ⟨hd', hs.traced, hs.informed, hs.alone, hs.stays, hs.handled⟩

/-- In every run of the program that knows the world before the client is
there: whenever the client has handled its messages, it shows the world. -/
theorem shows_the_world (setup : Setup) (playerSpawn : Mat4) (world : List WorldEntry) {as : List LocalAction}
    (h : Guarded (step .fifo setup) (fun n l => n.IdsFresh l ∧ n.WorldFirst l) (init playerSpawn world) as) :
    Along (step .fifo setup) (ShowsWorld setup) (init playerSpawn world) as := by
  have hall : Along (step .fifo setup) (Synced setup) (init playerSpawn world) as :=
    h.along (Synced setup) (fun n l n' hs hok hstep => step_synced hs hok.1 hok.2 hstep)
      (synced_init setup playerSpawn world)
  exact hall.mono (fun n hs => hs.showsWorld)

def firstFrame : List LocalAction := [.server, .server, .server, .main [], .main [], .server, .server,
  .physics [], .physics [], .physics [], .physics [], .physics [], .physics [zeroMat, zeroMat], .physics [],
  .physics [], .main [], .main [], .main [], .main [], .main [], .main [], .main []]

theorem shows_the_world_first_frame : ∃ n,
    run (step .fifo ⟨1, ⟨1, 2⟩⟩) (init zeroMat [.mob [77] zeroMat]) firstFrame = some n ∧
      (n.pc = .drawing ∧ n.client.msgQueue = [] ∧ n.client.renderer.view 1 = some (some zeroMat) ∧
        n.client.renderer.view 2 = some (some zeroMat)) ∧ n.ShowsWorld ⟨1, ⟨1, 2⟩⟩ := by
  have hrun : (run (step .fifo ⟨1, ⟨1, 2⟩⟩) (init zeroMat [.mob [77] zeroMat]) firstFrame).map (fun n =>
      (n.pc, n.client.msgQueue.isEmpty, [1, 2].all (n.client.renderer.view · = some (some zeroMat)))) =
        some (.drawing, true, true) := by decide
  obtain ⟨n, hn, he⟩ := Option.map_eq_some_iff.mp hrun
  refine ⟨n, hn, by simpa using he, ?_⟩
  exact (shows_the_world ⟨1, ⟨1, 2⟩⟩ zeroMat [.mob [77] zeroMat] (by decide)).last hn

end LocalGame

end Quintses
