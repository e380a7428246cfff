import Quintses.FifoFlow
import Quintses.LocalGame

/-! From the keyboard to the character, in the locked-queue build of the
program. -/

namespace Quintses

open Lts Stages

/-- The message is neither an input of the client nor its request for a character. -/
structure ServerMsg.Silent (c : ClientPtr) (msg : ServerMsg) : Prop where
  input : msg.inputOf c = none
  load : ∀ template, msg ≠ .loadPlayer c template

namespace GameServer

variable {s s' : GameServer} {a : Action} {c : ClientPtr} {id : UInt32} {sent : List UInt16} {msg : ServerMsg}

structure Unasked (s : GameServer) (c : ClientPtr) : Prop where
  find : s.server.clients.find? c = none
  server : ∀ msg ∈ s.serverPending, msg.Silent c
  physics : inputs c s.physicsPending = []

/-- How far the character is that a client has asked for, once, and where the
inputs are that it has sent since then. -/
inductive Steered (s : GameServer) (c : ClientPtr) (sent : List UInt16) : Prop
  | asked {template : ByteString} {pre post : List ServerMsg} (hfind : s.server.clients.find? c = none)
    (hserver : s.serverPending = pre ++ .loadPlayer c template :: post) (hpre : ∀ msg ∈ pre, msg.Silent c)
    (hpost : ∀ template, .loadPlayer c template ∉ post) (hphysics : inputs c s.physicsPending = [])
    (hsent : sent = inputs c post)
  | loaded {id : UInt32} {template : ByteString} {mat : Mat4} {pre post : List ServerMsg}
    (hfind : s.server.clients.find? c = some id) (hid : id ≠ 0)
    (hserver : ∀ template, .loadPlayer c template ∉ s.serverPending)
    (hphysics : s.physicsPending = pre ++ .bullet (.addChar id template mat) :: post)
    (hpre : inputs c pre = []) (hsent : sent = inputs c post ++ inputs c s.serverPending)
  | playing {id : UInt32} {arrived : List UInt16} (howns : s.Owns c id)
    (hserver : ∀ template, .loadPlayer c template ∉ s.serverPending)
    (hstate : s.state? id = some (arrived.getLast?.getD 0)) (hsent : sent = arrived ++ line (s.stages c))

theorem unasked_init (playerSpawn : Mat4) (world : List WorldEntry) (c : ClientPtr) :
    (init playerSpawn world).Unasked c :=
  ⟨rfl, fun _ hm => (by cases hm), rfl⟩

theorem line_stages (s : GameServer) (c : ClientPtr) :
    line (s.stages c) = inputs c s.physicsPending ++ inputs c s.serverPending := by
  simp [line, stages, inputs, physicsPending, serverPending]

theorem inputs_append (c : ClientPtr) (p q : List ServerMsg) : inputs c (p ++ q) = inputs c p ++ inputs c q :=
  List.filterMap_append

theorem inputs_cons (c : ClientPtr) (msg : ServerMsg) (q : List ServerMsg) :
    inputs c (msg :: q) = (msg.inputOf c).toList ++ inputs c q := by
  cases h : msg.inputOf c <;> simp [inputs, h]

theorem inputs_singleton (c : ClientPtr) (msg : ServerMsg) : inputs c [msg] = (msg.inputOf c).toList := by
  rw [inputs_cons]
  exact List.append_nil _

theorem inputs_passed (srv : LocalServer) (msg : ServerMsg) :
    inputs c (msg.passed srv) = (msg.inputOf c).toList := by
  cases msg with
  | input sender state => exact inputs_singleton c _
  | _ => rfl

theorem handle_find?_other {order : PopOrder} (h : ∀ template, msg ≠ .loadPlayer c template) :
    (s.handle order msg).server.clients.find? c = s.server.clients.find? c := by
  rw [handle_server]
  cases msg with
  | loadPlayer d template =>
    have hd : c ≠ d := fun he => h template (he ▸ rfl)
    simp [LocalServer.loadPlayer, LocalServer.getNextIdentifier, hd]
  | _ => rfl

theorem parse_find?_other (h : msg.inputOf c = none) :
    (s.parse msg).server.clients.find? c = s.server.clients.find? c := by
  rw [parse_server]
  cases msg with
  | input d state =>
    have hd : c ≠ d := fun he => by simp [ServerMsg.inputOf, he] at h
    simp [LocalServer.getClientId, hd]
  | _ => rfl

theorem parse_find?_same (h : s.server.clients.find? c = some id) :
    (s.parse msg).server.clients.find? c = some id := by
  rw [parse_server]
  cases msg with
  | input d state =>
    by_cases hd : c = d
    · subst hd
      simp [LocalServer.getClientId, h]
    · simp [LocalServer.getClientId, hd, h]
  | _ => exact h

theorem Owns.frame (h : s.Owns c id) (hfind : s'.server.clients.find? c = s.server.clients.find? c)
    (hchars : s'.physics.characters.find? id = s.physics.characters.find? id) : s'.Owns c id where
  find := hfind.trans h.find
  ne := h.ne
  character := by
    rw [BtPhysics.HasCharacter, hchars]
    exact h.character

theorem Steered.still (h : s.Steered c sent) (hserver : s'.serverPending = s.serverPending)
    (hphysics : s'.physicsPending = s.physicsPending)
    (hfind : s'.server.clients.find? c = s.server.clients.find? c)
    (hchars : ∀ id, s.server.clients.find? c = some id → id ≠ 0 →
      s'.physics.characters.find? id = s.physics.characters.find? id) : s'.Steered c sent := by
  cases h with
  | asked hf hs hpre hpost hp hsent =>
    exact .asked (hfind.trans hf) (hserver.trans hs) hpre hpost (by rw [hphysics, hp]) hsent
  | loaded hf hid hs hp hpre hsent =>
    exact .loaded (hfind.trans hf) hid (by rwa [hserver]) (hphysics.trans hp) hpre (by rw [hserver, hsent])
  | playing howns hs hstate hsent =>
    have hsame := hchars _ howns.find howns.ne
    exact .playing (howns.frame hfind hsame) (by rwa [hserver]) (by rwa [state?, hsame])
      (by rw [hsent, line_stages, line_stages, hserver, hphysics])

theorem Steered.received (h : s.Steered c sent) (hserver : s'.serverPending = s.serverPending ++ [msg])
    (hphysics : s'.physicsPending = s.physicsPending) (hsame : SameGame s s')
    (hload : ∀ template, msg ≠ .loadPlayer c template) : s'.Steered c (sent ++ (msg.inputOf c).toList) := by
  have hnew {q : List ServerMsg} (hno : ∀ template, .loadPlayer c template ∉ q) (template : ByteString) :
      .loadPlayer c template ∉ q ++ [msg] := by
    rw [List.mem_append, List.mem_singleton]
    exact not_or.mpr ⟨hno template, fun he => hload template he.symm⟩
  have hfind := congrArg (fun m : StdMap ClientPtr UInt32 => m.find? c) hsame.clients
  cases h with
  | @asked template pre post hf hs hpre hpost hp hsent =>
    have hs' : s'.serverPending = pre ++ .loadPlayer c template :: (post ++ [msg]) := by
      rw [hserver, hs, List.append_assoc, List.cons_append]
    exact .asked (hfind.trans hf) hs' hpre (hnew hpost) (by rw [hphysics, hp])
      (by rw [hsent, inputs_append, inputs_singleton])
  | loaded hf hid hs hp hpre hsent =>
    exact .loaded (hfind.trans hf) hid (by rw [hserver]; exact hnew hs) (hphysics.trans hp) hpre
      (by rw [hsent, hserver, inputs_append, inputs_singleton, List.append_assoc])
  | @playing id arrived howns hs hstate hsent =>
    have hchars : s'.physics.characters.find? id = s.physics.characters.find? id := by rw [hsame.characters]
    exact .playing (howns.frame hfind hchars) (by rw [hserver]; exact hnew hs) (by rwa [state?, hchars])
      (by rw [hsent, line_stages, line_stages, hserver, hphysics, inputs_append, inputs_singleton]
          simp only [List.append_assoc])

theorem Steered.handled (h : s.Steered c sent) (hnext : ∀ template, msg = .loadPlayer c template → s.server.nextId ≠ 0)
    (hserver : s.serverPending = msg :: (s.handle .fifo msg).serverPending)
    (hphysics : (s.handle .fifo msg).physicsPending = s.physicsPending ++ msg.passed s.server) :
    (s.handle .fifo msg).Steered c sent := by
  have hinputs : inputs c (s.handle .fifo msg).physicsPending ++ inputs c (s.handle .fifo msg).serverPending =
      inputs c s.physicsPending ++ inputs c s.serverPending := by
    rw [hphysics, hserver, inputs_append, inputs_passed, inputs_cons, List.append_assoc]
  have hkept (hs : ∀ template, .loadPlayer c template ∉ s.serverPending) :
      (∀ template, msg ≠ .loadPlayer c template) ∧
        ∀ template, .loadPlayer c template ∉ (s.handle .fifo msg).serverPending := by
    rw [hserver] at hs
    exact ⟨fun template he => hs template (he ▸ List.mem_cons_self),
      fun template hm => hs template (List.mem_cons_of_mem msg hm)⟩
  cases h with
  | @asked template pre post hf hs hpre hpost hp hsent =>
    cases pre with
    | nil =>
      -- the server takes up the request
      obtain ⟨rfl, hrest⟩ := List.cons.inj (hserver.symm.trans hs)
      have hfind : (s.handle .fifo (.loadPlayer c template)).server.clients.find? c = some s.server.nextId := by
        rw [handle_server]
        simp [LocalServer.loadPlayer, LocalServer.getNextIdentifier, hf]
      exact .loaded hfind (hnext template rfl) (by rwa [hrest]) hphysics hp (by rw [hrest, hsent]; rfl)
    | cons m pre =>
      obtain ⟨rfl, hrest⟩ := List.cons.inj (hserver.symm.trans hs)
      have hsilent := hpre msg List.mem_cons_self
      refine .asked ((handle_find?_other hsilent.load).trans hf) hrest
        (fun m hm => hpre m (List.mem_cons_of_mem _ hm)) hpost ?_ hsent
      rw [hphysics, inputs_append, hp, inputs_passed, hsilent.input]
      rfl
  | @loaded id template mat pre post hf hid hs hp hpre hsent =>
    obtain ⟨hload, hs'⟩ := hkept hs
    have hp' : (s.handle .fifo msg).physicsPending =
        pre ++ .bullet (.addChar id template mat) :: (post ++ msg.passed s.server) := by
      rw [hphysics, hp, List.append_assoc, List.cons_append]
    refine .loaded ((handle_find?_other hload).trans hf) hid hs' hp' hpre ?_
    rw [hsent, hserver, inputs_append, inputs_passed, inputs_cons, List.append_assoc]
  | @playing id arrived howns hs hstate hsent =>
    obtain ⟨hload, hs'⟩ := hkept hs
    have hchars := (@handle_physics .fifo s msg).2
    refine .playing (howns.frame (handle_find?_other hload) (by rw [hchars])) hs' (by rwa [state?, hchars]) ?_
    rw [hsent, line_stages, line_stages, hinputs]

theorem Steered.made {b : BulletInternalMsg} (h : s.Steered c sent) (hserver : s'.serverPending = s.serverPending)
    (hphysics : s'.physicsPending = s.physicsPending ++ [.bullet b])
    (hfind : s'.server.clients.find? c = s.server.clients.find? c)
    (hsame : s'.physics.characters = s.physics.characters) : s'.Steered c sent := by
  have hinputs (q : List ServerMsg) : inputs c (q ++ [.bullet b]) = inputs c q := by
    rw [inputs_append]
    exact List.append_nil _
  cases h with
  | asked hf hs hpre hpost hp hsent =>
    exact .asked (hfind.trans hf) (hserver.trans hs) hpre hpost (by rw [hphysics, hinputs, hp]) hsent
  | @loaded id template mat pre post hf hid hs hp hpre hsent =>
    have hp' : s'.physicsPending = pre ++ .bullet (.addChar id template mat) :: (post ++ [.bullet b]) := by
      rw [hphysics, hp, List.append_assoc, List.cons_append]
    exact .loaded (hfind.trans hf) hid (by rwa [hserver]) hp' hpre (by rw [hserver, hinputs, hsent])
  | @playing id arrived howns hs hstate hsent =>
    have hchars : s'.physics.characters.find? id = s.physics.characters.find? id := by rw [hsame]
    exact .playing (howns.frame hfind hchars) (by rwa [hserver]) (by rwa [state?, hchars])
      (by rw [hsent, line_stages, line_stages, hserver, hphysics, hinputs])

theorem state?_parse_addChar {template : ByteString} {mat : Mat4} :
    (s.parse (.bullet (.addChar id template mat))).state? id = some 0 := by
  have hparse : s.physics.parseBullet (.addChar id template mat) = .ok (s.physics.addCharObject id mat) := rfl
  rw [parse_bullet_ok hparse]
  simp [state?, BtPhysics.addCharObject]

theorem Steered.parsed (h : s.Steered c sent) (ho : s.Orderly) (hf : s.fault = none) (hpc : s.physicsPc = .parsing msg)
    (hserver : (s.parse msg).serverPending = s.serverPending)
    (hphysics : s.physicsPending = msg :: (s.parse msg).physicsPending) : (s.parse msg).Steered c sent := by
  cases h with
  | asked hfind hs hpre hpost hp hsent =>
    rw [hphysics, inputs_cons] at hp
    obtain ⟨hnone, hp⟩ := List.append_eq_nil_iff.mp hp
    have hother := parse_find?_other (s := s) (Option.toList_eq_nil_iff.mp hnone)
    exact .asked (hother.trans hfind) (hserver.trans hs) hpre hpost hp hsent
  | @loaded id template mat pre post hfind hid hs hp hpre hsent =>
    cases pre with
    | nil =>
      -- the character comes into the world
      obtain ⟨rfl, hrest⟩ := List.cons.inj (hphysics.symm.trans hp)
      have hstate : (s.parse (.bullet (.addChar id template mat))).state? id = some (([] : List UInt16).getLast?.getD 0) :=
        state?_parse_addChar
      refine .playing ⟨parse_find?_same hfind, hid, ?_⟩ (by rwa [hserver]) hstate ?_
      · exact hasCharacter_iff_state?.mpr (by simp [hstate])
      · rw [hsent, line_stages, hserver, hrest, List.nil_append]
    | cons m pre =>
      obtain ⟨rfl, hrest⟩ := List.cons.inj (hphysics.symm.trans hp)
      rw [inputs_cons] at hpre
      exact .loaded (parse_find?_same hfind) hid (by rwa [hserver]) hrest (List.append_eq_nil_iff.mp hpre).2
        (by rw [hserver, hsent])
  | @playing id arrived howns hs hstate hsent =>
    have hcarried : Carried .fifo c id s (.physics []) _ _ := parse_carried ⟨ho, howns⟩ hf hpc
    obtain ⟨new, hline, hcell⟩ := hcarried.inOrder
    rw [hstate] at hcell
    have hstate' : (s.parse msg).state? id = some ((arrived ++ new).getLast?.getD 0) := by
      rw [hcell, List.getLast?_append]
      cases new.getLast? <;> rfl
    refine .playing ⟨parse_find?_same howns.find, howns.ne, ?_⟩ (by rwa [hserver]) hstate' ?_
    · exact hasCharacter_iff_state?.mpr (by simp [hstate'])
    · rw [hsent, List.append_assoc, ← hline]
      simp [Action.inputOf]

/-- The request goes in at the end. -/
theorem Flow.ask {template : ByteString} (hflow : Flow s (.pushMessage (.loadPlayer c template)) s')
    (h : s.Unasked c) : s'.Steered c [] := by
  cases hflow with
  | still _ _ _ ha => exact absurd rfl (ha _)
  | received hs hp hsame =>
    exact .asked (by rw [hsame.clients, h.find]) hs h.server (by simp) (by rw [hp, h.physics]) rfl

theorem Flow.unasked (hflow : Flow s a s') (h : s.Unasked c) (ha : ∀ msg, a = .pushMessage msg → msg.Silent c) :
    s'.Unasked c := by
  have hsame {s'' : GameServer} (hg : SameGame s s'') : s''.server.clients.find? c = none := by
    rw [hg.clients, h.find]
  cases hflow with
  | still hs hp hg => exact ⟨hsame hg, by rw [hs]; exact h.server, by rw [hp, h.physics]⟩
  | @received msg s' hs hp hg =>
    refine ⟨hsame hg, fun m hm => ?_, by rw [hp, h.physics]⟩
    rw [hs, List.mem_append, List.mem_singleton] at hm
    rcases hm with hm | rfl
    · exact h.server m hm
    · exact ha m rfl
  | @handled msg hpc hs hp =>
    have hserver := h.server
    rw [hs] at hserver
    have hsilent := hserver msg List.mem_cons_self
    refine ⟨(handle_find?_other hsilent.load).trans h.find, fun m hm => hserver m (List.mem_cons_of_mem msg hm), ?_⟩
    rw [hp, inputs_append, h.physics, inputs_passed, hsilent.input]
    rfl
  | made hs hp hg =>
    refine ⟨hsame hg, by rw [hs]; exact h.server, ?_⟩
    rw [hp, inputs_append, h.physics]
    rfl
  | parsed hpc hs hp =>
    have hphysics := h.physics
    rw [hp, inputs_cons] at hphysics
    obtain ⟨hnone, hphysics⟩ := List.append_eq_nil_iff.mp hphysics
    exact ⟨(parse_find?_other (Option.toList_eq_nil_iff.mp hnone)).trans h.find, by rw [hs]; exact h.server, hphysics⟩
  | callbacks hpc hs hp hclients =>
    exact ⟨by rw [hclients, h.find], by rw [hs]; exact h.server, by rw [hp, h.physics]⟩

theorem Flow.steered (hflow : Flow s a s') (h : s.Steered c sent) (ho : s.Orderly) (hf : s.fault = none)
    (hfresh : s.IdsFresh a) (hload : ∀ template, a ≠ .pushMessage (.loadPlayer c template)) :
    s'.Steered c (sent ++ (a.inputOf c).toList) := by
  have hsame {s'' : GameServer} (hg : SameGame s s'') (hs : s''.serverPending = s.serverPending)
      (hp : s''.physicsPending = s.physicsPending) : s''.Steered c sent :=
    h.still hs hp (by rw [hg.clients]) (fun id _ _ => by rw [hg.characters])
  cases hflow with
  | still hs hp hg ha =>
    have hnone : a.inputOf c = none := by
      cases a with
      | pushMessage msg => exact absurd rfl (ha msg)
      | _ => rfl
    rw [hnone, Option.toList_none, List.append_nil]
    exact hsame hg hs hp
  | @received msg s' hs hp hg => exact h.received hs hp hg (fun template he => hload template (he ▸ rfl))
  | @handled msg hpc hs hp =>
    rw [Action.inputOf, Option.toList_none, List.append_nil]
    refine h.handled (fun template he => ?_) hs hp
    exact (hfresh (by simp [Allocates, ServerPc.allocates, hpc, he])).1
  | made hs hp hg =>
    rw [Action.inputOf, Option.toList_none, List.append_nil]
    exact h.made hs hp (by rw [hg.clients]) hg.characters
  | parsed hpc hs hp =>
    rw [Action.inputOf, Option.toList_none, List.append_nil]
    exact h.parsed ho hf hpc hs hp
  | callbacks hpc hs hp hclients hchars =>
    rw [Action.inputOf, Option.toList_none, List.append_nil]
    refine h.still hs hp (by rw [hclients]) (fun id hfind _ => hchars id (fun hm => ?_))
    obtain ⟨b, hb, rfl⟩ := List.mem_map.mp hm
    exact (ho.ids.baddie b (Or.inl hb)).2.2 c hfind

/-- Once nothing is on its way, the character is there and has what was sent last. -/
theorem Steered.drained (h : s.Steered c sent) (hd : s.Drained) :
    ∃ id, s.Owns c id ∧ s.state? id = some (sent.getLast?.getD 0) := by
  cases h with
  | asked hfind hs => simp [hd.1] at hs
  | loaded hfind hid hs hp => simp [hd.2] at hp
  | @playing id arrived howns hs hstate hsent =>
    refine ⟨id, howns, ?_⟩
    rw [hsent, line_stages, hd.1, hd.2]
    simpa [inputs] using hstate

end GameServer

namespace PlatformState

theorem Tracks.congr {events : List XEvent} {st st' : PlatformState} (h : Tracks events st)
    (hkeymap : st'.keymap = st.keymap) (hpushed : st'.pushed = st.pushed) : Tracks events st' where
  watched key hw := by rw [hkeymap, h.watched key hw]
  others i hi := by rw [hkeymap, h.others i hi]
  told := by rw [hkeymap, hpushed, h.told]

end PlatformState

namespace LocalGame

open PlatformState

variable {setup : Setup} {n n' : LocalGame} {l : LocalAction} {events : List XEvent}

/-- The events that a step takes from the X server. -/
def taken (n : LocalGame) : LocalAction → List XEvent
  | .main events => if n.pc = .events then events else []
  | .server | .physics _ => []

/-- All the events that the program has taken from the X server. -/
def typed (order : PopOrder) (setup : Setup) (n : LocalGame) : List LocalAction → List XEvent
  | [] => []
  | l :: as => n.taken l ++ ((step order setup n l).map (fun n' => n'.typed order setup as)).getD []

/-- A new id is neither zero nor one that is in use. -/
def IdsFresh (n : LocalGame) : LocalAction → Prop
  | .server => n.game.IdsFresh .server
  | .main _ | .physics _ => True

instance (n : LocalGame) (l : LocalAction) : Decidable (IdsFresh n l) :=
  match l with
  | .server => inferInstanceAs (Decidable (n.game.IdsFresh .server))
  | .main _ | .physics _ => inferInstanceAs (Decidable True)

/-- As long as the physics has not cleaned up: once nothing is on its way to it,
the character of the player has the bits of the keys that are held down. -/
def KeysHeld (setup : Setup) (n : LocalGame) (events : List XEvent) : Prop :=
  n.pc ≠ .adding → n.pc ≠ .loading → n.game.physicsPc ≠ .stopped → n.game.Drained → ∃ id state, n.game.Owns setup.self id ∧
    n.game.state? id = some state ∧ ∀ key : InputState, key.Watched →
      (state.toBitVec.getLsbD key.bit = true ↔ lastKeyEvent key events = some true)

structure Driven (setup : Setup) (events : List XEvent) (n : LocalGame) : Prop extends n.Sound setup where
  orderly : n.game.Orderly
  tracks : Tracks events n.platform
  unasked : n.pc = .adding ∨ n.pc = .loading → n.game.Unasked setup.self ∧ n.platform.pushed = []
  steered : n.pc ≠ .adding → n.pc ≠ .loading →
    n.game.Steered setup.self (n.platform.pushed.filterMap ServerMsg.state?)

theorem driven_init (setup : Setup) (playerSpawn : Mat4) (world : List WorldEntry) :
    (init playerSpawn world).Driven setup [] where
  toSound := sound_init playerSpawn world
  orderly := GameServer.orderly_init playerSpawn world
  tracks := tracks_new
  unasked _ := ⟨GameServer.unasked_init playerSpawn world setup.self, rfl⟩
  steered h := absurd rfl h

theorem receive_keymap {order : PopOrder} {game : GameServer} :
    (n.receive order setup game).platform.keymap = n.platform.keymap := by
  simp only [receive]
  split <;> rfl

theorem receive_pushed {order : PopOrder} {game : GameServer} :
    (n.receive order setup game).platform.pushed = n.platform.pushed := by
  simp only [receive]
  split <;> rfl

theorem nextPlatform_tracks (h : Tracks events n.platform) (l : LocalAction) :
    Tracks (events ++ n.taken l) (n.nextPlatform setup l) := by
  cases l with
  | main batch =>
    by_cases hpc : n.pc = .events
    · simp only [taken, nextPlatform, hpc, if_true]
      exact (platformEvents_tracks h batch).1
    · simpa [taken, nextPlatform, hpc] using h
  | _ => simpa [taken, nextPlatform] using h

theorem taken_eq_nil (hpc : n.pc ≠ .events) (l : LocalAction) : n.taken l = [] := by
  cases l with
  | main batch => exact if_neg hpc
  | _ => rfl

theorem nextPlatform_eq (hpc : n.pc ≠ .events) (l : LocalAction) : n.nextPlatform setup l = n.platform := by
  cases l with
  | main batch => exact if_neg hpc
  | _ => rfl

/-- What the step tells the server of the keys. -/
theorem nextPlatform_pushed {a : Action} (hact : n.act? setup l = some a) :
    (n.nextPlatform setup l).pushed.filterMap ServerMsg.state? =
      n.platform.pushed.filterMap ServerMsg.state? ++ (a.inputOf setup.self).toList := by
  have hquiet (hnext : n.nextPlatform setup l = n.platform) (hnone : a.inputOf setup.self = none) :
      (n.nextPlatform setup l).pushed.filterMap ServerMsg.state? =
        n.platform.pushed.filterMap ServerMsg.state? ++ (a.inputOf setup.self).toList := by
    rw [hnext, hnone, Option.toList_none, List.append_nil]
  cases l with
  | server | physics mats =>
    cases hact
    exact hquiet rfl rfl
  | main batch =>
    cases hpc : n.pc with
    | events =>
      simp only [act?, hpc] at hact
      rcases n.platform.pushed_platformEvents setup.atoms setup.self batch with he | he
      · simp [he] at hact
      · rw [he, List.drop_left] at hact
        cases hact
        have hnext : n.nextPlatform setup (.main batch) = n.platform.platformEvents setup.atoms setup.self batch := by
          simp [nextPlatform, hpc]
        rw [hnext, he, List.filterMap_append]
        simp [Action.inputOf, ServerMsg.inputOf, ServerMsg.state?]
    | adding | loading | leaving =>
      simp only [act?, hpc] at hact
      cases hact
      exact hquiet (nextPlatform_eq (by simp [hpc]) _) rfl
    | _ => simp [act?, hpc] at hact

theorem nextPlatform_alone {batch : List XEvent} (hact : n.act? setup (.main batch) = none) :
    (n.nextPlatform setup (.main batch)).pushed = n.platform.pushed := by
  by_cases hpc : n.pc = .events
  · simp only [act?, hpc] at hact
    simp only [nextPlatform, hpc, if_true]
    rcases n.platform.pushed_platformEvents setup.atoms setup.self batch with he | he
    · exact he
    · simp [he] at hact
  · rw [nextPlatform_eq hpc]

theorem nextPc_early {batch : List XEvent} (h : n.nextPc (.main batch) = .adding ∨ n.nextPc (.main batch) = .loading) :
    n.pc = .adding := by
  cases hpc : n.pc with
  | adding => rfl
  | loopHead =>
    simp only [nextPc, hpc] at h
    split at h <;> rcases h with h | h <;> cases h
  | _ => simp [nextPc, hpc] at h

/-- Before the request is made the client tells the server nothing. -/
theorem early {a : Action} (hact : n.act? setup l = some a) (h : n.nextPc l = .adding ∨ n.nextPc l = .loading) :
    (n.pc = .adding ∨ n.pc = .loading) ∧ ∀ msg, a ≠ .pushMessage msg := by
  cases l with
  | server | physics mats =>
    cases hact
    exact ⟨h, by simp⟩
  | main batch =>
    have hpc := nextPc_early h
    simp only [act?, hpc] at hact
    cases hact
    exact ⟨Or.inl hpc, by simp⟩

theorem act?_load {template : ByteString} (hact : n.act? setup l = some (.pushMessage (.loadPlayer setup.self template))) :
    n.pc = .loading := by
  cases l with
  | server => cases hact
  | physics mats => cases hact
  | main batch =>
    cases hpc : n.pc with
    | loading => rfl
    | events =>
      simp only [act?, hpc] at hact
      rcases n.platform.pushed_platformEvents setup.atoms setup.self batch with he | he <;> simp [he] at hact
    | _ => simp [act?, hpc] at hact

theorem idsFresh_act {a : Action} (hact : n.act? setup l = some a) (hfresh : n.IdsFresh l) : n.game.IdsFresh a := by
  rcases act?_cases hact with ⟨rfl, rfl⟩ | ⟨_, rfl, rfl⟩ | ⟨_, ⟨rfl, _⟩ | ⟨_, _, rfl, _⟩⟩
  · exact hfresh
  · trivial
  · trivial
  · trivial

theorem step_driven (hd : n.Driven setup events) (hfresh : n.IdsFresh l) (h : step .fifo setup n l = some n') :
    n'.Driven setup (events ++ n.taken l) := by
  have hsound := step_sound hd.toSound h
  cases step_change h with
  | @played l a game hact hgame =>
    obtain ⟨hf, hc⟩ := GameServer.step_change hgame
    have hflow := hc.flow hd.late hsound.live (act?_stays hact)
    have hnew := idsFresh_act hact hfresh
    refine ⟨hsound, hc.orderly hd.orderly hf hnew,
      (nextPlatform_tracks hd.tracks l).congr receive_keymap receive_pushed, fun hpc => ?_, fun hadd hload => ?_⟩
    · obtain ⟨hold, hquiet⟩ := early hact hpc
      obtain ⟨hun, hpushed⟩ := hd.unasked hold
      refine ⟨hflow.unasked hun (fun msg he => absurd he (hquiet msg)), ?_⟩
      have hevents : n.pc ≠ .events := by rcases hold with he | he <;> simp [he]
      rw [receive_pushed, nextPlatform_eq hevents l, hpushed]
    · rw [receive_pushed, nextPlatform_pushed hact]
      by_cases hold : n.pc = .loading
      · obtain ⟨hun, hpushed⟩ := hd.unasked (Or.inr hold)
        cases l with
        | main batch =>
          have ha : .pushMessage (.loadPlayer setup.self playerTemplate) = a := by simpa [act?, hold] using hact
          subst ha
          rw [hpushed]
          exact hflow.ask hun
        | _ => exact absurd hold hload
      · refine hflow.steered (hd.steered (fun hadding => ?_) hold) hd.orderly hf hnew (fun template he => ?_)
        · cases l with
          | main batch => exact hload (by simp [receive, nextPc, hadding])
          | _ => exact hadd hadding
        · exact hold (act?_load (he ▸ hact))
  | @tryPop batch msg rest hpc hq =>
    rw [taken_eq_nil (by simp [hpc]), List.append_nil]
    exact ⟨hsound, hd.orderly, hd.tracks, hd.unasked, hd.steered⟩
  | @alone batch hact hne hdrained hstopped =>
    have hnot : n.pc ≠ .adding ∧ n.pc ≠ .loading := by
      constructor <;> intro hpc <;> simp [act?, hpc] at hact
    refine ⟨hsound, hd.orderly, nextPlatform_tracks hd.tracks _, fun hpc => ?_, fun hadd hload => ?_⟩
    · exact absurd (@nextPc_early n batch hpc) hnot.1
    · rw [nextPlatform_alone hact]
      exact hd.steered hnot.1 hnot.2

theorem run_driven {as : List LocalAction} (hd : n.Driven setup events)
    (h : Guarded (step .fifo setup) IdsFresh n as) (hrun : run (step .fifo setup) n as = some n') :
    n'.Driven setup (events ++ n.typed .fifo setup as) := by
  induction as generalizing n events with
  | nil =>
    obtain rfl := Option.some.inj hrun
    rwa [typed, List.append_nil]
  | cons l as ih =>
    obtain ⟨r, hs, hrun⟩ := run_cons_some.mp hrun
    have hnext := ih (step_driven hd (h r hs).1 hs) (h r hs).2 hrun
    rw [List.append_assoc] at hnext
    rw [typed, hs]
    exact hnext

theorem Driven.keysHeld (hd : n.Driven setup events) : n.KeysHeld setup events := by
  intro hadd hload _ hdrained
  obtain ⟨id, howns, hstate⟩ := (hd.steered hadd hload).drained hdrained
  rw [← hd.tracks.told] at hstate
  exact ⟨id, _, howns, hstate, hd.tracks.watched⟩

/-- In every run of the program whose ids are fresh: whenever nothing is on its
way to the character and the physics still runs, it does what the keys say that
are held down. -/
theorem keys_move_player (setup : Setup) (playerSpawn : Mat4) (world : List WorldEntry) {as : List LocalAction}
    (h : Guarded (step .fifo setup) IdsFresh (init playerSpawn world) as)
    (hrun : run (step .fifo setup) (init playerSpawn world) as = some n) :
    n.KeysHeld setup ((init playerSpawn world).typed .fifo setup as) :=
  (run_driven (driven_init setup playerSpawn world) h hrun).keysHeld

def strafe : List LocalAction := [.main [], .main [], .server, .server, .server, .physics [], .physics [],
  .physics [], .main [], .main [], .main [], .main [.keyPress 0xff51, .keyPress 0x20, .keyRelease 0x20],
  .server, .server, .physics [], .physics []]

theorem keys_move_player_strafe : ∃ n, run (step .fifo ⟨1, ⟨1, 2⟩⟩) (init zeroMat []) strafe = some n ∧
    (n.pc = .drawing ∧ n.game.physicsPc ≠ .stopped ∧ n.game.Drained ∧ n.game.state? 1 = some 1) ∧
    n.KeysHeld ⟨1, ⟨1, 2⟩⟩ ((init zeroMat []).typed .fifo ⟨1, ⟨1, 2⟩⟩ strafe) := by
  have hrun : (run (step .fifo ⟨1, ⟨1, 2⟩⟩) (init zeroMat []) strafe).map (fun n =>
      (n.pc, n.game.physicsPc, n.game.serverPending, n.game.physicsPending, n.game.state? 1)) =
        some (.drawing, .draining, [], [], some 1) := by decide
  obtain ⟨n, hn, he⟩ := Option.map_eq_some_iff.mp hrun
  obtain ⟨hpc, hrunning, hserver, hphysics, hstate⟩ : n.pc = .drawing ∧ n.game.physicsPc = .draining ∧
      n.game.serverPending = [] ∧ n.game.physicsPending = [] ∧ n.game.state? 1 = some 1 := by simpa using he
  exact ⟨n, hn, ⟨hpc, by simp [hrunning], ⟨hserver, hphysics⟩, hstate⟩, keys_move_player ⟨1, ⟨1, 2⟩⟩ zeroMat [] (by decide) hn⟩

end LocalGame

end Quintses
