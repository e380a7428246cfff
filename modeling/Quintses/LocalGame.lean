import Quintses.Delivery
import Quintses.Drawing
import Quintses.FifoBuild
import Quintses.Obedience
import Quintses.PlatformEvents

/-! The whole of `quintses`: the main thread, which runs a `LocalClient`, with
the server and the physics in the same process. -/

namespace Quintses

open Lts

/-- Where the main thread is: in the constructor of `LocalClient`, in `mainloop`
or behind it. -/
inductive MainPc
  | adding
  | loading
  | loopHead
  | draining
  | events
  | drawing
  | leaving
  | waiting
  | ended
  deriving DecidableEq

structure LocalGame where
  game : GameServer
  client : LocalClient
  platform : PlatformState
  pc : MainPc

inductive LocalAction
  /-- The events are those that are in the queue of the X server. -/
  | main (events : List XEvent)
  | server
  | physics (mats : List Mat4)
  deriving DecidableEq

namespace GameServer

/-- Nobody has asked for a deletion. -/
structure Undeleting (s : GameServer) : Prop where
  called : ∀ id isCharacter, .delPhysical id isCharacter ∉ s.physicalCalls
  pending : ∀ id, .bullet (.delChar id) ∉ s.physicsPending ∧ .bullet (.delPhys id) ∉ s.physicsPending

variable {order : PopOrder} {s s' : GameServer} {a : Action}

theorem undeleting_init (playerSpawn : Mat4) (world : List WorldEntry) : (init playerSpawn world).Undeleting where
  called id isCharacter h := by cases h
  pending id := ⟨(by cases ·), (by cases ·)⟩

theorem Change.undeleting (h : Change order s a s') (hu : s.Undeleting) (ha : ∀ c, a ≠ .removeClient c) :
    s'.Undeleting := by
  obtain ⟨new, hnew, hcalls⟩ := h.newCall
  have hcalled (id : UInt32) (isCharacter : Bool) : .delPhysical id isCharacter ∉ s'.physicalCalls := by
    rw [hcalls, List.mem_append]
    rintro (hm | hm)
    · cases hnew with
      | none => cases hm
      | load hpc => simp at hm
      | world ha hpc => simp at hm
      | @remove c id hfind hid => exact ha c rfl
    · exact hu.called id isCharacter hm
  have hpending {b : BulletInternalMsg} (hold : .bullet b ∉ s.physicsPending)
      (hmade : ∀ call : Call, call.toPhysics = some (.bullet b) → ∃ id isCharacter, call = .delPhysical id isCharacter) :
      .bullet b ∉ s'.physicsPending := by
    intro hm
    rcases h.physicsPending hm with hm | ⟨c, state, he, _⟩ | ⟨_, call, _, hcall, hlog⟩
    · exact hold hm
    · cases he
    · obtain ⟨id, isCharacter, rfl⟩ := hmade call hcall
      exact hcalled id isCharacter (List.mem_filterMap.mpr ⟨_, hlog, rfl⟩)
  have hmade {b : BulletInternalMsg} {id : UInt32} (hb : b = .delChar id ∨ b = .delPhys id) (call : Call)
      (hcall : call.toPhysics = some (.bullet b)) : ∃ id isCharacter, call = .delPhysical id isCharacter := by
    cases call with
    | delPhysical i isCharacter => exact ⟨i, isCharacter, rfl⟩
    | addPhysical loader i tmp mat isCharacter =>
      rcases hb with rfl | rfl <;> cases isCharacter <;> cases hcall
    | pushMessage c msg => cases hcall
    | serverClosed c => cases hcall
  exact ⟨hcalled, fun id => ⟨hpending (hu.pending id).1 (hmade (Or.inl rfl)),
    hpending (hu.pending id).2 (hmade (Or.inr rfl))⟩⟩

/-- While nobody is removed nothing is deleted, and nothing goes wrong. -/
theorem Change.stays_live (h : Change order s a s') (hf : s.fault = none) (hu : s.Undeleting) (hl : s.Late)
    (ha : ∀ c, a ≠ .removeClient c) : s'.fault = none := by
  cases he : s'.fault with
  | none => rfl
  | some e =>
    rcases h.fault_cases hf he with rfl | ⟨msg, hpc, herror⟩
    · have hintime : s.LeavesInTime a := by
        cases a with
        | removeClient c => exact absurd rfl (ha c)
        | _ => trivial
      exact absurd he (h.uncalled hl hintime hf)
    · have hmem : msg ∈ s.physicsPending := by simp [GameServer.physicsPending, hpc, PhysicsPc.hand]
      cases BtPhysics.parseMessage_error herror with
      | delPhys _ => exact absurd hmem (hu.pending _).2
      | delChar _ => exact absurd hmem (hu.pending _).1

theorem step_stopped (h : step order s a = some s') (hs : s.server.running = false → s.serverPc = .done)
    (hr : s'.server.running = false) : s'.serverPc = .done := by
  by_cases hclear : a = .server ∧ s.serverPc = .clearing
  · obtain ⟨rfl, hclear⟩ := hclear
    rw [step_clearing hclear h]
    rfl
  · have hdone := hs ((step_running h (fun ha hc => hclear ⟨ha, hc⟩)).symm.trans hr)
    obtain ⟨hf, hc⟩ := step_change h
    cases a with
    | addClient c =>
      cases hc with
      | addClient hc hnew => exact (apply_serverPc _).trans hdone
    | removeClient c =>
      cases hc with
      | removeClient hadd => exact (apply_serverPc (s := s) _).trans hdone
    | pushMessage msg =>
      cases hc with
      | receive hm => exact hdone
    | server => simp [step, hf, stepServer, hdone] at h
    | physics mats =>
      simp only [step, hf, Option.isSome_none, Bool.false_eq_true, if_false] at h
      exact (stepPhysics_serverPc h).trans hdone

end GameServer

namespace PlatformState

theorem foldl_pushed (atoms : XAtoms) (events : List XEvent) (r : PlatformState × Bool) :
    (events.foldl (handleEvent atoms) r).1.pushed = r.1.pushed := by
  induction events generalizing r with
  | nil => rfl
  | cons e events ih =>
    rw [List.foldl_cons, ih]
    exact (handleEvent_eq atoms r.1 r.2 e).1

/-- One call pushes nothing or what `keymap` then is. -/
theorem pushed_platformEvents (atoms : XAtoms) (self : ClientPtr) (st : PlatformState) (events : List XEvent) :
    (st.platformEvents atoms self events).pushed = st.pushed ∨
      (st.platformEvents atoms self events).pushed =
        st.pushed ++ [.input self (st.platformEvents atoms self events).keymap] := by
  have hkept := foldl_pushed atoms events (st, false)
  unfold platformEvents
  cases hc : (events.foldl (handleEvent atoms) (st, false)).2 with
  | true => exact Or.inr (by simp [hc, hkept])
  | false => exact Or.inl (by simp [hc, hkept])

end PlatformState

namespace LocalGame

/-- The client object and the atoms of the X server. -/
structure Setup where
  self : ClientPtr
  atoms : XAtoms

def init (playerSpawn : Mat4) (world : List WorldEntry) : LocalGame :=
  ⟨GameServer.init playerSpawn world, LocalClient.new, PlatformState.new, .adding⟩

def goto (n : LocalGame) (pc : MainPc) : LocalGame := { n with pc }

/-- The calls of a step of the server on the client. -/
def receive (order : PopOrder) (setup : Setup) (n : LocalGame) (game : GameServer) : LocalGame :=
  let calls := n.game.callsUpTo game
  { n with
    game
    client := (calls.filterMap (Call.to? setup.self)).foldl (LocalClient.pushMessage order) n.client
    platform := if .serverClosed setup.self ∈ calls then { n.platform with finished := true } else n.platform }

def play (order : PopOrder) (setup : Setup) (n : LocalGame) (a : Action) : Option LocalGame :=
  (GameServer.step order n.game a).map (n.receive order setup)

def main (order : PopOrder) (setup : Setup) (n : LocalGame) (events : List XEvent) : Option LocalGame :=
  match n.pc with
  | .adding => (n.goto .loading).play order setup (.addClient setup.self)
  | .loading => (n.goto .loopHead).play order setup (.pushMessage (.loadPlayer setup.self playerTemplate))
  | .loopHead => some (n.goto (if n.platform.finished then .leaving else .draining))
  | .draining =>
    match n.client.msgQueue with
    | [] => some (n.goto .events)
    | _ :: _ => (LocalClient.step order n.client .tryPop).map (fun client => { n with client })
  | .events =>
    let platform := n.platform.platformEvents setup.atoms setup.self events
    match platform.pushed.drop n.platform.pushed.length with
    | [] => some { n.goto .drawing with platform }
    | msg :: _ => { n.goto .drawing with platform }.play order setup (.pushMessage msg)
  | .drawing => some (n.goto .loopHead)
  | .leaving => (n.goto .waiting).play order setup (.pushMessage (.shutdown setup.self))
  | .waiting => if n.game.server.running then none else some (n.goto .ended)
  | .ended => none

def step (order : PopOrder) (setup : Setup) (n : LocalGame) : LocalAction → Option LocalGame
  | .main events => n.main order setup events
  | .server => n.play order setup .server
  | .physics mats => n.play order setup (.physics mats)

/-- The step that the server takes with one of the program. -/
def act? (setup : Setup) (n : LocalGame) : LocalAction → Option Action
  | .main events =>
    match n.pc with
    | .adding => some (.addClient setup.self)
    | .loading => some (.pushMessage (.loadPlayer setup.self playerTemplate))
    | .events =>
      ((n.platform.platformEvents setup.atoms setup.self events).pushed.drop n.platform.pushed.length).head?.map
        .pushMessage
    | .leaving => some (.pushMessage (.shutdown setup.self))
    | .loopHead | .draining | .drawing | .waiting | .ended => none
  | .server => some .server
  | .physics mats => some (.physics mats)

/-- Where the main thread goes. -/
def nextPc (n : LocalGame) : LocalAction → MainPc
  | .main _ =>
    match n.pc with
    | .adding => .loading
    | .loading | .drawing => .loopHead
    | .loopHead => if n.platform.finished then .leaving else .draining
    | .draining => .events
    | .events => .drawing
    | .leaving => .waiting
    | .waiting | .ended => .ended
  | .server | .physics _ => n.pc

def nextPlatform (setup : Setup) (n : LocalGame) : LocalAction → PlatformState
  | .main events =>
    if n.pc = .events then n.platform.platformEvents setup.atoms setup.self events else n.platform
  | .server | .physics _ => n.platform

/-- What a step of the program is made of. -/
inductive Change (order : PopOrder) (setup : Setup) (n : LocalGame) : LocalAction → LocalGame → Prop
  | played {l : LocalAction} {a : Action} {game : GameServer} (hact : n.act? setup l = some a)
    (hgame : GameServer.step order n.game a = some game) :
    Change order setup n l
      ({ n with pc := n.nextPc l, platform := n.nextPlatform setup l }.receive order setup game)
  | tryPop {events : List XEvent} {msg : ClientMsg} {rest : List ClientMsg} (hpc : n.pc = .draining)
    (hq : n.client.msgQueue = msg :: rest) :
    Change order setup n (.main events) { n with client := { n.client with msgQueue := rest }.handle msg }
  | alone {events : List XEvent} (hact : n.act? setup (.main events) = none) (hpc : n.pc ≠ .ended)
    (hdrained : n.pc = .draining → n.client.msgQueue = [])
    (hstopped : n.pc = .waiting → n.game.server.running = false) :
    Change order setup n (.main events)
      { n with pc := n.nextPc (.main events), platform := n.nextPlatform setup (.main events) }

variable {order : PopOrder} {setup : Setup} {n n' : LocalGame} {l : LocalAction}

theorem play_change {m : LocalGame} {a : Action} (hm : m = { n with pc := n.nextPc l, platform := n.nextPlatform setup l })
    (hact : n.act? setup l = some a) (h : m.play order setup a = some n') : Change order setup n l n' := by
  subst hm
  obtain ⟨game, hgame, rfl⟩ := Option.map_eq_some_iff.mp h
  exact .played hact hgame

theorem step_change (h : step order setup n l = some n') : Change order setup n l n' := by
  cases l with
  | server => exact play_change rfl rfl h
  | physics mats => exact play_change rfl rfl h
  | main events =>
    simp only [step, LocalGame.main] at h
    split at h
    case h_1 hpc =>
      exact play_change (by simp [goto, nextPc, nextPlatform, hpc]) (by simp [act?, hpc]) h
    case h_2 hpc =>
      exact play_change (by simp [goto, nextPc, nextPlatform, hpc]) (by simp [act?, hpc]) h
    case h_3 hpc =>
      cases h
      have hh : Change order setup n (.main events) _ :=
        .alone (by simp [act?, hpc]) (by simp [hpc]) (by simp [hpc]) (by simp [hpc])
      simpa [goto, nextPc, nextPlatform, hpc] using hh
    case h_4 hpc =>
      split at h
      case h_1 hq =>
        cases h
        have hh : Change order setup n (.main events) _ :=
          .alone (by simp [act?, hpc]) (by simp [hpc]) (fun _ => hq) (by simp [hpc])
        simpa [goto, nextPc, nextPlatform, hpc] using hh
      case h_2 msg rest hq =>
        obtain ⟨client, hclient, rfl⟩ := Option.map_eq_some_iff.mp h
        obtain rfl : { n.client with msgQueue := rest }.handle msg = client := by
          simpa [LocalClient.step, hq] using hclient
        exact .tryPop hpc hq
    case h_5 hpc =>
      split at h
      case h_1 hnone =>
        cases h
        have hh : Change order setup n (.main events) _ :=
          .alone (by simp [act?, hpc, hnone]) (by simp [hpc]) (by simp [hpc]) (by simp [hpc])
        simpa [goto, nextPc, nextPlatform, hpc] using hh
      case h_2 msg rest hsome =>
        exact play_change (by simp [goto, nextPc, nextPlatform, hpc]) (by simp [act?, hpc, hsome]) h
    case h_6 hpc =>
      cases h
      have hh : Change order setup n (.main events) _ :=
        .alone (by simp [act?, hpc]) (by simp [hpc]) (by simp [hpc]) (by simp [hpc])
      simpa [goto, nextPc, nextPlatform, hpc] using hh
    case h_7 hpc =>
      exact play_change (by simp [goto, nextPc, nextPlatform, hpc]) (by simp [act?, hpc]) h
    case h_8 hpc =>
      split at h <;> cases h
      rename_i hrun
      have hh : Change order setup n (.main events) _ :=
        .alone (by simp [act?, hpc]) (by simp [hpc]) (by simp [hpc]) (fun _ => by simpa using hrun)
      simpa [goto, nextPc, nextPlatform, hpc] using hh
    case h_9 hpc => cases h

theorem act?_cases {a : Action} (h : n.act? setup l = some a) :
    a = .server ∧ l = .server ∨ (∃ mats, a = .physics mats ∧ l = .physics mats) ∨
      (∃ events, l = .main events) ∧ (a = .addClient setup.self ∧ n.pc = .adding ∨
        n.pc ≠ .adding ∧ ∃ msg, a = .pushMessage msg ∧ (msg = .loadPlayer setup.self playerTemplate ∨
          msg = .shutdown setup.self ∨ ∃ state, msg = .input setup.self state)) := by
  cases l with
  | server => exact Or.inl ⟨(Option.some.inj h).symm, rfl⟩
  | physics mats => exact Or.inr (Or.inl ⟨mats, (Option.some.inj h).symm, rfl⟩)
  | main events =>
    refine Or.inr (Or.inr ⟨⟨events, rfl⟩, ?_⟩)
    cases hpc : n.pc with
    | adding => exact Or.inl ⟨by simpa [act?, hpc, eq_comm] using h, rfl⟩
    | loading =>
      have ha : a = .pushMessage (.loadPlayer setup.self playerTemplate) := by simpa [act?, hpc, eq_comm] using h
      exact Or.inr ⟨by simp, _, ha, Or.inl rfl⟩
    | leaving =>
      have ha : a = .pushMessage (.shutdown setup.self) := by simpa [act?, hpc, eq_comm] using h
      exact Or.inr ⟨by simp, _, ha, Or.inr (Or.inl rfl)⟩
    | events =>
      simp only [act?, hpc] at h
      rcases n.platform.pushed_platformEvents setup.atoms setup.self events with he | he
      · simp [he] at h
      · rw [he, List.drop_left] at h
        exact Or.inr ⟨by simp, _, (Option.some.inj h).symm, Or.inr (Or.inr ⟨_, rfl⟩)⟩
    | _ => simp [act?, hpc] at h

theorem act?_stays {a : Action} (h : n.act? setup l = some a) (c : ClientPtr) : a ≠ .removeClient c := by
  rintro rfl
  rcases act?_cases h with ⟨ha, _⟩ | ⟨_, ha, _⟩ | ⟨_, ⟨ha, _⟩ | ⟨_, _, ha, _⟩⟩ <;> cases ha

/-- Nothing goes wrong in the server, the main thread only ever waits for the
server to end, and when that wait is over the physics thread has stopped. -/
structure Safe (order : PopOrder) (setup : Setup) (n : LocalGame) : Prop where
  live : n.game.fault = none
  goesOn : n.pc ≠ .waiting → n.pc ≠ .ended → ∀ events, (step order setup n (.main events)).isSome
  ended : n.pc = .ended → n.game.serverPc = .done ∧ n.game.physicsPc = .stopped

structure Sound (setup : Setup) (n : LocalGame) : Prop where
  live : n.game.fault = none
  undeleting : n.game.Undeleting
  late : n.game.Late
  joined : n.game.Joined
  unadded : n.pc = .adding → .addClient setup.self ∉ n.game.log
  added : n.pc ≠ .adding → .addClient setup.self ∈ n.game.log
  stopped : n.game.server.running = false → n.game.serverPc = .done
  ended : n.pc = .ended → n.game.server.running = false

theorem sound_init (playerSpawn : Mat4) (world : List WorldEntry) : (init playerSpawn world).Sound setup where
  live := rfl
  undeleting := GameServer.undeleting_init playerSpawn world
  late hd := by cases hd
  joined hj := by cases hj
  unadded _ h := by cases h
  added h := absurd rfl h
  stopped h := by cases h
  ended h := by cases h

theorem nextPc_ne_adding : n.nextPc l = .adding → n.pc = .adding ∧ ∀ events, l ≠ .main events := by
  intro h
  cases l with
  | main events =>
    cases hpc : n.pc <;> simp only [nextPc, hpc] at h <;> try cases h
    split at h <;> cases h
  | _ => exact ⟨h, by simp⟩

theorem nextPc_ended (h : n.nextPc l = .ended) : n.pc = .ended ∨ n.pc = .waiting ∧ ∃ events, l = .main events := by
  cases l with
  | main events =>
    cases hpc : n.pc <;> simp only [nextPc, hpc] at h <;> first | cases h | skip
    · split at h <;> cases h
    · exact Or.inr ⟨rfl, events, rfl⟩
    · exact Or.inl rfl
  | _ => exact Or.inl h

theorem step_sound (hs : n.Sound setup) (h : step order setup n l = some n') : n'.Sound setup := by
  cases step_change h with
  | @played l a game hact hgame =>
    have hc := (GameServer.step_change hgame).2
    have hremove := act?_stays hact
    refine ⟨hc.stays_live hs.live hs.undeleting hs.late hremove, hc.undeleting hs.undeleting hremove,
      hc.late hs.late, GameServer.step_joined hs.joined hgame, fun hpc => ?_, fun hpc => ?_,
      GameServer.step_stopped hgame hs.stopped, fun hpc => ?_⟩
    · obtain ⟨hold, hnot⟩ := nextPc_ne_adding hpc
      intro hm
      rcases (hc.added_iff setup.self).mp hm with rfl | hm
      · rcases act?_cases hact with ⟨ha, _⟩ | ⟨_, ha, _⟩ | ⟨⟨events, rfl⟩, _⟩
        · cases ha
        · cases ha
        · exact hnot events rfl
      · exact hs.unadded hold hm
    · by_cases hold : n.pc = .adding
      · rcases act?_cases hact with ⟨_, rfl⟩ | ⟨mats, _, rfl⟩ | ⟨_, ⟨rfl, _⟩ | ⟨hno, _⟩⟩
        · exact absurd hold hpc
        · exact absurd hold hpc
        · exact (hc.added_iff setup.self).mpr (Or.inl rfl)
        · exact absurd hold hno
      · exact hc.log_mono (hs.added hold)
    · rcases nextPc_ended hpc with hold | ⟨hwait, events, rfl⟩
      · have hstop := hs.ended hold
        have hdone := hs.stopped hstop
        rw [← hstop]
        refine GameServer.step_running hgame (fun _ hclear => ?_)
        rw [hdone] at hclear
        cases hclear
      · simp [act?, hwait] at hact
  | @tryPop events msg rest hpc hq =>
    exact ⟨hs.live, hs.undeleting, hs.late, hs.joined, hs.unadded, hs.added, hs.stopped, hs.ended⟩
  | @alone events hact hne hdrained hstopped =>
    refine ⟨hs.live, hs.undeleting, hs.late, hs.joined, fun hpc => ?_, fun _ => ?_, hs.stopped, fun hpc => ?_⟩
    · exact absurd rfl ((nextPc_ne_adding hpc).2 events)
    · refine hs.added (fun hold => ?_)
      simp [act?, hold] at hact
    · rcases nextPc_ended (l := .main events) hpc with hold | ⟨hwait, _⟩
      · exact absurd hold hne
      · exact hstopped hwait

theorem Sound.safe (hs : n.Sound setup) (hself : setup.self ≠ 0) : n.Safe order setup where
  live := hs.live
  ended hpc := by
    have hdone := hs.stopped (hs.ended hpc)
    exact ⟨hdone, hs.joined (by rw [hdone]; rfl)⟩
  goesOn hwait hend events := by
    have hpush {m : LocalGame} {msg : ServerMsg} (hm : m.game = n.game) (hadded : n.pc ≠ .adding)
        (hmsg : n.game.Pushable msg) : (m.play order setup (.pushMessage msg)).isSome := by
      simp [play, hm, GameServer.step, hs.live, hmsg]
    simp only [step, LocalGame.main]
    split
    case h_1 hpc => simp [play, goto, GameServer.step, hs.live, hself, hs.unadded hpc]
    case h_2 hpc => exact hpush rfl (by simp [hpc]) (hs.added (by simp [hpc]))
    case h_3 hpc => rfl
    case h_4 hpc => split <;> rename_i hq <;> simp [LocalClient.step, hq]
    case h_5 hpc =>
      split
      · rfl
      · rename_i msg rest hsome
        refine hpush rfl (by simp [hpc]) ?_
        rcases n.platform.pushed_platformEvents setup.atoms setup.self events with he | he
        · simp [he] at hsome
        · obtain rfl : .input setup.self _ = msg := by simpa [he] using congrArg List.head? hsome
          exact hs.added (by simp [hpc])
    case h_6 hpc => rfl
    case h_7 hpc => exact hpush rfl (by simp [hpc]) trivial
    case h_8 hpc => exact absurd hpc hwait
    case h_9 hpc => exact absurd hpc hend

end LocalGame

end Quintses
