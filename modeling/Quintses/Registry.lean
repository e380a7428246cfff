import Quintses.Removal

/-! The two containers of connected clients. The lookup for an input message can
break the registry, and so can an identifier counter that has come round to 0. -/

namespace Quintses

open Lts

namespace GameServer

def Connected (s : GameServer) (c : ClientPtr) : Prop := .addClient c ∈ s.log ∧ .removeClient c ∉ s.log

/-- A LoadPlayer message of the client has been handled; it cannot have been
before the client was added. -/
def Loaded (s : GameServer) (c : ClientPtr) : Prop := ∃ template, .handled (.loadPlayer c template) ∈ s.log

def Requested (s : GameServer) (c : ClientPtr) (id : UInt32) : Prop :=
  ∃ tmp mat, .call (.addPhysical (some c) id tmp mat true) ∈ s.log

inductive Entry (s : GameServer) (c : ClientPtr) : Prop
  | lobby {u : Unit} (hlobby : s.server.lobbyClients.find? c = some u)
    (hnone : s.server.clients.find? c = none) (hloaded : ¬ s.Loaded c)
  | player {id : UInt32} (hnone : s.server.lobbyClients.find? c = none)
    (hfind : s.server.clients.find? c = some id) (hid : id ≠ 0) (hloaded : s.Loaded c)
    (hrequested : s.Requested c id)

def Registered (s : GameServer) : Prop := ∀ c, s.Connected c → s.Entry c

/-- A first LoadPlayer message gets an id other than 0, and an input message is
looked up only for clients that have loaded or have gone. -/
def LookupInOrder (s : GameServer) : Action → Prop
  | .server => ∀ c template, s.serverPc = .handling (.loadPlayer c template) → s.Connected c →
    ¬ s.Loaded c → s.server.nextId ≠ 0
  | .physics _ => ∀ c state, s.physicsPc = .parsing (.input c state) → s.Connected c → s.Loaded c
  | .addClient _ | .removeClient _ | .pushMessage _ => True

variable {order : PopOrder} {s s' : GameServer} {a : Action} {c : ClientPtr}

theorem Requested.mono {id : UInt32} (h : s.Requested c id) (hc : Change order s a s') :
    s'.Requested c id := by
  obtain ⟨tmp, mat, h⟩ := h
  exact ⟨tmp, mat, hc.log_mono h⟩

theorem Loaded.mono (h : s.Loaded c) (hc : Change order s a s') : s'.Loaded c := by
  obtain ⟨template, h⟩ := h
  exact ⟨template, hc.log_mono h⟩

theorem Change.loaded (h : Change order s a s') (hl : s'.Loaded c) : s.Loaded c ∨
    ∃ template, a = .server ∧ s.serverPc = .handling (.loadPlayer c template) := by
  obtain ⟨template, hl⟩ := hl
  rcases (h.handled_iff _).mp hl with ⟨ha, hpc⟩ | hl
  · exact Or.inr ⟨template, ha, hpc⟩
  · exact Or.inl ⟨template, hl⟩

theorem Entry.frame (he : s.Entry c) (h : Change order s a s')
    (hsame : LocalServer.SameEntry s.server s'.server c)
    (hload : s'.Loaded c → s.Loaded c) : s'.Entry c := by
  cases he with
  | lobby hlobby hnone hloaded =>
    exact .lobby (hsame.2.trans hlobby) (hsame.1.trans hnone) (fun hl => hloaded (hload hl))
  | player hnone hfind hid hloaded hrequested =>
    exact .player (hsame.2.trans hnone) (hsame.1.trans hfind) hid (hloaded.mono h) (hrequested.mono h)

theorem entry_handle_loadPlayer {template : ByteString} (hpc : s.serverPc = .handling (.loadPlayer c template))
    (he : s.Entry c) (hid : ¬ s.Loaded c → s.server.nextId ≠ 0) :
    (s.handle order (.loadPlayer c template)).Entry c := by
  have h : Change order s .server _ := .handle hpc
  have hloaded : (s.handle order (.loadPlayer c template)).Loaded c :=
    ⟨template, (h.handled_iff _).mpr (Or.inl ⟨rfl, hpc⟩)⟩
  have hlobby : (s.handle order (.loadPlayer c template)).server.lobbyClients.find? c = none := by
    simp [handle_server, LocalServer.loadPlayer, LocalServer.getNextIdentifier]
  cases he with
  | lobby _ hnone hnot =>
    refine .player hlobby ?_ (hid hnot) hloaded ⟨template, s.server.playerSpawn, ?_⟩
    · simp [handle_server, LocalServer.loadPlayer, LocalServer.getNextIdentifier, hnone]
    · simp [handle_log, handleCalls, LocalServer.loadPlayer, LocalServer.getNextIdentifier]
  | player _ hfind hne _ hrequested =>
    refine .player hlobby ?_ hne hloaded (hrequested.mono h)
    simp [handle_server, LocalServer.loadPlayer, LocalServer.getNextIdentifier, hfind]

theorem entry_parse_input {state : UInt16} (hpc : s.physicsPc = .parsing (.input c state))
    (he : s.Entry c) (hl : s.Loaded c) : (s.parse (.input c state)).Entry c := by
  have h : Change .fifo s (.physics []) _ := .parse hpc
  cases he with
  | lobby _ _ hnot => exact absurd hl hnot
  | player hnone hfind hid hloaded hrequested =>
    refine .player hnone ?_ hid (hloaded.mono h) (hrequested.mono h)
    simp [parse_input, LocalServer.getClientId, hfind]

theorem connected_step (h : Change order s a s') (hc : s.Connected c) (ha : a ≠ .removeClient c) :
    s'.Connected c :=
  ⟨h.log_mono hc.1, fun hm => ((h.removed_iff c).mp hm).elim ha hc.2⟩

theorem registered_step (ht : s.Traced) (hr : s.Registered) (hok : s.LookupInOrder a)
    (hs : step order s a = some s') : s'.Registered := by
  have h := (step_change hs).2
  intro c hc
  by_cases hnew : a = .addClient c
  · subst hnew
    have hloaded : ¬ s'.Loaded c := by
      intro hl
      rcases h.loaded hl with ⟨template, hm⟩ | ⟨template, ha, _⟩
      · cases h with
        | addClient _ hnot => exact hnot (ht.handled _ hm)
      · cases ha
    cases h with
    | addClient _ hnot =>
      have hunknown : ¬ s.server.Known c := fun hk => hnot (ht.known c hk)
      have hnone : s.server.clients.find? c = none := by
        cases hf : s.server.clients.find? c with
        | none => rfl
        | some id => exact absurd (Or.inl ⟨id, hf⟩) hunknown
      refine .lobby (u := ()) ?_ ?_ hloaded
      · simp [apply_server, LocalServer.addClient, record]
      · simpa [apply_server, LocalServer.addClient, record] using hnone
  · have hold : s.Connected c :=
      ⟨((h.added_iff c).mp hc.1).resolve_left hnew, fun hm => hc.2 (h.log_mono hm)⟩
    have he := hr c hold
    by_cases hload : ∃ template, a = .server ∧ s.serverPc = .handling (.loadPlayer c template)
    · obtain ⟨template, rfl, hpc⟩ := hload
      rw [step_handling hpc hs]
      exact entry_handle_loadPlayer hpc he (hok c template hpc hold)
    · have hkeep : s'.Loaded c → s.Loaded c := fun hl => (h.loaded hl).resolve_right hload
      rcases h.sameEntry c with hsame | ha | rfl | hl | ⟨mats, state, rfl, hpc⟩
      · exact he.frame h hsame hkeep
      · exact absurd ha hnew
      · exact absurd ((h.removed_iff c).mpr (Or.inl rfl)) hc.2
      · exact absurd hl hload
      · rw [step_parsing hpc hs]
        exact entry_parse_input hpc he (hok c state hpc hold)

theorem not_registered_step (hr : s.Registered) (hno : ¬ s.LookupInOrder a)
    (hs : step order s a = some s') : ¬ s'.Registered := by
  have h := (step_change hs).2
  have hzero {c : ClientPtr} (hc : s.Connected c) (ha : a ≠ .removeClient c)
      (hfind : s'.server.clients.find? c = some 0) : ¬ s'.Registered := by
    intro hr'
    cases hr' c (connected_step h hc ha) with
    | lobby _ hnone _ =>
      rw [hfind] at hnone
      cases hnone
    | player _ hfind' hid _ _ =>
      rw [hfind] at hfind'
      exact hid (Option.some.inj hfind').symm
  cases a with
  | server =>
    obtain ⟨c, ⟨template, hpc⟩, hc, hnot, hid⟩ : ∃ c,
        (∃ template, s.serverPc = .handling (.loadPlayer c template)) ∧ s.Connected c ∧
          ¬ s.Loaded c ∧ s.server.nextId = 0 := by simpa [LookupInOrder] using hno
    refine hzero hc (by simp) ?_
    cases hr c hc with
    | lobby _ hnone _ =>
      rw [step_handling hpc hs, handle_server]
      simp [LocalServer.loadPlayer, LocalServer.getNextIdentifier, hnone, hid]
    | player _ _ _ hl _ => exact absurd hl hnot
  | physics mats =>
    obtain ⟨c, ⟨state, hpc⟩, hc, hnot⟩ : ∃ c, (∃ state, s.physicsPc = .parsing (.input c state)) ∧
        s.Connected c ∧ ¬ s.Loaded c := by simpa [LookupInOrder] using hno
    refine hzero hc (by simp) ?_
    cases hr c hc with
    | lobby _ hnone _ =>
      rw [step_parsing hpc hs, parse_server]
      simp [LocalServer.getClientId, hnone]
    | player _ _ _ hl _ => exact absurd hl hnot
  | _ => exact absurd trivial hno

theorem registry_invariant_iff (order : PopOrder) (playerSpawn : Mat4) (world : List WorldEntry)
    (as : List Action) : Along (step order) Registered (init playerSpawn world) as ↔
      Guarded (step order) LookupInOrder (init playerSpawn world) as := by
  refine along_iff_guarded (fun s : GameServer => s.Traced ∧ s.Registered) (fun s h => h.2)
    ?_ ?_ ?_ as
  · intro s a s' h hok hs
    exact ⟨(step_change hs).2.traced h.1, registered_step h.1 h.2 hok hs⟩
  · intro s a s' h hno hs
    exact not_registered_step h.2 hno hs
  · refine ⟨traced_init playerSpawn world, fun c hc => ?_⟩
    cases hc.1

end GameServer

/-- An input message of a lobby client. -/
theorem not_registered_input_before_load : ¬ ∀ playerSpawn world as,
    Along (GameServer.step .lifo) GameServer.Registered (GameServer.init playerSpawn world) as := by
  intro h
  let as : List Action := [.addClient 1, .pushMessage (.input 1 1), .server, .server, .server,
    .physics [], .physics [], .physics []]
  have hrun : (run (GameServer.step .lifo) (GameServer.init zeroMat []) as).map
      (fun s => (s.server.clients.find? 1, s.log.contains (.addClient 1), s.log.contains (.removeClient 1))) =
        some (some 0, true, false) := by
    decide
  obtain ⟨s, hs, he⟩ := Option.map_eq_some_iff.mp hrun
  obtain ⟨hfind, he⟩ := Prod.mk.inj he
  obtain ⟨hadd, hrem⟩ := Prod.mk.inj he
  have hc : s.Connected 1 := ⟨by simpa using hadd, by simpa using hrem⟩
  cases (h zeroMat [] as).last hs 1 hc with
  | lobby _ hnone _ =>
    rw [hfind] at hnone
    cases hnone
  | player _ hfind' hid _ _ =>
    rw [hfind] at hfind'
    exact hid (Option.some.inj hfind').symm

end Quintses
