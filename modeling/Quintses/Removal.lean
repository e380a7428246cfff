import Quintses.Provenance

/-! Clients after their removal. Messages of theirs that are handled later make
the server know them again. -/

namespace Quintses

open Lts

namespace GameServer

structure Gone (s : GameServer) : Prop where
  unknown : ∀ c, .removeClient c ∈ s.log → ¬ s.server.Known c
  uncalled : s.log.Pairwise (fun later earlier => ∀ c, earlier = .removeClient c →
    ∀ call, later = .call call → call.target ≠ some c)

/-- A LoadPlayer or input message that is handled is not of a removed client. -/
def SenderPresent (s : GameServer) : Action → Prop
  | .server => ∀ c template, s.serverPc = .handling (.loadPlayer c template) → .removeClient c ∉ s.log
  | .physics _ => ∀ c state, s.physicsPc = .parsing (.input c state) → .removeClient c ∉ s.log
  | .addClient _ | .removeClient _ | .pushMessage _ => True

variable {order : PopOrder} {s s' : GameServer} {a : Action}

theorem Change.gone (h : Change order s a s') (ht : s.Traced) (hg : s.Gone)
    (hok : s.SenderPresent a) : s'.Gone := by
  have hold : ∀ c, .removeClient c ∈ s.log → a ≠ .addClient c := by
    rintro c hrem rfl
    cases h with
    | addClient hc hnew => exact hnew (ht.removed c hrem)
  have hunknown : ∀ c, .removeClient c ∈ s'.log → ¬ s'.server.Known c := by
    intro c hrem hk
    rcases (h.removed_iff c).mp hrem with rfl | hrem
    · cases h with
      | removeClient hadd =>
        simp only [record, apply_server] at hk
        exact LocalServer.not_known_removeClient hk
    · rcases h.known hk with hk | rfl | ⟨template, rfl, hpc⟩ | ⟨mats, state, rfl, hpc⟩
      · exact hg.unknown c hrem hk
      · exact hold c hrem rfl
      · exact hok c template hpc hrem
      · exact hok c state hpc hrem
  obtain ⟨news, hl, hn⟩ := h.news
  -- whoever is called in this step has not been removed
  have hcalled : ∀ call c, .call call ∈ news → call.target = some c → .removeClient c ∉ s'.log := by
    intro call c hc htarget hrem
    rcases hn.target call c hc htarget with hk | rfl
    · exact hunknown c hrem hk
    · rcases (h.removed_iff c).mp hrem with he | hrem
      · cases he
      · exact hold c hrem rfl
  refine ⟨hunknown, ?_⟩
  rw [hl]
  have hnews : ∀ later ∈ news, ∀ earlier ∈ news ++ s.log, ∀ c, earlier = .removeClient c →
      ∀ call, later = .call call → call.target ≠ some c := by
    rintro later hlater earlier hearlier c rfl call rfl htarget
    exact hcalled call c hlater htarget (hl ▸ hearlier)
  refine List.pairwise_append.mpr ⟨?_, hg.uncalled, ?_⟩
  · exact List.pairwise_of_forall_mem_list (fun x hx y hy => hnews x hx y (List.mem_append_left _ hy))
  · exact fun x hx y hy => hnews x hx y (List.mem_append_right _ hy)

theorem not_gone_of_not_present (hok : ¬ s.SenderPresent a) (h : step order s a = some s') :
    ¬ s'.Gone := by
  intro hg
  have hchange := (step_change h).2
  cases a with
  | server =>
    obtain ⟨c, template, hpc, hrem⟩ : ∃ c template, s.serverPc = .handling (.loadPlayer c template) ∧
        .removeClient c ∈ s.log := by simpa [SenderPresent] using hok
    refine hg.unknown c (hchange.log_mono hrem) ?_
    rw [step_handling hpc h, handle_server]
    exact LocalServer.known_loadPlayer template
  | physics mats =>
    obtain ⟨c, ⟨state, hpc⟩, hrem⟩ : ∃ c, (∃ state, s.physicsPc = .parsing (.input c state)) ∧
        .removeClient c ∈ s.log := by simpa [SenderPresent] using hok
    refine hg.unknown c (hchange.log_mono hrem) ?_
    rw [step_parsing hpc h, parse_server]
    exact LocalServer.known_getClientId
  | _ => exact hok trivial

theorem removed_stays_gone_iff (order : PopOrder) (playerSpawn : Mat4) (world : List WorldEntry)
    (as : List Action) : Along (step order) Gone (init playerSpawn world) as ↔
      Guarded (step order) SenderPresent (init playerSpawn world) as := by
  refine along_iff_guarded (fun s : GameServer => s.Traced ∧ s.Gone) (fun s h => h.2) ?_ ?_ ?_ as
  · intro s a s' h hok hs
    have hc := (step_change hs).2
    exact ⟨hc.traced h.1, hc.gone h.1 h.2 hok⟩
  · intro s a s' _ hno hs
    exact not_gone_of_not_present hno hs
  · exact ⟨traced_init playerSpawn world, by simp [init], by simp [init]⟩

end GameServer

/-- A LoadPlayer message that waits in the server queue while its client is removed. -/
theorem not_gone_load_after_removal : ¬ ∀ playerSpawn world as,
    Along (GameServer.step .lifo) GameServer.Gone (GameServer.init playerSpawn world) as := by
  intro h
  let as : List Action := [.addClient 1, .pushMessage (.loadPlayer 1 [80]), .removeClient 1,
    .server, .server, .server]
  have hrun : (run (GameServer.step .lifo) (GameServer.init zeroMat []) as).map
      (fun s => (s.server.clients.find? 1, s.log.contains (.removeClient 1))) = some (some 1, true) := by
    decide
  obtain ⟨s, hs, he⟩ := Option.map_eq_some_iff.mp hrun
  obtain ⟨hfind, hrem⟩ := Prod.mk.inj he
  exact ((h zeroMat [] as).last hs).unknown 1 (by simpa using hrem) (Or.inl ⟨1, hfind⟩)

end Quintses
