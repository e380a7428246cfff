import Quintses.Ids

/-! Characters requested for players. Every one is the value of a connected
client as long as each client loads once while it is connected. -/

namespace Quintses

open Lts

/-- The characters that `loadPlayer` asked for and nobody has asked to delete,
each with its client. -/
def requests : List Call → List (ClientPtr × UInt32)
  | .addPhysical (some c) id _ _ true :: calls => (c, id) :: requests calls
  | .delPhysical id true :: calls => (requests calls).filter (fun r => r.2 ≠ id)
  | _ :: calls => requests calls
  | [] => []

def ServerMsg.loader? : ServerMsg → Option ClientPtr
  | .loadPlayer c _ => some c
  | .shutdown _ | .input _ _ | .bullet _ => none

namespace GameServer

instance (s : GameServer) (c : ClientPtr) : Decidable (s.Connected c) := inferInstanceAs (Decidable (_ ∧ _))

def requests (s : GameServer) : List (ClientPtr × UInt32) := Quintses.requests s.physicalCalls

structure NoOrphans (s : GameServer) : Prop where
  requested : ∀ id, (∃ c, (c, id) ∈ s.requests) ↔ id ≠ 0 ∧ ∃ c, s.server.clients.find? c = some id
  removed : ∀ c, .removeClient c ∈ s.log → ∀ id, (c, id) ∉ s.requests

/-- A LoadPlayer message is handled for a connected client that has no entry
in `m_clients`. -/
def LoadsOnce (s : GameServer) : Action → Prop
  | .server => ∀ msg ∈ s.serverPc.hand, ∀ c ∈ msg.loader?,
    s.Connected c ∧ s.server.clients.find? c = none
  | .addClient _ | .removeClient _ | .pushMessage _ | .physics _ => True

instance (s : GameServer) (a : Action) : Decidable (s.LoadsOnce a) :=
  match a with
  | .server => inferInstanceAs (Decidable (∀ msg ∈ s.serverPc.hand, ∀ c ∈ msg.loader?, _))
  | .addClient _ | .removeClient _ | .pushMessage _ | .physics _ => inferInstanceAs (Decidable True)

structure Owned (s : GameServer) : Prop where
  requests : ∀ c id, (c, id) ∈ s.requests ↔ id ≠ 0 ∧ s.server.clients.find? c = some id
  present : ∀ c id, s.server.clients.find? c = some id → id ≠ 0 → .removeClient c ∉ s.log

theorem Owned.noOrphans {s : GameServer} (h : s.Owned) : s.NoOrphans where
  requested id := by
    constructor
    · rintro ⟨c, hc⟩
      have hh := (h.requests c id).mp hc
      exact ⟨hh.1, c, hh.2⟩
    · rintro ⟨hid, c, hc⟩
      exact ⟨c, (h.requests c id).mpr ⟨hid, hc⟩⟩
  removed c hc id hm := by
    obtain ⟨hid, hf⟩ := (h.requests c id).mp hm
    exact h.present c id hf hid hc

variable {order : PopOrder} {s s' : GameServer} {a : Action}

theorem LoadsOnce.loader {c : ClientPtr} {template : ByteString} (h : s.LoadsOnce .server)
    (hpc : s.serverPc = .handling (.loadPlayer c template)) :
    s.Connected c ∧ s.server.clients.find? c = none :=
  h (.loadPlayer c template) (by simp [hpc, ServerPc.hand]) c rfl

theorem mem_requests_load {c d : ClientPtr} {id i : UInt32} {tmp : ByteString} {mat : Mat4} {calls : List Call} :
    (c, id) ∈ Quintses.requests (.addPhysical (some d) i tmp mat true :: calls) ↔
      (c = d ∧ id = i) ∨ (c, id) ∈ Quintses.requests calls := by
  simp [Quintses.requests]

theorem mem_requests_delete {c : ClientPtr} {id i : UInt32} {calls : List Call} :
    (c, id) ∈ Quintses.requests (.delPhysical i true :: calls) ↔
      (c, id) ∈ Quintses.requests calls ∧ id ≠ i := by
  simp [Quintses.requests]

theorem Change.requests_iff (h : Change order s a s') (hi : s.OwnIds) (ho : s.Owned) (hfresh : s.IdsFresh a)
    (honce : s.LoadsOnce a) (c : ClientPtr) (id : UInt32) :
    (c, id) ∈ s'.requests ↔ id ≠ 0 ∧ s'.server.clients.find? c = some id := by
  obtain ⟨new, hnew, hcalls⟩ := h.newCall
  rw [requests, hcalls]
  cases hnew with
  | none hload hremove =>
    refine (ho.requests c id).trans (and_congr_right (fun hid => ?_))
    exact (h.value_other hload hremove hid).symm
  | world halloc hpc =>
    refine (ho.requests c id).trans (and_congr_right (fun hid => ?_))
    exact (h.value_other (fun c template _ => hpc c template) (by simp) hid).symm
  | @load d template hpc =>
    have hid := (hfresh (by simp [Allocates, ServerPc.allocates, hpc])).1
    rw [Option.toList_some, List.singleton_append, mem_requests_load, h.value_load hpc (honce.loader hpc).2]
    have hold := ho.requests c id
    rw [requests] at hold
    rw [hold]
    constructor
    · rintro (⟨rfl, rfl⟩ | ⟨hne, hf⟩)
      · exact ⟨hid, Or.inl ⟨rfl, rfl⟩⟩
      · exact ⟨hne, Or.inr hf⟩
    · rintro ⟨hne, hnew | hf⟩
      · exact Or.inl hnew
      · exact Or.inr ⟨hne, hf⟩
  | @remove d gone hfind hgone =>
    rw [Option.toList_some, List.singleton_append, mem_requests_delete, h.value_remove hi hfind hgone]
    have hold := ho.requests c id
    rw [requests] at hold
    rw [hold, and_assoc]

theorem Change.owned (h : Change order s a s') (hi : s.OwnIds) (ho : s.Owned) (hfresh : s.IdsFresh a)
    (honce : s.LoadsOnce a) : s'.Owned := by
  refine ⟨h.requests_iff hi ho hfresh honce, fun c id hf hid hrem => ?_⟩
  rcases h.value_cases hf hid with hold | ⟨_, _, _, _, rfl, template, hpc⟩
  · rcases (h.removed_iff c).mp hrem with rfl | hrem
    · have hv := h.newValue c
      generalize s'.server.clients.find? c = o at hv hf
      cases hv with
      | same hno => exact hno rfl
      | removed => cases hf
    · exact ho.present c id hold hid hrem
  · rcases (h.removed_iff c).mp hrem with hr | hr
    · cases hr
    · exact (honce.loader hpc).1.2 hr

/-- Clients that load once while they are connected leave no character behind. -/
theorem noOrphans_of_loadsOnce (order : PopOrder) (playerSpawn : Mat4) (world : List WorldEntry)
    {as : List Action}
    (h : Guarded (step order) (fun s a => s.IdsFresh a ∧ s.LoadsOnce a) (init playerSpawn world) as) :
    Along (step order) NoOrphans (init playerSpawn world) as := by
  have hinit : (init playerSpawn world).OwnIds ∧ (init playerSpawn world).Owned := by
    refine ⟨ownIds_init playerSpawn world, fun c id => ?_, fun c id hf => ?_⟩
    · constructor
      · intro hm
        cases hm
      · rintro ⟨_, hf⟩
        cases hf
    · cases hf
  refine (h.along (fun s : GameServer => s.OwnIds ∧ s.Owned) ?_ hinit).mono
    (fun s hs => hs.2.noOrphans)
  intro s a s' hs hok hstep
  have hc := (step_change hstep).2
  exact ⟨hc.ownIds hs.1 hok.1, hc.owned hs.1 hs.2 hok.1 hok.2⟩

theorem noOrphans_of_loadsOnce_one_client :
    Along (step .lifo) NoOrphans (init zeroMat [.mob [77] zeroMat])
      [.server, .server, .server, .addClient 1, .pushMessage (.loadPlayer 1 [80]), .server, .server,
        .removeClient 1] :=
  noOrphans_of_loadsOnce .lifo zeroMat [.mob [77] zeroMat] (by decide)

/-- The second LoadPlayer message of a client gets a character that no entry remembers. -/
theorem not_noOrphans_second_load : ¬ ∀ playerSpawn world as,
    Along (step .lifo) NoOrphans (init playerSpawn world) as := by
  intro h
  let as : List Action := [.addClient 1, .pushMessage (.loadPlayer 1 [80]),
    .pushMessage (.loadPlayer 1 [80]), .server, .server, .server, .server, .server, .removeClient 1]
  have hrun : (run (step .lifo) (init zeroMat []) as).map
      (fun s => (s.requests, s.log.contains (.removeClient 1))) = some ([(1, 2)], true) := by decide
  obtain ⟨s, hs, he⟩ := Option.map_eq_some_iff.mp hrun
  obtain ⟨hreq, hrem⟩ := Prod.mk.inj he
  exact ((h zeroMat [] as).last hs).removed 1 (by simpa using hrem) 2 (by simp [hreq])

end GameServer

end Quintses
