import Quintses.Characters
import Quintses.Removal

/-! Deletions of characters. One that is popped before the creation of its
character finds nothing to delete. -/

namespace Quintses

namespace BtPhysics

/-- The message deletes an entry that the maps do not have. -/
inductive Misses (p : BtPhysics) : ServerMsg → Prop
  | delPhys {id : UInt32} (hnone : p.objects.find? id = none) : Misses p (.bullet (.delPhys id))
  | delChar {id : UInt32} (hnone : p.characters.find? id = none) : Misses p (.bullet (.delChar id))

theorem parseMessage_error {p : BtPhysics} {msg : ServerMsg} {srv : LocalServer} {e : Fault}
    (h : p.parseMessage msg srv = .error e) : p.Misses msg := by
  cases msg with
  | bullet b =>
    cases b with
    | delPhys id =>
      cases hfind : p.objects.find? id with
      | none => exact .delPhys hfind
      | some o => simp [parseMessage, parseBullet, delPhysObject, hfind, Except.map] at h
    | delChar id =>
      cases hfind : p.characters.find? id with
      | none => exact .delChar hfind
      | some c => simp [parseMessage, parseBullet, delCharObject, hfind, Except.map] at h
    | addPhys id template matrix =>
      simp only [parseMessage, parseBullet] at h
      split at h <;> cases h
    | _ => cases h
  | _ => cases h

theorem parseMessage_error_iff {p : BtPhysics} {msg : ServerMsg} (srv : LocalServer) :
    (∃ e, p.parseMessage msg srv = .error e) ↔ p.Misses msg := by
  constructor
  · rintro ⟨e, h⟩
    exact parseMessage_error h
  · rintro (hnone | hnone)
    · exact ⟨.nullObject, by simp [parseMessage, parseBullet, delPhysObject, hnone, Except.map]⟩
    · exact ⟨.nullCharacter, by simp [parseMessage, parseBullet, delCharObject, hnone, Except.map]⟩

end BtPhysics

open Lts

namespace GameServer

/-- A deletion that is being handled finds its character, and none has failed to. -/
structure DeletesPresent (s : GameServer) : Prop where
  present : ∀ id, s.physicsPc = .parsing (.bullet (.delChar id)) → s.physics.HasCharacter id
  fault : s.fault ≠ some .nullCharacter

/-- No deletion is popped while the creation of its character is in the queue. -/
def CreatedFirst (s : GameServer) : Action → Prop
  | .physics _ => s.physicsPc = .draining →
    ∀ id ∈ s.physics.msgQueue.head?.bind ServerMsg.delChar?, id ∉ s.addIds
  | .addClient _ | .removeClient _ | .pushMessage _ | .server => True

instance (s : GameServer) (a : Action) : Decidable (s.CreatedFirst a) :=
  match a with
  | .physics _ => @instDecidableForall (s.physicsPc = .draining) _ _
    (Option.decidableForallMem (s.physics.msgQueue.head?.bind ServerMsg.delChar?))
  | .addClient _ | .removeClient _ | .pushMessage _ | .server => inferInstanceAs (Decidable True)

variable {order : PopOrder} {s s' : GameServer} {a : Action}

theorem handle_physics (msg : ServerMsg) : (s.handle order msg).physicsPc = s.physicsPc ∧
    (s.handle order msg).physics.characters = s.physics.characters := by
  cases msg with
  | input sender state =>
    simp only [handle, onPhysics]
    split <;> exact ⟨rfl, rfl⟩
  | loadPlayer sender template => exact ⟨apply_physicsPc _, apply_characters _⟩
  | _ => exact ⟨rfl, rfl⟩

theorem Change.parsing (h : Change order s a s') {msg : ServerMsg} (hpc : s'.physicsPc = .parsing msg) :
    s'.physics.characters = s.physics.characters ∧ (s.physicsPc = .parsing msg ∨
      ∃ mats rest, a = .physics mats ∧ s.physicsPc = .draining ∧ s.physics.msgQueue = msg :: rest) := by
  have hquiet (h : Quiet s s') : s.physicsPc = .parsing msg := by
    have hh := h.physicsHand
    rw [hpc] at hh
    cases hold : s.physicsPc with
    | parsing m =>
      rw [hold] at hh
      cases hh
      rfl
    | _ => simp [hold, PhysicsPc.hand] at hh
  cases h with
  | quietServer h => exact ⟨h.characters, Or.inl (hquiet h)⟩
  | quietPhysics h => exact ⟨h.characters, Or.inl (hquiet h)⟩
  | addClient hc hadd => exact ⟨apply_characters _, Or.inl (by rw [apply_physicsPc] at hpc; exact hpc)⟩
  | removeClient hc => exact ⟨apply_characters _, Or.inl ((apply_physicsPc _).symm.trans hpc)⟩
  | receive h => exact ⟨rfl, Or.inl hpc⟩
  | takeServer hold hq => exact ⟨rfl, Or.inl hpc⟩
  | handle hold => exact ⟨(handle_physics _).2, Or.inl ((handle_physics _).1.symm.trans hpc)⟩
  | mob hold =>
    rw [allocPhysical_eq, apply_physicsPc] at hpc
    exact ⟨by rw [allocPhysical_eq]; exact apply_characters _, Or.inl hpc⟩
  | blocker hold =>
    rw [allocPhysical_eq, apply_physicsPc] at hpc
    exact ⟨by rw [allocPhysical_eq]; exact apply_characters _, Or.inl hpc⟩
  | pushBack hold => exact ⟨rfl, Or.inl hpc⟩
  | close hold => exact ⟨apply_characters _, Or.inl (by rw [apply_physicsPc] at hpc; exact hpc)⟩
  | takePhysics hold hq =>
    cases hpc
    exact ⟨rfl, Or.inr ⟨_, _, rfl, hold, hq⟩⟩
  | @parse m mats hold =>
    cases hparse : s.physics.parseMessage m s.server with
    | error e =>
      rw [parse_error hparse] at hpc ⊢
      exact ⟨rfl, Or.inl hpc⟩
    | ok r =>
      rw [parse_ok hparse] at hpc
      cases hpc
  | callbacks hold => cases hpc
  | transforms hold =>
    rw [apply_physicsPc] at hpc
    cases hpc

theorem parseMessage_nullCharacter {p : BtPhysics} {msg : ServerMsg} {srv : LocalServer}
    (h : p.parseMessage msg srv = .error .nullCharacter) :
    ∃ id, msg = .bullet (.delChar id) ∧ ¬ p.HasCharacter id := by
  cases msg with
  | bullet b =>
    cases b with
    | delChar id =>
      refine ⟨id, rfl, fun hhas => ?_⟩
      obtain ⟨ch, hch⟩ := hhas
      simp [BtPhysics.parseMessage, BtPhysics.parseBullet, BtPhysics.delCharObject, hch, Except.map] at h
    | delPhys id =>
      simp only [BtPhysics.parseMessage, BtPhysics.parseBullet, BtPhysics.delPhysObject] at h
      split at h <;> cases h
    | addPhys id template matrix =>
      simp only [BtPhysics.parseMessage, BtPhysics.parseBullet] at h
      split at h <;> cases h
    | _ => cases h
  | _ => cases h

theorem Change.nullCharacter (h : Change order s a s') (hf : s.fault = none)
    (hnull : s'.fault = some .nullCharacter) :
    ∃ id, s.physicsPc = .parsing (.bullet (.delChar id)) ∧ ¬ s.physics.HasCharacter id := by
  have hcall {t : GameServer} {r : LocalServer × List Call}
      (hs : (t.apply order r).fault = some .nullCharacter) (ht : t.fault = none) : False := by
    rcases apply_fault r with he | he
    · rw [he, ht] at hs
      cases hs
    · rw [he] at hs
      cases hs
  have hsame (hs : s'.fault = s.fault) : False := by
    rw [hs, hf] at hnull
    cases hnull
  cases h with
  | quietServer h => exact (hsame h.fault).elim
  | quietPhysics h => exact (hsame h.fault).elim
  | addClient hc hadd => exact (hcall hnull hf).elim
  | removeClient hc => exact (hcall hnull hf).elim
  | receive h => exact (hsame rfl).elim
  | takeServer hpc hq => exact (hsame rfl).elim
  | @handle msg hpc =>
    cases msg with
    | loadPlayer sender template =>
      simp only [GameServer.handle] at hnull
      exact (hcall hnull hf).elim
    | input sender state =>
      simp only [GameServer.handle, onPhysics] at hnull
      split at hnull
      · cases hnull
      · exact absurd (hf.symm.trans hnull) (by simp)
    | _ => exact (hsame rfl).elim
  | mob hpc =>
    rw [allocPhysical_eq] at hnull
    exact (hcall hnull hf).elim
  | blocker hpc =>
    rw [allocPhysical_eq] at hnull
    exact (hcall hnull hf).elim
  | pushBack hpc => exact (hsame rfl).elim
  | close hpc => exact (hcall hnull hf).elim
  | takePhysics hpc hq => exact (hsame rfl).elim
  | @parse msg mats hpc =>
    cases hparse : s.physics.parseMessage msg s.server with
    | ok r =>
      rw [parse_ok hparse] at hnull
      exact (hsame (by rw [parse_ok hparse]; rfl)).elim
    | error e =>
      rw [parse_error hparse] at hnull
      cases hnull
      obtain ⟨id, rfl, hno⟩ := parseMessage_nullCharacter hparse
      exact ⟨id, hpc, hno⟩
  | callbacks hpc => exact (hsame rfl).elim
  | transforms hpc => exact (hcall hnull hf).elim

theorem head_delChar {q : List ServerMsg} {id : UInt32} (h : id ∈ q.head?.bind ServerMsg.delChar?) :
    ∃ rest, q = .bullet (.delChar id) :: rest := by
  cases q with
  | nil => simp at h
  | cons msg rest =>
    cases msg with
    | bullet b =>
      cases b with
      | delChar i =>
        obtain rfl : i = id := by simpa [ServerMsg.delChar?] using h
        exact ⟨rest, rfl⟩
      | _ => simp [ServerMsg.delChar?] at h
    | _ => simp [ServerMsg.delChar?] at h

theorem Tracked.present_iff (ht : s.Tracked) (hpc : s.physicsPc = .draining) {id : UInt32}
    (hhead : id ∈ s.physics.msgQueue.head?.bind ServerMsg.delChar?) :
    s.physics.HasCharacter id ↔ id ∉ s.addIds := by
  refine Ledger.present_iff ht ?_
  obtain ⟨rest, hq⟩ := head_delChar hhead
  simp [delIds, physicsPending, hpc, hq, PhysicsPc.hand, ServerMsg.delChar?]

theorem deletesPresent_step (hp : s.DeletesPresent) (ht : s.Tracked) (hok : s.CreatedFirst a)
    (hs : step order s a = some s') : s'.DeletesPresent := by
  obtain ⟨hf, h⟩ := step_change hs
  constructor
  · intro id hpc
    obtain ⟨hchars, hold | ⟨mats, rest, rfl, hdrain, hq⟩⟩ := h.parsing hpc
    · rw [BtPhysics.HasCharacter, hchars]
      exact hp.present id hold
    · have hhead : id ∈ s.physics.msgQueue.head?.bind ServerMsg.delChar? := by simp [hq, ServerMsg.delChar?]
      rw [BtPhysics.HasCharacter, hchars]
      exact (Tracked.present_iff ht hdrain hhead).mpr (hok hdrain id hhead)
  · intro hnull
    obtain ⟨id, hpc, hno⟩ := h.nullCharacter hf hnull
    exact hno (hp.present id hpc)

theorem not_deletesPresent_step (ht : s.Tracked) (hno : ¬ s.CreatedFirst a)
    (hs : step order s a = some s') : ¬ s'.DeletesPresent := by
  cases a with
  | physics mats =>
    obtain ⟨hdrain, id, hhead, hadd⟩ : s.physicsPc = .draining ∧
        ∃ id ∈ s.physics.msgQueue.head?.bind ServerMsg.delChar?, id ∈ s.addIds := by
      simpa [CreatedFirst] using hno
    obtain ⟨rest, hq⟩ := head_delChar hhead
    intro hp
    have hs' := step_draining hdrain hq hs
    have hhas := hp.present id (by rw [hs']; rfl)
    rw [hs'] at hhas
    exact (Tracked.present_iff ht hdrain hhead).mp hhas hadd
  | _ => exact absurd trivial hno

/-- While ids are fresh, every deletion finds its character precisely in the
runs in which no deletion overtakes the creation in the queue. -/
theorem deletes_present_iff (order : PopOrder) (playerSpawn : Mat4) (world : List WorldEntry)
    {as : List Action} (h : Guarded (step order) IdsFresh (init playerSpawn world) as) :
    Along (step order) DeletesPresent (init playerSpawn world) as ↔
      Guarded (step order) CreatedFirst (init playerSpawn world) as := by
  refine along_iff_guarded_of
    (fun s : GameServer => s.OwnIds ∧ (s.fault = none → s.Tracked) ∧ s.DeletesPresent)
    (fun s hs => hs.2.2) ?_ ?_ ?_ h
  · rintro s a s' ⟨ho, ht, hp⟩ hfresh hok hs
    obtain ⟨hf, hc⟩ := step_change hs
    exact ⟨hc.ownIds ho hfresh, hc.tracked ho hfresh (ht hf), deletesPresent_step hp (ht hf) hok hs⟩
  · rintro s a s' ⟨ho, ht, hp⟩ hfresh hno hs
    exact not_deletesPresent_step (ht (step_change hs).1) hno hs
  · refine ⟨ownIds_init playerSpawn world, fun _ => tracked_init playerSpawn world, ?_, by simp [init]⟩
    intro id hpc
    cases hpc

theorem deletes_present_iff_one_player : Along (step .lifo) DeletesPresent (init zeroMat [])
    [.server, .addClient 1, .pushMessage (.loadPlayer 1 [80]), .server, .server, .physics [], .physics [],
      .physics [], .removeClient 1, .physics [], .physics []] :=
  (deletes_present_iff .lifo zeroMat [] (by decide)).mpr (by decide)

/-- A player loads and leaves within one tick. -/
theorem not_deletes_present_same_tick : ¬ ∀ playerSpawn world as,
    Along (step .lifo) DeletesPresent (init playerSpawn world) as := by
  intro h
  let as : List Action := [.server, .addClient 1, .pushMessage (.loadPlayer 1 [80]), .server, .server,
    .removeClient 1, .physics [], .physics [], .physics []]
  have hrun : (run (step .lifo) (init zeroMat []) as).map (fun s => s.fault) = some (some .nullCharacter) := by
    decide
  obtain ⟨s, hs, he⟩ := Option.map_eq_some_iff.mp hrun
  exact ((h zeroMat [] as).last hs).fault he

end GameServer

end Quintses
