import Quintses.FreshIds
import Quintses.PhysicsDelete
import Quintses.PhysicsWorld
import Quintses.Shutdown

/-! The Bullet objects over the whole life of the physics thread. What is
allocated and registered is at any time what the two maps hold, and when the
thread has stopped nothing is left. -/

namespace Quintses

open Lts

namespace BtPhysics

/-- What only the physics thread changes, apart from the states of characters. -/
def books (p : BtPhysics) :
    DynamicsWorld × Heap BulletObject × StdMap UInt32 PhysicsObject × StdMap UInt32 CharacterObject :=
  (p.world, p.heap, p.objects, p.characters)

def Balanced (p : BtPhysics) : Prop := Accounts p.world p.heap p.objects.values p.characters.values

theorem balanced_new : new.Balanced := by
  refine ⟨List.Perm.refl _, List.Perm.refl _, List.Perm.refl _, ?_, ?_, List.Perm.refl _⟩
  · simp [new, StdMap.values, StdMap.empty]
  · simp [new, StdMap.values, StdMap.empty]

theorem Balanced.congr {p p' : BtPhysics} (h : p.Balanced) (hb : p'.books = p.books) : p'.Balanced := by
  simp only [books, Prod.mk.injEq] at hb
  obtain ⟨hworld, hheap, hobjects, hcharacters⟩ := hb
  rw [Balanced, hworld, hheap, hobjects, hcharacters]
  exact h

theorem Balanced.setInputStates {p : BtPhysics} (h : p.Balanced) (ids : List UInt32) (state : UInt16) :
    (ids.foldl (fun p id => p.setInputStateCallback id state) p).Balanced := by
  induction ids generalizing p with
  | nil => exact h
  | cons id ids ih => exact ih (setInputState_accounts h id state)

/-- A message that the code can handle is of an entry that is there. -/
theorem fits_of_ok {p p' : BtPhysics} {msg : ServerMsg} {srv srv' : LocalServer} (hnew : ¬ p.Replaces msg)
    (h : p.parseMessage msg srv = .ok (srv', p')) : PhysicsWorld.Fits ⟨srv, p, false⟩ msg := by
  cases msg with
  | bullet b =>
    cases b with
    | addPhys id template matrix => exact Bool.not_eq_true _ |>.mp hnew
    | addChar id template matrix => exact Bool.not_eq_true _ |>.mp hnew
    | delPhys id =>
      cases hfind : p.objects.find? id with
      | none => simp [parseMessage, parseBullet, delPhysObject, hfind, Except.map] at h
      | some o => exact Option.isSome_iff_exists.mpr ⟨o, hfind⟩
    | delChar id =>
      cases hfind : p.characters.find? id with
      | none => simp [parseMessage, parseBullet, delCharObject, hfind, Except.map] at h
      | some c => exact Option.isSome_iff_exists.mpr ⟨c, hfind⟩
    | forceState id state => trivial
  | _ => trivial

end BtPhysics

namespace GameServer

/-- Nothing is unregistered or deleted that is not there, and nothing stays. A
message that deletes what the maps do not have is not carried out. -/
structure GivesBack (s : GameServer) : Prop where
  balanced : s.physicsPc ≠ .stopped → s.physics.Balanced
  parsed : ∀ msg, s.physicsPc = .parsing msg → s.physics.Misses msg ∨
    ∃ srv p, s.physics.parseMessage msg s.server = .ok (srv, p) ∧
      s.physics.parseMessage? msg s.server = some (srv, p)
  cleanUp : s.physicsPc = .cleaning → s.physics.cleanUp? = some s.physics.cleanUp
  stopped : s.physicsPc = .stopped → s.physics.world = ⟨[], [], []⟩ ∧ s.physics.heap.keys = []

/-- The invariant: the rest of `GivesBack` follows. -/
structure Kept (s : GameServer) : Prop where
  balanced : s.physicsPc ≠ .stopped → s.physics.Balanced
  stopped : s.physicsPc = .stopped → s.physics.world = ⟨[], [], []⟩ ∧ s.physics.heap.keys = []

variable {order : PopOrder} {s s' t : GameServer} {a : Action}

theorem Kept.frame (h : s.Kept) (hpc : s'.physicsPc = .stopped ↔ s.physicsPc = .stopped)
    (hb : s'.physics.books = s.physics.books) : s'.Kept where
  balanced hrun := (h.balanced (fun hs => hrun (hpc.mpr hs))).congr hb
  stopped hstop := by
    simp only [BtPhysics.books, Prod.mk.injEq] at hb
    rw [hb.1, hb.2.1]
    exact h.stopped (hpc.mp hstop)

theorem apply_books (r : LocalServer × List Call) : (s.apply order r).physics.books = s.physics.books := by
  simp only [apply_eq, performed]
  split <;> rfl

theorem handle_books (msg : ServerMsg) : (s.handle order msg).physics.books = s.physics.books := by
  cases msg with
  | loadPlayer sender template =>
    exact apply_books (s := (s.record (.handled (.loadPlayer sender template))).goto .waiting) _
  | input sender state =>
    simp only [handle, onPhysics]
    split <;> rfl
  | _ => rfl

/-- The server thread only ever pushes to the physics. -/
theorem stepServer_books (hs : s.stepServer order = some s') :
    s'.physicsPc = s.physicsPc ∧ s'.physics.books = s.physics.books := by
  unfold stepServer at hs
  split at hs
  case h_3 templ mat todo hpc =>
    cases hs
    rw [allocPhysical_eq, apply_physicsPc, apply_books]
    exact ⟨rfl, rfl⟩
  case h_4 templ mat todo hpc =>
    cases hs
    rw [allocPhysical_eq, apply_physicsPc, apply_books]
    exact ⟨rfl, rfl⟩
  case h_6 hpc => split at hs <;> cases hs; exact ⟨rfl, rfl⟩
  case h_7 msg hpc => cases hs; exact ⟨(handle_physics msg).1, handle_books msg⟩
  case h_9 hpc => split at hs <;> cases hs; exact ⟨rfl, rfl⟩
  case h_11 hpc =>
    cases hs
    rw [apply_physicsPc, apply_books]
    exact ⟨rfl, rfl⟩
  case h_13 hpc => cases hs
  all_goals
    cases hs
    exact ⟨rfl, rfl⟩

/-- What a step does to the books of the physics. -/
inductive Booked (s s' : GameServer) : Prop
  | same (hpc : s'.physicsPc = .stopped ↔ s.physicsPc = .stopped) (hbooks : s'.physics.books = s.physics.books)
  | parsed {msg : ServerMsg} (hpc : s.physicsPc = .parsing msg) (hparse : s' = s.parse msg)
  | ticked (ids : List UInt32) (state : UInt16) (hpc : s.physicsPc ≠ .stopped) (hpc' : s'.physicsPc ≠ .stopped)
    (hphysics : s'.physics = ids.foldl (fun p id => p.setInputStateCallback id state) s.physics)
  | cleaned (hpc : s.physicsPc = .cleaning) (hpc' : s'.physicsPc = .stopped)
    (hphysics : s'.physics = s.physics.cleanUp)

theorem stepPhysics_booked {mats : List Mat4} (hs : s.stepPhysics order mats = some s') : Booked s s' := by
  unfold stepPhysics at hs
  split at hs
  case h_1 hpc =>
    cases hs
    refine .same ?_ rfl
    by_cases hf : s.physics.finish = true <;> simp [gotoPhysics, hpc, hf]
  case h_2 hpc =>
    split at hs
    · cases hs
      exact .same (by simp [gotoPhysics, setPhysics, hpc]) rfl
    · split at hs <;> cases hs
      exact .same (by simp [gotoPhysics, hpc]) rfl
  case h_3 msg hpc => cases hs; exact .parsed hpc rfl
  case h_4 ct hpc => cases hs; exact .ticked _ _ (by simp [hpc]) (by simp [gotoPhysics]) rfl
  case h_5 ct hpc =>
    cases hs
    exact .same (by simp [apply_physicsPc, gotoPhysics, hpc]) (apply_books (s := s.gotoPhysics .loopHead) _)
  case h_6 hpc => cases hs; exact .cleaned hpc rfl rfl
  case h_7 hpc => cases hs

theorem step_booked (hs : step order s a = some s') : Booked s s' := by
  obtain ⟨hf, hc⟩ := step_change hs
  cases a with
  | addClient c =>
    cases hc with
    | addClient hc hnew => exact .same (by rw [apply_physicsPc]; rfl) (apply_books (s := s.record (.addClient c)) _)
  | removeClient c =>
    cases hc with
    | removeClient hadd =>
      exact .same (by rw [record, apply_physicsPc]) (apply_books (s := s) (s.server.removeClient c))
  | pushMessage msg =>
    cases hc with
    | receive hm => exact .same Iff.rfl rfl
  | server =>
    simp only [step, hf, Option.isSome_none, Bool.false_eq_true, if_false] at hs
    obtain ⟨hpc, hbooks⟩ := stepServer_books hs
    exact .same (by rw [hpc]) hbooks
  | physics mats =>
    simp only [step, hf, Option.isSome_none, Bool.false_eq_true, if_false] at hs
    exact stepPhysics_booked hs

theorem parse_kept {msg : ServerMsg} (h : s.Kept) (hn : s.Numbered) (hpc : s.physicsPc = .parsing msg)
    (hfault : (s.parse msg).fault = none) : (s.parse msg).Kept := by
  have hbalanced := h.balanced (by simp [hpc])
  cases hparse : s.physics.parseMessage msg s.server with
  | error e =>
    rw [parse_error hparse] at hfault
    cases hfault
  | ok r =>
    obtain ⟨srv, p⟩ := r
    have hfits := BtPhysics.fits_of_ok (hn.idsApart.replaces msg hpc) hparse
    obtain ⟨srv', p', -, hok, hnew⟩ := BtPhysics.parseMessage_accounts hbalanced hfits
    obtain ⟨rfl, rfl⟩ : srv' = srv ∧ p' = p := by simpa [hparse, eq_comm] using hok
    rw [parse_ok hparse]
    exact ⟨fun _ => hnew, fun hstop => by cases hstop⟩

theorem step_kept (h : s.Kept) (hn : s.Numbered) (hs : step order s a = some s') (hfault : s'.fault = none) :
    s'.Kept := by
  cases step_booked hs with
  | same hpc hbooks => exact h.frame hpc hbooks
  | parsed hpc hparse =>
    subst hparse
    exact parse_kept h hn hpc hfault
  | ticked ids state hpc hpc' hphysics =>
    refine ⟨fun _ => ?_, fun hstop => absurd hstop hpc'⟩
    rw [hphysics]
    exact (h.balanced hpc).setInputStates ids state
  | cleaned hpc hpc' hphysics =>
    obtain ⟨-, hworld, hheap⟩ := BtPhysics.cleanUp_accounts (h.balanced (by simp [hpc]))
    refine ⟨fun hrun => absurd hpc' hrun, fun _ => ?_⟩
    rw [hphysics]
    exact ⟨hworld, hheap⟩

theorem Kept.givesBack (h : s.Kept) (hn : s.Numbered) : s.GivesBack where
  balanced := h.balanced
  parsed msg hpc := by
    cases hparse : s.physics.parseMessage msg s.server with
    | error e => exact Or.inl (BtPhysics.parseMessage_error hparse)
    | ok r =>
      have hfits := BtPhysics.fits_of_ok (hn.idsApart.replaces msg hpc) hparse
      obtain ⟨srv, p, hchecked, hok, -⟩ :=
        BtPhysics.parseMessage_accounts (h.balanced (by simp [hpc])) hfits
      exact Or.inr ⟨srv, p, hparse.symm.trans hok, hchecked⟩
  cleanUp hpc := (BtPhysics.cleanUp_accounts (h.balanced (by simp [hpc]))).1
  stopped := h.stopped

/-- In a run that hands out fewer than 2 ^ 32 - 1 ids, as long as nothing has gone
wrong, the physics thread deletes and unregisters only what is there, and when it
has stopped it has given everything back. -/
theorem everything_given_back (order : PopOrder) (playerSpawn : Mat4) (world : List WorldEntry)
    {as : List Action} {t : GameServer} (hr : run (step order) (init playerSpawn world) as = some t)
    (hlen : t.allocated.length < 2 ^ 32 - 1) :
    Along (step order) (fun s => s.fault = none → s.GivesBack) (init playerSpawn world) as := by
  have hmono (s : GameServer) (a : Action) (s' : GameServer) (hs : step order s a = some s') :
      s.allocated.length ≤ s'.allocated.length := (step_handed hs).allocated_le
  have hshort := along_le_last hmono hr
  have hinv : Along (step order)
      (fun s => s.allocated.length < 2 ^ 32 - 1 → s.Numbered ∧ (s.fault = none → s.Kept))
      (init playerSpawn world) as := by
    refine along_of_step _ (fun s a s' hi hs hlen' => ?_) (fun _ => ⟨numbered_init playerSpawn world, fun _ => ?_⟩) as
    · have hle := hmono s a s' hs
      obtain ⟨hn, hkept⟩ := hi (by omega)
      exact ⟨(step_handed hs).numbered hn hlen', step_kept (hkept (step_change hs).1) hn hs⟩
    · exact ⟨fun _ => BtPhysics.balanced_new, fun hstop => by cases hstop⟩
  refine (hinv.and hshort).mono (fun s hs hf => ?_)
  obtain ⟨hall, hle⟩ := hs
  obtain ⟨hn, hkept⟩ := hall (by omega)
  exact (hkept hf).givesBack hn

/-- A wall, a baddie and a player who leaves, then the end. -/
def wholeLife : List Action := [.server, .server, .server, .server, .addClient 1, .pushMessage (.loadPlayer 1 [80]),
  .server, .server, .physics [], .physics [], .physics [], .physics [], .physics [], .physics [], .physics [],
  .removeClient 1, .physics [], .physics [], .pushMessage (.shutdown 0), .server, .server, .server,
  .physics [zeroMat], .physics [], .physics [], .physics [], .physics []]

theorem everything_given_back_whole_life : ∃ s t,
    run (step .lifo) (init zeroMat [.blocker (literal "Floor") zeroMat, .mob [66] zeroMat])
      (wholeLife.take 23) = some s ∧ (s.physics.heap.keys.length = 6 ∧ s.fault = none) ∧
    run (step .lifo) (init zeroMat [.blocker (literal "Floor") zeroMat, .mob [66] zeroMat])
      wholeLife = some t ∧ t.physicsPc = .stopped ∧ t.GivesBack := by
  have hmid : (run (step .lifo) (init zeroMat [.blocker (literal "Floor") zeroMat, .mob [66] zeroMat])
      (wholeLife.take 23)).map (fun s => (s.physics.heap.keys.length, s.fault)) = some (6, none) := by decide
  have hend : (run (step .lifo) (init zeroMat [.blocker (literal "Floor") zeroMat, .mob [66] zeroMat])
      wholeLife).map (fun t => (t.physicsPc, t.fault, t.allocated)) = some (.stopped, none, [3, 2, 1]) := by decide
  obtain ⟨s, hs, hkeys⟩ := Option.map_eq_some_iff.mp hmid
  obtain ⟨t, ht, he⟩ := Option.map_eq_some_iff.mp hend
  simp only [Prod.mk.injEq] at hkeys he
  obtain ⟨hstopped, hfault, hids⟩ := he
  have hall := everything_given_back .lifo zeroMat _ ht (by rw [hids]; decide)
  exact ⟨s, t, hs, hkeys, ht, hstopped, hall.last ht hfault⟩

end GameServer

end Quintses
