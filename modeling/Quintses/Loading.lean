import Quintses.WorldSections
import Quintses.ServerSteps

/-! The list of entries that the server thread of `GameServer` works through is
what `loadWorld` gets out of the document. -/

namespace Quintses

open Glm

inductive LoadStep (K : Type)
  | spawn (trans : Tmat4x4 K)
  | mob (templ : ByteString) (trans : Tmat4x4 K)
  | blocker (b : Blocker K)

/-- `bytes` is the memory that `glm::value_ptr` points to. -/
def LoadStep.entry {K : Type} (bytes : Tmat4x4 K → Mat4) : LoadStep K → WorldEntry
  | .spawn t => .playerSpawn (bytes t)
  | .mob templ t => .mob templ (bytes t)
  | .blocker b => .blocker b.templ (bytes b.trans)

section

variable {ι K : Type} [Add ι] [OfNat ι 1] [Add K] [Sub K] [Mul K] [Div K] [IntCast K]

def Loader.perform (st : Loader ι K) : LoadStep K → Loader ι K
  | .spawn t => { st with playerSpawn := t }
  | .mob templ t => st.addMob templ t
  | .blocker b => st.addBlocker b

variable (lib : CLib K)

def spawnSteps (root : XmlNode) : List (LoadStep K) :=
  match root.child? (literal "PlayerSpawn") with
  | none => []
  | some s => [.spawn (sectionTransform lib s)]

def mobSteps (root : XmlNode) : List (LoadStep K) :=
  match root.child? (literal "MobGroup") with
  | none => []
  | some g => (mobGroupOf lib g).places.map (.mob (mobGroupOf lib g).templ)

def loadSteps (doc : XmlNode) : List (LoadStep K) :=
  match doc.child? (literal "QuintsesWorld") with
  | none => []
  | some root =>
    spawnSteps lib root ++ mobSteps lib root ++
      (root.startingAt (literal "Blocker")).map (fun n => .blocker (blockerOf lib n))

theorem loadWorld_steps {fuel : Nat} {doc : XmlNode} {st st' : Loader ι K}
    (h : (loadWorld lib fuel doc).exec st = (.ok (), st')) :
    st' = (loadSteps lib doc).foldl Loader.perform st := by
  cases hroot : doc.child? (literal "QuintsesWorld") with
  | none =>
    rw [loadWorld_of_no_root lib hroot] at h
    rw [loadSteps, hroot]
    cases h
    rfl
  | some root =>
    have hfinishes : Finishes lib doc st := ⟨fuel, congrArg Prod.fst h⟩
    obtain ⟨hspawn, ⟨g, hg, hcomplete, -⟩, hblockers⟩ := (finishes_iff lib doc st).mp hfinishes root hroot
    rw [loadWorld_of_root lib hroot, if_pos hspawn, loadSections_of_group lib hg hcomplete] at h
    split at h
    case isFalse => cases h
    case isTrue hended =>
      have hplaced : (placeMobs fuel (mobGroupOf lib g) (st.afterSpawn lib root)).2 =
          (st.afterSpawn lib root).addMobs (mobGroupOf lib g).templ (mobGroupOf lib g).places :=
        (placeMobs_ended (Prod.ext hended rfl)).2
      rw [loadBlockers_of_complete lib hblockers, hplaced] at h
      have hst : st' = _ := (congrArg Prod.snd h).symm
      have hafter : st.afterSpawn lib root = (spawnSteps lib root).foldl Loader.perform st := by
        unfold Loader.afterSpawn spawnSteps
        cases root.child? (literal "PlayerSpawn") <;> rfl
      simp only [loadSteps, hroot, List.foldl_append, mobSteps, Option.mem_def.mp hg, List.foldl_map, ← hafter]
      refine hst.trans ?_
      rw [Loader.addBlockers, List.foldl_map]
      rfl

end

/-- The server has done what the loader has done. -/
structure Agrees {K : Type} (bytes : Tmat4x4 K → Mat4) (st : Loader UInt32 K) (s : GameServer) : Prop where
  nextId : s.server.nextId = st.nextId
  playerSpawn : s.server.playerSpawn = bytes st.playerSpawn
  baddies : s.server.baddies = st.baddies.map (fun b => ⟨b.templ, b.id⟩)
  log : s.log = (st.added.map (fun a =>
    Event.call (.addPhysical none a.id a.templ (bytes a.trans) a.isCharacter))).reverse
  physicsDeleted : s.physicsDeleted = false
  fault : s.fault = none

namespace GameServer

variable {K : Type} {bytes : Tmat4x4 K → Mat4} {st : Loader UInt32 K} {s : GameServer} (order : PopOrder)

theorem agrees_allocPhysical (h : Agrees bytes st s) (pc : ServerPc) (templ : ByteString) (t : Tmat4x4 K)
    (isCharacter : Bool) : Agrees bytes (st.addPhysical templ t isCharacter).2
      ((s.goto pc).allocPhysical order templ (bytes t) isCharacter) := by
  constructor
  · rw [allocPhysical_eq, apply_server]
    exact congrArg (· + 1) h.nextId
  · rw [allocPhysical_eq, apply_server]
    exact h.playerSpawn
  · rw [allocPhysical_eq, apply_server]
    exact h.baddies
  · rw [allocPhysical_eq, apply_log]
    have hid : s.server.nextId = st.nextId := h.nextId
    have hlog : (s.goto pc).log = _ := h.log
    rw [hlog]
    simp [Loader.addPhysical, Loader.getNextIdentifier, goto, hid]
  · rw [allocPhysical_eq, apply_eq, performed]
    exact h.physicsDeleted
  · rw [allocPhysical_eq, apply_eq, performed]
    have hfault : s.fault = none := h.fault
    simp [goto, h.physicsDeleted, hfault]

theorem agrees_perform {e : LoadStep K} {todo : List WorldEntry} (h : Agrees bytes st s)
    (hpc : s.serverPc = .loading (e.entry bytes :: todo)) :
    ∃ as s', Lts.run (step order) s as = some s' ∧ (∀ a ∈ as, a = .server) ∧ s'.serverPc = .loading todo ∧
      Agrees bytes (st.perform e) s' := by
  have hstep : step order s .server = s.stepServer order := by simp [step, h.fault]
  cases e with
  | spawn t =>
    let s' := (s.goto (.loading todo)).setServer (fun srv => { srv with playerSpawn := bytes t })
    have hs' : s.stepServer order = some s' := by
      unfold stepServer
      rw [hpc]
      rfl
    refine ⟨[.server], s', ?_, by simp, rfl, ?_⟩
    · simp [Lts.run_cons, hstep, hs']
    · exact ⟨h.nextId, rfl, h.baddies, h.log, h.physicsDeleted, h.fault⟩
  | mob templ t =>
    let b : BaddieData := ⟨templ, s.server.nextId⟩
    let mid := (s.goto (.pushBack b todo)).allocPhysical order templ (bytes t) true
    let s' := (mid.goto (.loading todo)).setServer (fun srv => { srv with baddies := srv.baddies ++ [b] })
    have hmid : Agrees bytes (st.addPhysical templ t true).2 mid := agrees_allocPhysical order h _ templ t true
    have hmidpc : mid.serverPc = .pushBack b todo := apply_serverPc _
    have hs : s.stepServer order = some mid := by
      unfold stepServer
      rw [hpc]
      rfl
    have hs' : step order mid .server = some s' := by
      simp only [step, hmid.fault, Option.isSome_none, Bool.false_eq_true, if_false]
      unfold stepServer
      rw [hmidpc]
    refine ⟨[.server, .server], s', ?_, by simp, rfl, ?_⟩
    · simp [Lts.run_cons, hstep, hs, hs']
    · refine ⟨hmid.nextId, hmid.playerSpawn, ?_, hmid.log, hmid.physicsDeleted, hmid.fault⟩
      have hid : s.server.nextId = st.nextId := h.nextId
      have hbaddies : s'.server.baddies = mid.server.baddies ++ [b] := rfl
      rw [hbaddies, hmid.baddies]
      simp [b, hid, Loader.perform, Loader.addMob, Loader.addPhysical, Loader.getNextIdentifier]
  | blocker b =>
    let s' := (s.goto (.loading todo)).allocPhysical order b.templ (bytes b.trans) false
    have hs' : s.stepServer order = some s' := by
      unfold stepServer
      rw [hpc]
      rfl
    have hpc' : s'.serverPc = .loading todo := apply_serverPc _
    refine ⟨[.server], s', ?_, by simp, hpc', ?_⟩
    · simp [Lts.run_cons, hstep, hs']
    · exact agrees_allocPhysical order h _ b.templ b.trans false

theorem agrees_performs {es : List (LoadStep K)} (h : Agrees bytes st s)
    (hpc : s.serverPc = .loading (es.map (LoadStep.entry bytes))) :
    ∃ as s', Lts.run (step order) s as = some s' ∧ (∀ a ∈ as, a = .server) ∧ s'.serverPc = .loading [] ∧
      Agrees bytes (es.foldl Loader.perform st) s' := by
  induction es generalizing st s with
  | nil => exact ⟨[], s, rfl, List.forall_mem_nil _, hpc, h⟩
  | cons e es ih =>
    obtain ⟨as, mid, hrun, hserver, hmid, hagrees⟩ := agrees_perform order h hpc
    obtain ⟨bs, s', hrun', hserver', hs', hagrees'⟩ := ih hagrees hmid
    refine ⟨as ++ bs, s', ?_, ?_, hs', hagrees'⟩
    · rw [Lts.run_append, hrun]
      exact hrun'
    · exact List.forall_mem_append.mpr ⟨hserver, hserver'⟩

variable [Add K] [Sub K] [Mul K] [Div K] [IntCast K] (lib : CLib K)

/-- The server thread, left to itself, gets from the entries of the document
to the same ids, baddies, spawn and calls as the loader. -/
theorem loading_refines (bytes : Tmat4x4 K → Mat4) {fuel : Nat} {doc : XmlNode} {st' : Loader UInt32 K}
    (h : (loadWorld lib fuel doc).exec ⟨1, .new, [], []⟩ = (.ok (), st')) :
    ∃ as s, Lts.run (step order) (init (bytes .new) ((loadSteps lib doc).map (LoadStep.entry bytes))) as =
      some s ∧ (∀ a ∈ as, a = .server) ∧ s.serverPc = .loading [] ∧ Agrees bytes st' s := by
  rw [loadWorld_steps lib h]
  exact agrees_performs order ⟨rfl, rfl, rfl, rfl, rfl, rfl⟩ rfl

end GameServer

end Quintses
