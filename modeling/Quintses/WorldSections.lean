import Quintses.MobGrid

/-! `loadWorld` on any document: when it gets to its end, and which children of
the root it registers as static objects. -/

namespace Quintses

open Glm

section

variable {ι K : Type} [Add ι] [OfNat ι 1]

namespace Loader

/-- The calls of `addPhysical` with three arguments. -/
def statics (st : Loader ι K) : List (Blocker K) :=
  (st.added.filter (fun a => !a.isCharacter)).map (fun a => ⟨a.templ, a.trans⟩)

def addBlockers (bs : List (Blocker K)) (st : Loader ι K) : Loader ι K := bs.foldl addBlocker st

variable {st : Loader ι K}

theorem statics_addMob (templ : ByteString) (t : Tmat4x4 K) : (st.addMob templ t).statics = st.statics := by
  simp [statics, addMob, addPhysical, getNextIdentifier]

theorem statics_addBlocker (b : Blocker K) : (st.addBlocker b).statics = st.statics ++ [b] := by
  simp [statics, addBlocker, addPhysical, getNextIdentifier]

theorem statics_addBlockers (bs : List (Blocker K)) : (st.addBlockers bs).statics = st.statics ++ bs := by
  induction bs generalizing st with
  | nil => exact (List.append_nil _).symm
  | cons b bs ih =>
    have hstep : (st.addBlockers (b :: bs)).statics = (st.addBlocker b).statics ++ bs := ih
    rw [hstep, statics_addBlocker, List.append_assoc, List.singleton_append]

theorem playerSpawn_addBlockers (bs : List (Blocker K)) : (st.addBlockers bs).playerSpawn = st.playerSpawn := by
  induction bs generalizing st with
  | nil => rfl
  | cons b bs ih => exact ih

end Loader

end

section

variable {ι K : Type} [Add K] [Sub K] [Mul K] [IntCast K] (lib : CLib K)

namespace Loader

def afterSpawn (root : XmlNode) (st : Loader ι K) : Loader ι K :=
  match root.child? (literal "PlayerSpawn") with
  | none => st
  | some s => { st with playerSpawn := sectionTransform lib s }

theorem statics_afterSpawn (root : XmlNode) (st : Loader ι K) : (st.afterSpawn lib root).statics = st.statics := by
  unfold afterSpawn
  split <;> rfl

end Loader

variable {lib} [Add ι] [OfNat ι 1]

theorem loadBlockers_cons (n : XmlNode) (ns : List XmlNode) (st : Loader ι K) :
    (loadBlockers lib (n :: ns)).exec st =
      if n.CompleteBlocker then (loadBlockers lib ns).exec (st.addBlocker (blockerOf lib n))
      else (.error (.nullNode .value), st) := by
  rw [loadBlockers]
  split
  case isTrue h =>
    have hread : readBlocker lib (n :: ns) = .ok (blockerOf lib n) := by rw [readBlocker_cons, if_pos h]
    rw [Load.exec_bind_ok (Load.exec_ofNode_ok hread), Load.exec_bind_ok (Load.exec_modify _)]
  case isFalse h =>
    have hread : readBlocker lib (n :: ns) = .error .value := by rw [readBlocker_cons, if_neg h]
    exact Load.exec_bind_error (Load.exec_ofNode_error hread)

variable (lib) in
theorem loadBlockers_of_complete {ns : List XmlNode} (h : ∀ n ∈ ns, n.CompleteBlocker) (st : Loader ι K) :
    (loadBlockers lib ns).exec st = (.ok (), st.addBlockers (ns.map (blockerOf lib))) := by
  induction ns generalizing st with
  | nil => rfl
  | cons n ns ih =>
    obtain ⟨hn, hns⟩ := List.forall_mem_cons.mp h
    rw [loadBlockers_cons, if_pos hn]
    exact ih hns _

variable (lib) in
theorem loadBlockers_of_not {ns : List XmlNode} (h : ¬∀ n ∈ ns, n.CompleteBlocker) (st : Loader ι K) :
    ∃ call st', (loadBlockers lib ns).exec st = (.error (.nullNode call), st') := by
  induction ns generalizing st with
  | nil => exact absurd (List.forall_mem_nil _) h
  | cons n ns ih =>
    rw [loadBlockers_cons]
    split
    case isTrue hn => exact ih (fun hns => h (List.forall_mem_cons.mpr ⟨hn, hns⟩)) _
    case isFalse => exact ⟨_, _, rfl⟩

variable [Div K]

theorem statics_placeMobs (g : MobGroup K) (fuel : Nat) (st : Loader ι K) :
    (placeMobs fuel g st).2.statics = st.statics ∧ (placeMobs fuel g st).2.playerSpawn = st.playerSpawn := by
  refine ForLoop.run_invariant
    (P := fun s : Loader ι K => s.statics = st.statics ∧ s.playerSpawn = st.playerSpawn) ?_ ⟨rfl, rfl⟩ fuel _
  intro column s hs
  refine ForLoop.run_invariant
    (P := fun s : Loader ι K => s.statics = st.statics ∧ s.playerSpawn = st.playerSpawn) ?_ hs fuel _
  intro row s hs
  exact ⟨(Loader.statics_addMob _ _).trans hs.1, hs.2⟩

variable (lib) in
theorem loadWorld_of_no_root {doc : XmlNode} (h : doc.child? (literal "QuintsesWorld") = none) (fuel : Nat)
    (st : Loader ι K) : (loadWorld lib fuel doc).exec st = (.ok (), st) := by
  have hroot : doc.startingAt (literal "QuintsesWorld") = [] := by
    rw [← List.head?_eq_none_iff, XmlNode.head?_startingAt, h]
  rw [loadWorld, Load.exec_bind_ok (Load.exec_ofNode_ok (NodePtr.firstNode_cons _ _ _)), hroot]
  rfl

def loadSections (lib : CLib K) (fuel : Nat) (root : XmlNode) : Load ι K Unit := do
  loadMobGroup lib fuel (root.startingAt (literal "MobGroup"))
  loadBlockers lib (root.startingAt (literal "Blocker"))

variable (lib) in
theorem loadWorld_of_root {doc root : XmlNode} (h : doc.child? (literal "QuintsesWorld") = some root) (fuel : Nat)
    (st : Loader ι K) : (loadWorld lib fuel doc).exec st =
      if ∀ s ∈ root.child? (literal "PlayerSpawn"), s.CompleteSpawn then
        (loadSections lib fuel root).exec (st.afterSpawn lib root)
      else (.error (.nullNode .value), st) := by
  obtain ⟨later, hroot⟩ := List.head?_eq_some_iff.mp ((doc.head?_startingAt _).trans h)
  have hhead := root.head?_startingAt (literal "PlayerSpawn")
  simp only [loadWorld, NodePtr.firstNode_cons, Load.ofNode_ok_bind, hroot, NodePtr.isNull,
    List.isEmpty_cons, Bool.false_eq_true, if_false]
  unfold Loader.afterSpawn
  rw [← hhead]
  cases hptr : root.startingAt (literal "PlayerSpawn") with
  | nil =>
    rw [if_pos (fun s hs => (by cases hs))]
    rfl
  | cons s rest =>
    simp only [List.isEmpty_cons, Bool.not_false, if_true, parseTransform_section, List.head?_cons,
      Option.mem_some_iff, forall_eq']
    split
    case isTrue hs =>
      rw [Load.ofNode_ok_bind, Load.exec_bind_ok (Load.exec_modify _)]
      rfl
    case isFalse hs => exact Load.exec_bind_error rfl

variable (lib) in
theorem loadSections_of_group {root g : XmlNode} (h : root.child? (literal "MobGroup") = some g)
    (hg : g.CompleteMobGroup) (fuel : Nat) (st : Loader ι K) : (loadSections lib fuel root).exec st =
      if (placeMobs fuel (mobGroupOf lib g) st).1 then
        (loadBlockers lib (root.startingAt (literal "Blocker"))).exec (placeMobs fuel (mobGroupOf lib g) st).2
      else (.error .outOfFuel, (placeMobs fuel (mobGroupOf lib g) st).2) := by
  obtain ⟨later, hgroup⟩ := List.head?_eq_some_iff.mp ((root.head?_startingAt _).trans h)
  have hrun : (loadMobGroup lib fuel (g :: later)).exec st = _ := loadMobGroup_of_complete hg later fuel st
  rw [loadSections, hgroup]
  cases hended : (placeMobs fuel (mobGroupOf lib g) st).1 with
  | true =>
    rw [hended] at hrun
    rw [Load.exec_bind_ok hrun, if_pos rfl]
  | false =>
    rw [hended] at hrun
    rw [Load.exec_bind_error hrun]
    rfl

variable (lib) in
theorem loadSections_of_no_group {root : XmlNode}
    (h : ¬∃ g ∈ root.child? (literal "MobGroup"), g.CompleteMobGroup) (fuel : Nat) (st : Loader ι K) :
    ∃ call, (loadSections lib fuel root).exec st = (.error (.nullNode call), st) := by
  have hhead := root.head?_startingAt (literal "MobGroup")
  rw [loadSections]
  cases hptr : root.startingAt (literal "MobGroup") with
  | nil => exact ⟨_, Load.exec_bind_error rfl⟩
  | cons g later =>
    have hg : ¬g.CompleteMobGroup := by
      intro hg
      rw [hptr] at hhead
      exact h ⟨g, hhead.symm, hg⟩
    obtain ⟨call, hcall⟩ := loadMobGroup_of_not lib hg later fuel st
    exact ⟨call, Load.exec_bind_error hcall⟩

def EndsOn (lib : CLib K) (g : XmlNode) : Prop :=
  GridEnds (mobGroupOf lib g).xdiv.toInt (mobGroupOf lib g).ydiv.toInt

instance (lib : CLib K) (g : XmlNode) : Decidable (EndsOn lib g) := inferInstanceAs (Decidable (GridEnds _ _))

theorem placeMobs_eventually {g : MobGroup K} (h : GridEnds g.xdiv.toInt g.ydiv.toInt) (st : Loader ι K) :
    ∃ bound, ∀ fuel ≥ bound, placeMobs fuel g st = (true, st.addMobs g.templ g.places) :=
  ⟨rounds g.xdiv.toInt + rounds g.ydiv.toInt + 1, fun fuel hfuel =>
    placeMobs_of_ends h (by omega) (fun _ => by omega) st⟩

variable (lib) in
theorem loadSections_finishes_iff (root : XmlNode) (st : Loader ι K) :
    (∃ fuel, ((loadSections lib fuel root).exec st).1 = .ok ()) ↔
      (∃ g ∈ root.child? (literal "MobGroup"), g.CompleteMobGroup ∧ EndsOn lib g) ∧
        ∀ n ∈ root.startingAt (literal "Blocker"), n.CompleteBlocker := by
  by_cases hgroup : ∃ g ∈ root.child? (literal "MobGroup"), g.CompleteMobGroup
  · obtain ⟨g, hg, hcomplete⟩ := hgroup
    have hrun (fuel : Nat) := loadSections_of_group lib hg hcomplete fuel st
    simp only [hrun]
    constructor
    · rintro ⟨fuel, hok⟩
      split at hok
      case isFalse => cases hok
      case isTrue hended =>
        refine ⟨⟨g, hg, hcomplete, (placeMobs_ended (Prod.ext hended rfl)).1⟩, ?_⟩
        by_contra hno
        obtain ⟨call, st'', hcall⟩ := loadBlockers_of_not lib hno
          (placeMobs fuel (mobGroupOf lib g) st).2
        rw [hcall] at hok
        cases hok
    · rintro ⟨⟨g', hg', -, hends⟩, hblockers⟩
      obtain rfl : g' = g := Option.some.inj (hg'.symm.trans hg)
      obtain ⟨bound, hbound⟩ := placeMobs_eventually hends st
      have hok := loadBlockers_of_complete lib hblockers
        (st.addMobs (mobGroupOf lib g').templ (mobGroupOf lib g').places)
      refine ⟨bound, ?_⟩
      rw [hbound bound (le_refl bound), if_pos rfl, hok]
  · constructor
    · rintro ⟨fuel, hok⟩
      obtain ⟨call, hcall⟩ := loadSections_of_no_group lib hgroup fuel st
      rw [hcall] at hok
      cases hok
    · rintro ⟨⟨g, hg, hcomplete, -⟩, -⟩
      exact absurd ⟨g, hg, hcomplete⟩ hgroup

variable (lib) in
theorem loadSections_never_null_iff (root : XmlNode) (st : Loader ι K) :
    (∀ fuel call, ((loadSections lib fuel root).exec st).1 ≠ .error (.nullNode call)) ↔
      ∃ g ∈ root.child? (literal "MobGroup"), g.CompleteMobGroup ∧
        (EndsOn lib g → ∀ n ∈ root.startingAt (literal "Blocker"), n.CompleteBlocker) := by
  by_cases hgroup : ∃ g ∈ root.child? (literal "MobGroup"), g.CompleteMobGroup
  · obtain ⟨g, hg, hcomplete⟩ := hgroup
    have hrun (fuel : Nat) := loadSections_of_group lib hg hcomplete fuel st
    simp only [hrun]
    constructor
    · intro h
      refine ⟨g, hg, hcomplete, fun hends => ?_⟩
      by_contra hno
      obtain ⟨bound, hbound⟩ := placeMobs_eventually hends st
      obtain ⟨call, st', hcall⟩ := loadBlockers_of_not lib hno
        (st.addMobs (mobGroupOf lib g).templ (mobGroupOf lib g).places)
      refine h bound call ?_
      rw [hbound bound (le_refl bound), if_pos rfl, hcall]
    · rintro ⟨g', hg', -, hblockers⟩ fuel call
      obtain rfl : g' = g := Option.some.inj (hg'.symm.trans hg)
      split
      case isTrue hended =>
        have hends := (placeMobs_ended (Prod.ext hended rfl)).1
        rw [loadBlockers_of_complete lib (hblockers hends)]
        exact fun hok => (by cases hok)
      case isFalse => exact fun hfuel => (by cases hfuel)
  · constructor
    · intro h
      obtain ⟨call, hcall⟩ := loadSections_of_no_group lib hgroup 0 st
      exact absurd (congrArg Prod.fst hcall) (h 0 call)
    · rintro ⟨g, hg, hcomplete, -⟩
      exact absurd ⟨g, hg, hcomplete⟩ hgroup

structure Loadable (lib : CLib K) (root : XmlNode) : Prop where
  spawn : ∀ s ∈ root.child? (literal "PlayerSpawn"), s.CompleteSpawn
  group : ∃ g ∈ root.child? (literal "MobGroup"), g.CompleteMobGroup ∧ EndsOn lib g
  blockers : ∀ n ∈ root.startingAt (literal "Blocker"), n.CompleteBlocker

def Finishes (lib : CLib K) (doc : XmlNode) (st : Loader ι K) : Prop :=
  ∃ fuel, ((loadWorld lib fuel doc).exec st).1 = .ok ()

def NeverNull (lib : CLib K) (doc : XmlNode) (st : Loader ι K) : Prop :=
  ∀ fuel call, ((loadWorld lib fuel doc).exec st).1 ≠ .error (.nullNode call)

theorem finishes_iff (lib : CLib K) (doc : XmlNode) (st : Loader ι K) :
    Finishes lib doc st ↔ ∀ root ∈ doc.child? (literal "QuintsesWorld"), Loadable lib root := by
  unfold Finishes
  cases hroot : doc.child? (literal "QuintsesWorld") with
  | none =>
    have hrun := loadWorld_of_no_root lib hroot 0 st
    exact ⟨fun _ root h => (by cases h), fun _ => ⟨0, congrArg Prod.fst hrun⟩⟩
  | some root =>
    have hrun (fuel : Nat) := loadWorld_of_root lib hroot fuel st
    simp only [hrun, Option.mem_some_iff, forall_eq']
    by_cases hspawn : ∀ s ∈ root.child? (literal "PlayerSpawn"), s.CompleteSpawn
    · simp only [if_pos hspawn]
      rw [loadSections_finishes_iff]
      exact ⟨fun ⟨hgroup, hblockers⟩ => ⟨hspawn, hgroup, hblockers⟩, fun h => ⟨h.group, h.blockers⟩⟩
    · simp only [if_neg hspawn]
      exact ⟨fun ⟨_, h⟩ => (by cases h), fun h => absurd h.spawn hspawn⟩

theorem neverNull_iff (lib : CLib K) (doc : XmlNode) (st : Loader ι K) :
    NeverNull lib doc st ↔ ∀ root ∈ doc.child? (literal "QuintsesWorld"),
      (∀ s ∈ root.child? (literal "PlayerSpawn"), s.CompleteSpawn) ∧
      ∃ g ∈ root.child? (literal "MobGroup"), g.CompleteMobGroup ∧
        (EndsOn lib g → ∀ n ∈ root.startingAt (literal "Blocker"), n.CompleteBlocker) := by
  unfold NeverNull
  cases hroot : doc.child? (literal "QuintsesWorld") with
  | none =>
    have hrun (fuel : Nat) := loadWorld_of_no_root lib hroot fuel st
    simp only [hrun]
    exact ⟨fun _ root h => (by cases h), fun _ _ _ h => (by cases h)⟩
  | some root =>
    have hrun (fuel : Nat) := loadWorld_of_root lib hroot fuel st
    simp only [hrun, Option.mem_some_iff, forall_eq']
    by_cases hspawn : ∀ s ∈ root.child? (literal "PlayerSpawn"), s.CompleteSpawn
    · simp only [if_pos hspawn]
      rw [loadSections_never_null_iff]
      exact ⟨fun h => ⟨hspawn, h⟩, fun h => h.2⟩
    · simp only [if_neg hspawn]
      exact ⟨fun h => absurd rfl (h 0 .value), fun h => absurd h.1 hspawn⟩

/-- The second part says when no call is on a null pointer although the loops
on the grid may not end. -/
theorem loadWorld_survives_iff (lib : CLib K) (doc : XmlNode) (st : Loader ι K) :
    (Finishes lib doc st ∧ NeverNull lib doc st ↔
      ∀ root ∈ doc.child? (literal "QuintsesWorld"), Loadable lib root) ∧
    (NeverNull lib doc st ↔ ∀ root ∈ doc.child? (literal "QuintsesWorld"),
      (∀ s ∈ root.child? (literal "PlayerSpawn"), s.CompleteSpawn) ∧
      ∃ g ∈ root.child? (literal "MobGroup"), g.CompleteMobGroup ∧
        (EndsOn lib g → ∀ n ∈ root.startingAt (literal "Blocker"), n.CompleteBlocker)) := by
  refine ⟨?_, neverNull_iff lib doc st⟩
  rw [finishes_iff, neverNull_iff]
  refine ⟨And.left, fun h => ⟨h, fun root hroot => ?_⟩⟩
  obtain ⟨hspawn, ⟨g, hg, hcomplete, -⟩, hblockers⟩ := h root hroot
  exact ⟨hspawn, g, hg, hcomplete, fun _ => hblockers⟩

/-- `<QuintsesWorld/>` -/
def emptyWorld : XmlNode := .branch "" [.branch "QuintsesWorld" []]

theorem not_loadWorld_survives :
    ¬(Finishes CLib.numerals emptyWorld (⟨1, .new, [], []⟩ : Loader ℕ ℚ) ∧
      NeverNull CLib.numerals emptyWorld (⟨1, .new, [], []⟩ : Loader ℕ ℚ)) := by
  rintro ⟨-, h⟩
  exact h 0 (.firstNode (literal "Template")) rfl

end

end Quintses
