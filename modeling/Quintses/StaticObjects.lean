import Quintses.WorldSections

/-! Which children of the root become static objects. The walk starts at the
first blocker and goes on to every later sibling, whatever its name. -/

namespace Quintses

open Glm

section

variable {ι K : Type} [Add K] [Sub K] [Mul K] [IntCast K] (lib : CLib K)

/-- Every section that has one of the three names is complete. -/
structure CompleteSections (root : XmlNode) : Prop where
  spawns : ∀ n ∈ root.children, n.name = literal "PlayerSpawn" → n.CompleteSpawn
  groups : ∀ n ∈ root.children, n.name = literal "MobGroup" → n.CompleteMobGroup
  blockers : ∀ n ∈ root.children, n.name = literal "Blocker" → n.CompleteBlocker
  someGroup : ∃ n ∈ root.children, n.name = literal "MobGroup"

/-- The static objects and the spawn that `root` asks for. -/
structure Registered (root : XmlNode) (st st' : Loader ι K) : Prop where
  statics : st'.statics = st.statics ++ (root.named (literal "Blocker")).map (blockerOf lib)
  playerSpawn : st'.playerSpawn =
    ((root.named (literal "PlayerSpawn")).head?.map (sectionTransform lib)).getD st.playerSpawn

/-- The loops on the mobs may go on for ever, so this is about all runs that
are long enough. -/
def RegistersBlockers [Add ι] [OfNat ι 1] [Div K] (doc root : XmlNode) (st : Loader ι K) : Prop :=
  NeverNull lib doc st ∧
    ∃ bound, ∀ fuel ≥ bound, Registered lib root st ((loadWorld lib fuel doc).exec st).2

/-- The sections of each name in the same order. -/
def SameSections (root root' : XmlNode) : Prop := ∀ name, root.named name = root'.named name

/-- The walk from the first blocker meets blockers only. -/
def BlockersLast (root : XmlNode) : Prop :=
  ∀ n ∈ root.startingAt (literal "Blocker"), n.name = literal "Blocker"

instance (root : XmlNode) : Decidable (BlockersLast root) :=
  inferInstanceAs (Decidable (∀ n ∈ root.startingAt (literal "Blocker"), n.name = literal "Blocker"))

variable {lib} {root : XmlNode}

theorem CompleteSections.spawn (h : CompleteSections root) :
    ∀ s ∈ root.child? (literal "PlayerSpawn"), s.CompleteSpawn := by
  intro s hs
  obtain ⟨hmem, hname⟩ := XmlNode.mem_of_child? hs
  exact h.spawns s hmem hname

theorem CompleteSections.group (h : CompleteSections root) :
    ∃ g, root.child? (literal "MobGroup") = some g ∧ g.CompleteMobGroup := by
  obtain ⟨n, hn, hname⟩ := h.someGroup
  have hsome : (root.child? (literal "MobGroup")).isSome := by
    rw [XmlNode.child?, List.find?_isSome]
    exact ⟨n, hn, decide_eq_true hname⟩
  obtain ⟨g, hg⟩ := Option.isSome_iff_exists.mp hsome
  obtain ⟨hmem, hgname⟩ := XmlNode.mem_of_child? hg
  exact ⟨g, hg, h.groups g hmem hgname⟩

variable (lib) in
theorem blockersLast_iff : BlockersLast root ↔ (root.startingAt (literal "Blocker")).map (blockerOf lib) =
    (root.named (literal "Blocker")).map (blockerOf lib) := by
  constructor
  · intro h
    rw [XmlNode.named_eq_startingAt h]
  · intro h
    have hlen := congrArg List.length h
    rw [List.length_map, List.length_map, ← XmlNode.filter_startingAt] at hlen
    have hall := List.length_filter_eq_length_iff.mp hlen.symm
    exact fun n hn => of_decide_eq_true (hall n hn)

/-- Where the loader stands when the walk begins. -/
structure BeforeWalk (lib : CLib K) (root : XmlNode) (st mid : Loader ι K) : Prop where
  statics : mid.statics = st.statics
  playerSpawn : mid.playerSpawn =
    ((root.named (literal "PlayerSpawn")).head?.map (sectionTransform lib)).getD st.playerSpawn

theorem BeforeWalk.registered {st mid : Loader ι K} (h : BeforeWalk lib root st mid) :
    Registered lib root st mid ↔ root.named (literal "Blocker") = [] := by
  constructor
  · intro hreg
    have hstatics := hreg.statics
    rw [h.statics] at hstatics
    exact List.map_eq_nil_iff.mp (List.self_eq_append_right.mp hstatics)
  · intro hnone
    refine ⟨?_, h.playerSpawn⟩
    rw [h.statics, hnone, List.map_nil, List.append_nil]

variable [Add ι] [OfNat ι 1]

theorem BeforeWalk.registered_addBlockers {st mid : Loader ι K} (h : BeforeWalk lib root st mid) :
    Registered lib root st
      (mid.addBlockers ((root.startingAt (literal "Blocker")).map (blockerOf lib))) ↔ BlockersLast root := by
  rw [blockersLast_iff lib]
  constructor
  · intro hreg
    have hstatics := hreg.statics
    rw [Loader.statics_addBlockers, h.statics] at hstatics
    exact List.append_cancel_left hstatics
  · intro hmap
    refine ⟨?_, ?_⟩
    · rw [Loader.statics_addBlockers, h.statics, hmap]
    · rw [Loader.playerSpawn_addBlockers, h.playerSpawn]

variable [Div K]

theorem beforeWalk_placeMobs (root : XmlNode) (g : MobGroup K) (fuel : Nat) (st : Loader ι K) :
    BeforeWalk lib root st (placeMobs fuel g (st.afterSpawn lib root)).2 := by
  obtain ⟨hstatics, hspawn⟩ := statics_placeMobs g fuel (st.afterSpawn lib root)
  refine ⟨hstatics.trans (Loader.statics_afterSpawn lib root st), hspawn.trans ?_⟩
  rw [XmlNode.head?_named]
  unfold Loader.afterSpawn
  cases root.child? (literal "PlayerSpawn") <;> rfl

variable (lib) {doc g : XmlNode}

theorem loadWorld_of_sections (hroot : doc.child? (literal "QuintsesWorld") = some root)
    (h : CompleteSections root) (hg : root.child? (literal "MobGroup") = some g) (hcomplete : g.CompleteMobGroup)
    (fuel : Nat) (st : Loader ι K) : (loadWorld lib fuel doc).exec st =
      if (placeMobs fuel (mobGroupOf lib g) (st.afterSpawn lib root)).1 then
        (loadBlockers lib (root.startingAt (literal "Blocker"))).exec
          (placeMobs fuel (mobGroupOf lib g) (st.afterSpawn lib root)).2
      else (.error .outOfFuel, (placeMobs fuel (mobGroupOf lib g) (st.afterSpawn lib root)).2) := by
  rw [loadWorld_of_root lib hroot, if_pos h.spawn]
  exact loadSections_of_group lib hg hcomplete fuel _

theorem registersBlockers_of_ends (hroot : doc.child? (literal "QuintsesWorld") = some root)
    (h : CompleteSections root) (hg : root.child? (literal "MobGroup") = some g) (hcomplete : g.CompleteMobGroup)
    (hends : EndsOn lib g) (st : Loader ι K) : RegistersBlockers lib doc root st ↔ BlockersLast root := by
  have hnull : NeverNull lib doc st ↔ ∀ n ∈ root.startingAt (literal "Blocker"), n.CompleteBlocker := by
    rw [neverNull_iff, hroot]
    constructor
    · intro hall
      obtain ⟨-, g', hg', -, hblockers⟩ := hall root rfl
      obtain rfl : g' = g := Option.some.inj (hg'.symm.trans hg)
      exact hblockers hends
    · rintro hblockers _ ⟨⟩
      exact ⟨h.spawn, g, hg, hcomplete, fun _ => hblockers⟩
  obtain ⟨bound, hbound⟩ := placeMobs_eventually hends (st.afterSpawn lib root)
  have hwalk (hall : ∀ n ∈ root.startingAt (literal "Blocker"), n.CompleteBlocker) (fuel : Nat)
      (hfuel : fuel ≥ bound) :
      Registered lib root st ((loadWorld lib fuel doc).exec st).2 ↔ BlockersLast root := by
    rw [loadWorld_of_sections lib hroot h hg hcomplete, if_pos (congrArg Prod.fst (hbound fuel hfuel)),
      loadBlockers_of_complete lib hall]
    exact (beforeWalk_placeMobs root _ fuel st).registered_addBlockers
  constructor
  · rintro ⟨hnever, bound', hreg⟩
    have hlong := hreg (max bound bound') (le_max_right _ _)
    exact (hwalk (hnull.mp hnever) _ (le_max_left _ _)).mp hlong
  · intro hlast
    have hall (n : XmlNode) (hn : n ∈ root.startingAt (literal "Blocker")) : n.CompleteBlocker :=
      h.blockers n (XmlNode.mem_of_mem_startingAt hn) (hlast n hn)
    exact ⟨hnull.mpr hall, bound, fun fuel hfuel => (hwalk hall fuel hfuel).mpr hlast⟩

theorem registersBlockers_of_not_ends (hroot : doc.child? (literal "QuintsesWorld") = some root)
    (h : CompleteSections root) (hg : root.child? (literal "MobGroup") = some g) (hcomplete : g.CompleteMobGroup)
    (hends : ¬EndsOn lib g) (st : Loader ι K) :
    RegistersBlockers lib doc root st ↔ root.named (literal "Blocker") = [] := by
  have hnull : NeverNull lib doc st := by
    rw [neverNull_iff, hroot]
    rintro _ ⟨⟩
    exact ⟨h.spawn, g, hg, hcomplete, fun h => absurd h hends⟩
  have hstuck (fuel : Nat) : Registered lib root st ((loadWorld lib fuel doc).exec st).2 ↔
      root.named (literal "Blocker") = [] := by
    have hfalse := placeMobs_of_not_ends hends fuel (st.afterSpawn lib root)
    rw [loadWorld_of_sections lib hroot h hg hcomplete, if_neg (Bool.eq_false_iff.mp hfalse)]
    exact (beforeWalk_placeMobs root _ fuel st).registered
  constructor
  · rintro ⟨-, bound, hreg⟩
    exact (hstuck bound).mp (hreg bound (le_refl bound))
  · intro hnone
    exact ⟨hnull, 0, fun fuel _ => (hstuck fuel).mpr hnone⟩

theorem registersBlockers_iff (hroot : doc.child? (literal "QuintsesWorld") = some root)
    (hsections : CompleteSections root) (st : Loader ι K) :
    (RegistersBlockers lib doc root st ↔ BlockersLast root ∧
      (root.named (literal "Blocker") = [] ∨ ∀ g ∈ root.child? (literal "MobGroup"), EndsOn lib g)) ∧
    ∀ doc' root', SameSections root root' → RegistersBlockers lib doc root st →
      RegistersBlockers lib doc' root' st → ∃ bound, ∀ fuel ≥ bound,
        ((loadWorld lib fuel doc').exec st).2.statics = ((loadWorld lib fuel doc).exec st).2.statics ∧
        ((loadWorld lib fuel doc').exec st).2.playerSpawn = ((loadWorld lib fuel doc).exec st).2.playerSpawn := by
  constructor
  · obtain ⟨g, hg, hcomplete⟩ := hsections.group
    by_cases hends : EndsOn lib g
    · rw [registersBlockers_of_ends lib hroot hsections hg hcomplete hends]
      simp [hg, hends]
    · rw [registersBlockers_of_not_ends lib hroot hsections hg hcomplete hends]
      simp only [hg, Option.mem_some_iff, forall_eq', hends, or_false]
      refine ⟨fun hnone => ⟨?_, hnone⟩, And.right⟩
      rw [BlockersLast, (XmlNode.startingAt_eq_nil_iff _ _).mpr hnone]
      exact List.forall_mem_nil _
  · rintro doc' root' hsame ⟨-, bound, hreg⟩ ⟨-, bound', hreg'⟩
    refine ⟨max bound bound', fun fuel hfuel => ?_⟩
    have hlong := hreg fuel ((le_max_left _ _).trans hfuel)
    have hlong' := hreg' fuel ((le_max_right _ _).trans hfuel)
    refine ⟨?_, ?_⟩
    · rw [hlong'.statics, hlong.statics, hsame]
    · rw [hlong'.playerSpawn, hlong.playerSpawn, hsame]

end

/-- Blockers last, as in `data/world.xml`. -/
def shippedRoot : XmlNode :=
  .branch "QuintsesWorld" [
    .branch "PlayerSpawn" [.branch "Transform" [
      .branch "Position" [.leaf "X" "0", .leaf "Y" "-13", .leaf "Z" "-25"]]],
    shippedMobGroup,
    .branch "Blocker" [.leaf "Template" "Floor", .branch "Transform" [
      .branch "Position" [.leaf "X" "0", .leaf "Y" "0", .leaf "Z" "-30"]]]]

theorem registersBlockers_iff_shipped :
    (RegistersBlockers CLib.numerals (.branch "" [shippedRoot]) shippedRoot (⟨1, .new, [], []⟩ : Loader ℕ ℚ) ↔
      BlockersLast shippedRoot ∧ (shippedRoot.named (literal "Blocker") = [] ∨
        ∀ g ∈ shippedRoot.child? (literal "MobGroup"), EndsOn (CLib.numerals : CLib ℚ) g)) ∧
    ∀ doc' root', SameSections shippedRoot root' →
      RegistersBlockers CLib.numerals (.branch "" [shippedRoot]) shippedRoot (⟨1, .new, [], []⟩ : Loader ℕ ℚ) →
      RegistersBlockers CLib.numerals doc' root' (⟨1, .new, [], []⟩ : Loader ℕ ℚ) → ∃ bound, ∀ fuel ≥ bound,
        ((loadWorld CLib.numerals fuel doc').exec (⟨1, .new, [], []⟩ : Loader ℕ ℚ)).2.statics =
          ((loadWorld CLib.numerals fuel (.branch "" [shippedRoot])).exec ⟨1, .new, [], []⟩).2.statics ∧
        ((loadWorld CLib.numerals fuel doc').exec (⟨1, .new, [], []⟩ : Loader ℕ ℚ)).2.playerSpawn =
          ((loadWorld CLib.numerals fuel (.branch "" [shippedRoot])).exec ⟨1, .new, [], []⟩).2.playerSpawn :=
  registersBlockers_iff CLib.numerals rfl ⟨by decide, by decide, by decide, by decide⟩ _

/-- The mob group follows a blocker. -/
def mixedRoot : XmlNode :=
  .branch "QuintsesWorld" [.branch "Blocker" [.leaf "Template" "Floor"], shippedMobGroup]

theorem not_registersBlockers :
    ¬RegistersBlockers CLib.numerals (.branch "" [mixedRoot]) mixedRoot (⟨1, .new, [], []⟩ : Loader ℕ ℚ) := by
  have hsections : CompleteSections mixedRoot := ⟨by decide, by decide, by decide, by decide⟩
  have hends : EndsOn (CLib.numerals : CLib ℚ) shippedMobGroup := by decide
  rw [registersBlockers_of_ends CLib.numerals rfl hsections rfl (by decide) hends]
  decide

end Quintses
