import Mathlib.Data.List.Basic

/-! One thing in a scene: it is added, moved and deleted. Operations that wait
are listed in the order in which they will take effect. -/

inductive SceneOp (μ : Type*)
  | add
  | trans (m : μ)
  | del
  deriving DecidableEq

namespace SceneOp

variable {μ : Type*} {x y : Option (Option μ)} {ops : List (SceneOp μ)} {op : SceneOp μ}

/-- `none` while it is absent, `some none` until its first move. -/
def apply : SceneOp μ → Option (Option μ) → Option (Option μ)
  | add, x => some (x.getD none)
  | trans m, x => x.map (fun _ => some m)
  | del, _ => none

def run (x : Option (Option μ)) (ops : List (SceneOp μ)) : Option (Option μ) :=
  ops.foldl (fun x op => op.apply x) x

/-- Both are absent or both present, and the stored place is the expected one if
one is expected. -/
structure Agrees (stored expected : Option (Option μ)) : Prop where
  present : stored.isSome = expected.isSome
  place : ∀ m, expected = some (some m) → stored = some (some m)

namespace Agrees

theorem refl (x : Option (Option μ)) : Agrees x x := ⟨rfl, fun _ he => he⟩

theorem trans {z : Option (Option μ)} (h : Agrees x y) (h' : Agrees y z) : Agrees x z :=
  ⟨h.present.trans h'.present, fun m he => h.place m (h'.place m he)⟩

theorem apply (h : Agrees x y) (op : SceneOp μ) : Agrees (op.apply x) (op.apply y) := by
  obtain ⟨hpresent, hplace⟩ := h
  cases op with
  | del => exact refl _
  | trans m =>
    cases x with
    | none => cases y <;> simp_all [SceneOp.apply, refl]
    | some a => cases y <;> simp_all [SceneOp.apply, refl]
  | add =>
    refine ⟨rfl, fun m he => ?_⟩
    cases y with
    | none => cases he
    | some b =>
      obtain rfl : b = some m := Option.some.inj he
      rw [hplace m rfl]
      rfl

end Agrees

theorem run_append (x : Option (Option μ)) (ops ops' : List (SceneOp μ)) :
    run x (ops ++ ops') = run (run x ops) ops' := by
  simp [run]

def lastTrans : List (SceneOp μ) → Option μ
  | [] => none
  | trans m :: ops => (lastTrans ops).or (some m)
  | _ :: ops => lastTrans ops

def afterAdd : List (SceneOp μ) → List (SceneOp μ)
  | [] => []
  | add :: ops => ops
  | _ :: ops => afterAdd ops

theorem run_some (hdel : del ∉ ops) (place : Option μ) :
    run (some place) ops = some ((lastTrans ops).or place) := by
  induction ops generalizing place with
  | nil => rfl
  | cons op ops ih =>
    have hrest : del ∉ ops := fun hm => hdel (List.mem_cons_of_mem op hm)
    cases op with
    | add => exact ih hrest place
    | trans m =>
      refine (ih hrest (some m)).trans ?_
      cases hl : lastTrans ops <;> simp [lastTrans, hl]
    | del => exact absurd List.mem_cons_self hdel

theorem run_none_of_no_add (hadd : add ∉ ops) : run (none : Option (Option μ)) ops = none := by
  induction ops with
  | nil => rfl
  | cons op ops ih =>
    have hrest : add ∉ ops := fun hm => hadd (List.mem_cons_of_mem op hm)
    cases op with
    | add => exact absurd List.mem_cons_self hadd
    | trans m => exact ih hrest
    | del => exact ih hrest

theorem run_none_of_add (hadd : add ∈ ops) (hdel : del ∉ ops) :
    run (none : Option (Option μ)) ops = some (lastTrans (afterAdd ops)) := by
  induction ops with
  | nil => cases hadd
  | cons op ops ih =>
    have hrest : del ∉ ops := fun hm => hdel (List.mem_cons_of_mem op hm)
    cases op with
    | add => exact (run_some hrest none).trans (congrArg some (Option.or_none))
    | trans m => exact ih (by simpa using hadd) hrest
    | del => exact absurd List.mem_cons_self hdel

theorem run_of_del (hdel : del ∈ ops) (hadd : add ∉ ops) (x : Option (Option μ)) : run x ops = none := by
  induction ops generalizing x with
  | nil => cases hdel
  | cons op ops ih =>
    have hrest : add ∉ ops := fun hm => hadd (List.mem_cons_of_mem op hm)
    cases op with
    | add => exact absurd List.mem_cons_self hadd
    | trans m => exact ih (by simpa using hdel) hrest _
    | del => exact run_none_of_no_add hrest

/-- A last-in-first-out queue may let the operation overtake the waiting ones: it
does not meet its opposite, and a move is not undone by an older one. -/
def Fits (x : Option (Option μ)) (waiting : List (SceneOp μ)) : SceneOp μ → Prop
  | add => del ∉ waiting
  | del => add ∉ waiting
  | trans m => del ∈ waiting ∨
      match x with
      | some _ => lastTrans waiting = none ∨ lastTrans waiting = some m
      | none => add ∈ waiting → lastTrans (afterAdd waiting) = some m

instance [DecidableEq μ] (x : Option (Option μ)) (waiting : List (SceneOp μ)) :
    (op : SceneOp μ) → Decidable (op.Fits x waiting)
  | add => inferInstanceAs (Decidable (del ∉ waiting))
  | del => inferInstanceAs (Decidable (add ∉ waiting))
  | trans m =>
    match x with
    | some _ => inferInstanceAs
        (Decidable (del ∈ waiting ∨ (lastTrans waiting = none ∨ lastTrans waiting = some m)))
    | none => inferInstanceAs
        (Decidable (del ∈ waiting ∨ (add ∈ waiting → lastTrans (afterAdd waiting) = some m)))

def Pure (ops : List (SceneOp μ)) : Prop := add ∉ ops ∨ del ∉ ops

theorem Pure.tail (h : Pure (op :: ops)) : Pure ops :=
  h.imp (fun hno hm => hno (List.mem_cons_of_mem op hm)) (fun hno hm => hno (List.mem_cons_of_mem op hm))

theorem Pure.cons (h : Pure ops) (hfits : op.Fits x ops) : Pure (op :: ops) := by
  cases op with
  | add =>
    have hno : del ∉ ops := hfits
    exact Or.inr (by simpa using hno)
  | del =>
    have hno : add ∉ ops := hfits
    exact Or.inl (by simpa using hno)
  | trans m => simpa [Pure] using h

theorem isSome_run (hdel : del ∉ ops) (place : Option μ) : (run (some place) ops).isSome = true := by
  rw [run_some hdel]
  rfl

theorem lastTrans_of_afterAdd {m : μ} (h : lastTrans (afterAdd ops) = some m) : lastTrans ops = some m := by
  induction ops with
  | nil => exact h
  | cons op ops ih =>
    cases op with
    | add => exact h
    | del => exact ih h
    | trans m' =>
      have hl : lastTrans ops = some m := ih h
      simp [lastTrans, hl]

theorem agrees_add_iff (hpure : Pure ops) :
    Agrees (run (add.apply x) ops) (add.apply (run x ops)) ↔ del ∉ ops := by
  constructor
  · intro h hdel
    have hadd : add ∉ ops := hpure.resolve_right (not_not_intro hdel)
    have hp := h.present
    rw [run_of_del hdel hadd, run_of_del hdel hadd] at hp
    cases hp
  · intro hdel
    cases x with
    | some place =>
      refine ⟨isSome_run hdel place, fun m he => ?_⟩
      rw [run_some hdel] at he
      exact (run_some hdel place).trans he
    | none =>
      refine ⟨isSome_run hdel none, fun m he => ?_⟩
      by_cases hadd : add ∈ ops
      · rw [run_none_of_add hadd hdel] at he
        have hl := lastTrans_of_afterAdd (Option.some.inj he)
        exact (run_some hdel none).trans (by rw [hl]; rfl)
      · rw [run_none_of_no_add hadd] at he
        cases he

theorem agrees_del_iff (hpure : Pure ops) :
    Agrees (run (del.apply x) ops) (del.apply (run x ops)) ↔ add ∉ ops := by
  constructor
  · intro h hadd
    have hp := h.present
    rw [show del.apply x = none from rfl, run_none_of_add hadd (hpure.resolve_left (not_not_intro hadd))] at hp
    cases hp
  · intro hadd
    have hgone : run (del.apply x) ops = none := run_none_of_no_add hadd
    rw [hgone]
    exact Agrees.refl none

theorem agrees_trans_iff (m : μ) (hpure : Pure ops) :
    Agrees (run ((trans m).apply x) ops) ((trans m).apply (run x ops)) ↔ (trans m).Fits x ops := by
  by_cases hdel : del ∈ ops
  · have hgone (y : Option (Option μ)) : run y ops = none :=
      run_of_del hdel (hpure.resolve_right (not_not_intro hdel)) y
    rw [hgone, hgone]
    exact ⟨fun _ => Or.inl hdel, fun _ => Agrees.refl none⟩
  · cases x with
    | some place =>
      have hfirst : run ((trans m).apply (some place)) ops = some ((lastTrans ops).or (some m)) :=
        run_some hdel _
      rw [hfirst, run_some hdel]
      constructor
      · intro h
        have hl := Option.some.inj (h.place m rfl)
        refine Or.inr ?_
        cases hc : lastTrans ops with
        | none => exact Or.inl rfl
        | some m' => exact Or.inr (by simpa [hc] using hl)
      · intro h
        have hl : lastTrans ops = none ∨ lastTrans ops = some m := h.resolve_left hdel
        refine ⟨rfl, fun m' he => ?_⟩
        obtain rfl : m = m' := Option.some.inj (Option.some.inj he)
        rcases hl with hl | hl <;> simp [hl]
    | none =>
      have hfirst : run ((trans m).apply none) ops = run none ops := rfl
      rw [hfirst]
      by_cases hadd : add ∈ ops
      · rw [run_none_of_add hadd hdel]
        constructor
        · exact fun h => Or.inr (fun _ => Option.some.inj (h.place m rfl))
        · intro h
          have hl : lastTrans (afterAdd ops) = some m := h.resolve_left hdel hadd
          rw [hl]
          exact Agrees.refl _
      · rw [run_none_of_no_add hadd]
        exact ⟨fun _ => Or.inr (fun hm => absurd hm hadd), fun _ => Agrees.refl none⟩

/-- An operation may take effect before the waiting ones instead of after them
exactly when it fits. -/
theorem agrees_first_iff (op : SceneOp μ) (hpure : Pure ops) :
    Agrees (run (op.apply x) ops) (op.apply (run x ops)) ↔ op.Fits x ops := by
  cases op with
  | add => exact agrees_add_iff hpure
  | del => exact agrees_del_iff hpure
  | trans m => exact agrees_trans_iff m hpure

theorem agrees_overtake_iff {expected : Option (Option μ)} (op : SceneOp μ) (hpure : Pure ops)
    (h : Agrees (run x ops) expected) : Agrees (run (op.apply x) ops) (op.apply expected) ↔ op.Fits x ops := by
  constructor
  · intro ha
    cases op with
    | add =>
      intro hdel
      have hp := ha.present
      rw [run_of_del hdel (hpure.resolve_right (not_not_intro hdel))] at hp
      cases hp
    | del => exact (agrees_first_iff del hpure).mp ha
    | trans m =>
      have hsame : (trans m).apply (run x ops) = (trans m).apply expected := by
        have hp := h.present
        cases hr : run x ops <;> cases he : expected <;> simp_all [SceneOp.apply]
      exact (agrees_first_iff (trans m) hpure).mp (hsame ▸ ha)
  · intro hfits
    exact ((agrees_first_iff op hpure).mpr hfits).trans (h.apply op)

end SceneOp
