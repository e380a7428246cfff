import Quintses.Heap
import Quintses.LocalClient

/-! The drawables of `GlRender` as objects on the heap, from
`client/opengl/glrender.cpp`: `m_drawables` holds pointers. -/

namespace Quintses

open Lts

structure GlObjects where
  drawables : StdMap UInt32 Nat
  heap : Heap GlDrawable
  /-- What `new GlDrawable` has returned so far. -/
  allocated : List Nat

namespace GlObjects

def new : GlObjects := ⟨StdMap.empty, StdMap.empty, []⟩

variable (r : GlObjects)

def pushMessage : ClientMsg → GlObjects
  | .addDrawable msg =>
    if r.drawables.contains msg.objid then r
    else
      let draw := r.heap.fresh
      { drawables := r.drawables.insert msg.objid draw
        heap := r.heap.alloc ⟨GlRender.color msg.template, none⟩
        allocated := draw :: r.allocated }
  | .transDrawable msg =>
    match r.drawables.find? msg.objid with
    | none => r
    | some i => { r with heap := r.heap.modify i (fun draw => { draw with matrix := some msg.transform }) }
  | .delDrawable msg => { r with drawables := r.drawables.erase msg.objid }
  | .addAudible _ | .transAudible _ | .delAudible _ => r

/-- `~GlRender`; `none` if it deletes something that is not there. -/
def destroy : Option (Heap GlDrawable) := r.heap.delete? r.drawables.values

/-- What `draw()` loads, in the order of the map; `none` through a pointer to
nothing. -/
def draw : List (UInt32 × Option GlDrawable) :=
  r.drawables.entries.map (fun e => (e.1, r.heap.find? e.2))

def step (r : GlObjects) (msg : ClientMsg) : Option GlObjects := some (r.pushMessage msg)

/-- The objects that are allocated are the values of the map, each under one
key, and the destructor would now delete all that were ever allocated. -/
structure OwnsExactly (r : GlObjects) : Prop where
  owned : r.heap.keys.Perm r.drawables.values
  single : r.drawables.values.Nodup
  destroyed : ∃ heap, r.destroy = some heap ∧ heap.keys = [] ∧ r.drawables.values.Perm r.allocated

/-- No drawable that is there is deleted. -/
def DeletesUnknown (r : GlObjects) : ClientMsg → Prop
  | .delDrawable msg => r.drawables.contains msg.objid = false
  | .addDrawable _ | .transDrawable _ | .addAudible _ | .transAudible _ | .delAudible _ => True

instance (r : GlObjects) : (msg : ClientMsg) → Decidable (r.DeletesUnknown msg)
  | .delDrawable msg => inferInstanceAs (Decidable (r.drawables.contains msg.objid = false))
  | .addDrawable _ | .transDrawable _ | .addAudible _ | .transAudible _ | .delAudible _ => .isTrue trivial

variable {r}

theorem ownsExactly_of_perm (h : r.heap.keys.Perm r.drawables.values)
    (hall : r.drawables.values.Perm r.allocated) : r.OwnsExactly := by
  have hkeys : r.heap.keys.Perm (r.drawables.values ++ []) := by simpa using h
  obtain ⟨hdelete, hrest, -⟩ := Heap.delete?_of_perm hkeys
  exact ⟨h, h.nodup_iff.mp r.heap.keys_nodup, _, hdelete, List.perm_nil.mp hrest, hall⟩

theorem ownsExactly_new : new.OwnsExactly := ownsExactly_of_perm (List.Perm.refl _) (List.Perm.refl _)

theorem OwnsExactly.pushMessage (h : r.OwnsExactly) {msg : ClientMsg} (hok : r.DeletesUnknown msg) :
    (r.pushMessage msg).OwnsExactly := by
  obtain ⟨-, -, -, hall⟩ := h.destroyed
  cases msg with
  | addDrawable msg =>
    cases hc : r.drawables.contains msg.objid with
    | true => simpa [GlObjects.pushMessage, hc] using h
    | false =>
      have hnew : r.drawables.find? msg.objid = none := by simpa [StdMap.contains] using hc
      have hvalues := StdMap.values_insert_perm (v := r.heap.fresh) hnew
      simp only [GlObjects.pushMessage, hc, Bool.false_eq_true, if_false]
      refine ownsExactly_of_perm ?_ (hvalues.trans (hall.cons _))
      exact (Heap.keys_alloc_perm r.heap _).trans ((h.owned.cons _).trans hvalues.symm)
  | transDrawable msg =>
    cases hf : r.drawables.find? msg.objid with
    | none => simpa [GlObjects.pushMessage, hf] using h
    | some i =>
      simp only [GlObjects.pushMessage, hf]
      exact ownsExactly_of_perm ((StdMap.keys_modify_perm i _).trans h.owned) hall
  | delDrawable msg =>
    have hnone : r.drawables.find? msg.objid = none := by simpa [DeletesUnknown, StdMap.contains] using hok
    have hsame : r.pushMessage (.delDrawable msg) = r := by
      simp only [GlObjects.pushMessage, StdMap.erase_of_find?_none hnone]
    exact hsame.symm ▸ h
  | addAudible msg => exact h
  | transAudible msg => exact h
  | delAudible msg => exact h

/-- The drawable that goes from the map stays on the heap. -/
theorem not_ownsExactly_pushMessage (h : r.OwnsExactly) {msg : ClientMsg} (hno : ¬ r.DeletesUnknown msg) :
    ¬ (r.pushMessage msg).OwnsExactly := by
  cases msg with
  | delDrawable msg =>
    intro h'
    obtain ⟨p, hp⟩ : ∃ p, r.drawables.find? msg.objid = some p :=
      Option.ne_none_iff_exists'.mp (by simpa [DeletesUnknown, StdMap.contains] using hno)
    have hvalues := (StdMap.values_erase_perm hp).length_eq
    have hbefore := h.owned.length_eq
    have hafter : r.heap.keys.length = (r.drawables.erase msg.objid).values.length := h'.owned.length_eq
    rw [List.length_cons] at hvalues
    omega
  | addDrawable msg => exact absurd trivial hno
  | transDrawable msg => exact absurd trivial hno
  | addAudible msg => exact absurd trivial hno
  | transAudible msg => exact absurd trivial hno
  | delAudible msg => exact absurd trivial hno

/-- The renderer owns its drawables exactly as long as no message deletes one of
them: `m_drawables.erase` does not delete what the pointer points to. -/
theorem ownsExactly_iff (msgs : List ClientMsg) :
    Along step OwnsExactly new msgs ↔ Guarded step DeletesUnknown new msgs := by
  refine along_iff_guarded OwnsExactly (fun _ h => h) (fun r msg r' h hok hs => ?_)
    (fun r msg r' h hno hs => ?_) ownsExactly_new msgs
  · cases hs
    exact h.pushMessage hok
  · cases hs
    exact not_ownsExactly_pushMessage h hno

theorem not_ownsExactly : ¬ ∀ msgs, Along step OwnsExactly new msgs := by
  intro h
  have hlast := (h [.addDrawable ⟨7, literal "Player"⟩, .delDrawable ⟨7⟩]).last rfl
  exact absurd hlast.owned.length_eq (by decide)

end GlObjects

end Quintses
