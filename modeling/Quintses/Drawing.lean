import Quintses.Drawables
import Quintses.Since

/-! Which matrices `GlRender::draw` loads, between the messages that create,
move and delete the drawables. -/

namespace Quintses

open Lts

/-- An AddDrawable since which no DelDrawable of the id has been handled. -/
def Present (id : UInt32) : List ClientMsg → Prop :=
  Since (fun _ msg => msg.sceneOp id = some .add) (fun msg => msg.sceneOp id ≠ some .del)

/-- The most recent TransDrawable for a drawable that is still there. -/
def MovedLast (id : UInt32) (transform : Mat4) : List ClientMsg → Prop :=
  Since (fun before msg => msg.sceneOp id = some (.trans transform) ∧ Present id before)
    (fun msg => msg.sceneOp id = none ∨ msg.sceneOp id = some .add)

def GlRender.after (msgs : List ClientMsg) : GlRender := msgs.foldl pushMessage ⟨StdMap.empty⟩

theorem GlRender.view_after_append (msgs : List ClientMsg) (msg : ClientMsg) (id : UInt32) :
    (after (msgs ++ [msg])).view id = SceneOp.run ((after msgs).view id) (msg.sceneOp id).toList := by
  rw [after, List.foldl_append]
  exact view_pushMessage _ msg id

theorem GlRender.view_after (id : UInt32) (msgs : List ClientMsg) :
    ((after msgs).view id ≠ none ↔ Present id msgs) ∧
      ∀ t, (after msgs).view id = some (some t) ↔ MovedLast id t msgs := by
  induction msgs using List.reverseRecOn with
  | nil =>
    have hnone : (after []).view id = none := rfl
    exact ⟨iff_of_false (fun h => h hnone) Since.not_nil, fun t => iff_of_false (by simp [hnone]) Since.not_nil⟩
  | append_singleton msgs msg ih =>
    obtain ⟨hpresent, hmoved⟩ := ih
    simp only [view_after_append, Present, MovedLast, Since.append_iff]
    simp only [Present, MovedLast] at hpresent hmoved
    rw [← hpresent]
    simp only [← hmoved]
    cases hop : msg.sceneOp id with
    | none => simp [SceneOp.run]
    | some op =>
      cases op with
      | add => cases hv : (after msgs).view id <;> simp [SceneOp.run, SceneOp.apply]
      | trans m => cases hv : (after msgs).view id <;> simp [SceneOp.run, SceneOp.apply]
      | del => simp [SceneOp.run, SceneOp.apply]

namespace GlObjects

/-- Behind the pointers of the map, no two of them the same, are the drawables
that the message loop of the client knows. -/
structure Refines (r : GlObjects) (g : GlRender) : Prop where
  lookup : ∀ id, (r.drawables.find? id).map r.heap.find? = (g.drawables.find? id).map some
  apart : ∀ id id' p, r.drawables.find? id = some p → r.drawables.find? id' = some p → id = id'

variable {r : GlObjects} {g : GlRender} {id : UInt32} {p : Nat}

namespace Refines

theorem new : Refines new ⟨StdMap.empty⟩ := ⟨fun _ => rfl, fun _ _ _ h => by cases h⟩

theorem contains (h : Refines r g) (id : UInt32) : r.drawables.contains id = g.drawables.contains id := by
  have hl := congrArg Option.isSome (h.lookup id)
  simpa [StdMap.contains] using hl

theorem allocated (h : Refines r g) (hp : r.drawables.find? id = some p) :
    ∃ draw, r.heap.find? p = some draw ∧ g.drawables.find? id = some draw := by
  have hl := h.lookup id
  rw [hp] at hl
  obtain ⟨draw, hg, he⟩ := Option.map_eq_some_iff.mp hl.symm
  exact ⟨draw, he.symm, hg⟩

theorem addDrawable (h : Refines r g) (msg : ClientAddObjectMsg) :
    Refines (r.pushMessage (.addDrawable msg)) (g.pushMessage (.addDrawable msg)) := by
  have hsame := h.contains msg.objid
  cases hc : r.drawables.contains msg.objid with
  | true => simpa [pushMessage, GlRender.pushMessage, hc, ← hsame] using h
  | false =>
    have hnone : r.drawables.find? msg.objid = none := by simpa [StdMap.contains] using hc
    have hgc : g.drawables.contains msg.objid = false := hsame.symm.trans hc
    have hgnone : g.drawables.find? msg.objid = none := by simpa [StdMap.contains] using hgc
    have hfresh (id : UInt32) (p : Nat) (hp : r.drawables.find? id = some p) : p ≠ r.heap.fresh := by
      obtain ⟨draw, hd, -⟩ := h.allocated hp
      exact Heap.ne_fresh_of_find? hd
    simp only [pushMessage, GlRender.pushMessage, hc, ← hsame, Bool.false_eq_true, if_false]
    refine ⟨fun id => ?_, fun id id' p hid hid' => ?_⟩
    · by_cases hid : id = msg.objid
      · simp [hid, hnone, hgnone]
      · have hl := h.lookup id
        cases hp : r.drawables.find? id with
        | none => simpa [hid, hp] using hl
        | some p => simpa [hid, hp, hfresh id p hp] using hl
    · simp only [StdMap.find?_insert, hnone, Option.getD_none] at hid hid'
      split_ifs at hid hid' with he he' he'
      · exact he.trans he'.symm
      · exact absurd (Option.some.inj hid).symm (hfresh id' p hid')
      · exact absurd (Option.some.inj hid').symm (hfresh id p hid)
      · exact h.apart id id' p hid hid'

theorem transDrawable (h : Refines r g) (msg : ClientTransObjectMsg) :
    Refines (r.pushMessage (.transDrawable msg)) (g.pushMessage (.transDrawable msg)) := by
  cases hp : r.drawables.find? msg.objid with
  | none =>
    have hgnone : g.drawables.find? msg.objid = none := by
      have hl := h.lookup msg.objid
      simpa [hp] using hl.symm
    simpa [pushMessage, GlRender.pushMessage, hp, StdMap.modify_of_find?_none _ hgnone] using h
  | some i =>
    simp only [pushMessage, GlRender.pushMessage, hp]
    refine ⟨fun id => ?_, h.apart⟩
    have hl := h.lookup id
    by_cases hid : id = msg.objid
    · obtain ⟨draw, hd, hg⟩ := h.allocated hp
      simp [hid, hp, hd, hg]
    · cases hq : r.drawables.find? id with
      | none => simpa [hid, hq] using hl
      | some q =>
        have hne : q ≠ i := fun he => hid (h.apart id msg.objid i (he ▸ hq) hp)
        simpa [hid, hq, hne] using hl

theorem delDrawable (h : Refines r g) (msg : ClientDelObjectMsg) :
    Refines (r.pushMessage (.delDrawable msg)) (g.pushMessage (.delDrawable msg)) := by
  refine ⟨fun id => ?_, fun id id' p hid hid' => ?_⟩
  · by_cases hid : id = msg.objid
    · simp [pushMessage, GlRender.pushMessage, hid]
    · simpa [pushMessage, GlRender.pushMessage, hid] using h.lookup id
  · exact h.apart id id' p (StdMap.find?_of_erase hid).2 (StdMap.find?_of_erase hid').2

theorem pushMessage (h : Refines r g) (msg : ClientMsg) :
    Refines (r.pushMessage msg) (g.pushMessage msg) := by
  cases msg with
  | addDrawable msg => exact h.addDrawable msg
  | transDrawable msg => exact h.transDrawable msg
  | delDrawable msg => exact h.delDrawable msg
  | addAudible msg => exact h
  | transAudible msg => exact h
  | delAudible msg => exact h

theorem mem_draw (h : Refines r g) {e : UInt32 × Option GlDrawable} :
    e ∈ r.draw ↔ ∃ draw, g.drawables.find? e.1 = some draw ∧ e.2 = some draw := by
  obtain ⟨id, d⟩ := e
  simp only [draw, List.mem_map, Prod.mk.injEq, Prod.exists, StdMap.mem_entries]
  constructor
  · rintro ⟨id, p, hp, rfl, rfl⟩
    obtain ⟨draw, hd, hg⟩ := h.allocated hp
    exact ⟨draw, hg, hd⟩
  · rintro ⟨draw, hg, rfl⟩
    have hl := h.lookup id
    rw [hg] at hl
    obtain ⟨p, hp, hd⟩ := Option.map_eq_some_iff.mp hl
    exact ⟨id, p, hp, rfl, hd⟩

end Refines

end GlObjects

/-- The renderer with the messages it has handled; `drawn` is what the last
step has drawn. -/
structure Drawing where
  renderer : GlObjects
  handled : List ClientMsg
  drawn : List (UInt32 × Option GlDrawable)

inductive DrawAction
  | pushMessage (msg : ClientMsg)
  | draw

namespace Drawing

def new : Drawing := ⟨.new, [], []⟩

def step (s : Drawing) : DrawAction → Option Drawing
  | .pushMessage msg =>
    some { renderer := s.renderer.pushMessage msg, handled := s.handled ++ [msg], drawn := [] }
  | .draw => some { s with drawn := s.renderer.draw }

/-- Each matrix that is loaded is the one of the drawable's last move. -/
def DrawsMoved (s : Drawing) : Prop :=
  ∀ e ∈ s.drawn, ∃ draw t, e.2 = some draw ∧ draw.matrix = some t ∧ MovedLast e.1 t s.handled

/-- `draw()` is called when every drawable has been moved since it was added. -/
def AllMoved (s : Drawing) : DrawAction → Prop
  | .draw => ∀ id, Present id s.handled → ∃ t, MovedLast id t s.handled
  | .pushMessage _ => True

variable {s s' : Drawing} {a : DrawAction}

/-- The renderer is where the messages have brought it. -/
structure UpToDate (s : Drawing) : Prop where
  refines : s.renderer.Refines (GlRender.after s.handled)
  drawn : s.DrawsMoved

theorem upToDate_new : new.UpToDate := ⟨.new, fun e he => by cases he⟩

theorem refines_pushMessage (h : s.UpToDate) (msg : ClientMsg) :
    (s.renderer.pushMessage msg).Refines (GlRender.after (s.handled ++ [msg])) := by
  rw [GlRender.after, List.foldl_append]
  exact h.refines.pushMessage msg

theorem view_of_find? {g : GlRender} {id : UInt32} {draw : GlDrawable}
    (h : g.drawables.find? id = some draw) : g.view id = some draw.matrix := by
  rw [GlRender.view, h]
  rfl

theorem step_upToDate (h : s.UpToDate) (hok : s.AllMoved a) (hs : step s a = some s') : s'.UpToDate := by
  cases a with
  | pushMessage msg =>
    cases hs
    exact ⟨refines_pushMessage h msg, fun e he => by cases he⟩
  | draw =>
    cases hs
    refine ⟨h.refines, fun e he => ?_⟩
    obtain ⟨draw, hg, hd⟩ := h.refines.mem_draw.mp he
    obtain ⟨hpresent, hmoved⟩ := GlRender.view_after e.1 s.handled
    have hview := view_of_find? hg
    obtain ⟨t, ht⟩ := hok e.1 (hpresent.mp (by simp [hview]))
    have hsame := hview.symm.trans ((hmoved t).mpr ht)
    exact ⟨draw, t, hd, Option.some.inj hsame, ht⟩

theorem not_drawsMoved (h : s.UpToDate) (hno : ¬ s.AllMoved a) (hs : step s a = some s') :
    ¬ s'.DrawsMoved := by
  cases a with
  | pushMessage msg => exact absurd trivial hno
  | draw =>
    cases hs
    intro hdrawn
    refine hno (fun id hp => ?_)
    obtain ⟨hpresent, -⟩ := GlRender.view_after id s.handled
    obtain ⟨m, hm⟩ := Option.ne_none_iff_exists'.mp (hpresent.mpr hp)
    obtain ⟨draw, hg, -⟩ := Option.map_eq_some_iff.mp hm
    obtain ⟨draw', t, -, -, ht⟩ := hdrawn (id, some draw) (h.refines.mem_draw.mpr ⟨draw, hg, rfl⟩)
    exact ⟨t, ht⟩

/-- The renderer draws positions that it was given exactly when no `draw()`
falls between the creation of a drawable and its first move. -/
theorem drawsMoved_iff (as : List DrawAction) :
    Along step DrawsMoved new as ↔ Guarded step AllMoved new as :=
  along_iff_guarded UpToDate (fun _ h => h.drawn) (fun _ _ _ h hok hs => step_upToDate h hok hs)
    (fun _ _ _ h hno hs => not_drawsMoved h hno hs) upToDate_new as

/-- The first frame after a player has been added. -/
theorem not_drawsMoved_added : ¬ ∀ as, Along step DrawsMoved new as := by
  intro h
  have hlast := (h [.pushMessage (.addDrawable ⟨7, literal "Player"⟩), .draw]).last rfl
  obtain ⟨draw, t, hd, ht, -⟩ := hlast (7, some ⟨(0, 1, 0), none⟩) (by decide)
  cases hd
  cases ht

end Drawing

end Quintses
