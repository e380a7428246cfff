import Quintses.LocalServer
import Quintses.Lts
import Quintses.PopOrder
import Quintses.Scene

/-! The messages of the local client, from `LocalClient::pushMessage` through
the main loop into `GlRender`, against the scene that they describe in the order
in which they were pushed. -/

namespace Quintses

open Lts

/-- The colour's components are 0 or 1; the matrix is not initialised. -/
structure GlDrawable where
  color : Nat × Nat × Nat
  matrix : Option Mat4
  deriving DecidableEq

structure GlRender where
  drawables : StdMap UInt32 GlDrawable

namespace GlRender

def color (template : ByteString) : Nat × Nat × Nat :=
  if template = literal "Player" then (0, 1, 0)
  else if template = literal "Baddie" then (1, 0, 0)
  else (1, 1, 1)

def pushMessage (r : GlRender) : ClientMsg → GlRender
  | .addDrawable msg =>
    if r.drawables.contains msg.objid then r
    else { r with drawables := r.drawables.insert msg.objid ⟨color msg.template, none⟩ }
  | .transDrawable msg =>
    { r with
      drawables := r.drawables.modify msg.objid (fun draw => { draw with matrix := some msg.transform }) }
  | .delDrawable msg => { r with drawables := r.drawables.erase msg.objid }
  | .addAudible _ | .transAudible _ | .delAudible _ => r

def view (r : GlRender) (id : UInt32) : Option (Option Mat4) := (r.drawables.find? id).map GlDrawable.matrix

end GlRender

/-- What the message does to the drawable with this id. -/
def ClientMsg.sceneOp (id : UInt32) : ClientMsg → Option (SceneOp Mat4)
  | .addDrawable msg => if msg.objid = id then some .add else none
  | .transDrawable msg => if msg.objid = id then some (.trans msg.transform) else none
  | .delDrawable msg => if msg.objid = id then some .del else none
  | .addAudible _ | .transAudible _ | .delAudible _ => none

def ClientMsg.drawable? : ClientMsg → Option UInt32
  | .addDrawable msg => some msg.objid
  | .transDrawable msg => some msg.objid
  | .delDrawable msg => some msg.objid
  | .addAudible _ | .transAudible _ | .delAudible _ => none

structure LocalClient where
  /-- In the order in which `try_pop` returns them. -/
  msgQueue : List ClientMsg
  renderer : GlRender
  pushed : List ClientMsg

inductive ClientAction
  | pushMessage (msg : ClientMsg)
  /-- A `try_pop` of the main loop and the branch it leads to. -/
  | tryPop

namespace LocalClient

def new : LocalClient := ⟨[], ⟨StdMap.empty⟩, []⟩

variable (order : PopOrder) (c : LocalClient)

def pushMessage (msg : ClientMsg) : LocalClient :=
  { c with msgQueue := order.add c.msgQueue msg, pushed := c.pushed ++ [msg] }

def handle (msg : ClientMsg) : LocalClient :=
  match msg with
  | .addDrawable _ | .transDrawable _ | .delDrawable _ => { c with renderer := c.renderer.pushMessage msg }
  | .addAudible _ | .transAudible _ | .delAudible _ => c

def step (c : LocalClient) : ClientAction → Option LocalClient
  | .pushMessage msg => some (c.pushMessage order msg)
  | .tryPop =>
    match c.msgQueue with
    | [] => some c
    | msg :: rest => some ({ c with msgQueue := rest }.handle msg)

def waiting (id : UInt32) : List (SceneOp Mat4) := c.msgQueue.filterMap (ClientMsg.sceneOp id)

/-- The drawable after all messages in the order of the pushes. -/
def expected (id : UInt32) : Option (Option Mat4) :=
  SceneOp.run none (c.pushed.filterMap (ClientMsg.sceneOp id))

/-- Whenever the queue is empty the renderer has drawables for the same ids, and
one that was moved since it was added has the matrix of the last move. -/
def Follows (c : LocalClient) : Prop :=
  c.msgQueue = [] → ∀ id, SceneOp.Agrees (c.renderer.view id) (c.expected id)

/-- The waiting messages for the same drawable may be overtaken by the new one. -/
def InOrder (c : LocalClient) : ClientAction → Prop
  | .pushMessage msg => order = .lifo →
    ∀ id ∈ msg.drawable?, ∀ op ∈ msg.sceneOp id, op.Fits (c.renderer.view id) (c.waiting id)
  | .tryPop => True

instance (c : LocalClient) (a : ClientAction) : Decidable (c.InOrder order a) :=
  match a with
  | .pushMessage msg =>
    have : DecidablePred (fun id => ∀ op ∈ msg.sceneOp id, op.Fits (c.renderer.view id) (c.waiting id)) :=
      fun id => Option.decidableForallMem (msg.sceneOp id)
    have : Decidable (∀ id ∈ msg.drawable?, ∀ op ∈ msg.sceneOp id,
        op.Fits (c.renderer.view id) (c.waiting id)) :=
      Option.decidableForallMem msg.drawable?
    inferInstanceAs (Decidable (order = .lifo → _))
  | .tryPop => .isTrue trivial

end LocalClient

theorem GlRender.view_pushMessage (r : GlRender) (msg : ClientMsg) (id : UInt32) :
    (r.pushMessage msg).view id = SceneOp.run (r.view id) (msg.sceneOp id).toList := by
  cases msg with
  | addDrawable msg =>
    by_cases hid : msg.objid = id
    · subst hid
      cases hf : r.drawables.find? msg.objid <;>
        simp [pushMessage, view, StdMap.contains, hf, ClientMsg.sceneOp, SceneOp.run, SceneOp.apply]
    · have hne : id ≠ msg.objid := fun he => hid he.symm
      cases hf : r.drawables.find? msg.objid <;>
        simp [pushMessage, view, StdMap.contains, hf, ClientMsg.sceneOp, SceneOp.run, hid, hne]
  | transDrawable msg =>
    by_cases hid : msg.objid = id
    · subst hid
      cases hf : r.drawables.find? msg.objid <;>
        simp [pushMessage, view, hf, ClientMsg.sceneOp, SceneOp.run, SceneOp.apply]
    · have hne : id ≠ msg.objid := fun he => hid he.symm
      simp [pushMessage, view, ClientMsg.sceneOp, SceneOp.run, hid, hne]
  | delDrawable msg =>
    by_cases hid : msg.objid = id
    · simp [pushMessage, view, ClientMsg.sceneOp, SceneOp.run, SceneOp.apply, hid]
    · have hne : id ≠ msg.objid := fun he => hid he.symm
      simp [pushMessage, view, ClientMsg.sceneOp, SceneOp.run, hid, hne]
  | _ => rfl

namespace LocalClient

variable {order : PopOrder} {c c' : LocalClient} {a : ClientAction}

theorem view_handle (msg : ClientMsg) (id : UInt32) :
    (c.handle msg).renderer.view id = SceneOp.run (c.renderer.view id) (msg.sceneOp id).toList := by
  cases msg with
  | addAudible msg => rfl
  | transAudible msg => rfl
  | delAudible msg => rfl
  | _ => exact GlRender.view_pushMessage c.renderer _ id

theorem handle_msgQueue (msg : ClientMsg) : (c.handle msg).msgQueue = c.msgQueue := by
  cases msg <;> rfl

theorem expected_handle (msg : ClientMsg) (id : UInt32) : (c.handle msg).expected id = c.expected id := by
  cases msg <;> rfl

theorem filterMap_cons_eq (id : UInt32) (msg : ClientMsg) (msgs : List ClientMsg) :
    (msg :: msgs).filterMap (ClientMsg.sceneOp id) =
      (msg.sceneOp id).toList ++ msgs.filterMap (ClientMsg.sceneOp id) := by
  cases h : msg.sceneOp id <;> simp [h]

/-- Popping everything that waits would bring each drawable to where it is
expected. For a last-in-first-out queue the waiting messages of one drawable are
of one mind. -/
structure OnCourse (order : PopOrder) (c : LocalClient) (id : UInt32) : Prop where
  agrees : SceneOp.Agrees (SceneOp.run (c.renderer.view id) (c.waiting id)) (c.expected id)
  pure : order = .lifo → SceneOp.Pure (c.waiting id)

theorem onCourse_new (id : UInt32) : OnCourse order new id := by
  refine ⟨?_, fun _ => Or.inl (by simp [waiting, new])⟩
  exact SceneOp.Agrees.refl none

theorem OnCourse.tryPop {id : UInt32} {msg : ClientMsg} {rest : List ClientMsg} (h : OnCourse order c id)
    (hq : c.msgQueue = msg :: rest) : OnCourse order ({ c with msgQueue := rest }.handle msg) id := by
  have hwaiting : c.waiting id = (msg.sceneOp id).toList ++ rest.filterMap (ClientMsg.sceneOp id) := by
    rw [waiting, hq]
    exact filterMap_cons_eq id msg rest
  have hrest : ({ c with msgQueue := rest }.handle msg).waiting id = rest.filterMap (ClientMsg.sceneOp id) := by
    rw [waiting, handle_msgQueue]
  constructor
  · rw [view_handle, hrest, expected_handle, ← SceneOp.run_append, ← hwaiting]
    exact h.agrees
  · intro hlifo
    have hpure := h.pure hlifo
    rw [hwaiting] at hpure
    rw [hrest]
    cases hop : msg.sceneOp id with
    | none => simpa [hop] using hpure
    | some op =>
      rw [hop] at hpure
      exact SceneOp.Pure.tail hpure

theorem sceneOp_drawable {msg : ClientMsg} {id : UInt32} {op : SceneOp Mat4} (h : op ∈ msg.sceneOp id) :
    id ∈ msg.drawable? := by
  cases msg with
  | addAudible msg => cases h
  | transAudible msg => cases h
  | delAudible msg => cases h
  | _ =>
    simp only [ClientMsg.sceneOp, Option.mem_def, Option.ite_none_right_eq_some] at h
    exact congrArg some h.1

theorem expected_pushMessage (msg : ClientMsg) (id : UInt32) :
    (c.pushMessage order msg).expected id = SceneOp.run (c.expected id) (msg.sceneOp id).toList := by
  rw [expected, pushMessage, List.filterMap_append, SceneOp.run_append]
  cases h : msg.sceneOp id <;> simp [h, expected]

theorem OnCourse.pushMessage {id : UInt32} {msg : ClientMsg} (h : OnCourse order c id)
    (hfits : c.InOrder order (.pushMessage msg)) : OnCourse order (c.pushMessage order msg) id := by
  cases hop : msg.sceneOp id with
  | none =>
    have hwaiting : (c.pushMessage order msg).waiting id = c.waiting id :=
      PopOrder.filterMap_add_of_none order _ hop
    have hexpected : (c.pushMessage order msg).expected id = c.expected id := by
      rw [expected_pushMessage, hop]
      rfl
    refine ⟨?_, fun hlifo => ?_⟩
    · rw [hwaiting, hexpected]
      exact h.agrees
    · rw [hwaiting]
      exact h.pure hlifo
  | some op =>
    have hwaiting : (c.pushMessage order msg).waiting id = order.add (c.waiting id) op :=
      PopOrder.filterMap_add_of_some order _ hop
    have hexpected : (c.pushMessage order msg).expected id = op.apply (c.expected id) := by
      rw [expected_pushMessage, hop]
      rfl
    rw [← Option.mem_def] at hop
    cases order with
    | fifo =>
      refine ⟨?_, fun hlifo => by cases hlifo⟩
      rw [hwaiting, hexpected, PopOrder.add, SceneOp.run_append]
      exact h.agrees.apply op
    | lifo =>
      have hfit := hfits rfl id (sceneOp_drawable hop) op hop
      refine ⟨?_, fun _ => ?_⟩
      · rw [hwaiting, hexpected]
        exact (SceneOp.agrees_overtake_iff op (h.pure rfl) h.agrees).mpr hfit
      · rw [hwaiting]
        exact (h.pure rfl).cons hfit

theorem step_onCourse (h : ∀ id, OnCourse order c id) (hok : c.InOrder order a)
    (hs : step order c a = some c') : ∀ id, OnCourse order c' id := by
  intro id
  cases a with
  | pushMessage msg =>
    obtain rfl : c.pushMessage order msg = c' := Option.some.inj hs
    exact (h id).pushMessage hok
  | tryPop =>
    cases hq : c.msgQueue with
    | nil =>
      simp only [step, hq, Option.some.injEq] at hs
      exact hs ▸ h id
    | cons msg rest =>
      simp only [step, hq, Option.some.injEq] at hs
      exact hs ▸ (h id).tryPop hq

theorem follows_of_onCourse (h : ∀ id, OnCourse order c id) : c.Follows := by
  intro hq id
  have ha := (h id).agrees
  rw [waiting, hq] at ha
  exact ha

theorem run_drain (order : PopOrder) (c : LocalClient) : ∃ c',
    run (step order) c (List.replicate c.msgQueue.length .tryPop) = some c' ∧ c'.msgQueue = [] ∧
      ∀ id, c'.renderer.view id = SceneOp.run (c.renderer.view id) (c.waiting id) ∧
        c'.expected id = c.expected id := by
  obtain ⟨n, hn⟩ : ∃ n, c.msgQueue.length = n := ⟨_, rfl⟩
  induction n generalizing c with
  | zero =>
    have hq := List.length_eq_zero_iff.mp hn
    refine ⟨c, by rw [hn]; rfl, hq, fun id => ⟨?_, rfl⟩⟩
    rw [waiting, hq]
    rfl
  | succ n ih =>
    cases hq : c.msgQueue with
    | nil => simp [hq] at hn
    | cons msg rest =>
      have hlen : ({ c with msgQueue := rest }.handle msg).msgQueue.length = n := by
        rw [handle_msgQueue]
        simpa [hq] using hn
      obtain ⟨c', hr, hempty, hview⟩ := ih _ hlen
      refine ⟨c', ?_, hempty, fun id => ?_⟩
      · rw [hlen] at hr
        have hrest : rest.length = n := by simpa [hq] using hn
        rw [List.length_cons, hrest, List.replicate_succ, run_cons]
        simpa [step, hq] using hr
      · obtain ⟨h1, h2⟩ := hview id
        rw [view_handle, waiting, handle_msgQueue, ← SceneOp.run_append, ← filterMap_cons_eq, ← hq] at h1
        rw [expected_handle] at h2
        exact ⟨h1, h2⟩

/-- Messages that overtake only what they may leave the renderer with the scene
that was pushed, and the first one that overtakes another leads to a wrong scene
if the main loop drains the queue next. -/
theorem follows_of_inOrder (order : PopOrder) (as : List ClientAction) :
    (Guarded (step order) (InOrder order) new as → Along (step order) Follows new as) ∧
      ∀ c msg, Guarded (step order) (InOrder order) new as → run (step order) new as = some c →
        ¬ c.InOrder order (.pushMessage msg) → ∃ c', run (step order) c
          (.pushMessage msg :: List.replicate (c.msgQueue.length + 1) .tryPop) = some c' ∧ ¬ c'.Follows := by
  constructor
  · intro hg
    have halong := hg.along (fun c => ∀ id, OnCourse order c id)
      (fun _ _ _ h hok hs => step_onCourse h hok hs) onCourse_new
    exact halong.mono (fun c h => follows_of_onCourse h)
  · intro c msg hg hr hno
    have hcourse : ∀ id, OnCourse order c id := hg.invariant (fun c => ∀ id, OnCourse order c id)
      (fun _ _ _ h hok hs => step_onCourse h hok hs) onCourse_new hr
    simp only [InOrder, not_forall] at hno
    obtain ⟨rfl, id, -, op, hop, hfits⟩ := hno
    obtain ⟨c', hdrain, hempty, hview⟩ := run_drain .lifo (c.pushMessage .lifo msg)
    refine ⟨c', ?_, fun hfollows => hfits ?_⟩
    · rw [run_cons]
      have hlen : (c.pushMessage .lifo msg).msgQueue.length = c.msgQueue.length + 1 := rfl
      rw [hlen] at hdrain
      exact hdrain
    · have ha := hfollows hempty id
      have hwaiting : (c.pushMessage .lifo msg).waiting id = op :: c.waiting id :=
        PopOrder.filterMap_add_of_some .lifo _ hop
      have hexpected : (c.pushMessage .lifo msg).expected id = op.apply (c.expected id) := by
        rw [expected_pushMessage, Option.mem_def.mp hop]
        rfl
      rw [(hview id).1, (hview id).2, hwaiting, hexpected] at ha
      exact (SceneOp.agrees_overtake_iff op ((hcourse id).pure rfl) (hcourse id).agrees).mp ha

/-- Two drawables are added in one frame and moved in the next. -/
theorem follows_of_inOrder_two_frames :
    Along (step .lifo) Follows new
      [.pushMessage (.addDrawable ⟨1, []⟩), .pushMessage (.addDrawable ⟨2, []⟩), .tryPop, .tryPop,
        .pushMessage (.transDrawable ⟨2, zeroMat⟩), .tryPop] :=
  (follows_of_inOrder .lifo _).1 (by decide)

/-- A drawable is added and deleted within one frame. -/
theorem not_follows : ¬ ∀ as, Along (step .lifo) Follows new as := by
  intro h
  let as : List ClientAction :=
    [.pushMessage (.addDrawable ⟨1, []⟩), .pushMessage (.delDrawable ⟨1⟩), .tryPop, .tryPop]
  have hlast : (run (step .lifo) new as).map
      (fun c => (c.msgQueue, (c.renderer.view 1).isSome, (c.expected 1).isSome)) = some ([], true, false) := by
    decide
  obtain ⟨c, hr, he⟩ := Option.map_eq_some_iff.mp hlast
  obtain ⟨hempty, he⟩ := Prod.mk.inj he
  obtain ⟨hview, hexpected⟩ := Prod.mk.inj he
  have hp := ((h as).last hr hempty 1).present
  rw [hview, hexpected] at hp
  cases hp

end LocalClient

end Quintses
