import Quintses.BtPhysics
import Quintses.Lts

/-! What `BtPhysics` has registered in its world and allocated for the entries
of its two maps. The operations here break where the source unregisters or
deletes something that is not there. -/

namespace Quintses

open Lts

namespace DynamicsWorld

variable (w : DynamicsWorld)

def removeRigidBody (body : Nat) : Option DynamicsWorld :=
  if body ∈ w.rigidBodies then some { w with rigidBodies := w.rigidBodies.erase body } else none

def removeAction (action : Nat) : Option DynamicsWorld :=
  if action ∈ w.actions then some { w with actions := w.actions.erase action } else none

def removeCollisionObject (object : Nat) : Option DynamicsWorld :=
  if object ∈ w.collisionObjects then some { w with collisionObjects := w.collisionObjects.erase object }
  else none

end DynamicsWorld

namespace BtPhysics

variable (p : BtPhysics)

def freeObject? (object : PhysicsObject) : Option BtPhysics := do
  let world ← p.world.removeRigidBody object.body
  let .rigidBody state ← p.heap.find? object.body | none
  let heap ← p.heap.delete? [state, object.body, object.collision]
  return { p with world, heap }

def freeCharacter? (character : CharacterObject) : Option BtPhysics := do
  let world ← p.world.removeAction character.controller
  let world ← world.removeCollisionObject character.object
  let heap ← p.heap.delete? [character.controller, character.object, character.collision]
  return { p with world, heap }

def parseMessage? (msg : ServerMsg) (srv : LocalServer) : Option (LocalServer × BtPhysics) :=
  match msg with
  | .bullet (.delPhys id) => do
    let object ← p.objects.find? id
    let p ← p.freeObject? object
    return (srv, { p with objects := p.objects.erase id })
  | .bullet (.delChar id) => do
    let character ← p.characters.find? id
    let p ← p.freeCharacter? character
    return (srv, { p with characters := p.characters.erase id })
  | msg => (p.parseMessage msg srv).toOption

def cleanUp? : Option BtPhysics := do
  let p ← p.characters.values.foldlM freeCharacter? p
  p.objects.values.foldlM freeObject? p

end BtPhysics

/-- What the entry has allocated; the motion state is found through the body. -/
def PhysicsObject.parts (heap : Heap BulletObject) (object : PhysicsObject) : List Nat :=
  match heap.find? object.body with
  | some (.rigidBody state) => [state, object.body, object.collision]
  | _ => [object.body, object.collision]

def CharacterObject.parts (character : CharacterObject) : List Nat :=
  [character.controller, character.object, character.collision]

def PhysicsObject.Built (heap : Heap BulletObject) (object : PhysicsObject) : Prop :=
  ∃ plane trans state, heap.find? object.body = some (.rigidBody state) ∧
    heap.find? state = some (.motionState trans) ∧
    heap.find? object.collision = some (.staticPlaneShape plane)

def CharacterObject.Built (heap : Heap BulletObject) (character : CharacterObject) : Prop :=
  ∃ trans, heap.find? character.controller = some .controller ∧
    heap.find? character.object = some (.ghostObject trans) ∧
    heap.find? character.collision = some .capsuleShape

/-- The world and the heap hold what belongs to these entries and nothing else. -/
structure Accounts (world : DynamicsWorld) (heap : Heap BulletObject) (objects : List PhysicsObject)
    (characters : List CharacterObject) : Prop where
  bodies : world.rigidBodies.Perm (objects.map PhysicsObject.body)
  ghosts : world.collisionObjects.Perm (characters.map CharacterObject.object)
  actions : world.actions.Perm (characters.map CharacterObject.controller)
  planes : ∀ o ∈ objects, o.Built heap
  capsules : ∀ c ∈ characters, c.Built heap
  owned : heap.keys.Perm
    (objects.flatMap (PhysicsObject.parts heap) ++ characters.flatMap CharacterObject.parts)

structure PhysicsWorld where
  server : LocalServer
  physics : BtPhysics
  /-- A null pointer was followed, or something was unregistered or deleted twice. -/
  broken : Bool

namespace PhysicsWorld

def new (srv : LocalServer) : PhysicsWorld := ⟨srv, .new, false⟩

def step (w : PhysicsWorld) (msg : ServerMsg) : Option PhysicsWorld :=
  if w.broken then none
  else
    match w.physics.parseMessage? msg w.server with
    | some (srv, p) => some ⟨srv, p, false⟩
    | none => some { w with broken := true }

/-- Each creation is of a new id and each deletion of one that is there. -/
def Fits (w : PhysicsWorld) : ServerMsg → Prop
  | .bullet (.addPhys id _ _) => w.physics.objects.contains id = false
  | .bullet (.addChar id _ _) => w.physics.characters.contains id = false
  | .bullet (.delPhys id) => w.physics.objects.contains id = true
  | .bullet (.delChar id) => w.physics.characters.contains id = true
  | .bullet (.forceState _ _) | .input _ _ | .shutdown _ | .loadPlayer _ _ => True

instance (w : PhysicsWorld) : (msg : ServerMsg) → Decidable (w.Fits msg)
  | .bullet (.addPhys id _ _) => inferInstanceAs (Decidable (w.physics.objects.contains id = false))
  | .bullet (.addChar id _ _) => inferInstanceAs (Decidable (w.physics.characters.contains id = false))
  | .bullet (.delPhys id) => inferInstanceAs (Decidable (w.physics.objects.contains id = true))
  | .bullet (.delChar id) => inferInstanceAs (Decidable (w.physics.characters.contains id = true))
  | .bullet (.forceState _ _) | .input _ _ | .shutdown _ | .loadPlayer _ _ => .isTrue trivial

/-- The bookkeeping matches the world, each cell belongs to one entry, and the
clean-up would now unregister and delete everything without breaking. -/
structure Matches (w : PhysicsWorld) : Prop where
  intact : w.broken = false
  accounts : Accounts w.physics.world w.physics.heap w.physics.objects.values w.physics.characters.values
  apart : (w.physics.objects.values.flatMap (PhysicsObject.parts w.physics.heap) ++
    w.physics.characters.values.flatMap CharacterObject.parts).Nodup
  cleanUp : w.physics.cleanUp? = some w.physics.cleanUp ∧ w.physics.cleanUp.world = ⟨[], [], []⟩ ∧
    w.physics.cleanUp.heap.keys = []

end PhysicsWorld

theorem PhysicsObject.Built.parts_eq {heap : Heap BulletObject} {o : PhysicsObject} (h : o.Built heap) :
    ∃ state, heap.find? o.body = some (.rigidBody state) ∧ o.parts heap = [state, o.body, o.collision] := by
  obtain ⟨plane, trans, state, hbody, -, -⟩ := h
  exact ⟨state, hbody, by simp [parts, hbody]⟩

theorem PhysicsObject.Built.frame {heap heap' : Heap BulletObject} {o : PhysicsObject} (h : o.Built heap)
    (hkept : ∀ a ∈ o.parts heap, ∀ b, heap.find? a = some b → heap'.find? a = some b) :
    o.Built heap' ∧ o.parts heap' = o.parts heap := by
  obtain ⟨plane, trans, state, hbody, hstate, hshape⟩ := h
  have hparts : o.parts heap = [state, o.body, o.collision] := by simp [parts, hbody]
  rw [hparts] at hkept
  have hbody' := hkept o.body (by simp) _ hbody
  have hstate' := hkept state (by simp) _ hstate
  have hshape' := hkept o.collision (by simp) _ hshape
  have hparts' : o.parts heap' = [state, o.body, o.collision] := by simp [parts, hbody']
  exact ⟨⟨plane, trans, state, hbody', hstate', hshape'⟩, hparts'.trans hparts.symm⟩

theorem CharacterObject.Built.frame {heap heap' : Heap BulletObject} {c : CharacterObject} (h : c.Built heap)
    (hkept : ∀ a ∈ c.parts, ∀ b, heap.find? a = some b → heap'.find? a = some b) : c.Built heap' := by
  obtain ⟨trans, hcontroller, hobject, hshape⟩ := h
  simp only [parts, List.mem_cons, List.not_mem_nil, or_false, forall_eq_or_imp, forall_eq] at hkept
  exact ⟨trans, hkept.1 _ hcontroller, hkept.2.1 _ hobject, hkept.2.2 _ hshape⟩

namespace Accounts

variable {world : DynamicsWorld} {heap heap' : Heap BulletObject} {objects objects' : List PhysicsObject}
  {characters characters' : List CharacterObject}

theorem nodup (h : Accounts world heap objects characters) :
    (objects.flatMap (PhysicsObject.parts heap) ++ characters.flatMap CharacterObject.parts).Nodup :=
  h.owned.nodup_iff.mp heap.keys_nodup

theorem perm (h : Accounts world heap objects characters) (ho : objects.Perm objects')
    (hc : characters.Perm characters') : Accounts world heap objects' characters' where
  bodies := h.bodies.trans (ho.map _)
  ghosts := h.ghosts.trans (hc.map _)
  actions := h.actions.trans (hc.map _)
  planes o hm := h.planes o (ho.mem_iff.mpr hm)
  capsules c hm := h.capsules c (hc.mem_iff.mpr hm)
  owned := h.owned.trans ((ho.flatMap_right _).append (hc.flatMap_right _))

theorem setState {c : CharacterObject} (h : Accounts world heap objects (c :: characters)) (state : UInt16) :
    Accounts world heap objects ({ c with state } :: characters) := by
  refine ⟨h.bodies, h.ghosts, h.actions, h.planes, fun d hd => ?_, h.owned⟩
  rcases List.mem_cons.mp hd with rfl | hd
  · exact h.capsules c List.mem_cons_self
  · exact h.capsules d (List.mem_cons_of_mem c hd)

theorem frame (hobjects : ∀ o ∈ objects, o.Built heap) (hcharacters : ∀ c ∈ characters, c.Built heap)
    (hkept : ∀ a ∈ objects.flatMap (PhysicsObject.parts heap) ++ characters.flatMap CharacterObject.parts,
      ∀ b, heap.find? a = some b → heap'.find? a = some b) :
    (∀ o ∈ objects, o.Built heap') ∧ (∀ c ∈ characters, c.Built heap') ∧
      objects.flatMap (PhysicsObject.parts heap') = objects.flatMap (PhysicsObject.parts heap) := by
  have ho (o : PhysicsObject) (hm : o ∈ objects) : o.Built heap' ∧ o.parts heap' = o.parts heap :=
    (hobjects o hm).frame (fun a ha => hkept a (List.mem_append_left _ (List.mem_flatMap_of_mem hm ha)))
  refine ⟨fun o hm => (ho o hm).1, fun c hm => ?_, List.flatMap_congr (fun o hm => (ho o hm).2)⟩
  exact (hcharacters c hm).frame (fun a ha => hkept a (List.mem_append_right _ (List.mem_flatMap_of_mem hm ha)))

theorem add_object (h : Accounts world heap objects characters) {o : PhysicsObject} (ho : o.Built heap')
    (hkept : ∀ a b, heap.find? a = some b → heap'.find? a = some b)
    (hkeys : heap'.keys.Perm (o.parts heap' ++ heap.keys)) :
    Accounts { world with rigidBodies := o.body :: world.rigidBodies } heap' (o :: objects) characters := by
  obtain ⟨hobjects, hcharacters, hparts⟩ := frame h.planes h.capsules (fun a _ => hkept a)
  refine ⟨h.bodies.cons o.body, h.ghosts, h.actions, ?_, hcharacters, ?_⟩
  · intro o' hm
    rcases List.mem_cons.mp hm with rfl | hm
    · exact ho
    · exact hobjects o' hm
  · rw [List.flatMap_cons, hparts, List.append_assoc]
    exact hkeys.trans (h.owned.append_left _)

theorem add_character (h : Accounts world heap objects characters) {c : CharacterObject} (hc : c.Built heap')
    (hkept : ∀ a b, heap.find? a = some b → heap'.find? a = some b)
    (hkeys : heap'.keys.Perm (c.parts ++ heap.keys)) :
    Accounts { world with
      collisionObjects := c.object :: world.collisionObjects
      actions := c.controller :: world.actions } heap' objects (c :: characters) := by
  obtain ⟨hobjects, hcharacters, hparts⟩ := frame h.planes h.capsules (fun a _ => hkept a)
  refine ⟨h.bodies, h.ghosts.cons c.object, h.actions.cons c.controller, hobjects, ?_, ?_⟩
  · intro c' hm
    rcases List.mem_cons.mp hm with rfl | hm
    · exact hc
    · exact hcharacters c' hm
  · rw [List.flatMap_cons, hparts]
    exact hkeys.trans ((h.owned.append_left _).trans (List.perm_append_comm_assoc _ _ _))

theorem remove_object {o : PhysicsObject} (h : Accounts world heap (o :: objects) characters) :
    heap.delete? (o.parts heap) = some ((o.parts heap).foldl Heap.free heap) ∧
      Accounts { world with rigidBodies := world.rigidBodies.erase o.body }
        ((o.parts heap).foldl Heap.free heap) objects characters := by
  have howned := h.owned
  rw [List.flatMap_cons, List.append_assoc] at howned
  obtain ⟨hdelete, hkeys, hsame⟩ := Heap.delete?_of_perm howned
  have hnd := List.nodup_append.mp (howned.nodup_iff.mp heap.keys_nodup)
  have hrest : ∀ o' ∈ objects, o'.Built heap := fun o' hm => h.planes o' (List.mem_cons_of_mem o hm)
  obtain ⟨hobjects, hcharacters, hparts⟩ := frame hrest h.capsules
    (fun a ha b hb => (hsame a (fun hm => hnd.2.2 a hm a ha rfl)).trans hb)
  refine ⟨hdelete, ?_, h.ghosts, h.actions, hobjects, hcharacters, ?_⟩
  · exact (List.erase_cons_head (a := o.body) (l := objects.map PhysicsObject.body)) ▸ h.bodies.erase o.body
  · rw [hparts]
    exact hkeys

theorem remove_character {c : CharacterObject} (h : Accounts world heap objects (c :: characters)) :
    heap.delete? c.parts = some (c.parts.foldl Heap.free heap) ∧
      Accounts { world with
        collisionObjects := world.collisionObjects.erase c.object
        actions := world.actions.erase c.controller } (c.parts.foldl Heap.free heap) objects characters := by
  have howned := h.owned
  rw [List.flatMap_cons] at howned
  replace howned := howned.trans (List.perm_append_comm_assoc _ _ _)
  obtain ⟨hdelete, hkeys, hsame⟩ := Heap.delete?_of_perm howned
  have hnd := List.nodup_append.mp (howned.nodup_iff.mp heap.keys_nodup)
  have hrest : ∀ c' ∈ characters, c'.Built heap := fun c' hm => h.capsules c' (List.mem_cons_of_mem c hm)
  obtain ⟨hobjects, hcharacters, hparts⟩ := frame h.planes hrest
    (fun a ha b hb => (hsame a (fun hm => hnd.2.2 a hm a ha rfl)).trans hb)
  refine ⟨hdelete, h.bodies, ?_, ?_, hobjects, hcharacters, ?_⟩
  · exact (List.erase_cons_head (a := c.object) (l := characters.map CharacterObject.object)) ▸
      h.ghosts.erase c.object
  · exact (List.erase_cons_head (a := c.controller) (l := characters.map CharacterObject.controller)) ▸
      h.actions.erase c.controller
  · rw [hparts]
    exact hkeys

theorem world_eq (h : Accounts world heap [] []) : world = ⟨[], [], []⟩ := by
  obtain ⟨rigidBodies, collisionObjects, actions⟩ := world
  have hbodies : rigidBodies = [] := List.perm_nil.mp h.bodies
  have hghosts : collisionObjects = [] := List.perm_nil.mp h.ghosts
  have hactions : actions = [] := List.perm_nil.mp h.actions
  rw [hbodies, hghosts, hactions]

end Accounts

namespace BtPhysics

variable {p : BtPhysics} {objects : List PhysicsObject} {characters : List CharacterObject}

theorem addPhysObject_accounts (h : Accounts p.world p.heap objects characters) (id : UInt32) (plane : Plane)
    (matrix : Mat4) : ∃ o, (p.addPhysObject id plane matrix).objects = p.objects.assign id o ∧
      (p.addPhysObject id plane matrix).characters = p.characters ∧
      Accounts (p.addPhysObject id plane matrix).world (p.addPhysObject id plane matrix).heap (o :: objects)
        characters := by
  let h1 := p.heap.alloc (.staticPlaneShape plane)
  let h2 := h1.alloc (.motionState matrix)
  let h3 := h2.alloc (.rigidBody h1.fresh)
  let o : PhysicsObject := ⟨p.heap.fresh, h2.fresh⟩
  have hbody : h3.find? o.body = some (.rigidBody h1.fresh) := by simp [h3, o]
  have hstate : h3.find? h1.fresh = some (.motionState matrix) :=
    Heap.find?_alloc_of_find? _ (by simp [h2])
  have hshape : h3.find? o.collision = some (.staticPlaneShape plane) :=
    Heap.find?_alloc_of_find? _ (Heap.find?_alloc_of_find? _ (by simp [h1, o]))
  have hparts : o.parts h3 = [h1.fresh, o.body, o.collision] := by simp [PhysicsObject.parts, hbody]
  have hkeys : h3.keys.Perm (o.parts h3 ++ p.heap.keys) := by
    rw [hparts]
    refine (Heap.keys_alloc_perm h2 _).trans (List.Perm.trans ?_ (List.Perm.swap _ _ _))
    exact ((Heap.keys_alloc_perm h1 _).trans ((Heap.keys_alloc_perm p.heap _).cons _)).cons _
  have hbuilt : o.Built h3 := ⟨plane, matrix, h1.fresh, hbody, hstate, hshape⟩
  refine ⟨o, rfl, rfl, h.add_object hbuilt (fun a b hb => ?_) hkeys⟩
  exact Heap.find?_alloc_of_find? _ (Heap.find?_alloc_of_find? _ (Heap.find?_alloc_of_find? _ hb))

theorem addCharObject_accounts (h : Accounts p.world p.heap objects characters) (id : UInt32) (matrix : Mat4) :
    ∃ c, (p.addCharObject id matrix).characters = p.characters.assign id c ∧
      (p.addCharObject id matrix).objects = p.objects ∧
      Accounts (p.addCharObject id matrix).world (p.addCharObject id matrix).heap objects
        (c :: characters) := by
  let h1 := p.heap.alloc (.ghostObject matrix)
  let h2 := h1.alloc .capsuleShape
  let h3 := h2.alloc .controller
  let c : CharacterObject := ⟨h1.fresh, p.heap.fresh, h2.fresh, 0⟩
  have hcontroller : h3.find? c.controller = some .controller := by simp [h3, c]
  have hshape : h3.find? c.collision = some .capsuleShape :=
    Heap.find?_alloc_of_find? _ (by simp [h2, c])
  have hobject : h3.find? c.object = some (.ghostObject matrix) :=
    Heap.find?_alloc_of_find? _ (Heap.find?_alloc_of_find? _ (by simp [h1, c]))
  have hkeys : h3.keys.Perm (c.parts ++ p.heap.keys) := by
    refine (Heap.keys_alloc_perm h2 _).trans (List.Perm.cons _ (List.Perm.trans ?_ (List.Perm.swap _ _ _)))
    exact (Heap.keys_alloc_perm h1 _).trans ((Heap.keys_alloc_perm p.heap _).cons _)
  have hbuilt : c.Built h3 := ⟨matrix, hcontroller, hobject, hshape⟩
  refine ⟨c, rfl, rfl, h.add_character hbuilt (fun a b hb => ?_) hkeys⟩
  exact Heap.find?_alloc_of_find? _ (Heap.find?_alloc_of_find? _ (Heap.find?_alloc_of_find? _ hb))

theorem freeObject_accounts {o : PhysicsObject} (h : Accounts p.world p.heap (o :: objects) characters) :
    p.freeObject? o = some (p.freeObject o) ∧
      Accounts (p.freeObject o).world (p.freeObject o).heap objects characters := by
  obtain ⟨state, hbody, hparts⟩ := (h.planes o List.mem_cons_self).parts_eq
  obtain ⟨hdelete, haccounts⟩ := h.remove_object
  rw [hparts] at hdelete haccounts
  have hmem : o.body ∈ p.world.rigidBodies := h.bodies.mem_iff.mpr List.mem_cons_self
  constructor
  · simp [freeObject?, freeObject, DynamicsWorld.removeRigidBody, hmem, hbody, hdelete]
  · simpa [freeObject, hbody] using haccounts

theorem freeCharacter_accounts {c : CharacterObject} (h : Accounts p.world p.heap objects (c :: characters)) :
    p.freeCharacter? c = some (p.freeCharacter c) ∧
      Accounts (p.freeCharacter c).world (p.freeCharacter c).heap objects characters := by
  obtain ⟨hdelete, haccounts⟩ := h.remove_character
  have hghost : c.object ∈ p.world.collisionObjects := h.ghosts.mem_iff.mpr List.mem_cons_self
  have haction : c.controller ∈ p.world.actions := h.actions.mem_iff.mpr List.mem_cons_self
  refine ⟨?_, haccounts⟩
  rw [CharacterObject.parts] at hdelete
  simp [freeCharacter?, freeCharacter, DynamicsWorld.removeAction, DynamicsWorld.removeCollisionObject, hghost,
    haction, hdelete]

theorem foldl_freeCharacter (h : Accounts p.world p.heap objects characters) :
    characters.foldlM freeCharacter? p = some (characters.foldl freeCharacter p) ∧
      (characters.foldl freeCharacter p).objects = p.objects ∧
      Accounts (characters.foldl freeCharacter p).world (characters.foldl freeCharacter p).heap objects [] := by
  induction characters generalizing p with
  | nil => exact ⟨rfl, rfl, h⟩
  | cons c characters ih =>
    obtain ⟨hfree, hrest⟩ := freeCharacter_accounts h
    obtain ⟨hfold, hobjects, haccounts⟩ := ih hrest
    exact ⟨by simpa [hfree] using hfold, hobjects, haccounts⟩

theorem foldl_freeObject (h : Accounts p.world p.heap objects []) :
    objects.foldlM freeObject? p = some (objects.foldl freeObject p) ∧
      Accounts (objects.foldl freeObject p).world (objects.foldl freeObject p).heap [] [] := by
  induction objects generalizing p with
  | nil => exact ⟨rfl, h⟩
  | cons o objects ih =>
    obtain ⟨hfree, hrest⟩ := freeObject_accounts h
    obtain ⟨hfold, haccounts⟩ := ih hrest
    exact ⟨by simpa [hfree] using hfold, haccounts⟩

/-- The clean-up finds everything it unregisters and deletes, and leaves nothing. -/
theorem cleanUp_accounts (h : Accounts p.world p.heap p.objects.values p.characters.values) :
    p.cleanUp? = some p.cleanUp ∧ p.cleanUp.world = ⟨[], [], []⟩ ∧ p.cleanUp.heap.keys = [] := by
  obtain ⟨hcharacters, hobjects, hmid⟩ := foldl_freeCharacter h
  rw [← hobjects] at hmid
  obtain ⟨hplanes, hend⟩ := foldl_freeObject hmid
  refine ⟨?_, hend.world_eq, List.perm_nil.mp hend.owned⟩
  simp only [cleanUp?, hcharacters, Option.bind_eq_bind, Option.bind_some]
  exact hplanes

theorem setInputState_accounts (h : Accounts p.world p.heap p.objects.values p.characters.values)
    (id : UInt32) (state : UInt16) :
    Accounts p.world p.heap p.objects.values (p.setInputStateCallback id state).characters.values := by
  cases hc : p.characters.find? id with
  | none =>
    have hsame : (p.setInputStateCallback id state).characters = p.characters :=
      StdMap.modify_of_find?_none _ hc
    exact hsame.symm ▸ h
  | some c =>
    have hold := StdMap.values_erase_perm hc
    have hnew := StdMap.values_modify_perm (fun c : CharacterObject => { c with state }) hc
    exact ((h.perm (List.Perm.refl _) hold).setState state).perm (List.Perm.refl _) hnew.symm

theorem parseMessage_accounts (h : Accounts p.world p.heap p.objects.values p.characters.values)
    {msg : ServerMsg} {srv : LocalServer} (hfits : PhysicsWorld.Fits ⟨srv, p, false⟩ msg) :
    ∃ srv' p', p.parseMessage? msg srv = some (srv', p') ∧ p.parseMessage msg srv = .ok (srv', p') ∧
      Accounts p'.world p'.heap p'.objects.values p'.characters.values := by
  cases msg with
  | shutdown sender => exact ⟨srv, p, rfl, rfl, h⟩
  | loadPlayer sender template => exact ⟨srv, p, rfl, rfl, h⟩
  | input sender state => exact ⟨_, _, rfl, rfl, setInputState_accounts h _ state⟩
  | bullet b =>
    cases b with
    | forceState id state => exact ⟨srv, _, rfl, rfl, setInputState_accounts h id state⟩
    | addChar id template matrix =>
      have hnew : p.characters.find? id = none :=
        Option.not_isSome_iff_eq_none.mp (Bool.not_eq_true _ |>.mpr hfits)
      obtain ⟨c, hcharacters, hobjects, haccounts⟩ := addCharObject_accounts h id matrix
      refine ⟨srv, p.addCharObject id matrix, rfl, rfl, ?_⟩
      rw [hcharacters, hobjects]
      exact haccounts.perm (List.Perm.refl _) (StdMap.values_assign_perm hnew).symm
    | addPhys id template matrix =>
      have hnew : p.objects.find? id = none :=
        Option.not_isSome_iff_eq_none.mp (Bool.not_eq_true _ |>.mpr hfits)
      cases hplane : planes.find? (fun i => i.1 = template) with
      | none =>
        refine ⟨srv, p, ?_, ?_, h⟩ <;>
          simp [parseMessage?, parseMessage, parseBullet, hplane, Except.map, Except.toOption]
      | some i =>
        obtain ⟨o, hobjects, hcharacters, haccounts⟩ := addPhysObject_accounts h id i.2 matrix
        refine ⟨srv, p.addPhysObject id i.2 matrix, ?_, ?_, ?_⟩
        · simp [parseMessage?, parseMessage, parseBullet, hplane, Except.map, Except.toOption]
        · simp [parseMessage, parseBullet, hplane, Except.map]
        · rw [hcharacters, hobjects]
          exact haccounts.perm (StdMap.values_assign_perm hnew).symm (List.Perm.refl _)
    | delPhys id =>
      obtain ⟨o, ho⟩ : ∃ o, p.objects.find? id = some o := Option.isSome_iff_exists.mp hfits
      have hperm := h.perm (StdMap.values_erase_perm ho) (List.Perm.refl _)
      obtain ⟨hfree, haccounts⟩ := freeObject_accounts hperm
      refine ⟨srv, { p.freeObject o with objects := p.objects.erase id }, ?_, ?_, haccounts⟩
      · simp [parseMessage?, ho, hfree, freeObject]
      · simp [parseMessage, parseBullet, delPhysObject, ho, Except.map]
    | delChar id =>
      obtain ⟨c, hc⟩ : ∃ c, p.characters.find? id = some c := Option.isSome_iff_exists.mp hfits
      have hperm := h.perm (List.Perm.refl _) (StdMap.values_erase_perm hc)
      obtain ⟨hfree, haccounts⟩ := freeCharacter_accounts hperm
      refine ⟨srv, { p.freeCharacter c with characters := p.characters.erase id }, ?_, ?_, haccounts⟩
      · simp [parseMessage?, hc, hfree, freeCharacter]
      · simp [parseMessage, parseBullet, delCharObject, hc, Except.map]

end BtPhysics

namespace PhysicsWorld

variable {w w' : PhysicsWorld} {msg : ServerMsg}

def Sound (w : PhysicsWorld) : Prop :=
  w.broken = false ∧
    Accounts w.physics.world w.physics.heap w.physics.objects.values w.physics.characters.values

theorem sound_new (srv : LocalServer) : (new srv).Sound := by
  refine ⟨rfl, List.Perm.refl _, List.Perm.refl _, List.Perm.refl _, ?_, ?_, List.Perm.refl _⟩
  · simp [new, BtPhysics.new, StdMap.values, StdMap.empty]
  · simp [new, BtPhysics.new, StdMap.values, StdMap.empty]

theorem step_sound (h : w.Sound) (hfits : w.Fits msg) (hs : step w msg = some w') : w'.Sound := by
  obtain ⟨hbroken, haccounts⟩ := h
  have hfits' : Fits ⟨w.server, w.physics, false⟩ msg := by
    cases msg with
    | bullet b => cases b <;> exact hfits
    | _ => trivial
  obtain ⟨srv, p, hparse, -, hnew⟩ := BtPhysics.parseMessage_accounts haccounts hfits'
  simp only [step, hbroken, Bool.false_eq_true, if_false, hparse, Option.some.injEq] at hs
  subst hs
  exact ⟨rfl, hnew⟩

theorem Sound.matches (h : w.Sound) : w.Matches :=
  ⟨h.1, h.2, h.2.nodup, BtPhysics.cleanUp_accounts h.2⟩

/-- While creations are of new ids and deletions of ids that are there, the
bookkeeping matches the world after every message. -/
theorem matches_of_fits (srv : LocalServer) {msgs : List ServerMsg} (h : Guarded step Fits (new srv) msgs) :
    Along step Matches (new srv) msgs := by
  have halong : Along step Sound (new srv) msgs :=
    h.along Sound (fun _ _ _ hi hfits hs => step_sound hi hfits hs) (sound_new srv)
  exact halong.mono (fun _ hw => hw.matches)

theorem matches_of_fits_create_delete : Along step Matches (new (LocalServer.new zeroMat))
    [.bullet (.addChar 1 [] zeroMat), .bullet (.addPhys 2 (literal "Floor") zeroMat), .input 7 1,
      .bullet (.forceState 1 2), .bullet (.delChar 1), .bullet (.addPhys 3 [80] zeroMat),
      .bullet (.delPhys 2)] :=
  matches_of_fits (LocalServer.new zeroMat) (by decide)

end PhysicsWorld

end Quintses
