import Quintses.FifoBuild
import Quintses.Loading
import Quintses.Obedience
import Quintses.PhysicsLifetime
import Quintses.Strings

/-! From the document that `loadWorld` reads to the physics. The mobs and blockers
that the server has loaded are there once the messages about them are handled,
and they stay. -/

namespace Quintses

open Glm Lts

namespace BtPhysics

/-- The body of a static object, by its shape and its place. -/
def Stands (p : BtPhysics) (id : UInt32) (plane : Plane) (mat : Mat4) : Prop :=
  ∃ o state, p.objects.find? id = some o ∧ p.heap.find? o.body = some (.rigidBody state) ∧
    p.heap.find? state = some (.motionState mat) ∧ p.heap.find? o.collision = some (.staticPlaneShape plane)

/-- What a creation leaves behind; an unknown template leaves nothing. -/
def Has (p : BtPhysics) : ServerMsg → Prop
  | .bullet (.addPhys id template mat) => ∀ i ∈ planes.find? (fun i => i.1 = template), p.Stands id i.2 mat
  | .bullet (.addChar id _ _) => p.HasCharacter id
  | _ => True

variable {p p' : BtPhysics} {id : UInt32} {plane : Plane} {mat : Mat4} {msg : ServerMsg} {b : BulletInternalMsg}

theorem Stands.frame (h : p.Stands id plane mat) (hfind : p'.objects.find? id = p.objects.find? id)
    (hkept : ∀ o, p.objects.find? id = some o → ∀ a ∈ o.parts p.heap, ∀ c, p.heap.find? a = some c →
      p'.heap.find? a = some c) : p'.Stands id plane mat := by
  obtain ⟨o, state, hid, hbody, hstate, hshape⟩ := h
  have hparts : o.parts p.heap = [state, o.body, o.collision] := by simp [PhysicsObject.parts, hbody]
  have hsame := hkept o hid
  rw [hparts] at hsame
  exact ⟨o, state, hfind.trans hid, hsame _ (by simp) _ hbody, hsame _ (by simp) _ hstate, hsame _ (by simp) _ hshape⟩

theorem stands_addPhysObject : (p.addPhysObject id plane mat).Stands id plane mat := by
  let h1 := p.heap.alloc (.staticPlaneShape plane)
  let h2 := h1.alloc (.motionState mat)
  have hshape : h1.find? p.heap.fresh = some (.staticPlaneShape plane) := by simp [h1]
  have hstate : h2.find? h1.fresh = some (.motionState mat) := by simp [h2]
  refine ⟨⟨p.heap.fresh, h2.fresh⟩, h1.fresh, by simp [addPhysObject, h1, h2], by simp [addPhysObject, h1, h2], ?_, ?_⟩
  · exact Heap.find?_alloc_of_find? _ hstate
  · exact Heap.find?_alloc_of_find? _ (Heap.find?_alloc_of_find? _ hshape)

theorem parseBullet_has (hp : p.parseBullet b = .ok p') : p'.Has (.bullet b) := by
  cases b with
  | addPhys objid template matrix =>
    intro i hi
    have hplane : planes.find? (fun i => i.1 = template) = some i := hi
    simp only [parseBullet, hplane] at hp
    cases hp
    exact stands_addPhysObject
  | addChar objid template matrix =>
    cases hp
    simp [Has, HasCharacter, addCharObject]
  | _ => trivial

theorem heap_addPhysObject {a : Nat} {c : BulletObject} (h : p.heap.find? a = some c) :
    (p.addPhysObject id plane mat).heap.find? a = some c :=
  Heap.find?_alloc_of_find? _ (Heap.find?_alloc_of_find? _ (Heap.find?_alloc_of_find? _ h))

theorem heap_addCharObject {a : Nat} {c : BulletObject} (h : p.heap.find? a = some c) :
    (p.addCharObject id mat).heap.find? a = some c :=
  Heap.find?_alloc_of_find? _ (Heap.find?_alloc_of_find? _ (Heap.find?_alloc_of_find? _ h))

/-- The cells of an object and of a character are different ones. -/
theorem Balanced.apart (h : p.Balanced) {o : PhysicsObject} {c : CharacterObject} {i : UInt32}
    (ho : p.objects.find? id = some o) (hc : p.characters.find? i = some c) {a : Nat} (ha : a ∈ o.parts p.heap) :
    a ∉ c.parts := by
  intro hm
  have hobject : o ∈ p.objects.values := List.mem_map.mpr ⟨(id, o), StdMap.mem_entries.mpr ho, rfl⟩
  have hcharacter : c ∈ p.characters.values := List.mem_map.mpr ⟨(i, c), StdMap.mem_entries.mpr hc, rfl⟩
  exact (List.nodup_append.mp h.nodup).2.2 a (List.mem_flatMap_of_mem hobject ha) a
    (List.mem_flatMap_of_mem hcharacter hm) rfl

theorem heap_freeCharacter {c : CharacterObject} {a : Nat} (ha : a ∉ c.parts) :
    (p.freeCharacter c).heap.find? a = p.heap.find? a := by
  simp only [CharacterObject.parts, List.mem_cons, List.not_mem_nil, or_false, not_or] at ha
  simp [freeCharacter, ha.1, ha.2.1, ha.2.2]

/-- What has been built stays, unless it is deleted. -/
theorem Has.parseBullet (h : p.Has msg) (hb : p.Balanced) (hp : p.parseBullet b = .ok p')
    (hnew : ¬ p.Replaces (.bullet b)) (hphys : ∀ i, b ≠ .delPhys i)
    (hchar : ∀ i template mat, msg = .bullet (.addChar i template mat) → b ≠ .delChar i) : p'.Has msg := by
  cases msg with
  | bullet m =>
    cases m with
    | addPhys id template mat =>
      intro i hi
      have hstands := h i hi
      cases b with
      | forceState j state => cases hp; exact hstands
      | addPhys j template matrix =>
        simp only [BtPhysics.parseBullet] at hp
        split at hp <;> cases hp
        · have hj : j ≠ id := by
            rintro rfl
            obtain ⟨o, state, hid, -⟩ := hstands
            exact hnew (by simp [Replaces, StdMap.contains, hid])
          refine hstands.frame ?_ (fun o _ a _ c hc => heap_addPhysObject hc)
          simp [addPhysObject, Ne.symm hj]
        · exact hstands
      | addChar j template matrix =>
        cases hp
        exact hstands.frame rfl (fun o _ a _ c hc => heap_addCharObject hc)
      | delPhys j => exact absurd rfl (hphys j)
      | delChar j =>
        simp only [BtPhysics.parseBullet, delCharObject] at hp
        split at hp <;> cases hp
        rename_i character hfind
        refine hstands.frame rfl (fun o ho a ha c hc => ?_)
        exact (heap_freeCharacter (hb.apart ho hfind ha)).trans hc
    | addChar id template mat =>
      obtain ⟨c, hc⟩ : ∃ c, p.characters.find? id = some c := h
      by_cases hsame : b.character? = some id
      · cases b with
        | forceState j state => cases hp; exact (p.hasCharacter_setInputState j state id).mpr ⟨c, hc⟩
        | addChar j template matrix =>
          obtain rfl : j = id := Option.some.inj hsame
          exact absurd (by simp [Replaces, StdMap.contains, hc]) hnew
        | delChar j =>
          obtain rfl : j = id := Option.some.inj hsame
          exact absurd rfl (hchar j template mat rfl)
        | _ => cases hsame
      · exact ⟨c, (parseBullet_character hp hsame).trans hc⟩
    | _ => trivial
  | _ => trivial

theorem Has.congr (h : p.Has msg) (hb : p'.books = p.books) : p'.Has msg := by
  simp only [books, Prod.mk.injEq] at hb
  obtain ⟨-, hheap, hobjects, hcharacters⟩ := hb
  cases msg with
  | bullet m =>
    cases m with
    | addPhys id template mat =>
      intro i hi
      exact (h i hi).frame (by rw [hobjects]) (fun o _ a _ c hc => by rw [hheap, hc])
    | addChar id template mat =>
      have hhas : p.HasCharacter id := h
      rw [HasCharacter, ← hcharacters] at hhas
      exact hhas
    | _ => trivial
  | _ => trivial

theorem Has.setInputState (h : p.Has msg) (i : UInt32) (state : UInt16) : (p.setInputStateCallback i state).Has msg := by
  cases msg with
  | bullet m =>
    cases m with
    | addPhys id template mat => exact h
    | addChar id template mat => exact (p.hasCharacter_setInputState i state id).mpr h
    | _ => trivial
  | _ => trivial

theorem Has.setInputStates (h : p.Has msg) (ids : List UInt32) (state : UInt16) :
    (ids.foldl (fun p id => p.setInputStateCallback id state) p).Has msg := by
  induction ids generalizing p with
  | nil => exact h
  | cons i ids ih => exact ih (h.setInputState i state)

theorem objects_setInputStates (ids : List UInt32) (state : UInt16) :
    (ids.foldl (fun p id => p.setInputStateCallback id state) p).objects = p.objects := by
  induction ids generalizing p with
  | nil => rfl
  | cons i ids ih => exact ih

end BtPhysics

/-- A mob or a blocker of the world with the id it is given. -/
structure Placement where
  id : UInt32
  entry : ByteString × Mat4 × Bool

namespace Placement

def msg (pl : Placement) : ServerMsg :=
  .bullet (if pl.entry.2.2 then .addChar pl.id pl.entry.1 pl.entry.2.1 else .addPhys pl.id pl.entry.1 pl.entry.2.1)

end Placement

def ServerPc.loads : ServerPc → Bool
  | .loading _ | .pushBack _ _ => true
  | _ => false

def WorldEntry.placed? : WorldEntry → Option (ByteString × Mat4 × Bool)
  | .mob templ mat => some (templ, mat, true)
  | .blocker templ mat => some (templ, mat, false)
  | .playerSpawn _ => none

def Call.placement? : Call → Option Placement
  | .addPhysical none id templ mat isCharacter => some ⟨id, templ, mat, isCharacter⟩
  | _ => none

/-- `bytes` is the memory that `glm::value_ptr` points to. -/
def Added.entry {K : Type} (bytes : Tmat4x4 K → Mat4) (a : Added UInt32 K) : ByteString × Mat4 × Bool :=
  (a.templ, bytes a.trans, a.isCharacter)

/-- What the loader adds is what the server thread places. -/
theorem entries_performs {K : Type} (bytes : Tmat4x4 K → Mat4) (es : List (LoadStep K)) (st : Loader UInt32 K) :
    (es.foldl Loader.perform st).added.map (Added.entry bytes) =
      st.added.map (Added.entry bytes) ++ (es.map (LoadStep.entry bytes)).filterMap WorldEntry.placed? := by
  induction es generalizing st with
  | nil => simp
  | cons e es ih =>
    rw [List.foldl_cons, ih, List.map_cons]
    cases e with
    | spawn t => rfl
    | mob templ t =>
      simp [Loader.perform, Loader.addMob, Loader.addPhysical, Loader.getNextIdentifier, Added.entry,
        LoadStep.entry, WorldEntry.placed?]
    | blocker b =>
      simp [Loader.perform, Loader.addBlocker, Loader.addPhysical, Loader.getNextIdentifier, Added.entry,
        LoadStep.entry, WorldEntry.placed?]

theorem Call.placement?_eq_some {call : Call} {pl : Placement} : call.placement? = some pl ↔
    call = .addPhysical none pl.id pl.entry.1 pl.entry.2.1 pl.entry.2.2 := by
  constructor
  · intro h
    cases call with
    | addPhysical loader id templ mat isCharacter => cases loader <;> cases h; rfl
    | _ => cases h
  · rintro rfl
    rfl

theorem Call.placement_ids (calls : List Call) :
    ((calls.filterMap Call.placement?).map Placement.id).Sublist (calls.filterMap Call.newId?) := by
  induction calls with
  | nil => exact List.Sublist.refl _
  | cons call calls ih =>
    cases call with
    | addPhysical loader id templ mat isCharacter =>
      cases loader with
      | none => exact ih.cons_cons id
      | some c => exact ih.cons id
    | _ => exact ih

theorem Call.toPhysics_placement {call : Call} {pl : Placement} (h : call.placement? = some pl) :
    call.toPhysics = some pl.msg := by
  obtain rfl := placement?_eq_some.mp h
  obtain ⟨id, templ, mat, isCharacter⟩ := pl
  cases isCharacter <;> rfl

namespace GameServer

/-- What the server has placed of the world so far, in order. -/
def placements (s : GameServer) : List Placement := (s.physicalCalls.filterMap Call.placement?).reverse

/-- The physics and the server have the mobs and blockers of the world. -/
structure WorldBuilt (entries : List (ByteString × Mat4 × Bool)) (s : GameServer) : Prop where
  placed : s.placements.map Placement.entry = entries
  apart : (s.placements.map Placement.id).Nodup
  mobs : ∀ id templ mat, ⟨id, templ, mat, true⟩ ∈ s.placements →
    s.physics.HasCharacter id ∧ ⟨templ, id⟩ ∈ s.server.baddies
  blockers : ∀ id templ mat, ⟨id, templ, mat, false⟩ ∈ s.placements →
    ∀ i ∈ planes.find? (fun i => i.1 = templ), s.physics.Stands id i.2 mat
  only : ∀ id, s.physics.objects.contains id = true → ∃ templ mat, ⟨id, templ, mat, false⟩ ∈ s.placements ∧
    (planes.find? (fun i => i.1 = templ)).isSome

variable {order : PopOrder} {s s' : GameServer} {a : Action} {m : ServerMsg} {pl : Placement} {id : UInt32}

theorem mem_placements : pl ∈ s.placements ↔
    .addPhysical none pl.id pl.entry.1 pl.entry.2.1 pl.entry.2.2 ∈ s.physicalCalls := by
  simp only [placements, List.mem_reverse, List.mem_filterMap, Call.placement?_eq_some, exists_eq_right]

/-- A step places the next entry or none. -/
inductive Placed (s s' : GameServer) : Prop
  | none (hcalls : s'.placements = s.placements)
    (htodo : s'.serverPc.todo.filterMap WorldEntry.placed? = s.serverPc.todo.filterMap WorldEntry.placed?)
  | one {entry : ByteString × Mat4 × Bool} (hcalls : s'.placements = s.placements ++ [⟨s.server.nextId, entry⟩])
    (htodo : s.serverPc.todo.filterMap WorldEntry.placed? =
      entry :: s'.serverPc.todo.filterMap WorldEntry.placed?)
    (hmob : entry.2.2 = true → ∃ todo, s'.serverPc = .pushBack ⟨entry.1, s.server.nextId⟩ todo)

theorem placements_congr (h : s'.physicalCalls = s.physicalCalls) : s'.placements = s.placements := by
  rw [placements, h, placements]

theorem placements_append {new : Option Call} (h : s'.physicalCalls = new.toList ++ s.physicalCalls) :
    s'.placements = s.placements ++ (new.bind Call.placement?).toList := by
  rw [placements, h, List.filterMap_append, List.reverse_append, placements]
  cases new with
  | none => rfl
  | some call => cases hc : call.placement? <;> simp [hc]

theorem allocPhysical_placements (pc : ServerPc) (templ : ByteString) (mat : Mat4) (isCharacter : Bool) :
    ((s.goto pc).allocPhysical order templ mat isCharacter).placements =
      s.placements ++ [⟨s.server.nextId, templ, mat, isCharacter⟩] := by
  have hcalls : ((s.goto pc).allocPhysical order templ mat isCharacter).physicalCalls =
      (some (Call.addPhysical none s.server.nextId templ mat isCharacter)).toList ++ s.physicalCalls := by
    rw [allocPhysical_eq, physicalCalls, apply_log]
    rfl
  rw [placements_append hcalls]
  rfl

theorem stepServer_placed (hs : s.stepServer order = some s') : Placed s s' := by
  unfold stepServer at hs
  split at hs
  case h_1 hpc => cases hs; exact .none rfl (by simp [goto, hpc, ServerPc.todo])
  case h_2 spawn todo hpc =>
    cases hs
    exact .none rfl (by simp [goto, setServer, hpc, ServerPc.todo, List.filterMap_cons, WorldEntry.placed?])
  case h_3 templ mat todo hpc =>
    cases hs
    refine .one (allocPhysical_placements _ templ mat true) ?_ (fun _ => ⟨todo, ?_⟩)
    · rw [allocPhysical_eq, apply_serverPc]
      simp [goto, hpc, ServerPc.todo, WorldEntry.placed?]
    · rw [allocPhysical_eq, apply_serverPc]
      rfl
  case h_4 templ mat todo hpc =>
    cases hs
    refine .one (allocPhysical_placements _ templ mat false) ?_ (fun hmob => by cases hmob)
    rw [allocPhysical_eq, apply_serverPc]
    simp [goto, hpc, ServerPc.todo, WorldEntry.placed?]
  case h_5 b todo hpc => cases hs; exact .none rfl (by simp [goto, setServer, hpc, ServerPc.todo])
  case h_6 hpc =>
    split at hs <;> cases hs
    exact .none rfl (by simp [goto, setServer, hpc, ServerPc.todo])
  case h_7 msg hpc =>
    cases hs
    obtain ⟨new, hnew, hcalls⟩ : ∃ new, NewCall s .server new ∧
        (s.handle order msg).physicalCalls = new.toList ++ s.physicalCalls := handle_newCall hpc
    refine .none ?_ ?_
    · rw [placements_append hcalls]
      cases hnew with
      | none => simp
      | load => simp [Call.placement?]
      | world ha hno =>
        cases msg with
        | loadPlayer c template => exact absurd hpc (hno c template)
        | _ => simp [Allocates, ServerPc.allocates, hpc] at ha
    · rcases @handle_serverPc order s msg with he | he <;> simp [he, hpc, ServerPc.todo]
  case h_8 hpc => cases hs; exact .none rfl (by simp [goto, setPhysics, hpc, ServerPc.todo])
  case h_9 hpc =>
    split at hs <;> cases hs
    exact .none rfl (by simp [goto, hpc, ServerPc.todo])
  case h_10 hpc => cases hs; exact .none rfl (by simp [goto, hpc, ServerPc.todo])
  case h_11 hpc =>
    cases hs
    refine .none (placements_congr ?_) (by rw [apply_serverPc]; simp [goto, hpc, ServerPc.todo])
    exact physicalCalls_of_quiet _ (fun call hc => LocalServer.toPhysics_closeClients hc) (apply_log _)
  case h_12 hpc => cases hs; exact .none rfl (by simp [goto, setServer, hpc, ServerPc.todo])
  case h_13 hpc => cases hs

theorem step_serverPc (hs : step order s a = some s') (ha : a ≠ .server) : s'.serverPc = s.serverPc := by
  obtain ⟨hf, hc⟩ := step_change hs
  cases a with
  | addClient c =>
    cases hc with
    | addClient hc hnew => exact apply_serverPc _
  | removeClient c =>
    cases hc with
    | removeClient hadd => exact apply_serverPc (s := s) _
  | pushMessage msg =>
    cases hc with
    | receive hm => rfl
  | server => exact absurd rfl ha
  | physics mats =>
    simp only [step, hf, Option.isSome_none, Bool.false_eq_true, if_false] at hs
    exact stepPhysics_serverPc hs

theorem step_placed (hs : step order s a = some s') : Placed s s' := by
  obtain ⟨hf, hc⟩ := step_change hs
  by_cases ha : a = .server
  · subst ha
    simp only [step, hf, Option.isSome_none, Bool.false_eq_true, if_false] at hs
    exact stepServer_placed hs
  · obtain ⟨new, hnew, hcalls⟩ := hc.newCall
    refine .none ?_ (by rw [step_serverPc hs ha])
    rw [placements_append hcalls]
    cases hnew with
    | none => simp
    | load => exact absurd rfl ha
    | world => exact absurd rfl ha
    | remove => simp [Call.placement?]

/-- A message for the physics waits until it is taken up. -/
theorem Change.pending_kept (h : Change order s a s') (hm : m ∈ s.physicsPending) :
    m ∈ s'.physicsPending ∨ (∃ mats, a = .physics mats) ∧ s.physicsPc = .parsing m := by
  have hcalls {t : GameServer} {r : LocalServer × List Call} (ht : t.physicsPending = s.physicsPending) :
      m ∈ (t.apply order r).physicsPending := by
    rw [← ht] at hm
    rw [GameServer.physicsPending, apply_physicsPc, apply_eq]
    simp only [performed]
    split
    · exact hm
    · rcases List.mem_append.mp hm with hm | hm
      · exact List.mem_append_left _ hm
      · exact List.mem_append_right _ (PopOrder.mem_foldl_add.mpr (Or.inr hm))
  cases h with
  | quietServer h =>
    left
    rwa [GameServer.physicsPending, h.physicsHand, h.physicsQueue]
  | quietPhysics h =>
    left
    rwa [GameServer.physicsPending, h.physicsHand, h.physicsQueue]
  | addClient hc hnew => exact Or.inl (hcalls rfl)
  | removeClient hc => exact Or.inl (hcalls rfl)
  | receive h => exact Or.inl hm
  | takeServer hpc hq => exact Or.inl hm
  | @handle msg hpc =>
    left
    cases msg with
    | loadPlayer sender template => exact hcalls rfl
    | input sender state =>
      simp only [GameServer.handle, onPhysics]
      split
      · exact hm
      · rcases List.mem_append.mp hm with hm | hm
        · exact List.mem_append_left _ hm
        · exact List.mem_append_right _ (PopOrder.mem_add.mpr (Or.inr hm))
    | _ => exact hm
  | mob hpc => exact Or.inl (hcalls rfl)
  | blocker hpc => exact Or.inl (hcalls rfl)
  | pushBack hpc => exact Or.inl hm
  | close hpc => exact Or.inl (hcalls rfl)
  | takePhysics hpc hq =>
    left
    simpa [GameServer.physicsPending, gotoPhysics, setPhysics, hpc, hq, PhysicsPc.hand] using hm
  | @parse msg mats hpc =>
    rw [GameServer.physicsPending, hpc, PhysicsPc.hand, List.singleton_append, List.mem_cons] at hm
    rcases hm with rfl | hm
    · exact Or.inr ⟨⟨mats, rfl⟩, hpc⟩
    · left
      rw [GameServer.physicsPending, parse_physicsQueue]
      exact List.mem_append_right _ hm
  | callbacks hpc =>
    left
    simpa [GameServer.physicsPending, gotoPhysics, hpc, PhysicsPc.hand, setInputStates_msgQueue] using hm
  | @transforms ct mats hpc =>
    refine Or.inl (hcalls ?_)
    simp [GameServer.physicsPending, gotoPhysics, hpc, PhysicsPc.hand]

theorem Numbered.idsFresh (hn : s.Numbered) (a : Action) : s.IdsFresh a := by
  cases a with
  | server =>
    have hnext := hn.next
    refine fun _ => ⟨fun hz => ?_, fun hm => ?_⟩
    · simp [hz] at hnext
    · have hle := (hn.range _ hm).2
      omega
  | _ => trivial

/-- Each id is handed out in one call. -/
theorem Numbered.same_call (hn : s.Numbered) {x y : Call} (hx : x ∈ s.physicalCalls) (hy : y ∈ s.physicalCalls)
    (hi : x.newId? = some id) (hj : y.newId? = some id) : x = y := by
  have hp : s.physicalCalls.Pairwise (fun x y => ∀ i, x.newId? = some i → y.newId? ≠ some i) :=
    (List.pairwise_filterMap.mp hn.nodup).imp (fun h i hi hj => h i hi i hj rfl)
  have : Std.Symm (fun x y : Call => ∀ i, x.newId? = some i → y.newId? ≠ some i) :=
    ⟨fun x y h i hi hj => h i hj hi⟩
  by_contra hne
  exact hp.forall hx hy hne id hi hj

theorem Numbered.not_requested (hn : s.Numbered) (hpl : pl ∈ s.placements) (c : ClientPtr) : ¬ s.Requested c pl.id := by
  intro hr
  obtain ⟨tmp, mat, hr⟩ := requested_iff.mp hr
  cases hn.same_call (mem_placements.mp hpl) hr rfl rfl

/-- What holds of the world file's entries at any time. -/
structure Building (s : GameServer) : Prop where
  stay : s.ObjectsStay
  asked : ∀ pl ∈ s.placements, pl.msg ∈ s.physicsPending ∨ (s.physicsPc ≠ .stopped → s.physics.Has pl.msg)
  known : ∀ pl ∈ s.placements, pl.entry.2.2 = true → ⟨pl.entry.1, pl.id⟩ ∈ s.server.baddies ∨
    ∃ todo, s.serverPc = .pushBack ⟨pl.entry.1, pl.id⟩ todo
  loaded : ∀ c id templ mat, .addPhysical (some c) id templ mat false ∉ s.physicalCalls
  static : ∀ id templ mat, .bullet (.addPhys id templ mat) ∈ s.physicsPending → ⟨id, templ, mat, false⟩ ∈ s.placements
  objects : ∀ id, s.physics.objects.contains id = true → ∃ templ mat, ⟨id, templ, mat, false⟩ ∈ s.placements ∧
    (planes.find? (fun i => i.1 = templ)).isSome
  deleted : ∀ id, .delPhysical id true ∈ s.physicalCalls → ∃ c, s.Requested c id
  deleting : ∀ id, .bullet (.delChar id) ∈ s.physicsPending → .delPhysical id true ∈ s.physicalCalls

theorem building_init (playerSpawn : Mat4) (world : List WorldEntry) : (init playerSpawn world).Building where
  stay := ⟨fun _ h => (by cases h), fun _ h => (by cases h)⟩
  asked pl h := by cases h
  known pl h := by cases h
  loaded c id templ mat h := by cases h
  static id templ mat h := by cases h
  objects id h := by cases h
  deleted id h := by cases h
  deleting id h := by cases h

theorem step_has (hs : step order s a = some s') (hn : s.Numbered) (hk : s.Kept) (hb : s.Building)
    (hfault : s'.fault = none) (hpl : pl ∈ s.placements) (hrun : s'.physicsPc ≠ .stopped)
    (h : s.physicsPc ≠ .stopped → s.physics.Has pl.msg) : s'.physics.Has pl.msg := by
  cases step_booked hs with
  | same hpc hbooks => exact (h (fun hstop => hrun (hpc.mpr hstop))).congr hbooks
  | @parsed msg hpc hparse =>
    have hhas := h (by simp [hpc])
    have hmem : msg ∈ s.physicsPending := by simp [physicsPending, hpc, PhysicsPc.hand]
    subst hparse
    cases msg with
    | bullet b =>
      cases hp : s.physics.parseBullet b with
      | error e =>
        rw [parse_bullet_error hp] at hfault
        cases hfault
      | ok p =>
        rw [parse_bullet_ok hp]
        refine hhas.parseBullet (hk.balanced (by simp [hpc])) hp (hn.idsApart.replaces _ hpc)
          (fun i he => hb.stay.pending i (he ▸ hmem)) (fun i template mat hmsg he => ?_)
        obtain ⟨c, hc⟩ := hb.deleted i (hb.deleting i (he ▸ hmem))
        have hid : pl.id = i := by
          obtain ⟨id, templ, m, isCharacter⟩ := pl
          cases isCharacter <;> cases hmsg
          rfl
        exact hn.not_requested hpl c (hid ▸ hc)
    | input d state =>
      rw [parse_input]
      exact hhas.setInputState _ state
    | _ => exact hhas
  | ticked ids state hpc hpc' hphysics =>
    rw [hphysics]
    exact (h hpc).setInputStates ids state
  | cleaned hpc hpc' hphysics => exact absurd hpc' hrun

theorem step_asked (hs : step order s a = some s') (hn : s.Numbered) (hk : s.Kept) (hb : s.Building)
    (hfault : s'.fault = none) (hpl : pl ∈ s'.placements) :
    pl.msg ∈ s'.physicsPending ∨ (s'.physicsPc ≠ .stopped → s'.physics.Has pl.msg) := by
  have hc := (step_change hs).2
  obtain ⟨new, hnew, hcalls, hmoved⟩ := hc.moved hfault
  rw [placements_append hcalls, List.mem_append] at hpl
  rcases hpl with hold | hnew
  · rcases hb.asked pl hold with hwait | hhas
    · rcases hc.pending_kept hwait with hwait | ⟨⟨mats, rfl⟩, hpc⟩
      · exact Or.inl hwait
      · right
        intro _
        rw [step_parsing hpc hs] at hfault ⊢
        obtain ⟨b, hbullet⟩ : ∃ b, pl.msg = .bullet b := ⟨_, rfl⟩
        rw [hbullet] at hfault ⊢
        cases hp : s.physics.parseBullet b with
        | error e =>
          rw [parse_bullet_error hp] at hfault
          cases hfault
        | ok p =>
          rw [parse_bullet_ok hp]
          exact BtPhysics.parseBullet_has hp
    · exact Or.inr (fun hrun => step_has hs hn hk hb hfault hold hrun hhas)
  · left
    cases new with
    | none => cases hnew
    | some call =>
      have hpl : call.placement? = some pl := by simpa using hnew
      cases hmoved with
      | @sent _ msg hmsg hp =>
        obtain rfl : msg = pl.msg := Option.some.inj (hmsg.symm.trans (Call.toPhysics_placement hpl))
        exact hp.mem_iff.mpr List.mem_cons_self

theorem step_known (hs : step order s a = some s') (hb : s.Building) (hpl : pl ∈ s'.placements)
    (hmob : pl.entry.2.2 = true) : ⟨pl.entry.1, pl.id⟩ ∈ s'.server.baddies ∨
      ∃ todo, s'.serverPc = .pushBack ⟨pl.entry.1, pl.id⟩ todo := by
  obtain ⟨hf, hc⟩ := step_change hs
  have hkept (hold : pl ∈ s.placements) : ⟨pl.entry.1, pl.id⟩ ∈ s'.server.baddies ∨
      ∃ todo, s'.serverPc = .pushBack ⟨pl.entry.1, pl.id⟩ todo := by
    rcases hb.known pl hold hmob with hin | ⟨todo, hpc⟩
    · left
      rcases hc.baddies with he | ⟨_, _, _, _, he⟩ <;> simp [he, hin]
    · by_cases ha : a = .server
      · subst ha
        simp only [step, hf, Option.isSome_none, Bool.false_eq_true, if_false, stepServer, hpc] at hs
        cases hs
        exact Or.inl (List.mem_append_right _ List.mem_cons_self)
      · exact Or.inr ⟨todo, (step_serverPc hs ha).trans hpc⟩
  cases step_placed hs with
  | none hcalls htodo => exact hkept (hcalls ▸ hpl)
  | one hcalls htodo hback =>
    rw [hcalls, List.mem_append, List.mem_singleton] at hpl
    rcases hpl with hold | rfl
    · exact hkept hold
    · exact Or.inr (hback hmob)

/-- An object in the map of the physics was there or is the one that is created. -/
theorem step_objects (hs : step order s a = some s') (h : s'.physics.objects.contains id = true) :
    s.physics.objects.contains id = true ∨ ∃ templ mat, .bullet (.addPhys id templ mat) ∈ s.physicsPending ∧
      (planes.find? (fun i => i.1 = templ)).isSome := by
  have hsame (he : s'.physics.objects = s.physics.objects) : s.physics.objects.contains id = true := he ▸ h
  cases step_booked hs with
  | same hpc hbooks =>
    simp only [BtPhysics.books, Prod.mk.injEq] at hbooks
    exact Or.inl (hsame hbooks.2.2.1)
  | @parsed msg hpc hparse =>
    subst hparse
    cases msg with
    | bullet b =>
      cases hp : s.physics.parseBullet b with
      | error e =>
        rw [parse_bullet_error hp] at h
        exact Or.inl h
      | ok p =>
        rw [parse_bullet_ok hp] at h
        have hmem : .bullet b ∈ s.physicsPending := by simp [physicsPending, hpc, PhysicsPc.hand]
        cases b with
        | addPhys j templ matrix =>
          simp only [BtPhysics.parseBullet] at hp
          split at hp <;> cases hp
          case h_1 i hi =>
            rcases BtPhysics.contains_assign h with h | rfl
            · exact Or.inl h
            · exact Or.inr ⟨templ, matrix, hmem, by rw [hi]; rfl⟩
          case h_2 => exact Or.inl h
        | delPhys j =>
          simp only [BtPhysics.parseBullet, BtPhysics.delPhysObject] at hp
          split at hp <;> cases hp
          exact Or.inl (BtPhysics.contains_erase h)
        | delChar j =>
          simp only [BtPhysics.parseBullet, BtPhysics.delCharObject] at hp
          split at hp <;> cases hp
          exact Or.inl h
        | _ => cases hp; exact Or.inl h
    | _ => exact Or.inl h
  | ticked ids state hpc hpc' hphysics =>
    exact Or.inl (hsame (by rw [hphysics, BtPhysics.objects_setInputStates]))
  | cleaned hpc hpc' hphysics =>
    refine Or.inl (hsame ?_)
    rw [hphysics, (BtPhysics.cleanUp_maps _).1]

theorem step_building (hs : step order s a = some s') (hn : s.Numbered) (ha : s.Attributed) (hk : s.Kept)
    (hb : s.Building) (hfault : s'.fault = none) : s'.Building := by
  have hc := (step_change hs).2
  obtain ⟨new, hnew, hcalls⟩ := hc.newCall
  have hplaced := placements_append hcalls
  have hstatic (id : UInt32) (templ : ByteString) (mat : Mat4)
      (hm : .bullet (.addPhys id templ mat) ∈ s.physicsPending) : ⟨id, templ, mat, false⟩ ∈ s'.placements := by
    rw [hplaced]
    exact List.mem_append_left _ (hb.static id templ mat hm)
  have hloaded (c : ClientPtr) (id : UInt32) (templ : ByteString) (mat : Mat4) :
      .addPhysical (some c) id templ mat false ∉ s'.physicalCalls := by
    rw [hcalls, List.mem_append]
    rintro (hm | hm)
    · cases hnew <;> simp at hm
    · exact hb.loaded c id templ mat hm
  refine ⟨hc.objectsStay hb.stay, fun pl hpl => step_asked hs hn hk hb hfault hpl,
    fun pl hpl => step_known hs hb hpl, hloaded, fun id templ mat hm => ?_, fun id h => ?_, fun id hm => ?_,
    fun id hm => ?_⟩
  · rcases hc.physicsPending hm with hm | ⟨_, _, he, _⟩ | ⟨b, call, _, hcall, hlog⟩
    · exact hstatic id templ mat hm
    · cases he
    · cases call with
      | addPhysical loader i tmp m isCharacter =>
        cases isCharacter with
        | true => cases hcall
        | false =>
          cases hcall
          have hmem : .addPhysical loader id templ mat false ∈ s'.physicalCalls :=
            List.mem_filterMap.mpr ⟨_, hlog, rfl⟩
          cases loader with
          | none => exact mem_placements.mpr hmem
          | some c => exact absurd hmem (hloaded c id templ mat)
      | delPhysical i isCharacter => cases isCharacter <;> cases hcall
      | _ => cases hcall
  · rcases step_objects hs h with h | ⟨templ, mat, hm, hplane⟩
    · obtain ⟨templ, mat, hpl, hplane⟩ := hb.objects id h
      exact ⟨templ, mat, by rw [hplaced]; exact List.mem_append_left _ hpl, hplane⟩
    · exact ⟨templ, mat, hstatic id templ mat hm, hplane⟩
  · rw [hcalls, List.mem_append] at hm
    rcases hm with hm | hm
    · cases hnew with
      | none => cases hm
      | load hpc => simp at hm
      | world hall hpc => simp at hm
      | @remove c gone hfind hid =>
        obtain rfl : id = gone := by simpa using hm
        exact ⟨c, (ha.requested c id hfind hid).mono hc⟩
    · obtain ⟨c, hr⟩ := hb.deleted id hm
      exact ⟨c, hr.mono hc⟩
  · rcases hc.physicsPending hm with hm | ⟨_, _, he, _⟩ | ⟨b, call, _, hcall, hlog⟩
    · rw [hcalls]
      exact List.mem_append_right _ (hb.deleting id hm)
    · cases he
    · cases call with
      | addPhysical loader i tmp m isCharacter => cases isCharacter <;> cases hcall
      | delPhysical i isCharacter =>
        cases isCharacter <;> cases hcall
        exact List.mem_filterMap.mpr ⟨_, hlog, rfl⟩
      | _ => cases hcall

/-- The server thread is past `loadWorld`, and the physics thread has handled
all its messages and goes on. -/
structure WorldLoaded (s : GameServer) : Prop where
  world : s.serverPc.loads = false
  drained : s.physicsPending = []
  running : s.physicsPc ≠ .stopped

theorem Building.worldBuilt {world : List WorldEntry} (hb : s.Building) (hn : s.Numbered)
    (hplaced : s.placements.map Placement.entry ++ s.serverPc.todo.filterMap WorldEntry.placed? =
      world.filterMap WorldEntry.placed?) (hl : s.WorldLoaded) :
    s.WorldBuilt (world.filterMap WorldEntry.placed?) := by
  have htodo : s.serverPc.todo = [] := by
    have hloads := hl.world
    cases hpc : s.serverPc <;> simp [hpc, ServerPc.loads, ServerPc.todo] at hloads ⊢
  have hhas (pl : Placement) (hpl : pl ∈ s.placements) : s.physics.Has pl.msg := by
    rcases hb.asked pl hpl with hm | hh
    · rw [hl.drained] at hm
      cases hm
    · exact hh hl.running
  refine ⟨?_, ?_, fun id templ mat hpl => ⟨hhas _ hpl, ?_⟩, fun id templ mat hpl => hhas _ hpl, hb.objects⟩
  · rwa [htodo, List.filterMap_nil, List.append_nil] at hplaced
  · rw [placements, List.map_reverse, List.nodup_reverse]
    exact hn.nodup.sublist (Call.placement_ids _)
  · rcases hb.known _ hpl rfl with hin | ⟨todo, hpc⟩
    · exact hin
    · have hloads := hl.world
      simp [hpc, ServerPc.loads] at hloads

theorem entries_built (order : PopOrder) (playerSpawn : Mat4) (world : List WorldEntry) {as : List Action}
    {t : GameServer} (hr : run (step order) (init playerSpawn world) as = some t)
    (hlen : t.allocated.length < 2 ^ 32 - 1) :
    Along (step order) (fun s => s.fault = none → s.WorldLoaded →
      s.WorldBuilt (world.filterMap WorldEntry.placed?)) (init playerSpawn world) as := by
  have hmono (s : GameServer) (a : Action) (s' : GameServer) (hs : step order s a = some s') :
      s.allocated.length ≤ s'.allocated.length := (step_handed hs).allocated_le
  have hinv : Along (step order)
      (fun s => s.allocated.length < 2 ^ 32 - 1 → s.Numbered ∧
        s.placements.map Placement.entry ++ s.serverPc.todo.filterMap WorldEntry.placed? =
          world.filterMap WorldEntry.placed? ∧
        (s.fault = none → s.Orderly ∧ s.Attributed ∧ s.Kept ∧ s.Building)) (init playerSpawn world) as := by
    refine along_of_step _ (fun s a s' hi hs hlen' => ?_) (fun _ => ?_) as
    · have hle := hmono s a s' hs
      obtain ⟨hn, hplaced, hrest⟩ := hi (by omega)
      obtain ⟨hf, hc⟩ := step_change hs
      obtain ⟨ho, ha, hk, hb⟩ := hrest hf
      have hfresh := hn.idsFresh a
      refine ⟨(step_handed hs).numbered hn hlen', ?_, fun hfault => ⟨hc.orderly ho hf hfresh,
        hc.attributed ho.ids ha hfresh, step_kept hk hn hs hfault, step_building hs hn ha hk hb hfault⟩⟩
      cases step_placed hs with
      | none hcalls htodo => rw [hcalls, htodo, hplaced]
      | one hcalls htodo hmob =>
        rw [← hplaced, htodo, hcalls]
        simp
    · refine ⟨numbered_init playerSpawn world, rfl, fun _ => ⟨orderly_init playerSpawn world,
        attributed_init playerSpawn world, ⟨fun _ => BtPhysics.balanced_new, fun hstop => by cases hstop⟩,
        building_init playerSpawn world⟩⟩
  refine (hinv.and (along_le_last hmono hr)).mono (fun s hs hf hl => ?_)
  obtain ⟨hall, hle⟩ := hs
  obtain ⟨hn, hplaced, hrest⟩ := hall (by omega)
  exact (hrest hf).2.2.2.worldBuilt hn hplaced hl

/-- In a run that hands out fewer than 2 ^ 32 - 1 ids: whenever the server has
loaded the document and the physics has handled what it was told, every mob of
the document is a character and a known baddie, every blocker of a known template
stands where the document says, and the physics has no other objects. -/
theorem world_built {K : Type} [Add K] [Sub K] [Mul K] [Div K] [IntCast K] (order : PopOrder) (lib : CLib K)
    (bytes : Tmat4x4 K → Mat4) {fuel : Nat} {doc : XmlNode} {st : Loader UInt32 K}
    (hload : (loadWorld lib fuel doc).exec ⟨1, .new, [], []⟩ = (.ok (), st)) {as : List Action} {t : GameServer}
    (hr : run (step order) (init (bytes .new) ((loadSteps lib doc).map (LoadStep.entry bytes))) as = some t)
    (hlen : t.allocated.length < 2 ^ 32 - 1) :
    Along (step order) (fun s => s.fault = none → s.WorldLoaded → s.WorldBuilt (st.added.map (Added.entry bytes)))
      (init (bytes .new) ((loadSteps lib doc).map (LoadStep.entry bytes))) as := by
  have hentries := entries_performs bytes (loadSteps lib doc) ⟨1, .new, [], []⟩
  rw [← loadWorld_steps lib hload, List.map_nil, List.nil_append] at hentries
  rw [hentries]
  exact entries_built order (bytes .new) _ hr hlen

/-- A mob, a wall and a blocker of no known template. -/
def smallDocument : XmlNode :=
  .branch "" [.branch "QuintsesWorld" [
    .branch "MobGroup" [.leaf "Template" "Baddie", .leaf "Height" "-25",
      .branch "Grid" [.leaf "xmin" "-8", .leaf "xmax" "8", .leaf "ymin" "-4", .leaf "ymax" "12",
        .leaf "xdiv" "1", .leaf "ydiv" "1"]],
    .branch "Blocker" [.leaf "Template" "LWall"], .branch "Blocker" [.leaf "Template" "Pillar"]]]

theorem smallDocument_loads : ∃ st,
    (loadWorld (CLib.numerals : CLib ℤ) 2 smallDocument).exec (⟨1, .new, [], []⟩ : Loader UInt32 ℤ) = (.ok (), st) ∧
    st.added.map (Added.entry (fun _ => zeroMat)) =
      [(literal "Baddie", zeroMat, true), (literal "LWall", zeroMat, false), (literal "Pillar", zeroMat, false)] := by
  let r := (loadWorld (CLib.numerals : CLib ℤ) 2 smallDocument).exec (⟨1, .new, [], []⟩ : Loader UInt32 ℤ)
  have hends : r.1 = .ok () := by decide
  have hadded : r.2.added.map (Added.entry (fun _ => zeroMat)) =
      [(literal "Baddie", zeroMat, true), (literal "LWall", zeroMat, false), (literal "Pillar", zeroMat, false)] := by
    decide
  exact ⟨r.2, Prod.ext hends rfl, hadded⟩

def smallWorld : List WorldEntry :=
  (loadSteps (CLib.numerals : CLib ℤ) smallDocument).map (LoadStep.entry (fun _ => zeroMat))

/-- The server loads the world and a player comes and goes. -/
def worldVisit : List Action := [.server, .server, .server, .server, .server, .addClient 1,
  .pushMessage (.loadPlayer 1 [80]), .server, .server, .physics [], .physics [], .physics [], .physics [],
  .physics [], .physics [], .physics [], .physics [], .physics [], .removeClient 1, .physics [], .physics []]

theorem world_built_visit : ∃ t, run (step .lifo) (init zeroMat smallWorld) worldVisit = some t ∧
    (t.fault = none ∧ t.WorldLoaded ∧ t.allocated ++ t.placements.map Placement.id = [4, 3, 2, 1, 1, 2, 3]) ∧
    t.WorldBuilt [(literal "Baddie", zeroMat, true), (literal "LWall", zeroMat, false),
      (literal "Pillar", zeroMat, false)] := by
  have hrun : (run (step .lifo) (init zeroMat smallWorld) worldVisit).map (fun t => (t.physicsPc, t.fault,
      t.serverPc.loads || !t.physicsPending.isEmpty, t.allocated ++ t.placements.map Placement.id)) =
      some (.draining, none, false, [4, 3, 2, 1, 1, 2, 3]) := by decide
  obtain ⟨t, ht, he⟩ := Option.map_eq_some_iff.mp hrun
  simp only [Prod.mk.injEq, Bool.or_eq_false_iff, Bool.not_eq_false', List.isEmpty_iff] at he
  obtain ⟨hpc, hfault, ⟨hworld, hdrained⟩, hids⟩ := he
  have hloaded : t.WorldLoaded := ⟨hworld, hdrained, by simp [hpc]⟩
  have hlen : t.allocated.length ≤ 7 := by
    have hall := congrArg List.length hids
    simp only [List.length_append, List.length_cons, List.length_nil] at hall
    omega
  obtain ⟨st, hload, hadded⟩ := smallDocument_loads
  have hall := world_built .lifo CLib.numerals (fun _ => zeroMat) hload ht (by omega)
  rw [hadded] at hall
  exact ⟨t, ht, ⟨hfault, hloaded, hids⟩, hall.last ht hfault hloaded⟩

end GameServer

end Quintses
