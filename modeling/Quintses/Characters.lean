import Quintses.Ids
import Quintses.Ledger

/-! The requests for characters on their way to the physics thread, as a ledger
of ids. With ids of their own the deletion of a character can only overtake its
creation, and nobody else's request touches it. -/

namespace Quintses

def ServerMsg.addChar? : ServerMsg → Option UInt32
  | .bullet (.addChar id _ _) => some id
  | _ => none

def ServerMsg.delChar? : ServerMsg → Option UInt32
  | .bullet (.delChar id) => some id
  | _ => none

def BtPhysics.HasCharacter (p : BtPhysics) (id : UInt32) : Prop := ∃ ch, p.characters.find? id = some ch

theorem BtPhysics.hasCharacter_setInputState (p : BtPhysics) (i : UInt32) (state : UInt16) (id : UInt32) :
    (p.setInputStateCallback i state).HasCharacter id ↔ p.HasCharacter id := by
  by_cases h : id = i <;> simp [HasCharacter, setInputStateCallback, h]

theorem BtPhysics.hasCharacter_setInputStates (ids : List UInt32) (state : UInt16) (p : BtPhysics)
    (id : UInt32) : (ids.foldl (fun p id => p.setInputStateCallback id state) p).HasCharacter id ↔
      p.HasCharacter id := by
  induction ids generalizing p with
  | nil => rfl
  | cons i ids ih => exact (ih _).trans (p.hasCharacter_setInputState i state id)

namespace GameServer

def addIds (s : GameServer) : List UInt32 := s.physicsPending.filterMap ServerMsg.addChar?

def delIds (s : GameServer) : List UInt32 := s.physicsPending.filterMap ServerMsg.delChar?

def Held (s : GameServer) (id : UInt32) : Prop := id ≠ 0 ∧ ∃ c, s.server.clients.find? c = some id

def Tracked (s : GameServer) : Prop := Ledger s.allocated s.addIds s.delIds s.physics.HasCharacter s.Held

theorem tracked_init (playerSpawn : Mat4) (world : List WorldEntry) : (init playerSpawn world).Tracked := by
  refine Ledger.empty.congr (by simp) (List.Perm.refl _) (List.Perm.refl _) (fun id => ?_) (fun id hh => ?_)
  · constructor
    · rintro ⟨ch, hch⟩
      cases hch
    · exact False.elim
  · obtain ⟨_, c, hc⟩ := hh
    cases hc

inductive Moved (s : GameServer) (pending : List ServerMsg) (p : BtPhysics) : Option Call → Prop
  | still (hadd : pending.filterMap ServerMsg.addChar? = s.addIds)
    (hdel : pending.filterMap ServerMsg.delChar? = s.delIds)
    (hchars : ∀ id, p.HasCharacter id ↔ s.physics.HasCharacter id) : Moved s pending p none
  | sent {call : Call} {msg : ServerMsg} (hmsg : call.toPhysics = some msg)
    (hp : pending.Perm (msg :: s.physicsPending))
    (hchars : ∀ id, p.HasCharacter id ↔ s.physics.HasCharacter id) : Moved s pending p (some call)
  | created {i : UInt32} (hadd : s.addIds = i :: pending.filterMap ServerMsg.addChar?)
    (hdel : pending.filterMap ServerMsg.delChar? = s.delIds)
    (hchars : ∀ id, p.HasCharacter id ↔ s.physics.HasCharacter id ∨ id = i) : Moved s pending p none
  | deleted {i : UInt32} (hadd : pending.filterMap ServerMsg.addChar? = s.addIds)
    (hdel : s.delIds = i :: pending.filterMap ServerMsg.delChar?)
    (hchars : ∀ id, p.HasCharacter id ↔ s.physics.HasCharacter id ∧ id ≠ i) : Moved s pending p none

variable {order : PopOrder} {s s' t : GameServer} {a : Action} {new : Option Call}

theorem toPhysics_eq_physical? (calls : List Call) : calls.filterMap Call.toPhysics =
    ((calls.map Event.call).filterMap Event.physical?).filterMap Call.toPhysics := by
  rw [List.filterMap_map, List.filterMap_filterMap]
  refine List.filterMap_congr (fun call _ => ?_)
  cases call with
  | addPhysical loader id tmp mat isCharacter => rfl
  | delPhysical id isCharacter => rfl
  | _ => rfl

theorem NewCall.toPhysics {call : Call} (h : NewCall s a (some call)) : ∃ msg, call.toPhysics = some msg := by
  cases h with
  | load hpc => exact ⟨_, rfl⟩
  | @world _ _ isCharacter _ _ => cases isCharacter <;> exact ⟨_, rfl⟩
  | remove hfind hid => exact ⟨_, rfl⟩

theorem apply_moved {r : LocalServer × List Call} (hpend : t.physicsPending = s.physicsPending)
    (hchars : t.physics.characters = s.physics.characters) (hlog : t.physicalCalls = s.physicalCalls)
    (hfault : (t.apply order r).fault = none) (hnew : NewCall s a new)
    (hcalls : (t.apply order r).physicalCalls = new.toList ++ s.physicalCalls) :
    Moved s (t.apply order r).physicsPending (t.apply order r).physics new := by
  have hmsgs : r.2.filterMap Call.toPhysics = new.toList.filterMap Call.toPhysics := by
    rw [physicalCalls, apply_log, List.filterMap_append, ← physicalCalls, hlog] at hcalls
    have hh := List.append_cancel_right hcalls
    rw [List.filterMap_reverse] at hh
    rw [toPhysics_eq_physical?, ← List.reverse_reverse (List.filterMap Event.physical? _), hh]
    cases new <;> rfl
  have hsame : (t.apply order r).physics.characters = s.physics.characters :=
    (apply_characters r).trans hchars
  have hhas (id : UInt32) : (t.apply order r).physics.HasCharacter id ↔ s.physics.HasCharacter id := by
    rw [BtPhysics.HasCharacter, hsame]
    rfl
  rw [apply_eq] at hfault
  cases new with
  | none =>
    have hp : (t.apply order r).physicsPending = s.physicsPending := by
      rw [← hpend]
      simp [apply_eq, performed, physicsPending, hmsgs, BtPhysics.enqueue_nil]
    exact .still (by rw [hp]; rfl) (by rw [hp]; rfl) hhas
  | some call =>
    obtain ⟨msg, hmsg⟩ := hnew.toPhysics
    have hone : r.2.filterMap Call.toPhysics = [msg] := by
      rw [hmsgs]
      simp [hmsg]
    have hlive : t.physicsDeleted = false := by
      cases hd : t.physicsDeleted with
      | false => rfl
      | true => simp [performed, hd, hone] at hfault
    refine .sent hmsg ?_ hhas
    rw [← hpend]
    simp only [apply_eq, performed, physicsPending, hlive, hone, BtPhysics.enqueue, List.foldl_cons,
      List.foldl_nil, Bool.false_eq_true, if_false]
    exact (List.Perm.append_left _ (PopOrder.perm_add order _ _)).trans List.perm_middle

theorem parse_moved {msg : ServerMsg} (hpc : s.physicsPc = .parsing msg)
    (hfault : (s.parse msg).fault = none) :
    Moved s (s.parse msg).physicsPending (s.parse msg).physics none := by
  have hpend : s.physicsPending = msg :: s.physics.msgQueue := by simp [physicsPending, hpc, PhysicsPc.hand]
  cases msg with
  | input sender state =>
    have hp : (s.parse (.input sender state)).physicsPending = s.physics.msgQueue := rfl
    refine .still ?_ ?_ (fun id => s.physics.hasCharacter_setInputState _ state id)
    · rw [hp, addIds, hpend]
      rfl
    · rw [hp, delIds, hpend]
      rfl
  | shutdown sender =>
    exact .still (by rw [addIds, hpend]; rfl) (by rw [delIds, hpend]; rfl) (fun _ => Iff.rfl)
  | loadPlayer sender template =>
    exact .still (by rw [addIds, hpend]; rfl) (by rw [delIds, hpend]; rfl) (fun _ => Iff.rfl)
  | bullet b =>
    cases hparse : s.physics.parseBullet b with
    | error e =>
      rw [parse_bullet_error hparse] at hfault
      cases hfault
    | ok p =>
      have hp : (s.parse (.bullet b)).physicsPending = s.physics.msgQueue := by
        rw [parse_bullet_ok hparse]
        exact BtPhysics.parseBullet_msgQueue hparse
      have hphysics : (s.parse (.bullet b)).physics = p := by rw [parse_bullet_ok hparse]
      rw [hp, hphysics]
      cases b with
      | forceState objid state =>
        cases hparse
        exact .still (by rw [addIds, hpend]; rfl) (by rw [delIds, hpend]; rfl)
          (fun id => s.physics.hasCharacter_setInputState objid state id)
      | addPhys objid template matrix =>
        refine .still (by rw [addIds, hpend]; rfl) (by rw [delIds, hpend]; rfl) (fun id => ?_)
        simp only [BtPhysics.parseBullet] at hparse
        split at hparse <;> cases hparse <;> rfl
      | delPhys objid =>
        refine .still (by rw [addIds, hpend]; rfl) (by rw [delIds, hpend]; rfl) (fun id => ?_)
        simp only [BtPhysics.parseBullet, BtPhysics.delPhysObject] at hparse
        split at hparse <;> cases hparse
        rfl
      | addChar objid template matrix =>
        cases hparse
        refine .created (i := objid) (by rw [addIds, hpend]; rfl) (by rw [delIds, hpend]; rfl) (fun id => ?_)
        by_cases he : id = objid <;> simp [BtPhysics.HasCharacter, BtPhysics.addCharObject, he]
      | delChar objid =>
        refine .deleted (i := objid) (by rw [addIds, hpend]; rfl) (by rw [delIds, hpend]; rfl) (fun id => ?_)
        simp only [BtPhysics.parseBullet, BtPhysics.delCharObject] at hparse
        split at hparse <;> cases hparse
        by_cases he : id = objid <;> simp [BtPhysics.HasCharacter, he]

theorem handle_moved {msg : ServerMsg} (hfault : (s.handle order msg).fault = none)
    (hnew : NewCall s .server new)
    (hcalls : (s.handle order msg).physicalCalls = new.toList ++ s.physicalCalls) :
    Moved s (s.handle order msg).physicsPending (s.handle order msg).physics new := by
  have hquiet (hp : (s.handle order msg).physicalCalls = s.physicalCalls) : new = none := by
    simpa using hp.symm.trans hcalls
  cases msg with
  | loadPlayer sender template => exact apply_moved rfl rfl rfl hfault hnew hcalls
  | input sender state =>
    obtain rfl := hquiet (by rw [physicalCalls, handle_log]; rfl)
    simp only [handle, onPhysics] at hfault ⊢
    split at hfault
    · cases hfault
    · rename_i hd
      rw [if_neg hd]
      refine .still ?_ ?_ (fun _ => Iff.rfl)
      · simp only [physicsPending, BtPhysics.pushMessage, goto, record, addIds, List.filterMap_append]
        rw [PopOrder.filterMap_add_of_none order _ rfl]
      · simp only [physicsPending, BtPhysics.pushMessage, goto, record, delIds, List.filterMap_append]
        rw [PopOrder.filterMap_add_of_none order _ rfl]
  | shutdown sender =>
    obtain rfl := hquiet rfl
    exact .still rfl rfl (fun _ => Iff.rfl)
  | bullet b =>
    obtain rfl := hquiet rfl
    exact .still rfl rfl (fun _ => Iff.rfl)

theorem Change.moved (h : Change order s a s') (hfault : s'.fault = none) : ∃ new,
    NewCall s a new ∧ s'.physicalCalls = new.toList ++ s.physicalCalls ∧
      Moved s s'.physicsPending s'.physics new := by
  obtain ⟨new, hnew, hcalls⟩ := h.newCall
  refine ⟨new, hnew, hcalls, ?_⟩
  have hstill (hlog : s'.physicalCalls = s.physicalCalls) (hp : s'.physicsPending = s.physicsPending)
      (hchars : ∀ id, s'.physics.HasCharacter id ↔ s.physics.HasCharacter id) :
      Moved s s'.physicsPending s'.physics new := by
    obtain rfl : new = none := by simpa using hlog.symm.trans hcalls
    exact .still (by rw [hp]; rfl) (by rw [hp]; rfl) hchars
  cases h with
  | quietServer h =>
    exact hstill (by rw [physicalCalls, h.log, physicalCalls])
      (by rw [GameServer.physicsPending, h.physicsHand, h.physicsQueue, GameServer.physicsPending])
      (fun id => by rw [BtPhysics.HasCharacter, h.characters]; rfl)
  | quietPhysics h =>
    exact hstill (by rw [physicalCalls, h.log, physicalCalls])
      (by rw [GameServer.physicsPending, h.physicsHand, h.physicsQueue, GameServer.physicsPending])
      (fun id => by rw [BtPhysics.HasCharacter, h.characters]; rfl)
  | addClient hc hadd => exact apply_moved rfl rfl rfl hfault hnew hcalls
  | removeClient hc => exact apply_moved rfl rfl rfl hfault hnew hcalls
  | receive h => exact hstill rfl rfl (fun _ => Iff.rfl)
  | takeServer hpc hq => exact hstill rfl rfl (fun _ => Iff.rfl)
  | handle hpc => exact handle_moved hfault hnew hcalls
  | mob hpc => exact apply_moved rfl rfl rfl hfault hnew hcalls
  | blocker hpc => exact apply_moved rfl rfl rfl hfault hnew hcalls
  | pushBack hpc => exact hstill rfl rfl (fun _ => Iff.rfl)
  | close hpc => exact apply_moved rfl rfl rfl hfault hnew hcalls
  | takePhysics hpc hq =>
    refine hstill rfl ?_ (fun _ => Iff.rfl)
    simp [GameServer.physicsPending, gotoPhysics, setPhysics, hpc, hq, PhysicsPc.hand]
  | parse hpc =>
    obtain rfl : new = none := by
      rw [physicalCalls, parse_log, ← physicalCalls] at hcalls
      simpa using hcalls
    exact parse_moved hpc hfault
  | callbacks hpc =>
    refine hstill rfl ?_ (fun id => BtPhysics.hasCharacter_setInputStates _ _ _ id)
    simp [GameServer.physicsPending, gotoPhysics, hpc, PhysicsPc.hand, setInputStates_msgQueue]
  | transforms hpc =>
    refine apply_moved ?_ rfl rfl hfault hnew hcalls
    simp [GameServer.physicsPending, gotoPhysics, hpc, PhysicsPc.hand]

theorem Change.held (h : Change order s a s') {id : UInt32} (hh : s'.Held id) : s.Held id ∨
    id = s.server.nextId ∧ a = .server ∧ ∃ c template, s.serverPc = .handling (.loadPlayer c template) := by
  obtain ⟨hid, c, hf⟩ := hh
  rcases h.value_cases hf hid with hf | ⟨he, _, _, _, ha, template, hpc⟩
  · exact Or.inl ⟨hid, c, hf⟩
  · exact Or.inr ⟨he, ha, c, template, hpc⟩

theorem Change.held_removeClient {c : ClientPtr} (h : Change order s (.removeClient c) s') (ho : s.OwnIds)
    {gone id : UInt32} (hfind : s.server.clients.find? c = some gone) (hgone : gone ≠ 0) (hh : s'.Held id) :
    s.Held id ∧ id ≠ gone := by
  obtain ⟨hid, d, hf⟩ := hh
  obtain ⟨hf, hne⟩ := (h.value_remove ho hfind hgone).mp hf
  exact ⟨⟨hid, d, hf⟩, hne⟩

/-- The ledger is kept as long as the ids are fresh and nothing has gone wrong. -/
theorem Change.tracked (h : Change order s a s') (ho : s.OwnIds) (hfresh : s.IdsFresh a)
    (ht : s.Tracked) (hfault : s'.fault = none) : s'.Tracked := by
  obtain ⟨new, hnew, hcalls, hmoved⟩ := h.moved hfault
  have halloc : s'.allocated = new.toList.filterMap Call.newId? ++ s.allocated := by
    rw [allocated, hcalls, List.filterMap_append]
    rfl
  have hheld (hno : ∀ c template, a = .server → s.serverPc ≠ .handling (.loadPlayer c template)) (id : UInt32)
      (hh : s'.Held id) : s.Held id := by
    rcases h.held hh with hh | ⟨_, ha, c, template, hpc⟩
    · exact hh
    · exact absurd hpc (hno c template ha)
  cases hmoved with
  | still hadd hdel hchars =>
    cases hnew with
    | none hload =>
      refine ht.congr (fun id hid => halloc ▸ hid) ?_ ?_ hchars (hheld hload)
      · exact List.Perm.of_eq hadd
      · exact List.Perm.of_eq hdel
  | @created i hadd hdel hchars =>
    cases hnew with
    | none hload =>
      have hh : Ledger s.allocated (i :: s'.addIds) s'.delIds s.physics.HasCharacter s.Held := by
        refine ht.congr (fun _ hid => hid) ?_ ?_ (fun _ => Iff.rfl) (fun _ hh => hh)
        · exact List.Perm.of_eq hadd.symm
        · exact List.Perm.of_eq hdel
      exact (hh.create hchars).congr (fun id hid => halloc ▸ hid) (List.Perm.refl _) (List.Perm.refl _)
        (fun _ => Iff.rfl) (hheld hload)
  | @deleted i hadd hdel hchars =>
    cases hnew with
    | none hload =>
      have hh : Ledger s.allocated s'.addIds (i :: s'.delIds) s.physics.HasCharacter s.Held := by
        refine ht.congr (fun _ hid => hid) ?_ ?_ (fun _ => Iff.rfl) (fun _ hh => hh)
        · exact List.Perm.of_eq hadd
        · exact List.Perm.of_eq hdel.symm
      exact (hh.delete hchars).congr (fun id hid => halloc ▸ hid) (List.Perm.refl _) (List.Perm.refl _)
        (fun _ => Iff.rfl) (hheld hload)
  | @sent call msg hmsg hp hchars =>
    have hadd := hp.filterMap ServerMsg.addChar?
    have hdel := hp.filterMap ServerMsg.delChar?
    cases hnew with
    | load hpc =>
      cases hmsg
      have hnext := (hfresh (by simp [Allocates, ServerPc.allocates, hpc])).2
      refine (ht.send_create s'.Held hnext (fun id hh => ?_)).congr ?_ hadd hdel hchars
        (fun _ hh => hh)
      · exact (h.held hh).imp_right And.left
      · exact fun id hid => halloc ▸ hid
    | @world templ mat isCharacter halloc' hpc =>
      have hnext := (hfresh halloc').2
      cases isCharacter with
      | true =>
        cases hmsg
        refine (ht.send_create s'.Held hnext (fun id hh => ?_)).congr ?_ hadd hdel hchars
          (fun _ hh => hh)
        · exact Or.inl (hheld (fun c template _ => hpc c template) id hh)
        · exact fun id hid => halloc ▸ hid
      | false =>
        cases hmsg
        refine ht.congr (fun id hid => ?_) hadd hdel hchars (hheld (fun c template _ => hpc c template))
        rw [halloc]
        exact List.mem_append_right _ hid
    | @remove c gone hfind hgone =>
      cases hmsg
      exact (ht.send_delete s'.Held ⟨hgone, c, hfind⟩
        (fun id hh => h.held_removeClient ho hfind hgone hh)).congr (fun id hid => halloc ▸ hid) hadd hdel hchars
          (fun _ hh => hh)

end GameServer

end Quintses
