import Quintses.PhysicsDelete
import Quintses.Registry
import Quintses.Shutdown
import Quintses.Stages

/-! Input messages on their way from a client to its character. Two queues lie
on the way, and either can hand an older message out after a newer one. -/

namespace Quintses

open Lts Stages

def ServerMsg.inputOf (c : ClientPtr) : ServerMsg → Option UInt16
  | .input sender state => if sender = c then some state else none
  | .shutdown _ | .loadPlayer _ _ | .bullet _ => none

def inputs (c : ClientPtr) (msgs : List ServerMsg) : List UInt16 := msgs.filterMap (ServerMsg.inputOf c)

theorem ServerMsg.inputOf_eq_some {c : ClientPtr} {msg : ServerMsg} {state : UInt16} :
    msg.inputOf c = some state ↔ msg = .input c state := by
  cases msg with
  | input sender st =>
    by_cases h : sender = c <;> simp [inputOf, h]
  | _ => simp [inputOf]

theorem inputs_cons_of_none {c : ClientPtr} {msg : ServerMsg} (h : msg.inputOf c = none) (q : List ServerMsg) :
    inputs c (msg :: q) = inputs c q := by
  simp [inputs, h]

theorem inputs_cons_of_some {c : ClientPtr} {msg : ServerMsg} {state : UInt16}
    (h : msg.inputOf c = some state) (q : List ServerMsg) : inputs c (msg :: q) = state :: inputs c q := by
  simp [inputs, h]

def BulletInternalMsg.character? : BulletInternalMsg → Option UInt32
  | .forceState id _ | .addChar id _ _ | .delChar id => some id
  | .addPhys _ _ _ | .delPhys _ => none

theorem BtPhysics.parseBullet_character {p p' : BtPhysics} {b : BulletInternalMsg} (h : p.parseBullet b = .ok p')
    {id : UInt32} (hb : b.character? ≠ some id) : p'.characters.find? id = p.characters.find? id := by
  cases b with
  | forceState i state =>
    cases h
    have hi : id ≠ i := fun he => hb (congrArg some he.symm)
    simp [setInputStateCallback, hi]
  | addPhys i template matrix =>
    simp only [parseBullet] at h
    split at h <;> cases h <;> rfl
  | addChar i template matrix =>
    cases h
    have hi : id ≠ i := fun he => hb (congrArg some he.symm)
    simp [addCharObject, hi]
  | delPhys i =>
    simp only [parseBullet, delPhysObject] at h
    split at h <;> cases h
    rfl
  | delChar i =>
    simp only [parseBullet, delCharObject] at h
    split at h <;> cases h
    have hi : id ≠ i := fun he => hb (congrArg some he.symm)
    simp [hi]

namespace GameServer

structure Owns (s : GameServer) (c : ClientPtr) (id : UInt32) : Prop where
  find : s.server.clients.find? c = some id
  ne : id ≠ 0
  character : s.physics.HasCharacter id

def state? (s : GameServer) (id : UInt32) : Option UInt16 :=
  (s.physics.characters.find? id).map CharacterObject.state

/-- The input of a client in the places it passes through. -/
def stages (s : GameServer) (c : ClientPtr) : List (List UInt16) :=
  [inputs c s.server.msgQueue, inputs c s.serverPc.hand, inputs c s.physics.msgQueue,
    inputs c s.physicsPc.hand]

def Drained (s : GameServer) : Prop := s.serverPending = [] ∧ s.physicsPending = []

end GameServer

def Action.inputOf (c : ClientPtr) : Action → Option UInt16
  | .pushMessage msg => msg.inputOf c
  | .addClient _ | .removeClient _ | .server | .physics _ => none

def lastInput (c : ClientPtr) : List Action → Option UInt16
  | [] => none
  | a :: as => (lastInput c as).or (a.inputOf c)

namespace GameServer

/-- Once everything is handled, the character has the last state its client pushed. -/
def LastInputWins (order : PopOrder) (s : GameServer) (c : ClientPtr) (id : UInt32) (bs : List Action) : Prop :=
  ∀ t last, run (step order) s bs = some t → lastInput c bs = some last → t.Drained →
    t.state? id = some last

/-- An input enters a queue that holds no other state of the client. -/
def InputAlone (c : ClientPtr) (s : GameServer) : Action → Prop
  | .pushMessage msg => ∀ state ∈ msg.inputOf c, ∀ x ∈ inputs c s.server.msgQueue, x = state
  | .server => ∀ state ∈ inputs c s.serverPc.hand, ∀ x ∈ inputs c s.physics.msgQueue, x = state
  | .addClient _ | .removeClient _ | .physics _ => True

instance (c : ClientPtr) (s : GameServer) (a : Action) : Decidable (InputAlone c s a) :=
  match a with
  | .pushMessage msg => @Option.decidableForallMem _ _
    (fun state => List.decidableBAll (· = state) (inputs c s.server.msgQueue)) (msg.inputOf c)
  | .server => @List.decidableBAll _ _
    (fun state => List.decidableBAll (· = state) (inputs c s.physics.msgQueue)) (inputs c s.serverPc.hand)
  | .addClient _ | .removeClient _ | .physics _ => inferInstanceAs (Decidable True)

variable {order : PopOrder} {s s' t : GameServer} {a : Action} {c : ClientPtr} {id : UInt32}

theorem inputs_toPhysics (c : ClientPtr) (calls : List Call) :
    inputs c (calls.filterMap Call.toPhysics) = [] := by
  refine List.filterMap_eq_nil_iff.mpr (fun msg hm => ?_)
  obtain ⟨call, _, hmsg⟩ := List.mem_filterMap.mp hm
  obtain ⟨b, rfl⟩ := toPhysics_bullet hmsg
  rfl

theorem stages_congr (hserver : inputs c t.server.msgQueue = inputs c s.server.msgQueue)
    (hhand : inputs c t.serverPc.hand = inputs c s.serverPc.hand)
    (hphysics : inputs c t.physics.msgQueue = inputs c s.physics.msgQueue)
    (hhand' : inputs c t.physicsPc.hand = inputs c s.physicsPc.hand) : t.stages c = s.stages c := by
  rw [stages, hserver, hhand, hphysics, hhand', stages]

theorem apply_stages (c : ClientPtr) {r : LocalServer × List Call} (hq : r.1.msgQueue = t.server.msgQueue) :
    (t.apply order r).stages c = t.stages c := by
  have hphysics : inputs c (t.apply order r).physics.msgQueue = inputs c t.physics.msgQueue := by
    rw [apply_eq]
    simp only [performed]
    split
    · rfl
    · exact PopOrder.filterMap_foldl_add_of_nil order _ (inputs_toPhysics c r.2)
  simp only [stages, apply_server, hq, apply_serverPc, apply_physicsPc, hphysics]

theorem apply_state? (id : UInt32) (r : LocalServer × List Call) :
    (t.apply order r).state? id = t.state? id := by
  rw [state?, apply_characters, state?]

/-- What holds of the system as long as ids are fresh. -/
structure Orderly (s : GameServer) : Prop where
  ids : s.OwnIds
  tracked : s.fault = none → s.Tracked
  late : s.Late
  /-- Nobody sends this message. -/
  unforced : ∀ i state, .bullet (.forceState i state) ∉ s.physicsPending

theorem orderly_init (playerSpawn : Mat4) (world : List WorldEntry) : (init playerSpawn world).Orderly where
  ids := ownIds_init playerSpawn world
  tracked _ := tracked_init playerSpawn world
  late hd := by cases hd
  unforced i state hm := by cases hm

theorem Change.orderly (h : Change order s a s') (ho : s.Orderly) (hf : s.fault = none)
    (hfresh : s.IdsFresh a) : s'.Orderly where
  ids := h.ownIds ho.ids hfresh
  tracked := h.tracked ho.ids hfresh (ho.tracked hf)
  late := h.late ho.late
  unforced i state hm := by
    rcases h.physicsPending hm with hm | ⟨_, _, he, _⟩ | ⟨b, call, _, hcall, _⟩
    · exact ho.unforced i state hm
    · cases he
    · cases call with
      | addPhysical loader id tmp mat isCharacter => cases isCharacter <;> cases hcall
      | delPhysical id isCharacter => cases isCharacter <;> cases hcall
      | _ => cases hcall

structure Playing (c : ClientPtr) (id : UInt32) (s : GameServer) : Prop extends s.Orderly where
  owns : s.Owns c id

theorem setInputState_state? (p : BtPhysics) {i : UInt32} (state : UInt16) (h : id ≠ i) :
    (p.setInputStateCallback i state).characters.find? id = p.characters.find? id := by
  simp [BtPhysics.setInputStateCallback, h]

theorem setInputStates_state? (state : UInt16) {ids : List UInt32} (h : id ∉ ids) (p : BtPhysics) :
    (ids.foldl (fun p i => p.setInputStateCallback i state) p).characters.find? id = p.characters.find? id := by
  induction ids generalizing p with
  | nil => rfl
  | cons i ids ih =>
    obtain ⟨hi, hids⟩ := not_or.mp (List.mem_cons.not.mp h)
    rw [List.foldl_cons, ih hids, setInputState_state? p state hi]

theorem Playing.client_ne (h : s.Playing c id) {d : ClientPtr} (hd : d ≠ c) :
    id ≠ (s.server.getClientId d).1 := by
  intro he
  cases hf : s.server.clients.find? d with
  | none => exact h.owns.ne (by simpa [LocalServer.getClientId, hf] using he)
  | some v =>
    obtain rfl : id = v := by simpa [LocalServer.getClientId, hf] using he
    exact hd (h.ids.unique d c id hf h.owns.find h.owns.ne)

theorem Playing.baddie_ne (h : s.Playing c id) : id ∉ s.server.baddies.map BaddieData.id := by
  intro hm
  obtain ⟨b, hb, rfl⟩ := List.mem_map.mp hm
  exact (h.ids.baddie b (Or.inl hb)).2.2 c h.owns.find

theorem Playing.character_ne (h : s.Playing c id) (hf : s.fault = none) {b : BulletInternalMsg}
    (hm : .bullet b ∈ s.physicsPending) : b.character? ≠ some id := by
  have ht := h.tracked hf
  intro hb
  cases b with
  | forceState i state => exact h.unforced i state hm
  | addChar i template matrix =>
    obtain rfl : i = id := Option.some.inj hb
    exact ht.creates_absent i (List.mem_filterMap.mpr ⟨_, hm, rfl⟩) h.owns.character
  | delChar i =>
    obtain rfl : i = id := Option.some.inj hb
    exact ht.deletes_let_go i (List.mem_filterMap.mpr ⟨_, hm, rfl⟩) ⟨h.owns.ne, c, h.owns.find⟩
  | addPhys i template matrix => cases hb
  | delPhys i => cases hb

/-- What a step does to the input of a client and the state of its character. -/
inductive Carried (order : PopOrder) (c : ClientPtr) (id : UInt32) (s : GameServer) :
    Action → List (List UInt16) → Option UInt16 → Prop
  | same {a : Action} (hpush : a.inputOf c = none) :
    Carried order c id s a (s.stages c) (s.state? id)
  | entered {msg : ServerMsg} {x : UInt16} (hmsg : msg.inputOf c = some x) :
    Carried order c id s (.pushMessage msg) [order.add (inputs c s.server.msgQueue) x,
      inputs c s.serverPc.hand, inputs c s.physics.msgQueue, inputs c s.physicsPc.hand] (s.state? id)
  | takenServer {x : UInt16} {q : List UInt16} (hq : inputs c s.server.msgQueue = x :: q)
    (hhand : inputs c s.serverPc.hand = []) :
    Carried order c id s .server [q, [x], inputs c s.physics.msgQueue, inputs c s.physicsPc.hand] (s.state? id)
  | forwarded {x : UInt16} (hhand : inputs c s.serverPc.hand = [x]) :
    Carried order c id s .server [inputs c s.server.msgQueue, [],
      order.add (inputs c s.physics.msgQueue) x, inputs c s.physicsPc.hand] (s.state? id)
  | takenPhysics {mats : List Mat4} {x : UInt16} {q : List UInt16}
    (hq : inputs c s.physics.msgQueue = x :: q) (hhand : inputs c s.physicsPc.hand = []) :
    Carried order c id s (.physics mats) [inputs c s.server.msgQueue, inputs c s.serverPc.hand, q, [x]]
      (s.state? id)
  | arrived {mats : List Mat4} {x : UInt16} (hhand : inputs c s.physicsPc.hand = [x]) :
    Carried order c id s (.physics mats) [inputs c s.server.msgQueue, inputs c s.serverPc.hand,
      inputs c s.physics.msgQueue, []] (some x)

theorem carried_of_eq {stages' : List (List UInt16)} {cell' : Option UInt16}
    (hpush : a.inputOf c = none) (hstages : stages' = s.stages c)
    (hcell : cell' = s.state? id) : Carried order c id s a stages' cell' := by
  rw [hstages, hcell]
  exact .same hpush

theorem handle_carried {msg : ServerMsg} (hpc : s.serverPc = .handling msg) (hl : s.Late) :
    Carried order c id s .server ((s.handle order msg).stages c) ((s.handle order msg).state? id) := by
  cases msg with
  | input d state =>
    have hlive : s.physicsDeleted = false := by
      cases hd : s.physicsDeleted with
      | false => rfl
      | true => simpa [hpc, ServerPc.late] using hl hd
    have hhandle : s.handle order (.input d state) =
        ((s.record (.handled (.input d state))).goto .waiting).setPhysics
          (fun p => p.pushMessage order (.input d state)) := by
      simp [handle, onPhysics, goto, record, setPhysics, hlive]
    rw [hhandle]
    by_cases hd : d = c
    · subst hd
      have hin : (ServerMsg.input d state).inputOf d = some state := ServerMsg.inputOf_eq_some.mpr rfl
      have hh : Carried order d id s .server [inputs d s.server.msgQueue, [],
          order.add (inputs d s.physics.msgQueue) state, inputs d s.physicsPc.hand] (s.state? id) :=
        .forwarded (by rw [hpc]; exact inputs_cons_of_some hin [])
      have hadd : inputs d (order.add s.physics.msgQueue (.input d state)) =
          order.add (inputs d s.physics.msgQueue) state := PopOrder.filterMap_add_of_some order _ hin
      rw [← hadd] at hh
      exact hh
    · have hin : (ServerMsg.input d state).inputOf c = none := by simp [ServerMsg.inputOf, hd]
      refine carried_of_eq rfl ?_ rfl
      have hadd : inputs c (order.add s.physics.msgQueue (.input d state)) = inputs c s.physics.msgQueue :=
        PopOrder.filterMap_add_of_none order _ hin
      have hold : s.stages c = [inputs c s.server.msgQueue, [],
          inputs c (order.add s.physics.msgQueue (.input d state)), inputs c s.physicsPc.hand] := by
        rw [stages, hpc, hadd, ServerPc.hand, inputs_cons_of_none hin]
        rfl
      rw [hold]
      rfl
  | loadPlayer d template =>
    refine carried_of_eq rfl ?_ (apply_state? id _)
    rw [handle, apply_stages c rfl, stages, stages, hpc]
    rfl
  | shutdown d =>
    refine carried_of_eq rfl ?_ rfl
    simp [stages, handle, goto, record, hpc, ServerPc.hand, inputs, ServerMsg.inputOf]
  | bullet b =>
    refine carried_of_eq rfl ?_ rfl
    simp [stages, handle, goto, record, hpc, ServerPc.hand, inputs, ServerMsg.inputOf]

theorem parse_carried {msg : ServerMsg} {mats : List Mat4} (hp : s.Playing c id) (hf : s.fault = none)
    (hpc : s.physicsPc = .parsing msg) :
    Carried order c id s (.physics mats) ((s.parse msg).stages c) ((s.parse msg).state? id) := by
  have hold : s.stages c = [inputs c s.server.msgQueue, inputs c s.serverPc.hand,
      inputs c s.physics.msgQueue, inputs c [msg]] := by
    rw [stages, hpc, PhysicsPc.hand]
  cases msg with
  | input d state =>
    rw [parse_input]
    by_cases hd : d = c
    · subst hd
      have hin : (ServerMsg.input d state).inputOf d = some state := ServerMsg.inputOf_eq_some.mpr rfl
      have hid : (s.server.getClientId d).1 = id := by simp [LocalServer.getClientId, hp.owns.find]
      have hstate : ((s.physics.setInputStateCallback id state).characters.find? id).map CharacterObject.state =
          some state := by
        obtain ⟨ch, hch⟩ := hp.owns.character
        simp [BtPhysics.setInputStateCallback, hch]
      have hh : Carried order d id s (.physics mats) [inputs d s.server.msgQueue, inputs d s.serverPc.hand,
          inputs d s.physics.msgQueue, []] (some state) :=
        .arrived (by rw [hpc]; exact inputs_cons_of_some hin [])
      rw [hid]
      rw [← hstate] at hh
      exact hh
    · have hin : (ServerMsg.input d state).inputOf c = none := by simp [ServerMsg.inputOf, hd]
      refine carried_of_eq rfl ?_ ?_
      · rw [hold, inputs_cons_of_none hin]
        rfl
      · exact congrArg (Option.map CharacterObject.state)
          (setInputState_state? s.physics state (hp.client_ne hd))
  | bullet b =>
    cases hparse : s.physics.parseBullet b with
    | error e =>
      rw [parse_bullet_error hparse]
      exact carried_of_eq rfl rfl rfl
    | ok p =>
      rw [parse_bullet_ok hparse]
      have hb := hp.character_ne hf (b := b) (by simp [physicsPending, hpc, PhysicsPc.hand])
      have hqueue := BtPhysics.parseBullet_msgQueue hparse
      refine carried_of_eq rfl ?_ ?_
      · rw [hold, ← hqueue]
        rfl
      · exact congrArg (Option.map CharacterObject.state) (BtPhysics.parseBullet_character hparse hb)
  | shutdown d =>
    refine carried_of_eq rfl ?_ rfl
    rw [hold]
    rfl
  | loadPlayer d template =>
    refine carried_of_eq rfl ?_ rfl
    rw [hold]
    rfl

theorem receive_carried (msg : ServerMsg) :
    Carried order c id s (.pushMessage msg)
      (((s.record (.received msg)).setServer (fun srv =>
        { srv with msgQueue := order.add srv.msgQueue msg })).stages c) (s.state? id) := by
  cases hin : msg.inputOf c with
  | none =>
    refine carried_of_eq hin ?_ rfl
    have hadd : inputs c (order.add s.server.msgQueue msg) = inputs c s.server.msgQueue :=
      PopOrder.filterMap_add_of_none order _ hin
    exact stages_congr hadd rfl rfl rfl
  | some x =>
    have hh : Carried order c id s (.pushMessage msg) _ _ := .entered hin
    have hadd : inputs c (order.add s.server.msgQueue msg) = order.add (inputs c s.server.msgQueue) x :=
      PopOrder.filterMap_add_of_some order _ hin
    rw [← hadd] at hh
    exact hh

theorem takeServer_carried {msg : ServerMsg} {rest : List ServerMsg} (hpc : s.serverPc = .waiting)
    (hq : s.server.msgQueue = msg :: rest) :
    Carried order c id s .server
      (((s.goto (.handling msg)).setServer (fun srv => { srv with msgQueue := rest })).stages c)
      (s.state? id) := by
  cases hin : msg.inputOf c with
  | none =>
    refine carried_of_eq rfl (stages_congr ?_ ?_ rfl rfl) rfl
    · rw [hq, inputs_cons_of_none hin]
      rfl
    · rw [hpc]
      exact inputs_cons_of_none hin []
  | some x =>
    have hqueue : inputs c s.server.msgQueue = x :: inputs c rest := by
      rw [hq, inputs_cons_of_some hin]
    have hempty : inputs c s.serverPc.hand = [] := by
      rw [hpc]
      rfl
    have hh : Carried order c id s .server _ _ := .takenServer hqueue hempty
    have hhand : inputs c [msg] = [x] := inputs_cons_of_some hin []
    rw [← hhand] at hh
    exact hh

theorem takePhysics_carried {msg : ServerMsg} {rest : List ServerMsg} {mats : List Mat4}
    (hpc : s.physicsPc = .draining) (hq : s.physics.msgQueue = msg :: rest) :
    Carried order c id s (.physics mats)
      (((s.gotoPhysics (.parsing msg)).setPhysics (fun p => { p with msgQueue := rest })).stages c)
      (s.state? id) := by
  cases hin : msg.inputOf c with
  | none =>
    refine carried_of_eq rfl (stages_congr rfl rfl ?_ ?_) rfl
    · rw [hq, inputs_cons_of_none hin]
      rfl
    · rw [hpc]
      exact inputs_cons_of_none hin []
  | some x =>
    have hqueue : inputs c s.physics.msgQueue = x :: inputs c rest := by
      rw [hq, inputs_cons_of_some hin]
    have hempty : inputs c s.physicsPc.hand = [] := by
      rw [hpc]
      rfl
    have hh : Carried order c id s (.physics mats) _ _ := .takenPhysics hqueue hempty
    have hhand : inputs c [msg] = [x] := inputs_cons_of_some hin []
    rw [← hhand] at hh
    exact hh

theorem Change.carried (h : Change order s a s') (hp : s.Playing c id) (hf : s.fault = none) :
    Carried order c id s a (s'.stages c) (s'.state? id) := by
  cases h with
  | quietServer h =>
    refine carried_of_eq rfl ?_ ?_
    · rw [stages, h.serverQueue, h.serverHand, h.physicsQueue, h.physicsHand, stages]
    · rw [state?, h.characters, state?]
  | quietPhysics h =>
    refine carried_of_eq rfl ?_ ?_
    · rw [stages, h.serverQueue, h.serverHand, h.physicsQueue, h.physicsHand, stages]
    · rw [state?, h.characters, state?]
  | addClient hc hadd => exact carried_of_eq rfl (apply_stages c rfl) (apply_state? id _)
  | removeClient hc => exact carried_of_eq rfl (apply_stages (t := s) c rfl) (apply_state? (t := s) id _)
  | receive h => exact receive_carried _
  | takeServer hpc hq => exact takeServer_carried hpc hq
  | handle hpc => exact handle_carried hpc hp.late
  | mob hpc =>
    rw [allocPhysical_eq]
    refine carried_of_eq rfl ((apply_stages c rfl).trans ?_) (apply_state? id _)
    exact stages_congr rfl (by rw [hpc]; rfl) rfl rfl
  | blocker hpc =>
    rw [allocPhysical_eq]
    refine carried_of_eq rfl ((apply_stages c rfl).trans ?_) (apply_state? id _)
    exact stages_congr rfl (by rw [hpc]; rfl) rfl rfl
  | pushBack hpc => exact carried_of_eq rfl (stages_congr rfl (by rw [hpc]; rfl) rfl rfl) rfl
  | close hpc =>
    refine carried_of_eq rfl ((apply_stages c rfl).trans ?_) (apply_state? id _)
    exact stages_congr rfl (by rw [hpc]; rfl) rfl rfl
  | takePhysics hpc hq => exact takePhysics_carried hpc hq
  | parse hpc => exact parse_carried hp hf hpc
  | callbacks hpc =>
    refine carried_of_eq rfl (stages_congr rfl rfl ?_ (by rw [hpc]; rfl)) ?_
    · exact congrArg (inputs c) (setInputStates_msgQueue _ _ _)
    · exact congrArg (Option.map CharacterObject.state) (setInputStates_state? _ hp.baddie_ne _)
  | transforms hpc =>
    refine carried_of_eq rfl ((apply_stages c rfl).trans ?_) (apply_state? id _)
    exact stages_congr rfl rfl rfl (by rw [hpc]; rfl)

/-- A step keeps the last value last, unless the client pushes a new one. -/
theorem Carried.settled {stages' : List (List UInt16)} {cell' : Option UInt16}
    (h : Carried order c id s a stages' cell') (hok : InputAlone c s a) {m : UInt16}
    (hpush : a.inputOf c = none)
    (hm : Settled m (s.stages c) (s.state? id)) : Settled m stages' cell' := by
  cases h with
  | same => exact hm
  | @entered msg x hmsg =>
    rw [Action.inputOf, hmsg] at hpush
    cases hpush
  | @takenServer x q hq hhand =>
    rw [stages, hq, hhand] at hm
    exact hm.take
  | @forwarded x hhand =>
    have hx : ∀ y ∈ inputs c s.physics.msgQueue, y = x := hok x (by rw [hhand]; exact List.mem_cons_self)
    rw [stages, hhand] at hm
    exact Settled.append_imp [inputs c s.server.msgQueue] (Settled.forward order hx) hm
  | @takenPhysics mats x q hq hhand =>
    rw [stages, hq, hhand] at hm
    exact Settled.append_imp [inputs c s.server.msgQueue, inputs c s.serverPc.hand] Settled.take hm
  | @arrived mats x hhand =>
    rw [stages, hhand] at hm
    exact Settled.append_imp [inputs c s.server.msgQueue, inputs c s.serverPc.hand,
      inputs c s.physics.msgQueue] Settled.arrive hm

theorem Carried.settled_push {stages' : List (List UInt16)} {cell' : Option UInt16}
    (h : Carried order c id s a stages' cell') (hok : InputAlone c s a) {m : UInt16}
    (hpush : a.inputOf c = some m) : Settled m stages' cell' := by
  cases h with
  | same hnone =>
    rw [hpush] at hnone
    cases hnone
  | @entered msg x hx =>
    obtain rfl : x = m := Option.some.inj (hx.symm.trans hpush)
    exact settled_enter order (hok x hx)
  | _ => cases hpush

theorem Carried.hasState {stages' : List (List UInt16)} {cell' : Option UInt16}
    (h : Carried order c id s a stages' cell') (hs : s.state? id ≠ none) : cell' ≠ none := by
  cases h with
  | arrived => simp
  | _ => exact hs

theorem hasCharacter_iff_state? : s.physics.HasCharacter id ↔ s.state? id ≠ none := by
  rw [state?, BtPhysics.HasCharacter, ← Option.ne_none_iff_exists']
  simp

theorem Playing.step (h : s.Playing c id) (hfresh : s.IdsFresh a) (hstay : a ≠ .removeClient c)
    (hs : step order s a = some s') : s'.Playing c id := by
  obtain ⟨hf, hc⟩ := step_change hs
  have hfind : s'.server.clients.find? c = some id := by
    have hv := hc.newValue c
    have hold := h.owns.find
    generalize s'.server.clients.find? c = o at hv
    cases hv with
    | same => exact hold
    | removed => exact absurd rfl hstay
    | loaded hpc => rw [hold, Option.getD_some]
    | lookedUp hpc => rw [hold, Option.getD_some]
  have hchar : s'.physics.HasCharacter id :=
    hasCharacter_iff_state?.mpr ((hc.carried h hf).hasState (hasCharacter_iff_state?.mp h.owns.character))
  exact ⟨hc.orderly h.toOrderly hf hfresh, ⟨hfind, h.owns.ne, hchar⟩⟩

theorem run_settled {bs : List Action} {m : UInt16} (hp : s.Playing c id)
    (hfresh : Guarded (step order) IdsFresh s bs) (halone : Guarded (step order) (InputAlone c) s bs)
    (hstay : .removeClient c ∉ bs) (hrun : run (step order) s bs = some t)
    (hm : lastInput c bs = some m ∨ lastInput c bs = none ∧ Settled m (s.stages c) (s.state? id)) :
    Settled m (t.stages c) (t.state? id) := by
  induction bs generalizing s with
  | nil =>
    obtain rfl := Option.some.inj hrun
    rcases hm with hm | hm
    · cases hm
    · exact hm.2
  | cons a bs ih =>
    obtain ⟨r, hs, hrun⟩ := run_cons_some.mp hrun
    obtain ⟨hf, hc⟩ := step_change hs
    have ha : a ≠ .removeClient c := fun he => hstay (he ▸ List.mem_cons_self)
    have hcarried := hc.carried hp hf
    have hnext := ih (hp.step (hfresh r hs).1 ha hs) (hfresh r hs).2 (halone r hs).2
      (fun hmem => hstay (List.mem_cons_of_mem a hmem)) hrun
    rw [lastInput] at hm
    cases hrest : lastInput c bs with
    | some x =>
      rw [hrest] at hm
      exact hnext (Or.inl (by simpa [hrest] using hm))
    | none =>
      rw [hrest, Option.none_or] at hm
      refine hnext (Or.inr ⟨hrest, ?_⟩)
      rcases hm with hm | ⟨hpush, hm⟩
      · exact hcarried.settled_push (halone r hs).1 hm
      · exact hcarried.settled (halone r hs).1 hpush hm

/-- Inputs enter the line at its end and reach the character from its front. -/
theorem Carried.inOrder {stages' : List (List UInt16)} {cell' : Option UInt16}
    (h : Carried .fifo c id s a stages' cell') : ∃ arrived,
      line (s.stages c) ++ (a.inputOf c).toList = arrived ++ line stages' ∧
      cell' = arrived.getLast?.or (s.state? id) := by
  cases h with
  | same hpush => exact ⟨[], by simp [hpush], rfl⟩
  | @entered msg x hmsg =>
    refine ⟨[], ?_, rfl⟩
    simp [Action.inputOf, hmsg, stages, line_cons, PopOrder.add]
  | takenServer hq hhand => exact ⟨[], by simp [Action.inputOf, stages, line_cons, hq, hhand], rfl⟩
  | forwarded hhand =>
    exact ⟨[], by simp [Action.inputOf, stages, line_cons, hhand, PopOrder.add], rfl⟩
  | takenPhysics hq hhand => exact ⟨[], by simp [Action.inputOf, stages, line_cons, hq, hhand], rfl⟩
  | @arrived mats x hhand =>
    exact ⟨[x], by simp [Action.inputOf, stages, hhand, line], rfl⟩

theorem run_inOrder {bs : List Action} (hp : s.Playing c id) (hfresh : Guarded (step .fifo) IdsFresh s bs)
    (hstay : .removeClient c ∉ bs) (hrun : run (step .fifo) s bs = some t) : ∃ arrived,
      line (s.stages c) ++ bs.filterMap (Action.inputOf c) = arrived ++ line (t.stages c) ∧
      t.state? id = arrived.getLast?.or (s.state? id) := by
  induction bs generalizing s with
  | nil =>
    obtain rfl := Option.some.inj hrun
    exact ⟨[], by simp, rfl⟩
  | cons a bs ih =>
    obtain ⟨r, hs, hrun⟩ := run_cons_some.mp hrun
    obtain ⟨hf, hc⟩ := step_change hs
    have ha : a ≠ .removeClient c := fun he => hstay (he ▸ List.mem_cons_self)
    obtain ⟨first, hfirst, hcell⟩ := (hc.carried hp hf).inOrder
    obtain ⟨rest, hrest, hlast⟩ := ih (hp.step (hfresh r hs).1 ha hs) (hfresh r hs).2
      (fun hmem => hstay (List.mem_cons_of_mem a hmem)) hrun
    refine ⟨first ++ rest, ?_, ?_⟩
    · have hcons : (a :: bs).filterMap (Action.inputOf c) =
          (a.inputOf c).toList ++ bs.filterMap (Action.inputOf c) := by
        cases ha : a.inputOf c <;> simp [ha]
      rw [hcons, ← List.append_assoc, hfirst, List.append_assoc, hrest, List.append_assoc]
    · rw [hlast, hcell, List.getLast?_append, Option.or_assoc]

theorem lastInput_eq (c : ClientPtr) (bs : List Action) :
    lastInput c bs = (bs.filterMap (Action.inputOf c)).getLast? := by
  induction bs with
  | nil => rfl
  | cons a bs ih =>
    rw [lastInput, ih]
    cases ha : a.inputOf c with
    | none => simp [ha]
    | some x => rw [List.filterMap_cons_some ha, List.getLast?_cons, Option.or_some]

theorem Drained.stages (h : s.Drained) (c : ClientPtr) : ∀ q ∈ s.stages c, q = [] := by
  obtain ⟨hhand, hqueue⟩ := List.append_eq_nil_iff.mp h.1
  obtain ⟨hhand', hqueue'⟩ := List.append_eq_nil_iff.mp h.2
  simp [GameServer.stages, hhand, hqueue, hhand', hqueue', inputs]

/-- The default queue lets the last input of a player win if it never holds two
of its states at once, the locked queue always does. -/
theorem last_input_wins (order : PopOrder) (playerSpawn : Mat4) (world : List WorldEntry)
    {as bs : List Action} {s : GameServer} {c : ClientPtr} {id : UInt32}
    (hs : run (step order) (init playerSpawn world) as = some s)
    (hfresh : Guarded (step order) IdsFresh (init playerSpawn world) (as ++ bs)) (howns : s.Owns c id)
    (hstay : .removeClient c ∉ bs) (halone : order = .lifo → Guarded (step order) (InputAlone c) s bs) :
    LastInputWins order s c id bs := by
  intro t last hrun hlast hdrained
  obtain ⟨hfirst, hthen⟩ := (guarded_append hs).mp hfresh
  have horderly : s.Orderly := hfirst.invariant Orderly
    (fun r a r' ho hok hstep => (step_change hstep).2.orderly ho (step_change hstep).1 hok)
    (orderly_init playerSpawn world) hs
  have hempty : ∀ q ∈ t.stages c, q = [] := hdrained.stages c
  cases order with
  | lifo => exact (run_settled ⟨horderly, howns⟩ hthen (halone rfl) hstay hrun (Or.inl hlast)).cell_eq hempty
  | fifo =>
    obtain ⟨arrived, hline, hstate⟩ := run_inOrder ⟨horderly, howns⟩ hthen hstay hrun
    have hall : line (t.stages c) = [] := List.flatten_eq_nil_iff.mpr (by simpa using hempty)
    rw [hall, List.append_nil] at hline
    rw [lastInput_eq] at hlast
    rw [hstate, ← hline, List.getLast?_append, hlast]
    rfl

def playerLoaded : List Action := [.server, .addClient 1, .pushMessage (.loadPlayer 1 [80]), .server,
  .server, .physics [], .physics [], .physics []]

theorem playerLoaded_run : ∃ s, run (step .lifo) (init zeroMat []) playerLoaded = some s ∧ s.Owns 1 1 := by
  have hrun : (run (step .lifo) (init zeroMat []) playerLoaded).map
      (fun s => (s.server.clients.find? 1, s.state? 1)) = some (some 1, some 0) := by decide
  obtain ⟨s, hs, he⟩ := Option.map_eq_some_iff.mp hrun
  obtain ⟨hfind, hstate⟩ := Prod.mk.inj he
  exact ⟨s, hs, hfind, by decide, hasCharacter_iff_state?.mpr (by simp [hstate])⟩

theorem last_input_wins_two_ticks : ∃ s, run (step .lifo) (init zeroMat []) playerLoaded = some s ∧
    LastInputWins .lifo s 1 1 [.pushMessage (.input 1 1), .server, .server, .physics [], .physics [],
      .pushMessage (.input 1 0), .server, .server, .physics [], .physics []] := by
  obtain ⟨s, hs, howns⟩ := playerLoaded_run
  refine ⟨s, hs, last_input_wins .lifo zeroMat [] hs (by decide) howns (by decide) (fun _ => ?_)⟩
  exact ((guarded_append hs).mp (by decide)).2

/-- A press and a release in one tick leave the character pressed. -/
theorem not_last_input_wins_same_tick : ¬ ∀ playerSpawn world as bs s c id,
    run (step .lifo) (init playerSpawn world) as = some s → s.Owns c id → .removeClient c ∉ bs →
      LastInputWins .lifo s c id bs := by
  intro h
  obtain ⟨s, hs, howns⟩ := playerLoaded_run
  let bs : List Action := [.pushMessage (.input 1 1), .server, .server, .pushMessage (.input 1 0), .server,
    .server, .physics [], .physics [], .physics [], .physics []]
  have hrun : (run (step .lifo) (init zeroMat []) (playerLoaded ++ bs)).map
      (fun t => (t.serverPending, t.physicsPending, t.state? 1)) = some ([], [], some 1) := by decide
  obtain ⟨t, ht, he⟩ := Option.map_eq_some_iff.mp hrun
  obtain ⟨hserver, he⟩ := Prod.mk.inj he
  obtain ⟨hphysics, hstate⟩ := Prod.mk.inj he
  rw [run_append, hs] at ht
  have hwins := h zeroMat [] playerLoaded bs s 1 1 hs howns (by decide) t 0 ht (by decide) ⟨hserver, hphysics⟩
  rw [hstate] at hwins
  cases hwins

end GameServer

end Quintses
