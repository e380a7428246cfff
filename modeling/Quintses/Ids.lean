import Quintses.Registry

/-! Identifiers and the physics requests made with them. As long as the counter
does not come round to ids that are in use, every request has its own id. -/

namespace Quintses

open Lts

def Event.physical? : Event → Option Call
  | .call (.addPhysical loader id tmp mat isCharacter) => some (.addPhysical loader id tmp mat isCharacter)
  | .call (.delPhysical id isCharacter) => some (.delPhysical id isCharacter)
  | _ => none

def Call.newId? : Call → Option UInt32
  | .addPhysical _ id _ _ _ => some id
  | _ => none

def ServerPc.allocates : ServerPc → Bool
  | .loading (.mob _ _ :: _) | .loading (.blocker _ _ :: _) | .handling (.loadPlayer _ _) => true
  | _ => false

namespace LocalServer

variable {srv : LocalServer} {call : Call} {c : ClientPtr}

theorem toPhysics_tell {cs : List ClientPtr} {msg : ClientMsg} (h : call ∈ tell cs msg) :
    call.toPhysics = none := by
  obtain ⟨d, _, rfl⟩ := List.mem_map.mp h
  rfl

theorem toPhysics_addClient (h : call ∈ (srv.addClient c).2) : call.toPhysics = none := by
  rcases List.mem_append.mp h with h | h
  · obtain ⟨i, _, rfl⟩ := List.mem_map.mp h
    rfl
  · obtain ⟨i, _, rfl⟩ := List.mem_map.mp h
    rfl

theorem toPhysics_pushClientTransforms {trans : ClientTransList}
    (h : call ∈ srv.pushClientTransforms trans) : call.toPhysics = none := by
  obtain ⟨i, _, h⟩ := List.mem_flatMap.mp h
  rcases List.mem_append.mp h with h | h
  · exact toPhysics_tell h
  · exact toPhysics_tell h

theorem toPhysics_closeClients (h : call ∈ srv.closeClients) : call.toPhysics = none := by
  rcases List.mem_append.mp h with h | h
  · obtain ⟨e, _, rfl⟩ := List.mem_map.mp h
    rfl
  · obtain ⟨e, _, rfl⟩ := List.mem_map.mp h
    rfl

end LocalServer

namespace GameServer

def physicalCalls (s : GameServer) : List Call := s.log.filterMap Event.physical?

def allocated (s : GameServer) : List UInt32 := s.physicalCalls.filterMap Call.newId?

def Allocates (s : GameServer) : Prop := s.serverPc.allocates = true

instance (s : GameServer) : Decidable s.Allocates := inferInstanceAs (Decidable (_ = true))

/-- A new id is not 0 and has not been handed out before. -/
def IdsFresh (s : GameServer) : Action → Prop
  | .server => s.Allocates → s.server.nextId ≠ 0 ∧ s.server.nextId ∉ s.allocated
  | .addClient _ | .removeClient _ | .pushMessage _ | .physics _ => True

instance (s : GameServer) (a : Action) : Decidable (s.IdsFresh a) :=
  match a with
  | .server => inferInstanceAs (Decidable (s.Allocates → _))
  | .addClient _ | .removeClient _ | .pushMessage _ | .physics _ => inferInstanceAs (Decidable True)

inductive NewCall (s : GameServer) : Action → Option Call → Prop
  | none {a : Action} (hload : ∀ c template, a = .server → s.serverPc ≠ .handling (.loadPlayer c template))
    (hremove : ∀ c, a = .removeClient c → (s.server.clients.find? c).getD 0 = 0) : NewCall s a none
  | load {c : ClientPtr} {template : ByteString} (hpc : s.serverPc = .handling (.loadPlayer c template)) :
    NewCall s .server (some (.addPhysical (some c) s.server.nextId template s.server.playerSpawn true))
  | world {templ : ByteString} {mat : Mat4} {isCharacter : Bool} (ha : s.Allocates)
    (hpc : ∀ c template, s.serverPc ≠ .handling (.loadPlayer c template)) :
    NewCall s .server (some (.addPhysical none s.server.nextId templ mat isCharacter))
  | remove {c : ClientPtr} {id : UInt32} (hfind : s.server.clients.find? c = some id) (hid : id ≠ 0) :
    NewCall s (.removeClient c) (some (.delPhysical id true))

/-- The value of a client in `m_clients` after a step. -/
inductive NewValue (s : GameServer) (c : ClientPtr) : Action → Option UInt32 → Prop
  | same {a : Action} (hremove : a ≠ .removeClient c)
    (hload : ∀ template, a = .server → s.serverPc ≠ .handling (.loadPlayer c template)) :
    NewValue s c a (s.server.clients.find? c)
  | removed : NewValue s c (.removeClient c) none
  | loaded {template : ByteString} (hpc : s.serverPc = .handling (.loadPlayer c template)) :
    NewValue s c .server (some ((s.server.clients.find? c).getD s.server.nextId))
  | lookedUp {mats : List Mat4} {state : UInt16} (hpc : s.physicsPc = .parsing (.input c state)) :
    NewValue s c (.physics mats) (some ((s.server.clients.find? c).getD 0))

variable {order : PopOrder} {s s' : GameServer} {a : Action}

theorem physical?_of_quiet (calls : List Call) (h : ∀ call ∈ calls, call.toPhysics = none) :
    (calls.map Event.call).reverse.filterMap Event.physical? = [] := by
  refine List.filterMap_eq_nil_iff.mpr (fun e he => ?_)
  obtain ⟨call, hc, rfl⟩ : ∃ call ∈ calls, Event.call call = e := by simpa using he
  have hq := h call hc
  cases call with
  | addPhysical loader id tmp mat isCharacter => cases isCharacter <;> cases hq
  | delPhysical id isCharacter => cases isCharacter <;> cases hq
  | _ => rfl

theorem physicalCalls_of_quiet (calls : List Call) (h : ∀ call ∈ calls, call.toPhysics = none)
    (hl : s'.log = (calls.map Event.call).reverse ++ s.log) : s'.physicalCalls = s.physicalCalls := by
  rw [physicalCalls, hl, List.filterMap_append, physical?_of_quiet calls h, List.nil_append, physicalCalls]

theorem handle_newCall {msg : ServerMsg} (hpc : s.serverPc = .handling msg) : ∃ new,
    NewCall s .server new ∧ (s.handle order msg).physicalCalls = new.toList ++ s.physicalCalls := by
  have hother (hm : ∀ c template, msg ≠ .loadPlayer c template) (hcalls : s.handleCalls msg = []) :
      ∃ new, NewCall s .server new ∧ (s.handle order msg).physicalCalls = new.toList ++ s.physicalCalls := by
    refine ⟨none, .none (fun c template _ he => ?_) (by simp), ?_⟩
    · rw [hpc] at he
      exact hm c template (ServerPc.handling.inj he)
    · rw [physicalCalls, handle_log, hcalls]
      rfl
  cases msg with
  | loadPlayer c template =>
    refine ⟨_, .load hpc, ?_⟩
    have hquiet := physical?_of_quiet (LocalServer.tell
      (s.server.loadPlayer c template).1.clients.keys (.addDrawable ⟨s.server.nextId, template⟩))
      (fun call hc => LocalServer.toPhysics_tell hc)
    simp only [physicalCalls, handle_log, handleCalls, LocalServer.loadPlayer,
      LocalServer.getNextIdentifier, List.map_cons, List.reverse_cons, List.append_assoc,
      List.filterMap_append] at hquiet ⊢
    rw [hquiet]
    rfl
  | _ => exact hother (by simp) rfl

theorem removeClient_newCall {c : ClientPtr} : ∃ new, NewCall s (.removeClient c) new ∧
    ((s.apply order (s.server.removeClient c)).record (.removeClient c)).physicalCalls =
      new.toList ++ s.physicalCalls := by
  have hlog : ((s.apply order (s.server.removeClient c)).record (.removeClient c)).physicalCalls =
      ((s.server.removeClient c).2.map Event.call).reverse.filterMap Event.physical? ++ s.physicalCalls := by
    simp only [physicalCalls, record, apply_log, List.filterMap_append, List.filterMap_cons, Event.physical?]
  rw [hlog]
  by_cases hid : (s.server.clients.find? c).getD 0 = 0
  · refine ⟨none, .none (by simp) (fun d hd => ?_), ?_⟩
    · cases hd
      exact hid
    · simp [LocalServer.removeClient, hid]
  · obtain ⟨id, hfind⟩ : ∃ id, s.server.clients.find? c = some id := by
      cases hf : s.server.clients.find? c with
      | none => simp [hf] at hid
      | some id => exact ⟨id, rfl⟩
    have hne : id ≠ 0 := by simpa [hfind] using hid
    refine ⟨_, .remove hfind hne, ?_⟩
    have hquiet (cs ds : List ClientPtr) : ((LocalServer.tell cs (.delDrawable ⟨id⟩) ++
        LocalServer.tell ds (.delDrawable ⟨id⟩)).map Event.call).reverse.filterMap Event.physical? = [] :=
      physical?_of_quiet _ (fun call hc =>
        (List.mem_append.mp hc).elim LocalServer.toPhysics_tell LocalServer.toPhysics_tell)
    simp only [LocalServer.removeClient, hfind, Option.getD_some, hne, ne_eq, not_false_eq_true, if_true,
      List.map_cons, List.reverse_cons, List.filterMap_append, hquiet]
    rfl

theorem Change.newCall (h : Change order s a s') : ∃ new, NewCall s a new ∧
    s'.physicalCalls = new.toList ++ s.physicalCalls := by
  have hquiet (hload : ∀ c template, a = .server → s.serverPc ≠ .handling (.loadPlayer c template))
      (hremove : ∀ c, a ≠ .removeClient c) (he : s'.physicalCalls = s.physicalCalls) :
      ∃ new, NewCall s a new ∧ s'.physicalCalls = new.toList ++ s.physicalCalls :=
    ⟨none, .none hload (fun c hc => absurd hc (hremove c)), he⟩
  cases h with
  | quietServer h hpc =>
    exact hquiet (fun c template _ => hpc _) (by simp) (by simp [physicalCalls, h.log])
  | quietPhysics h => exact hquiet (by simp) (by simp) (by simp [physicalCalls, h.log])
  | @addClient c hc hnew =>
    exact hquiet (by simp) (by simp) (physicalCalls_of_quiet (s := s.record (.addClient c))
      (s.server.addClient c).2 (fun call hc => LocalServer.toPhysics_addClient hc) (apply_log _))
  | removeClient hc => exact removeClient_newCall
  | receive h => exact hquiet (by simp) (by simp) rfl
  | takeServer hpc hq => exact hquiet (by simp [hpc]) (by simp) rfl
  | handle hpc => exact handle_newCall hpc
  | @mob templ mat todo hpc =>
    have halloc : s.Allocates := by simp [Allocates, ServerPc.allocates, hpc]
    refine ⟨some (.addPhysical none s.server.nextId templ mat true), .world halloc (by simp [hpc]), ?_⟩
    rw [allocPhysical_eq, physicalCalls, apply_log]
    rfl
  | @blocker templ mat todo hpc =>
    have halloc : s.Allocates := by simp [Allocates, ServerPc.allocates, hpc]
    refine ⟨some (.addPhysical none s.server.nextId templ mat false), .world halloc (by simp [hpc]), ?_⟩
    rw [allocPhysical_eq, physicalCalls, apply_log]
    rfl
  | pushBack hpc => exact hquiet (by simp [hpc]) (by simp) rfl
  | close hpc =>
    exact hquiet (by simp [hpc]) (by simp) (physicalCalls_of_quiet (s := s) _
      (fun call hc => LocalServer.toPhysics_closeClients hc) (apply_log _))
  | takePhysics hpc hq => exact hquiet (by simp) (by simp) rfl
  | parse hpc => exact hquiet (by simp) (by simp) (by rw [physicalCalls, parse_log, physicalCalls])
  | callbacks hpc => exact hquiet (by simp) (by simp) rfl
  | transforms hpc =>
    exact hquiet (by simp) (by simp) (physicalCalls_of_quiet (s := s) _
      (fun call hc => LocalServer.toPhysics_pushClientTransforms hc) (apply_log _))

theorem Change.newValue (h : Change order s a s') (c : ClientPtr) :
    NewValue s c a (s'.server.clients.find? c) := by
  have hsame (he : s'.server.clients = s.server.clients) (hremove : ∀ d, a ≠ .removeClient d)
      (hload : ∀ d template, a = .server → s.serverPc ≠ .handling (.loadPlayer d template)) :
      NewValue s c a (s'.server.clients.find? c) := by
    rw [he]
    exact .same (hremove c) (hload c)
  cases h with
  | quietServer h hpc => exact hsame h.clients (by simp) (fun _ _ _ => hpc _)
  | quietPhysics h => exact hsame h.clients (by simp) (by simp)
  | addClient hc hnew => exact hsame (by rw [apply_server]; rfl) (by simp) (by simp)
  | @removeClient d hd =>
    simp only [record, apply_server, LocalServer.removeClient, StdMap.find?_erase, StdMap.find?_subscript]
    by_cases hc : c = d
    · subst hc
      simpa using NewValue.removed
    · simp only [hc, if_false]
      exact .same (by simpa using fun he => hc he.symm) (by simp)
  | receive h => exact hsame rfl (by simp) (by simp)
  | takeServer hpc hq => exact hsame rfl (by simp) (by simp [hpc])
  | @handle msg hpc =>
    cases msg with
    | loadPlayer d template =>
      simp only [handle_server, LocalServer.loadPlayer, LocalServer.getNextIdentifier, StdMap.find?_insert]
      by_cases hc : c = d
      · subst hc
        simpa using NewValue.loaded hpc
      · simp only [hc, if_false]
        exact .same (by simp) (by simpa [hpc] using fun he => absurd he.symm hc)
    | _ => exact hsame (by rw [handle_server]) (by simp) (by simp [hpc])
  | mob hpc => exact hsame (by rw [allocPhysical_eq, apply_server]; rfl) (by simp) (by simp [hpc])
  | blocker hpc => exact hsame (by rw [allocPhysical_eq, apply_server]; rfl) (by simp) (by simp [hpc])
  | pushBack hpc => exact hsame rfl (by simp) (by simp [hpc])
  | close hpc => exact hsame (by rw [apply_server]) (by simp) (by simp [hpc])
  | takePhysics hpc hq => exact hsame rfl (by simp) (by simp)
  | @parse msg mats hpc =>
    cases msg with
    | input d state =>
      simp only [parse_server, LocalServer.getClientId, StdMap.find?_subscript]
      by_cases hc : c = d
      · subst hc
        simpa using @NewValue.lookedUp s c mats state hpc
      · simp only [hc, if_false]
        exact .same (by simp) (by simp)
    | _ => exact hsame (by rw [parse_server]) (by simp) (by simp)
  | callbacks hpc => exact hsame rfl (by simp) (by simp)
  | transforms hpc => exact hsame (by rw [apply_server]) (by simp) (by simp)

theorem Change.baddies (h : Change order s a s') : s'.server.baddies = s.server.baddies ∨
    ∃ b todo, a = .server ∧ s.serverPc = .pushBack b todo ∧ s'.server.baddies = s.server.baddies ++ [b] := by
  cases h with
  | quietServer h => exact Or.inl h.baddies
  | quietPhysics h => exact Or.inl h.baddies
  | @handle msg hpc =>
    rw [handle_server]
    cases msg <;> exact Or.inl rfl
  | pushBack hpc => exact Or.inr ⟨_, _, rfl, hpc, rfl⟩
  | @parse msg mats hpc =>
    rw [parse_server]
    cases msg <;> exact Or.inl rfl
  | receive h => exact Or.inl rfl
  | takeServer hpc hq => exact Or.inl rfl
  | takePhysics hpc hq => exact Or.inl rfl
  | callbacks hpc => exact Or.inl rfl
  | mob hpc => exact Or.inl (by rw [allocPhysical_eq, apply_server]; rfl)
  | blocker hpc => exact Or.inl (by rw [allocPhysical_eq, apply_server]; rfl)
  | addClient hc hnew => exact Or.inl (by rw [apply_server]; rfl)
  | removeClient hc => exact Or.inl (by simp only [record, apply_server]; rfl)
  | _ => exact Or.inl (by rw [apply_server])

theorem handle_serverPc (s : GameServer) (msg : ServerMsg) :
    (s.handle order msg).serverPc = .waiting ∨ (s.handle order msg).serverPc = .finishing := by
  cases msg with
  | input sender state =>
    simp only [handle, onPhysics]
    split <;> exact Or.inl rfl
  | loadPlayer sender template => exact Or.inl (apply_serverPc _)
  | shutdown sender => exact Or.inr rfl
  | bullet msg => exact Or.inl rfl

theorem parse_serverPc (s : GameServer) (msg : ServerMsg) : (s.parse msg).serverPc = s.serverPc := by
  unfold parse
  split <;> rfl

theorem Change.pushBack_new (h : Change order s a s') {b : BaddieData} {todo : List WorldEntry}
    (hpc : s'.serverPc = .pushBack b todo) : s.serverPc = .pushBack b todo ∨
      a = .server ∧ b.id = s.server.nextId ∧ ∃ mat,
        .addPhysical none b.id b.templ mat true ∈ s'.physicalCalls ∧
        ∃ rest, s.serverPc = .loading (.mob b.templ mat :: rest) := by
  cases h with
  | quietServer h => exact Or.inl (h.baddie b todo hpc)
  | quietPhysics h => exact Or.inl (h.baddie b todo hpc)
  | @handle msg hold =>
    rcases handle_serverPc s msg with he | he
    · rw [he] at hpc
      cases hpc
    · rw [he] at hpc
      cases hpc
  | @mob templ mat rest hold =>
    rw [allocPhysical_eq, apply_serverPc] at hpc
    cases hpc
    refine Or.inr ⟨rfl, rfl, mat, ?_, todo, hold⟩
    rw [physicalCalls, allocPhysical_eq, apply_log]
    exact List.mem_cons_self
  | blocker hold =>
    rw [allocPhysical_eq, apply_serverPc] at hpc
    cases hpc
  | close hold =>
    rw [apply_serverPc] at hpc
    cases hpc
  | parse hold => exact Or.inl (by rw [parse_serverPc] at hpc; exact hpc)
  | addClient hc hnew => exact Or.inl (by rw [apply_serverPc] at hpc; exact hpc)
  | removeClient hc => exact Or.inl (by simpa only [record, apply_serverPc] using hpc)
  | transforms hold => exact Or.inl (by rw [apply_serverPc] at hpc; exact hpc)
  | receive h => exact Or.inl hpc
  | takePhysics hold hq => exact Or.inl hpc
  | callbacks hold => exact Or.inl hpc
  | takeServer hold hq => cases hpc
  | pushBack hold => cases hpc

/-- A baddie that is in `m_baddies`, or that `loadMobGroup` is about to push back,
was so before the step, or the step has called `addPhysical` for its mob. -/
theorem Change.baddie_cases (h : Change order s a s') {b : BaddieData}
    (hb : b ∈ s'.server.baddies ∨ ∃ todo, s'.serverPc = .pushBack b todo) :
    (b ∈ s.server.baddies ∨ ∃ todo, s.serverPc = .pushBack b todo) ∨
      a = .server ∧ b.id = s.server.nextId ∧ ∃ mat,
        .addPhysical none b.id b.templ mat true ∈ s'.physicalCalls ∧
        ∃ rest, s.serverPc = .loading (.mob b.templ mat :: rest) := by
  rcases hb with hb | ⟨todo, hpc⟩
  · rcases h.baddies with he | ⟨b', todo, rfl, hpc, he⟩
    · exact Or.inl (Or.inl (he ▸ hb))
    · rw [he] at hb
      rcases List.mem_append.mp hb with hb | hb
      · exact Or.inl (Or.inl hb)
      · obtain rfl := List.mem_singleton.mp hb
        exact Or.inl (Or.inr ⟨todo, hpc⟩)
  · exact (h.pushBack_new hpc).imp_left fun hpc => Or.inr ⟨todo, hpc⟩

/-- The values of clients other than 0 and the ids of baddies were handed out,
each to one of them. -/
structure OwnIds (s : GameServer) : Prop where
  allocated : ∀ c id, s.server.clients.find? c = some id → id ≠ 0 → id ∈ s.allocated
  unique : ∀ c d id, s.server.clients.find? c = some id → s.server.clients.find? d = some id →
    id ≠ 0 → c = d
  baddie : ∀ b, (b ∈ s.server.baddies ∨ ∃ todo, s.serverPc = .pushBack b todo) →
    b.id ≠ 0 ∧ b.id ∈ s.allocated ∧ ∀ c, s.server.clients.find? c ≠ some b.id

theorem ownIds_init (playerSpawn : Mat4) (world : List WorldEntry) : (init playerSpawn world).OwnIds where
  allocated c id h := by cases h
  unique c d id h := by cases h
  baddie b h := by rcases h with h | ⟨_, h⟩ <;> cases h

theorem Change.allocated_mono (h : Change order s a s') {id : UInt32} (hid : id ∈ s.allocated) :
    id ∈ s'.allocated := by
  obtain ⟨new, _, he⟩ := h.newCall
  rw [allocated, he, List.filterMap_append]
  exact List.mem_append_right _ hid

theorem Change.value_cases (h : Change order s a s') {c : ClientPtr} {id : UInt32}
    (hf : s'.server.clients.find? c = some id) (hid : id ≠ 0) :
    s.server.clients.find? c = some id ∨ id = s.server.nextId ∧ id ∈ s'.allocated ∧
      s.server.clients.find? c = none ∧ s.Allocates ∧ a = .server ∧
      ∃ template, s.serverPc = .handling (.loadPlayer c template) := by
  have hv := h.newValue c
  generalize s'.server.clients.find? c = o at hf hv
  cases hv with
  | same => exact Or.inl hf
  | removed => cases hf
  | @loaded template hpc =>
    cases hold : s.server.clients.find? c with
    | some old => exact Or.inl (by simpa [hold] using hf)
    | none =>
      have he : s.server.nextId = id := by simpa [hold] using hf
      have hnew : id ∈ s'.allocated := by
        obtain ⟨new, hn, hc⟩ := h.newCall
        cases hn with
        | none hload => exact absurd hpc (hload c template rfl)
        | load => simp [allocated, hc, Call.newId?, he]
        | world _ hno => exact absurd hpc (hno c template)
      exact Or.inr ⟨he.symm, hnew, rfl, by simp [Allocates, ServerPc.allocates, hpc], rfl, template, hpc⟩
  | lookedUp hpc =>
    cases hold : s.server.clients.find? c with
    | some old => exact Or.inl (by simpa [hold] using hf)
    | none => exact absurd (by simpa [hold] using hf) (Ne.symm hid)

theorem Change.value_other (h : Change order s a s')
    (hload : ∀ c template, a = .server → s.serverPc ≠ .handling (.loadPlayer c template))
    (hremove : ∀ c, a = .removeClient c → (s.server.clients.find? c).getD 0 = 0) {c : ClientPtr}
    {id : UInt32} (hid : id ≠ 0) : s'.server.clients.find? c = some id ↔ s.server.clients.find? c = some id := by
  have hv := h.newValue c
  generalize s'.server.clients.find? c = o at hv
  cases hv with
  | same => rfl
  | removed =>
    have hzero := hremove c rfl
    constructor
    · intro hf
      cases hf
    · intro hf
      exact absurd (by simpa [hf] using hzero) hid
  | @loaded template hpc => exact absurd hpc (hload c template rfl)
  | lookedUp hpc =>
    cases hf : s.server.clients.find? c with
    | some old => simp
    | none => simpa using Ne.symm hid

theorem Change.value_load {d : ClientPtr} {template : ByteString} (h : Change order s .server s')
    (hpc : s.serverPc = .handling (.loadPlayer d template)) (hnone : s.server.clients.find? d = none)
    {c : ClientPtr} {id : UInt32} : s'.server.clients.find? c = some id ↔
      (c = d ∧ id = s.server.nextId) ∨ s.server.clients.find? c = some id := by
  have hv := h.newValue c
  generalize s'.server.clients.find? c = o at hv
  cases hv with
  | same _ hload =>
    have hc : c ≠ d := by
      rintro rfl
      exact hload template rfl hpc
    simp [hc]
  | @loaded template' hpc' =>
    obtain rfl : d = c := by
      rw [hpc] at hpc'
      cases hpc'
      rfl
    simp [hnone, eq_comm]

theorem Change.value_remove {d : ClientPtr} {gone : UInt32} (h : Change order s (.removeClient d) s')
    (ho : s.OwnIds) (hfind : s.server.clients.find? d = some gone) (hgone : gone ≠ 0) {c : ClientPtr}
    {id : UInt32} : s'.server.clients.find? c = some id ↔ s.server.clients.find? c = some id ∧ id ≠ gone := by
  have hv := h.newValue c
  generalize s'.server.clients.find? c = o at hv
  cases hv with
  | same hno _ =>
    refine ⟨fun hf => ⟨hf, ?_⟩, And.left⟩
    rintro rfl
    exact hno (congrArg Action.removeClient (ho.unique d c id hfind hf hgone))
  | removed => simp [hfind, eq_comm]

theorem Change.ownBaddie (h : Change order s a s') (ho : s.OwnIds) (hfresh : s.IdsFresh a) {b : BaddieData}
    (hb : b ∈ s'.server.baddies ∨ ∃ todo, s'.serverPc = .pushBack b todo) :
    b.id ≠ 0 ∧ b.id ∈ s'.allocated ∧ ∀ c, s'.server.clients.find? c ≠ some b.id := by
  rcases h.baddie_cases hb with hold | ⟨rfl, he, mat, hcall, rest, hmob⟩
  · obtain ⟨hid, halloc, hno⟩ := ho.baddie b hold
    refine ⟨hid, h.allocated_mono halloc, fun c hf => ?_⟩
    rcases h.value_cases hf hid with hf | ⟨he, _, _, ha, rfl, _⟩
    · exact hno c hf
    · exact (hfresh ha).2 (he ▸ halloc)
  · have halloc : b.id ∈ s'.allocated := List.mem_filterMap.mpr ⟨_, hcall, rfl⟩
    obtain ⟨hid, hnew⟩ := hfresh (by simp [Allocates, ServerPc.allocates, hmob])
    rw [← he] at hid hnew
    refine ⟨hid, halloc, fun c hf => ?_⟩
    rcases h.value_cases hf hid with hf | ⟨_, _, _, _, _, template, hload⟩
    · exact hnew (ho.allocated c b.id hf hid)
    · rw [hmob] at hload
      cases hload

theorem Change.ownIds (h : Change order s a s') (ho : s.OwnIds) (hok : s.IdsFresh a) : s'.OwnIds where
  allocated c id hf hid := by
    rcases h.value_cases hf hid with hf | ⟨_, hnew, _⟩
    · exact h.allocated_mono (ho.allocated c id hf hid)
    · exact hnew
  unique c d id hc hd hid := by
    rcases h.value_cases hc hid with hc | ⟨he, _, _, halloc, rfl, template, hpc⟩
    · rcases h.value_cases hd hid with hd | ⟨he, _, _, halloc, rfl, _⟩
      · exact ho.unique c d id hc hd hid
      · exact absurd (ho.allocated c id hc hid) (he ▸ (hok halloc).2)
    · rcases h.value_cases hd hid with hd | ⟨_, _, _, _, _, template', hpc'⟩
      · exact absurd (ho.allocated d id hd hid) (he ▸ (hok halloc).2)
      · rw [hpc] at hpc'
        cases hpc'
        rfl
  baddie b hb := h.ownBaddie ho hok hb

end GameServer

end Quintses
