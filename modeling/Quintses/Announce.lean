import Quintses.Orphans

/-! What the connected clients have been told of the world. Clients in the lobby
miss the players that load while they wait, and everybody misses the mobs that
are loaded while they are connected. -/

namespace Quintses

open Lts

def hear (c : ClientPtr) : Call → List UInt32 → List UInt32
  | .pushMessage d (.addDrawable msg), ids => if d = c then msg.objid :: ids else ids
  | .pushMessage d (.delDrawable msg), ids => if d = c then ids.filter (· ≠ msg.objid) else ids
  | _, ids => ids

/-- The ids whose add notice a client was pushed without a later delete notice. -/
def told (c : ClientPtr) : List Event → List UInt32
  | .call call :: log => hear c call (told c log)
  | _ :: log => told c log
  | [] => []

theorem told_calls (c : ClientPtr) (calls : List Call) (log : List Event) :
    told c ((calls.map Event.call).reverse ++ log) =
      calls.foldl (fun ids call => hear c call ids) (told c log) := by
  induction calls generalizing log with
  | nil => rfl
  | cons call calls ih => simpa [told] using ih (.call call :: log)

theorem foldl_hear_of_silent {c : ClientPtr} {calls : List Call} {ids : List UInt32}
    (h : ∀ call ∈ calls, ∀ ids, hear c call ids = ids) :
    calls.foldl (fun ids call => hear c call ids) ids = ids := by
  induction calls generalizing ids with
  | nil => rfl
  | cons call calls ih =>
    rw [List.foldl_cons, h call List.mem_cons_self]
    exact ih (fun x hx => h x (List.mem_cons_of_mem call hx))

theorem told_of_silent {c : ClientPtr} {calls : List Call} (h : ∀ call ∈ calls, ∀ ids, hear c call ids = ids)
    (log : List Event) : told c ((calls.map Event.call).reverse ++ log) = told c log := by
  rw [told_calls, foldl_hear_of_silent h]

theorem hear_of_target_ne {c : ClientPtr} {call : Call} (h : call.target ≠ some c) (ids : List UInt32) :
    hear c call ids = ids := by
  cases call with
  | pushMessage d msg =>
    have hd : d ≠ c := fun he => h (congrArg some he)
    cases msg <;> simp [hear, hd]
  | _ => rfl

theorem told_eq_nil {c : ClientPtr} {log : List Event}
    (h : ∀ call, .call call ∈ log → call.target ≠ some c) : told c log = [] := by
  induction log with
  | nil => rfl
  | cons e log ih =>
    have hrest := ih (fun call hc => h call (List.mem_cons_of_mem e hc))
    cases e with
    | call call => rw [told, hear_of_target_ne (h call List.mem_cons_self), hrest]
    | _ => exact hrest

def Event.joiner? : Event → Option ClientPtr
  | .addClient c => some c
  | .removeClient _ | .received _ | .handled _ | .call _ => none

namespace LocalServer

theorem mem_told_tell_add (c : ClientPtr) (cs : List ClientPtr) (msg : ClientAddObjectMsg)
    (ids : List UInt32) (id : UInt32) :
    id ∈ (tell cs (.addDrawable msg)).foldl (fun ids call => hear c call ids) ids ↔
      id ∈ ids ∨ c ∈ cs ∧ id = msg.objid := by
  induction cs generalizing ids with
  | nil => simp [tell]
  | cons d cs ih =>
    have hh := ih (hear c (.pushMessage d (.addDrawable msg)) ids)
    simp only [tell, List.map_cons, List.foldl_cons] at hh ⊢
    rw [hh]
    by_cases hd : d = c
    · simp [hear, hd]
      tauto
    · simp [hear, hd, Ne.symm hd]

theorem mem_told_tell_del (c : ClientPtr) (cs : List ClientPtr) (msg : ClientDelObjectMsg)
    (ids : List UInt32) (id : UInt32) :
    id ∈ (tell cs (.delDrawable msg)).foldl (fun ids call => hear c call ids) ids ↔
      id ∈ ids ∧ ¬ (c ∈ cs ∧ id = msg.objid) := by
  induction cs generalizing ids with
  | nil => simp [tell]
  | cons d cs ih =>
    have hh := ih (hear c (.pushMessage d (.delDrawable msg)) ids)
    simp only [tell, List.map_cons, List.foldl_cons] at hh ⊢
    rw [hh]
    by_cases hd : d = c
    · simp [hear, hd]
      tauto
    · simp [hear, hd, Ne.symm hd]

theorem mem_told_adds {α : Type} (c : ClientPtr) (f : α → ClientAddObjectMsg) (xs : List α)
    (ids : List UInt32) (id : UInt32) :
    id ∈ (xs.map (fun x => Call.pushMessage c (.addDrawable (f x)))).foldl
      (fun ids call => hear c call ids) ids ↔ id ∈ ids ∨ ∃ x ∈ xs, id = (f x).objid := by
  induction xs generalizing ids with
  | nil => simp
  | cons x xs ih =>
    have hh := ih (hear c (.pushMessage c (.addDrawable (f x))) ids)
    simp only [List.map_cons, List.foldl_cons] at hh ⊢
    rw [hh]
    simp only [hear, if_true, List.mem_cons, exists_eq_or_imp]
    tauto

theorem mem_told_addClient (srv : LocalServer) (c : ClientPtr) (ids : List UInt32) (id : UInt32) :
    id ∈ (srv.addClient c).2.foldl (fun ids call => hear c call ids) ids ↔
      id ∈ ids ∨ (∃ d, srv.clients.find? d = some id) ∨ id ∈ srv.baddies.map BaddieData.id := by
  simp only [addClient, List.foldl_append]
  rw [mem_told_adds c (fun i : BaddieData => ⟨i.id, i.templ⟩),
    mem_told_adds c (fun i : ClientPtr × UInt32 => ⟨i.2, literal "Player"⟩), or_assoc]
  refine or_congr_right (or_congr ?_ ?_)
  · constructor
    · rintro ⟨i, hi, rfl⟩
      exact ⟨i.1, StdMap.mem_entries.mp hi⟩
    · rintro ⟨d, hd⟩
      exact ⟨(d, id), StdMap.mem_entries.mpr hd, rfl⟩
  · simp [eq_comm]

theorem mem_told_removeClient (srv : LocalServer) {d : ClientPtr} {gone : UInt32}
    (hfind : srv.clients.find? d = some gone) (hgone : gone ≠ 0) (c : ClientPtr) (ids : List UInt32)
    (id : UInt32) : id ∈ (srv.removeClient d).2.foldl (fun ids call => hear c call ids) ids ↔
      id ∈ ids ∧ ¬ ((srv.removeClient d).1.Known c ∧ id = gone) := by
  have hknown : (srv.removeClient d).1.Known c ↔
      c ∈ ((srv.clients.subscript d 0).erase d).keys ∨ c ∈ (srv.lobbyClients.erase d).keys := by
    simp only [Known, removeClient, StdMap.mem_keys]
  rw [hknown]
  simp only [removeClient, hfind, Option.getD_some, hgone, ne_eq, not_false_eq_true, if_true,
    List.foldl_cons, List.foldl_append]
  rw [mem_told_tell_del, mem_told_tell_del]
  simp only [hear]
  tauto

theorem mem_told_loadPlayer (srv : LocalServer) (d : ClientPtr) (template : ByteString) (c : ClientPtr)
    (ids : List UInt32) (id : UInt32) :
    id ∈ (srv.loadPlayer d template).2.foldl (fun ids call => hear c call ids) ids ↔
      id ∈ ids ∨ (∃ v, (srv.loadPlayer d template).1.clients.find? c = some v) ∧ id = srv.nextId := by
  simp only [loadPlayer, getNextIdentifier, List.foldl_cons]
  rw [mem_told_tell_add, StdMap.mem_keys]
  rfl

theorem value_loadPlayer (srv : LocalServer) (d : ClientPtr) (template : ByteString) (id : UInt32) :
    (∃ e, (srv.loadPlayer d template).1.clients.find? e = some id) ↔
      (∃ e, srv.clients.find? e = some id) ∨ srv.clients.find? d = none ∧ id = srv.nextId := by
  simp only [loadPlayer, getNextIdentifier, StdMap.find?_insert]
  cases hd : srv.clients.find? d with
  | none =>
    constructor
    · rintro ⟨e, hf⟩
      by_cases he : e = d
      · exact Or.inr ⟨rfl, by simpa [he, eq_comm] using hf⟩
      · exact Or.inl ⟨e, by simpa [he] using hf⟩
    · rintro (⟨e, hf⟩ | ⟨_, rfl⟩)
      · have he : e ≠ d := by
          rintro rfl
          rw [hd] at hf
          cases hf
        exact ⟨e, by simpa [he] using hf⟩
      · exact ⟨d, by simp⟩
  | some old =>
    have hsame (e : ClientPtr) :
        (if e = d then some ((some old).getD srv.nextId) else srv.clients.find? e) = srv.clients.find? e := by
      by_cases he : e = d
      · simp [he, hd]
      · simp [he]
    simp only [hsame, reduceCtorEq, false_and, or_false]

theorem hear_pushClientTransforms {srv : LocalServer} {trans : ClientTransList} {call : Call}
    (h : call ∈ srv.pushClientTransforms trans) (c : ClientPtr) (ids : List UInt32) :
    hear c call ids = ids := by
  obtain ⟨i, _, h⟩ := List.mem_flatMap.mp h
  rcases List.mem_append.mp h with h | h
  · obtain ⟨d, _, rfl⟩ := List.mem_map.mp h
    rfl
  · obtain ⟨d, _, rfl⟩ := List.mem_map.mp h
    rfl

theorem hear_closeClients {srv : LocalServer} {call : Call} (h : call ∈ srv.closeClients) (c : ClientPtr)
    (ids : List UInt32) : hear c call ids = ids := by
  rcases List.mem_append.mp h with h | h
  · obtain ⟨d, _, rfl⟩ := List.mem_map.mp h
    rfl
  · obtain ⟨d, _, rfl⟩ := List.mem_map.mp h
    rfl

end LocalServer

namespace GameServer

inductive NewTold (s : GameServer) (c : ClientPtr) : Action → List UInt32 → Prop
  | same {a : Action} (hadd : a ≠ .addClient c)
    (hremove : ∀ d, a = .removeClient d → (s.server.clients.find? d).getD 0 = 0)
    (hload : ∀ d template, a = .server → s.serverPc ≠ .handling (.loadPlayer d template)) :
    NewTold s c a (told c s.log)
  | joined {ids : List UInt32} (h : ∀ id, id ∈ ids ↔ id ∈ told c s.log ∨
      (∃ d, s.server.clients.find? d = some id) ∨ id ∈ s.server.baddies.map BaddieData.id) :
    NewTold s c (.addClient c) ids
  | removed {d : ClientPtr} {gone : UInt32} {ids : List UInt32}
    (hfind : s.server.clients.find? d = some gone) (hgone : gone ≠ 0)
    (h : ∀ id, id ∈ ids ↔ id ∈ told c s.log ∧ ¬ ((s.server.removeClient d).1.Known c ∧ id = gone)) :
    NewTold s c (.removeClient d) ids
  | loaded {d : ClientPtr} {template : ByteString} {ids : List UInt32}
    (hpc : s.serverPc = .handling (.loadPlayer d template))
    (h : ∀ id, id ∈ ids ↔ id ∈ told c s.log ∨
      (∃ v, (s.server.loadPlayer d template).1.clients.find? c = some v) ∧ id = s.server.nextId) :
    NewTold s c .server ids

variable {order : PopOrder} {s s' : GameServer} {a : Action}

theorem Change.newTold (h : Change order s a s') (c : ClientPtr) : NewTold s c a (told c s'.log) := by
  have hsame (he : told c s'.log = told c s.log) (hadd : a ≠ .addClient c)
      (hremove : ∀ d, a ≠ .removeClient d)
      (hload : ∀ d template, a = .server → s.serverPc ≠ .handling (.loadPlayer d template)) :
      NewTold s c a (told c s'.log) := by
    rw [he]
    exact .same hadd (fun d hd => absurd hd (hremove d)) hload
  cases h with
  | quietServer h hpc => exact hsame (by rw [h.log]) (by simp) (by simp) (fun _ _ _ => hpc _)
  | quietPhysics h => exact hsame (by rw [h.log]) (by simp) (by simp) (by simp)
  | @addClient d hd hnew =>
    by_cases hc : c = d
    · subst hc
      refine .joined (fun id => ?_)
      rw [apply_log, told_calls]
      exact LocalServer.mem_told_addClient s.server c (told c s.log) id
    · refine hsame ?_ (by simpa using fun he => hc he.symm) (by simp) (by simp)
      rw [apply_log, told_of_silent]
      · rfl
      · intro call hm ids
        exact hear_of_target_ne (fun ht => hc (LocalServer.target_addClient hm ht)) ids
  | @removeClient d hd =>
    by_cases hzero : (s.server.clients.find? d).getD 0 = 0
    · have he : told c ((s.apply order (s.server.removeClient d)).record (.removeClient d)).log =
          told c s.log := by
        simp [record, apply_log, told, LocalServer.removeClient, hzero]
      rw [he]
      exact .same (by simp) (by rintro e ⟨⟩; exact hzero) (by simp)
    · obtain ⟨gone, hfind⟩ : ∃ gone, s.server.clients.find? d = some gone := by
        cases hf : s.server.clients.find? d with
        | none => simp [hf] at hzero
        | some gone => exact ⟨gone, rfl⟩
      have hgone : gone ≠ 0 := by simpa [hfind] using hzero
      refine .removed hfind hgone (fun id => ?_)
      simp only [record, told]
      rw [apply_log, told_calls]
      exact LocalServer.mem_told_removeClient s.server hfind hgone c (told c s.log) id
  | receive h => exact hsame rfl (by simp) (by simp) (by simp)
  | takeServer hpc hq => exact hsame rfl (by simp) (by simp) (by simp [hpc])
  | @handle msg hpc =>
    cases msg with
    | loadPlayer d template =>
      refine .loaded hpc (fun id => ?_)
      rw [handle_log, told_calls]
      exact LocalServer.mem_told_loadPlayer s.server d template c (told c s.log) id
    | _ => exact hsame (by rw [handle_log]; rfl) (by simp) (by simp) (by simp [hpc])
  | mob hpc => exact hsame (by rw [allocPhysical_eq, apply_log]; rfl) (by simp) (by simp) (by simp [hpc])
  | blocker hpc => exact hsame (by rw [allocPhysical_eq, apply_log]; rfl) (by simp) (by simp) (by simp [hpc])
  | pushBack hpc => exact hsame rfl (by simp) (by simp) (by simp [hpc])
  | close hpc =>
    refine hsame ?_ (by simp) (by simp) (by simp [hpc])
    rw [apply_log, told_of_silent (fun call hm => LocalServer.hear_closeClients hm c)]
    rfl
  | takePhysics hpc hq => exact hsame rfl (by simp) (by simp) (by simp)
  | parse hpc => exact hsame (by rw [parse_log]) (by simp) (by simp) (by simp)
  | callbacks hpc => exact hsame rfl (by simp) (by simp) (by simp)
  | transforms hpc =>
    refine hsame ?_ (by simp) (by simp) (by simp)
    rw [apply_log, told_of_silent (fun call hm => LocalServer.hear_pushClientTransforms hm c)]
    rfl

theorem known_of_connected_step {c : ClientPtr} (hs : step order s a = some s')
    (hold : s.Connected c → s.server.Known c) (hc : s'.Connected c) : s'.server.Known c := by
  have h := (step_change hs).2
  rcases h.sameEntry c with hsame | rfl | rfl | ⟨template, rfl, hpc⟩ | ⟨mats, state, rfl, hpc⟩
  · by_cases hadd : a = .addClient c
    · subst hadd
      cases h with
      | addClient _ _ => exact Or.inr ⟨(), by simp [apply_server, LocalServer.addClient]⟩
    · have hcon : s.Connected c :=
        ⟨((h.added_iff c).mp hc.1).resolve_left hadd, fun hm => hc.2 (h.log_mono hm)⟩
      simpa only [LocalServer.Known, hsame.1, hsame.2] using hold hcon
  · cases h with
    | addClient _ _ => exact Or.inr ⟨(), by simp [apply_server, LocalServer.addClient]⟩
  · exact absurd ((h.removed_iff c).mpr (Or.inl rfl)) hc.2
  · rw [step_handling hpc hs, handle_server]
    exact LocalServer.known_loadPlayer template
  · rw [step_parsing hpc hs, parse_server]
    exact LocalServer.known_getClientId

/-- What this point of the server thread makes known reaches all connected clients. -/
def HeardByAll (s : GameServer) : ServerPc → Prop
  | .pushBack _ _ => ∀ c, s.Connected c → False
  | .handling (.loadPlayer d _) => ∀ c, s.Connected c →
    ((c = d ∨ s.server.clients.find? c ≠ none) ↔ s.server.clients.find? d = none)
  | _ => True

def LooksUp (s : GameServer) : PhysicsPc → Prop
  | .parsing (.input c _) => s.server.clients.find? c ≠ none
  | _ => True

def AllHear (s : GameServer) : Action → Prop
  | .server => s.HeardByAll s.serverPc
  | .physics _ => s.LooksUp s.physicsPc
  | .addClient _ | .removeClient _ | .pushMessage _ => True

/-- The condition only asks about clients that are in the log. -/
instance (s : GameServer) (p : ClientPtr → Prop) [DecidablePred p] :
    Decidable (∀ c, s.Connected c → p c) :=
  decidable_of_iff (∀ c ∈ s.log.filterMap Event.joiner?, .removeClient c ∉ s.log → p c) (by
    have hmem (c : ClientPtr) : c ∈ s.log.filterMap Event.joiner? ↔ .addClient c ∈ s.log := by
      rw [List.mem_filterMap]
      constructor
      · rintro ⟨e, he, hj⟩
        cases e <;> cases hj
        exact he
      · exact fun he => ⟨_, he, rfl⟩
    simp only [hmem, Connected, and_imp])

instance (s : GameServer) (pc : ServerPc) : Decidable (s.HeardByAll pc) :=
  match pc with
  | .pushBack _ _ => inferInstanceAs (Decidable (∀ c, s.Connected c → False))
  | .handling (.loadPlayer d _) => inferInstanceAs (Decidable (∀ c, s.Connected c →
    ((c = d ∨ s.server.clients.find? c ≠ none) ↔ s.server.clients.find? d = none)))
  | .loading _ | .waiting | .handling (.shutdown _) | .handling (.input _ _) | .handling (.bullet _)
  | .finishing | .joining | .deleting | .closing | .clearing | .done => inferInstanceAs (Decidable True)

instance (s : GameServer) (pc : PhysicsPc) : Decidable (s.LooksUp pc) :=
  match pc with
  | .parsing (.input c _) => inferInstanceAs (Decidable (s.server.clients.find? c ≠ none))
  | .loopHead | .draining | .parsing (.shutdown _) | .parsing (.loadPlayer _ _) | .parsing (.bullet _)
  | .callbacks _ | .transforms _ | .cleaning | .stopped => inferInstanceAs (Decidable True)

instance (s : GameServer) (a : Action) : Decidable (s.AllHear a) :=
  match a with
  | .server => inferInstanceAs (Decidable (s.HeardByAll s.serverPc))
  | .physics _ => inferInstanceAs (Decidable (s.LooksUp s.physicsPc))
  | .addClient _ | .removeClient _ | .pushMessage _ => inferInstanceAs (Decidable True)

def Told (s : GameServer) : Prop := ∀ c, s.Connected c → ∀ id, id ∈ told c s.log ↔
  (∃ d, s.server.clients.find? d = some id) ∨ id ∈ s.server.baddies.map BaddieData.id

structure Informed (s : GameServer) : Prop where
  told : s.Told
  nonzero : ∀ c, s.server.clients.find? c ≠ some 0
  known : ∀ c, s.Connected c → s.server.Known c

theorem Change.find?_same (h : Change order s a s') (hi : s.Informed) (hok : s.AllHear a)
    (hremove : ∀ d, a = .removeClient d → (s.server.clients.find? d).getD 0 = 0)
    (hload : ∀ d template, a = .server → s.serverPc ≠ .handling (.loadPlayer d template)) (d : ClientPtr) :
    s'.server.clients.find? d = s.server.clients.find? d := by
  have hv := h.newValue d
  generalize s'.server.clients.find? d = o at hv
  cases hv with
  | same => rfl
  | removed =>
    cases hf : s.server.clients.find? d with
    | none => rfl
    | some id =>
      have hzero : id = 0 := by simpa [hf] using hremove d rfl
      exact absurd (hzero ▸ hf) (hi.nonzero d)
  | @loaded template hpc => exact absurd hpc (hload d template rfl)
  | lookedUp hpc =>
    have hentry : s.server.clients.find? d ≠ none := by simpa [AllHear, LooksUp, hpc] using hok
    obtain ⟨id, hf⟩ := Option.ne_none_iff_exists'.mp hentry
    rw [hf, Option.getD_some]

theorem Change.nonzero (h : Change order s a s') (hi : s.Informed) (hfresh : s.IdsFresh a)
    (hok : s.AllHear a) (c : ClientPtr) : s'.server.clients.find? c ≠ some 0 := by
  have hv := h.newValue c
  generalize s'.server.clients.find? c = o at hv
  cases hv with
  | same => exact hi.nonzero c
  | removed => simp
  | @loaded template hpc =>
    have hnext := (hfresh (by simp [Allocates, ServerPc.allocates, hpc])).1
    cases hf : s.server.clients.find? c with
    | none => simpa using hnext
    | some id => simpa [hf] using hi.nonzero c
  | lookedUp hpc =>
    have hentry : s.server.clients.find? c ≠ none := by simpa [AllHear, LooksUp, hpc] using hok
    obtain ⟨id, hf⟩ := Option.ne_none_iff_exists'.mp hentry
    simpa [hf] using hi.nonzero c

theorem told_removed (ho : s.OwnIds) (hi : s.Informed) {c d : ClientPtr} {gone : UInt32}
    (hs : step order s (.removeClient d) = some s') (hcon : s.Connected c) (hc : s'.Connected c)
    (hfind : s.server.clients.find? d = some gone) (hgone : gone ≠ 0) (id : UInt32) :
    (id ∈ told c s.log ∧ ¬ ((s.server.removeClient d).1.Known c ∧ id = gone)) ↔
      (∃ e, s'.server.clients.find? e = some id) ∨ id ∈ s'.server.baddies.map BaddieData.id := by
  have h := (step_change hs).2
  have hserver : s'.server = (s.server.removeClient d).1 := by
    cases h with
    | removeClient _ => simp only [record, apply_server]
  have hknown : (s.server.removeClient d).1.Known c :=
    hserver ▸ known_of_connected_step hs (hi.known c) hc
  have hbaddie : gone ∉ s.server.baddies.map BaddieData.id := by
    intro hm
    obtain ⟨b, hb, rfl⟩ := List.mem_map.mp hm
    exact (ho.baddie b (Or.inl hb)).2.2 d hfind
  have hvalue : (∃ e, s'.server.clients.find? e = some id) ↔
      (∃ e, s.server.clients.find? e = some id) ∧ id ≠ gone := by
    simp only [h.value_remove ho hfind hgone, exists_and_right]
  have hkeep : s'.server.baddies = s.server.baddies := by
    rw [hserver]
    rfl
  rw [hi.told c hcon id, hvalue, hkeep]
  constructor
  · rintro ⟨hm, hno⟩
    have hid : id ≠ gone := fun he => hno ⟨hknown, he⟩
    exact hm.imp_left (fun hv => ⟨hv, hid⟩)
  · rintro (⟨hv, hid⟩ | hb)
    · exact ⟨Or.inl hv, fun hno => hid hno.2⟩
    · exact ⟨Or.inr hb, fun hno => hbaddie (hno.2 ▸ hb)⟩

theorem told_loaded (hi : s.Informed) (hok : s.AllHear .server) {c d : ClientPtr} {template : ByteString}
    (hs : step order s .server = some s') (hcon : s.Connected c)
    (hpc : s.serverPc = .handling (.loadPlayer d template)) (id : UInt32) :
    (id ∈ told c s.log ∨
        (∃ v, (s.server.loadPlayer d template).1.clients.find? c = some v) ∧ id = s.server.nextId) ↔
      (∃ e, s'.server.clients.find? e = some id) ∨ id ∈ s'.server.baddies.map BaddieData.id := by
  have hserver : s'.server = (s.server.loadPlayer d template).1 := by
    rw [step_handling hpc hs, handle_server]
  have hheard : (c = d ∨ s.server.clients.find? c ≠ none) ↔ s.server.clients.find? d = none := by
    have hh : s.HeardByAll s.serverPc := hok
    rw [hpc] at hh
    exact hh c hcon
  have hentry : (∃ v, (s.server.loadPlayer d template).1.clients.find? c = some v) ↔
      s.server.clients.find? d = none := by
    rw [← hheard]
    by_cases hc : c = d <;>
      simp [LocalServer.loadPlayer, LocalServer.getNextIdentifier, hc, Option.ne_none_iff_exists']
  have hkeep : (s.server.loadPlayer d template).1.baddies = s.server.baddies := rfl
  rw [hi.told c hcon id, hserver, LocalServer.value_loadPlayer, hentry, hkeep]
  exact or_right_comm

theorem told_step (ht : s.Traced) (ho : s.OwnIds) (hi : s.Informed) (hok : s.AllHear a)
    (hs : step order s a = some s') : s'.Told := by
  have h := (step_change hs).2
  intro c hc id
  have hbefore (hadd : a ≠ .addClient c) : s.Connected c :=
    ⟨((h.added_iff c).mp hc.1).resolve_left hadd, fun hm => hc.2 (h.log_mono hm)⟩
  have hnew := h.newTold c
  generalize told c s'.log = ids at hnew
  cases hnew with
  | same hadd hremove hload =>
    have hcon := hbefore hadd
    have hbaddies : s'.server.baddies = s.server.baddies := by
      rcases h.baddies with he | ⟨b, todo, rfl, hpc, _⟩
      · exact he
      · have hno : ∀ c, s.Connected c → False := by simpa [AllHear, HeardByAll, hpc] using hok
        exact absurd hcon (hno c)
    simp only [h.find?_same hi hok hremove hload, hbaddies]
    exact hi.told c hcon id
  | joined hids =>
    have hold : told c s.log = [] := by
      refine told_eq_nil (fun call hm htarget => ?_)
      have hadd := ht.called call c hm htarget
      cases h with
      | addClient _ hnot => exact hnot hadd
    have hbaddies : s'.server.baddies = s.server.baddies := by
      rcases h.baddies with he | ⟨_, _, ha, _⟩
      · exact he
      · cases ha
    rw [hids, hold]
    simp only [h.find?_same hi hok (by simp) (by simp), hbaddies, List.not_mem_nil, false_or]
  | removed hfind hgone hids =>
    rw [hids]
    exact told_removed ho hi hs (hbefore (by simp)) hc hfind hgone id
  | loaded hpc hids =>
    rw [hids]
    exact told_loaded hi hok hs (hbefore (by simp)) hpc id

theorem informed_init (playerSpawn : Mat4) (world : List WorldEntry) : (init playerSpawn world).Informed where
  told c hc := by cases hc.1
  nonzero c := by simp [init, LocalServer.new]
  known c hc := by cases hc.1

/-- As long as everything new reaches all clients, each knows the whole world. -/
theorem told_of_allHear (order : PopOrder) (playerSpawn : Mat4) (world : List WorldEntry)
    {as : List Action}
    (h : Guarded (step order) (fun s a => s.IdsFresh a ∧ s.AllHear a) (init playerSpawn world) as) :
    Along (step order) Told (init playerSpawn world) as := by
  refine (h.along (fun s : GameServer => s.Traced ∧ s.OwnIds ∧ s.Informed) ?_ ?_).mono
    (fun s hs => hs.2.2.told)
  · rintro s a s' ⟨ht, ho, hi⟩ ⟨hfresh, hok⟩ hs
    have hc := (step_change hs).2
    refine ⟨hc.traced ht, hc.ownIds ho hfresh, told_step ht ho hi hok hs, hc.nonzero hi hfresh hok, ?_⟩
    exact fun c hcon => known_of_connected_step hs (hi.known c) hcon
  · exact ⟨traced_init playerSpawn world, ownIds_init playerSpawn world, informed_init playerSpawn world⟩

theorem told_of_allHear_two_clients :
    Along (step .lifo) Told (init zeroMat [.mob [77] zeroMat])
      [.server, .server, .server, .addClient 1, .pushMessage (.loadPlayer 1 [80]), .server, .server,
        .addClient 2, .pushMessage (.loadPlayer 2 [80]), .server, .server, .removeClient 1] :=
  told_of_allHear .lifo zeroMat [.mob [77] zeroMat] (by decide)

/-- A client in the lobby is not told of the player that loads meanwhile. -/
theorem not_told_in_lobby : ¬ ∀ playerSpawn world as,
    Along (step .lifo) Told (init playerSpawn world) as := by
  intro h
  let as : List Action := [.addClient 1, .addClient 2, .pushMessage (.loadPlayer 2 [80]), .server, .server,
    .server]
  have hrun : (run (step .lifo) (init zeroMat []) as).map (fun s => (told 1 s.log, s.server.clients.find? 2,
      s.log.contains (.addClient 1), s.log.contains (.removeClient 1))) = some ([], some 1, true, false) := by
    decide
  obtain ⟨s, hs, he⟩ := Option.map_eq_some_iff.mp hrun
  obtain ⟨htold, he⟩ := Prod.mk.inj he
  obtain ⟨hfind, he⟩ := Prod.mk.inj he
  obtain ⟨hadd, hrem⟩ := Prod.mk.inj he
  have hc : s.Connected 1 := ⟨by simpa using hadd, by simpa using hrem⟩
  have hh := ((h zeroMat [] as).last hs 1 hc 1).mpr (Or.inl ⟨2, hfind⟩)
  rw [htold] at hh
  cases hh

end GameServer

end Quintses
