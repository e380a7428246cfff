import Quintses.Shutdown
import Quintses.Templates

/-! The strings in the messages of the server: the stock name, the templates of
the world file and those that clients ask for. -/

namespace Quintses

def ServerPc.todo : ServerPc → List WorldEntry
  | .loading todo | .pushBack _ todo => todo
  | .waiting | .handling _ | .finishing | .joining | .deleting | .closing | .clearing | .done => []

/-- The template of a message that the server pushes. -/
def Call.template? : Call → Option ByteString
  | .pushMessage _ msg => msg.template?
  | .serverClosed _ | .addPhysical _ _ _ _ _ | .delPhysical _ _ => none

namespace LocalServer

variable {srv : LocalServer} {c : ClientPtr} {call : Call} {t : ByteString}

theorem template_tell {cs : List ClientPtr} {msg : ClientMsg} (h : call ∈ tell cs msg) :
    call.template? = msg.template? := by
  obtain ⟨d, _, rfl⟩ := mem_tell.mp h
  rfl

theorem template_addClient (h : call ∈ (srv.addClient c).2) (ht : call.template? = some t) :
    t = playerTemplate ∨ ∃ b ∈ srv.baddies, b.templ = t := by
  rcases List.mem_append.mp h with h | h
  · obtain ⟨i, _, rfl⟩ := List.mem_map.mp h
    exact Or.inl (Option.some.inj ht).symm
  · obtain ⟨b, hb, rfl⟩ := List.mem_map.mp h
    exact Or.inr ⟨b, hb, Option.some.inj ht⟩

theorem template_removeClient (h : call ∈ (srv.removeClient c).2) : call.template? = none := by
  simp only [removeClient] at h
  split at h
  · rcases List.mem_cons.mp h with rfl | h
    · rfl
    · rcases List.mem_append.mp h with h | h
      · exact template_tell h
      · exact template_tell h
  · cases h

theorem template_loadPlayer {template : ByteString} (h : call ∈ (srv.loadPlayer c template).2)
    (ht : call.template? = some t) : t = template := by
  rcases List.mem_cons.mp h with rfl | h
  · cases ht
  · rw [template_tell h] at ht
    exact (Option.some.inj ht).symm

theorem template_pushClientTransforms {trans : ClientTransList} (h : call ∈ srv.pushClientTransforms trans) :
    call.template? = none := by
  obtain ⟨i, _, h⟩ := List.mem_flatMap.mp h
  rcases List.mem_append.mp h with h | h
  · exact template_tell h
  · exact template_tell h

theorem template_closeClients (h : call ∈ srv.closeClients) : call.template? = none := by
  rcases List.mem_append.mp h with h | h
  · obtain ⟨e, _, rfl⟩ := List.mem_map.mp h
    rfl
  · obtain ⟨e, _, rfl⟩ := List.mem_map.mp h
    rfl

end LocalServer

namespace GameServer

variable {order : PopOrder} {s s' : GameServer} {a : Action} {call : Call} {t : ByteString}

theorem Change.template (h : Change order s a s') (hm : .call call ∈ s'.log) (ht : call.template? = some t) :
    .call call ∈ s.log ∨ t = playerTemplate ∨ (∃ b ∈ s.server.baddies, b.templ = t) ∨
      ∃ c, .loadPlayer c t ∈ s.serverPending := by
  cases h with
  | quietServer h => exact Or.inl (h.log ▸ hm)
  | quietPhysics h => exact Or.inl (h.log ▸ hm)
  | @addClient d hd hnew =>
    simp only [apply_log, record, List.mem_append, List.mem_cons] at hm
    rcases hm with hm | hm | hm
    · obtain hstock | hbaddie := LocalServer.template_addClient (by simpa using hm) ht
      · exact Or.inr (Or.inl hstock)
      · exact Or.inr (Or.inr (Or.inl hbaddie))
    · cases hm
    · exact Or.inl hm
  | @removeClient d hd =>
    simp only [apply_log, record, List.mem_append, List.mem_cons] at hm
    rcases hm with hm | hm | hm
    · cases hm
    · rw [LocalServer.template_removeClient (by simpa using hm)] at ht
      cases ht
    · exact Or.inl hm
  | receive h => exact Or.inl (by simpa [record, setServer] using hm)
  | takeServer hpc hq => exact Or.inl hm
  | @handle msg hpc =>
    simp only [handle_log, List.mem_append, List.mem_cons] at hm
    rcases hm with hm | hm | hm
    · cases msg with
      | loadPlayer d template =>
        obtain rfl := LocalServer.template_loadPlayer (by simpa [handleCalls] using hm) ht
        exact Or.inr (Or.inr (Or.inr ⟨d, by simp [GameServer.serverPending, hpc, ServerPc.hand]⟩))
      | _ => simp [handleCalls] at hm
    · cases hm
    · exact Or.inl hm
  | mob hpc =>
    rw [allocPhysical_eq, apply_log] at hm
    rcases List.mem_cons.mp hm with he | hm
    · cases he
      cases ht
    · exact Or.inl hm
  | blocker hpc =>
    rw [allocPhysical_eq, apply_log] at hm
    rcases List.mem_cons.mp hm with he | hm
    · cases he
      cases ht
    · exact Or.inl hm
  | pushBack hpc => exact Or.inl hm
  | close hpc =>
    simp only [apply_log, List.mem_append] at hm
    rcases hm with hm | hm
    · rw [LocalServer.template_closeClients (by simpa using hm)] at ht
      cases ht
    · exact Or.inl hm
  | takePhysics hpc hq => exact Or.inl hm
  | parse hpc => exact Or.inl (by rwa [parse_log] at hm)
  | callbacks hpc => exact Or.inl hm
  | transforms hpc =>
    simp only [apply_log, List.mem_append] at hm
    rcases hm with hm | hm
    · rw [LocalServer.template_pushClientTransforms (by simpa using hm)] at ht
      cases ht
    · exact Or.inl hm

theorem stepServer_todo (h : s.stepServer order = some s') : s'.serverPc.todo ⊆ s.serverPc.todo := by
  unfold stepServer at h
  split at h
  case h_1 hpc => cases h; simp [goto, ServerPc.todo]
  case h_2 spawn todo hpc => cases h; simp [goto, setServer, hpc, ServerPc.todo]
  case h_3 templ mat todo hpc =>
    cases h
    rw [allocPhysical_eq, apply_serverPc]
    simp [goto, hpc, ServerPc.todo]
  case h_4 templ mat todo hpc =>
    cases h
    rw [allocPhysical_eq, apply_serverPc]
    simp [goto, hpc, ServerPc.todo]
  case h_5 b todo hpc => cases h; simp [goto, setServer, hpc, ServerPc.todo]
  case h_6 hpc =>
    split at h
    · cases h
    · cases h
      simp [goto, setServer, ServerPc.todo]
  case h_7 msg hpc =>
    cases h
    rcases @handle_serverPc order s msg with he | he <;> simp [he, ServerPc.todo]
  case h_8 hpc => cases h; simp [goto, setPhysics, ServerPc.todo]
  case h_9 hpc =>
    split at h <;> cases h
    simp [goto, ServerPc.todo]
  case h_10 hpc => cases h; simp [goto, ServerPc.todo]
  case h_11 hpc =>
    cases h
    rw [apply_serverPc]
    simp [goto, ServerPc.todo]
  case h_12 hpc => cases h; simp [goto, setServer, ServerPc.todo]
  case h_13 hpc => cases h

theorem step_todo (h : step order s a = some s') : s'.serverPc.todo ⊆ s.serverPc.todo := by
  obtain ⟨hf, hc⟩ := step_change h
  simp only [step, hf, Option.isSome_none, Bool.false_eq_true, if_false] at h
  cases a with
  | server => exact stepServer_todo h
  | physics mats =>
    rw [stepPhysics_serverPc h]
    exact List.Subset.refl _
  | addClient c =>
    cases hc with
    | addClient hc hnew =>
      rw [apply_serverPc]
      exact List.Subset.refl _
  | removeClient c =>
    cases hc with
    | removeClient hadd =>
      simp only [record, apply_serverPc]
      exact List.Subset.refl _
  | pushMessage msg =>
    cases hc with
    | receive hm => exact List.Subset.refl _

/-- Every string that the server holds or has pushed meets `p`. -/
structure Strings (p : ByteString → Prop) (s : GameServer) : Prop where
  pushed : ∀ call, .call call ∈ s.log → ∀ t ∈ call.template?, p t
  requested : ∀ c t, .loadPlayer c t ∈ s.serverPending → p t
  world : ∀ templ mat, .mob templ mat ∈ s.serverPc.todo → p templ
  baddie : ∀ b, (b ∈ s.server.baddies ∨ ∃ todo, s.serverPc = .pushBack b todo) → p b.templ

theorem strings_step {p : ByteString → Prop} (h : s.Strings p) (hplayer : p playerTemplate)
    (hpush : ∀ c t, a = .pushMessage (.loadPlayer c t) → p t) (hs : step order s a = some s') : s'.Strings p := by
  have hc := (step_change hs).2
  constructor
  · intro call hm t ht
    rcases hc.template hm ht with hold | rfl | ⟨b, hb, rfl⟩ | ⟨c, hreq⟩
    · exact h.pushed call hold t ht
    · exact hplayer
    · exact h.baddie b (Or.inl hb)
    · exact h.requested c t hreq
  · intro c t hm
    rcases hc.serverPending hm with hold | ⟨_, rfl⟩
    · exact h.requested c t hold
    · exact hpush c t rfl
  · exact fun templ mat hm => h.world templ mat (step_todo hs hm)
  · intro b hb
    rcases hc.baddie_cases hb with hold | ⟨_, _, mat, _, rest, hpc⟩
    · exact h.baddie b hold
    · exact h.world b.templ mat (by simp [hpc, ServerPc.todo])

theorem strings_init {p : ByteString → Prop} (playerSpawn : Mat4) {world : List WorldEntry}
    (h : ∀ templ mat, .mob templ mat ∈ world → p templ) : (init playerSpawn world).Strings p where
  pushed := by simp [init]
  requested := by simp [init, GameServer.serverPending, ServerPc.hand, LocalServer.new]
  world := h
  baddie b hb := by rcases hb with hb | ⟨_, hb⟩ <;> cases hb

end GameServer

end Quintses
