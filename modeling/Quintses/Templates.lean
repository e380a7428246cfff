import Quintses.Ids

/-! The templates in the add notices. A client learns of a player from
`loadPlayer`, with the template of the request, or from `addClient`, which puts
the name of the stock template in its place. -/

namespace Quintses

open Lts

def playerTemplate : ByteString := literal "Player"

def Call.made? : Call → Option (UInt32 × ByteString)
  | .addPhysical _ id tmp _ _ => some (id, tmp)
  | .pushMessage _ _ | .serverClosed _ | .delPhysical _ _ => none

namespace LocalServer

variable {srv : LocalServer} {c d : ClientPtr} {msg : ClientAddObjectMsg}

theorem mem_tell {cs : List ClientPtr} {m : ClientMsg} {call : Call} :
    call ∈ tell cs m ↔ ∃ c ∈ cs, call = .pushMessage c m := by
  simp [tell, eq_comm]

theorem add_mem_addClient : Call.pushMessage d (.addDrawable msg) ∈ (srv.addClient c).2 ↔
    d = c ∧ ((∃ e, srv.clients.find? e = some msg.objid) ∧ msg.template = playerTemplate ∨
      ∃ b ∈ srv.baddies, msg = ⟨b.id, b.templ⟩) := by
  obtain ⟨objid, template⟩ := msg
  simp only [addClient, List.mem_append, List.mem_map, Call.pushMessage.injEq, ClientMsg.addDrawable.injEq,
    ClientAddObjectMsg.mk.injEq, Prod.exists, StdMap.mem_entries, playerTemplate]
  constructor
  · rintro (⟨e, id, hf, rfl, rfl, rfl⟩ | ⟨b, hb, rfl, rfl, rfl⟩)
    · exact ⟨rfl, Or.inl ⟨⟨e, hf⟩, rfl⟩⟩
    · exact ⟨rfl, Or.inr ⟨b, hb, rfl, rfl⟩⟩
  · rintro ⟨rfl, ⟨⟨e, hf⟩, rfl⟩ | ⟨b, hb, rfl, rfl⟩⟩
    · exact Or.inl ⟨e, objid, hf, rfl, rfl, rfl⟩
    · exact Or.inr ⟨b, hb, rfl, rfl, rfl⟩

theorem add_not_mem_removeClient : Call.pushMessage d (.addDrawable msg) ∉ (srv.removeClient c).2 := by
  simp only [removeClient]
  split <;> simp [mem_tell]

theorem add_mem_loadPlayer {template : ByteString} :
    Call.pushMessage d (.addDrawable msg) ∈ (srv.loadPlayer c template).2 ↔
      d ∈ (srv.loadPlayer c template).1.clients.keys ∧ msg = ⟨srv.nextId, template⟩ := by
  simp [loadPlayer, getNextIdentifier, mem_tell]

theorem add_not_mem_pushClientTransforms {trans : ClientTransList} :
    Call.pushMessage d (.addDrawable msg) ∉ srv.pushClientTransforms trans := by
  simp [pushClientTransforms, mem_tell]

theorem add_not_mem_closeClients : Call.pushMessage d (.addDrawable msg) ∉ srv.closeClients := by
  simp [closeClients]

end LocalServer

namespace GameServer

def Announced (s : GameServer) (c : ClientPtr) (msg : ClientAddObjectMsg) : Prop :=
  .call (.pushMessage c (.addDrawable msg)) ∈ s.log

/-- The physics was asked for an object of this template under the id. -/
def Made (s : GameServer) (id : UInt32) (template : ByteString) : Prop :=
  ∃ loader mat isCharacter, .addPhysical loader id template mat isCharacter ∈ s.physicalCalls

def TemplatesAgree (s : GameServer) : Prop := ∀ c d msg msg', s.Announced c msg → s.Announced d msg' →
  msg.objid = msg'.objid → msg.template = msg'.template

/-- When a client joins, the players it is told of were made from the stock template. -/
def StockPlayers (s : GameServer) : Action → Prop
  | .addClient _ => ∀ d id, s.server.clients.find? d = some id → ∀ template, s.Made id template →
    template = playerTemplate
  | .removeClient _ | .pushMessage _ | .server | .physics _ => True

instance (s : GameServer) (a : Action) : Decidable (s.StockPlayers a) :=
  match a with
  | .addClient _ => decidable_of_iff (∀ e ∈ s.server.clients.entries, ∀ call ∈ s.physicalCalls,
      call.made?.all (fun m => m.1 = e.2 → m.2 = playerTemplate)) (by
    constructor
    · rintro h d id hf template ⟨loader, mat, isCharacter, hc⟩
      simpa [Call.made?] using h (d, id) (StdMap.mem_entries.mpr hf) _ hc
    · rintro h ⟨d, id⟩ he call hc
      cases call with
      | addPhysical loader id' template mat isCharacter =>
        simp only [Call.made?, Option.all_some, decide_eq_true_eq]
        rintro rfl
        exact h d id' (StdMap.mem_entries.mp he) template ⟨loader, mat, isCharacter, hc⟩
      | _ => rfl)
  | .removeClient _ | .pushMessage _ | .server | .physics _ => inferInstanceAs (Decidable True)

inductive NewAnnouncement (s : GameServer) (c : ClientPtr) (msg : ClientAddObjectMsg) : Action → Prop
  | player {d : ClientPtr} (hfind : s.server.clients.find? d = some msg.objid)
    (ht : msg.template = playerTemplate) : NewAnnouncement s c msg (.addClient c)
  | baddie {b : BaddieData} (hb : b ∈ s.server.baddies) (hm : msg = ⟨b.id, b.templ⟩) :
    NewAnnouncement s c msg (.addClient c)
  | load {d : ClientPtr} {template : ByteString} (hpc : s.serverPc = .handling (.loadPlayer d template))
    (hm : msg = ⟨s.server.nextId, template⟩) : NewAnnouncement s c msg .server

variable {order : PopOrder} {s s' : GameServer} {a : Action} {c : ClientPtr} {msg : ClientAddObjectMsg}

theorem announced_apply {r : LocalServer × List Call} : (s.apply order r).Announced c msg ↔
    Call.pushMessage c (.addDrawable msg) ∈ r.2 ∨ s.Announced c msg := by
  simp [Announced, apply_log]

theorem Change.newAnnouncement (h : Change order s a s') (hm : s'.Announced c msg) :
    s.Announced c msg ∨ NewAnnouncement s c msg a := by
  cases h with
  | quietServer h => exact Or.inl (by rwa [Announced, h.log] at hm)
  | quietPhysics h => exact Or.inl (by rwa [Announced, h.log] at hm)
  | @addClient d hd hnew =>
    rcases announced_apply.mp hm with hm | hm
    · obtain ⟨rfl, ⟨⟨e, hf⟩, ht⟩ | ⟨b, hb, he⟩⟩ := LocalServer.add_mem_addClient.mp hm
      · exact Or.inr (.player hf ht)
      · exact Or.inr (.baddie hb he)
    · exact Or.inl (by simpa [Announced, record] using hm)
  | @removeClient d hd =>
    have hm : (s.apply order (s.server.removeClient d)).Announced c msg := by
      simpa [Announced, record] using hm
    exact Or.inl ((announced_apply.mp hm).resolve_left LocalServer.add_not_mem_removeClient)
  | receive h => exact Or.inl (by simpa [Announced, record, setServer] using hm)
  | takeServer hpc hq => exact Or.inl hm
  | @handle m hpc =>
    cases m with
    | loadPlayer d template =>
      rw [Announced, handle_log] at hm
      rcases List.mem_append.mp hm with hm | hm
      · have hcall : Call.pushMessage c (.addDrawable msg) ∈ (s.server.loadPlayer d template).2 := by
          simpa [handleCalls] using hm
        exact Or.inr (.load hpc (LocalServer.add_mem_loadPlayer.mp hcall).2)
      · exact Or.inl (by simpa [Announced] using hm)
    | _ =>
      rw [Announced, handle_log] at hm
      exact Or.inl (by simpa [Announced, handleCalls] using hm)
  | mob hpc =>
    rw [allocPhysical_eq, announced_apply] at hm
    exact Or.inl (hm.resolve_left (by simp))
  | blocker hpc =>
    rw [allocPhysical_eq, announced_apply] at hm
    exact Or.inl (hm.resolve_left (by simp))
  | pushBack hpc => exact Or.inl hm
  | close hpc => exact Or.inl ((announced_apply.mp hm).resolve_left LocalServer.add_not_mem_closeClients)
  | takePhysics hpc hq => exact Or.inl hm
  | parse hpc => exact Or.inl (by rwa [Announced, parse_log] at hm)
  | callbacks hpc => exact Or.inl hm
  | transforms hpc =>
    exact Or.inl ((announced_apply.mp hm).resolve_left LocalServer.add_not_mem_pushClientTransforms)

theorem Made.allocated {id : UInt32} {template : ByteString} (h : s.Made id template) :
    id ∈ s.allocated := by
  obtain ⟨loader, mat, isCharacter, hc⟩ := h
  exact List.mem_filterMap.mpr ⟨_, hc, rfl⟩

theorem Change.made_mono (h : Change order s a s') {id : UInt32} {template : ByteString}
    (hm : s.Made id template) : s'.Made id template := by
  obtain ⟨loader, mat, isCharacter, hc⟩ := hm
  obtain ⟨new, _, he⟩ := h.newCall
  exact ⟨loader, mat, isCharacter, he ▸ List.mem_append_right _ hc⟩

theorem Change.newMade (h : Change order s a s') {id : UInt32} {template : ByteString}
    (hm : s'.Made id template) : s.Made id template ∨ id = s.server.nextId ∧ a = .server ∧ s.Allocates ∧
      ∀ other, s'.Made id other → ¬ s.Made id other → other = template := by
  obtain ⟨loader, mat, isCharacter, hc⟩ := hm
  obtain ⟨new, hn, he⟩ := h.newCall
  rw [he] at hc
  rcases List.mem_append.mp hc with hc | hc
  · obtain rfl : new = some _ := by simpa using hc
    have hother : ∀ other, s'.Made id other → ¬ s.Made id other → other = template := by
      rintro other ⟨l, m, k, hc'⟩ hno
      rw [he] at hc'
      rcases List.mem_append.mp hc' with hc' | hc'
      · simp only [Option.toList_some, List.mem_singleton, Call.addPhysical.injEq] at hc'
        exact hc'.2.2.1
      · exact absurd ⟨l, m, k, hc'⟩ hno
    cases hn with
    | load hpc => exact Or.inr ⟨rfl, rfl, by simp [Allocates, ServerPc.allocates, hpc], hother⟩
    | world ha hpc => exact Or.inr ⟨rfl, rfl, ha, hother⟩
  · exact Or.inl ⟨loader, mat, isCharacter, hc⟩

/-- An object has one template, the players and the baddies of the registry
have theirs, and the notices go by it. -/
structure Labelled (s : GameServer) : Prop where
  nonzero : ∀ id template, s.Made id template → id ≠ 0
  unique : ∀ id template other, s.Made id template → s.Made id other → template = other
  player : ∀ c id, s.server.clients.find? c = some id → id ≠ 0 → ∃ template, s.Made id template ∧
    s.Announced c ⟨id, template⟩
  baddie : ∀ b, (b ∈ s.server.baddies ∨ ∃ todo, s.serverPc = .pushBack b todo) → s.Made b.id b.templ
  announced : ∀ c msg, s.Announced c msg →
    (msg.objid = 0 ∧ msg.template = playerTemplate) ∨ s.Made msg.objid msg.template

theorem labelled_init (playerSpawn : Mat4) (world : List WorldEntry) : (init playerSpawn world).Labelled where
  nonzero id template hm := by simp [Made, init, physicalCalls] at hm
  unique id template other hm := by simp [Made, init, physicalCalls] at hm
  player c id hf := by cases hf
  baddie b hb := by rcases hb with hb | ⟨_, hb⟩ <;> cases hb
  announced c msg hm := by simp [Announced, init] at hm

theorem Labelled.agree (hl : s.Labelled) : s.TemplatesAgree := by
  intro c d msg msg' hm hm' hid
  rcases hl.announced c msg hm with ⟨hz, ht⟩ | hmade
  · rcases hl.announced d msg' hm' with ⟨_, ht'⟩ | hmade'
    · rw [ht, ht']
    · exact absurd (hid ▸ hz) (hl.nonzero _ _ hmade')
  · rcases hl.announced d msg' hm' with ⟨hz, _⟩ | hmade'
    · exact absurd (hid ▸ hz) (hl.nonzero _ _ hmade)
    · exact hl.unique _ _ _ hmade (hid ▸ hmade')

theorem made_load {d : ClientPtr} {template : ByteString} (h : Change order s .server s')
    (hpc : s.serverPc = .handling (.loadPlayer d template)) : s'.Made s.server.nextId template := by
  obtain ⟨new, hn, he⟩ := h.newCall
  cases hn with
  | none hload => exact absurd hpc (hload d template rfl)
  | @load c t hpc' =>
    rw [hpc] at hpc'
    cases hpc'
    exact ⟨some d, s.server.playerSpawn, true, he ▸ List.mem_cons_self⟩
  | world _ hno => exact absurd hpc (hno d template)

theorem announced_load {c : ClientPtr} {template : ByteString} (hs : step order s .server = some s')
    (hpc : s.serverPc = .handling (.loadPlayer c template)) : s'.Announced c ⟨s.server.nextId, template⟩ := by
  rw [step_handling hpc hs, Announced, handle_log]
  have hkey : c ∈ (s.server.loadPlayer c template).1.clients.keys :=
    StdMap.mem_keys.mpr ⟨(s.server.clients.find? c).getD s.server.nextId,
      by simp [LocalServer.loadPlayer, LocalServer.getNextIdentifier]⟩
  have hcall := LocalServer.add_mem_loadPlayer.mpr
    ⟨hkey, (rfl : (⟨s.server.nextId, template⟩ : ClientAddObjectMsg) = _)⟩
  exact List.mem_append_left _ (by simpa [handleCalls] using hcall)

/-- An object made in this step has a new id. -/
theorem Change.made_fresh (h : Change order s a s') (hfresh : s.IdsFresh a) {id : UInt32}
    {template : ByteString} (hm : s'.Made id template) (hno : ¬ s.Made id template) :
    id ≠ 0 ∧ (∀ other, ¬ s.Made id other) ∧ ∀ other, s'.Made id other → other = template := by
  obtain ⟨rfl, rfl, ha, hother⟩ := (h.newMade hm).resolve_left hno
  obtain ⟨hz, hfree⟩ := hfresh ha
  have hnone : ∀ other, ¬ s.Made s.server.nextId other := fun other ho => hfree ho.allocated
  exact ⟨hz, hnone, fun other ho => hother other ho (hnone other)⟩

namespace Labelled

theorem unique_step (hl : s.Labelled) (hfresh : s.IdsFresh a) (h : Change order s a s') {id : UInt32}
    {template other : ByteString} (hm : s'.Made id template) (hm' : s'.Made id other) : template = other := by
  by_cases hold : s.Made id template
  · by_cases hold' : s.Made id other
    · exact hl.unique id template other hold hold'
    · have hnone := (h.made_fresh hfresh hm' hold').2.1
      exact absurd hold (hnone template)
  · have hsame := (h.made_fresh hfresh hm hold).2.2
    exact (hsame other hm').symm

theorem player_step (hl : s.Labelled) (hs : step order s a = some s') {c : ClientPtr} {id : UInt32}
    (hf : s'.server.clients.find? c = some id) (hz : id ≠ 0) :
    ∃ template, s'.Made id template ∧ s'.Announced c ⟨id, template⟩ := by
  have h := (step_change hs).2
  rcases h.value_cases hf hz with hf | ⟨rfl, _, _, _, rfl, template, hpc⟩
  · obtain ⟨template, hm, ha⟩ := hl.player c id hf hz
    exact ⟨template, h.made_mono hm, h.log_mono ha⟩
  · exact ⟨template, made_load h hpc, announced_load hs hpc⟩

theorem baddie_step (hl : s.Labelled) (h : Change order s a s') {b : BaddieData}
    (hb : b ∈ s'.server.baddies ∨ ∃ todo, s'.serverPc = .pushBack b todo) : s'.Made b.id b.templ := by
  rcases h.baddie_cases hb with hold | ⟨_, _, mat, hcall, _⟩
  · exact h.made_mono (hl.baddie b hold)
  · exact ⟨none, mat, true, hcall⟩

theorem announced_step (hl : s.Labelled) (hok : s.StockPlayers a) (h : Change order s a s')
    (hm : s'.Announced c msg) :
    (msg.objid = 0 ∧ msg.template = playerTemplate) ∨ s'.Made msg.objid msg.template := by
  rcases h.newAnnouncement hm with hm | hn
  · exact (hl.announced c msg hm).imp_right h.made_mono
  · cases hn with
    | player hf ht =>
      by_cases hz : msg.objid = 0
      · exact Or.inl ⟨hz, ht⟩
      · obtain ⟨template, hmade, _⟩ := hl.player _ _ hf hz
        have hstock : template = playerTemplate := hok _ _ hf template hmade
        rw [ht, ← hstock]
        exact Or.inr (h.made_mono hmade)
    | baddie hb he =>
      rw [he]
      exact Or.inr (h.made_mono (hl.baddie _ (Or.inl hb)))
    | load hpc he =>
      rw [he]
      exact Or.inr (made_load h hpc)

end Labelled

theorem step_labelled (hl : s.Labelled) (hfresh : s.IdsFresh a) (hok : s.StockPlayers a)
    (hs : step order s a = some s') : s'.Labelled := by
  have h := (step_change hs).2
  refine ⟨fun id template hm => ?_, fun id template other hm hm' => hl.unique_step hfresh h hm hm',
    fun c id hf hz => hl.player_step hs hf hz, fun b hb => hl.baddie_step h hb,
    fun c msg hm => hl.announced_step hok h hm⟩
  by_cases hold : s.Made id template
  · exact hl.nonzero id template hold
  · exact (h.made_fresh hfresh hm hold).1

theorem not_agree_of_not_stock (hl : s.Labelled) (hno : ¬ s.StockPlayers a)
    (hs : step order s a = some s') : ¬ s'.TemplatesAgree := by
  have h := (step_change hs).2
  cases a with
  | addClient c =>
    obtain ⟨d, id, hf, template, hmade, hne⟩ : ∃ d id, s.server.clients.find? d = some id ∧
        ∃ template, s.Made id template ∧ template ≠ playerTemplate := by
      simpa [StockPlayers] using hno
    obtain ⟨template', hmade', ha⟩ := hl.player d id hf (hl.nonzero id template hmade)
    obtain rfl := hl.unique id template template' hmade hmade'
    intro hagree
    have hjoin : s'.Announced c ⟨id, playerTemplate⟩ := by
      cases h with
      | addClient hc hnew =>
        refine announced_apply.mpr (Or.inl ?_)
        exact LocalServer.add_mem_addClient.mpr ⟨rfl, Or.inl ⟨⟨d, hf⟩, rfl⟩⟩
    exact hne (hagree d c _ _ (h.log_mono ha) hjoin rfl)
  | _ => exact absurd trivial hno

/-- While ids are fresh, the notices agree precisely in the runs in which
nobody joins while a player of another template is there. -/
theorem templates_agree_iff (order : PopOrder) (playerSpawn : Mat4) (world : List WorldEntry)
    {as : List Action} (h : Guarded (step order) IdsFresh (init playerSpawn world) as) :
    Along (step order) TemplatesAgree (init playerSpawn world) as ↔
      Guarded (step order) StockPlayers (init playerSpawn world) as := by
  refine along_iff_guarded_of (fun s : GameServer => s.OwnIds ∧ s.Labelled) (fun s hs => hs.2.agree) ?_ ?_
    ⟨ownIds_init playerSpawn world, labelled_init playerSpawn world⟩ h
  · rintro s a s' ⟨ho, hl⟩ hfresh hok hs
    exact ⟨(step_change hs).2.ownIds ho hfresh, step_labelled hl hfresh hok hs⟩
  · rintro s a s' ⟨_, hl⟩ _ hno hs
    exact not_agree_of_not_stock hl hno hs

theorem templates_agree_iff_late_joiner : Along (step .lifo) TemplatesAgree (init zeroMat [])
    [.server, .addClient 1, .pushMessage (.loadPlayer 1 playerTemplate), .server, .server, .addClient 2] :=
  (templates_agree_iff .lifo zeroMat [] (by decide)).mpr (by decide)

/-- A client joins after another has loaded a player of its own template. -/
theorem not_templates_agree_late_joiner : ¬ ∀ playerSpawn world as,
    Along (step .lifo) TemplatesAgree (init playerSpawn world) as := by
  intro h
  let as : List Action := [.server, .addClient 1, .pushMessage (.loadPlayer 1 [80]), .server, .server,
    .addClient 2]
  have hrun : (run (step .lifo) (init zeroMat []) as).map (fun s =>
      s.log.contains (.call (.pushMessage 1 (.addDrawable ⟨1, [80]⟩))) &&
      s.log.contains (.call (.pushMessage 2 (.addDrawable ⟨1, playerTemplate⟩)))) = some true := by decide
  obtain ⟨s, hs, he⟩ := Option.map_eq_some_iff.mp hrun
  obtain ⟨h1, h2⟩ : s.Announced 1 ⟨1, [80]⟩ ∧ s.Announced 2 ⟨1, playerTemplate⟩ := by
    simpa [Announced] using he
  exact absurd ((h zeroMat [] as).last hs 1 2 _ _ h1 h2 rfl) (by decide)

end GameServer

end Quintses
