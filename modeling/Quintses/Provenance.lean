import Quintses.ServerSteps

/-! Every client that the server knows, calls or has a message of has been added
before. -/

namespace Quintses

def Call.target : Call → Option ClientPtr
  | .pushMessage c _ => some c
  | .serverClosed c => some c
  | .addPhysical _ _ _ _ _ => none
  | .delPhysical _ _ => none

namespace LocalServer

def Known (srv : LocalServer) (c : ClientPtr) : Prop :=
  (∃ id, srv.clients.find? c = some id) ∨ ∃ u, srv.lobbyClients.find? c = some u

theorem target_tell {cs : List ClientPtr} {msg : ClientMsg} {call : Call} (h : call ∈ tell cs msg)
    {c : ClientPtr} (hc : call.target = some c) : c ∈ cs := by
  obtain ⟨d, hd, rfl⟩ := List.mem_map.mp h
  exact Option.some.inj hc ▸ hd

variable {srv : LocalServer} {call : Call} {c d : ClientPtr}

theorem target_addClient (h : call ∈ (srv.addClient c).2) (hd : call.target = some d) : d = c := by
  rcases List.mem_append.mp h with h | h
  · obtain ⟨i, _, rfl⟩ := List.mem_map.mp h
    exact (Option.some.inj hd).symm
  · obtain ⟨i, _, rfl⟩ := List.mem_map.mp h
    exact (Option.some.inj hd).symm

theorem target_removeClient (h : call ∈ (srv.removeClient c).2) (hd : call.target = some d) :
    (srv.removeClient c).1.Known d := by
  simp only [removeClient] at h
  split at h
  · rcases List.mem_cons.mp h with rfl | h
    · cases hd
    · rcases List.mem_append.mp h with h | h
      · exact Or.inl (StdMap.mem_keys.mp (target_tell h hd))
      · exact Or.inr (StdMap.mem_keys.mp (target_tell h hd))
  · cases h

theorem target_loadPlayer {template : ByteString} (h : call ∈ (srv.loadPlayer c template).2)
    (hd : call.target = some d) : (srv.loadPlayer c template).1.Known d := by
  rcases List.mem_cons.mp h with rfl | h
  · cases hd
  · exact Or.inl (StdMap.mem_keys.mp (target_tell h hd))

theorem target_pushClientTransforms {trans : ClientTransList}
    (h : call ∈ srv.pushClientTransforms trans) (hd : call.target = some d) : srv.Known d := by
  obtain ⟨i, _, h⟩ := List.mem_flatMap.mp h
  rcases List.mem_append.mp h with h | h
  · exact Or.inl (StdMap.mem_keys.mp (target_tell h hd))
  · exact Or.inr (StdMap.mem_keys.mp (target_tell h hd))

theorem target_closeClients (h : call ∈ srv.closeClients) (hd : call.target = some d) :
    srv.Known d := by
  rcases List.mem_append.mp h with h | h
  · obtain ⟨e, he, rfl⟩ := List.mem_map.mp h
    exact Or.inl (StdMap.mem_keys.mp (Option.some.inj hd ▸ he))
  · obtain ⟨e, he, rfl⟩ := List.mem_map.mp h
    exact Or.inr (StdMap.mem_keys.mp (Option.some.inj hd ▸ he))

def SameEntry (srv srv' : LocalServer) (c : ClientPtr) : Prop :=
  srv'.clients.find? c = srv.clients.find? c ∧ srv'.lobbyClients.find? c = srv.lobbyClients.find? c

theorem sameEntry_addClient (h : d ≠ c) : SameEntry srv (srv.addClient c).1 d := by
  simp [SameEntry, addClient, h]

theorem sameEntry_removeClient (h : d ≠ c) : SameEntry srv (srv.removeClient c).1 d := by
  simp [SameEntry, removeClient, h]

theorem sameEntry_getClientId (h : d ≠ c) : SameEntry srv (srv.getClientId c).2 d := by
  simp [SameEntry, getClientId, h]

theorem sameEntry_loadPlayer (h : d ≠ c) (template : ByteString) :
    SameEntry srv (srv.loadPlayer c template).1 d := by
  simp [SameEntry, loadPlayer, getNextIdentifier, h]

theorem not_known_removeClient : ¬ (srv.removeClient c).1.Known c := by
  simp [Known, removeClient]

theorem known_getClientId : (srv.getClientId c).2.Known c := by
  simp [Known, getClientId]

theorem known_loadPlayer (template : ByteString) : (srv.loadPlayer c template).1.Known c := by
  simp [Known, loadPlayer, getNextIdentifier]

end LocalServer

namespace GameServer

variable {order : PopOrder} {s s' : GameServer} {a : Action}

theorem parse_log (s : GameServer) (msg : ServerMsg) : (s.parse msg).log = s.log := by
  unfold parse
  split <;> rfl

theorem performed_queue (calls : List Call) (m : ServerMsg) :
    m ∈ (s.performed order calls).physics.msgQueue →
      m ∈ s.physics.msgQueue ∨ m ∈ calls.filterMap Call.toPhysics := by
  cases hd : s.physicsDeleted with
  | true => simpa [performed, hd] using Or.inl
  | false => simp [performed, hd, BtPhysics.enqueue, PopOrder.mem_foldl_add, or_comm]

theorem onPhysics_log (s : GameServer) (f : BtPhysics → BtPhysics) : (s.onPhysics f).log = s.log := by
  unfold onPhysics
  split <;> rfl

def handleCalls (s : GameServer) : ServerMsg → List Call
  | .loadPlayer sender template => (s.server.loadPlayer sender template).2
  | _ => []

theorem handle_log (s : GameServer) (msg : ServerMsg) :
    (s.handle order msg).log = ((s.handleCalls msg).map Event.call).reverse ++ .handled msg :: s.log := by
  cases msg with
  | input sender state => simp [handle, handleCalls, onPhysics_log, goto, record]
  | loadPlayer sender template => simp [handle, handleCalls, apply_log, goto, record]
  | _ => rfl

theorem handle_server (s : GameServer) (msg : ServerMsg) : (s.handle order msg).server =
    match msg with
    | .loadPlayer sender template => (s.server.loadPlayer sender template).1
    | _ => s.server := by
  cases msg with
  | input sender state =>
    simp only [handle, onPhysics]
    split <;> rfl
  | loadPlayer sender template => simp [handle, apply_server, goto, record]
  | _ => rfl

theorem parse_server (s : GameServer) (msg : ServerMsg) : (s.parse msg).server =
    match msg with
    | .input sender _ => (s.server.getClientId sender).2
    | _ => s.server := by
  cases msg with
  | bullet msg =>
    cases h : s.physics.parseBullet msg with
    | error e => rw [parse_bullet_error h]
    | ok p => simp only [parse_bullet_ok h, gotoPhysics]
  | _ => rfl

structure News (s s' : GameServer) (a : Action) (news : List Event) : Prop where
  addClient : ∀ c, .addClient c ∈ news ↔ a = .addClient c
  removeClient : ∀ c, .removeClient c ∈ news ↔ a = .removeClient c
  handled : ∀ msg, .handled msg ∈ news ↔ a = .server ∧ s.serverPc = .handling msg
  /-- A call is made on a client that the server then knows, or is adding. -/
  target : ∀ call c, .call call ∈ news → call.target = some c → s'.server.Known c ∨ a = .addClient c

theorem news_of_calls (calls : List Call) (hadd : ∀ c, a ≠ .addClient c) (hrem : ∀ c, a ≠ .removeClient c)
    (hhandled : a = .server → ∀ msg, s.serverPc ≠ .handling msg)
    (htarget : ∀ call ∈ calls, ∀ c, call.target = some c → s'.server.Known c) :
    News s s' a (calls.map Event.call).reverse where
  addClient c := by simp [hadd c]
  removeClient c := by simp [hrem c]
  handled msg := by simpa using fun he => hhandled he msg
  target call c he hc := Or.inl (htarget call (by simpa using he) c hc)

theorem Change.news (h : Change order s a s') : ∃ news, s'.log = news ++ s.log ∧ News s s' a news := by
  have hquiet (hl : s'.log = s.log) (hadd : ∀ c, a ≠ .addClient c) (hrem : ∀ c, a ≠ .removeClient c)
      (hhandled : a = .server → ∀ msg, s.serverPc ≠ .handling msg) :
      ∃ news, s'.log = news ++ s.log ∧ News s s' a news :=
    ⟨[], hl, news_of_calls [] hadd hrem hhandled (by simp)⟩
  cases h with
  | quietServer h hpc => exact hquiet h.log (by simp) (by simp) (fun _ => hpc)
  | quietPhysics h => exact hquiet h.log (by simp) (by simp) (by simp)
  | @addClient c hc hnew =>
    refine ⟨((s.server.addClient c).2.map Event.call).reverse ++ [.addClient c], ?_, ?_, ?_, ?_, ?_⟩
    · simp [apply_log, record]
    · simp [eq_comm]
    · simp
    · simp
    · intro call d he hd
      have hm : call ∈ (s.server.addClient c).2 := by simpa using he
      exact Or.inr (congrArg Action.addClient (LocalServer.target_addClient hm hd).symm)
  | @removeClient c hc =>
    refine ⟨.removeClient c :: ((s.server.removeClient c).2.map Event.call).reverse, ?_, ?_, ?_, ?_, ?_⟩
    · simp [apply_log, record]
    · simp
    · simp [eq_comm]
    · simp
    · intro call d he hd
      have hm : call ∈ (s.server.removeClient c).2 := by simpa using he
      refine Or.inl ?_
      simpa only [record, apply_server] using LocalServer.target_removeClient hm hd
  | @receive msg h => exact ⟨[.received msg], rfl, by simp, by simp, by simp, by simp⟩
  | takeServer hpc hq => exact hquiet rfl (by simp) (by simp) (by simp [hpc])
  | @handle msg hpc =>
    refine ⟨((s.handleCalls msg).map Event.call).reverse ++ [.handled msg], ?_, ?_, ?_, ?_, ?_⟩
    · simp [handle_log]
    · simp
    · simp
    · simp [hpc, eq_comm]
    · intro call d he hd
      have hm : call ∈ s.handleCalls msg := by simpa using he
      rw [handle_server]
      cases msg with
      | loadPlayer sender template => exact Or.inl (LocalServer.target_loadPlayer hm hd)
      | _ => cases hm
  | mob hpc =>
    refine ⟨_, by simp only [allocPhysical, apply_log, goto]; rfl, news_of_calls _ (by simp) (by simp)
      (by simp [hpc]) ?_⟩
    simp [Call.target]
  | blocker hpc =>
    refine ⟨_, by simp only [allocPhysical, apply_log, goto]; rfl, news_of_calls _ (by simp) (by simp)
      (by simp [hpc]) ?_⟩
    simp [Call.target]
  | pushBack hpc => exact hquiet rfl (by simp) (by simp) (by simp [hpc])
  | close hpc =>
    refine ⟨_, by simp only [apply_log, goto]; rfl, news_of_calls _ (by simp) (by simp) (by simp [hpc]) ?_⟩
    intro call hm c hc
    rw [apply_server]
    exact LocalServer.target_closeClients hm hc
  | takePhysics hpc hq => exact hquiet rfl (by simp) (by simp) (by simp)
  | parse hpc => exact hquiet (parse_log s _) (by simp) (by simp) (by simp)
  | callbacks hpc => exact hquiet rfl (by simp) (by simp) (by simp)
  | transforms hpc =>
    refine ⟨_, by simp only [apply_log, gotoPhysics]; rfl, news_of_calls _ (by simp) (by simp) (by simp) ?_⟩
    intro call hm c hc
    rw [apply_server]
    exact LocalServer.target_pushClientTransforms hm hc

theorem Change.log_mono (h : Change order s a s') {e : Event} (he : e ∈ s.log) : e ∈ s'.log := by
  obtain ⟨news, hl, _⟩ := h.news
  exact hl ▸ List.mem_append_right news he

theorem Change.added_iff (h : Change order s a s') (c : ClientPtr) :
    .addClient c ∈ s'.log ↔ a = .addClient c ∨ .addClient c ∈ s.log := by
  obtain ⟨news, hl, hn⟩ := h.news
  rw [hl, List.mem_append, hn.addClient]

theorem Change.handled_iff (h : Change order s a s') (msg : ServerMsg) :
    .handled msg ∈ s'.log ↔ (a = .server ∧ s.serverPc = .handling msg) ∨ .handled msg ∈ s.log := by
  obtain ⟨news, hl, hn⟩ := h.news
  rw [hl, List.mem_append, hn.handled]

theorem Change.removed_iff (h : Change order s a s') (c : ClientPtr) :
    .removeClient c ∈ s'.log ↔ a = .removeClient c ∨ .removeClient c ∈ s.log := by
  obtain ⟨news, hl, hn⟩ := h.news
  rw [hl, List.mem_append, hn.removeClient]

def serverPending (s : GameServer) : List ServerMsg := s.serverPc.hand ++ s.server.msgQueue

def physicsPending (s : GameServer) : List ServerMsg := s.physicsPc.hand ++ s.physics.msgQueue

theorem toPhysics_bullet {call : Call} {msg : ServerMsg} (h : call.toPhysics = some msg) :
    ∃ b, msg = .bullet b := by
  cases call with
  | pushMessage c m => cases h
  | serverClosed c => cases h
  | addPhysical loader id tmp mat isCharacter => cases isCharacter <;> exact ⟨_, (Option.some.inj h).symm⟩
  | delPhysical id isCharacter => cases isCharacter <;> exact ⟨_, (Option.some.inj h).symm⟩

theorem apply_physicsPending {r : LocalServer × List Call} {msg : ServerMsg}
    (h : msg ∈ (s.apply order r).physicsPending) :
    msg ∈ s.physicsPending ∨ ∃ call ∈ r.2, call.toPhysics = some msg := by
  rw [apply_eq] at h
  rcases List.mem_append.mp h with h | h
  · exact Or.inl (List.mem_append_left _ h)
  · rcases performed_queue r.2 msg h with h | h
    · exact Or.inl (List.mem_append_right _ h)
    · exact Or.inr (by simpa using h)

theorem handle_physicsPending {msg m : ServerMsg} (h : m ∈ (s.handle order msg).physicsPending) :
    m ∈ s.physicsPending ∨ (∃ c state, m = .input c state ∧ m = msg) ∨
      ∃ call ∈ s.handleCalls msg, call.toPhysics = some m := by
  cases msg with
  | input sender state =>
    simp only [handle, onPhysics] at h
    split at h
    · exact Or.inl h
    · simp only [physicsPending, BtPhysics.pushMessage, goto, record, List.mem_append, PopOrder.mem_add] at h ⊢
      rcases h with h | rfl | h
      · exact Or.inl (Or.inl h)
      · exact Or.inr (Or.inl ⟨sender, state, rfl, rfl⟩)
      · exact Or.inl (Or.inr h)
  | loadPlayer sender template => exact (apply_physicsPending h).imp_right Or.inr
  | _ => exact Or.inl h

theorem parse_physicsQueue (s : GameServer) (msg : ServerMsg) :
    (s.parse msg).physics.msgQueue = s.physics.msgQueue := by
  cases msg with
  | bullet msg =>
    cases h : s.physics.parseBullet msg with
    | error e => rw [parse_bullet_error h]
    | ok p =>
      rw [parse_bullet_ok h]
      exact BtPhysics.parseBullet_msgQueue h
  | _ => rfl

theorem parse_physicsPending {msg m : ServerMsg} (hpc : s.physicsPc = .parsing msg)
    (h : m ∈ (s.parse msg).physicsPending) : m ∈ s.physicsPending := by
  rcases List.mem_append.mp h with h | h
  · cases msg with
    | bullet b =>
      cases hp : s.physics.parseBullet b with
      | error e =>
        rw [parse_bullet_error hp] at h
        exact List.mem_append_left _ h
      | ok p =>
        rw [parse_bullet_ok hp] at h
        cases h
    | _ => cases h
  · exact List.mem_append_right _ (parse_physicsQueue s msg ▸ h)

theorem apply_serverPending (r : LocalServer × List Call) :
    (s.apply order r).serverPending = s.serverPc.hand ++ r.1.msgQueue := by
  simp [apply_eq, performed, serverPending]

theorem handle_serverPending (s : GameServer) (msg : ServerMsg) :
    (s.handle order msg).serverPending = s.server.msgQueue := by
  cases msg with
  | input sender state =>
    simp only [handle, onPhysics]
    split <;> rfl
  | loadPlayer sender template => exact apply_serverPending _
  | _ => rfl

theorem Change.serverPending (h : Change order s a s') {m : ServerMsg} (hm : m ∈ s'.serverPending) :
    m ∈ s.serverPending ∨ s.Pushable m ∧ a = .pushMessage m := by
  cases h with
  | quietServer h => exact Or.inl (by simpa [GameServer.serverPending, h.serverHand, h.serverQueue] using hm)
  | quietPhysics h => exact Or.inl (by simpa [GameServer.serverPending, h.serverHand, h.serverQueue] using hm)
  | addClient hc hnew =>
    rw [apply_serverPending] at hm
    exact Or.inl hm
  | @removeClient c hc =>
    have hm' : m ∈ (s.apply order (s.server.removeClient c)).serverPending := hm
    rw [apply_serverPending] at hm'
    exact Or.inl hm'
  | @receive msg h =>
    rcases List.mem_append.mp hm with hm | hm
    · exact Or.inl (List.mem_append_left _ hm)
    · rcases PopOrder.mem_add.mp hm with rfl | hm
      · exact Or.inr ⟨h, rfl⟩
      · exact Or.inl (List.mem_append_right _ hm)
  | takeServer hpc hq =>
    refine Or.inl ?_
    simpa [GameServer.serverPending, goto, setServer, ServerPc.hand, hpc, hq] using hm
  | handle hpc =>
    rw [handle_serverPending] at hm
    exact Or.inl (List.mem_append_right _ hm)
  | mob hpc =>
    rw [allocPhysical_eq, apply_serverPending] at hm
    exact Or.inl (List.mem_append_right _ hm)
  | blocker hpc =>
    rw [allocPhysical_eq, apply_serverPending] at hm
    exact Or.inl (List.mem_append_right _ hm)
  | pushBack hpc => exact Or.inl (List.mem_append_right _ hm)
  | close hpc =>
    rw [apply_serverPending] at hm
    exact Or.inl (List.mem_append_right _ hm)
  | takePhysics hpc hq => exact Or.inl hm
  | @parse msg mats hpc =>
    refine Or.inl ?_
    cases msg with
    | bullet b =>
      cases hp : s.physics.parseBullet b with
      | error e =>
        rw [parse_bullet_error hp] at hm
        exact hm
      | ok p =>
        rw [parse_bullet_ok hp] at hm
        exact hm
    | _ => exact hm
  | callbacks hpc => exact Or.inl hm
  | transforms hpc =>
    rw [apply_serverPending] at hm
    exact Or.inl hm

theorem setInputStates_msgQueue (ids : List UInt32) (state : UInt16) (p : BtPhysics) :
    (ids.foldl (fun p id => p.setInputStateCallback id state) p).msgQueue = p.msgQueue := by
  induction ids generalizing p with
  | nil => rfl
  | cons id ids ih => exact ih (p.setInputStateCallback id state)

theorem Change.physicsPending (h : Change order s a s') {m : ServerMsg} (hm : m ∈ s'.physicsPending) :
    m ∈ s.physicsPending ∨ (∃ c state, m = .input c state ∧ m ∈ s.serverPc.hand) ∨
      ∃ b call, m = .bullet b ∧ call.toPhysics = some m ∧ .call call ∈ s'.log := by
  have hcalls {t : GameServer} {r : LocalServer × List Call} (hm : m ∈ (t.apply order r).physicsPending)
      (ht : t.physicsPending = s.physicsPending) (hlog : ∀ call ∈ r.2, .call call ∈ s'.log) :
      m ∈ s.physicsPending ∨ (∃ c state, m = .input c state ∧ m ∈ s.serverPc.hand) ∨
        ∃ b call, m = .bullet b ∧ call.toPhysics = some m ∧ .call call ∈ s'.log := by
    rcases apply_physicsPending hm with hm | ⟨call, hc, hp⟩
    · exact Or.inl (ht ▸ hm)
    · obtain ⟨b, hb⟩ := toPhysics_bullet hp
      exact Or.inr (Or.inr ⟨b, call, hb, hp, hlog call hc⟩)
  cases h with
  | quietServer h => exact Or.inl (by simpa [GameServer.physicsPending, h.physicsHand, h.physicsQueue] using hm)
  | quietPhysics h => exact Or.inl (by simpa [GameServer.physicsPending, h.physicsHand, h.physicsQueue] using hm)
  | @addClient c hc hnew => exact hcalls hm rfl (fun call hm => by simp [apply_log, hm])
  | @removeClient c hc => exact hcalls hm rfl (fun call hm => by simp [record, apply_log, hm])
  | receive h => exact Or.inl hm
  | takeServer hpc hq => exact Or.inl hm
  | @handle msg hpc =>
    rcases handle_physicsPending hm with hm | ⟨c, state, he, hmsg⟩ | ⟨call, hc, hp⟩
    · exact Or.inl hm
    · exact Or.inr (Or.inl ⟨c, state, he, by simp [hpc, ServerPc.hand, hmsg]⟩)
    · obtain ⟨b, hb⟩ := toPhysics_bullet hp
      exact Or.inr (Or.inr ⟨b, call, hb, hp, by simp [handle_log, hc]⟩)
  | mob hpc =>
    rw [allocPhysical_eq] at hm
    refine hcalls hm rfl (fun call hc => ?_)
    rw [allocPhysical_eq, apply_log]
    simpa using Or.inl hc
  | blocker hpc =>
    rw [allocPhysical_eq] at hm
    refine hcalls hm rfl (fun call hc => ?_)
    rw [allocPhysical_eq, apply_log]
    simpa using Or.inl hc
  | pushBack hpc => exact Or.inl hm
  | close hpc => exact hcalls hm rfl (fun call hm => by simp [apply_log, hm])
  | takePhysics hpc hq =>
    refine Or.inl ?_
    simpa [GameServer.physicsPending, gotoPhysics, setPhysics, PhysicsPc.hand, hpc, hq] using hm
  | parse hpc => exact Or.inl (parse_physicsPending hpc hm)
  | callbacks hpc =>
    refine Or.inl ?_
    simpa [GameServer.physicsPending, gotoPhysics, PhysicsPc.hand, hpc, setInputStates_msgQueue] using hm
  | transforms hpc =>
    refine hcalls hm ?_ (fun call hm => by simp [apply_log, hm])
    simp [GameServer.physicsPending, gotoPhysics, hpc, PhysicsPc.hand]

def SenderAdded (s : GameServer) : ServerMsg → Prop
  | .input sender _ => .addClient sender ∈ s.log
  | .loadPlayer sender _ => .addClient sender ∈ s.log
  | .shutdown _ | .bullet _ => True

theorem Pushable.senderAdded {m : ServerMsg} (h : s.Pushable m) : s.SenderAdded m := by
  cases m with
  | bullet b => trivial
  | shutdown sender => trivial
  | _ => exact h

theorem SenderAdded.mono {m : ServerMsg} (h : s.SenderAdded m) (hlog : ∀ e ∈ s.log, e ∈ s'.log) :
    s'.SenderAdded m := by
  cases m with
  | bullet b => trivial
  | shutdown sender => trivial
  | _ => exact hlog _ h

structure Traced (s : GameServer) : Prop where
  known : ∀ c, s.server.Known c → .addClient c ∈ s.log
  handled : ∀ m, .handled m ∈ s.log → s.SenderAdded m
  removed : ∀ c, .removeClient c ∈ s.log → .addClient c ∈ s.log
  called : ∀ call c, .call call ∈ s.log → call.target = some c → .addClient c ∈ s.log
  serverPending : ∀ m ∈ s.serverPending, s.SenderAdded m
  physicsPending : ∀ m ∈ s.physicsPending, s.SenderAdded m

theorem traced_init (playerSpawn : Mat4) (world : List WorldEntry) : (init playerSpawn world).Traced where
  known c h := by rcases h with ⟨_, h⟩ | ⟨_, h⟩ <;> cases h
  handled := by simp [init]
  removed := by simp [init]
  called := by simp [init]
  serverPending := by simp [init, GameServer.serverPending, ServerPc.hand, LocalServer.new]
  physicsPending := by simp [init, GameServer.physicsPending, PhysicsPc.hand, BtPhysics.new]

theorem Change.sameEntry (h : Change order s a s') (c : ClientPtr) :
    LocalServer.SameEntry s.server s'.server c ∨ a = .addClient c ∨ a = .removeClient c ∨
      (∃ template, a = .server ∧ s.serverPc = .handling (.loadPlayer c template)) ∨
      ∃ mats state, a = .physics mats ∧ s.physicsPc = .parsing (.input c state) := by
  cases h with
  | quietServer h => exact Or.inl ⟨by rw [h.clients], by rw [h.lobbyClients]⟩
  | quietPhysics h => exact Or.inl ⟨by rw [h.clients], by rw [h.lobbyClients]⟩
  | @addClient d hd hnew =>
    by_cases hc : c = d
    · exact Or.inr (Or.inl (congrArg Action.addClient hc.symm))
    · rw [apply_server]
      exact Or.inl (LocalServer.sameEntry_addClient hc)
  | @removeClient d hd =>
    by_cases hc : c = d
    · exact Or.inr (Or.inr (Or.inl (congrArg Action.removeClient hc.symm)))
    · simp only [record, apply_server]
      exact Or.inl (LocalServer.sameEntry_removeClient hc)
  | receive h => exact Or.inl ⟨rfl, rfl⟩
  | takeServer hpc hq => exact Or.inl ⟨rfl, rfl⟩
  | @handle msg hpc =>
    rw [handle_server]
    cases msg with
    | loadPlayer sender template =>
      by_cases hc : c = sender
      · exact Or.inr (Or.inr (Or.inr (Or.inl ⟨template, rfl, hc ▸ hpc⟩)))
      · exact Or.inl (LocalServer.sameEntry_loadPlayer hc template)
    | _ => exact Or.inl ⟨rfl, rfl⟩
  | mob hpc =>
    rw [allocPhysical_eq, apply_server]
    exact Or.inl ⟨rfl, rfl⟩
  | blocker hpc =>
    rw [allocPhysical_eq, apply_server]
    exact Or.inl ⟨rfl, rfl⟩
  | pushBack hpc => exact Or.inl ⟨rfl, rfl⟩
  | close hpc =>
    rw [apply_server]
    exact Or.inl ⟨rfl, rfl⟩
  | takePhysics hpc hq => exact Or.inl ⟨rfl, rfl⟩
  | @parse msg mats hpc =>
    rw [parse_server]
    cases msg with
    | input sender state =>
      by_cases hc : c = sender
      · exact Or.inr (Or.inr (Or.inr (Or.inr ⟨mats, state, rfl, hc ▸ hpc⟩)))
      · exact Or.inl (LocalServer.sameEntry_getClientId hc)
    | _ => exact Or.inl ⟨rfl, rfl⟩
  | callbacks hpc => exact Or.inl ⟨rfl, rfl⟩
  | transforms hpc =>
    rw [apply_server]
    exact Or.inl ⟨rfl, rfl⟩

theorem Change.known (h : Change order s a s') {c : ClientPtr} (hc : s'.server.Known c) :
    s.server.Known c ∨ a = .addClient c ∨
      (∃ template, a = .server ∧ s.serverPc = .handling (.loadPlayer c template)) ∨
      ∃ mats state, a = .physics mats ∧ s.physicsPc = .parsing (.input c state) := by
  rcases h.sameEntry c with hsame | hadd | rfl | hmsg
  · refine Or.inl ?_
    simpa only [LocalServer.Known, hsame.1, hsame.2] using hc
  · exact Or.inr (Or.inl hadd)
  · cases h with
    | removeClient hadd =>
      simp only [record, apply_server] at hc
      exact absurd hc LocalServer.not_known_removeClient
  · exact Or.inr (Or.inr hmsg)

theorem Change.traced (h : Change order s a s') (ht : s.Traced) : s'.Traced := by
  have hlog : ∀ e ∈ s.log, e ∈ s'.log := fun e he => h.log_mono he
  have hknown : ∀ c, s'.server.Known c → .addClient c ∈ s'.log := by
    intro c hc
    rcases h.known hc with hk | rfl | ⟨template, _, hpc⟩ | ⟨_, state, _, hpc⟩
    · exact hlog _ (ht.known c hk)
    · exact (h.added_iff c).mpr (Or.inl rfl)
    · exact hlog _ (ht.serverPending (.loadPlayer c template)
        (by simp [GameServer.serverPending, hpc, ServerPc.hand]))
    · exact hlog _ (ht.physicsPending (.input c state)
        (by simp [GameServer.physicsPending, hpc, PhysicsPc.hand]))
  refine ⟨hknown, ?_, ?_, ?_, ?_, ?_⟩
  · intro m hm
    rcases (h.handled_iff m).mp hm with ⟨_, hpc⟩ | hm
    · exact (ht.serverPending m (by simp [GameServer.serverPending, hpc, ServerPc.hand])).mono hlog
    · exact (ht.handled m hm).mono hlog
  · intro c hc
    rcases (h.removed_iff c).mp hc with rfl | hc
    · cases h with
      | removeClient hadd => exact hlog _ hadd
    · exact hlog _ (ht.removed c hc)
  · intro call c hc htarget
    obtain ⟨news, hl, hn⟩ := h.news
    rw [hl] at hc
    rcases List.mem_append.mp hc with hc | hc
    · rcases hn.target call c hc htarget with hk | rfl
      · exact hknown c hk
      · exact (h.added_iff c).mpr (Or.inl rfl)
    · exact hlog _ (ht.called call c hc htarget)
  · intro m hm
    rcases h.serverPending hm with hm | ⟨hp, _⟩
    · exact (ht.serverPending m hm).mono hlog
    · exact hp.senderAdded.mono hlog
  · intro m hm
    rcases h.physicsPending hm with hm | ⟨c, state, rfl, hm⟩ | ⟨b, _, rfl, _⟩
    · exact (ht.physicsPending m hm).mono hlog
    · exact (ht.serverPending _ (List.mem_append_left _ hm)).mono hlog
    · trivial

end GameServer

end Quintses
