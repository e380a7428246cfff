import Quintses.GameServer

/-! Everything one step of the system can do to the client containers, the
queues, the characters and the log. -/

namespace Quintses

def Call.toPhysics : Call → Option ServerMsg
  | .pushMessage _ _ | .serverClosed _ => none
  | .addPhysical _ id tmp mat true => some (.bullet (.addChar id tmp mat))
  | .addPhysical _ id tmp mat false => some (.bullet (.addPhys id tmp mat))
  | .delPhysical id true => some (.bullet (.delChar id))
  | .delPhysical id false => some (.bullet (.delPhys id))

def ServerPc.hand : ServerPc → List ServerMsg
  | .handling msg => [msg]
  | _ => []

def PhysicsPc.hand : PhysicsPc → List ServerMsg
  | .parsing msg => [msg]
  | _ => []

def ServerPc.late : ServerPc → Bool
  | .closing | .clearing | .done => true
  | _ => false

def BtPhysics.enqueue (order : PopOrder) (p : BtPhysics) (msgs : List ServerMsg) : BtPhysics :=
  { p with msgQueue := msgs.foldl order.add p.msgQueue }

theorem BtPhysics.enqueue_nil (order : PopOrder) (p : BtPhysics) : p.enqueue order [] = p := rfl

namespace GameServer

def performed (order : PopOrder) (s : GameServer) (calls : List Call) : GameServer :=
  { s with
    log := (calls.map Event.call).reverse ++ s.log
    physics := if s.physicsDeleted then s.physics else s.physics.enqueue order (calls.filterMap Call.toPhysics)
    fault := if s.physicsDeleted ∧ calls.filterMap Call.toPhysics ≠ [] then some .deletedPhysics else s.fault }

variable {order : PopOrder} {s s' : GameServer}

theorem perform_eq (call : Call) : s.perform order call = s.performed order [call] := by
  cases hd : s.physicsDeleted with
  | true =>
    cases call with
    | pushMessage c msg => simp [perform, performed, record, hd, Call.toPhysics]
    | serverClosed c => simp [perform, performed, record, hd, Call.toPhysics]
    | addPhysical loader id tmp mat isCharacter =>
      cases isCharacter <;> simp [perform, performed, record, onPhysics, hd, Call.toPhysics]
    | delPhysical id isCharacter =>
      cases isCharacter <;> simp [perform, performed, record, onPhysics, hd, Call.toPhysics]
  | false =>
    cases call with
    | pushMessage c msg =>
      simp only [perform, performed, record, hd, Bool.false_eq_true, if_false, false_and]
      rfl
    | serverClosed c =>
      simp only [perform, performed, record, hd, Bool.false_eq_true, if_false, false_and]
      rfl
    | addPhysical loader id tmp mat isCharacter =>
      cases isCharacter <;> simp [perform, performed, record, onPhysics, hd, Call.toPhysics,
        BtPhysics.enqueue, BtPhysics.addPhysical, BtPhysics.pushMessage]
    | delPhysical id isCharacter =>
      cases isCharacter <;> simp [perform, performed, record, onPhysics, hd, Call.toPhysics,
        BtPhysics.enqueue, BtPhysics.delPhysical, BtPhysics.pushMessage]

theorem performed_append (calls calls' : List Call) :
    (s.performed order calls).performed order calls' = s.performed order (calls ++ calls') := by
  cases hd : s.physicsDeleted with
  | true =>
    by_cases hc : calls'.filterMap Call.toPhysics = []
    · simp [performed, hd, hc]
    · simp [performed, hd, hc]
  | false => simp [performed, hd, BtPhysics.enqueue]

theorem foldl_perform_eq (calls : List Call) : calls.foldl (perform order) s = s.performed order calls := by
  induction calls generalizing s with
  | nil => simp [performed, BtPhysics.enqueue_nil]
  | cons call calls ih => rw [List.foldl_cons, ih, perform_eq, performed_append, List.singleton_append]

theorem apply_eq (r : LocalServer × List Call) :
    s.apply order r = { s with server := r.1 }.performed order r.2 := foldl_perform_eq r.2

theorem apply_server (r : LocalServer × List Call) : (s.apply order r).server = r.1 := by
  simp [apply_eq, performed]

theorem apply_serverPc (r : LocalServer × List Call) : (s.apply order r).serverPc = s.serverPc := by
  rw [apply_eq, performed]

theorem apply_physicsPc (r : LocalServer × List Call) : (s.apply order r).physicsPc = s.physicsPc := by
  rw [apply_eq, performed]

theorem apply_characters (r : LocalServer × List Call) :
    (s.apply order r).physics.characters = s.physics.characters := by
  simp only [apply_eq, performed]
  split <;> rfl

theorem apply_log (r : LocalServer × List Call) :
    (s.apply order r).log = (r.2.map Event.call).reverse ++ s.log := by
  simp [apply_eq, performed]

theorem apply_fault (r : LocalServer × List Call) :
    (s.apply order r).fault = s.fault ∨ (s.apply order r).fault = some .deletedPhysics := by
  simp only [apply_eq, performed]
  split
  · exact Or.inr rfl
  · exact Or.inl rfl

theorem allocPhysical_eq (templ : ByteString) (mat : Mat4) (isCharacter : Bool) :
    s.allocPhysical order templ mat isCharacter = s.apply order (s.server.getNextIdentifier.2,
      [.addPhysical none s.server.nextId templ mat isCharacter]) := rfl

theorem parse_error {msg : ServerMsg} {e : Fault} (h : s.physics.parseMessage msg s.server = .error e) :
    s.parse msg = { s with fault := some e } := by
  rw [parse, h]

theorem parse_ok {msg : ServerMsg} {srv : LocalServer} {p : BtPhysics}
    (h : s.physics.parseMessage msg s.server = .ok (srv, p)) :
    s.parse msg = { s.gotoPhysics .draining with server := srv, physics := p } := by
  rw [parse, h]

theorem parse_input (s : GameServer) (sender : ClientPtr) (state : UInt16) :
    s.parse (.input sender state) = { s.gotoPhysics .draining with
      server := (s.server.getClientId sender).2
      physics := s.physics.setInputStateCallback (s.server.getClientId sender).1 state } := rfl

theorem parse_bullet_ok {msg : BulletInternalMsg} {p : BtPhysics} (h : s.physics.parseBullet msg = .ok p) :
    s.parse (.bullet msg) = { s.gotoPhysics .draining with physics := p } := by
  simp [parse, BtPhysics.parseMessage, h, Except.map, gotoPhysics]

theorem parse_bullet_error {msg : BulletInternalMsg} {e : Fault}
    (h : s.physics.parseBullet msg = .error e) : s.parse (.bullet msg) = { s with fault := some e } := by
  simp [parse, BtPhysics.parseMessage, h, Except.map]

/-- A step that touches none of what the results below are about. -/
structure Quiet (s s' : GameServer) : Prop where
  clients : s'.server.clients = s.server.clients
  lobbyClients : s'.server.lobbyClients = s.server.lobbyClients
  baddies : s'.server.baddies = s.server.baddies
  nextId : s'.server.nextId = s.server.nextId
  serverQueue : s'.server.msgQueue = s.server.msgQueue
  serverHand : s'.serverPc.hand = s.serverPc.hand
  physicsQueue : s'.physics.msgQueue = s.physics.msgQueue
  physicsHand : s'.physicsPc.hand = s.physicsPc.hand
  characters : s'.physics.characters = s.physics.characters
  log : s'.log = s.log
  fault : s'.fault = s.fault
  baddie : ∀ b todo, s'.serverPc = .pushBack b todo → s.serverPc = .pushBack b todo
  late : (s.physicsDeleted = true → s.serverPc.late = true) →
    s'.physicsDeleted = true → s'.serverPc.late = true

inductive Change (order : PopOrder) (s : GameServer) : Action → GameServer → Prop
  | quietServer {s' : GameServer} (h : Quiet s s') (hpc : ∀ msg, s.serverPc ≠ .handling msg) :
    Change order s .server s'
  | quietPhysics {s' : GameServer} {mats : List Mat4} (h : Quiet s s') : Change order s (.physics mats) s'
  | addClient {c : ClientPtr} (hc : c ≠ 0) (hnew : .addClient c ∉ s.log) :
    Change order s (.addClient c) ((s.record (.addClient c)).apply order (s.server.addClient c))
  | removeClient {c : ClientPtr} (hc : .addClient c ∈ s.log) :
    Change order s (.removeClient c) ((s.apply order (s.server.removeClient c)).record (.removeClient c))
  | receive {msg : ServerMsg} (h : s.Pushable msg) :
    Change order s (.pushMessage msg) ((s.record (.received msg)).setServer (fun srv =>
      { srv with msgQueue := order.add srv.msgQueue msg }))
  | takeServer {msg : ServerMsg} {rest : List ServerMsg} (hpc : s.serverPc = .waiting)
    (hq : s.server.msgQueue = msg :: rest) :
    Change order s .server ((s.goto (.handling msg)).setServer (fun srv => { srv with msgQueue := rest }))
  | handle {msg : ServerMsg} (hpc : s.serverPc = .handling msg) :
    Change order s .server (s.handle order msg)
  | mob {templ : ByteString} {mat : Mat4} {todo : List WorldEntry}
    (hpc : s.serverPc = .loading (.mob templ mat :: todo)) :
    Change order s .server
      ((s.goto (.pushBack ⟨templ, s.server.nextId⟩ todo)).allocPhysical order templ mat true)
  | blocker {templ : ByteString} {mat : Mat4} {todo : List WorldEntry}
    (hpc : s.serverPc = .loading (.blocker templ mat :: todo)) :
    Change order s .server ((s.goto (.loading todo)).allocPhysical order templ mat false)
  | pushBack {b : BaddieData} {todo : List WorldEntry} (hpc : s.serverPc = .pushBack b todo) :
    Change order s .server
      ((s.goto (.loading todo)).setServer (fun srv => { srv with baddies := srv.baddies ++ [b] }))
  | close (hpc : s.serverPc = .closing) :
    Change order s .server ((s.goto .clearing).apply order (s.server, s.server.closeClients))
  | takePhysics {msg : ServerMsg} {rest : List ServerMsg} {mats : List Mat4}
    (hpc : s.physicsPc = .draining) (hq : s.physics.msgQueue = msg :: rest) :
    Change order s (.physics mats)
      ((s.gotoPhysics (.parsing msg)).setPhysics (fun p => { p with msgQueue := rest }))
  | parse {msg : ServerMsg} {mats : List Mat4} (hpc : s.physicsPc = .parsing msg) :
    Change order s (.physics mats) (s.parse msg)
  | callbacks {ct : ClientTransList} {mats : List Mat4} (hpc : s.physicsPc = .callbacks ct) :
    Change order s (.physics mats) { s.gotoPhysics (.transforms ct) with
      server := s.server.runTickCallbacks.1
      physics := s.server.runTickCallbacks.2.1.foldl
        (fun p id => p.setInputStateCallback id s.server.runTickCallbacks.2.2) s.physics }
  | transforms {ct : ClientTransList} {mats : List Mat4} (hpc : s.physicsPc = .transforms ct) :
    Change order s (.physics mats)
      ((s.gotoPhysics .loopHead).apply order (s.server, s.server.pushClientTransforms ct))

theorem cleanUp_fields (p : BtPhysics) : p.cleanUp.msgQueue = p.msgQueue ∧
    p.cleanUp.characters = p.characters := by
  have hchars (l : List CharacterObject) (q : BtPhysics) :
      (l.foldl BtPhysics.freeCharacter q).msgQueue = q.msgQueue ∧
      (l.foldl BtPhysics.freeCharacter q).characters = q.characters := by
    induction l generalizing q with
    | nil => exact ⟨rfl, rfl⟩
    | cons x xs ih => exact ih (q.freeCharacter x)
  have hobjs (l : List PhysicsObject) (q : BtPhysics) :
      (l.foldl BtPhysics.freeObject q).msgQueue = q.msgQueue ∧
      (l.foldl BtPhysics.freeObject q).characters = q.characters := by
    induction l generalizing q with
    | nil => exact ⟨rfl, rfl⟩
    | cons x xs ih => exact ih (q.freeObject x)
  have hc := hchars p.characters.values p
  have ho := hobjs (p.characters.values.foldl BtPhysics.freeCharacter p).objects.values
    (p.characters.values.foldl BtPhysics.freeCharacter p)
  exact ⟨ho.1.trans hc.1, ho.2.trans hc.2⟩

theorem stepServer_change (h : s.stepServer order = some s') : Change order s .server s' := by
  unfold stepServer at h
  split at h
  case h_1 hpc =>
    cases h
    refine .quietServer ?_ (by simp [hpc])
    constructor <;> simp [goto, hpc, ServerPc.hand, ServerPc.late]
  case h_2 spawn todo hpc =>
    cases h
    refine .quietServer ?_ (by simp [hpc])
    constructor <;> simp [goto, setServer, hpc, ServerPc.hand, ServerPc.late]
  case h_3 templ mat todo hpc => cases h; exact .mob hpc
  case h_4 templ mat todo hpc => cases h; exact .blocker hpc
  case h_5 b todo hpc => cases h; exact .pushBack hpc
  case h_6 hpc =>
    split at h
    · cases h
    · cases h
      exact .takeServer hpc ‹_›
  case h_7 msg hpc => cases h; exact .handle hpc
  case h_8 hpc =>
    cases h
    refine .quietServer ?_ (by simp [hpc])
    constructor <;> simp [goto, setPhysics, hpc, ServerPc.hand, ServerPc.late]
  case h_9 hpc =>
    split at h
    · cases h
      refine .quietServer ?_ (by simp [hpc])
      constructor <;> simp [goto, hpc, ServerPc.hand, ServerPc.late]
    · cases h
  case h_10 hpc =>
    cases h
    refine .quietServer ?_ (by simp [hpc])
    constructor <;> simp [goto, hpc, ServerPc.hand, ServerPc.late]
  case h_11 hpc => cases h; exact .close hpc
  case h_12 hpc =>
    cases h
    refine .quietServer ?_ (by simp [hpc])
    constructor <;> simp [goto, setServer, hpc, ServerPc.hand, ServerPc.late]
  case h_13 hpc => cases h

theorem stepPhysics_change {mats : List Mat4} (h : s.stepPhysics order mats = some s') :
    Change order s (.physics mats) s' := by
  unfold stepPhysics at h
  split at h
  case h_1 hpc =>
    cases h
    refine .quietPhysics ?_
    by_cases hf : s.physics.finish = true <;>
      constructor <;> simp [gotoPhysics, hpc, hf, PhysicsPc.hand]
  case h_2 hpc =>
    split at h
    · cases h; exact .takePhysics hpc ‹_›
    · split at h
      · cases h; exact .quietPhysics (by constructor <;> simp [gotoPhysics, hpc, PhysicsPc.hand])
      · cases h
  case h_3 msg hpc => cases h; exact .parse hpc
  case h_4 ct hpc => cases h; exact .callbacks hpc
  case h_5 ct hpc => cases h; exact .transforms hpc
  case h_6 hpc =>
    cases h
    refine .quietPhysics ?_
    constructor <;> simp [gotoPhysics, setPhysics, hpc, PhysicsPc.hand, cleanUp_fields]
  case h_7 hpc => cases h

theorem step_change {a : Action} (h : step order s a = some s') :
    s.fault = none ∧ Change order s a s' := by
  cases hf : s.fault with
  | some e => simp [step, hf] at h
  | none =>
    refine ⟨rfl, ?_⟩
    simp only [step, hf, Option.isSome_none, Bool.false_eq_true, if_false] at h
    cases a with
    | addClient c =>
      by_cases hc : c = 0 ∨ .addClient c ∈ s.log
      · simp [hc] at h
      · obtain rfl : _ = s' := by simpa [hc] using h
        exact .addClient (fun he => hc (Or.inl he)) (fun he => hc (Or.inr he))
    | removeClient c =>
      by_cases hc : .addClient c ∈ s.log
      · obtain rfl : _ = s' := by simpa [hc] using h
        exact .removeClient hc
      · simp [hc] at h
    | pushMessage msg =>
      by_cases hm : s.Pushable msg
      · obtain rfl : _ = s' := by simpa [hm] using h
        exact .receive hm
      · simp [hm] at h
    | server => exact stepServer_change h
    | physics mats => exact stepPhysics_change h

theorem step_handling {msg : ServerMsg} (hpc : s.serverPc = .handling msg)
    (h : step order s .server = some s') : s' = s.handle order msg := by
  cases hf : s.fault with
  | some e => simp [step, hf] at h
  | none => simpa [step, hf, stepServer, hpc, eq_comm] using h

theorem step_parsing {msg : ServerMsg} {mats : List Mat4} (hpc : s.physicsPc = .parsing msg)
    (h : step order s (.physics mats) = some s') : s' = s.parse msg := by
  cases hf : s.fault with
  | some e => simp [step, hf] at h
  | none => simpa [step, hf, stepPhysics, hpc, eq_comm] using h

theorem step_draining {msg : ServerMsg} {rest : List ServerMsg} {mats : List Mat4}
    (hpc : s.physicsPc = .draining) (hq : s.physics.msgQueue = msg :: rest)
    (h : step order s (.physics mats) = some s') :
    s' = (s.gotoPhysics (.parsing msg)).setPhysics (fun p => { p with msgQueue := rest }) := by
  cases hf : s.fault with
  | some e => simp [step, hf] at h
  | none => simpa [step, hf, stepPhysics, hpc, hq, eq_comm] using h

end GameServer

end Quintses
