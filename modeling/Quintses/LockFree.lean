import Mathlib.Data.Option.Basic
import Quintses.AtomicObject
import Quintses.SharedQueue

/-! `locklessQueue` seen from outside. Its calls overlap, but each of them acts
at one moment, on a stack. -/

namespace Quintses

open AtomicObject

variable {α : Type}

inductive QueueRequest (α : Type)
  | push (t : α)
  | pop (call : PopCall)

inductive QueueReply (α : Type)
  | pushed
  /-- `none` where `try_pop` returns false. -/
  | popped (o : Option α)

/-- One call on a queue that hands out in this order; `wait_pop` has to wait on
an empty one. -/
def QueueRequest.serve (order : PopOrder) : List α → QueueRequest α → Option (QueueReply α × List α)
  | q, .push t => some (.pushed, order.add q t)
  | [], .pop .tryPop => some (.popped none, [])
  | [], .pop .waitPop => none
  | x :: q, .pop _ => some (.popped (some x), q)

def PushPc.phase : PushPc α → CallPhase (QueueRequest α) (QueueReply α)
  | .idle => .idle
  | .allocate t | .setValue t _ | .readHead t _ | .writeNext t _ _ | .readNext t _ | .swap t _ _ =>
    .called (.push t)

namespace SharedQueue

/-- The consumer is past the moment of its call when its node is off the list. -/
def popPhase (q : SharedQueue α) : CallPhase (QueueRequest α) (QueueReply α) :=
  match q.popping with
  | .idle => .idle
  | .readHead call | .readNext call _ | .swap call _ _ => .called (.pop call)
  | .readValue _ | .delete _ _ => .done (.popped q.inHand.head?)

/-- A pushing thread is `some i`, the consumer `none`. -/
def seen (q : SharedQueue α) (a : QueueAction α) (q' : SharedQueue α) :
    List (CallEvent (Option Nat) (QueueRequest α) (QueueReply α)) :=
  match a with
  | .push i t => [.invoke (some i) (.push t)]
  | .pusher i _ =>
    match q'.pushing i with
    | .idle => [.respond (some i) .pushed]
    | _ => []
  | .pop call => [.invoke none (.pop call)]
  | .consumer => (q'.returned.drop q.returned.length).map (fun o => .respond none (.popped o))

/-- The object is the stack that the history leaves behind. -/
structure Related (q : SharedQueue α)
    (o : AtomicObject (Option Nat) (List α) (QueueRequest α) (QueueReply α)) : Prop where
  linked : ∃ sentinel cells, q.Linked sentinel cells
  state : o.state = PopOrder.lifo.after [] q.history
  pushers : ∀ i, o.phase (some i) = (q.pushing i).phase
  popper : o.phase none = q.popPhase

variable {q q' : SharedQueue α} {o : AtomicObject (Option Nat) (List α) (QueueRequest α) (QueueReply α)}

theorem related_new : (new : SharedQueue α).Related (init []) :=
  ⟨⟨_, _, linked_new⟩, rfl, fun _ => rfl, rfl⟩

theorem Linked.inHand_eq {sentinel sentinel' : QueueItem α} {cells cells' : List (Nat × QueueItem α)}
    (h : q.Linked sentinel cells) (h' : q'.Linked sentinel' cells')
    (houtputs : PopOrder.lifo.outputs [] q'.history = PopOrder.lifo.outputs [] q.history)
    (hreturned : q'.returned = q.returned) : q'.inHand = q.inHand := by
  have hr := houtputs
  rw [h.results, h'.results, hreturned, List.append_cancel_left_eq] at hr
  exact List.map_injective_iff.mpr (Option.some_injective α) hr

theorem popPhase_eq (hpopping : q'.popping = q.popping) (hhand : q'.inHand = q.inHand) :
    q'.popPhase = q.popPhase := by
  simp only [popPhase, hpopping, hhand]

/-- A step inside `push` leaves its call open or ends it with the swap. -/
theorem Linked.stepPusher_cases {sentinel : QueueItem α} {cells : List (Nat × QueueItem α)}
    (h : q.Linked sentinel cells) {i address : Nat} (hs : q.stepPusher i address = some q') :
    q'.popping = q.popping ∧ q'.returned = q.returned ∧ (∀ j, j ≠ i → q'.pushing j = q.pushing j) ∧
      ∃ t, (q.pushing i).phase = .called (.push t) ∧
        (q'.history = q.history ∧ (q'.pushing i).phase = .called (.push t) ∧ q'.pushing i ≠ .idle ∨
          q'.history = q.history ++ [.push t] ∧ q'.pushing i = .idle) := by
  have hgoto (r : SharedQueue α) (pc : PushPc α) (hr : r.pushing = q.pushing) (j : Nat) (hj : j ≠ i) :
      (r.gotoPush i pc).pushing j = q.pushing j := by
    rw [gotoPush_pushing, if_neg hj, hr]
  have hself (r : SharedQueue α) (pc : PushPc α) : (r.gotoPush i pc).pushing i = pc := by
    rw [gotoPush_pushing, if_pos rfl]
  have hfilled := h.filled i
  unfold SharedQueue.stepPusher at hs
  cases hp : q.pushing i with
  | idle => simp [hp] at hs
  | allocate t =>
    simp only [hp] at hs
    split_ifs at hs
    cases hs
    exact ⟨rfl, rfl, hgoto _ _ rfl, t, rfl, Or.inl ⟨rfl, by rw [hself]; rfl, by rw [hself]; simp⟩⟩
  | setValue t item =>
    rw [hp] at hfilled
    obtain ⟨cell, hcell⟩ := hfilled
    simp only [hp, access_of_find? hcell, Option.some.injEq] at hs
    subst hs
    exact ⟨rfl, rfl, hgoto _ _ rfl, t, rfl, Or.inl ⟨rfl, by rw [hself]; rfl, by rw [hself]; simp⟩⟩
  | readHead t item =>
    simp only [hp, access_of_find? h.head, Option.some.injEq] at hs
    subst hs
    exact ⟨rfl, rfl, hgoto _ _ rfl, t, rfl, Or.inl ⟨rfl, by rw [hself]; rfl, by rw [hself]; simp⟩⟩
  | writeNext t item seen =>
    rw [hp] at hfilled
    obtain ⟨next, hcell⟩ := hfilled
    simp only [hp, access_of_find? hcell, Option.some.injEq] at hs
    subst hs
    exact ⟨rfl, rfl, hgoto _ _ rfl, t, rfl, Or.inl ⟨rfl, by rw [hself]; rfl, by rw [hself]; simp⟩⟩
  | readNext t item =>
    rw [hp] at hfilled
    obtain ⟨next, hcell⟩ := hfilled
    simp only [hp, access_of_find? hcell, Option.some.injEq] at hs
    subst hs
    exact ⟨rfl, rfl, hgoto _ _ rfl, t, rfl, Or.inl ⟨rfl, by rw [hself]; rfl, by rw [hself]; simp⟩⟩
  | swap t item old =>
    simp only [hp, compareAndSwap_of_head h, Bool.false_eq_true, if_true, if_false, Option.some.injEq] at hs
    subst hs
    split_ifs with hold
    · exact ⟨rfl, rfl, hgoto _ _ rfl, t, rfl, Or.inr ⟨rfl, hself _ _⟩⟩
    · exact ⟨rfl, rfl, hgoto _ _ rfl, t, rfl, Or.inl ⟨rfl, by rw [hself]; rfl, by rw [hself]; simp⟩⟩

/-- A step of the consumer leaves its call open, gives up on an empty list,
takes the first node off, or returns the value it has taken. -/
theorem Linked.stepConsumer_cases {sentinel : QueueItem α} {cells : List (Nat × QueueItem α)}
    (h : q.Linked sentinel cells) (hs : q.stepConsumer = some q') : q'.pushing = q.pushing ∧
      (q'.history = q.history ∧ q'.returned = q.returned ∧ q'.popPhase = q.popPhase ∨
        q.popPhase = .called (.pop .tryPop) ∧ PopOrder.lifo.after [] q.history = [] ∧
          q'.history = q.history ++ [.tryPop] ∧ q'.returned = q.returned ++ [none] ∧ q'.popping = .idle ∨
        (∃ call t xs, q.popPhase = .called (.pop call) ∧ PopOrder.lifo.after [] q.history = t :: xs ∧
          q'.history = q.history ++ [.tryPop] ∧ q'.returned = q.returned ∧
          q'.popPhase = .done (.popped (some t))) ∨
        ∃ t, q.popPhase = .done (.popped (some t)) ∧ q'.history = q.history ∧
          q'.returned = q.returned ++ [some t] ∧ q'.popping = .idle) := by
  obtain ⟨sentinel', cells', h'⟩ := h.stepConsumer hs
  have hsees := h.sees
  unfold SharedQueue.stepConsumer at hs
  cases hp : q.popping with
  | idle => simp [hp] at hs
  | readHead call =>
    simp only [hp, access_of_find? h.head, Option.some.injEq] at hs
    subst hs
    split_ifs with hnull
    · cases call with
      | tryPop =>
        have hnil : cells = [] := by
          have hc := h.chain
          cases cells with
          | nil => rfl
          | cons c rest => exact absurd hnull hc.2.1
        have hafter : PopOrder.lifo.after [] q.history = [] := by
          have hv := h.values
          rwa [hnil, List.map_nil, eq_comm, List.map_eq_nil_iff] at hv
        exact ⟨rfl, Or.inr (Or.inl ⟨by rw [popPhase, hp], hafter, rfl, rfl, rfl⟩)⟩
      | waitPop => exact ⟨rfl, Or.inl ⟨rfl, rfl, by simp only [popPhase, gotoPop, hp]⟩⟩
    · exact ⟨rfl, Or.inl ⟨rfl, rfl, by simp only [popPhase, gotoPop, hp]⟩⟩
  | readNext call item =>
    rw [hp] at hsees
    obtain ⟨c, hc, hci⟩ := hsees
    have hcell : q.heap.find? item = some c.2 := hci ▸ h.chain.find? hc
    simp only [hp, access_of_find? hcell, Option.some.injEq] at hs
    subst hs
    exact ⟨rfl, Or.inl ⟨rfl, rfl, by simp only [popPhase, gotoPop, hp]⟩⟩
  | swap call item next =>
    have hnone : q.popping.item? = none := by rw [hp]; rfl
    simp only [hp, compareAndSwap_of_head h, Bool.false_eq_true, if_true, if_false, Option.some.injEq] at hs
    subst hs
    split_ifs at h' ⊢ with hitem
    · obtain ⟨d, rest, rfl, -, -⟩ := h.first hp hitem
      obtain ⟨t, xs, hafter, -, -⟩ := h.after_cons
      have hhand : (((q.swapHead sentinel next).record .tryPop).gotoPop (.readValue item)).inHand = [t] := by
        have hr := h'.results
        have hout : PopOrder.lifo.outputs [] (q.history ++ [.tryPop]) = q.returned ++ [some t] := by
          rw [PopOrder.outputs_append, h.outputs_eq hnone, hafter]
          rfl
        have hmap : (((q.swapHead sentinel next).record .tryPop).gotoPop (.readValue item)).inHand.map some =
            [t].map some := List.append_cancel_left (hr.symm.trans hout)
        exact List.map_injective_iff.mpr (Option.some_injective α) hmap
      have hphase : (((q.swapHead sentinel next).record .tryPop).gotoPop (.readValue item)).popPhase =
          .done (.popped (some t)) := by
        simp only [popPhase, gotoPop] at hhand ⊢
        rw [hhand]
        rfl
      exact ⟨rfl, Or.inr (Or.inr (Or.inl ⟨call, t, xs, by rw [popPhase, hp], hafter, rfl, rfl, hphase⟩))⟩
    · exact ⟨rfl, Or.inl ⟨rfl, rfl, by simp only [popPhase, gotoPop, hp]⟩⟩
  | readValue item =>
    rw [hp] at hsees
    obtain ⟨t, next, hcell⟩ := hsees
    simp only [hp, access_of_find? hcell, Option.some.injEq] at hs
    subst hs
    have hhand := h.inHand_eq h' rfl rfl
    refine ⟨rfl, Or.inl ⟨rfl, rfl, ?_⟩⟩
    simp only [popPhase, hp, hhand]
    rfl
  | delete item t =>
    rw [hp] at hsees
    obtain ⟨cell, hcell⟩ := hsees
    simp only [hp, access_of_find? hcell, Option.some.injEq] at hs
    subst hs
    refine ⟨rfl, Or.inr (Or.inr (Or.inr ⟨t, ?_, rfl, rfl, rfl⟩))⟩
    simp only [popPhase, inHand, hp]
    rfl

/-- What is left to show of a step of pushing thread `i`. -/
theorem Related.of_pusher {i : Nat} {s : List α} {p : CallPhase (QueueRequest α) (QueueReply α)}
    (h : q.Related o) (hlinked : ∃ sentinel cells, q'.Linked sentinel cells)
    (hstate : s = PopOrder.lifo.after [] q'.history) (hother : ∀ j, j ≠ i → q'.pushing j = q.pushing j)
    (hphase : p = (q'.pushing i).phase) (hpop : q'.popPhase = q.popPhase) :
    q'.Related ({ o with state := s }.goto (some i) p) := by
  refine ⟨hlinked, hstate, fun j => ?_, ?_⟩
  · by_cases hj : j = i
    · subst hj
      rw [phase_goto, if_pos rfl, hphase]
    · rw [phase_goto, if_neg (by simpa using hj), hother j hj]
      exact h.pushers j
  · rw [phase_goto, if_neg (by simp), hpop]
    exact h.popper

theorem Related.of_popper {s : List α} {p : CallPhase (QueueRequest α) (QueueReply α)} (h : q.Related o)
    (hlinked : ∃ sentinel cells, q'.Linked sentinel cells) (hstate : s = PopOrder.lifo.after [] q'.history)
    (hpushing : q'.pushing = q.pushing) (hphase : p = q'.popPhase) :
    q'.Related ({ o with state := s }.goto none p) := by
  refine ⟨hlinked, hstate, fun j => ?_, ?_⟩
  · rw [phase_goto, if_neg (by simp), hpushing]
    exact h.pushers j
  · rw [phase_goto, if_pos rfl, hphase]

theorem Related.pusher {i address : Nat} (h : q.Related o) (hs : q.stepPusher i address = some q') :
    ∃ o', Steps (QueueRequest.serve .lifo) o (seen q (.pusher i address) q') o' ∧ q'.Related o' := by
  obtain ⟨sentinel, cells, hl⟩ := h.linked
  obtain ⟨sentinel', cells', hl'⟩ := hl.stepPusher hs
  obtain ⟨hpopping, hreturned, hother, t, hcalled, hstep⟩ := hl.stepPusher_cases hs
  have hphase : o.phase (some i) = .called (.push t) := (h.pushers i).trans hcalled
  rcases hstep with ⟨hhistory, hcall, hbusy⟩ | ⟨hhistory, hidle⟩
  · have hpop := popPhase_eq hpopping (hl.inHand_eq hl' (by rw [hhistory]) hreturned)
    have hseen : seen q (.pusher i address) q' = [] := by
      unfold seen
      cases hq : q'.pushing i with
      | idle => exact absurd hq hbusy
      | _ => simp only [hq]
    have hstate : o.state = PopOrder.lifo.after [] q'.history := by rw [hhistory, h.state]
    refine ⟨o, by rw [hseen]; exact .refl o, ⟨_, _, hl'⟩, hstate, fun j => ?_, ?_⟩
    · by_cases hj : j = i
      · rw [hj, hphase, hcall]
      · rw [hother j hj]
        exact h.pushers j
    · rw [hpop]
      exact h.popper
  · have hout : PopOrder.lifo.outputs [] q'.history = PopOrder.lifo.outputs [] q.history := by
      rw [hhistory, PopOrder.outputs_append]
      exact List.append_nil _
    have hpop := popPhase_eq hpopping (hl.inHand_eq hl' hout hreturned)
    have hseen : seen q (.pusher i address) q' = [.respond (some i) .pushed] := by
      simp only [seen, hidle]
    have happly : QueueRequest.serve .lifo o.state (.push t) =
        some (.pushed, PopOrder.lifo.add o.state t) := by
      cases o.state <;> rfl
    have hstate : PopOrder.lifo.add o.state t = PopOrder.lifo.after [] q'.history := by
      rw [hhistory, PopOrder.after_append, h.state]
      rfl
    rw [hseen]
    refine ⟨_, .point hphase happly (.respond (by rw [phase_goto, if_pos rfl]) (.refl _)), ?_⟩
    rw [goto_goto]
    exact h.of_pusher ⟨_, _, hl'⟩ hstate hother (by rw [hidle]; rfl) hpop

theorem Related.consumer (h : q.Related o) (hs : q.stepConsumer = some q') :
    ∃ o', Steps (QueueRequest.serve .lifo) o (seen q .consumer q') o' ∧ q'.Related o' := by
  obtain ⟨sentinel, cells, hl⟩ := h.linked
  have hl' := hl.stepConsumer hs
  obtain ⟨hpushing, ⟨hhistory, hreturned, hpop⟩ | ⟨hcalled, hafter, hhistory, hreturned, hidle⟩ |
    ⟨call, t, xs, hcalled, hafter, hhistory, hreturned, hdone⟩ | ⟨t, hdone, hhistory, hreturned, hidle⟩⟩ :=
    hl.stepConsumer_cases hs
  · have hseen : seen q .consumer q' = [] := by simp [seen, hreturned]
    refine ⟨o, by rw [hseen]; exact .refl o, hl', by rw [hhistory]; exact h.state, fun j => ?_, ?_⟩
    · rw [hpushing]
      exact h.pushers j
    · rw [hpop]
      exact h.popper
  · have hseen : seen q .consumer q' = [.respond none (.popped none)] := by simp [seen, hreturned]
    have happly : QueueRequest.serve .lifo o.state (.pop .tryPop) = some (.popped none, []) := by
      rw [h.state, hafter]
      rfl
    have hstate : [] = PopOrder.lifo.after [] q'.history := by
      rw [hhistory, PopOrder.after_append, hafter]
      rfl
    rw [hseen]
    refine ⟨_, .point (h.popper.trans hcalled) happly (.respond (by rw [phase_goto, if_pos rfl]) (.refl _)), ?_⟩
    rw [goto_goto]
    exact h.of_popper hl' hstate hpushing (by rw [popPhase, hidle])
  · have hseen : seen q .consumer q' = [] := by simp [seen, hreturned]
    have happly : QueueRequest.serve .lifo o.state (.pop call) = some (.popped (some t), xs) := by
      rw [h.state, hafter]
      cases call <;> rfl
    have hstate : xs = PopOrder.lifo.after [] q'.history := by
      rw [hhistory, PopOrder.after_append, hafter]
      rfl
    rw [hseen]
    exact ⟨_, .point (h.popper.trans hcalled) happly (.refl _), h.of_popper hl' hstate hpushing hdone.symm⟩
  · have hseen : seen q .consumer q' = [.respond none (.popped (some t))] := by simp [seen, hreturned]
    have hstate : o.state = PopOrder.lifo.after [] q'.history := by rw [hhistory, h.state]
    rw [hseen]
    refine ⟨_, .respond (h.popper.trans hdone) (.refl _), ?_⟩
    exact h.of_popper hl' hstate hpushing (by rw [popPhase, hidle])

theorem step_related {a : QueueAction α} (h : q.Related o) (hs : step q a = some q') :
    ∃ o', Steps (QueueRequest.serve .lifo) o (seen q a q') o' ∧ q'.Related o' := by
  obtain ⟨sentinel, cells, hl⟩ := h.linked
  have hl' := step_linked h.linked hs
  simp only [step, hl.intact, Bool.false_eq_true, if_false] at hs
  cases a with
  | push i t =>
    cases hp : q.pushing i with
    | idle =>
      simp only [hp, Option.some.injEq] at hs
      subst hs
      have hidle : o.phase (some i) = .idle := by rw [h.pushers, hp]; rfl
      refine ⟨_, .invoke hidle (.refl _), h.of_pusher hl' h.state (fun j hj => ?_) ?_ rfl⟩
      · rw [gotoPush_pushing, if_neg hj]
      · rw [gotoPush_pushing, if_pos rfl]
        rfl
    | _ => simp [hp] at hs
  | pusher i address => exact h.pusher hs
  | pop call =>
    cases hp : q.popping with
    | idle =>
      simp only [hp, Option.some.injEq] at hs
      subst hs
      have hidle : o.phase none = .idle := by rw [h.popper, popPhase, hp]
      exact ⟨_, .invoke hidle (.refl _), h.of_popper hl' h.state rfl rfl⟩
    | _ => simp [hp] at hs
  | consumer => exact h.consumer hs

/-- Whatever the threads do and wherever nodes are put, their calls and results
are those of an atomic stack. -/
theorem explained_by_stack (as : List (QueueAction α)) :
    Explains (QueueRequest.serve .lifo) [] (observe step seen (new : SharedQueue α) as) := by
  refine explains_observe Related ?_ related_new as
  exact fun q a q' o h hs => step_related h hs

end SharedQueue

end Quintses
