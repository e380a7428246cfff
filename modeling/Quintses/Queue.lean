import Quintses.Heap
import Quintses.Loop
import Quintses.PopOrder

/-! The two queues of `core/util/queue.hpp` run by one thread. The deque behind
`lockedQueue` is a list, front first; the nodes of `locklessQueue` are cells of
a heap that hang off a sentinel. -/

namespace Quintses

variable {α : Type}

structure LockedQueue (α : Type) where
  queue : List α

namespace LockedQueue

def new : LockedQueue α := ⟨[]⟩

/-- The flag says whether the push notifies a waiting consumer. -/
def push (q : LockedQueue α) (t : α) : LockedQueue α × Bool :=
  let wasEmpty := q.queue.isEmpty
  (⟨q.queue ++ [t]⟩, wasEmpty)

def tryPop (q : LockedQueue α) : Option α × LockedQueue α :=
  match q.queue with
  | [] => (none, q)
  | val :: rest => (some val, ⟨rest⟩)

def results : LockedQueue α → List (QueueOp α) → List (Option α)
  | _, [] => []
  | q, .push t :: h => results (q.push t).1 h
  | q, .tryPop :: h => q.tryPop.1 :: results q.tryPop.2 h

theorem results_eq_outputs (h : List (QueueOp α)) (q : LockedQueue α) :
    q.results h = PopOrder.fifo.outputs q.queue h := by
  induction h generalizing q with
  | nil => rfl
  | cons op h ih =>
    obtain ⟨queue⟩ := q
    cases op with
    | push t => exact ih ⟨queue ++ [t]⟩
    | tryPop =>
      cases queue with
      | nil => exact congrArg (none :: ·) (ih ⟨[]⟩)
      | cons val rest => exact congrArg (some val :: ·) (ih ⟨rest⟩)

end LockedQueue

/-- A node; nothing is ever stored in the sentinel's value. -/
structure QueueItem (α : Type) where
  value : Option α
  next : Nat

structure LocklessQueue (α : Type) where
  heap : Heap (QueueItem α)
  head : Nat

/-- The swap of `p->next`. Reading a pointer that is not allocated is `none`. -/
def compareAndSwapPointer (h : Heap (QueueItem α)) (p old new : Nat) :
    Option (Bool × Heap (QueueItem α)) :=
  (h.find? p).map (fun item =>
    if item.next = old then (true, h.assign p { item with next := new }) else (false, h))

namespace LocklessQueue

def new : LocklessQueue α :=
  let h : Heap (QueueItem α) := StdMap.empty
  ⟨h.alloc ⟨none, 0⟩, h.fresh⟩

def pushRound (head newHead : Nat) (h : Heap (QueueItem α)) :
    Option (Heap (QueueItem α) ⊕ Heap (QueueItem α)) := do
  let sentinel ← h.find? head
  let h := h.modify newHead (fun item => { item with next := sentinel.next })
  let item ← h.find? newHead
  let (swapped, h) ← compareAndSwapPointer h head item.next newHead
  return if swapped then .inr h else .inl h

def push (fuel : Nat) (q : LocklessQueue α) (t : α) : Option (LocklessQueue α) := do
  let newHead := q.heap.fresh
  let h := q.heap.alloc ⟨none, 0⟩
  let h := h.modify newHead (fun item => { item with value := some t })
  let h ← Loop.iterate (pushRound q.head newHead) fuel h
  return { q with heap := h }

/-- One round of the loop in `try_pop`, which leaves with the detached node or
with none. -/
def popRound (head : Nat) (h : Heap (QueueItem α)) :
    Option (Heap (QueueItem α) ⊕ (Option Nat × Heap (QueueItem α))) := do
  let sentinel ← h.find? head
  let item := sentinel.next
  if item = 0 then
    return .inr (none, h)
  else
    let cell ← h.find? item
    let (swapped, h) ← compareAndSwapPointer h head item cell.next
    return if swapped then .inr (some item, h) else .inl h

def tryPop (fuel : Nat) (q : LocklessQueue α) : Option (Option α × LocklessQueue α) := do
  match ← Loop.iterate (popRound q.head) fuel q.heap with
  | (none, h) => return (none, { q with heap := h })
  | (some item, h) =>
    let cell ← h.find? item
    let t ← cell.value
    return (some t, { q with heap := h.free item })

def results (fuel : Nat) : LocklessQueue α → List (QueueOp α) → Option (List (Option α))
  | _, [] => some []
  | q, .push t :: h => (q.push fuel t).bind (fun q' => results fuel q' h)
  | q, .tryPop :: h =>
    (q.tryPop fuel).bind (fun r => (results fuel r.2 h).map (r.1 :: ·))

/-- The nodes after the sentinel carry the listed values, in this order. -/
def Holds (q : LocklessQueue α) (xs : List α) : Prop :=
  ∃ sentinel cells, q.heap.find? q.head = some sentinel ∧
    q.heap.Chain QueueItem.next sentinel.next cells ∧
    (∀ c ∈ cells, c.1 ≠ q.head) ∧ cells.map (fun c => c.2.value) = xs.map some

theorem holds_new : (new : LocklessQueue α).Holds [] :=
  ⟨⟨none, 0⟩, [], by simp [new], rfl, by simp, rfl⟩

theorem push_holds {q : LocklessQueue α} {xs : List α} (hq : q.Holds xs) (fuel : Nat) (t : α) :
    ∃ q', q.push (fuel + 1) t = some q' ∧ q'.Holds (PopOrder.lifo.add xs t) := by
  obtain ⟨sentinel, cells, hs, hc, hne, hv⟩ := hq
  have hhead : q.head ≠ q.heap.fresh := Heap.ne_fresh_of_find? hs
  have hcell : ∀ c ∈ cells, c.1 ≠ q.heap.fresh := fun c hm => Heap.ne_fresh_of_find? (hc.find? hm)
  let item : QueueItem α := ⟨some t, sentinel.next⟩
  let h₁ := (q.heap.alloc ⟨none, 0⟩).modify q.heap.fresh (fun i => { i with value := some t })
  let h₂ := h₁.modify q.heap.fresh (fun i => { i with next := sentinel.next })
  let h₃ := h₂.assign q.head { sentinel with next := q.heap.fresh }
  have hround : pushRound q.head q.heap.fresh h₁ = some (.inr h₃) := by
    have hs₁ : h₁.find? q.head = some sentinel := by simp [h₁, hhead, hs]
    have hs₂ : h₂.find? q.head = some sentinel := by simp [h₂, hhead, hs₁]
    have hi₂ : h₂.find? q.heap.fresh = some item := by simp [h₂, h₁, item]
    simp only [pushRound, hs₁, Option.bind_eq_bind, Option.bind_some]
    rw [show h₁.modify q.heap.fresh (fun i => { i with next := sentinel.next }) = h₂ from rfl, hi₂]
    simp [compareAndSwapPointer, hs₂, item, h₃]
  refine ⟨⟨h₃, q.head⟩, ?_, { sentinel with next := q.heap.fresh },
    (q.heap.fresh, item) :: cells, ?_, ?_, ?_, ?_⟩
  · simp [push, h₁, Loop.iterate_of_exit hround fuel]
  · simp [h₃]
  · refine ⟨rfl, q.heap.fresh_ne_zero, by simp [h₃, h₂, h₁, item, hhead.symm], hc.congr ?_⟩
    intro c hm
    simp [h₃, h₂, h₁, hne c hm, hcell c hm]
  · intro c hm
    rcases List.mem_cons.mp hm with rfl | hm
    · exact hhead.symm
    · exact hne c hm
  · simp [PopOrder.add, item, hv]

theorem tryPop_holds_nil {q : LocklessQueue α} (hq : q.Holds []) (fuel : Nat) :
    q.tryPop (fuel + 1) = some (none, q) := by
  obtain ⟨sentinel, cells, hs, hc, _, hv⟩ := hq
  have hnil : cells = [] := by simpa using hv
  subst hnil
  have hnext : sentinel.next = 0 := hc
  have hround : popRound q.head q.heap = some (.inr (none, q.heap)) := by
    simp [popRound, hs, hnext]
  simp [tryPop, Loop.iterate_of_exit hround fuel]

theorem tryPop_holds_cons {q : LocklessQueue α} {x : α} {xs : List α} (hq : q.Holds (x :: xs))
    (fuel : Nat) : ∃ q', q.tryPop (fuel + 1) = some (some x, q') ∧ q'.Holds xs := by
  obtain ⟨sentinel, cells, hs, hc, hne, hv⟩ := hq
  cases cells with
  | nil => simp at hv
  | cons c cells =>
    obtain ⟨hx, hxs⟩ : c.2.value = some x ∧ cells.map (fun c => c.2.value) = xs.map some := by
      simpa using hv
    obtain ⟨hp, hnull, hfind, _⟩ := id hc
    have hhead : sentinel.next ≠ q.head := hp ▸ hne c List.mem_cons_self
    let h₁ : Heap (QueueItem α) := q.heap.assign q.head { sentinel with next := c.2.next }
    have hround : popRound q.head q.heap = some (.inr (some sentinel.next, h₁)) := by
      simp [popRound, hs, hnull, hfind, compareAndSwapPointer, h₁]
    have hfind₁ : h₁.find? sentinel.next = some c.2 := by simp [h₁, hhead, hfind]
    refine ⟨⟨h₁.free sentinel.next, q.head⟩, ?_, { sentinel with next := c.2.next }, cells, ?_, ?_, ?_, hxs⟩
    · simp [tryPop, Loop.iterate_of_exit hround fuel, hfind₁, hx]
    · simp [h₁, hhead.symm]
    · have hc₁ : h₁.Chain QueueItem.next sentinel.next (c :: cells) := hc.congr (fun d hm => by
        simp [h₁, hne d hm])
      exact hc₁.free_head
    · exact fun d hm => hne d (List.mem_cons_of_mem c hm)

/-- The list behaves as a stack on every history, whatever the bound on its
retry loops. -/
theorem results_eq_outputs (h : List (QueueOp α)) {q : LocklessQueue α} {xs : List α}
    (hq : q.Holds xs) (fuel : Nat) :
    q.results (fuel + 1) h = some (PopOrder.lifo.outputs xs h) := by
  induction h generalizing q xs with
  | nil => rfl
  | cons op h ih =>
    cases op with
    | push t =>
      obtain ⟨q', he, hq'⟩ := push_holds hq fuel t
      simpa [results, he, PopOrder.outputs] using ih hq'
    | tryPop =>
      cases xs with
      | nil => simp [results, tryPop_holds_nil hq fuel, PopOrder.outputs, ih hq]
      | cons x xs =>
        obtain ⟨q', he, hq'⟩ := tryPop_holds_cons hq fuel
        simp [results, he, PopOrder.outputs, ih hq']

end LocklessQueue

/-- Both implementations return the results of a first-in-first-out queue on
every history with these calls, whatever is pushed. -/
def Interchangeable (calls : List QueueCall) : Prop :=
  ∀ (α : Type) (h : List (QueueOp α)), h.map QueueOp.call = calls →
    ∀ fuel, 0 < fuel → (LocklessQueue.new.results fuel h = some (LockedQueue.new.results h) ∧
      LockedQueue.new.results h = PopOrder.fifo.outputs [] h)

/-- The linked list is a stack, so the two implementations agree on a history
of distinct values exactly when no `try_pop` finds two elements pending. -/
theorem results_agree_iff_of_nodup (h : List (QueueOp α)) (hnd : (PopOrder.pushed h).Nodup)
    (fuel : Nat) : LocklessQueue.new.results (fuel + 1) h = some (LockedQueue.new.results h) ↔
      PopOrder.AtMostOnePending 0 (h.map QueueOp.call) := by
  rw [LocklessQueue.results_eq_outputs h LocklessQueue.holds_new fuel,
    LockedQueue.results_eq_outputs, Option.some.injEq]
  constructor
  · intro he
    exact PopOrder.atMostOnePending_of_lifo_eq_fifo h [] hnd he
  · intro hone
    exact PopOrder.lifo_eq_fifo_of_atMostOnePending h [] hone

theorem interchangeable_iff (calls : List QueueCall) :
    Interchangeable calls ↔ PopOrder.AtMostOnePending 0 calls := by
  constructor
  · intro hc
    have hh := (hc Nat (PopOrder.numbered 0 calls) (PopOrder.numbered_call 0 calls) 1 Nat.one_pos).1
    have hone := (results_agree_iff_of_nodup _ (PopOrder.nodup_pushed_numbered 0 calls) 0).mp hh
    rwa [PopOrder.numbered_call] at hone
  · rintro hone β h rfl fuel hfuel
    obtain ⟨n, rfl⟩ : ∃ n, fuel = n + 1 := ⟨fuel - 1, by omega⟩
    have hfifo := LockedQueue.results_eq_outputs h LockedQueue.new
    refine ⟨?_, hfifo⟩
    rw [hfifo, LocklessQueue.results_eq_outputs h LocklessQueue.holds_new n, Option.some.injEq]
    exact PopOrder.lifo_eq_fifo_of_atMostOnePending h [] hone

/-- Two pushes before a `try_pop` already tell them apart. -/
theorem not_interchangeable_push_push : ¬ ∀ calls, Interchangeable calls := by
  intro hc
  have hh := (hc [.push, .push, .tryPop] Nat [.push 1, .push 2, .tryPop] rfl 1 Nat.one_pos).1
  exact absurd hh (by decide)

end Quintses
