import Quintses.Lts
import Quintses.Queue
import Mathlib.Logic.Function.Basic

/-! `locklessQueue` under any number of pushing threads and one consumer. Every
access to a node is a step of its own, and the address of a deleted node can be
handed out again. -/

namespace Quintses

open Lts

variable {α : Type}

/-- Where a thread is in `push(t)`; `item` is its `new_head`. -/
inductive PushPc (α : Type)
  | idle
  | allocate (t : α)
  | setValue (t : α) (item : Nat)
  | readHead (t : α) (item : Nat)
  | writeNext (t : α) (item seen : Nat)
  | readNext (t : α) (item : Nat)
  | swap (t : α) (item old : Nat)

inductive PopCall
  | waitPop
  | tryPop

inductive PopPc (α : Type)
  | idle
  | readHead (call : PopCall)
  | readNext (call : PopCall) (item : Nat)
  | swap (call : PopCall) (item next : Nat)
  | readValue (item : Nat)
  | delete (item : Nat) (t : α)

/-- The history has a push or a pop where its swap succeeds and a failed
`try_pop` where it finds the list empty; both lists are in the order of time. -/
structure SharedQueue (α : Type) where
  heap : Heap (QueueItem α)
  head : Nat
  pushing : Nat → PushPc α
  popping : PopPc α
  history : List (QueueOp α)
  /-- What the consumer's calls have returned, `none` for false. -/
  returned : List (Option α)
  /-- A pointer without a node has been followed. -/
  dangling : Bool

inductive QueueAction (α : Type)
  | push (thread : Nat) (t : α)
  /-- The address is used where the thread allocates its node. -/
  | pusher (thread : Nat) (address : Nat)
  | pop (call : PopCall)
  | consumer

namespace SharedQueue

def new : SharedQueue α :=
  let q : LocklessQueue α := LocklessQueue.new
  ⟨q.heap, q.head, fun _ => .idle, .idle, [], [], false⟩

variable (q : SharedQueue α)

def gotoPush (thread : Nat) (pc : PushPc α) : SharedQueue α :=
  { q with pushing := Function.update q.pushing thread pc }

def gotoPop (pc : PopPc α) : SharedQueue α := { q with popping := pc }

def record (op : QueueOp α) : SharedQueue α := { q with history := q.history ++ [op] }

def ret (o : Option α) : SharedQueue α := { q with popping := .idle, returned := q.returned ++ [o] }

def access (p : Nat) (f : QueueItem α → SharedQueue α) : SharedQueue α :=
  match q.heap.find? p with
  | some item => f item
  | none => { q with dangling := true }

def compareAndSwap (p old new : Nat) (f : Bool → SharedQueue α → SharedQueue α) : SharedQueue α :=
  match compareAndSwapPointer q.heap p old new with
  | some (swapped, heap) => f swapped { q with heap }
  | none => { q with dangling := true }

def stepPusher (thread address : Nat) : Option (SharedQueue α) :=
  match q.pushing thread with
  | .idle => none
  | .allocate t =>
    if address = 0 ∨ (q.heap.find? address).isSome then none
    else some ({ q with heap := q.heap.assign address ⟨none, 0⟩ }.gotoPush thread (.setValue t address))
  | .setValue t item => some (q.access item (fun cell =>
      { q with heap := q.heap.assign item { cell with value := some t } }.gotoPush thread (.readHead t item)))
  | .readHead t item => some (q.access q.head (fun sentinel =>
      q.gotoPush thread (.writeNext t item sentinel.next)))
  | .writeNext t item seen => some (q.access item (fun cell =>
      { q with heap := q.heap.assign item { cell with next := seen } }.gotoPush thread (.readNext t item)))
  | .readNext t item => some (q.access item (fun cell => q.gotoPush thread (.swap t item cell.next)))
  | .swap t item old => some (q.compareAndSwap q.head old item (fun swapped q =>
      if swapped then (q.record (.push t)).gotoPush thread .idle
      else q.gotoPush thread (.readHead t item)))

def stepConsumer : Option (SharedQueue α) :=
  match q.popping with
  | .idle => none
  | .readHead call => some (q.access q.head (fun sentinel =>
      if sentinel.next = 0 then
        match call with
        | .tryPop => (q.record .tryPop).ret none
        | .waitPop => q.gotoPop (.readHead call)
      else q.gotoPop (.readNext call sentinel.next)))
  | .readNext call item => some (q.access item (fun cell => q.gotoPop (.swap call item cell.next)))
  | .swap call item next => some (q.compareAndSwap q.head item next (fun swapped q =>
      if swapped then (q.record .tryPop).gotoPop (.readValue item) else q.gotoPop (.readHead call)))
  | .readValue item => some (q.access item (fun cell =>
      match cell.value with
      | some t => q.gotoPop (.delete item t)
      | none => { q with dangling := true }))
  | .delete item t => some (q.access item (fun _ => { q with heap := q.heap.free item }.ret (some t)))

/-- Nothing happens any more once a pointer without a node has been followed. -/
def step (q : SharedQueue α) (a : QueueAction α) : Option (SharedQueue α) :=
  if q.dangling then none
  else
    match a with
    | .push thread t =>
      match q.pushing thread with
      | .idle => some (q.gotoPush thread (.allocate t))
      | _ => none
    | .pusher thread address => q.stepPusher thread address
    | .pop call =>
      match q.popping with
      | .idle => some (q.gotoPop (.readHead call))
      | _ => none
    | .consumer => q.stepConsumer

def inHand : List α :=
  match q.popping with
  | .readValue item => ((q.heap.find? item).bind QueueItem.value).toList
  | .delete _ t => [t]
  | .idle | .readHead _ | .readNext _ _ | .swap _ _ _ => []

/-- The values whose push has swapped its node in. -/
def pushed : List α := PopOrder.pushed q.history

def popped : List α := q.returned.filterMap id ++ q.inHand

end SharedQueue

def PushPc.item? : PushPc α → Option Nat
  | .idle | .allocate _ => none
  | .setValue _ item | .readHead _ item | .writeNext _ item _ | .readNext _ item | .swap _ item _ => some item

/-- What the node holds at this point of `push`. -/
def PushPc.Filled (heap : Heap (QueueItem α)) : PushPc α → Prop
  | .idle | .allocate _ => True
  | .setValue _ item => ∃ cell, heap.find? item = some cell
  | .readHead t item | .writeNext t item _ | .readNext t item => ∃ next, heap.find? item = some ⟨some t, next⟩
  | .swap t item old => heap.find? item = some ⟨some t, old⟩

def PopPc.item? : PopPc α → Option Nat
  | .readValue item | .delete item _ => some item
  | .idle | .readHead _ | .readNext _ _ | .swap _ _ _ => none

def PopPc.Sees (heap : Heap (QueueItem α)) (cells : List (Nat × QueueItem α)) : PopPc α → Prop
  | .idle | .readHead _ => True
  | .readNext _ item => ∃ c ∈ cells, c.1 = item
  | .swap _ item next => ∃ c ∈ cells, c.1 = item ∧ c.2.next = next
  | .readValue item => ∃ t next, heap.find? item = some ⟨some t, next⟩
  | .delete item _ => ∃ cell, heap.find? item = some cell

namespace SharedQueue

/-- From `head` a finite list without repetitions hangs together, its nodes are
allocated, and together with what was popped it holds what was pushed. The node
that the consumer goes on to read is on the list or was taken off by itself. -/
structure Sound (q : SharedQueue α) : Prop where
  intact : q.dangling = false
  listed : ∃ sentinel cells xs, q.heap.find? q.head = some sentinel ∧
    q.heap.Chain QueueItem.next sentinel.next cells ∧ (q.head :: cells.map Prod.fst).Nodup ∧
    cells.map (fun c => c.2.value) = xs.map some ∧ q.pushed.Perm (q.popped ++ xs) ∧
    q.popping.Sees q.heap cells

/-- A node on no list: neither the sentinel nor one of the cells. -/
def Off (q : SharedQueue α) (cells : List (Nat × QueueItem α)) (item : Nat) : Prop :=
  item ≠ q.head ∧ ∀ c ∈ cells, c.1 ≠ item

/-- The list is a stack, and what is not on it has one owner. A stale snapshot
of `head->next` is only ever compared, and the node that the consumer looks at
stays on the list because nobody else takes nodes off. -/
structure Linked (q : SharedQueue α) (sentinel : QueueItem α) (cells : List (Nat × QueueItem α)) : Prop where
  intact : q.dangling = false
  null : q.heap.find? 0 = none
  head : q.heap.find? q.head = some sentinel
  chain : q.heap.Chain QueueItem.next sentinel.next cells
  apart : ∀ c ∈ cells, c.1 ≠ q.head
  values : cells.map (fun c => c.2.value) = (PopOrder.lifo.after [] q.history).map some
  results : PopOrder.lifo.outputs [] q.history = q.returned ++ q.inHand.map some
  filled : ∀ i, (q.pushing i).Filled q.heap
  owned : ∀ i item, (q.pushing i).item? = some item → q.Off cells item ∧ q.popping.item? ≠ some item
  one : ∀ i j item, (q.pushing i).item? = some item → (q.pushing j).item? = some item → i = j
  sees : q.popping.Sees q.heap cells
  detached : ∀ item, q.popping.item? = some item → q.Off cells item

variable {q q' : SharedQueue α} {sentinel : QueueItem α} {cells : List (Nat × QueueItem α)}

def swapHead (q : SharedQueue α) (sentinel : QueueItem α) (next : Nat) : SharedQueue α :=
  { q with heap := q.heap.assign q.head { sentinel with next } }

theorem find?_swapHead {p : Nat} (hp : p ≠ q.head) (sentinel : QueueItem α) (next : Nat) :
    (q.swapHead sentinel next).heap.find? p = q.heap.find? p := by
  simp [swapHead, hp]

theorem gotoPush_pushing (i j : Nat) (pc : PushPc α) :
    (q.gotoPush i pc).pushing j = if j = i then pc else q.pushing j :=
  Function.update_apply q.pushing i pc j

theorem item_gotoPush {i j x : Nat} {pc : PushPc α} (hpc : pc.item? = none)
    (hx : ((q.gotoPush i pc).pushing j).item? = some x) : j ≠ i ∧ (q.pushing j).item? = some x := by
  rw [gotoPush_pushing] at hx
  split_ifs at hx with hj
  · rw [hpc] at hx
    cases hx
  · exact ⟨hj, hx⟩

end SharedQueue

theorem PushPc.Filled.congr {heap heap' : Heap (QueueItem α)} {pc : PushPc α} (h : pc.Filled heap)
    (hsame : ∀ item, pc.item? = some item → heap'.find? item = heap.find? item) : pc.Filled heap' := by
  cases pc with
  | idle => trivial
  | allocate t => trivial
  | _ => simpa only [Filled, hsame _ rfl] using h

theorem PopPc.Sees.congr {heap heap' : Heap (QueueItem α)} {cells cells' : List (Nat × QueueItem α)}
    {pc : PopPc α} (h : pc.Sees heap cells)
    (hsame : ∀ item, pc.item? = some item → heap'.find? item = heap.find? item)
    (hcells : ∀ c ∈ cells, c ∈ cells') : pc.Sees heap' cells' := by
  cases pc with
  | idle => trivial
  | readHead call => trivial
  | readNext call item =>
    obtain ⟨c, hc, he⟩ := h
    exact ⟨c, hcells c hc, he⟩
  | swap call item next =>
    obtain ⟨c, hc, he⟩ := h
    exact ⟨c, hcells c hc, he⟩
  | _ => simpa only [Sees, hsame _ rfl] using h

namespace SharedQueue

variable {q q' : SharedQueue α} {sentinel : QueueItem α} {cells : List (Nat × QueueItem α)}

theorem inHand_congr (hpop : q'.popping = q.popping)
    (hsame : ∀ item, q.popping.item? = some item → q'.heap.find? item = q.heap.find? item) :
    q'.inHand = q.inHand := by
  unfold inHand
  rw [hpop]
  cases hp : q.popping with
  | readValue item =>
    have hread : q.popping.item? = some item := by rw [hp]; rfl
    simp only [hsame item hread]
  | _ => rfl

theorem inHand_eq_nil (hnone : q.popping.item? = none) : q.inHand = [] := by
  unfold inHand
  cases hp : q.popping with
  | readValue item => simp [hp, PopPc.item?] at hnone
  | delete item t => simp [hp, PopPc.item?] at hnone
  | _ => rfl

namespace Linked

theorem item_allocated (h : q.Linked sentinel cells) {i item : Nat} (hi : (q.pushing i).item? = some item) :
    ∃ cell, q.heap.find? item = some cell := by
  have hf := h.filled i
  cases hp : q.pushing i with
  | idle => simp [hp, PushPc.item?] at hi
  | allocate t => simp [hp, PushPc.item?] at hi
  | setValue t x =>
    simp only [hp, PushPc.item?, Option.some.injEq, PushPc.Filled] at hi hf
    exact hi ▸ hf
  | swap t x old =>
    simp only [hp, PushPc.item?, Option.some.injEq, PushPc.Filled] at hi hf
    exact ⟨_, hi ▸ hf⟩
  | _ =>
    simp only [hp, PushPc.item?, Option.some.injEq, PushPc.Filled] at hi hf
    obtain ⟨next, hf⟩ := hf
    exact ⟨_, hi ▸ hf⟩

theorem detached_allocated (h : q.Linked sentinel cells) {item : Nat} (hi : q.popping.item? = some item) :
    ∃ cell, q.heap.find? item = some cell := by
  have hs := h.sees
  cases hp : q.popping with
  | readValue x =>
    simp only [hp, PopPc.item?, Option.some.injEq, PopPc.Sees] at hi hs
    obtain ⟨t, next, hs⟩ := hs
    exact ⟨_, hi ▸ hs⟩
  | delete x t =>
    simp only [hp, PopPc.item?, Option.some.injEq, PopPc.Sees] at hi hs
    exact hi ▸ hs
  | _ => simp [hp, PopPc.item?] at hi

theorem ne_null (h : q.Linked sentinel cells) {p : Nat} {cell : QueueItem α}
    (hp : q.heap.find? p = some cell) : p ≠ 0 := by
  rintro rfl
  rw [h.null] at hp
  cases hp

theorem own (h : q.Linked sentinel cells) {i item : Nat} {heap : Heap (QueueItem α)} {pc : PushPc α}
    (hoff : q.Off cells item) (hnull : item ≠ 0) (hpop : q.popping.item? ≠ some item)
    (hone : ∀ j, j ≠ i → (q.pushing j).item? ≠ some item) (hpc : pc.item? = some item)
    (hsame : ∀ p, p ≠ item → heap.find? p = q.heap.find? p) (hfilled : pc.Filled heap) :
    ({ q with heap := heap }.gotoPush i pc).Linked sentinel cells := by
  have hdetached : ∀ x, q.popping.item? = some x → heap.find? x = q.heap.find? x :=
    fun x hx => hsame x (fun he => hpop (he ▸ hx))
  have hhand : ({ q with heap := heap }.gotoPush i pc).inHand = q.inHand := inHand_congr rfl hdetached
  refine ⟨h.intact, ?_, ?_, ?_, h.apart, h.values, ?_, ?_, ?_, ?_, ?_, h.detached⟩
  · exact (hsame 0 hnull.symm).trans h.null
  · exact (hsame q.head (fun he => hoff.1 he.symm)).trans h.head
  · exact h.chain.congr (fun c hc => hsame c.1 (hoff.2 c hc))
  · rw [hhand]
    exact h.results
  · intro j
    rw [gotoPush_pushing]
    split_ifs with hj
    · exact hfilled
    · exact (h.filled j).congr (fun x hx => hsame x (fun he => hone j hj (he ▸ hx)))
  · intro j x hx
    rw [gotoPush_pushing] at hx
    split_ifs at hx with hj
    · obtain rfl : item = x := Option.some.inj (hpc.symm.trans hx)
      exact ⟨hoff, hpop⟩
    · exact h.owned j x hx
  · intro j k x hj hk
    rw [gotoPush_pushing] at hj hk
    split_ifs at hj hk with hji hki hki
    · exact hji.trans hki.symm
    · exact absurd (Option.some.inj (hpc.symm.trans hj) ▸ hk) (hone k hki)
    · exact absurd (Option.some.inj (hpc.symm.trans hk) ▸ hj) (hone j hji)
    · exact h.one j k x hj hk
  · exact h.sees.congr hdetached (fun _ hc => hc)

theorem own_item (h : q.Linked sentinel cells) {i item : Nat} {heap : Heap (QueueItem α)} {pc : PushPc α}
    (hi : (q.pushing i).item? = some item) (hpc : pc.item? = some item)
    (hsame : ∀ p, p ≠ item → heap.find? p = q.heap.find? p) (hfilled : pc.Filled heap) :
    ({ q with heap := heap }.gotoPush i pc).Linked sentinel cells := by
  obtain ⟨hoff, hpop⟩ := h.owned i item hi
  obtain ⟨cell, hcell⟩ := h.item_allocated hi
  exact h.own hoff (h.ne_null hcell) hpop (fun j hj hx => hj (h.one j i item hx hi)) hpc hsame hfilled

theorem allocate (h : q.Linked sentinel cells) {i address : Nat} (hnull : address ≠ 0)
    (hfree : q.heap.find? address = none) (cell : QueueItem α) (t : α) :
    ({ q with heap := q.heap.assign address cell }.gotoPush i (.setValue t address)).Linked sentinel cells := by
  have hne : ∀ {p : Nat} {b : QueueItem α}, q.heap.find? p = some b → p ≠ address := by
    rintro p b hp rfl
    rw [hfree] at hp
    cases hp
  refine h.own ⟨(hne h.head).symm, fun c hc => hne (h.chain.find? hc)⟩ hnull ?_ ?_ rfl ?_ ?_
  · intro hp
    obtain ⟨b, hb⟩ := h.detached_allocated hp
    exact hne hb rfl
  · intro j _ hj
    obtain ⟨b, hb⟩ := h.item_allocated hj
    exact hne hb rfl
  · intro p hp
    simp [hp]
  · exact ⟨cell, by simp⟩

theorem null_swapHead (h : q.Linked sentinel cells) (next : Nat) :
    (q.swapHead sentinel next).heap.find? 0 = none := by
  have hne : 0 ≠ q.head := fun he => h.ne_null h.head he.symm
  exact (find?_swapHead hne sentinel next).trans h.null

/-- The push takes effect where its swap finds the snapshot unchanged. -/
theorem link (h : q.Linked sentinel cells) {i item old : Nat} {t : α}
    (hp : q.pushing i = .swap t item old) (hold : sentinel.next = old) :
    (((q.swapHead sentinel item).record (.push t)).gotoPush i .idle).Linked
      { sentinel with next := item } ((item, ⟨some t, old⟩) :: cells) := by
  have hi : (q.pushing i).item? = some item := by rw [hp]; rfl
  have hitem : q.heap.find? item = some ⟨some t, old⟩ := by
    have hf := h.filled i
    rwa [hp] at hf
  obtain ⟨⟨hhead, hcells⟩, hpop⟩ := h.owned i item hi
  have hdetached : ∀ x, q.popping.item? = some x →
      (q.swapHead sentinel item).heap.find? x = q.heap.find? x :=
    fun x hx => find?_swapHead (h.detached x hx).1 sentinel item
  have hhand : (((q.swapHead sentinel item).record (.push t)).gotoPush i .idle).inHand = q.inHand :=
    inHand_congr rfl hdetached
  have hother : ∀ {j x},
      ((((q.swapHead sentinel item).record (.push t)).gotoPush i .idle).pushing j).item? = some x →
        j ≠ i ∧ (q.pushing j).item? = some x :=
    item_gotoPush rfl
  have hoff : ∀ {x}, x ≠ item → q.Off cells x →
      (((q.swapHead sentinel item).record (.push t)).gotoPush i .idle).Off
        ((item, ⟨some t, old⟩) :: cells) x := by
    intro x hne hx
    refine ⟨hx.1, fun c hc => ?_⟩
    rcases List.mem_cons.mp hc with rfl | hc
    · exact hne.symm
    · exact hx.2 c hc
  refine ⟨h.intact, ?_, ?_, ?_, ?_, ?_, ?_, ?_, ?_, ?_, ?_, ?_⟩
  · exact h.null_swapHead item
  · simp [gotoPush, record, swapHead]
  · refine ⟨rfl, h.ne_null hitem, (find?_swapHead hhead sentinel item).trans hitem, ?_⟩
    exact hold ▸ h.chain.congr (fun c hc => find?_swapHead (h.apart c hc) sentinel item)
  · intro c hc
    rcases List.mem_cons.mp hc with rfl | hc
    · exact hhead
    · exact h.apart c hc
  · simp [gotoPush, record, swapHead, PopOrder.after_append, PopOrder.after, PopOrder.add, h.values]
  · rw [hhand]
    simpa [gotoPush, record, swapHead, PopOrder.outputs_append, PopOrder.outputs] using h.results
  · intro j
    rw [gotoPush_pushing]
    split_ifs with hj
    · trivial
    · exact (h.filled j).congr (fun x hx => find?_swapHead (h.owned j x hx).1.1 sentinel item)
  · intro j x hx
    obtain ⟨hj, hx⟩ := hother hx
    obtain ⟨hxoff, hxpop⟩ := h.owned j x hx
    have hne : x ≠ item := fun he => hj (h.one j i item (he ▸ hx) hi)
    exact ⟨hoff hne hxoff, hxpop⟩
  · intro j k x hj hk
    exact h.one j k x (hother hj).2 (hother hk).2
  · exact h.sees.congr hdetached (fun c hc => List.mem_cons_of_mem _ hc)
  · intro x hx
    have hne : x ≠ item := fun he => hpop (he ▸ hx)
    exact hoff hne (h.detached x hx)

theorem start_push (h : q.Linked sentinel cells) (i : Nat) (t : α) :
    (q.gotoPush i (.allocate t)).Linked sentinel cells := by
  have hother : ∀ {j x}, ((q.gotoPush i (.allocate t)).pushing j).item? = some x →
      j ≠ i ∧ (q.pushing j).item? = some x :=
    item_gotoPush rfl
  refine ⟨h.intact, h.null, h.head, h.chain, h.apart, h.values, h.results, ?_, ?_, ?_, h.sees, h.detached⟩
  · intro j
    rw [gotoPush_pushing]
    split_ifs
    · trivial
    · exact h.filled j
  · exact fun j x hx => h.owned j x (hother hx).2
  · exact fun j k x hj hk => h.one j k x (hother hj).2 (hother hk).2

theorem look (h : q.Linked sentinel cells) {pc : PopPc α} (hnone : q.popping.item? = none)
    (hpc : pc.item? = none) (hsees : pc.Sees q.heap cells) : (q.gotoPop pc).Linked sentinel cells := by
  have hhand : (q.gotoPop pc).inHand = q.inHand := by
    rw [inHand_eq_nil hnone]
    exact inHand_eq_nil hpc
  refine ⟨h.intact, h.null, h.head, h.chain, h.apart, h.values, ?_, h.filled, ?_, h.one, hsees, ?_⟩
  · rw [hhand]
    exact h.results
  · intro i item hi
    refine ⟨(h.owned i item hi).1, fun he => ?_⟩
    cases hpc.symm.trans he
  · intro item he
    cases hpc.symm.trans he

/-- Between its calls to `delete` the consumer has returned all that it popped. -/
theorem outputs_eq (h : q.Linked sentinel cells) (hnone : q.popping.item? = none) :
    PopOrder.lifo.outputs [] q.history = q.returned := by
  have hr := h.results
  rwa [inHand_eq_nil hnone, List.map_nil, List.append_nil] at hr

theorem after_cons {d : Nat × QueueItem α} {rest : List (Nat × QueueItem α)}
    (h : q.Linked sentinel (d :: rest)) : ∃ t xs, PopOrder.lifo.after [] q.history = t :: xs ∧
      d.2.value = some t ∧ rest.map (fun c => c.2.value) = xs.map some := by
  have hv := h.values
  cases ha : PopOrder.lifo.after [] q.history with
  | nil => simp [ha] at hv
  | cons t xs =>
    simp only [ha, List.map_cons, List.cons.injEq] at hv
    exact ⟨t, xs, rfl, hv.1, hv.2⟩

/-- The consumer's snapshot of `item->next` is not stale when its swap succeeds,
since the node has stayed on the list. -/
theorem first (h : q.Linked sentinel cells) {call : PopCall} {item next : Nat}
    (hp : q.popping = .swap call item next) (hitem : sentinel.next = item) :
    ∃ d rest, cells = d :: rest ∧ d.1 = item ∧ d.2.next = next := by
  obtain ⟨c, hc, hci, hcn⟩ : ∃ c ∈ cells, c.1 = item ∧ c.2.next = next := by
    have hs := h.sees
    rwa [hp] at hs
  have hchain := h.chain
  cases cells with
  | nil => cases hc
  | cons d rest =>
    have hd : d.1 = item := hchain.1.symm.trans hitem
    have hdc : d = c := by
      rcases List.mem_cons.mp hc with rfl | hc
      · rfl
      · exact absurd (hci.trans hd.symm) (hchain.head_not_mem c hc)
    exact ⟨d, rest, rfl, hd, hdc ▸ hcn⟩

theorem give_up (h : q.Linked sentinel cells) {call : PopCall} (hp : q.popping = .readHead call)
    (hnull : sentinel.next = 0) : ((q.record .tryPop).ret none).Linked sentinel cells := by
  have hnil : cells = [] := by
    have hc := h.chain
    cases cells with
    | nil => rfl
    | cons c rest => exact absurd hnull hc.2.1
  have hafter : PopOrder.lifo.after [] q.history = [] := by
    have hv := h.values
    rwa [hnil, List.map_nil, eq_comm, List.map_eq_nil_iff] at hv
  have hnone : q.popping.item? = none := by rw [hp]; rfl
  have hresults : PopOrder.lifo.outputs [] q.history = q.returned := h.outputs_eq hnone
  refine ⟨h.intact, h.null, h.head, h.chain, h.apart, ?_, ?_, h.filled, ?_, h.one, trivial, ?_⟩
  · simp [ret, record, PopOrder.after_append, hafter, PopOrder.after, hnil]
  · simp [ret, record, inHand, PopOrder.outputs_append, hresults, hafter, PopOrder.outputs]
  · intro i item hi
    exact ⟨(h.owned i item hi).1, by simp [ret, PopPc.item?]⟩
  · intro item he
    cases he

theorem unlink (h : q.Linked sentinel cells) {call : PopCall} {item next : Nat}
    (hp : q.popping = .swap call item next) (hitem : sentinel.next = item) :
    ∃ rest, (((q.swapHead sentinel next).record .tryPop).gotoPop (.readValue item)).Linked
      { sentinel with next } rest := by
  have hnone : q.popping.item? = none := by rw [hp]; rfl
  obtain ⟨d, rest, rfl, rfl, rfl⟩ := h.first hp hitem
  obtain ⟨t, xs, hafter, ht, hxs⟩ := h.after_cons
  have hrest : q.heap.Chain QueueItem.next d.2.next rest := h.chain.2.2.2
  have hcell : q.heap.find? d.1 = some d.2 := h.chain.find? List.mem_cons_self
  have hhead : d.1 ≠ q.head := h.apart d List.mem_cons_self
  have hvalue : (q.swapHead sentinel d.2.next).heap.find? d.1 = some ⟨some t, d.2.next⟩ := by
    rw [find?_swapHead hhead, hcell, ← ht]
  have hhand :
      (((q.swapHead sentinel d.2.next).record .tryPop).gotoPop (.readValue d.1)).inHand = [t] := by
    simp only [inHand, gotoPop, record, hvalue]
    rfl
  have hoff : ∀ {x}, q.Off (d :: rest) x →
      (((q.swapHead sentinel d.2.next).record .tryPop).gotoPop (.readValue d.1)).Off rest x :=
    fun hx => ⟨hx.1, fun c hc => hx.2 c (List.mem_cons_of_mem d hc)⟩
  refine ⟨rest, h.intact, ?_, ?_, ?_, ?_, ?_, ?_, ?_, ?_, h.one, ⟨t, _, hvalue⟩, ?_⟩
  · exact h.null_swapHead d.2.next
  · simp [gotoPop, record, swapHead]
  · refine hrest.congr (fun c hc => ?_)
    exact find?_swapHead (h.apart c (List.mem_cons_of_mem d hc)) sentinel d.2.next
  · exact fun c hc => h.apart c (List.mem_cons_of_mem d hc)
  · simp [gotoPop, record, swapHead, PopOrder.after_append, hafter, PopOrder.after, hxs]
  · rw [hhand]
    simp [gotoPop, record, swapHead, PopOrder.outputs_append, hafter, PopOrder.outputs, h.outputs_eq hnone]
  · exact fun i => (h.filled i).congr (fun x hx => find?_swapHead (h.owned i x hx).1.1 sentinel d.2.next)
  · intro i x hx
    obtain ⟨hxoff, -⟩ := h.owned i x hx
    refine ⟨hoff hxoff, fun he => ?_⟩
    have hd : d.1 = x := Option.some.inj he
    exact hxoff.2 d List.mem_cons_self hd
  · intro x hx
    obtain rfl : d.1 = x := Option.some.inj hx
    exact ⟨hhead, fun c hc => h.chain.head_not_mem c hc⟩

theorem take (h : q.Linked sentinel cells) {item next : Nat} {t : α} (hp : q.popping = .readValue item)
    (hcell : q.heap.find? item = some ⟨some t, next⟩) :
    (q.gotoPop (.delete item t)).Linked sentinel cells := by
  have hi : q.popping.item? = some item := by rw [hp]; rfl
  have hhand : (q.gotoPop (.delete item t)).inHand = q.inHand := by
    simp [inHand, gotoPop, hp, hcell]
  refine ⟨h.intact, h.null, h.head, h.chain, h.apart, h.values, ?_, h.filled, ?_, h.one, ⟨_, hcell⟩, ?_⟩
  · rw [hhand]
    exact h.results
  · exact fun i x hx => ⟨(h.owned i x hx).1, fun he => (h.owned i x hx).2 (hi.trans he)⟩
  · exact fun x hx => h.detached x (hi.trans hx)

theorem delete (h : q.Linked sentinel cells) {item : Nat} {t : α} (hp : q.popping = .delete item t) :
    ({ q with heap := q.heap.free item }.ret (some t)).Linked sentinel cells := by
  have hi : q.popping.item? = some item := by rw [hp]; rfl
  obtain ⟨hhead, hcells⟩ := h.detached item hi
  have hsame : ∀ p, p ≠ item → (q.heap.free item).find? p = q.heap.find? p := by
    intro p hne
    simp [hne]
  have hresults : PopOrder.lifo.outputs [] q.history = q.returned ++ [some t] := by
    have hr := h.results
    simpa [inHand, hp] using hr
  refine ⟨h.intact, ?_, ?_, ?_, h.apart, h.values, ?_, ?_, ?_, h.one, trivial, ?_⟩
  · simp [h.null, ret]
  · exact (hsame q.head hhead.symm).trans h.head
  · exact h.chain.congr (fun c hc => hsame c.1 (hcells c hc))
  · simpa [ret, inHand] using hresults
  · refine fun i => (h.filled i).congr (fun x hx => hsame x ?_)
    rintro rfl
    exact (h.owned i x hx).2 hi
  · intro i x hx
    exact ⟨(h.owned i x hx).1, by simp [ret, PopPc.item?]⟩
  · intro x hx
    cases hx

end Linked

theorem linked_new : (new : SharedQueue α).Linked ⟨none, 0⟩ [] := by
  refine ⟨rfl, ?_, ?_, rfl, ?_, rfl, rfl, fun _ => trivial, ?_, ?_, trivial, ?_⟩
  · simp [new, LocklessQueue.new, (Heap.fresh_ne_zero _).symm]
  · simp [new, LocklessQueue.new]
  · intro c hc
    cases hc
  · intro i item hi
    cases hi
  · intro i j item hi
    cases hi
  · intro item hi
    cases hi

theorem compareAndSwap_of_head (h : q.Linked sentinel cells) (old new : Nat)
    (f : Bool → SharedQueue α → SharedQueue α) :
    q.compareAndSwap q.head old new f =
      if sentinel.next = old then f true (q.swapHead sentinel new) else f false q := by
  simp only [compareAndSwap, compareAndSwapPointer, h.head, Option.map_some]
  split_ifs <;> rfl

theorem access_of_find? {p : Nat} {cell : QueueItem α} (hp : q.heap.find? p = some cell)
    (f : QueueItem α → SharedQueue α) : q.access p f = f cell := by
  simp only [access, hp]

theorem Linked.stepPusher (h : q.Linked sentinel cells) {i address : Nat}
    (hs : q.stepPusher i address = some q') : ∃ sentinel' cells', q'.Linked sentinel' cells' := by
  have hfilled := h.filled i
  unfold SharedQueue.stepPusher at hs
  cases hp : q.pushing i with
  | idle => simp [hp] at hs
  | allocate t =>
    simp only [hp] at hs
    split_ifs at hs with hused
    have hfree := not_or.mp hused
    cases hs
    exact ⟨_, _, h.allocate hfree.1 (Option.not_isSome_iff_eq_none.mp hfree.2) _ t⟩
  | setValue t item =>
    rw [hp] at hfilled
    obtain ⟨cell, hcell⟩ := hfilled
    simp only [hp, access_of_find? hcell, Option.some.injEq] at hs
    subst hs
    have hi : (q.pushing i).item? = some item := by rw [hp]; rfl
    have hset : PushPc.Filled (q.heap.assign item { cell with value := some t }) (.readHead t item) :=
      ⟨cell.next, by simp⟩
    exact ⟨_, _, h.own_item hi rfl (fun p hne => by simp [hne]) hset⟩
  | readHead t item =>
    rw [hp] at hfilled
    simp only [hp, access_of_find? h.head, Option.some.injEq] at hs
    subst hs
    have hi : (q.pushing i).item? = some item := by rw [hp]; rfl
    exact ⟨_, _, h.own_item hi rfl (fun p hne => rfl) hfilled⟩
  | writeNext t item seen =>
    rw [hp] at hfilled
    obtain ⟨next, hcell⟩ := hfilled
    simp only [hp, access_of_find? hcell, Option.some.injEq] at hs
    subst hs
    have hi : (q.pushing i).item? = some item := by rw [hp]; rfl
    have hset : PushPc.Filled (q.heap.assign item ⟨some t, seen⟩) (.readNext t item) := ⟨seen, by simp⟩
    exact ⟨_, _, h.own_item hi rfl (fun p hne => by simp [hne]) hset⟩
  | readNext t item =>
    rw [hp] at hfilled
    obtain ⟨next, hcell⟩ := hfilled
    simp only [hp, access_of_find? hcell, Option.some.injEq] at hs
    subst hs
    have hi : (q.pushing i).item? = some item := by rw [hp]; rfl
    exact ⟨_, _, h.own_item hi rfl (fun p hne => rfl) hcell⟩
  | swap t item old =>
    rw [hp] at hfilled
    simp only [hp, compareAndSwap_of_head h, Bool.false_eq_true, if_true, if_false, Option.some.injEq] at hs
    subst hs
    split_ifs with hold
    · exact ⟨_, _, h.link hp hold⟩
    · have hi : (q.pushing i).item? = some item := by rw [hp]; rfl
      exact ⟨_, _, h.own_item hi rfl (fun p hne => rfl) ⟨old, hfilled⟩⟩

theorem Linked.stepConsumer (h : q.Linked sentinel cells) (hs : q.stepConsumer = some q') :
    ∃ sentinel' cells', q'.Linked sentinel' cells' := by
  have hsees := h.sees
  unfold SharedQueue.stepConsumer at hs
  cases hp : q.popping with
  | idle => simp [hp] at hs
  | readHead call =>
    have hnone : q.popping.item? = none := by rw [hp]; rfl
    simp only [hp, access_of_find? h.head, Option.some.injEq] at hs
    subst hs
    split_ifs with hnull
    · cases call with
      | tryPop => exact ⟨_, _, h.give_up hp hnull⟩
      | waitPop => exact ⟨_, _, h.look hnone rfl trivial⟩
    · refine ⟨_, _, h.look hnone rfl ?_⟩
      have hc := h.chain
      cases cells with
      | nil => exact absurd hc hnull
      | cons c rest => exact ⟨c, List.mem_cons_self, hc.1.symm⟩
  | readNext call item =>
    rw [hp] at hsees
    obtain ⟨c, hc, hci⟩ := hsees
    have hcell : q.heap.find? item = some c.2 := hci ▸ h.chain.find? hc
    simp only [hp, access_of_find? hcell, Option.some.injEq] at hs
    subst hs
    have hnone : q.popping.item? = none := by rw [hp]; rfl
    exact ⟨_, _, h.look hnone rfl ⟨c, hc, hci, rfl⟩⟩
  | swap call item next =>
    simp only [hp, compareAndSwap_of_head h, Bool.false_eq_true, if_true, if_false, Option.some.injEq] at hs
    subst hs
    split_ifs with hitem
    · obtain ⟨rest, hrest⟩ := h.unlink hp hitem
      exact ⟨_, rest, hrest⟩
    · have hnone : q.popping.item? = none := by rw [hp]; rfl
      exact ⟨_, _, h.look hnone rfl trivial⟩
  | readValue item =>
    rw [hp] at hsees
    obtain ⟨t, next, hcell⟩ := hsees
    simp only [hp, access_of_find? hcell, Option.some.injEq] at hs
    subst hs
    exact ⟨_, _, h.take hp hcell⟩
  | delete item t =>
    rw [hp] at hsees
    obtain ⟨cell, hcell⟩ := hsees
    simp only [hp, access_of_find? hcell, Option.some.injEq] at hs
    subst hs
    exact ⟨_, _, h.delete hp⟩

theorem step_linked {a : QueueAction α} (h : ∃ sentinel cells, q.Linked sentinel cells)
    (hs : step q a = some q') : ∃ sentinel cells, q'.Linked sentinel cells := by
  obtain ⟨sentinel, cells, h⟩ := h
  simp only [step, h.intact, Bool.false_eq_true, if_false] at hs
  cases a with
  | push thread t =>
    cases hp : q.pushing thread with
    | idle =>
      simp only [hp, Option.some.injEq] at hs
      subst hs
      exact ⟨_, _, h.start_push thread t⟩
    | _ => simp [hp] at hs
  | pusher thread address => exact h.stepPusher hs
  | pop call =>
    cases hp : q.popping with
    | idle =>
      simp only [hp, Option.some.injEq] at hs
      subst hs
      have hnone : q.popping.item? = none := by rw [hp]; rfl
      exact ⟨_, _, h.look hnone rfl trivial⟩
    | _ => simp [hp] at hs
  | consumer => exact h.stepConsumer hs

theorem along_linked (as : List (QueueAction α)) :
    Along step (fun q => ∃ sentinel cells, q.Linked sentinel cells) new as :=
  along_of_step _ (fun _ _ _ hi hs => step_linked hi hs) ⟨_, _, linked_new⟩ as

theorem Linked.sound (h : q.Linked sentinel cells) : q.Sound := by
  refine ⟨h.intact, sentinel, cells, PopOrder.lifo.after [] q.history, h.head, h.chain, ?_, h.values, ?_,
    h.sees⟩
  · refine List.nodup_cons.mpr ⟨fun hm => ?_, h.chain.nodup⟩
    obtain ⟨c, hc, he⟩ := List.mem_map.mp hm
    exact h.apart c hc he
  · have hperm := PopOrder.perm_outputs_after .lifo [] q.history
    rw [h.results, List.nil_append] at hperm
    simpa [popped, pushed] using hperm

/-- Whatever the pushing threads and the consumer do and wherever new nodes are
put, every state that is reached is sound. -/
theorem sound_of_run (as : List (QueueAction α)) : Along step Sound new as :=
  (along_linked as).mono (fun _ ⟨_, _, hq⟩ => hq.sound)

/-- The consumer's calls have returned what a stack returns for the history. -/
theorem returned_eq_outputs {as : List (QueueAction α)} {q : SharedQueue α} (hr : run step new as = some q)
    (hidle : q.popping = .idle) : q.returned = PopOrder.lifo.outputs [] q.history := by
  obtain ⟨sentinel, cells, hq⟩ := (along_linked as).last hr
  have hnone : q.popping.item? = none := by rw [hidle]; rfl
  exact (hq.outputs_eq hnone).symm

end SharedQueue

end Quintses
