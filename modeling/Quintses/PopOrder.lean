import Mathlib.Data.List.Nodup

/-! Containers that hand elements back first-in-first-out or last-in-first-out,
kept as the list of pending elements in the order in which they come out. -/

inductive PopOrder
  | fifo
  | lifo
  deriving DecidableEq

inductive QueueOp (α : Type*)
  | push (t : α)
  | tryPop

inductive QueueCall
  | push
  | tryPop
  deriving DecidableEq

def QueueOp.call {α : Type*} : QueueOp α → QueueCall
  | .push _ => .push
  | .tryPop => .tryPop

namespace PopOrder

variable {α : Type*}

def add : PopOrder → List α → α → List α
  | fifo, q, t => q ++ [t]
  | lifo, q, t => t :: q

@[simp] theorem mem_add {o : PopOrder} {q : List α} {t x : α} : x ∈ o.add q t ↔ x = t ∨ x ∈ q := by
  cases o <;> simp [add, or_comm]

theorem perm_add (o : PopOrder) (q : List α) (t : α) : (o.add q t).Perm (t :: q) := by
  cases o with
  | fifo => exact List.perm_append_singleton t q
  | lifo => exact List.Perm.refl _

theorem perm_foldl_add (o : PopOrder) (ts q : List α) : (ts.foldl o.add q).Perm (ts ++ q) := by
  induction ts generalizing q with
  | nil => exact List.Perm.refl q
  | cons t ts ih => exact (ih (o.add q t)).trans (((o.perm_add q t).append_left ts).trans List.perm_middle)

theorem mem_foldl_add {o : PopOrder} {ts : List α} {q : List α} {x : α} :
    x ∈ ts.foldl o.add q ↔ x ∈ ts ∨ x ∈ q := by
  induction ts generalizing q with
  | nil => simp
  | cons t ts ih => simp [ih, or_left_comm, or_assoc]

theorem filterMap_add_of_none {β : Type*} {f : α → Option β} (o : PopOrder) (q : List α) {t : α}
    (h : f t = none) : (o.add q t).filterMap f = q.filterMap f := by
  cases o <;> simp [add, h]

theorem filterMap_add_of_some {β : Type*} {f : α → Option β} (o : PopOrder) (q : List α) {t : α} {u : β}
    (h : f t = some u) : (o.add q t).filterMap f = o.add (q.filterMap f) u := by
  cases o <;> simp [add, h]

theorem filterMap_foldl_add_of_nil {β : Type*} {f : α → Option β} (o : PopOrder) {ts : List α} (q : List α)
    (h : ts.filterMap f = []) : (ts.foldl o.add q).filterMap f = q.filterMap f := by
  induction ts generalizing q with
  | nil => rfl
  | cons t ts ih =>
    have hall := List.filterMap_eq_nil_iff.mp h
    rw [List.foldl_cons, ih (o.add q t)]
    · exact filterMap_add_of_none o q (hall t List.mem_cons_self)
    · exact List.filterMap_eq_nil_iff.mpr (fun x hx => hall x (List.mem_cons_of_mem t hx))

def outputs (o : PopOrder) : List α → List (QueueOp α) → List (Option α)
  | _, [] => []
  | q, .push t :: h => outputs o (o.add q t) h
  | [], .tryPop :: h => none :: outputs o [] h
  | x :: q, .tryPop :: h => some x :: outputs o q h

def after (o : PopOrder) : List α → List (QueueOp α) → List α
  | q, [] => q
  | q, .push t :: h => after o (o.add q t) h
  | [], .tryPop :: h => after o [] h
  | _ :: q, .tryPop :: h => after o q h

def pushed : List (QueueOp α) → List α
  | [] => []
  | .push t :: h => t :: pushed h
  | .tryPop :: h => pushed h

theorem after_append (o : PopOrder) (q : List α) (h h' : List (QueueOp α)) :
    after o q (h ++ h') = after o (after o q h) h' := by
  induction h generalizing q with
  | nil => rfl
  | cons op h ih =>
    cases op with
    | push t => exact ih (o.add q t)
    | tryPop =>
      cases q with
      | nil => exact ih []
      | cons x q => exact ih q

theorem outputs_append (o : PopOrder) (q : List α) (h h' : List (QueueOp α)) :
    outputs o q (h ++ h') = outputs o q h ++ outputs o (after o q h) h' := by
  induction h generalizing q with
  | nil => rfl
  | cons op h ih =>
    cases op with
    | push t => exact ih (o.add q t)
    | tryPop =>
      cases q with
      | nil => exact congrArg (none :: ·) (ih [])
      | cons x q => exact congrArg (some x :: ·) (ih q)

/-- Nothing is lost, doubled or made up. -/
theorem perm_outputs_after (o : PopOrder) (q : List α) (h : List (QueueOp α)) :
    (q ++ pushed h).Perm ((outputs o q h).filterMap id ++ after o q h) := by
  induction h generalizing q with
  | nil => simp [pushed, outputs, after]
  | cons op h ih =>
    cases op with
    | push t =>
      have hadd : (q ++ t :: pushed h).Perm (o.add q t ++ pushed h) :=
        List.perm_middle.trans ((o.perm_add q t).symm.append_right (pushed h))
      exact hadd.trans (ih (o.add q t))
    | tryPop =>
      cases q with
      | nil => simpa [pushed, outputs, after] using ih []
      | cons x q => simpa [pushed, outputs, after] using ih q

/-- Starting with `n` pending elements, no `tryPop` is called while two or
more are pending. -/
def AtMostOnePending : Nat → List QueueCall → Prop
  | _, [] => True
  | n, .push :: c => AtMostOnePending (n + 1) c
  | n, .tryPop :: c => n ≤ 1 ∧ AtMostOnePending (n - 1) c

theorem lifo_eq_fifo_of_atMostOnePending (h : List (QueueOp α)) (q : List α)
    (hone : AtMostOnePending q.length (h.map QueueOp.call)) :
    outputs lifo q.reverse h = outputs fifo q h := by
  induction h generalizing q with
  | nil => simp [outputs]
  | cons op h ih =>
    cases op with
    | push t => simpa [outputs, add] using ih (q ++ [t]) (by simpa [QueueOp.call, AtMostOnePending] using hone)
    | tryPop =>
      obtain ⟨hle, hone⟩ : q.length ≤ 1 ∧ AtMostOnePending (q.length - 1) (h.map QueueOp.call) := hone
      match q, hle with
      | [], _ => simpa [outputs] using ih [] hone
      | [x], _ => simpa [outputs] using ih [] hone

theorem atMostOnePending_of_lifo_eq_fifo (h : List (QueueOp α)) (q : List α)
    (hnd : (q ++ pushed h).Nodup) (he : outputs lifo q.reverse h = outputs fifo q h) :
    AtMostOnePending q.length (h.map QueueOp.call) := by
  induction h generalizing q with
  | nil => trivial
  | cons op h ih =>
    cases op with
    | push t =>
      have hh := ih (q ++ [t]) (by simpa [pushed] using hnd) (by simpa [outputs, add] using he)
      simpa [QueueOp.call, AtMostOnePending] using hh
    | tryPop =>
      match q with
      | [] => exact ⟨by simp, ih [] hnd (by simpa [outputs] using he)⟩
      | [x] =>
        have hnd' : ([] ++ pushed h).Nodup := (List.nodup_cons.mp hnd).2
        exact ⟨by simp, ih [] hnd' (by simpa [outputs] using he)⟩
      | x :: y :: q =>
        -- the last element comes out of one container and the first out of the other
        obtain ⟨q', z, hz⟩ : ∃ q' z, y :: q = q' ++ [z] := by
          simpa using List.eq_nil_or_concat (y :: q)
        have hxz : z = x := by
          rw [List.reverse_cons, hz, List.reverse_append] at he
          simpa [outputs] using (List.cons.inj he).1
        have hx : x ∉ y :: q := fun hm => (List.nodup_cons.mp hnd).1 (List.mem_append_left _ hm)
        exact absurd (by simp [hz, hxz]) hx

def numbered : Nat → List QueueCall → List (QueueOp Nat)
  | _, [] => []
  | n, .push :: c => .push n :: numbered (n + 1) c
  | n, .tryPop :: c => .tryPop :: numbered n c

theorem numbered_call (n : Nat) (c : List QueueCall) : (numbered n c).map QueueOp.call = c := by
  induction c generalizing n with
  | nil => rfl
  | cons a c ih => cases a <;> simp [numbered, QueueOp.call, ih]

theorem le_of_mem_pushed_numbered {n x : Nat} {c : List QueueCall}
    (hx : x ∈ pushed (numbered n c)) : n ≤ x := by
  induction c generalizing n with
  | nil => simp [numbered, pushed] at hx
  | cons a c ih =>
    cases a with
    | push =>
      rcases List.mem_cons.mp hx with rfl | hx
      · exact Nat.le_refl _
      · exact Nat.le_of_succ_le (ih hx)
    | tryPop => exact ih hx

theorem nodup_pushed_numbered (n : Nat) (c : List QueueCall) : (pushed (numbered n c)).Nodup := by
  induction c generalizing n with
  | nil => exact List.nodup_nil
  | cons a c ih =>
    cases a with
    | push =>
      refine List.nodup_cons.mpr ⟨fun hm => ?_, ih (n + 1)⟩
      have := le_of_mem_pushed_numbered hm
      omega
    | tryPop => exact ih n

end PopOrder
