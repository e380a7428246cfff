import Quintses.Messages
import Mathlib.Data.List.TakeWhile

/-! The document tree of `3rdparty/rapidxml` as the loaders of the world file
read it. -/

namespace Quintses

/-- `value` is the text up to the terminator that `value()` points to. Data
nodes have no name. -/
structure XmlNode where
  name : ByteString
  value : ByteString
  children : List XmlNode

/-- A node with the siblings after it. The null pointer has none. -/
abbrev NodePtr := List XmlNode

/-- What is called on a null pointer. -/
inductive NodeCall
  | firstNode (name : ByteString)
  | value
  deriving DecidableEq

namespace XmlNode

def leaf (name value : String) : XmlNode := ⟨literal name, literal value, []⟩

def branch (name : String) (children : List XmlNode) : XmlNode := ⟨literal name, [], children⟩

variable (n : XmlNode) (name : ByteString)

def child? : Option XmlNode := n.children.find? (·.name = name)

/-- The children from the first of a name on. -/
def startingAt : List XmlNode := n.children.dropWhile (·.name ≠ name)

def childD : XmlNode := (n.child? name).getD ⟨[], [], []⟩

def textOf : ByteString := (n.childD name).value

def Has : Prop := (n.child? name).isSome

def HasAll (names : List String) : Prop := ∀ name ∈ names, n.Has (literal name)

instance : Decidable (n.Has name) := inferInstanceAs (Decidable ((n.child? name).isSome = true))

instance (names : List String) : Decidable (n.HasAll names) :=
  inferInstanceAs (Decidable (∀ name ∈ names, n.Has (literal name)))

theorem head?_startingAt : (n.startingAt name).head? = n.child? name := by
  rw [child?, List.find?_eq_head?_dropWhile_not, startingAt]
  simp only [ne_eq, decide_not]

def named : List XmlNode := n.children.filter (·.name = name)

theorem head?_named : (n.named name).head? = n.child? name := List.head?_filter

theorem filter_startingAt : (n.startingAt name).filter (·.name = name) = n.named name := by
  unfold startingAt named
  induction n.children with
  | nil => rfl
  | cons m ms ih =>
    by_cases hm : m.name = name
    · simp [hm]
    · simpa [List.dropWhile_cons, hm] using ih

theorem startingAt_eq_nil_iff : n.startingAt name = [] ↔ n.named name = [] := by
  rw [← List.head?_eq_none_iff, head?_startingAt, ← head?_named, List.head?_eq_none_iff]

variable {n name}

theorem mem_of_child? {m : XmlNode} (h : n.child? name = some m) : m ∈ n.children ∧ m.name = name := by
  have hname := List.find?_some h
  exact ⟨List.mem_of_find?_eq_some h, of_decide_eq_true hname⟩

theorem named_eq_startingAt (h : ∀ m ∈ n.startingAt name, m.name = name) : n.named name = n.startingAt name := by
  rw [← filter_startingAt, List.filter_eq_self]
  exact fun m hm => decide_eq_true (h m hm)

theorem mem_of_mem_startingAt {m : XmlNode} (h : m ∈ n.startingAt name) : m ∈ n.children :=
  (List.dropWhile_suffix _).subset h

end XmlNode

namespace NodePtr

def firstNode (name : ByteString) : NodePtr → Except NodeCall NodePtr
  | [] => .error (.firstNode name)
  | n :: _ => .ok (n.startingAt name)

def value : NodePtr → Except NodeCall ByteString
  | [] => .error .value
  | n :: _ => .ok n.value

def isNull : NodePtr → Bool := List.isEmpty

/-- `node->first_node(name)->value()`. -/
def text (name : ByteString) (node : NodePtr) : Except NodeCall ByteString := do
  value (← firstNode name node)

variable {n : XmlNode} {rest : List XmlNode} {name : ByteString}

theorem firstNode_cons (n : XmlNode) (rest : List XmlNode) (name : ByteString) :
    firstNode name (n :: rest) = .ok (n.startingAt name) := rfl

theorem text_cons : text name (n :: rest) = if n.Has name then .ok (n.textOf name) else .error .value := by
  have hhead := n.head?_startingAt name
  rw [text, firstNode_cons]
  cases hptr : n.startingAt name with
  | nil =>
    rw [hptr] at hhead
    have hno : ¬n.Has name := by simp [XmlNode.Has, ← hhead]
    rw [if_neg hno]
    rfl
  | cons m later =>
    rw [hptr] at hhead
    have hyes : n.Has name := by simp [XmlNode.Has, ← hhead]
    have htext : n.textOf name = m.value := by simp [XmlNode.textOf, XmlNode.childD, ← hhead]
    rw [if_pos hyes, htext]
    rfl

theorem ok_bind {α β : Type} (a : α) (f : α → Except NodeCall β) : (Except.ok a >>= f) = f a := rfl

theorem ite_bind {p : Prop} [Decidable p] {α β : Type} (a : α) (e : NodeCall) (f : α → Except NodeCall β) :
    ((if p then Except.ok a else .error e) >>= f) = if p then f a else .error e := by
  split <;> rfl

/-- Reading one field after another is a nest of conditionals. -/
theorem text_bind {α : Type} (f : ByteString → Except NodeCall α) :
    (text name (n :: rest) >>= f) = if n.Has name then f (n.textOf name) else .error .value := by
  rw [text_cons, ite_bind]

end NodePtr

end Quintses
