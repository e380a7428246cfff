import Quintses.Lts
import Quintses.RefCount
import Quintses.Wire

/-! `XmlDom` of `core/util/xml.hpp`: handles that share a document and count
themselves in a counter next to it. -/

namespace Quintses

open Lts

structure XmlDom where
  count : Nat
  document : Nat
  deriving DecidableEq

structure XmlHeap where
  counters : Heap UInt32
  documents : Heap ByteString
  /-- Something that is not there was read, written or deleted. -/
  undefined : Bool

namespace XmlHeap

variable (h : XmlHeap)

def fetchAndIncrementP (p : Nat) : XmlHeap :=
  { h with counters := h.counters.modify p (· + 1), undefined := h.undefined || !h.counters.contains p }

def fetchAndDecrementP (p : Nat) : XmlHeap :=
  { h with counters := h.counters.modify p (· - 1), undefined := h.undefined || !h.counters.contains p }

/-- `delete m_count` and `delete m_document`; null can be deleted. -/
def delete (x : XmlDom) : XmlHeap where
  counters := Heap.free h.counters x.count
  documents := Heap.free h.documents x.document
  undefined := h.undefined || !(x.count == 0 || h.counters.contains x.count)
    || !(x.document == 0 || h.documents.contains x.document)

/-- `XmlDom(std::string text)`. No destructor runs when `parse` throws. -/
def construct (parses : ByteString → Bool) (text : ByteString) : XmlHeap × Option XmlDom :=
  let string := text.takeWhile (· != 0)
  ({ h with counters := h.counters.alloc 1, documents := h.documents.alloc string },
    if parses string then some ⟨h.counters.fresh, h.documents.fresh⟩ else none)

/-- What `~XmlDom` and `operator=` do with the document they let go. -/
def release (x : XmlDom) : XmlHeap :=
  let h := h.fetchAndDecrementP x.count
  if h.counters.find? x.count = some 0 then h.delete x else h

/-- `~XmlDom()` -/
def destroy (x : XmlDom) : XmlHeap := if x.count ≠ 0 then h.release x else h

/-- `XmlDom(const XmlDom& rhs)` -/
def copy (rhs : XmlDom) : XmlHeap := if rhs.count ≠ 0 then h.fetchAndIncrementP rhs.count else h

/-- `operator=(const XmlDom& rhs)`, which lets go before it takes hold. -/
def assign (self rhs : XmlDom) : XmlHeap := (if self.document ≠ 0 then h.release self else h).copy rhs

/-- The counters and documents that exist are those of the handles, and each
counter has their number. -/
structure Exact (h : XmlHeap) (handles : List XmlDom) : Prop where
  defined : h.undefined = false
  counters : RefCount.Exact h.counters (handles.map XmlDom.count)
  documents : ∀ d, d ∈ h.documents.keys ↔ d ≠ 0 ∧ d ∈ handles.map XmlDom.document
  null : ∀ x ∈ handles, x.count = 0 ↔ x.document = 0
  paired : ∀ x ∈ handles, ∀ y ∈ handles, x.count = y.count ↔ x.document = y.document

end XmlHeap

namespace XmlHeap.Exact

variable {h : XmlHeap} {x y : XmlDom} {xs ys : List XmlDom}

theorem perm (he : Exact h xs) (hp : xs.Perm ys) : Exact h ys where
  defined := he.defined
  counters := he.counters.perm (hp.map XmlDom.count)
  documents d := by rw [he.documents, (hp.map XmlDom.document).mem_iff]
  null x hx := he.null x (hp.mem_iff.mpr hx)
  paired x hx y hy := he.paired x (hp.mem_iff.mpr hx) y (hp.mem_iff.mpr hy)

theorem eq_of_count (he : Exact h xs) (hx : x ∈ xs) (hy : y ∈ xs) (hc : x.count = y.count) : x = y := by
  have hd := (he.paired x hx y hy).mp hc
  cases x
  cases y
  simp_all

theorem contains_count (he : Exact h xs) (hx : x ∈ xs) (hne : x.count ≠ 0) : h.counters.contains x.count = true := by
  obtain ⟨n, hn, -⟩ := he.counters.find? hne (List.mem_map_of_mem hx)
  simp [StdMap.contains, hn]

theorem contains_document (he : Exact h xs) (hx : x ∈ xs) (hne : x.document ≠ 0) :
    h.documents.contains x.document = true := by
  obtain ⟨n, hn⟩ := StdMap.mem_keys.mp ((he.documents _).mpr ⟨hne, List.mem_map_of_mem hx⟩)
  simp [StdMap.contains, hn]

theorem null_cons (he : Exact h xs) : Exact h (⟨0, 0⟩ :: xs) where
  defined := he.defined
  counters := he.counters.null_cons
  documents d := by
    rw [he.documents, List.map_cons, List.mem_cons]
    exact ⟨fun hd => ⟨hd.1, Or.inr hd.2⟩, fun hd => ⟨hd.1, hd.2.resolve_left hd.1⟩⟩
  null x hx := by
    rcases List.mem_cons.mp hx with rfl | hx
    · exact Iff.rfl
    · exact he.null x hx
  paired x hx y hy := by
    rcases List.mem_cons.mp hx with rfl | hx <;> rcases List.mem_cons.mp hy with rfl | hy
    · exact Iff.of_eq (by simp)
    · simpa [eq_comm] using he.null y hy
    · exact he.null x hx
    · exact he.paired x hx y hy

theorem of_null_cons (he : Exact h (x :: xs)) (hx : x.count = 0) : Exact h xs := by
  have hd : x.document = 0 := (he.null x List.mem_cons_self).mp hx
  refine ⟨he.defined, ?_, fun d => ?_, fun y hy => he.null y (List.mem_cons_of_mem x hy),
    fun y hy z hz => he.paired y (List.mem_cons_of_mem x hy) z (List.mem_cons_of_mem x hz)⟩
  · have hcounters := he.counters
    rw [List.map_cons, hx] at hcounters
    exact hcounters.of_null_cons
  · rw [he.documents, List.map_cons, List.mem_cons, hd]
    exact ⟨fun h => ⟨h.1, h.2.resolve_left h.1⟩, fun h => ⟨h.1, Or.inr h.2⟩⟩

theorem construct (he : Exact h xs) (string : ByteString) :
    Exact { h with counters := h.counters.alloc 1, documents := h.documents.alloc string }
      (⟨h.counters.fresh, h.documents.fresh⟩ :: xs) := by
  have hcount : ∀ x ∈ xs, x.count ≠ h.counters.fresh := by
    intro x hx hf
    exact he.counters.fresh_not_mem (hf ▸ List.mem_map_of_mem hx)
  have hdocument : ∀ x ∈ xs, x.document ≠ h.documents.fresh := by
    intro x hx hf
    have hc := he.contains_document hx (hf ▸ Heap.fresh_ne_zero h.documents)
    simp [StdMap.contains, hf, Heap.find?_fresh] at hc
  refine ⟨he.defined, he.counters.alloc, fun d => ?_, fun x hx => ?_, fun x hx y hy => ?_⟩
  · rw [(Heap.keys_alloc_perm h.documents string).mem_iff, List.mem_cons, List.map_cons, List.mem_cons, he.documents]
    constructor
    · rintro (rfl | hd)
      · exact ⟨Heap.fresh_ne_zero h.documents, Or.inl rfl⟩
      · exact ⟨hd.1, Or.inr hd.2⟩
    · rintro ⟨hne, hd⟩
      exact hd.imp id (fun hd => ⟨hne, hd⟩)
  · rcases List.mem_cons.mp hx with rfl | hx
    · simp [Heap.fresh_ne_zero]
    · exact he.null x hx
  · rcases List.mem_cons.mp hx with rfl | hx <;> rcases List.mem_cons.mp hy with rfl | hy
    · simp
    · simp [(hcount y hy).symm, (hdocument y hy).symm]
    · simp [hcount x hx, hdocument x hx]
    · exact he.paired x hx y hy

/-- One more handle of a document that already has one. -/
theorem mem_documents_cons (hy : y ∈ xs) {d : Nat} :
    d ∈ (y :: xs).map XmlDom.document ↔ d ∈ xs.map XmlDom.document := by
  rw [List.map_cons, List.mem_cons]
  refine ⟨?_, Or.inr⟩
  rintro (rfl | hd)
  · exact List.mem_map_of_mem hy
  · exact hd

theorem eq_null (he : Exact h xs) (hy : y ∈ xs) (hc : y.count = 0) : y = ⟨0, 0⟩ := by
  have hd : y.document = 0 := (he.null y hy).mp hc
  cases y
  simp_all

theorem copy (he : Exact h xs)
    (hy : y = ⟨0, 0⟩ ∨ y ∈ xs ∧ y.count ≠ 0 ∧ (xs.map XmlDom.count).count y.count + 1 < 2 ^ 32) :
    Exact (h.copy y) (y :: xs) := by
  rcases hy with rfl | ⟨hy, hne, hlt⟩
  · exact he.null_cons
  · have hmem : ∀ z ∈ y :: xs, z ∈ xs := by
      intro z hz
      rcases List.mem_cons.mp hz with rfl | hz
      · exact hy
      · exact hz
    rw [XmlHeap.copy, if_pos hne]
    refine ⟨?_, he.counters.increment hne (List.mem_map_of_mem hy) hlt, fun d => ?_,
      fun z hz => he.null z (hmem z hz), fun z hz w hw => he.paired z (hmem z hz) w (hmem w hw)⟩
    · simp [fetchAndIncrementP, he.defined, he.contains_count hy hne]
    · exact (he.documents d).trans (and_congr_right (fun _ => (mem_documents_cons hy).symm))

theorem release (he : Exact h (x :: xs)) (hne : x.count ≠ 0) : Exact (h.release x) xs := by
  have hx : x ∈ x :: xs := List.mem_cons_self
  have hnull : ∀ y ∈ xs, y.count = 0 ↔ y.document = 0 := fun y hy => he.null y (List.mem_cons_of_mem x hy)
  have hpaired : ∀ y ∈ xs, ∀ z ∈ xs, y.count = z.count ↔ y.document = z.document := fun y hy z hz =>
    he.paired y (List.mem_cons_of_mem x hy) z (List.mem_cons_of_mem x hz)
  have hdefined : (h.fetchAndDecrementP x.count).undefined = false := by
    simp [fetchAndDecrementP, he.defined, he.contains_count hx hne]
  by_cases hmore : x.count ∈ xs.map XmlDom.count
  · obtain ⟨hcounters, hread⟩ := he.counters.decrement hne hmore
    have hxs : x ∈ xs := by
      obtain ⟨y, hy, hc⟩ := List.mem_map.mp hmore
      exact he.eq_of_count (List.mem_cons_of_mem x hy) hx hc ▸ hy
    have hrelease : h.release x = h.fetchAndDecrementP x.count := if_neg hread
    refine hrelease ▸ ⟨hdefined, hcounters, fun d => ?_, hnull, hpaired⟩
    exact (he.documents d).trans (and_congr_right (fun _ => mem_documents_cons hxs))
  · obtain ⟨hread, hcounters⟩ := he.counters.last hne hmore
    have hrelease : h.release x = (h.fetchAndDecrementP x.count).delete x := if_pos hread
    have hdocument : x.document ∉ xs.map XmlDom.document := by
      intro hd
      obtain ⟨y, hy, hd⟩ := List.mem_map.mp hd
      have hc := (he.paired y (List.mem_cons_of_mem x hy) x hx).mpr hd
      exact hmore (hc ▸ List.mem_map_of_mem hy)
    have hdne : x.document ≠ 0 := fun h0 => hne ((he.null x hx).mpr h0)
    refine hrelease ▸ ⟨?_, hcounters, fun d => ?_, hnull, hpaired⟩
    · have hc : (h.fetchAndDecrementP x.count).counters.contains x.count = true := by
        simp only [StdMap.contains]
        exact Option.isSome_of_eq_some hread
      have hd : (h.fetchAndDecrementP x.count).documents.contains x.document = true :=
        he.contains_document hx hdne
      simp [XmlHeap.delete, hdefined, hc, hd]
    · by_cases hdx : d = x.document
      · subst hdx
        simp [XmlHeap.delete, StdMap.mem_keys, hdocument]
      · have hkeys : d ∈ (Heap.free h.documents x.document).keys ↔ d ∈ h.documents.keys := by
          simp [StdMap.mem_keys, hdx]
        refine (hkeys.trans (he.documents d)).trans (and_congr_right (fun _ => ?_))
        rw [List.map_cons, List.mem_cons]
        exact or_iff_right hdx

theorem destroy (he : Exact h (x :: xs)) : Exact (h.destroy x) xs := by
  by_cases hx : x.count = 0
  · simpa [XmlHeap.destroy, hx] using he.of_null_cons hx
  · simpa [XmlHeap.destroy, hx] using he.release hx

/-- The destructor tests one pointer and `operator=` the other. -/
theorem assign_eq (he : Exact h (x :: xs)) (y : XmlDom) : h.assign x y = (h.destroy x).copy y := by
  have hnull := he.null x List.mem_cons_self
  by_cases hx : x.count = 0
  · simp [XmlHeap.assign, XmlHeap.destroy, hx, hnull.mp hx]
  · have hd : x.document ≠ 0 := fun h0 => hx (hnull.mpr h0)
    simp [XmlHeap.assign, XmlHeap.destroy, hx, hd]

/-- The only handle of a document lets it go and takes hold of it again. -/
theorem assign_self (he : Exact h (x :: xs)) (hne : x.count ≠ 0) (hlast : x.count ∉ xs.map XmlDom.count) :
    (h.assign x x).undefined = true := by
  obtain ⟨hread, -⟩ := he.counters.last hne hlast
  have hrelease : h.release x = (h.fetchAndDecrementP x.count).delete x := if_pos hread
  have hgone : (h.release x).counters.contains x.count = false := by
    simp [hrelease, XmlHeap.delete, StdMap.contains]
  rw [he.assign_eq, XmlHeap.destroy, if_pos hne, XmlHeap.copy, if_pos hne, fetchAndIncrementP, hgone]
  simp

end XmlHeap.Exact

/-- The `XmlDom` objects that are alive, by their address. -/
structure XmlHandles where
  heap : XmlHeap
  handles : StdMap Nat XmlDom

inductive XmlOp
  | empty (self : Nat)
  | construct (self : Nat) (text : ByteString)
  | copy (self rhs : Nat)
  | assign (self rhs : Nat)
  | destroy (self : Nat)

namespace XmlHandles

def new : XmlHandles := ⟨⟨StdMap.empty, StdMap.empty, false⟩, StdMap.empty⟩

variable (s : XmlHandles)

/-- A constructor runs where no object is, all else on objects that are alive. -/
def apply (parses : ByteString → Bool) : XmlOp → Option XmlHandles
  | .empty self =>
    match s.handles.find? self with
    | some _ => none
    | none => some { s with handles := s.handles.assign self ⟨0, 0⟩ }
  | .construct self text =>
    match s.handles.find? self with
    | some _ => none
    | none =>
      let (heap, x) := s.heap.construct parses text
      some ⟨heap, x.elim s.handles (s.handles.assign self)⟩
  | .copy self rhs =>
    match s.handles.find? self, s.handles.find? rhs with
    | none, some y => some ⟨s.heap.copy y, s.handles.assign self y⟩
    | _, _ => none
  | .assign self rhs =>
    match s.handles.find? self, s.handles.find? rhs with
    | some x, some y => some ⟨s.heap.assign x y, s.handles.assign self y⟩
    | _, _ => none
  | .destroy self =>
    match s.handles.find? self with
    | some x => some ⟨s.heap.destroy x, s.handles.erase self⟩
    | none => none

def step (parses : ByteString → Bool) (s : XmlHandles) (op : XmlOp) : Option XmlHandles :=
  if s.heap.undefined then none else s.apply parses op

def Exact : Prop := s.heap.Exact s.handles.values

def pointer (a : Nat) : Nat := ((s.handles.find? a).getD ⟨0, 0⟩).count

/-- How many handles have the counter of this one. -/
def sharing (a : Nat) : Nat := (s.handles.values.map XmlDom.count).count (s.pointer a)

/-- Another handle can be counted. -/
def Countable (a : Nat) : Prop := s.pointer a = 0 ∨ s.sharing a + 1 < 2 ^ 32

/-- Every text parses, no handle that has a document for itself is assigned to
itself, and no document gets 2 ^ 32 handles. -/
def KeepsCount (parses : ByteString → Bool) : XmlOp → Prop
  | .construct _ text => parses (text.takeWhile (· != 0))
  | .copy _ rhs => s.Countable rhs
  | .assign self rhs =>
    (self = rhs → s.pointer self = 0 ∨ 2 ≤ s.sharing self) ∧
      (s.pointer rhs = s.pointer self ∨ s.Countable rhs)
  | .empty _ | .destroy _ => True

variable {s} {t : XmlHandles} {parses : ByteString → Bool} {x y : XmlDom} {a self rhs : Nat} {op : XmlOp}

theorem pointer_of_find? (h : s.handles.find? a = some x) : s.pointer a = x.count := by simp [pointer, h]

theorem succ_count_lt {heap : XmlHeap} {xs : List XmlDom} (he : heap.Exact (x :: xs)) (hne : x.count ≠ 0) :
    (xs.map XmlDom.count).count x.count + 1 < 2 ^ 32 := by
  have hlt := he.counters.count_lt hne (List.mem_map_of_mem List.mem_cons_self)
  rwa [List.map_cons, List.count_cons_self] at hlt

theorem mem_values (h : s.handles.find? a = some x) : x ∈ s.handles.values :=
  List.mem_map.mpr ⟨(a, x), StdMap.mem_entries.mpr h, rfl⟩

def others (s : XmlHandles) (self : Nat) : List XmlDom := (s.handles.erase self).values

theorem mem_others (h : s.handles.find? rhs = some y) (hne : rhs ≠ self) : y ∈ s.others self :=
  List.mem_map.mpr ⟨(rhs, y), StdMap.mem_entries.mpr (by simp [h, hne]), rfl⟩

theorem sharing_eq (hself : s.handles.find? self = some x) (hrhs : s.handles.find? rhs = some y) :
    s.sharing rhs = (x.count :: (s.others self).map XmlDom.count).count y.count := by
  rw [sharing, pointer_of_find? hrhs]
  exact ((StdMap.values_erase_perm hself).map XmlDom.count).count_eq y.count

theorem copied (he : s.Exact) (hrhs : s.handles.find? rhs = some y) (hok : s.Countable rhs) :
    (s.heap.copy y).Exact (y :: s.handles.values) := by
  have hy := mem_values hrhs
  refine he.copy ?_
  rcases hok with hnull | hlt
  · exact Or.inl (he.eq_null hy (by rw [← pointer_of_find? hrhs, hnull]))
  · by_cases hne : y.count = 0
    · exact Or.inl (he.eq_null hy hne)
    · exact Or.inr ⟨hy, hne, by rwa [sharing, pointer_of_find? hrhs] at hlt⟩

theorem assigned (he : s.Exact) (hself : s.handles.find? self = some x) (hrhs : s.handles.find? rhs = some y)
    (hok : s.KeepsCount parses (.assign self rhs)) : (s.heap.assign x y).Exact (y :: s.others self) := by
  have hxs : s.heap.Exact (x :: s.others self) := he.perm (StdMap.values_erase_perm hself)
  have hy := mem_values hrhs
  rw [hxs.assign_eq]
  refine hxs.destroy.copy ?_
  by_cases hne : y.count = 0
  · exact Or.inl (he.eq_null hy hne)
  have hmem : y ∈ s.others self := by
    by_cases hr : rhs = self
    · subst hr
      obtain rfl : x = y := Option.some.inj (hself.symm.trans hrhs)
      have hshared : 2 ≤ s.sharing rhs := (hok.1 rfl).resolve_left (by rwa [pointer_of_find? hself])
      rw [sharing_eq hself hself, List.count_cons_self] at hshared
      have hpos : 0 < ((s.others rhs).map XmlDom.count).count x.count := by omega
      obtain ⟨z, hz, hc⟩ := List.mem_map.mp (List.count_pos_iff.mp hpos)
      exact hxs.eq_of_count (List.mem_cons_of_mem x hz) List.mem_cons_self hc ▸ hz
    · exact mem_others hrhs hr
  refine Or.inr ⟨hmem, hne, ?_⟩
  rcases hok.2 with hsame | hnull | hlt
  · -- what the left side lets go makes room for one more
    rw [pointer_of_find? hself, pointer_of_find? hrhs] at hsame
    have hroom := hxs.counters.count_lt hne (List.mem_map_of_mem (List.mem_cons_of_mem x hmem))
    rwa [List.map_cons, hsame, List.count_cons_self, ← hsame] at hroom
  · exact absurd (by rw [← pointer_of_find? hrhs, hnull]) hne
  · rw [sharing_eq hself hrhs] at hlt
    have hle := List.count_le_count_cons (a := y.count) (b := x.count) (l := (s.others self).map XmlDom.count)
    omega

theorem apply_construct {text : ByteString} :
    s.apply parses (.construct self text) = some t ↔
      s.handles.find? self = none ∧
        ⟨(s.heap.construct parses text).1,
          (s.heap.construct parses text).2.elim s.handles (s.handles.assign self)⟩ = t := by
  cases hself : s.handles.find? self <;> simp [apply, hself]

theorem apply_copy :
    s.apply parses (.copy self rhs) = some t ↔
      s.handles.find? self = none ∧ ∃ y, s.handles.find? rhs = some y ∧
        ⟨s.heap.copy y, s.handles.assign self y⟩ = t := by
  cases hself : s.handles.find? self <;> cases hrhs : s.handles.find? rhs <;> simp [apply, hself, hrhs]

theorem apply_assign :
    s.apply parses (.assign self rhs) = some t ↔
      ∃ x, s.handles.find? self = some x ∧ ∃ y, s.handles.find? rhs = some y ∧
        ⟨s.heap.assign x y, s.handles.assign self y⟩ = t := by
  cases hself : s.handles.find? self <;> cases hrhs : s.handles.find? rhs <;> simp [apply, hself, hrhs]

theorem exact_step (he : s.Exact) (hok : s.KeepsCount parses op) (hs : step parses s op = some t) :
    t.Exact := by
  rw [XmlHandles.step, he.defined, if_neg Bool.false_ne_true] at hs
  cases op with
  | empty self =>
    cases hself : s.handles.find? self with
    | none =>
      simp only [apply, hself, Option.some.injEq] at hs
      exact hs ▸ he.null_cons.perm (StdMap.values_assign_perm hself).symm
    | some x => simp [apply, hself] at hs
  | construct self text =>
    have hparses : parses (text.takeWhile (· != 0)) = true := hok
    obtain ⟨hself, rfl⟩ := apply_construct.mp hs
    simp only [XmlHeap.construct, hparses, if_true]
    exact (he.construct _).perm (StdMap.values_assign_perm hself).symm
  | copy self rhs =>
    obtain ⟨hself, y, hrhs, rfl⟩ := apply_copy.mp hs
    exact (copied he hrhs hok).perm (StdMap.values_assign_perm hself).symm
  | assign self rhs =>
    obtain ⟨x, hself, y, hrhs, rfl⟩ := apply_assign.mp hs
    exact (assigned he hself hrhs hok).perm (StdMap.values_assign_erase_perm _ _ _).symm
  | destroy self =>
    cases hself : s.handles.find? self with
    | none => simp [apply, hself] at hs
    | some x =>
      simp only [apply, hself, Option.some.injEq] at hs
      exact hs ▸ (he.perm (StdMap.values_erase_perm hself)).destroy

theorem not_exact_step (he : s.Exact) (hno : ¬ s.KeepsCount parses op) (hs : step parses s op = some t) :
    ¬ t.Exact := by
  intro ht
  rw [step, he.defined, if_neg Bool.false_ne_true] at hs
  cases op with
  | empty self => exact hno trivial
  | construct self text =>
    -- the counter and the document of a text that does not parse stay
    have hparses : parses (text.takeWhile (· != 0)) = false := by simpa [KeepsCount] using hno
    obtain ⟨-, rfl⟩ := apply_construct.mp hs
    simp only [XmlHeap.construct, hparses, Bool.false_eq_true, if_false, Option.elim_none] at ht
    have hmem := (ht.counters.allocated s.heap.counters.fresh).mp (StdMap.mem_keys.mpr ⟨1, by simp⟩)
    exact he.counters.fresh_not_mem hmem.2
  | copy self rhs =>
    obtain ⟨hself, y, hrhs, rfl⟩ := apply_copy.mp hs
    obtain ⟨hne, hlarge⟩ := not_or.mp hno
    rw [sharing, pointer_of_find? hrhs] at hlarge
    rw [pointer_of_find? hrhs] at hne
    exact hlarge (succ_count_lt (ht.perm (StdMap.values_assign_perm hself)) hne)
  | assign self rhs =>
    obtain ⟨x, hself, y, hrhs, rfl⟩ := apply_assign.mp hs
    have hxs : s.heap.Exact (x :: s.others self) := he.perm (StdMap.values_erase_perm hself)
    have hys : (s.heap.assign x y).Exact (y :: s.others self) := ht.perm (StdMap.values_assign_erase_perm _ _ _)
    rcases not_and_or.mp hno with hfew | hlarge
    · simp only [Classical.not_imp, not_or] at hfew
      obtain ⟨rfl, hne, hfew⟩ := hfew
      obtain rfl : x = y := Option.some.inj (hself.symm.trans hrhs)
      rw [pointer_of_find? hself] at hne
      rw [sharing_eq hself hself, List.count_cons_self] at hfew
      have hlast : x.count ∉ (s.others self).map XmlDom.count := List.count_eq_zero.mp (by omega)
      exact absurd hys.defined (by simp [hxs.assign_self hne hlast])
    · obtain ⟨hother, hlarge⟩ := not_or.mp hlarge
      obtain ⟨hne, hlarge⟩ := not_or.mp hlarge
      rw [pointer_of_find? hself, pointer_of_find? hrhs] at hother
      rw [pointer_of_find? hrhs] at hne
      rw [sharing_eq hself hrhs, List.count_cons_of_ne (Ne.symm hother)] at hlarge
      exact hlarge (succ_count_lt hys hne)
  | destroy self => exact hno trivial

theorem exact_new : new.Exact where
  defined := rfl
  counters := RefCount.Exact.nil
  documents d := by simp [new, StdMap.keys, StdMap.values, StdMap.empty]
  null x hx := by cases hx
  paired x hx := by cases hx

theorem along_exact (he : s.Exact) (ops : List XmlOp) :
    Along (step parses) Exact s ops ↔ Guarded (step parses) (fun s => s.KeepsCount parses) s ops :=
  along_iff_guarded Exact (fun _ h => h) (fun _ _ _ => exact_step) (fun _ _ _ => not_exact_step) he ops

/-- The counters are exact as long as every text parses, no handle that has a
document for itself is assigned to itself and no counter wraps around. -/
theorem exact_iff (parses : ByteString → Bool) (ops : List XmlOp) :
    Along (step parses) Exact new ops ↔ Guarded (step parses) (fun s => s.KeepsCount parses) new ops :=
  along_exact exact_new ops

/-- A handle constructed from a text and assigned to itself, whatever parses. -/
theorem not_exact : ¬ ∃ parses, ∀ ops, Along (step parses) Exact new ops := by
  rintro ⟨parses, h⟩
  have hguarded := (along_exact exact_new _).mp (h [.construct 1 (literal "<a/>"), .assign 1 1])
  obtain ⟨hparses, hrest⟩ := hguarded _ rfl
  have hparses : parses ((literal "<a/>").takeWhile (· != 0)) = true := hparses
  simp only [hparses, if_true] at hrest
  obtain ⟨hassign, -⟩ := hrest _ rfl
  exact absurd (hassign.1 rfl) (by decide)

end XmlHandles

end Quintses
