import Mathlib.Data.List.Basic
import Mathlib.Order.Lattice

/-! Ordered associative containers with the operations of the C++ standard
library. Every operation is one `alter` of the entry at a key, so lookup after
any of them follows from `find?_alter`. -/

/-- A finite map kept in strictly increasing key order. -/
structure StdMap (κ ν : Type*) [LinearOrder κ] where
  entries : List (κ × ν)
  sorted : entries.Pairwise (fun a b => a.1 < b.1)

namespace StdMap

section

variable {κ ν : Type*}

def cell (k : κ) : Option ν → List (κ × ν)
  | none => []
  | some v => [(k, v)]

theorem mem_cell {k : κ} {o : Option ν} {e : κ × ν} : e ∈ cell k o ↔ e.1 = k ∧ o = some e.2 := by
  obtain ⟨k', v'⟩ := e
  cases o with
  | none => simp [cell]
  | some v => simp [cell, eq_comm]

end

variable {κ ν : Type*} [LinearOrder κ]

def alterEntries (k : κ) (f : Option ν → Option ν) : List (κ × ν) → List (κ × ν)
  | [] => cell k (f none)
  | e :: es =>
    if k < e.1 then cell k (f none) ++ e :: es
    else if k = e.1 then cell k (f (some e.2)) ++ es
    else e :: alterEntries k f es

def lookup (k : κ) : List (κ × ν) → Option ν
  | [] => none
  | e :: es => if k = e.1 then some e.2 else lookup k es

theorem mem_alterEntries {k : κ} {f : Option ν → Option ν} {es : List (κ × ν)} {e : κ × ν}
    (h : e ∈ alterEntries k f es) : e.1 = k ∨ e ∈ es := by
  induction es with
  | nil => exact Or.inl (mem_cell.mp h).1
  | cons x xs ih =>
    simp only [alterEntries] at h
    split_ifs at h with hlt heq
    · rcases List.mem_append.mp h with h | h
      · exact Or.inl (mem_cell.mp h).1
      · exact Or.inr h
    · rcases List.mem_append.mp h with h | h
      · exact Or.inl (mem_cell.mp h).1
      · exact Or.inr (List.mem_cons_of_mem x h)
    · rcases List.mem_cons.mp h with rfl | h
      · exact Or.inr List.mem_cons_self
      · exact (ih h).imp id (List.mem_cons_of_mem x)

theorem pairwise_cell_append {k : κ} {o : Option ν} {es : List (κ × ν)}
    (hes : es.Pairwise (fun a b => a.1 < b.1)) (hk : ∀ e ∈ es, k < e.1) :
    (cell k o ++ es).Pairwise (fun a b => a.1 < b.1) := by
  cases o with
  | none => exact hes
  | some v => exact List.pairwise_cons.mpr ⟨hk, hes⟩

theorem alterEntries_sorted (k : κ) (f : Option ν → Option ν) {es : List (κ × ν)}
    (h : es.Pairwise (fun a b => a.1 < b.1)) :
    (alterEntries k f es).Pairwise (fun a b => a.1 < b.1) := by
  induction es with
  | nil => simpa [alterEntries] using pairwise_cell_append (o := f none) (k := k) h (by simp)
  | cons x xs ih =>
    have hx := List.pairwise_cons.mp h
    simp only [alterEntries]
    split_ifs with hlt heq
    · refine pairwise_cell_append h (fun e he => ?_)
      rcases List.mem_cons.mp he with rfl | he
      · exact hlt
      · exact hlt.trans (hx.1 e he)
    · exact pairwise_cell_append hx.2 (fun e he => heq ▸ hx.1 e he)
    · refine List.pairwise_cons.mpr ⟨fun e he => ?_, ih hx.2⟩
      rcases mem_alterEntries he with hek | he
      · exact hek ▸ lt_of_le_of_ne (not_lt.mp hlt) (fun hh => heq hh.symm)
      · exact hx.1 e he

theorem lookup_eq_none {k : κ} {es : List (κ × ν)} (h : ∀ e ∈ es, e.1 ≠ k) :
    lookup k es = none := by
  induction es with
  | nil => rfl
  | cons x xs ih =>
    have hx : k ≠ x.1 := fun hh => h x List.mem_cons_self hh.symm
    simp [lookup, hx, ih (fun e he => h e (List.mem_cons_of_mem x he))]

theorem lookup_cell_append (k k' : κ) (o : Option ν) (es : List (κ × ν)) :
    lookup k' (cell k o ++ es) = if k' = k then o.or (lookup k' es) else lookup k' es := by
  cases o with
  | none => simp [cell]
  | some v => simp [cell, lookup]

theorem lookup_alterEntries (k k' : κ) (f : Option ν → Option ν) {es : List (κ × ν)}
    (h : es.Pairwise (fun a b => a.1 < b.1)) :
    lookup k' (alterEntries k f es) = if k' = k then f (lookup k es) else lookup k' es := by
  induction es with
  | nil => simpa [alterEntries, lookup] using lookup_cell_append k k' (f none) []
  | cons x xs ih =>
    have hx := List.pairwise_cons.mp h
    by_cases hk : k' = k
    · subst hk
      rcases lt_trichotomy k' x.1 with hlt | heq | hgt
      · have hn : lookup k' (x :: xs) = none := lookup_eq_none (fun e he => by
          rcases List.mem_cons.mp he with rfl | he
          · exact hlt.ne'
          · exact (hlt.trans (hx.1 e he)).ne')
        simp [alterEntries, hlt, lookup_cell_append, hn]
      · have hn : lookup x.1 xs = none := lookup_eq_none (fun e he => (hx.1 e he).ne')
        simp [alterEntries, lookup_cell_append, hn, lookup, heq]
      · simp [alterEntries, lookup, not_lt_of_gt hgt, hgt.ne', ih hx.2]
    · rcases lt_trichotomy k x.1 with hlt | heq | hgt
      · simp [alterEntries, hlt, lookup_cell_append, hk]
      · have hne : k' ≠ x.1 := fun hh => hk (hh.trans heq.symm)
        simp [alterEntries, heq, lookup_cell_append, lookup, hne]
      · simp [alterEntries, lookup, not_lt_of_gt hgt, hgt.ne', ih hx.2, hk]

theorem mem_iff_lookup {k : κ} {v : ν} {es : List (κ × ν)}
    (h : es.Pairwise (fun a b => a.1 < b.1)) : (k, v) ∈ es ↔ lookup k es = some v := by
  induction es with
  | nil => simp [lookup]
  | cons x xs ih =>
    have hx := List.pairwise_cons.mp h
    by_cases hk : k = x.1
    · have hno : (k, v) ∉ xs := fun hm => absurd (hx.1 _ hm) (by simp [hk])
      rw [hk] at hno
      simp [lookup, hk, Prod.ext_iff, hno, eq_comm]
    · simp [lookup, hk, ih hx.2, Prod.ext_iff]

def empty : StdMap κ ν := ⟨[], List.Pairwise.nil⟩

def alter (m : StdMap κ ν) (k : κ) (f : Option ν → Option ν) : StdMap κ ν :=
  ⟨alterEntries k f m.entries, alterEntries_sorted k f m.sorted⟩

def find? (m : StdMap κ ν) (k : κ) : Option ν := lookup k m.entries

def contains (m : StdMap κ ν) (k : κ) : Bool := (m.find? k).isSome

def insert (m : StdMap κ ν) (k : κ) (v : ν) : StdMap κ ν := m.alter k (fun o => some (o.getD v))

/-- The map after evaluating `m[k]`, whose value is `(m.find? k).getD d`; `d`
is the value-initialised element that a missing key gets. -/
def subscript (m : StdMap κ ν) (k : κ) (d : ν) : StdMap κ ν := m.insert k d

def assign (m : StdMap κ ν) (k : κ) (v : ν) : StdMap κ ν := m.alter k (fun _ => some v)

def erase (m : StdMap κ ν) (k : κ) : StdMap κ ν := m.alter k (fun _ => none)

def modify (m : StdMap κ ν) (k : κ) (f : ν → ν) : StdMap κ ν := m.alter k (Option.map f)

def keys (m : StdMap κ ν) : List κ := m.entries.map Prod.fst

def values (m : StdMap κ ν) : List ν := m.entries.map Prod.snd

variable (m : StdMap κ ν) (k k' : κ) (v : ν)

@[simp] theorem find?_empty : (empty : StdMap κ ν).find? k = none := rfl

theorem find?_alter (f : Option ν → Option ν) :
    (m.alter k f).find? k' = if k' = k then f (m.find? k) else m.find? k' :=
  lookup_alterEntries k k' f m.sorted

@[simp] theorem find?_insert :
    (m.insert k v).find? k' = if k' = k then some ((m.find? k).getD v) else m.find? k' :=
  find?_alter m k k' _

@[simp] theorem find?_subscript :
    (m.subscript k v).find? k' = if k' = k then some ((m.find? k).getD v) else m.find? k' :=
  find?_insert m k k' v

@[simp] theorem find?_assign :
    (m.assign k v).find? k' = if k' = k then some v else m.find? k' :=
  find?_alter m k k' _

@[simp] theorem find?_erase :
    (m.erase k).find? k' = if k' = k then none else m.find? k' :=
  find?_alter m k k' _

@[simp] theorem find?_modify (f : ν → ν) :
    (m.modify k f).find? k' = if k' = k then (m.find? k).map f else m.find? k' :=
  find?_alter m k k' _

variable {m k k' v}

theorem find?_assign_cases {v' : ν} (h : (m.assign k v).find? k' = some v') :
    k' = k ∧ v' = v ∨ k' ≠ k ∧ m.find? k' = some v' := by
  rw [find?_assign] at h
  split at h
  · exact Or.inl ⟨by assumption, (Option.some.inj h).symm⟩
  · exact Or.inr ⟨by assumption, h⟩

theorem find?_of_erase (h : (m.erase k).find? k' = some v) : k' ≠ k ∧ m.find? k' = some v := by
  rw [find?_erase] at h
  split at h
  · cases h
  · exact ⟨by assumption, h⟩

theorem mem_entries : (k, v) ∈ m.entries ↔ m.find? k = some v := mem_iff_lookup m.sorted

theorem mem_keys : k ∈ m.keys ↔ ∃ v, m.find? k = some v := by
  simp [keys, ← mem_entries]

theorem keys_nodup (m : StdMap κ ν) : m.keys.Nodup :=
  List.pairwise_map.mpr (m.sorted.imp (fun hlt => ne_of_lt hlt))

theorem entries_nodup (m : StdMap κ ν) : m.entries.Nodup :=
  m.sorted.imp (fun hlt he => ne_of_lt hlt (congrArg Prod.fst he))

theorem entries_perm_cons {m' : StdMap κ ν} (hnew : m'.find? k = none)
    (hsame : ∀ k', k' ≠ k → m.find? k' = m'.find? k') (hk : m.find? k = some v) :
    m.entries.Perm ((k, v) :: m'.entries) := by
  have hnot : (k, v) ∉ m'.entries := by simp [mem_entries, hnew]
  refine (List.perm_ext_iff_of_nodup m.entries_nodup (List.nodup_cons.mpr ⟨hnot, m'.entries_nodup⟩)).mpr ?_
  rintro ⟨k', v'⟩
  rw [List.mem_cons, mem_entries, mem_entries]
  by_cases he : k' = k
  · subst he
    simp [hk, hnew, eq_comm]
  · simp [hsame k' he, he]

theorem entries_assign_perm (hnew : m.find? k = none) : (m.assign k v).entries.Perm ((k, v) :: m.entries) :=
  entries_perm_cons hnew (fun k' hne => by simp [hne]) (by simp)

theorem entries_erase_perm (hk : m.find? k = some v) : m.entries.Perm ((k, v) :: (m.erase k).entries) :=
  entries_perm_cons (by simp) (fun k' hne => by simp [hne]) hk

theorem keys_assign_perm (hnew : m.find? k = none) : (m.assign k v).keys.Perm (k :: m.keys) :=
  (entries_assign_perm hnew).map Prod.fst

theorem values_assign_perm (hnew : m.find? k = none) : (m.assign k v).values.Perm (v :: m.values) :=
  (entries_assign_perm hnew).map Prod.snd

theorem keys_erase_perm (hk : m.find? k = some v) : m.keys.Perm (k :: (m.erase k).keys) :=
  (entries_erase_perm hk).map Prod.fst

theorem values_erase_perm (hk : m.find? k = some v) : m.values.Perm (v :: (m.erase k).values) :=
  (entries_erase_perm hk).map Prod.snd

theorem values_modify_perm (f : ν → ν) (hk : m.find? k = some v) :
    (m.modify k f).values.Perm (f v :: (m.erase k).values) := by
  have hp : (m.modify k f).entries.Perm ((k, f v) :: (m.erase k).entries) :=
    entries_perm_cons (by simp) (fun k' hne => by simp [hne]) (by simp [hk])
  exact hp.map Prod.snd

theorem values_assign_erase_perm (m : StdMap κ ν) (k : κ) (v : ν) :
    (m.assign k v).values.Perm (v :: (m.erase k).values) := by
  have hp : (m.assign k v).entries.Perm ((k, v) :: (m.erase k).entries) :=
    entries_perm_cons (by simp) (fun k' hne => by simp [hne]) (by simp)
  exact hp.map Prod.snd

theorem count_values_assign [DecidableEq ν] {v' : ν} (hk : m.find? k = some v) (w : ν) :
    (m.assign k v').values.count w + (if v = w then 1 else 0) =
      m.values.count w + (if v' = w then 1 else 0) := by
  rw [(values_assign_erase_perm m k v').count_eq, (values_erase_perm hk).count_eq, List.count_cons,
    List.count_cons]
  simp only [beq_iff_eq]
  omega

theorem values_insert_perm (hnew : m.find? k = none) : (m.insert k v).values.Perm (v :: m.values) := by
  have hp : (m.insert k v).entries.Perm ((k, v) :: m.entries) :=
    entries_perm_cons hnew (fun k' hne => by simp [hne]) (by simp [hnew])
  exact hp.map Prod.snd

theorem keys_modify_perm (k : κ) (f : ν → ν) : (m.modify k f).keys.Perm m.keys := by
  refine (List.perm_ext_iff_of_nodup (keys_nodup _) (keys_nodup _)).mpr (fun k' => ?_)
  rw [mem_keys, mem_keys, find?_modify]
  split_ifs with he
  · subst he
    simp
  · rfl

/-- A map is determined by its lookups. -/
theorem eq_of_find? {m' : StdMap κ ν} (h : ∀ k, m.find? k = m'.find? k) : m = m' := by
  have hperm : m.entries.Perm m'.entries := by
    refine (List.perm_ext_iff_of_nodup m.entries_nodup m'.entries_nodup).mpr (fun e => ?_)
    rw [mem_entries, mem_entries, h]
  have heq : m.entries = m'.entries :=
    hperm.eq_of_pairwise (fun _ _ _ _ hab hba => absurd hab (lt_asymm hba)) m.sorted m'.sorted
  cases m
  cases m'
  congr

theorem erase_of_find?_none (hk : m.find? k = none) : m.erase k = m := by
  refine eq_of_find? (fun k' => ?_)
  rw [find?_erase]
  split_ifs with he
  · rw [he, hk]
  · rfl

theorem modify_of_find?_none (f : ν → ν) (hk : m.find? k = none) : m.modify k f = m := by
  refine eq_of_find? (fun k' => ?_)
  rw [find?_modify]
  split_ifs with he
  · rw [he, hk]
    rfl
  · rfl

end StdMap

abbrev StdSet (κ : Type*) [LinearOrder κ] := StdMap κ Unit
