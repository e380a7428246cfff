import Mathlib.Data.List.Perm.Basic
import Mathlib.Data.List.Nodup

/-! Requests to create and to delete objects that reach the owner of the
objects in any order, while a client holds on to some of them. -/

/-- The identifiers issued so far, those of the creations and deletions on
their way, the objects that are there and the objects that are held. -/
structure Ledger {ι : Type*} (issued creates deletes : List ι) (present held : ι → Prop) : Prop where
  creates_nodup : creates.Nodup
  creates_issued : ∀ i ∈ creates, i ∈ issued
  creates_absent : ∀ i ∈ creates, ¬ present i
  present_issued : ∀ i, present i → i ∈ issued
  deletes_nodup : deletes.Nodup
  deletes_live : ∀ i ∈ deletes, i ∈ creates ∨ present i
  deletes_let_go : ∀ i ∈ deletes, ¬ held i
  held_live : ∀ i, held i → i ∈ creates ∨ present i

namespace Ledger

variable {ι : Type*} {issued creates deletes : List ι} {present held : ι → Prop}

theorem empty : Ledger ([] : List ι) [] [] (fun _ => False) (fun _ => False) := by
  constructor <;> simp

theorem deletes_issued (h : Ledger issued creates deletes present held) {i : ι} (hi : i ∈ deletes) :
    i ∈ issued :=
  (h.deletes_live i hi).elim (h.creates_issued i) (h.present_issued i)

theorem present_iff (h : Ledger issued creates deletes present held) {i : ι} (hi : i ∈ deletes) :
    present i ↔ i ∉ creates :=
  ⟨fun hp hc => h.creates_absent i hc hp, fun hc => (h.deletes_live i hi).resolve_left hc⟩

theorem congr {issued' creates' deletes' : List ι} {present' held' : ι → Prop}
    (h : Ledger issued creates deletes present held) (hissued : ∀ i ∈ issued, i ∈ issued')
    (hcreates : creates'.Perm creates) (hdeletes : deletes'.Perm deletes)
    (hpresent : ∀ i, present' i ↔ present i) (hheld : ∀ i, held' i → held i) :
    Ledger issued' creates' deletes' present' held' where
  creates_nodup := hcreates.nodup_iff.mpr h.creates_nodup
  creates_issued i hi := hissued i (h.creates_issued i (hcreates.mem_iff.mp hi))
  creates_absent i hi hp := h.creates_absent i (hcreates.mem_iff.mp hi) ((hpresent i).mp hp)
  present_issued i hp := hissued i (h.present_issued i ((hpresent i).mp hp))
  deletes_nodup := hdeletes.nodup_iff.mpr h.deletes_nodup
  deletes_live i hi := by
    rw [hcreates.mem_iff, hpresent]
    exact h.deletes_live i (hdeletes.mem_iff.mp hi)
  deletes_let_go i hi hh := h.deletes_let_go i (hdeletes.mem_iff.mp hi) (hheld i hh)
  held_live i hh := by
    rw [hcreates.mem_iff, hpresent]
    exact h.held_live i (hheld i hh)

/-- A new identifier is issued and its creation sent; it may be held from now on. -/
theorem send_create {i : ι} (held' : ι → Prop) (h : Ledger issued creates deletes present held)
    (hnew : i ∉ issued) (hheld : ∀ j, held' j → held j ∨ j = i) :
    Ledger (i :: issued) (i :: creates) deletes present held' where
  creates_nodup := List.nodup_cons.mpr ⟨fun hc => hnew (h.creates_issued i hc), h.creates_nodup⟩
  creates_issued j hj := by
    rcases List.mem_cons.mp hj with rfl | hj
    · exact List.mem_cons_self
    · exact List.mem_cons_of_mem i (h.creates_issued j hj)
  creates_absent j hj hp := by
    rcases List.mem_cons.mp hj with rfl | hj
    · exact hnew (h.present_issued j hp)
    · exact h.creates_absent j hj hp
  present_issued j hp := List.mem_cons_of_mem i (h.present_issued j hp)
  deletes_nodup := h.deletes_nodup
  deletes_live j hj := (h.deletes_live j hj).imp_left (List.mem_cons_of_mem i)
  deletes_let_go j hj hh := by
    rcases hheld j hh with hh | rfl
    · exact h.deletes_let_go j hj hh
    · exact hnew (h.deletes_issued hj)
  held_live j hh := by
    rcases hheld j hh with hh | rfl
    · exact (h.held_live j hh).imp_left (List.mem_cons_of_mem i)
    · exact Or.inl List.mem_cons_self

/-- The holder lets an object go and sends its deletion. -/
theorem send_delete {i : ι} (held' : ι → Prop) (h : Ledger issued creates deletes present held)
    (hi : held i) (hheld : ∀ j, held' j → held j ∧ j ≠ i) :
    Ledger issued creates (i :: deletes) present held' where
  creates_nodup := h.creates_nodup
  creates_issued := h.creates_issued
  creates_absent := h.creates_absent
  present_issued := h.present_issued
  deletes_nodup := List.nodup_cons.mpr ⟨fun hd => h.deletes_let_go i hd hi, h.deletes_nodup⟩
  deletes_live j hj := by
    rcases List.mem_cons.mp hj with rfl | hj
    · exact h.held_live j hi
    · exact h.deletes_live j hj
  deletes_let_go j hj hh := by
    rcases List.mem_cons.mp hj with rfl | hj
    · exact (hheld j hh).2 rfl
    · exact h.deletes_let_go j hj (hheld j hh).1
  held_live j hh := h.held_live j (hheld j hh).1

theorem create {i : ι} {present' : ι → Prop} (h : Ledger issued (i :: creates) deletes present held)
    (hpresent : ∀ j, present' j ↔ present j ∨ j = i) :
    Ledger issued creates deletes present' held where
  creates_nodup := (List.nodup_cons.mp h.creates_nodup).2
  creates_issued j hj := h.creates_issued j (List.mem_cons_of_mem i hj)
  creates_absent j hj hp := by
    rcases (hpresent j).mp hp with hp | rfl
    · exact h.creates_absent j (List.mem_cons_of_mem i hj) hp
    · exact (List.nodup_cons.mp h.creates_nodup).1 hj
  present_issued j hp := by
    rcases (hpresent j).mp hp with hp | rfl
    · exact h.present_issued j hp
    · exact h.creates_issued j List.mem_cons_self
  deletes_nodup := h.deletes_nodup
  deletes_live j hj := by
    have hh := h.deletes_live j hj
    rw [List.mem_cons] at hh
    rw [hpresent]
    tauto
  deletes_let_go := h.deletes_let_go
  held_live j hj := by
    have hh := h.held_live j hj
    rw [List.mem_cons] at hh
    rw [hpresent]
    tauto

theorem shrink {present' : ι → Prop} (h : Ledger issued creates [] present (fun _ => False))
    (hpresent : ∀ j, present' j → present j) : Ledger issued creates [] present' (fun _ => False) where
  creates_nodup := h.creates_nodup
  creates_issued := h.creates_issued
  creates_absent j hj hp := h.creates_absent j hj (hpresent j hp)
  present_issued j hp := h.present_issued j (hpresent j hp)
  deletes_nodup := h.deletes_nodup
  deletes_live := by simp
  deletes_let_go := by simp
  held_live j hj := hj.elim

theorem delete {i : ι} {present' : ι → Prop} (h : Ledger issued creates (i :: deletes) present held)
    (hpresent : ∀ j, present' j ↔ present j ∧ j ≠ i) :
    Ledger issued creates deletes present' held where
  creates_nodup := h.creates_nodup
  creates_issued := h.creates_issued
  creates_absent j hj hp := h.creates_absent j hj ((hpresent j).mp hp).1
  present_issued j hp := h.present_issued j ((hpresent j).mp hp).1
  deletes_nodup := (List.nodup_cons.mp h.deletes_nodup).2
  deletes_live j hj := by
    have hne : j ≠ i := by
      rintro rfl
      exact (List.nodup_cons.mp h.deletes_nodup).1 hj
    rw [hpresent]
    exact (h.deletes_live j (List.mem_cons_of_mem i hj)).imp_right (fun hp => ⟨hp, hne⟩)
  deletes_let_go j hj := h.deletes_let_go j (List.mem_cons_of_mem i hj)
  held_live j hj := by
    have hne : j ≠ i := by
      rintro rfl
      exact h.deletes_let_go j List.mem_cons_self hj
    rw [hpresent]
    exact (h.held_live j hj).imp_right (fun hp => ⟨hp, hne⟩)

end Ledger
