import Quintses.Messages
import Mathlib.Data.List.Basic

/-! How the text of `data/world.xml` gets into `xml_data`: `std::copy` from an
`istream_iterator<char>` to the `begin()` of a string. -/

namespace Quintses

/-- A string and the indices that were written through an iterator. Such a
write does not make it longer. -/
structure StdString where
  contents : ByteString
  written : List Nat

namespace StdString

variable (s : StdString)

def write (i : Nat) (c : UInt8) : StdString := ⟨s.contents.set i c, i :: s.written⟩

def InBounds : Prop := ∀ i ∈ s.written, i < s.contents.length

end StdString

/-- `isspace` in the "C" locale. -/
def isSpace (c : UInt8) : Bool := c = 32 ∨ 9 ≤ c ∧ c ≤ 13

/-- `operator>>` passes over blanks before it takes a character. -/
def copy : ByteString → Nat → StdString → StdString
  | [], _, s => s
  | c :: rest, out, s => if isSpace c then copy rest out s else copy rest (out + 1) (s.write out c)

/-- The string that is given to `XmlDom`. -/
def readText (file : ByteString) : StdString := copy file 0 ⟨[], []⟩

def extracted (file : ByteString) : ByteString := file.filter (fun c => !isSpace c)

theorem length_contents_copy (file : ByteString) (out : Nat) (s : StdString) :
    (copy file out s).contents.length = s.contents.length := by
  induction file generalizing out s with
  | nil => rfl
  | cons c rest ih =>
    unfold copy
    split
    · exact ih out s
    · exact (ih (out + 1) (s.write out c)).trans List.length_set

theorem mem_written_copy (file : ByteString) (out : Nat) (s : StdString) (i : Nat) :
    i ∈ (copy file out s).written ↔ i ∈ s.written ∨ out ≤ i ∧ i < out + (extracted file).length := by
  induction file generalizing out s with
  | nil => simp [copy, extracted]
  | cons c rest ih =>
    unfold copy
    split
    case isTrue hc =>
      have hskip : extracted (c :: rest) = extracted rest := by simp [extracted, hc]
      rw [hskip]
      exact ih out s
    case isFalse hc =>
      have htake : (extracted (c :: rest)).length = (extracted rest).length + 1 := by simp [extracted, hc]
      have hone : i ∈ (s.write out c).written ↔ i = out ∨ i ∈ s.written := List.mem_cons
      rw [ih, hone, htake]
      constructor
      · rintro ((rfl | hi) | hi)
        · exact Or.inr ⟨Nat.le_refl _, by omega⟩
        · exact Or.inl hi
        · exact Or.inr ⟨by omega, by omega⟩
      · rintro (hi | hi)
        · exact Or.inl (Or.inr hi)
        · by_cases hout : i = out
          · exact Or.inl (Or.inl hout)
          · exact Or.inr ⟨by omega, by omega⟩

/-- The string has to have room for every character that is not blank. -/
theorem inBounds_copy_iff (file : ByteString) (s : StdString) (hs : s.written = []) :
    (copy file 0 s).InBounds ↔ (extracted file).length ≤ s.contents.length := by
  unfold StdString.InBounds
  simp only [mem_written_copy, hs, length_contents_copy]
  constructor
  · intro h
    by_contra hlt
    have hlast := h s.contents.length (Or.inr ⟨by omega, by omega⟩)
    omega
  · rintro h i (hi | hi)
    · cases hi
    · omega

theorem readText_intact_iff (file : ByteString) :
    (readText file).InBounds ∧ (readText file).contents = file ↔ file = [] := by
  constructor
  · rintro ⟨-, hsame⟩
    have hlen := length_contents_copy file 0 ⟨[], []⟩
    rw [← hsame]
    exact List.length_eq_zero_iff.mp hlen
  · rintro rfl
    exact ⟨fun i hi => (by cases hi), rfl⟩

theorem readText_inBounds_iff (file : ByteString) : (readText file).InBounds ↔ extracted file = [] := by
  unfold readText
  rw [inBounds_copy_iff file ⟨[], []⟩ rfl]
  exact Nat.le_zero.trans List.length_eq_zero_iff

theorem not_readText_intact : ¬((readText (literal "<QuintsesWorld/>")).InBounds ∧
    (readText (literal "<QuintsesWorld/>")).contents = literal "<QuintsesWorld/>") := by
  rintro ⟨-, hsame⟩
  exact absurd hsame (by decide)

end Quintses
