import Mathlib.Data.List.Basic

/-! `std::ifstream::read` into memory that already holds something. -/

/-- `n` bytes from an offset, or what there is of them. -/
def List.slice {β : Type*} (bytes : List β) (offset n : Nat) : List β := (bytes.drop offset).take n

namespace List

variable {β : Type*} {bytes : List β} {offset n : Nat}

theorem length_slice (h : offset + n ≤ bytes.length) : (bytes.slice offset n).length = n := by
  rw [slice, length_take, length_drop]
  omega

theorem slice_append_drop {stop : Nat} (h : offset + n = stop) :
    bytes.slice offset n ++ bytes.drop stop = bytes.drop offset := by
  rw [slice, ← h, ← drop_drop, take_append_drop]

theorem slice_append_left {before : List β} (h : before.length = n) :
    (before ++ bytes).slice 0 n = before := by
  rw [slice, drop_zero, ← h, take_left]

theorem slice_append_right {before : List β} (h : before.length ≤ offset) :
    (before ++ bytes).slice offset n = bytes.slice (offset - before.length) n := by
  rw [slice, drop_append, drop_eq_nil_of_le h, nil_append, slice]

theorem take_slice {m : Nat} (h : m ≤ n) : (bytes.slice offset n).take m = bytes.slice offset m := by
  rw [slice, take_take, Nat.min_eq_left h, slice]

theorem slice_slice {m k : Nat} (h : m + k ≤ n) :
    (bytes.slice offset n).slice m k = bytes.slice (offset + m) k := by
  rw [slice, slice, drop_take, take_take, drop_drop, Nat.min_eq_left (by omega), slice]

end List

/-- After a read that came up short the stream is no longer good. -/
structure IfStream where
  bytes : List UInt8
  pos : Nat
  good : Bool

namespace IfStream

def ofBytes (bytes : List UInt8) : IfStream := ⟨bytes, 0, true⟩

variable (s : IfStream)

/-- The bytes that a read of `n` bytes gets; their number is `gcount()`. -/
def extracted (n : Nat) : List UInt8 := if s.good then s.bytes.slice s.pos n else []

/-- The memory after reading as many bytes as it has. What was not read stays. -/
def read (memory : List UInt8) : List UInt8 × IfStream :=
  let got := s.extracted memory.length
  (got ++ memory.drop got.length,
    { s with pos := s.pos + got.length, good := s.good && got.length == memory.length })

variable {s} {memory : List UInt8}

theorem length_extracted_le (n : Nat) : (s.extracted n).length ≤ n := by
  rw [extracted]
  split_ifs
  · exact List.length_take_le _ _
  · exact Nat.zero_le _

theorem length_read (memory : List UInt8) : (s.read memory).1.length = memory.length := by
  have hle := s.length_extracted_le memory.length
  simp only [read, List.length_append, List.length_drop]
  omega

theorem read_of_not_good (h : s.good = false) : s.read memory = (memory, s) := by
  simp [read, extracted, h]
  cases s
  simp_all

theorem read_of_le {bytes : List UInt8} {pos n : Nat} (hn : memory.length = n) (hle : pos + n ≤ bytes.length) :
    read ⟨bytes, pos, true⟩ memory = (bytes.slice pos n, ⟨bytes, pos + n, true⟩) := by
  have hlen := List.length_slice hle
  simp [read, extracted, hn, hlen]

/-- Only after a complete read is the stream still good. -/
theorem of_read_good (hpos : 0 < memory.length) (h : (s.read memory).2.good = true) :
    s.good = true ∧ s.pos + memory.length ≤ s.bytes.length ∧
      (s.read memory).2 = ⟨s.bytes, s.pos + memory.length, true⟩ := by
  have hgood : s.good = true ∧ (s.extracted memory.length).length = memory.length := by
    simpa [read] using h
  have hle : s.pos + memory.length ≤ s.bytes.length := by
    have hlen := hgood.2
    rw [extracted, if_pos hgood.1, List.slice, List.length_take, List.length_drop] at hlen
    omega
  have hread := read_of_le rfl hle
  rw [← hgood.1] at hread
  exact ⟨hgood.1, hle, by rw [hread, hgood.1]⟩

end IfStream
