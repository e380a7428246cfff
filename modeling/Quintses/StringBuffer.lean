import Quintses.Socket

/-! The indices at which `readString` touches the array it allocates. The
memory goes on behind the array, so an access outside it is still an access. -/

namespace Quintses

open SocketWrapper

/-- A new array in memory: its size, the bytes from its start on and the
indices used so far. -/
structure HeapArray where
  size : Nat
  byte : Nat → UInt8
  used : List Nat

namespace HeapArray

/-- The contents of a new array are whatever was there before. -/
def new (size : Nat) (before : Nat → UInt8) : HeapArray := ⟨size, before, []⟩

variable (buf : HeapArray)

def write (i : Nat) (b : UInt8) : HeapArray :=
  { buf with byte := Function.update buf.byte i b, used := i :: buf.used }

/-- The bytes that a read delivers, from index `i` on. -/
def fill (buf : HeapArray) (i : Nat) : List UInt8 → HeapArray
  | [] => buf
  | b :: bs => (buf.write i b).fill (i + 1) bs

/-- The characters from index `i` on up to a zero, at most `fuel` of them. -/
def scan (buf : HeapArray) : Nat → Nat → ByteString × HeapArray
  | 0, _ => ([], buf)
  | fuel + 1, i =>
    let buf := { buf with used := i :: buf.used }
    if buf.byte i = 0 then ([], buf)
    else
      let r := buf.scan fuel (i + 1)
      (buf.byte i :: r.1, r.2)

def InBounds : Prop := ∀ i ∈ buf.used, i < buf.size

end HeapArray

/-- The array when `readString` returns or its read throws, and what has been
assigned to the string; `none` if the length does not arrive. -/
def readStringArray (order : ByteOrder) (before : Nat → UInt8) (fuel : Nat) (s : List UInt8) :
    Option (Option ByteString × HeapArray) :=
  match readPod order UInt32 s with
  | .error _ => none
  | .ok (len, rest) =>
    let buf := HeapArray.new (len + 1).toNat before
    let buf := buf.write len.toNat 0
    let buf := buf.fill 0 (rest.take len.toNat)
    if rest.length < len.toNat then some (none, buf)
    else
      let r := buf.scan fuel 0
      some (some r.1, r.2)

namespace HeapArray

variable {buf : HeapArray} {i : Nat}

@[simp] theorem write_used (b : UInt8) : (buf.write i b).used = i :: buf.used := rfl

@[simp] theorem write_byte_self (b : UInt8) : (buf.write i b).byte i = b := Function.update_self ..

theorem write_byte_of_ne (b : UInt8) {j : Nat} (hne : j ≠ i) : (buf.write i b).byte j = buf.byte j :=
  Function.update_of_ne hne ..

theorem fill_size (bs : List UInt8) : (buf.fill i bs).size = buf.size := by
  induction bs generalizing buf i with
  | nil => rfl
  | cons b bs ih => exact ih

theorem mem_used_fill {bs : List UInt8} {j : Nat} :
    j ∈ (buf.fill i bs).used ↔ j ∈ buf.used ∨ i ≤ j ∧ j < i + bs.length := by
  induction bs generalizing buf i with
  | nil =>
    simp [fill]
  | cons b bs ih =>
    have hsplit : j = i ∨ i + 1 ≤ j ∧ j < i + 1 + bs.length ↔ i ≤ j ∧ j < i + (b :: bs).length := by
      rw [List.length_cons]
      omega
    rw [fill, ih, write_used, List.mem_cons, ← hsplit]
    tauto

theorem fill_byte_of_le (bs : List UInt8) {j : Nat} (hj : i + bs.length ≤ j) :
    (buf.fill i bs).byte j = buf.byte j := by
  induction bs generalizing buf i with
  | nil => rfl
  | cons b bs ih =>
    have hlen : i + 1 + bs.length ≤ j := by
      rw [List.length_cons] at hj
      omega
    have hne : j ≠ i := by omega
    rw [fill, ih hlen, write_byte_of_ne b hne]

theorem fill_byte_of_lt (bs : List UInt8) {j : Nat} (hj : j < i) : (buf.fill i bs).byte j = buf.byte j := by
  induction bs generalizing buf i with
  | nil => rfl
  | cons b bs ih =>
    have hne : j ≠ i := by omega
    rw [fill, ih (Nat.lt_succ_of_lt hj), write_byte_of_ne b hne]

theorem fill_byte (bs : List UInt8) {k : Nat} (hk : k < bs.length) :
    (buf.fill i bs).byte (i + k) = bs[k] := by
  induction bs generalizing buf i k with
  | nil => simp at hk
  | cons b bs ih =>
    cases k with
    | zero =>
      exact (fill_byte_of_lt bs (Nat.lt_add_one i)).trans (write_byte_self b)
    | succ k =>
      have hk' : k < bs.length := by simpa using hk
      have hh : ((buf.write i b).fill (i + 1) bs).byte (i + 1 + k) = bs[k] := ih hk'
      rw [Nat.add_right_comm, Nat.add_assoc] at hh
      exact hh

def look (buf : HeapArray) (i : Nat) : HeapArray := { buf with used := i :: buf.used }

theorem scan_of_zero (hb : buf.byte i = 0) (fuel : Nat) : buf.scan (fuel + 1) i = ([], buf.look i) := by
  simp [scan, look, hb]

theorem scan_of_ne (hb : buf.byte i ≠ 0) (fuel : Nat) : buf.scan (fuel + 1) i =
    (buf.byte i :: ((buf.look i).scan fuel (i + 1)).1, ((buf.look i).scan fuel (i + 1)).2) := by
  simp [scan, look, hb]

theorem scan_size (fuel : Nat) : (buf.scan fuel i).2.size = buf.size := by
  induction fuel generalizing buf i with
  | zero => rfl
  | succ fuel ih =>
    by_cases hb : buf.byte i = 0
    · rw [scan_of_zero hb]
      rfl
    · rw [scan_of_ne hb, ih]
      rfl

theorem mem_used_scan {fuel n : Nat} (hin : i ≤ n) (hn : buf.byte n = 0) {j : Nat}
    (hj : j ∈ (buf.scan fuel i).2.used) : j ∈ buf.used ∨ j ≤ n := by
  have hlook (hj : j ∈ (buf.look i).used) : j ∈ buf.used ∨ j ≤ n := by
    rcases List.mem_cons.mp hj with rfl | hj
    · exact Or.inr hin
    · exact Or.inl hj
  induction fuel generalizing buf i with
  | zero => exact Or.inl hj
  | succ fuel ih =>
    by_cases hb : buf.byte i = 0
    · rw [scan_of_zero hb] at hj
      exact hlook hj
    · have hne : i ≠ n := by
        rintro rfl
        exact hb hn
      have hnext : i + 1 ≤ n := by omega
      rw [scan_of_ne hb] at hj
      have hh : j ∈ (buf.look i).used ∨ j ≤ n := by
        refine ih hnext hn hj (fun hj => ?_)
        rcases List.mem_cons.mp hj with rfl | hj
        · exact Or.inr hnext
        · exact Or.inl hj
      exact hh.elim hlook Or.inr

theorem mem_used_scan_of_mem {fuel j : Nat} (hj : j ∈ buf.used) : j ∈ (buf.scan fuel i).2.used := by
  induction fuel generalizing buf i with
  | zero => exact hj
  | succ fuel ih =>
    have hlook : j ∈ (buf.look i).used := List.mem_cons_of_mem i hj
    by_cases hb : buf.byte i = 0
    · rw [scan_of_zero hb]
      exact hlook
    · rw [scan_of_ne hb]
      exact ih hlook

theorem scan_eq_takeWhile {bs : List UInt8} (hbs : ∀ k (hk : k < bs.length), buf.byte (i + k) = bs[k])
    (hend : buf.byte (i + bs.length) = 0) {fuel : Nat} (hfuel : bs.length < fuel) :
    (buf.scan fuel i).1 = bs.takeWhile (· != 0) := by
  induction bs generalizing buf i fuel with
  | nil =>
    obtain ⟨n, rfl⟩ : ∃ n, fuel = n + 1 := ⟨fuel - 1, by simp at hfuel; omega⟩
    have hzero : buf.byte i = 0 := by simpa using hend
    rw [scan_of_zero hzero]
    rfl
  | cons b bs ih =>
    obtain ⟨n, rfl⟩ : ∃ n, fuel = n + 1 := ⟨fuel - 1, by simp at hfuel; omega⟩
    have hb : buf.byte i = b := hbs 0 (by simp)
    by_cases hzero : b = 0
    · rw [scan_of_zero (hb.trans hzero)]
      simp [hzero]
    · have hne : buf.byte i ≠ 0 := hb ▸ hzero
      have hrest (k : Nat) (hk : k < bs.length) : (buf.look i).byte (i + 1 + k) = bs[k] := by
        change buf.byte (i + 1 + k) = bs[k]
        have hh := hbs (k + 1) (by simpa using hk)
        rw [Nat.add_assoc, Nat.add_comm 1 k]
        simpa using hh
      have hlast : (buf.look i).byte (i + 1 + bs.length) = 0 := by
        change buf.byte (i + 1 + bs.length) = 0
        rw [Nat.add_assoc, Nat.add_comm 1]
        simpa using hend
      have hn : bs.length < n := by simpa using hfuel
      have hh : ((buf.look i).scan n (i + 1)).1 = bs.takeWhile (· != 0) := ih hrest hlast hn
      rw [scan_of_ne hne, hh, hb]
      simp [hzero]

end HeapArray

theorem lengthWord_cases (order : ByteOrder) (s : List UInt8) :
    (readPod order UInt32 s = .error .systemError ∧
      ∀ (len : UInt32) rest, s ≠ writePod order len ++ rest) ∨
    ∃ (len : UInt32) (rest : List UInt8),
      s = writePod order len ++ rest ∧ readPod order UInt32 s = .ok (len, rest) := by
  cases hr : readPod order UInt32 s with
  | error e =>
    refine Or.inl ⟨?_, fun len rest he => ?_⟩
    · by_cases hs : s.length < Pod.size UInt32
      · rw [readPod, Reader.bind_run, SocketWrapper.read, Reader.take_of_lt hs] at hr
        exact congrArg _ (Except.error.inj hr).symm
      · rw [readPod, Reader.bind_run, SocketWrapper.read, Reader.take_of_le (Nat.le_of_not_lt hs)] at hr
        cases hr
    · rw [he, (reads_readPod order UInt32).run rfl] at hr
      cases hr
  | ok r =>
    obtain ⟨bs, hs, hbs⟩ := (reads_readPod order UInt32 s r.1 r.2).mp hr
    exact Or.inr ⟨r.1, r.2, hbs ▸ hs, rfl⟩

theorem writePod_inj {order : ByteOrder} {len len' : UInt32} {rest rest' : List UInt8}
    (h : writePod order len ++ rest = writePod order len' ++ rest') : len = len' := by
  have hh := congrArg (readPod order UInt32) h
  rw [(reads_readPod order UInt32).run rfl, (reads_readPod order UInt32).run rfl] at hh
  exact (Prod.mk.inj (Except.ok.inj hh)).1

/-- The terminator is stored even if the bytes do not arrive. -/
theorem terminator_mem_used {order : ByteOrder} {before : Nat → UInt8} {fuel : Nat} {len : UInt32}
    {rest : List UInt8} {r : Option ByteString × HeapArray}
    (hr : r ∈ readStringArray order before fuel (writePod order len ++ rest)) :
    len.toNat ∈ r.2.used ∧ r.2.size = (len + 1).toNat := by
  let buf := ((HeapArray.new (len + 1).toNat before).write len.toNat 0).fill 0 (rest.take len.toNat)
  have hsize : buf.size = (len + 1).toNat := HeapArray.fill_size _
  have hused : len.toNat ∈ buf.used := HeapArray.mem_used_fill.mpr (Or.inl List.mem_cons_self)
  simp only [readStringArray, (reads_readPod order UInt32).run rfl] at hr
  split at hr
  · cases hr
    exact ⟨hused, hsize⟩
  · cases hr
    exact ⟨HeapArray.mem_used_scan_of_mem hused, (HeapArray.scan_size fuel).trans hsize⟩

theorem used_le_len {order : ByteOrder} {before : Nat → UInt8} {fuel : Nat} {len : UInt32}
    {rest : List UInt8} {r : Option ByteString × HeapArray}
    (hr : r ∈ readStringArray order before fuel (writePod order len ++ rest)) :
    ∀ i ∈ r.2.used, i ≤ len.toNat := by
  let buf := ((HeapArray.new (len + 1).toNat before).write len.toNat 0).fill 0 (rest.take len.toNat)
  have hfits : (rest.take len.toNat).length ≤ len.toNat := List.length_take_le _ _
  have hused (i : Nat) (hi : i ∈ buf.used) : i ≤ len.toNat := by
    rcases HeapArray.mem_used_fill.mp hi with hi | hi
    · have he : i = len.toNat := by simpa [HeapArray.write, HeapArray.new] using hi
      omega
    · omega
  have hzero : buf.byte len.toNat = 0 := by
    rw [HeapArray.fill_byte_of_le _ (by omega)]
    simp [HeapArray.write]
  simp only [readStringArray, (reads_readPod order UInt32).run rfl] at hr
  split at hr
  · cases hr
    exact hused
  · cases hr
    intro i hi
    exact (HeapArray.mem_used_scan (Nat.zero_le _) hzero hi).elim (hused i) id

theorem inBounds_iff_len (order : ByteOrder) (before : Nat → UInt8) (fuel : Nat) (len : UInt32)
    (rest : List UInt8) : (∀ r ∈ readStringArray order before fuel (writePod order len ++ rest), r.2.InBounds) ↔
      len ≠ 0xFFFFFFFF := by
  obtain ⟨r, hr⟩ : ∃ r, readStringArray order before fuel (writePod order len ++ rest) = some r := by
    simp only [readStringArray, (reads_readPod order UInt32).run rfl]
    split <;> exact ⟨_, rfl⟩
  obtain ⟨hterm, hsize⟩ := terminator_mem_used hr
  have hlt := toNat_lt_succ_iff len
  constructor
  · intro h
    have hin := h r hr _ hterm
    rw [hsize] at hin
    exact hlt.mp hin
  · intro hne r' hr'
    obtain rfl : r = r' := Option.some.inj (hr.symm.trans hr')
    intro i hi
    have hle := used_le_len hr i hi
    have hin := hlt.mpr hne
    rw [hsize]
    omega

/-- Every access is inside the array unless the length is the one whose
successor is zero in 32 bits. -/
theorem readString_inBounds_iff (order : ByteOrder) (before : Nat → UInt8) (fuel : Nat) (s : List UInt8) :
    (∀ r ∈ readStringArray order before fuel s, r.2.InBounds) ↔
      ∀ rest, s ≠ writePod order (0xFFFFFFFF : UInt32) ++ rest := by
  rcases lengthWord_cases order s with ⟨he, hno⟩ | ⟨len, rest, rfl, hread⟩
  · have hnone : readStringArray order before fuel s = none := by simp [readStringArray, he]
    simp [hnone, hno]
  · rw [inBounds_iff_len]
    constructor
    · exact fun hne rest' he => hne (writePod_inj he)
    · rintro h rfl
      exact h rest rfl

/-- A peer that sends the largest length has the terminator stored outside. -/
theorem not_readString_inBounds : ¬ ∀ (order : ByteOrder) (before : Nat → UInt8) (fuel : Nat) (s : List UInt8),
    ∀ r ∈ readStringArray order before fuel s, r.2.InBounds := by
  intro h
  have hs := (inBounds_iff_len .little (fun _ => 0) 0 0xFFFFFFFF []).mp (h _ _ _ _)
  exact hs rfl

/-- The reader that works on whole arrays reports an access outside exactly
where one is made. -/
theorem readString_outOfBounds_iff (order : ByteOrder) (before : Nat → UInt8) (fuel : Nat) (s : List UInt8) :
    readString order s = .error .outOfBounds ↔
      ¬ ∀ r ∈ readStringArray order before fuel s, r.2.InBounds := by
  rw [readString_eq, Reader.bind_run]
  rcases lengthWord_cases order s with ⟨he, -⟩ | ⟨len, rest, rfl, hread⟩
  · have hnone : readStringArray order before fuel s = none := by simp [readStringArray, he]
    simp [he, hnone, Except.bind]
  · rw [hread, inBounds_iff_len]
    by_cases hlen : len = 0xFFFFFFFF
    · subst hlen
      simp [Except.bind, stringBody]
    · simp only [Except.bind, stringBody, if_neg hlen, not_not.mpr hlen, iff_false]
      split <;> simp

/-- Inside the array both find the same string. -/
theorem readStringArray_result {order : ByteOrder} {before : Nat → UInt8} {fuel : Nat} {len : UInt32}
    {rest : List UInt8} (hlen : len ≠ 0xFFFFFFFF) (hfuel : len.toNat < fuel) :
    (readStringArray order before fuel (writePod order len ++ rest)).bind Prod.fst =
      (readString order (writePod order len ++ rest)).toOption.map Prod.fst := by
  rw [readString_eq, Reader.bind_run]
  simp only [readStringArray, (reads_readPod order UInt32).run rfl, Except.bind, stringBody, if_neg hlen]
  by_cases hs : rest.length < len.toNat
  · simp [hs, Except.toOption]
  · have htake : (rest.take len.toNat).length = len.toNat := List.length_take_of_le (Nat.le_of_not_lt hs)
    let buf := (HeapArray.new (len + 1).toNat before).write len.toNat 0
    have hbytes (k : Nat) (hk : k < (rest.take len.toNat).length) :
        (buf.fill 0 (rest.take len.toNat)).byte (0 + k) = (rest.take len.toNat)[k] :=
      HeapArray.fill_byte _ hk
    have hend : (buf.fill 0 (rest.take len.toNat)).byte (0 + (rest.take len.toNat).length) = 0 := by
      rw [HeapArray.fill_byte_of_le _ (Nat.le_refl _), htake, Nat.zero_add]
      exact HeapArray.write_byte_self 0
    have hscan := HeapArray.scan_eq_takeWhile hbytes hend (htake.symm ▸ hfuel)
    simp only [hs, if_false, Option.bind_some, Except.toOption, Option.map_some]
    exact congrArg some hscan

end Quintses
