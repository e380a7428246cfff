import Quintses.Codec
import Mathlib.Data.List.TakeWhile

/-! The socket wrapper of `core/util/socket.hpp`. A socket that is read is the
list of the bytes it still delivers before it ends or fails. -/

namespace Quintses

abbrev ByteString := List UInt8

/-- `systemError` is the exception of a synchronous read whose stream ends or
fails; `outOfBounds` is an access outside an allocated array. -/
inductive ReadError
  | systemError
  | outOfBounds
  deriving DecidableEq

abbrev SocketReader (α : Type) := Reader UInt8 ReadError α

namespace SocketWrapper

def read (size : Nat) : SocketReader (List.Vector UInt8 size) := Reader.take .systemError size

def readPod (order : ByteOrder) (τ : Type) [Pod τ] : SocketReader τ := do
  let buf ← read (Pod.size τ)
  return Pod.ofBytes order buf.toList

def writePod (order : ByteOrder) {τ : Type} [Pod τ] (val : τ) : List UInt8 := Pod.toBytes order val

def store (buf : List UInt8) (i : Nat) (bs : List UInt8) : SocketReader (List UInt8) :=
  if i + bs.length ≤ buf.length then
    return buf.take i ++ bs ++ buf.drop (i + bs.length)
  else
    throw .outOfBounds

def assign (buf : List UInt8) : SocketReader ByteString :=
  if 0 ∈ buf then return buf.takeWhile (· != 0) else throw .outOfBounds

def readString (order : ByteOrder) : SocketReader ByteString := do
  let len ← readPod order UInt32
  -- the size is computed in 32 bits; the stores below overwrite all of the array
  let buf := List.replicate (len + 1).toNat (0 : UInt8)
  let buf ← store buf len.toNat [0]
  let bs ← read len.toNat
  let buf ← store buf 0 bs.toList
  assign buf

def writeString (order : ByteOrder) (str : ByteString) : List UInt8 :=
  let len : UInt32 := UInt32.ofNat str.length
  writePod order len ++ str.take len.toNat

theorem reads_readPod (order : ByteOrder) (τ : Type) [Pod τ] :
    Reader.Reads (readPod order τ) (fun bs val => bs = writePod order val) := by
  refine ((Reader.reads_take ReadError.systemError (Pod.size τ)).bind
    (fun v => Reader.reads_pure (Pod.ofBytes order v.toList : τ))).congr (fun bs val => ?_)
  constructor
  · rintro ⟨_, _, v, rfl, rfl, rfl, rfl⟩
    simp [writePod, Pod.toBytes_ofBytes order v.toList v.toList_length]
  · rintro rfl
    refine ⟨_, [], ⟨writePod order val, Pod.length_toBytes order val⟩, ?_, rfl, rfl, ?_⟩
    · simp [List.Vector.toList]
    · simp [List.Vector.toList, writePod, Pod.ofBytes_toBytes]

theorem toNat_lt_succ_iff (len : UInt32) : len.toNat < (len + 1).toNat ↔ len ≠ 0xFFFFFFFF := by
  have hlt := len.toNat_lt
  rw [UInt32.toNat_add, ne_eq, ← UInt32.toNat_inj]
  simp only [UInt32.toNat_one, UInt32.reduceToNat]
  omega

theorem toNat_succ_of_ne {len : UInt32} (h : len ≠ 0xFFFFFFFF) : (len + 1).toNat = len.toNat + 1 := by
  have hlt := len.toNat_lt
  rw [ne_eq, ← UInt32.toNat_inj] at h
  rw [UInt32.toNat_add]
  simp only [UInt32.toNat_one, UInt32.reduceToNat] at h ⊢
  omega

/-- What `readString` does after the length, whatever the length is. -/
def stringBody (len : UInt32) : SocketReader ByteString := fun s =>
  if len = 0xFFFFFFFF then .error .outOfBounds
  else if s.length < len.toNat then .error .systemError
  else .ok ((s.take len.toNat).takeWhile (· != 0), s.drop len.toNat)

theorem takeWhile_append_zero (bs : List UInt8) :
    (bs ++ [0]).takeWhile (· != 0) = bs.takeWhile (· != 0) := by
  induction bs with
  | nil => rfl
  | cons b bs ih => simp [List.takeWhile_cons, ih]

theorem store_run {buf bs : List UInt8} {i : Nat} (h : i + bs.length ≤ buf.length) (s : List UInt8) :
    store buf i bs s = .ok (buf.take i ++ bs ++ buf.drop (i + bs.length), s) := by
  simp only [store, h, if_true]
  rfl

theorem store_run_of_lt {buf bs : List UInt8} {i : Nat} (h : buf.length < i + bs.length)
    (s : List UInt8) : store buf i bs s = .error .outOfBounds := by
  simp only [store, Nat.not_le_of_lt h, if_false]
  rfl

theorem assign_run {buf : List UInt8} (h : 0 ∈ buf) (s : List UInt8) :
    assign buf s = .ok (buf.takeWhile (· != 0), s) := by
  simp only [assign, h, if_true]
  rfl

theorem readString_eq (order : ByteOrder) :
    readString order = readPod order UInt32 >>= stringBody := by
  unfold readString
  congr 1
  funext len s
  have hiff := toNat_lt_succ_iff len
  by_cases hlen : len = 0xFFFFFFFF
  · have hlt : (List.replicate (len + 1).toNat (0 : UInt8)).length < len.toNat + [(0 : UInt8)].length := by
      simp only [List.length_replicate, List.length_singleton]
      have := hiff.not.mpr (not_not.mpr hlen)
      omega
    rw [Reader.bind_run, store_run_of_lt hlt, stringBody, if_pos hlen]
    rfl
  · have hsize := toNat_succ_of_ne hlen
    have hle : len.toNat + [(0 : UInt8)].length ≤ (List.replicate (len + 1).toNat (0 : UInt8)).length := by
      simp [hsize]
    have hterm : (List.replicate (len + 1).toNat (0 : UInt8)).take len.toNat ++ [0] ++
        (List.replicate (len + 1).toNat (0 : UInt8)).drop (len.toNat + [(0 : UInt8)].length) =
        List.replicate len.toNat 0 ++ [0] := by
      simp [hsize]
    rw [Reader.bind_run, store_run hle, hterm, stringBody, if_neg hlen]
    simp only [Except.bind, Reader.bind_run, read]
    by_cases hs : s.length < len.toNat
    · rw [Reader.take_of_lt hs, if_pos hs]
    · have htake : len.toNat ≤ s.length := Nat.le_of_not_lt hs
      have hlength : (s.take len.toNat).length = len.toNat := by simp [htake]
      have hfit : 0 + (s.take len.toNat).length ≤
          (List.replicate len.toNat (0 : UInt8) ++ [0]).length := by simp
      -- the bytes read fill the array up to the terminator stored before
      have hfill : (List.replicate len.toNat (0 : UInt8) ++ [0]).take 0 ++ s.take len.toNat ++
          (List.replicate len.toNat (0 : UInt8) ++ [0]).drop (0 + (s.take len.toNat).length) =
          s.take len.toNat ++ [0] := by
        rw [hlength, Nat.zero_add, List.drop_left' (List.length_replicate ..)]
        simp
      rw [Reader.take_of_le htake, if_neg hs]
      change (store _ 0 (s.take len.toNat) (s.drop len.toNat)).bind (fun p => assign p.1 p.2) = _
      rw [store_run hfit, hfill]
      simp only [Except.bind]
      rw [assign_run (by simp), takeWhile_append_zero]

theorem writeString_eq {str : ByteString} (order : ByteOrder) (hlen : str.length < 2 ^ 32) :
    writeString order str = writePod order (UInt32.ofNat str.length) ++ str := by
  simp [writeString, UInt32.toNat_ofNat_of_lt' hlen]

/-- The bytes that `readString` takes for a string: a length that leaves room
for the terminator and as many bytes, of which those before a zero count. -/
def StringLayout (order : ByteOrder) (bs : List UInt8) (str : ByteString) : Prop :=
  ∃ (len : UInt32) (raw : List UInt8), bs = writePod order len ++ raw ∧ raw.length = len.toNat ∧
    len ≠ 0xFFFFFFFF ∧ str = raw.takeWhile (· != 0)

theorem reads_stringBody (len : UInt32) : Reader.Reads (stringBody len)
    (fun raw str => raw.length = len.toNat ∧ len ≠ 0xFFFFFFFF ∧ str = raw.takeWhile (· != 0)) := by
  intro s str rest
  by_cases hlen : len = 0xFFFFFFFF
  · simp [stringBody, hlen]
  · by_cases hs : s.length < len.toNat
    · simp only [stringBody, hlen, if_false, hs, if_true, reduceCtorEq, false_iff]
      rintro ⟨raw, rfl, hraw, _, _⟩
      rw [List.length_append] at hs
      omega
    · simp only [stringBody, hlen, if_false, hs, Except.ok.injEq, Prod.mk.injEq]
      constructor
      · rintro ⟨rfl, rfl⟩
        exact ⟨s.take len.toNat, (List.take_append_drop _ s).symm, by simp; omega, hlen, rfl⟩
      · rintro ⟨raw, rfl, hraw, _, rfl⟩
        simp [← hraw]

theorem reads_readString (order : ByteOrder) :
    Reader.Reads (readString order) (StringLayout order) := by
  rw [readString_eq]
  refine ((reads_readPod order UInt32).bind reads_stringBody).congr (fun bs str => ?_)
  constructor
  · rintro ⟨_, raw, len, rfl, rfl, hraw⟩
    exact ⟨len, raw, rfl, hraw⟩
  · rintro ⟨len, raw, rfl, hraw⟩
    exact ⟨_, raw, len, rfl, rfl, hraw⟩

theorem writeString_layout {str : ByteString} (order : ByteOrder) (hnul : 0 ∉ str)
    (hlen : str.length < 2 ^ 32 - 1) : StringLayout order (writeString order str) str := by
  have hval : (UInt32.ofNat str.length).toNat = str.length := UInt32.toNat_ofNat_of_lt' (hlen.trans (by decide))
  refine ⟨UInt32.ofNat str.length, str, writeString_eq order (by omega), hval.symm, ?_, ?_⟩
  · intro he
    have := congrArg UInt32.toNat he
    rw [hval] at this
    simp only [UInt32.reduceToNat] at this
    omega
  · refine (List.takeWhile_eq_self_iff.mpr (fun b hb => ?_)).symm
    simpa using fun he : b = 0 => hnul (he ▸ hb)

theorem readString_overflow {str : ByteString} (order : ByteOrder)
    (hlen : str.length = 2 ^ 32 - 1) (rest : List UInt8) :
    readString order (writeString order str ++ rest) = .error .outOfBounds := by
  rw [readString_eq, writeString_eq order (by omega), Reader.bind_run, List.append_assoc,
    (reads_readPod order UInt32).run rfl]
  simp [Except.bind, stringBody, hlen]

end SocketWrapper

end Quintses
