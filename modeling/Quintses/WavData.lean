import Quintses.AudioStreams
import Quintses.WavHeaders
import Mathlib.Logic.Function.Iterate

/-! The data of a wav file on its way to the buffers: `readyNextBuffer` counts
what it asked for and not what it got. -/

namespace Quintses

open Lts

/-- What is passed to `fillNextBuffer`, with `gcount()` of the read before. -/
structure Passed where
  data : ByteString
  count : Nat

structure WavData where
  nextBuffer : Bool
  pos : UInt64
  len : UInt64
  file : IfStream
  passed : List Passed
  exhausted : Bool

namespace WavData

def start (h : WavHeaders) : WavData := ⟨false, h.pos, h.len, h.file, [], false⟩

variable (s : WavData)

/-- `new char[bufsize]` holds whatever was there before. -/
def readyNextBuffer (garbage : Nat → UInt8) : Bool × WavData :=
  let remaining := s.len - s.pos
  let bufsize := UInt64.ofNat bufferLen
  if remaining = 0 then (false, s)
  else
    let bufsize := if bufsize > remaining then remaining else bufsize
    let data := (List.range bufsize.toNat).map garbage
    let (data, file) := s.file.read data
    let count := (s.file.extracted bufsize.toNat).length
    (true, { s with pos := s.pos + bufsize, file, nextBuffer := !s.nextBuffer
                    passed := s.passed ++ [⟨data, count⟩] })

def step (s : WavData) (garbage : Nat → UInt8) : Option WavData :=
  let (result, t) := s.readyNextBuffer garbage
  some { t with exhausted := s.exhausted || !result }

def bytes : ByteString := s.passed.flatMap Passed.data

/-- Only bytes of the file are delivered, and in the end all of the data chunk
that the file has. -/
structure Delivers (file : ByteString) (s : WavData) : Prop where
  pos_le : s.pos ≤ s.len
  size : ∀ p ∈ s.passed, 1 ≤ p.data.length ∧ p.data.length ≤ 65536
  read : ∀ p ∈ s.passed, p.count = p.data.length
  all : s.exhausted = true → s.bytes = (file.drop 44).take s.len.toNat

structure Bounded (s : WavData) : Prop where
  pos_le : s.pos.toNat ≤ s.len.toNat
  size : ∀ p ∈ s.passed, 1 ≤ p.data.length ∧ p.data.length ≤ 65536
  length_bytes : s.bytes.length = s.pos.toNat
  ended : s.exhausted = true → s.pos = s.len

variable {s} {t : WavData} {garbage : Nat → UInt8} {file : ByteString}

/-- No more data, or as much of it as fits into a buffer. -/
theorem readyNextBuffer_cases (hle : s.pos.toNat ≤ s.len.toNat) (garbage : Nat → UInt8) :
    s.pos = s.len ∧ s.readyNextBuffer garbage = (false, s) ∨
    ∃ bufsize : UInt64, s.pos.toNat < s.len.toNat ∧
      bufsize.toNat = min (s.len.toNat - s.pos.toNat) bufferLen ∧
      (s.pos + bufsize).toNat = s.pos.toNat + bufsize.toNat ∧
      s.readyNextBuffer garbage =
        (true, { s with
          pos := s.pos + bufsize
          file := (s.file.read ((List.range bufsize.toNat).map garbage)).2
          nextBuffer := !s.nextBuffer
          passed := s.passed ++ [⟨(s.file.read ((List.range bufsize.toNat).map garbage)).1,
            (s.file.extracted bufsize.toNat).length⟩] }) := by
  have hremaining : (s.len - s.pos).toNat = s.len.toNat - s.pos.toNat :=
    UInt64.toNat_sub_of_le _ _ (UInt64.le_iff_toNat_le.mpr hle)
  by_cases hnone : s.len - s.pos = 0
  · have hzero : s.len.toNat - s.pos.toNat = 0 := by rw [← hremaining, hnone]; rfl
    exact Or.inl ⟨UInt64.toNat_inj.mp (by omega), by simp [readyNextBuffer, hnone]⟩
  · have hsome : s.len.toNat - s.pos.toNat ≠ 0 := fun h0 =>
      hnone (UInt64.toNat_inj.mp (hremaining.trans h0))
    have hbuffer : (UInt64.ofNat bufferLen).toNat = bufferLen := rfl
    have hsize : (if UInt64.ofNat bufferLen > s.len - s.pos then s.len - s.pos else UInt64.ofNat bufferLen).toNat =
        min (s.len.toNat - s.pos.toNat) bufferLen := by
      split_ifs with hlt
      · have hlt := UInt64.lt_iff_toNat_lt.mp hlt
        omega
      · have hlt := mt UInt64.lt_iff_toNat_lt.mpr hlt
        omega
    refine Or.inr ⟨_, by omega, hsize, ?_, by simp only [readyNextBuffer, hnone, if_false]⟩
    have hlen := s.len.toNat_lt
    rw [UInt64.toNat_add, hsize]
    exact Nat.mod_eq_of_lt (by omega)

/-- Without its bytes the stream is that of the audio loop. -/
def toStreaming (s : WavData) : StreamingWav := ⟨s.nextBuffer, s.pos.toNat, s.len.toNat⟩

theorem readyNextBuffer_toStreaming (hle : s.pos.toNat ≤ s.len.toNat) (garbage : Nat → UInt8) :
    s.toStreaming.readyNextBuffer.1 = (s.readyNextBuffer garbage).1 ∧
      s.toStreaming.readyNextBuffer.2.1 = (s.readyNextBuffer garbage).2.toStreaming := by
  rcases readyNextBuffer_cases hle garbage with ⟨hpos, hready⟩ | ⟨bufsize, hlt, hsize, hadd, hready⟩
  · have hdrained : s.toStreaming.Drained := by simp [StreamingWav.Drained, toStreaming, hpos]
    rw [StreamingWav.readyNextBuffer_drained hdrained, hready]
    exact ⟨rfl, rfl⟩
  · have hmore : ¬ s.len.toNat - s.pos.toNat = 0 := by omega
    rw [hready]
    by_cases hlast : s.len.toNat - s.pos.toNat < bufferLen
    · rw [Nat.min_eq_left (Nat.le_of_lt hlast)] at hsize
      simp [StreamingWav.readyNextBuffer, toStreaming, hmore, hlast, hadd, hsize]
    · rw [Nat.min_eq_right (Nat.le_of_not_lt hlast)] at hsize
      simp [StreamingWav.readyNextBuffer, toStreaming, hmore, hlast, hadd, hsize]

theorem Bounded.step (h : Bounded s) (hs : WavData.step s garbage = some t) : Bounded t := by
  rw [WavData.step] at hs
  rcases readyNextBuffer_cases h.pos_le garbage with ⟨hpos, hready⟩ | ⟨bufsize, hlt, hsize, hadd, hready⟩
  · rw [hready] at hs
    cases hs
    exact ⟨h.pos_le, h.size, h.length_bytes, fun _ => hpos⟩
  · have hlength : (s.file.read ((List.range bufsize.toNat).map garbage)).1.length = bufsize.toNat := by
      rw [IfStream.length_read, List.length_map, List.length_range]
    have hbuffer : bufferLen = 65536 := rfl
    rw [hready] at hs
    cases hs
    refine ⟨?_, fun p hp => ?_, ?_, fun he => ?_⟩
    · simp only [hadd]
      omega
    · rcases List.mem_append.mp hp with hp | hp
      · exact h.size p hp
      · rw [List.mem_singleton.mp hp]
        simp only [hlength]
        omega
    · have hold := h.length_bytes
      simp only [bytes] at hold ⊢
      simp [hlength, hold, hadd]
    · have hno : s.exhausted = true := by simpa using he
      have hend := h.ended hno
      rw [hend] at hlt
      omega

theorem run_toStreaming (h : Bounded s) {calls : List (Nat → UInt8)} (hr : run step s calls = some t) :
    t.toStreaming = (fun f : StreamingWav => f.readyNextBuffer.2.1)^[calls.length] s.toStreaming := by
  induction calls generalizing s with
  | nil =>
    cases hr
    rfl
  | cons garbage calls ih =>
    obtain ⟨u, hs, hr⟩ := run_cons_some.mp hr
    rw [ih (h.step hs) hr, List.length_cons, Function.iterate_succ_apply,
      (readyNextBuffer_toStreaming h.pos_le garbage).2, ← Option.some.inj hs]
    rfl

/-- What holds besides of a file that has all its data. -/
structure Complete (file : ByteString) (s : WavData) : Prop where
  bounded : Bounded s
  stream : s.pos ≠ s.len → s.file = ⟨file, 44 + s.pos.toNat, true⟩
  complete : s.len.toNat ≤ file.length - 44
  read : ∀ p ∈ s.passed, p.count = p.data.length
  bytes : s.bytes = (file.drop 44).take s.pos.toNat

theorem Complete.step (h : Complete file s) (hs : WavData.step s garbage = some t) : Complete file t := by
  have hbounded := h.bounded.step hs
  rw [WavData.step] at hs
  rcases readyNextBuffer_cases h.bounded.pos_le garbage with ⟨hpos, hready⟩ | ⟨bufsize, hlt, hsize, hadd, hready⟩
  · rw [hready] at hs
    cases hs
    exact ⟨hbounded, h.stream, h.complete, h.read, h.bytes⟩
  · rw [hready] at hs
    cases hs
    have hcomplete := h.complete
    have hfile : s.file = ⟨file, 44 + s.pos.toNat, true⟩ := h.stream (fun he => by rw [he] at hlt; omega)
    have hread : s.file.read ((List.range bufsize.toNat).map garbage) =
        (file.slice (44 + s.pos.toNat) bufsize.toNat, ⟨file, 44 + s.pos.toNat + bufsize.toNat, true⟩) := by
      rw [hfile]
      exact IfStream.read_of_le (by simp) (by omega)
    have hslice : (file.slice (44 + s.pos.toNat) bufsize.toNat).length = bufsize.toNat :=
      List.length_slice (by omega)
    have hextracted : (s.file.extracted bufsize.toNat).length = bufsize.toNat := by
      rw [hfile, IfStream.extracted, if_pos rfl, hslice]
    refine ⟨hbounded, fun _ => ?_, h.complete, fun p hp => ?_, ?_⟩
    · simp only [hread, hadd, Nat.add_assoc]
    · rcases List.mem_append.mp hp with hp | hp
      · exact h.read p hp
      · rw [List.mem_singleton.mp hp]
        simp only [hread, hextracted, hslice]
    · have hold := h.bytes
      simp only [WavData.bytes] at hold ⊢
      rw [List.flatMap_append, hold, hadd, List.take_add, List.drop_drop]
      simp [hread, List.slice]

theorem Complete.delivers (h : Complete file s) : Delivers file s where
  pos_le := UInt64.le_iff_toNat_le.mpr h.bounded.pos_le
  size := h.bounded.size
  read := h.read
  all he := by rw [h.bytes, h.bounded.ended he]

theorem step_len (h : Bounded s) (hs : step s garbage = some t) : t.len = s.len := by
  rw [step] at hs
  rcases readyNextBuffer_cases h.pos_le garbage with ⟨-, hready⟩ | ⟨bufsize, -, -, -, hready⟩
  · rw [hready] at hs
    cases hs
    rfl
  · rw [hready] at hs
    cases hs
    rfl

theorem exists_exhausted (h : Bounded s) :
    ∃ calls t, run step s calls = some t ∧ Bounded t ∧ t.exhausted = true ∧ t.len = s.len := by
  induction hn : s.len.toNat - s.pos.toNat using Nat.strong_induction_on generalizing s with
  | h n ih =>
    obtain ⟨t, hs⟩ : ∃ t, step s (fun _ => 0) = some t := ⟨_, rfl⟩
    have hlen := step_len h hs
    rcases readyNextBuffer_cases h.pos_le (fun _ => 0) with ⟨-, hready⟩ | ⟨bufsize, hlt, hsize, hadd, hready⟩
    · have hend : t.exhausted = true := by
        rw [step, hready] at hs
        simp [← Option.some.inj hs]
      exact ⟨[fun _ => 0], t, run_cons_some.mpr ⟨t, hs, rfl⟩, h.step hs, hend, hlen⟩
    · have hpos : t.pos = s.pos + bufsize := by
        rw [step, hready] at hs
        simp [← Option.some.inj hs]
      have hbuffer : bufferLen = 65536 := rfl
      have hless : t.len.toNat - t.pos.toNat < n := by
        rw [hlen, hpos, hadd]
        omega
      obtain ⟨calls, u, hr, hu, hend, hlen'⟩ := ih _ hless (h.step hs) rfl
      exact ⟨_ :: calls, u, run_cons_some.mpr ⟨t, hs, hr⟩, hu, hend, hlen'.trans hlen⟩

variable {order : ByteOrder}

open WavHeaders

theorem bounded_start (order : ByteOrder) (file : ByteString) : Bounded (start (ofFile order file)) :=
  ⟨Nat.zero_le _, fun p hp => (by cases hp), rfl, fun he => (by cases he)⟩

theorem complete_start (h : (chunkLength order (dataHeader file)).toNat ≤ file.length - 44) :
    Complete file (start (ofFile order file)) := by
  have hlen : (start (ofFile order file)).len.toNat = (chunkLength order (dataHeader file)).toNat :=
    UInt32.toNat_toUInt64 _
  refine ⟨bounded_start order file, fun hne => ?_, hlen ▸ h, fun p hp => (by cases hp), rfl⟩
  have hpos : (start (ofFile order file)).len.toNat ≠ 0 := fun h0 => hne (UInt64.toNat_inj.mp h0.symm)
  have hcomplete : 44 ≤ file.length := by omega
  simp [start, ofFile, hcomplete]

/-- A stream that ends has passed on as many bytes as the headers declared. -/
theorem Delivers.le_of_exhausted (h : Delivers file s) (hb : Bounded s) (he : s.exhausted = true) :
    s.len.toNat ≤ file.length - 44 := by
  have hlength : s.bytes.length = s.len.toNat := by rw [hb.length_bytes, hb.ended he]
  rw [h.all he, List.length_take, List.length_drop] at hlength
  omega

/-- The data that is passed on is that of the file exactly when the file has all
of the data that it declares. -/
theorem delivers_iff (order : ByteOrder) (stack : WavStack) (file : ByteString) :
    (∀ h, readHeaders order stack file = .ok h → ∀ calls, Along step (Delivers file) (start h) calls) ↔
      (Checked order file → (chunkLength order (dataHeader file)).toNat ≤ file.length - 44) := by
  constructor
  · intro h hc
    obtain ⟨calls, t, hr, hb, he, hlen⟩ := exists_exhausted (bounded_start order file)
    have hall := h _ (readHeaders_eq_ok.mpr ⟨hc, rfl⟩) calls
    have hle := (hall.last hr).le_of_exhausted hb he
    rwa [hlen, start, ofFile, UInt32.toNat_toUInt64] at hle
  · intro h headers hok calls
    obtain ⟨hc, rfl⟩ := readHeaders_eq_ok.mp hok
    have hcomplete : Along step (Complete file) (start (ofFile order file)) calls :=
      along_of_step (Complete file) (fun s garbage t h hs => h.step hs) (complete_start (h hc)) calls
    exact hcomplete.mono (fun s h => h.delivers)

/-- Two bytes of data where the headers declare four. -/
def truncated : ByteString :=
  literal "RIFF" ++ [40, 0, 0, 0] ++ literal "WAVE" ++ literal "fmt " ++ [16, 0, 0, 0] ++
    [1, 0, 1, 0, 64, 31, 0, 0, 64, 31, 0, 0, 1, 0, 8, 0] ++ literal "data" ++ [4, 0, 0, 0] ++ [128, 128]

theorem not_delivers_truncated :
    ¬ ∀ order stack file h, readHeaders order stack file = .ok h →
      ∀ calls, Along step (Delivers file) (start h) calls := by
  intro hall
  have hc : Checked .little truncated :=
    ⟨by decide, by decide, by decide, by decide, by decide, by decide, by decide, by decide⟩
  let stack : WavStack := ⟨List.replicate 8 0, List.replicate 4 0, List.replicate 16 0, rfl, rfl, rfl⟩
  have halong := hall .little stack truncated _ (readHeaders_eq_ok.mpr ⟨hc, rfl⟩) [fun _ => 0]
  have hread := (halong.last rfl).read
  exact absurd (hread _ (List.mem_singleton.mpr rfl)) (by decide)

end WavData

end Quintses
