import Quintses.IfStream
import Quintses.Messages

/-! The headers of a wav file as `client/openal/streamingwav.cpp` reads them:
into structures on the stack, without a look at the state of the stream. -/

namespace Quintses

inductive AlFormat
  | mono8 | stereo8 | mono16 | stereo16
  deriving DecidableEq

namespace AlFormat

def bits : AlFormat → UInt16
  | mono8 | stereo8 => 8
  | mono16 | stereo16 => 16

def channels : AlFormat → UInt16
  | mono8 | mono16 => 1
  | stereo8 | stereo16 => 2

end AlFormat

structure WaveFormat where
  format : UInt16
  numChannels : UInt16
  sampleRate : UInt32
  byteRate : UInt32
  blockAlign : UInt16
  bitsPerSample : UInt16
  deriving DecidableEq

namespace WaveFormat

def ofMemory (order : ByteOrder) (memory : ByteString) : WaveFormat where
  format := Pod.ofBytes order (memory.slice 0 2)
  numChannels := Pod.ofBytes order (memory.slice 2 2)
  sampleRate := Pod.ofBytes order (memory.slice 4 4)
  byteRate := Pod.ofBytes order (memory.slice 8 4)
  blockAlign := Pod.ofBytes order (memory.slice 12 2)
  bitsPerSample := Pod.ofBytes order (memory.slice 14 2)

def toMemory (order : ByteOrder) (fmt : WaveFormat) : ByteString :=
  Pod.toBytes order fmt.format ++ (Pod.toBytes order fmt.numChannels ++ (Pod.toBytes order fmt.sampleRate ++
    (Pod.toBytes order fmt.byteRate ++ (Pod.toBytes order fmt.blockAlign ++
      Pod.toBytes order fmt.bitsPerSample))))

/-- What is given to `setStreamProperties`; `none` if it is not called. -/
def streamProperties (fmt : WaveFormat) : Option (AlFormat × UInt32) :=
  if fmt.bitsPerSample = 8 ∧ fmt.numChannels = 1 then some (.mono8, fmt.sampleRate)
  else if fmt.bitsPerSample = 8 ∧ fmt.numChannels = 2 then some (.stereo8, fmt.sampleRate)
  else if fmt.bitsPerSample = 16 ∧ fmt.numChannels = 1 then some (.mono16, fmt.sampleRate)
  else if fmt.bitsPerSample = 16 ∧ fmt.numChannels = 2 then some (.stereo16, fmt.sampleRate)
  else none

end WaveFormat

/-- What the local variables of `readHeaders` hold before anything is read. -/
structure WavStack where
  riff : ByteString
  ftype : ByteString
  fmt : ByteString
  length_riff : riff.length = 8
  length_ftype : ftype.length = 4
  length_fmt : fmt.length = 16

/-- A `StreamingWav` after `readHeaders`; `pos` and `len` are of type `size_t`. -/
structure WavHeaders where
  properties : Option (AlFormat × UInt32)
  len : UInt64
  pos : UInt64
  file : IfStream

namespace WavHeaders

/-- Go on if `p`, else throw. -/
def require (p : Prop) [Decidable p] (what : String) : Except String Unit := if p then .ok () else .error what

/-- The member `length` of a `RiffHeader`. -/
def chunkLength (order : ByteOrder) (riff : ByteString) : UInt32 := Pod.ofBytes order (riff.slice 4 4)

def readHeaders (order : ByteOrder) (stack : WavStack) (file : ByteString) : Except String WavHeaders := do
  let (riff, file) := (IfStream.ofBytes file).read stack.riff
  require (riff.take 4 = literal "RIFF") "Not a RIFF file"
  let (ftype, file) := file.read stack.ftype
  require (ftype = literal "WAVE") "Not a WAVE file"
  let (riff, file) := file.read riff
  require (riff.take 4 = literal "fmt ") "Expected WAVE fmt block"
  let (memory, file) := file.read stack.fmt
  let fmt := WaveFormat.ofMemory order memory
  require (fmt.format = 1) "Only PCM WAVE files are supported"
  require (fmt.bitsPerSample = 8 ∨ fmt.bitsPerSample = 16) "Only bit sizes of 8 and 16 are supported"
  require (fmt.numChannels ≤ 2) "Only mono and stereo files are supported"
  let (riff, file) := file.read riff
  require (riff.take 4 = literal "data") "Expected WAVE data block"
  return ⟨fmt.streamProperties, (chunkLength order riff).toUInt64, 0, file⟩

/-- What `readHeaders` finds in a file that it accepts, at fixed offsets. -/
structure Checked (order : ByteOrder) (file : ByteString) : Prop where
  complete : 40 ≤ file.length
  riff : file.slice 0 4 = literal "RIFF"
  wave : file.slice 8 4 = literal "WAVE"
  fmt : file.slice 12 4 = literal "fmt "
  pcm : (WaveFormat.ofMemory order (file.slice 20 16)).format = 1
  bits : (WaveFormat.ofMemory order (file.slice 20 16)).bitsPerSample = 8 ∨
    (WaveFormat.ofMemory order (file.slice 20 16)).bitsPerSample = 16
  channels : (WaveFormat.ofMemory order (file.slice 20 16)).numChannels ≤ 2
  data : file.slice 36 4 = literal "data"

/-- The header of the data chunk is read over that of the format chunk. -/
def dataHeader (file : ByteString) : ByteString :=
  file.slice 36 8 ++ (file.slice 12 8).drop (file.slice 36 8).length

def ofFile (order : ByteOrder) (file : ByteString) : WavHeaders where
  properties := (WaveFormat.ofMemory order (file.slice 20 16)).streamProperties
  len := (chunkLength order (dataHeader file)).toUInt64
  pos := 0
  file := ⟨file, min 44 file.length, 44 ≤ file.length⟩

theorem require_bind_eq_ok {p : Prop} [Decidable p] {what : String} {f : Unit → Except String WavHeaders}
    {h : WavHeaders} : (require p what >>= f) = .ok h ↔ p ∧ f () = .ok h := by
  by_cases hp : p
  · simp [require, hp]
    rfl
  · simp only [require, hp, if_false, false_and, iff_false]
    intro hh
    cases hh

variable {order : ByteOrder} {stack : WavStack} {file : ByteString} {h : WavHeaders}

theorem readHeaders_eq_ok_iff :
    readHeaders order stack file = .ok h ↔
      let riff := (IfStream.ofBytes file).read stack.riff
      let ftype := riff.2.read stack.ftype
      let riff' := ftype.2.read riff.1
      let memory := riff'.2.read stack.fmt
      let fmt := WaveFormat.ofMemory order memory.1
      let data := memory.2.read riff'.1
      riff.1.take 4 = literal "RIFF" ∧ ftype.1 = literal "WAVE" ∧ riff'.1.take 4 = literal "fmt " ∧
        fmt.format = 1 ∧ (fmt.bitsPerSample = 8 ∨ fmt.bitsPerSample = 16) ∧ fmt.numChannels ≤ 2 ∧
        data.1.take 4 = literal "data" ∧
        ⟨fmt.streamProperties, (chunkLength order data.1).toUInt64, 0, data.2⟩ = h := by
  unfold readHeaders
  simp only [require_bind_eq_ok, pure, Except.pure, Except.ok.injEq]

theorem read_dataHeader (hlen : 36 ≤ file.length) :
    (IfStream.mk file 36 true).read (file.slice 12 8) =
      (dataHeader file, ⟨file, min 44 file.length, 44 ≤ file.length⟩) := by
  have hmemory : (file.slice 12 8).length = 8 := List.length_slice (by omega)
  have hgot : (file.slice 36 8).length = min 8 (file.length - 36) := by
    rw [List.slice, List.length_take, List.length_drop]
  have hpos : 36 + min 8 (file.length - 36) = min 44 file.length := by omega
  have hgood : (min 8 (file.length - 36) == 8) = decide (44 ≤ file.length) := by
    rw [beq_eq_decide, decide_eq_decide]
    omega
  simp only [IfStream.read, IfStream.extracted, if_true, hmemory, Bool.true_and, dataHeader]
  rw [hgot, hpos, hgood]

/-- A file that is long enough for the header of the format chunk and the chunk. -/
theorem readHeaders_of_le (hlen : 36 ≤ file.length) :
    readHeaders order stack file = .ok h ↔
      let fmt := WaveFormat.ofMemory order (file.slice 20 16)
      file.slice 0 4 = literal "RIFF" ∧ file.slice 8 4 = literal "WAVE" ∧ file.slice 12 4 = literal "fmt " ∧
        fmt.format = 1 ∧ (fmt.bitsPerSample = 8 ∨ fmt.bitsPerSample = 16) ∧ fmt.numChannels ≤ 2 ∧
        (dataHeader file).take 4 = literal "data" ∧ ofFile order file = h := by
  have hriff : (IfStream.ofBytes file).read stack.riff = (file.slice 0 8, ⟨file, 8, true⟩) :=
    IfStream.read_of_le stack.length_riff (by omega)
  have hftype : (IfStream.mk file 8 true).read stack.ftype = (file.slice 8 4, ⟨file, 12, true⟩) :=
    IfStream.read_of_le stack.length_ftype (by omega)
  have hriff' : (IfStream.mk file 12 true).read (file.slice 0 8) = (file.slice 12 8, ⟨file, 20, true⟩) :=
    IfStream.read_of_le (List.length_slice (by omega)) (by omega)
  have hfmt : (IfStream.mk file 20 true).read stack.fmt = (file.slice 20 16, ⟨file, 36, true⟩) :=
    IfStream.read_of_le stack.length_fmt (by omega)
  rw [readHeaders_eq_ok_iff]
  simp only [hriff, hftype, hriff', hfmt, read_dataHeader hlen, List.take_slice (show 4 ≤ 8 by decide)]
  rfl

/-- Were the format chunk not complete, the last check would look at the header
that the one before it has accepted. -/
theorem le_of_readHeaders (hok : readHeaders order stack file = .ok h) : 36 ≤ file.length := by
  rw [readHeaders_eq_ok_iff] at hok
  obtain ⟨-, -, hfmt, -, -, -, hdata, -⟩ := hok
  have hgood : (((((IfStream.ofBytes file).read stack.riff).2.read stack.ftype).2.read
      ((IfStream.ofBytes file).read stack.riff).1).2.read stack.fmt).2.good = true := by
    by_contra hno
    rw [IfStream.read_of_not_good (by simpa using hno), hfmt] at hdata
    exact absurd hdata (by decide)
  have hlen : ((IfStream.ofBytes file).read stack.riff).1.length = 8 := by
    rw [IfStream.length_read, stack.length_riff]
  obtain ⟨hgood, hle, -⟩ := IfStream.of_read_good (by simp [stack.length_fmt]) hgood
  obtain ⟨hgood, -, h3⟩ := IfStream.of_read_good (by simp [hlen]) hgood
  obtain ⟨hgood, -, h2⟩ := IfStream.of_read_good (by simp [stack.length_ftype]) hgood
  obtain ⟨-, -, h1⟩ := IfStream.of_read_good (by simp [stack.length_riff]) hgood
  rw [h3, h2, h1, hlen, stack.length_riff, stack.length_ftype, stack.length_fmt] at hle
  exact hle

theorem take_dataHeader (hlen : 36 ≤ file.length) (hfmt : file.slice 12 4 = literal "fmt ") :
    (dataHeader file).take 4 = literal "data" ↔ 40 ≤ file.length ∧ file.slice 36 4 = literal "data" := by
  have hgot : (file.slice 36 8).length = min 8 (file.length - 36) := by
    rw [List.slice, List.length_take, List.length_drop]
  by_cases h40 : 40 ≤ file.length
  · have htake : (dataHeader file).take 4 = file.slice 36 4 := by
      rw [dataHeader, List.take_append_of_le_length (by omega), List.take_slice (by decide)]
    simp [htake, h40]
  · refine iff_of_false (fun h => ?_) (fun h => h40 h.1)
    -- the last letter is the blank of the other header
    have hread : ((dataHeader file).take 4)[3]? = (file.slice 12 4)[3]? := by
      have hkept : (file.slice 36 8).length + (3 - (file.slice 36 8).length) = 3 := by omega
      rw [← List.take_slice (show 4 ≤ 8 by decide), List.getElem?_take_of_lt (by decide),
        List.getElem?_take_of_lt (by decide), dataHeader, List.getElem?_append_right (by omega),
        List.getElem?_drop, hkept]
    rw [h, hfmt] at hread
    exact absurd hread (by decide)

theorem readHeaders_eq_ok :
    readHeaders order stack file = .ok h ↔ Checked order file ∧ ofFile order file = h := by
  constructor
  · intro hok
    have hlen := le_of_readHeaders hok
    obtain ⟨hriff, hwave, hfmt, hpcm, hbits, hchannels, hdata, rfl⟩ := (readHeaders_of_le hlen).mp hok
    obtain ⟨hcomplete, hdata⟩ := (take_dataHeader hlen hfmt).mp hdata
    exact ⟨⟨hcomplete, hriff, hwave, hfmt, hpcm, hbits, hchannels, hdata⟩, rfl⟩
  · rintro ⟨hc, rfl⟩
    have hlen : 36 ≤ file.length := by have := hc.complete; omega
    exact (readHeaders_of_le hlen).mpr ⟨hc.riff, hc.wave, hc.fmt, hc.pcm, hc.bits, hc.channels,
      (take_dataHeader hlen hc.fmt).mpr ⟨hc.complete, hc.data⟩, rfl⟩

end WavHeaders

namespace WaveFormat

variable {order : ByteOrder} {fmt : WaveFormat}

theorem length_toMemory : (fmt.toMemory order).length = 16 := by
  simp only [toMemory, List.length_append, Pod.length_toBytes]
  rfl

theorem ofMemory_toMemory : ofMemory order (fmt.toMemory order) = fmt := by
  have h2 (x : UInt16) : (Pod.toBytes order x).length = 2 := Pod.length_toBytes order x
  have h4 (x : UInt32) : (Pod.toBytes order x).length = 4 := Pod.length_toBytes order x
  have hlast : (Pod.toBytes order fmt.bitsPerSample).slice 0 2 = Pod.toBytes order fmt.bitsPerSample :=
    List.take_of_length_le (Nat.le_of_eq (h2 fmt.bitsPerSample))
  simp [ofMemory, toMemory, List.slice_append_right, List.slice_append_left, h2, h4, hlast, Pod.ofBytes_toBytes]

theorem toMemory_ofMemory {memory : ByteString} (h : memory.length = 16) :
    (ofMemory order memory).toMemory order = memory := by
  have h2 (offset : Nat) (hle : offset + 2 ≤ 16) : Pod.toBytes order
      (Pod.ofBytes order (memory.slice offset 2) : UInt16) = memory.slice offset 2 :=
    Pod.toBytes_ofBytes order _ (List.length_slice (h ▸ hle))
  have h4 (offset : Nat) (hle : offset + 4 ≤ 16) : Pod.toBytes order
      (Pod.ofBytes order (memory.slice offset 4) : UInt32) = memory.slice offset 4 :=
    Pod.toBytes_ofBytes order _ (List.length_slice (h ▸ hle))
  have hlast : memory.slice 14 2 = memory.drop 14 := List.take_of_length_le (by simp [h])
  simp only [toMemory, ofMemory]
  rw [h2 0 (by decide), h2 2 (by decide), h4 4 (by decide), h4 8 (by decide), h2 12 (by decide),
    h2 14 (by decide), hlast, List.slice_append_drop rfl, List.slice_append_drop rfl,
    List.slice_append_drop rfl, List.slice_append_drop rfl, List.slice_append_drop rfl, List.drop_zero]

theorem streamProperties_eq (hbits : fmt.bitsPerSample = 8 ∨ fmt.bitsPerSample = 16)
    (hchannels : fmt.numChannels = 1 ∨ fmt.numChannels = 2) :
    ∃ format, fmt.streamProperties = some (format, fmt.sampleRate) ∧ format.bits = fmt.bitsPerSample ∧
      format.channels = fmt.numChannels := by
  rcases hbits with hb | hb <;> rcases hchannels with hc | hc
  · exact ⟨.mono8, by simp [streamProperties, hb, hc], hb.symm, hc.symm⟩
  · exact ⟨.stereo8, by simp [streamProperties, hb, hc], hb.symm, hc.symm⟩
  · exact ⟨.mono16, by simp [streamProperties, hb, hc], hb.symm, hc.symm⟩
  · exact ⟨.stereo16, by simp [streamProperties, hb, hc], hb.symm, hc.symm⟩

end WaveFormat

/-- A wav file that can be played. The format chunk may be longer than what it
has to hold. -/
structure WavFile where
  riffLength : UInt32
  fmtLength : UInt32
  fmt : WaveFormat
  extra : ByteString
  dataLength : UInt32
  payload : ByteString
  length_fmt : fmtLength.toNat = 16 + extra.length
  pcm : fmt.format = 1
  bits : fmt.bitsPerSample = 8 ∨ fmt.bitsPerSample = 16
  channels : fmt.numChannels = 1 ∨ fmt.numChannels = 2

namespace WavFile

def encode (order : ByteOrder) (wav : WavFile) : ByteString :=
  literal "RIFF" ++ (Pod.toBytes order wav.riffLength ++ (literal "WAVE" ++ (literal "fmt " ++
    (Pod.toBytes order wav.fmtLength ++ (wav.fmt.toMemory order ++ (wav.extra ++ (literal "data" ++
      (Pod.toBytes order wav.dataLength ++ wav.payload))))))))

/-- The position of the first byte of the payload. -/
def start (wav : WavFile) : Nat := 28 + wav.fmtLength.toNat

variable {order : ByteOrder} {wav : WavFile}

theorem slice_fmtLength : (wav.encode order).slice 16 4 = Pod.toBytes order wav.fmtLength := by
  have h4 (x : UInt32) : (Pod.toBytes order x).length = 4 := Pod.length_toBytes order x
  have hriff : (literal "RIFF").length = 4 := rfl
  have hwave : (literal "WAVE").length = 4 := rfl
  have hfmt : (literal "fmt ").length = 4 := rfl
  simp [encode, List.slice_append_right, List.slice_append_left, h4, hriff, hwave, hfmt]

theorem slice_fmt : (wav.encode order).slice 20 16 = wav.fmt.toMemory order := by
  have h4 (x : UInt32) : (Pod.toBytes order x).length = 4 := Pod.length_toBytes order x
  have hriff : (literal "RIFF").length = 4 := rfl
  have hwave : (literal "WAVE").length = 4 := rfl
  have hfmt : (literal "fmt ").length = 4 := rfl
  simp [encode, List.slice_append_right, List.slice_append_left, h4, hriff, hwave, hfmt,
    WaveFormat.length_toMemory]

end WavFile

namespace WavHeaders

variable {order : ByteOrder} {stack : WavStack} {file : ByteString} {h : WavHeaders}

/-- The headers are those of a file that can be played, and the stream is at its
payload. -/
def Playable (order : ByteOrder) (file : ByteString) (h : WavHeaders) : Prop :=
  ∃ wav : WavFile, wav.encode order = file ∧
    (∃ format, h.properties = some (format, wav.fmt.sampleRate) ∧ format.bits = wav.fmt.bitsPerSample ∧
      format.channels = wav.fmt.numChannels) ∧
    h.len = wav.dataLength.toUInt64 ∧ h.pos = 0 ∧ h.file.pos = wav.start ∧ h.file.good = true

/-- What is not checked. -/
structure Regular (order : ByteOrder) (file : ByteString) : Prop where
  fmtLength : (Pod.ofBytes order (file.slice 16 4) : UInt32) = 16
  channels : (WaveFormat.ofMemory order (file.slice 20 16)).numChannels ≠ 0
  complete : 44 ≤ file.length

theorem playable_iff (hc : Checked order file) :
    Playable order file (ofFile order file) ↔ Regular order file := by
  constructor
  · rintro ⟨wav, rfl, -, -, -, hpos, -⟩
    have hstart : min 44 (wav.encode order).length = 28 + wav.fmtLength.toNat := hpos
    have hlength := wav.length_fmt
    have hone : wav.fmtLength = 16 := UInt32.toNat_inj.mp (show wav.fmtLength.toNat = 16 by omega)
    refine ⟨?_, ?_, by omega⟩
    · rw [WavFile.slice_fmtLength, Pod.ofBytes_toBytes, hone]
    · rw [WavFile.slice_fmt, WaveFormat.ofMemory_toMemory]
      rcases wav.channels with hch | hch <;> rw [hch] <;> decide
  · intro hr
    have hlen := hr.complete
    have h4 (offset : Nat) (hle : offset + 4 ≤ 44) : Pod.toBytes order
        (Pod.ofBytes order (file.slice offset 4) : UInt32) = file.slice offset 4 :=
      Pod.toBytes_ofBytes order _ (List.length_slice (by omega))
    have hchannels : (WaveFormat.ofMemory order (file.slice 20 16)).numChannels = 1 ∨
        (WaveFormat.ofMemory order (file.slice 20 16)).numChannels = 2 := by
      have hle := UInt16.le_iff_toNat_le.mp hc.channels
      have hne := mt UInt16.toNat_inj.mp hr.channels
      simp only [← UInt16.toNat_inj]
      change _ = 1 ∨ _ = 2
      change _ ≤ 2 at hle
      change ¬ _ = 0 at hne
      omega
    have hheader : (dataHeader file).slice 4 4 = file.slice 40 4 := by
      have hfull : (file.slice 36 8).length = 8 := List.length_slice (by omega)
      have hnone : (file.slice 12 8).drop 8 = [] := List.drop_eq_nil_of_le (List.length_take_le _ _)
      rw [dataHeader, hfull, hnone, List.append_nil, List.slice_slice (by decide)]
    let wav : WavFile :=
      { riffLength := Pod.ofBytes order (file.slice 4 4)
        fmtLength := Pod.ofBytes order (file.slice 16 4)
        fmt := WaveFormat.ofMemory order (file.slice 20 16)
        extra := []
        dataLength := Pod.ofBytes order (file.slice 40 4)
        payload := file.drop 44
        length_fmt := by rw [hr.fmtLength]; rfl
        pcm := hc.pcm
        bits := hc.bits
        channels := hchannels }
    refine ⟨wav, ?_, WaveFormat.streamProperties_eq hc.bits hchannels, ?_, rfl, ?_, ?_⟩
    · simp only [wav, WavFile.encode, ← hc.riff, ← hc.wave, ← hc.fmt, ← hc.data, List.nil_append]
      rw [h4 4 (by decide), h4 16 (by decide), h4 40 (by decide),
        WaveFormat.toMemory_ofMemory (List.length_slice (by omega))]
      simp only [List.slice_append_drop, List.drop_zero]
    · simp only [wav, ofFile, chunkLength, hheader]
    · simp only [wav, ofFile, WavFile.start, hr.fmtLength]
      exact Nat.min_eq_left hlen
    · simpa [ofFile] using hlen

/-- `readHeaders` accepts only what can be played if a file that passes its
checks also has a format chunk of 16 bytes, a channel and a complete header of
the data chunk. -/
theorem playable_of_readHeaders_iff (order : ByteOrder) (stack : WavStack) (file : ByteString) :
    (∀ h, readHeaders order stack file = .ok h → Playable order file h) ↔
      (Checked order file → Regular order file) := by
  constructor
  · intro h hc
    exact (playable_iff hc).mp (h _ (readHeaders_eq_ok.mpr ⟨hc, rfl⟩))
  · rintro h headers hok
    obtain ⟨hc, rfl⟩ := readHeaders_eq_ok.mp hok
    exact (playable_iff hc).mpr (h hc)

/-- A file without data that declares no channel. -/
def noChannels : ByteString :=
  literal "RIFF" ++ [36, 0, 0, 0] ++ literal "WAVE" ++ literal "fmt " ++ [16, 0, 0, 0] ++
    [1, 0, 0, 0, 64, 31, 0, 0, 0, 0, 0, 0, 0, 0, 8, 0] ++ literal "data" ++ [0, 0, 0, 0]

theorem not_playable_noChannels :
    ¬ ∀ order stack file h, readHeaders order stack file = .ok h → Playable order file h := by
  intro hall
  have hc : Checked .little noChannels :=
    ⟨by decide, by decide, by decide, by decide, by decide, by decide, by decide, by decide⟩
  let stack : WavStack := ⟨List.replicate 8 0, List.replicate 4 0, List.replicate 16 0, rfl, rfl, rfl⟩
  have hplayable := hall .little stack noChannels _ (readHeaders_eq_ok.mpr ⟨hc, rfl⟩)
  exact ((playable_iff hc).mp hplayable).channels (by decide)

end WavHeaders

end Quintses
