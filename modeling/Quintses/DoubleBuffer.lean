import Quintses.AudioStreams
import Mathlib.Logic.Function.Basic

/-! One stream on its OpenAL source: `StreamingFile` keeps `m_next_buffer` in
step with a queue that it cannot see. -/

namespace Quintses

open Lts

structure Chunk where
  pos : Nat
  len : Nat
  deriving DecidableEq

structure AlSource where
  /-- The names of the queued buffers, the oldest first. -/
  queue : List Bool
  contents : Bool → Option Chunk
  queued : List Chunk
  /-- `alBufferData` was called on a queued buffer. -/
  overwritten : Bool

namespace AlSource

variable (s : AlSource)

def bufferData (buffer : Bool) (chunk : Chunk) : AlSource :=
  { s with contents := Function.update s.contents buffer (some chunk)
           overwritten := s.overwritten || s.queue.contains buffer }

def queueBuffer (buffer : Bool) : AlSource :=
  { s with queue := s.queue ++ [buffer], queued := s.queued ++ (s.contents buffer).toList }

/-- Fails on an empty queue and then writes no name. -/
def unqueueBuffer : Option Bool × AlSource := (s.queue.head?, { s with queue := s.queue.tail })

variable {s}

theorem refill {buffer : Bool} (h : s.queue = [buffer, !buffer]) (chunk : Chunk) :
    let t := (s.unqueueBuffer.2.bufferData buffer chunk).queueBuffer buffer
    t.queue = [!buffer, buffer] ∧ t.queued = s.queued ++ [chunk] ∧ t.overwritten = s.overwritten := by
  refine ⟨?_, ?_, ?_⟩
  · simp [queueBuffer, bufferData, unqueueBuffer, h]
  · simp [queueBuffer, bufferData, unqueueBuffer]
  · cases buffer <;> simp [queueBuffer, bufferData, unqueueBuffer, h]

end AlSource

structure WavStream where
  file : StreamingWav
  source : AlSource
  previousResult : Bool
  /-- What `readyNextBuffer` has passed to `fillNextBuffer`. -/
  produced : List Chunk
  /-- For each refill by `update` the buffer just unqueued and the one filled. -/
  refills : List (Option Bool × Bool)
  results : List Bool

namespace WavStream

variable (s : WavStream)

def fillNextBuffer (chunk : Chunk) : WavStream :=
  { s with source := s.source.bufferData s.file.nextBuffer chunk
           file := { s.file with nextBuffer := !s.file.nextBuffer }
           produced := s.produced ++ [chunk] }

def readyNextBuffer : Bool × WavStream :=
  let remaining := s.file.len - s.file.pos
  if remaining = 0 then (false, s)
  else
    let bufsize := if remaining < bufferLen then remaining else bufferLen
    let chunk := ⟨s.file.pos, bufsize⟩
    (true, { s with file := { s.file with pos := s.file.pos + bufsize } }.fillNextBuffer chunk)

def readHeaders (len : Nat) : WavStream :=
  ⟨.readHeaders len, ⟨[], fun _ => none, [], false⟩, true, [], [], []⟩

def play (len : Nat) : WavStream :=
  let s := (readHeaders len).readyNextBuffer.2.readyNextBuffer.2
  { s with source := (s.source.queueBuffer false).queueBuffer true }

def unqueueBuffer : WavStream := { s with source := s.source.unqueueBuffer.2 }

/-- `nextbuf` is the name that was written when it was unqueued. -/
def queueBuffer (nextbuf : Bool) : WavStream := { s with source := s.source.queueBuffer nextbuf }

def returned (result : Bool) : WavStream := { s with results := s.results ++ [result] }

def update (val : Int) : WavStream :=
  if val ≠ 0 then
    let nextbuf := s.source.unqueueBuffer.1.getD s.file.nextBuffer
    match s.unqueueBuffer.readyNextBuffer with
    | (true, t) =>
      let refills := s.refills ++ [(s.source.unqueueBuffer.1, s.file.nextBuffer)]
      ({ t with previousResult := true, refills }.queueBuffer nextbuf).returned true
    | (false, t) =>
      if !s.previousResult then t.returned false else { t with previousResult := false }.returned true
  else s.returned true

def step (s : WavStream) (val : Int) : Option WavStream := some (s.update val)

/-- The chunks go from `pos` to `stop` without gap or repeat. -/
def Tiles : Nat → List Chunk → Nat → Prop
  | pos, [], stop => pos = stop
  | pos, c :: cs, stop => c.pos = pos ∧ 0 < c.len ∧ Tiles (pos + c.len) cs stop

def nextChunk : Chunk := ⟨s.file.pos, min (s.file.len - s.file.pos) bufferLen⟩

/-- The chunks that this many bytes are read in. -/
def chunks (bytes : Nat) : Nat := (bytes + (bufferLen - 1)) / bufferLen

/-- An update does something when OpenAL is through with a buffer: the oldest
comes off the queue, and while there is data it is filled with the next of it
and queued again. The update that empties the queue returns false. -/
structure Answers (s : WavStream) (val : Int) : Prop where
  idle : val = 0 → s.update val = s.returned true
  refill : val ≠ 0 → ¬ s.file.Drained → ∃ oldest newer, s.source.queue = [oldest, newer] ∧
    (s.update val).source.queue = [newer, oldest] ∧ (s.update val).source.contents oldest = some s.nextChunk ∧
    (s.update val).produced = s.produced ++ [s.nextChunk] ∧
    (s.update val).file.pos = s.file.pos + s.nextChunk.len ∧ (s.update val).results = s.results ++ [true]
  drain : val ≠ 0 → s.file.Drained → (s.update val).source.queue = s.source.queue.tail ∧
    (s.update val).produced = s.produced ∧
    (s.update val).results = s.results ++ [decide (s.source.queue.tail ≠ [])]

structure Sound (s : WavStream) : Prop where
  untouched : s.source.overwritten = false
  refilled : ∀ r ∈ s.refills, r.1 = some r.2
  tiled : Tiles 0 s.produced s.file.pos
  queued : s.source.queued = s.produced
  answers : ∀ val, s.Answers val
  ended : false ∈ s.results ↔ s.source.queue = [] ∧ s.file.Drained

/-- The updates with a processed buffer up to the first that returns false. -/
def updatesLeft : Nat :=
  if false ∈ s.results then 0
  else if s.previousResult then chunks (s.file.len - s.file.pos) + 2
  else 1

/-- The queue holds both buffers, the next one to fill first, until the data
ends. Then nothing is filled any more and the queue runs empty. -/
inductive Course (s : WavStream) : Prop
  | streaming (hqueue : s.source.queue = [s.file.nextBuffer, !s.file.nextBuffer])
      (hprevious : s.previousResult = true) (hlive : false ∉ s.results)
  | short (hqueue : s.source.queue = [!s.file.nextBuffer, s.file.nextBuffer]) (hdrained : s.file.Drained)
      (hprevious : s.previousResult = true) (hlive : false ∉ s.results)
  | last (hqueue : s.source.queue.length = 1) (hdrained : s.file.Drained)
      (hprevious : s.previousResult = false) (hlive : false ∉ s.results)
  | ended (hqueue : s.source.queue = []) (hdrained : s.file.Drained)
      (hprevious : s.previousResult = false) (hended : false ∈ s.results)

variable {s} {val : Int}

theorem readyNextBuffer_drained (h : s.file.Drained) : s.readyNextBuffer = (false, s) := by
  have hzero : s.file.len - s.file.pos = 0 := h
  simp [readyNextBuffer, hzero]

theorem Tiles.append {cs : List Chunk} {pos stop : Nat} (h : Tiles pos cs stop) {len : Nat} (hlen : 0 < len) :
    Tiles pos (cs ++ [⟨stop, len⟩]) (stop + len) := by
  induction cs generalizing pos with
  | nil => exact ⟨h.symm, hlen, congrArg (· + len) h⟩
  | cons c cs ih => exact ⟨h.1, h.2.1, ih h.2.2⟩

theorem readyNextBuffer_more (h : ¬ s.file.Drained) : 0 < s.nextChunk.len ∧ s.readyNextBuffer =
    (true, { s with file := { s.file with pos := s.file.pos + s.nextChunk.len } }.fillNextBuffer s.nextChunk) := by
  have hmore : ¬ s.file.len - s.file.pos = 0 := h
  have hsize : (if s.file.len - s.file.pos < bufferLen then s.file.len - s.file.pos else bufferLen) =
      s.nextChunk.len := by
    simp only [nextChunk]
    split_ifs <;> omega
  refine ⟨?_, ?_⟩
  · simp only [nextChunk, bufferLen]
    omega
  · simp only [readyNextBuffer, hmore, if_false, hsize]
    rfl

structure Steady (s : WavStream) : Prop where
  untouched : s.source.overwritten = false
  refilled : ∀ r ∈ s.refills, r.1 = some r.2
  tiled : Tiles 0 s.produced s.file.pos
  queued : s.source.queued = s.produced

theorem Course.ended_iff (h : Course s) : false ∈ s.results ↔ s.source.queue = [] ∧ s.file.Drained := by
  cases h with
  | streaming hqueue hprevious hlive => simp [hlive, hqueue]
  | short hqueue hdrained hprevious hlive => simp [hlive, hqueue]
  | last hqueue hdrained hprevious hlive =>
    have hne : s.source.queue ≠ [] := fun h => by simp [h] at hqueue
    simp [hlive, hne]
  | ended hqueue hdrained hprevious hended => simp [hended, hqueue, hdrained]

theorem play_sound (len : Nat) : Steady (play len) ∧ Course (play len) := by
  by_cases hnone : (readHeaders len).file.Drained
  · simp only [play, readyNextBuffer_drained hnone]
    exact ⟨⟨rfl, by simp [readHeaders], rfl, rfl⟩, .streaming rfl rfl (by simp [readHeaders])⟩
  obtain ⟨hfirst, hready⟩ := readyNextBuffer_more hnone
  by_cases hone : (readHeaders len).readyNextBuffer.2.file.Drained
  · simp only [play, readyNextBuffer_drained hone]
    rw [hready] at hone ⊢
    exact ⟨⟨rfl, by simp [readHeaders, fillNextBuffer], ⟨rfl, hfirst, rfl⟩, rfl⟩,
      .short rfl hone rfl (by simp [readHeaders, fillNextBuffer])⟩
  · obtain ⟨hsecond, hready'⟩ := readyNextBuffer_more hone
    simp only [play, hready']
    rw [hready] at hsecond ⊢
    exact ⟨⟨rfl, by simp [readHeaders, fillNextBuffer], ⟨rfl, hfirst, rfl, hsecond, rfl⟩, rfl⟩,
      .streaming rfl rfl (by simp [readHeaders, fillNextBuffer])⟩

/-- The first refill that fails is only remembered. -/
theorem update_drained (hval : val ≠ 0) (h : s.file.Drained) :
    s.update val = { s.unqueueBuffer with previousResult := false }.returned s.previousResult := by
  have hready : s.unqueueBuffer.readyNextBuffer = (false, s.unqueueBuffer) := readyNextBuffer_drained h
  cases hp : s.previousResult with
  | false =>
    have hsame : { s.unqueueBuffer with previousResult := false } = s.unqueueBuffer := by
      simp [unqueueBuffer, hp]
    simp [update, hval, hready, hp, hsame]
  | true => simp [update, hval, hready, hp]

theorem readyNextBuffer_file (s : WavStream) :
    s.readyNextBuffer.1 = s.file.readyNextBuffer.1 ∧ s.readyNextBuffer.2.file = s.file.readyNextBuffer.2.1 ∧
      s.readyNextBuffer.2.results = s.results := by
  simp only [readyNextBuffer, StreamingWav.readyNextBuffer]
  split_ifs <;> exact ⟨rfl, rfl, rfl⟩

/-- The file, the static and the results are those of the stream without its source. -/
theorem update_eq (s : WavStream) (val : Int) :
    (s.update val).file = (s.file.update s.previousResult val).2.2.1 ∧
      (s.update val).previousResult = (s.file.update s.previousResult val).2.1 ∧
      (s.update val).results = s.results ++ [(s.file.update s.previousResult val).1] := by
  by_cases hval : val = 0
  · subst hval
    exact ⟨rfl, rfl, rfl⟩
  by_cases hd : s.file.Drained
  · rw [update_drained hval hd]
    cases hp : s.previousResult <;>
      simp [StreamingWav.update, hval, StreamingWav.readyNextBuffer_drained hd, returned, unqueueBuffer]
  · obtain ⟨hready, hfile, hresults⟩ := readyNextBuffer_file s.unqueueBuffer
    have hnew : s.file.readyNextBuffer.1 = true := StreamingWav.readyNextBuffer_fst hd
    rcases hr : s.unqueueBuffer.readyNextBuffer with ⟨new, t⟩
    rw [hr] at hready hfile hresults
    obtain rfl : new = true := hready.trans hnew
    simp only [update, hval, ne_eq, not_false_eq_true, if_true, hr, StreamingWav.update, hnew]
    exact ⟨hfile, rfl, congrArg (· ++ [true]) hresults⟩

/-- A run is that of the audio loop with no other stream. -/
theorem file_after {s t : WavStream} {vals : List Int} (hr : run step s vals = some t) :
    (t.file, t.previousResult) = s.file.after s.previousResult vals := by
  induction vals generalizing s with
  | nil =>
    cases hr
    rfl
  | cons val vals ih =>
    obtain ⟨u, hs, hr⟩ := run_cons_some.mp hr
    cases hs
    obtain ⟨hfile, hprevious, -⟩ := update_eq s val
    rw [ih hr, hfile, hprevious, StreamingWav.after]

/-- The buffer to fill comes off the front of the queue and goes back to its end. -/
theorem update_more (hval : val ≠ 0) (h : ¬ s.file.Drained) (hs : Steady s)
    (hqueue : s.source.queue = [s.file.nextBuffer, !s.file.nextBuffer]) :
    Steady (s.update val) ∧ (s.update val).source.queue = [!s.file.nextBuffer, s.file.nextBuffer] ∧
      (s.update val).source.contents s.file.nextBuffer = some s.nextChunk ∧
      (s.update val).produced = s.produced ++ [s.nextChunk] ∧
      (s.update val).file = { s.file with pos := s.file.pos + s.nextChunk.len, nextBuffer := !s.file.nextBuffer } ∧
      (s.update val).previousResult = true ∧ (s.update val).results = s.results ++ [true] := by
  obtain ⟨hsize, hready⟩ := readyNextBuffer_more (s := s.unqueueBuffer) h
  have hname : s.source.unqueueBuffer.1 = some s.file.nextBuffer := by simp [AlSource.unqueueBuffer, hqueue]
  simp only [update, hval, ne_eq, not_false_eq_true, if_true, hready, hname, Option.getD_some]
  obtain ⟨hqueue', hqueued, huntouched⟩ := AlSource.refill hqueue s.nextChunk
  refine ⟨⟨huntouched.trans hs.untouched, fun r hr => ?_, hs.tiled.append hsize, ?_⟩, hqueue', ?_, rfl, rfl, rfl, rfl⟩
  · rcases List.mem_append.mp hr with hr | hr
    · exact hs.refilled r hr
    · rw [List.mem_singleton.mp hr]
  · exact hqueued.trans (congrArg (· ++ [_]) hs.queued)
  · exact Function.update_self ..

theorem update_sound (h : Steady s) (hc : Course s) : Steady (s.update val) ∧ Course (s.update val) := by
  by_cases hval : val = 0
  · subst hval
    refine ⟨⟨h.untouched, h.refilled, h.tiled, h.queued⟩, ?_⟩
    cases hc with
    | streaming hqueue hprevious hlive => exact .streaming hqueue hprevious (by simp [update, returned, hlive])
    | short hqueue hdrained hprevious hlive =>
      exact .short hqueue hdrained hprevious (by simp [update, returned, hlive])
    | last hqueue hdrained hprevious hlive =>
      exact .last hqueue hdrained hprevious (by simp [update, returned, hlive])
    | ended hqueue hdrained hprevious hended =>
      exact .ended hqueue hdrained hprevious (by simp [update, returned, hended])
  by_cases hd : s.file.Drained
  · rw [update_drained hval hd]
    refine ⟨⟨h.untouched, h.refilled, h.tiled, h.queued⟩, ?_⟩
    have htail : s.unqueueBuffer.source.queue = s.source.queue.tail := rfl
    cases hc with
    | streaming hqueue hprevious hlive =>
      exact .last (by simp [returned, htail, hqueue]) hd rfl (by simp [returned, unqueueBuffer, hprevious, hlive])
    | short hqueue hdrained hprevious hlive =>
      exact .last (by simp [returned, htail, hqueue]) hd rfl (by simp [returned, unqueueBuffer, hprevious, hlive])
    | last hqueue hdrained hprevious hlive =>
      refine .ended ?_ hd rfl (by simp [returned, hprevious])
      exact List.length_eq_zero_iff.mp (by simp [returned, htail, hqueue])
    | ended hqueue hdrained hprevious hended =>
      exact .ended (by simp [returned, htail, hqueue]) hd rfl (by simp [returned, hprevious])
  · cases hc with
    | streaming hqueue hprevious hlive =>
      obtain ⟨hsteady, hqueue', -, -, hfile, hprevious', hresults⟩ := update_more hval hd h hqueue
      exact ⟨hsteady, .streaming (by simp [hqueue', hfile]) hprevious' (by simp [hresults, hlive])⟩
    | short hqueue hdrained => exact absurd hdrained hd
    | last hqueue hdrained => exact absurd hdrained hd
    | ended hqueue hdrained => exact absurd hdrained hd

theorem update_answers (h : Steady s) (hc : Course s) (val : Int) : s.Answers val where
  idle hval := by simp [update, hval]
  refill hval hd := by
    cases hc with
    | streaming hqueue hprevious hlive =>
      obtain ⟨-, hqueue', hcontents, hproduced, hfile, -, hresults⟩ := update_more hval hd h hqueue
      exact ⟨_, _, hqueue, hqueue', hcontents, hproduced, by rw [hfile], hresults⟩
    | short hqueue hdrained => exact absurd hdrained hd
    | last hqueue hdrained => exact absurd hdrained hd
    | ended hqueue hdrained => exact absurd hdrained hd
  drain hval hd := by
    rw [update_drained hval hd]
    refine ⟨rfl, rfl, congrArg (fun result => s.results ++ [result]) ?_⟩
    cases hc with
    | streaming hqueue hprevious hlive => simp [hqueue, hprevious]
    | short hqueue hdrained hprevious hlive => simp [hqueue, hprevious]
    | last hqueue hdrained hprevious hlive =>
      obtain ⟨buffer, hqueue⟩ := List.length_eq_one_iff.mp hqueue
      simp [hqueue, hprevious]
    | ended hqueue hdrained hprevious hended => simp [hqueue, hprevious]

theorem updatesLeft_eq_zero : s.updatesLeft = 0 ↔ false ∈ s.results := by
  unfold updatesLeft
  split_ifs <;> simp [*]

theorem chunks_nextChunk (h : ¬ s.file.Drained) :
    chunks (s.file.len - s.file.pos) = chunks (s.file.len - (s.file.pos + s.nextChunk.len)) + 1 := by
  have hmore : s.file.len - s.file.pos ≠ 0 := h
  simp only [chunks, nextChunk, bufferLen]
  omega

theorem chunks_drained (h : s.file.Drained) : chunks (s.file.len - s.file.pos) = 0 := by
  have hnone : s.file.len - s.file.pos = 0 := h
  simp [chunks, bufferLen, hnone]

theorem update_left (h : Steady s) (hc : Course s) (val : Int) :
    (s.update val).updatesLeft = s.updatesLeft - if val ≠ 0 then 1 else 0 := by
  by_cases hval : val = 0
  · rw [(update_answers h hc val).idle hval]
    have hsame : false ∈ (s.returned true).results ↔ false ∈ s.results := by simp [returned]
    simp only [updatesLeft, hsame, hval, ne_eq, not_true_eq_false, if_false, Nat.sub_zero]
    rfl
  simp only [ne_eq, hval, not_false_eq_true, if_true]
  by_cases hd : s.file.Drained
  · have hlast (b : Bool) : false ∈ (s.results ++ [b]) ↔ false ∈ s.results ∨ b = false := by simp
    rw [update_drained hval hd]
    simp only [updatesLeft, returned, unqueueBuffer, hlast, chunks_drained hd]
    cases hp : s.previousResult <;> by_cases hl : false ∈ s.results <;> simp [hl]
  · cases hc with
    | streaming hqueue hprevious hlive =>
      obtain ⟨-, -, -, -, hfile, hprevious', hresults⟩ := update_more hval hd h hqueue
      have hone := chunks_nextChunk hd
      simp only [updatesLeft, hresults, hprevious', hprevious, hlive, hfile, List.mem_append, List.mem_singleton,
        Bool.false_eq_true, or_false, if_false, if_true]
      omega
    | short hqueue hdrained => exact absurd hdrained hd
    | last hqueue hdrained => exact absurd hdrained hd
    | ended hqueue hdrained => exact absurd hdrained hd

theorem run_left {t : WavStream} {vals : List Int} (h : Steady s) (hc : Course s) (hr : run step s vals = some t) :
    t.updatesLeft = s.updatesLeft - vals.countP (· ≠ 0) := by
  induction vals generalizing s with
  | nil =>
    cases hr
    rfl
  | cons val vals ih =>
    obtain ⟨u, hs, hr⟩ := run_cons_some.mp hr
    cases hs
    obtain ⟨hsteady, hcourse⟩ := @update_sound s val h hc
    rw [ih hsteady hcourse hr, update_left h hc, List.countP_cons]
    by_cases hval : val = 0 <;> simp [hval]
    omega

theorem play_left (len : Nat) : (play len).updatesLeft = max 2 (chunks len) := by
  by_cases hnone : (readHeaders len).file.Drained
  · have hchunks : chunks len = 0 := chunks_drained hnone
    simp only [play, readyNextBuffer_drained hnone]
    simp [updatesLeft, readHeaders, StreamingWav.readHeaders, hchunks]
  obtain ⟨-, hready⟩ := readyNextBuffer_more hnone
  have hfirst := chunks_nextChunk hnone
  simp only [readHeaders, StreamingWav.readHeaders, Nat.sub_zero, Nat.zero_add] at hfirst
  by_cases hone : (readHeaders len).readyNextBuffer.2.file.Drained
  · have hlast := chunks_drained hone
    simp only [play, readyNextBuffer_drained hone]
    rw [hready] at hlast ⊢
    simp only [fillNextBuffer, readHeaders, StreamingWav.readHeaders, Nat.zero_add] at hlast
    simp [updatesLeft, fillNextBuffer, readHeaders, StreamingWav.readHeaders, hfirst, hlast]
  · have hsecond := chunks_nextChunk hone
    obtain ⟨-, hready'⟩ := readyNextBuffer_more hone
    simp only [play, hready']
    rw [hready] at hsecond ⊢
    simp only [fillNextBuffer, readHeaders, StreamingWav.readHeaders, Nat.zero_add] at hsecond
    simp [updatesLeft, fillNextBuffer, readHeaders, StreamingWav.readHeaders, hfirst, hsecond]

/-- The double buffering of one stream is sound whatever OpenAL answers, and the
first update that returns false is known from the length of the data. -/
theorem double_buffering (len : Nat) (vals : List Int) : Along step Sound (play len) vals ∧
    ∀ t, run step (play len) vals = some t → (false ∈ t.results ↔ max 2 (chunks len) ≤ vals.countP (· ≠ 0)) := by
  obtain ⟨hsteady, hcourse⟩ := play_sound len
  have hinv : Along step (fun s => Steady s ∧ Course s) (play len) vals := by
    refine along_of_step (fun s => Steady s ∧ Course s) (fun s val t h hs => ?_) ⟨hsteady, hcourse⟩ vals
    cases hs
    exact update_sound h.1 h.2
  refine ⟨hinv.mono (fun s h => ⟨h.1.untouched, h.1.refilled, h.1.tiled, h.1.queued, update_answers h.1 h.2,
    h.2.ended_iff⟩), fun t hr => ?_⟩
  rw [← updatesLeft_eq_zero, run_left hsteady hcourse hr, play_left]
  omega

end WavStream

end Quintses
