import Rsupervisord.Support.CircularStore
import Rsupervisord.Support.LossyText

/-!
# Continuous ring buffer

`ContinuousRingBuffer`: the last bytes of a log in a fixed number of cells, under offsets that count
all bytes ever written, and the intervals of the complete lines among them.

The offsets are 64-bit numbers in the source; the model leaves the bound out, which a log reaches
after 16 EiB. What is proved of ring buffers is about logs of fewer than `2 ^ 64` bytes.
-/

namespace Rsupervisord

open CircularStore

/-- A circular byte buffer with monotonic offsets. -/
structure ContinuousRingBuffer where
  /-- The cells. -/
  buffer : List UInt8
  capacity : ℕ
  /-- Total number of bytes written: the offset of the next byte. -/
  cumulativeBytes : ℕ
  /-- Offset of the oldest retained byte. -/
  logStartOffset : ℕ
  /-- Start and end offsets of the complete lines. -/
  lineIndices : List (ℕ × ℕ)
  /-- Start offset of the line being written. -/
  currentLineStart : ℕ
  /-- Limit on the number of lines in the index. -/
  maxLineIndex : Option ℕ
  capacity_pos : 0 < capacity
  length_buffer : buffer.length = capacity
  deriving DecidableEq

namespace ContinuousRingBuffer

/-- The byte of a newline. -/
def newline : UInt8 := 10

/-- `ContinuousRingBuffer::new`. -/
def new (capacity : ℕ) : ContinuousRingBuffer where
  buffer := List.replicate (max capacity 1) 0
  capacity := max capacity 1
  cumulativeBytes := 0
  logStartOffset := 0
  lineIndices := []
  currentLineStart := 0
  maxLineIndex := none
  capacity_pos := by omega
  length_buffer := List.length_replicate

/-- `ContinuousRingBuffer::with_max_lines`. -/
def withMaxLines (capacity maxLines : ℕ) : ContinuousRingBuffer :=
  { new capacity with maxLineIndex := some (max maxLines 1) }

variable (r : ContinuousRingBuffer)

/-- `byte_size`: the number of retained bytes. -/
def byteSize : ℕ := r.cumulativeBytes - r.logStartOffset

/-- `line_count`: the complete lines and the unfinished one. -/
def lineCount : ℕ :=
  r.lineIndices.length + if r.currentLineStart < r.cumulativeBytes then 1 else 0

/-! ## Writing -/

/-- The lines that end in `data`, whose first byte has the offset `pos`, and the start of the line
behind them. -/
def scanLines (pos lineStart : ℕ) : List UInt8 → List (ℕ × ℕ) × ℕ
  | [] => ([], lineStart)
  | b :: data =>
      if b = newline then
        let (lines, lineStart') := scanLines (pos + 1) (pos + 1) data
        ((lineStart, pos + 1) :: lines, lineStart')
      else scanLines (pos + 1) lineStart data

/-- The second part of `write_bytes`: the bytes go into their cells, the trailing ones only when
there are more bytes than cells. -/
def storeBytes (data : List UInt8) : List UInt8 :=
  if data.length ≥ r.capacity then
    let toCopy := data.drop (data.length - r.capacity)
    let startPos := (r.cumulativeBytes + (data.length - r.capacity)) % r.capacity
    overwriteWrapped r.buffer startPos toCopy
  else
    let physStart := r.cumulativeBytes % r.capacity
    if physStart + data.length ≤ r.capacity then overwrite r.buffer physStart data
    else overwriteWrapped r.buffer physStart data

theorem length_storeBytes (data : List UInt8) : (r.storeBytes data).length = r.capacity := by
  have hpos := r.capacity_pos
  have hlen := r.length_buffer
  have hlt : ∀ o, o % r.capacity ≤ r.buffer.length := fun o => by
    rw [hlen]
    exact (Nat.mod_lt o hpos).le
  simp only [storeBytes]
  split
  next hlong =>
    rw [length_overwriteWrapped (hlt _) (by rw [List.length_drop]; omega), hlen]
  next hshort =>
    split
    next hfit => rw [length_overwrite (by omega), hlen]
    next => rw [length_overwriteWrapped (hlt _) (by omega), hlen]

/-- `write_bytes`. -/
def writeBytes (data : List UInt8) : ContinuousRingBuffer :=
  if data.isEmpty then r
  else
    let (lines, currentLineStart) := scanLines r.cumulativeBytes r.currentLineStart data
    let cumulativeBytes := r.cumulativeBytes + data.length
    let logStartOffset :=
      if cumulativeBytes > r.capacity then cumulativeBytes - r.capacity else 0
    -- Lines whose first byte was overwritten leave the index, then those above its limit.
    let retained := (r.lineIndices ++ lines).dropWhile fun line => line.1 < logStartOffset
    { r with
      buffer := r.storeBytes data
      cumulativeBytes
      logStartOffset
      lineIndices := match r.maxLineIndex with
        | some maxL => retained.drop (retained.length - maxL)
        | none => retained
      currentLineStart := max currentLineStart logStartOffset
      length_buffer := r.length_storeBytes data }

@[simp]
theorem writeBytes_capacity (data : List UInt8) : (r.writeBytes data).capacity = r.capacity := by
  unfold writeBytes
  split <;> rfl

/-- `write_line`: a missing newline is added by a second write. -/
def writeLine (line : String) : ContinuousRingBuffer :=
  let bytes := Text.utf8 line
  if bytes.getLast? = some newline then r.writeBytes bytes
  else (r.writeBytes bytes).writeBytes [newline]

@[simp]
theorem writeLine_capacity (line : String) : (r.writeLine line).capacity = r.capacity := by
  unfold writeLine
  dsimp only
  split <;> simp

/-- `clear`. The cells keep their bytes. -/
def clear : ContinuousRingBuffer :=
  { r with cumulativeBytes := 0, logStartOffset := 0, currentLineStart := 0, lineIndices := [] }

/-- `seed`: start from the trailing `bytes` of a file of the size `totalFileSize`. -/
def seed (bytes : List UInt8) (totalFileSize : ℕ) : ContinuousRingBuffer :=
  let r := r.clear
  if totalFileSize > 0 ∧ ¬ bytes.isEmpty then
    let seedStart := totalFileSize - bytes.length
    let r := { r with cumulativeBytes := seedStart, currentLineStart := seedStart }
    { r.writeBytes bytes with cumulativeBytes := totalFileSize }
  else
    { r with
      cumulativeBytes := totalFileSize
      logStartOffset := totalFileSize
      currentLineStart := totalFileSize }

@[simp]
theorem seed_capacity (bytes : List UInt8) (totalFileSize : ℕ) :
    (r.seed bytes totalFileSize).capacity = r.capacity := by
  unfold seed
  dsimp only
  split
  · show (ContinuousRingBuffer.writeBytes _ bytes).capacity = r.capacity
    rw [writeBytes_capacity]
    rfl
  · rfl

/-! ## Reading -/

/-- `copy_range`: the retained bytes with offsets in `[start, end_)`, behind `out`. -/
def copyRange (start end_ : ℕ) (out : List UInt8) : List UInt8 :=
  let effStart := max start r.logStartOffset
  let effEnd := min end_ r.cumulativeBytes
  if effStart ≥ effEnd then out
  else
    let len := effEnd - effStart
    let physStart := effStart % r.capacity
    let physEnd := effEnd % r.capacity
    if physStart < physEnd then out ++ (r.buffer.drop physStart).take (physEnd - physStart)
    else if physStart = physEnd ∧ len = r.capacity then
      out ++ r.buffer.drop physStart ++ r.buffer.take physStart
    else out ++ r.buffer.drop physStart ++ r.buffer.take physEnd

/-- The intervals that `read_line_slices` selects: the last ones of the complete lines and the
unfinished one. -/
def selectLines (maxLines : Option ℕ) : List (ℕ × ℕ) :=
  let totalLines := r.lineCount
  let take := min (maxLines.getD totalLines) totalLines
  let skip := totalLines - take
  let completeSkip := min skip r.lineIndices.length
  let selected := (r.lineIndices.drop completeSkip).take take
  if r.currentLineStart < r.cumulativeBytes ∧ selected.length < take then
    selected ++ [(r.currentLineStart, r.cumulativeBytes)]
  else selected

/-- The lines of the intervals in valid text whose first byte has the offset `firstStart`, as bytes
of the text, without their terminators. -/
def sliceLines (firstStart : ℕ) (byteStr : List UInt8) (selected : List (ℕ × ℕ)) :
    List (List UInt8) :=
  selected.filterMap fun (s, e) =>
    let relS := s - firstStart
    let relE := min (e - firstStart) byteStr.length
    if relS > relE then none
    else
      let slice := (byteStr.take relE).drop relS
      some <|
        if slice.getLast? = some newline then Lines.chop 13 slice.dropLast else slice

/-- The lines of bytes that are no text: decoded as a whole, and split again. -/
def lossyLines (bytes : List UInt8) : List (List UInt8) :=
  (Text.lines (Text.lossy bytes)).map Text.utf8Chars

/-- `read_line_slices`: the most recent lines, each as the bytes of its text. -/
def readLineSlices (maxLines : Option ℕ) : List (List UInt8) :=
  match r.selectLines maxLines with
  | [] => []
  | (firstStart, firstEnd) :: selected =>
      let lastEnd := (selected.getLast?.getD (firstStart, firstEnd)).2
      if lastEnd - firstStart = 0 then []
      else
        let frozen := r.copyRange firstStart lastEnd []
        if (String.fromUTF8? frozen.toByteArray).isSome then
          sliceLines firstStart frozen ((firstStart, firstEnd) :: selected)
        else lossyLines frozen

/-- `snapshot_bytes`: all retained bytes. -/
def snapshotBytes : List UInt8 := r.copyRange r.logStartOffset r.cumulativeBytes []

/-- `read_bytes`: the bytes of the requested range, the total size, and whether the range began
before the retained bytes. -/
def readBytes (offset length : ℤ) : String × ℤ × Bool :=
  let totalSz : ℤ := r.cumulativeBytes
  let retainedSz : ℤ := r.byteSize
  let oldest : ℤ := r.logStartOffset
  let len := max length 0
  let read (startOff toRead : ℤ) (overflow : Bool) : String × ℤ × Bool :=
    let buf := r.copyRange startOff.toNat (startOff + toRead).toNat []
    (Text.fromUtf8Lossy buf, totalSz, overflow)
  let upTo (rem : ℤ) : ℤ := if len = 0 then rem else min len rem
  if offset < 0 then
    let target := totalSz + offset
    if target < oldest then read oldest (upTo (totalSz - oldest)) true
    else read target (upTo (totalSz - target)) false
  else if offset < oldest then read oldest (min len retainedSz) true
  else if offset ≥ totalSz then ("", totalSz, false)
  else read offset (upTo (totalSz - offset)) false

/-- `tail_bytes`: the last bytes at offset zero, otherwise the bytes from the offset on; the offset
to go on from, and whether bytes were passed over. -/
def tailBytes (offset length : ℤ) : String × ℤ × Bool :=
  let totalSz : ℤ := r.cumulativeBytes
  let retainedSz : ℤ := r.byteSize
  let oldest : ℤ := r.logStartOffset
  let len := max length 0
  if offset = 0 then
    let actualLen := if len = 0 then retainedSz else min len retainedSz
    let start := max (totalSz - actualLen) oldest
    let buf := r.copyRange start.toNat totalSz.toNat []
    (Text.fromUtf8Lossy buf, totalSz, totalSz > actualLen)
  else
    let overflow : Bool := offset < oldest
    let off := max offset oldest
    if off ≥ totalSz then ("", totalSz, false)
    else
      let toRead := if len = 0 then totalSz - off else min len (totalSz - off)
      let buf := r.copyRange off.toNat (off + toRead).toNat []
      (Text.fromUtf8Lossy buf, off + toRead, overflow)

end ContinuousRingBuffer

end Rsupervisord
