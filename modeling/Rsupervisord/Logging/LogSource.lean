import Rsupervisord.Logging.Polling
import Rsupervisord.Logging.Windows

/-!
# Tails of a log source

A log is read from a ring buffer or from a file. The tails of both are given here in machine
arithmetic, in which a size of 64 unsigned bits becomes a signed number.

* `LogSource.tail`: the bytes that a tail selects, the offset to go on from, and the overflow flag.
* `LogSource.position`: the position up to which the bytes of a tail reach.
* `LogSource.selects_tail`: what a tail selects.
-/

namespace Rsupervisord

/-- `as i64`. -/
def asI64 (n : ℤ) : ℤ := n.bmod (2 ^ 64)

/-- `as u64`. -/
def asU64 (n : ℤ) : ℕ := (n % 2 ^ 64).toNat

theorem asI64_of_lt {n : ℤ} (hn : 0 ≤ n) (hlt : n < 2 ^ 63) : asI64 n = n :=
  Int.bmod_eq_of_le (by omega) (by omega)

theorem asU64_of_lt {n : ℤ} (hn : 0 ≤ n) (hlt : n < 2 ^ 64) : asU64 n = n.toNat := by
  rw [asU64, Int.emod_eq_of_lt hn hlt]

namespace ContinuousRingBuffer

variable (r : ContinuousRingBuffer)

/-- `tail_bytes` in machine arithmetic, before it decodes the selected bytes. -/
def tailSelectionI64 (offset length : ℤ) : List UInt8 × ℤ × Bool :=
  let totalSz := asI64 r.cumulativeBytes
  let retainedSz : ℤ := r.byteSize
  let oldest := asI64 r.logStartOffset
  let len := max length 0
  if offset = 0 then
    let actualLen := if len = 0 then retainedSz else min len retainedSz
    let start := max (clampI64 (totalSz - asI64 actualLen)) oldest
    (r.copyRange (asU64 start) (asU64 totalSz) [], totalSz, totalSz > asI64 actualLen)
  else
    let overflow : Bool := offset < oldest
    let off := max offset oldest
    if off ≥ totalSz then ([], totalSz, false)
    else
      let toRead : ℤ :=
        if len = 0 then asU64 (totalSz - off) else min len (asU64 (totalSz - off))
      (r.copyRange (asU64 off) (asU64 (off + toRead)) [], off + toRead, overflow)

variable {r}

/-- Below `2 ^ 63` bytes no conversion changes a number. -/
theorem tailSelectionI64_eq (hstart : r.logStartOffset ≤ r.cumulativeBytes)
    (hsize : r.cumulativeBytes < 2 ^ 63) (offset length : ℤ) :
    r.tailSelectionI64 offset length = r.tailSelection offset length := by
  have htotal : asI64 r.cumulativeBytes = r.cumulativeBytes := asI64_of_lt (by omega) (by omega)
  have holdest : asI64 r.logStartOffset = r.logStartOffset := asI64_of_lt (by omega) (by omega)
  simp only [tailSelectionI64, tailSelection, htotal, holdest]
  split
  next hzero =>
    generalize hactual : (if max length 0 = 0 then (r.byteSize : ℤ) else _) = actual
    have hbounds : 0 ≤ actual ∧ actual ≤ r.cumulativeBytes := by
      unfold byteSize at hactual
      split at hactual <;> omega
    rw [asI64_of_lt hbounds.1 (by omega), clampI64_of_mem (by omega) (by omega),
      asU64_of_lt (by omega) (by omega), asU64_of_lt (by omega) (by omega)]
  next hne =>
    split
    next => rfl
    next hbefore =>
      have hrest : (asU64 (r.cumulativeBytes - max offset r.logStartOffset) : ℤ) =
          r.cumulativeBytes - max offset r.logStartOffset := by
        rw [asU64_of_lt (by omega) (by omega), Int.toNat_of_nonneg (by omega)]
      rw [hrest]
      generalize htoRead : (if max length 0 = 0 then _ else min (max length 0) _) = toRead
      have hbounds : 0 ≤ toRead ∧
          toRead ≤ r.cumulativeBytes - max offset r.logStartOffset := by
        split at htoRead <;> omega
      rw [asU64_of_lt (by omega) (by omega), asU64_of_lt (by omega) (by omega)]

end ContinuousRingBuffer

/-- `tail_bytes` of a file in machine arithmetic, before it decodes the selected bytes. -/
def LogFileReader.tailSelectionI64 (bytes : List UInt8) (offset length : ℤ) :
    List UInt8 × ℤ × Bool :=
  let sz := asI64 bytes.length
  let window := computeTailWindow sz offset length
  let data := if window.2.1 = 0 then [] else (bytes.drop window.1.toNat).take window.2.1.toNat
  (data, sz, window.2.2)

/-- What a log is read from: a ring buffer, or a file when it exists. -/
inductive LogSource
  | memory (r : ContinuousRingBuffer)
  | file (contents : Option (List UInt8))

namespace LogSource

/-- The number of bytes that were written. -/
def size : LogSource → ℕ
  | .memory r => r.cumulativeBytes
  | .file contents => (contents.getD []).length

/-- The position of the oldest byte. -/
def oldest : LogSource → ℕ
  | .memory r => r.logStartOffset
  | .file _ => 0

/-- The bytes with positions in `[start, end_)`. -/
def window : LogSource → ℤ → ℤ → List UInt8
  | .memory r, start, end_ => r.copyRange start.toNat end_.toNat []
  | .file contents, start, end_ => ContinuousRingBuffer.segment (contents.getD []) start end_

/-- The log grows. -/
def append : LogSource → List UInt8 → LogSource
  | .memory r, data => .memory (r.writeBytes data)
  | .file contents, data => .file (some (contents.getD [] ++ data))

/-- `tail_bytes` of the source, before it decodes the selected bytes. A file that does not exist
gives the offset back. -/
def tail : LogSource → ℤ → ℤ → List UInt8 × ℤ × Bool
  | .memory r, offset, length => r.tailSelectionI64 offset length
  | .file none, offset, _ => ([], offset, false)
  | .file (some bytes), offset, length => LogFileReader.tailSelectionI64 bytes offset length

/-- The position behind the bytes that are asked for. A file is always read to its end, a ring
buffer only where no offset or no length is given. -/
def position (source : LogSource) (offset length : ℤ) : ℤ :=
  match source with
  | .memory r =>
      if offset = 0 ∨ r.cumulativeBytes ≤ offset ∨ length ≤ 0 then r.cumulativeBytes
      else min r.cumulativeBytes (max offset r.logStartOffset + length)
  | .file none => offset
  | .file (some bytes) => bytes.length

/-- What a tail selects: the bytes up to the position that it was asked for, which is its new
offset. They start behind the oldest byte and, without an overflow, not behind the offset. -/
structure Selects (source : LogSource) (offset length : ℤ) (selection : List UInt8 × ℤ × Bool) :
    Prop where
  newOffset_eq : selection.2.1 = source.position offset length
  oldest_le_newOffset : source.oldest ≤ selection.2.1
  newOffset_le : selection.2.1 ≤ source.size
  le_newOffset : offset ≤ source.size → offset ≤ selection.2.1
  bytes_eq : ∃ start : ℤ, source.oldest ≤ start ∧ selection.1 = source.window start selection.2.1 ∧
    (selection.2.2 = false → offset ≤ source.size →
      offset = source.size ∨ source.oldest < source.size → start ≤ max offset 0)

/-- The tail of a ring buffer. -/
theorem selects_memory {r : ContinuousRingBuffer} (hstart : r.logStartOffset ≤ r.cumulativeBytes)
    (hsize : r.cumulativeBytes < 2 ^ 63) (offset length : ℤ) :
    Selects (.memory r) offset length (r.tailSelectionI64 offset length) := by
  rw [r.tailSelectionI64_eq hstart hsize]
  clear hsize
  simp only [ContinuousRingBuffer.tailSelection]
  split
  next hzero =>
    subst hzero
    generalize hactual : (if max length 0 = 0 then (r.byteSize : ℤ) else _) = actual
    have hbounds : 0 ≤ actual ∧ actual ≤ r.cumulativeBytes - r.logStartOffset := by
      unfold ContinuousRingBuffer.byteSize at hactual
      split at hactual <;> omega
    refine ⟨?_, ?_, ?_, ?_, max (r.cumulativeBytes - actual) r.logStartOffset, ?_, ?_, ?_⟩
    · simp only [position, true_or, if_true]
    · exact Int.ofNat_le.mpr hstart
    · exact le_rfl
    · exact fun hle => hle
    · exact le_max_right _ _
    · rfl
    · intro hover _ _
      have hall : ¬ (r.cumulativeBytes : ℤ) > actual := of_decide_eq_false hover
      omega
  next hne =>
    split
    next hend =>
      refine ⟨?_, ?_, ?_, ?_, r.cumulativeBytes, ?_, ?_, ?_⟩
      · simp only [position]
        split <;> omega
      · exact Int.ofNat_le.mpr hstart
      · exact le_rfl
      · exact fun hle => hle
      · exact Int.ofNat_le.mpr hstart
      · simp [window, ContinuousRingBuffer.copyRange]
      · intro _ hle hbefore
        simp only [size, oldest] at hle hbefore
        omega
    next hbefore =>
      generalize htoRead : (if max length 0 = 0 then _ else min (max length 0) _) = toRead
      have hbounds : 0 ≤ toRead ∧
          toRead ≤ r.cumulativeBytes - max offset r.logStartOffset := by
        split at htoRead <;> omega
      refine ⟨?_, ?_, ?_, ?_, max offset r.logStartOffset, ?_, ?_, ?_⟩
      · simp only [position]
        split at htoRead <;> split <;> omega
      · show (r.logStartOffset : ℤ) ≤ max offset r.logStartOffset + toRead
        omega
      · show max offset r.logStartOffset + toRead ≤ r.cumulativeBytes
        omega
      · intro _
        show offset ≤ max offset r.logStartOffset + toRead
        omega
      · exact le_max_right _ _
      · rfl
      · intro hover _ _
        have hretained : ¬ offset < (r.logStartOffset : ℤ) := of_decide_eq_false hover
        omega

/-- The tail of a file. -/
theorem selects_file {bytes : List UInt8} (hsize : bytes.length + 1 < 2 ^ 63) {offset : ℤ}
    (hoffset : offset < 2 ^ 63) (length : ℤ) :
    Selects (.file (some bytes)) offset length
      (LogFileReader.tailSelectionI64 bytes offset length) := by
  have hcast : asI64 bytes.length = bytes.length := asI64_of_lt (by omega) (by omega)
  have hquiet : ¬ LogFileReader.Saturates bytes.length offset length := fun h => by
    have hmax := h.1
    omega
  obtain ⟨-, hstart, hlen, -, hinside, hends⟩ :=
    @LogFileReader.tail_window bytes.length offset length (by omega) (by omega) hoffset
  have hexact := @LogFileReader.tail_window_of_not_overflow bytes.length offset length (by omega)
    (by omega)
  have hfits := hinside.mpr hquiet
  clear hinside hquiet
  simp only [LogFileReader.tailSelectionI64, hcast]
  generalize LogFileReader.computeTailWindow bytes.length offset length = window at *
  obtain ⟨off, len, overflow⟩ := window
  simp only at hstart hlen hfits hends hexact ⊢
  refine ⟨rfl, Int.natCast_nonneg _, le_rfl, fun hle => hle, ?_⟩
  split
  next hnone =>
    refine ⟨bytes.length, Int.natCast_nonneg _, ?_, ?_⟩
    · exact (ContinuousRingBuffer.segment_self bytes _).symm
    · intro hover hle _
      have hsum := hexact hle hover
      show (bytes.length : ℤ) ≤ max offset 0
      omega
  next hsome =>
    have hend := hends hfits hsome
    refine ⟨off, hstart, ?_, fun hover hle _ => (hexact hle hover).1⟩
    show (bytes.drop off.toNat).take len.toNat =
      ContinuousRingBuffer.segment bytes off bytes.length
    rw [ContinuousRingBuffer.segment, Int.toNat_natCast, List.take_length]
    apply List.take_of_length_le
    rw [List.length_drop]
    omega

/-- The position up to which a tail reaches has 31 bits. A log that does not exist is asked for from
its start. -/
def Fits (source : LogSource) (offset length : ℤ) : Prop :=
  (source = .file none → offset = 0) ∧ source.size < 2 ^ 63 ∧ source.position offset length < 2 ^ 31

/-- The tail of a log. -/
theorem selects_tail {source : LogSource} (holdest : source.oldest ≤ source.size)
    {offset length : ℤ} (hfits : source.Fits offset length) (hoffset : offset < 2 ^ 63) :
    source.Selects offset length (source.tail offset length) := by
  obtain ⟨hmissing, hsize, hposition⟩ := hfits
  cases source with
  | memory r => exact selects_memory holdest hsize offset length
  | file contents =>
    cases contents with
    | none =>
      obtain rfl := hmissing rfl
      exact ⟨rfl, le_rfl, le_rfl, fun hle => hle, 0, le_rfl, rfl, fun _ _ _ => le_rfl⟩
    | some bytes =>
      have hlength : (bytes.length : ℤ) < 2 ^ 31 := hposition
      exact selects_file (by omega) hoffset length

/-! ## Growth -/

/-- A log keeps its size when nothing is appended; otherwise it has a newest byte that is not older
than its oldest one. -/
theorem append_spec {source : LogSource} (holdest : source.oldest ≤ source.size)
    (data : List UInt8) :
    (source.append data).oldest ≤ (source.append data).size ∧
      source.size ≤ (source.append data).size ∧
      ((source.append data).oldest < (source.append data).size ∨
        (source.append data).oldest = source.oldest ∧ (source.append data).size = source.size) := by
  rcases eq_or_ne data [] with rfl | hne
  · match source with
    | .memory r => exact ⟨holdest, le_rfl, .inr ⟨rfl, rfl⟩⟩
    | .file contents => simp [append, oldest, size]
  · have hlength := List.length_pos_iff.mpr hne
    match source with
    | .memory r =>
      have hcapacity := r.capacity_pos
      obtain ⟨hcumulative, hstart⟩ := ContinuousRingBuffer.writeBytes_offsets (r := r) hne
      simp only [append, oldest, size, hcumulative, hstart]
      omega
    | .file contents =>
      simp only [append, oldest, size, Option.getD_some, List.length_append]
      omega

end LogSource

end Rsupervisord
