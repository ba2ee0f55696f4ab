import Rsupervisord.Logging.BackEnds

/-!
# Reads of a ring buffer

A read of a ring buffer asks for a range of the log that the ring buffer has lost the beginning of.
The log has fewer than `2 ^ 64` bytes, the bound of the offsets in the source.

## Main results

* `ContinuousRingBuffer.readsRange_iff`: the reads that return the retained bytes of their range.
-/

namespace Rsupervisord

namespace ContinuousRingBuffer

/-- A ring buffer before its first write. -/
def create (capacity : ℕ) : Option ℕ → ContinuousRingBuffer
  | some maxLines => withMaxLines capacity maxLines
  | none => new capacity

/-- The position that an offset denotes in a log of `total` bytes: a negative one counts from the
end. -/
def effectiveOffset (total : ℕ) (offset : ℤ) : ℤ := if 0 ≤ offset then offset else total + offset

variable {r : ContinuousRingBuffer} {log : List UInt8} {capacity : ℕ} {maxLines : Option ℕ}

theorem create_capacity : (create capacity maxLines).capacity = max capacity 1 := by
  cases maxLines <;> rfl

/-- After any operations a ring buffer represents the log that they have written. -/
theorem represents_run (ops : List LogOp) :
    (ops.foldl ContinuousRingBuffer.apply (create capacity maxLines)).Represents (history ops) := by
  have hfresh : (create capacity maxLines).Represents [] := by
    cases maxLines <;> exact .nil rfl rfl
  exact hfresh.foldl ops

/-- A read returns the text of the retained bytes of its range, the size of the log, and whether the
range begins before the retained bytes. Of the range there are at most `length` bytes, or all up to
the end of the log when `length` is 0. -/
def ReadsRange (r : ContinuousRingBuffer) (log : List UInt8) (offset length : ℤ) : Prop :=
  let e := effectiveOffset log.length offset
  let available := log.drop (max e r.logStartOffset).toNat
  ∃ bytes, bytes <+: available ∧ (0 < length → bytes = available.take length.toNat) ∧
    (length = 0 → bytes = available) ∧
    r.readBytes offset length =
      (Text.fromUtf8Lossy bytes, (log.length : ℤ), decide (e < r.logStartOffset))

/-- The bytes of a window from a retained offset on. -/
theorem Represents.copyRange_window (h : r.Represents log) {start toRead : ℤ}
    (hstart : r.logStartOffset ≤ start) (hread : 0 ≤ toRead) :
    r.copyRange start.toNat (start + toRead).toNat [] =
      (log.drop start.toNat).take toRead.toNat := by
  obtain ⟨m, rfl⟩ := Int.eq_ofNat_of_zero_le ((Int.natCast_nonneg _).trans hstart)
  obtain ⟨n, rfl⟩ := Int.eq_ofNat_of_zero_le hread
  have hend : ((m : ℤ) + n).toNat = m + n := by omega
  rw [hend, Int.toNat_natCast, Int.toNat_natCast, h.copyRange_eq, ← h.start,
    max_eq_left (by omega), List.nil_append, List.drop_take]
  rcases Nat.le_total (m + n) log.length with hle | hge
  · rw [min_eq_left hle, Nat.add_sub_cancel_left]
  · rw [min_eq_right hge, List.take_of_length_le (by simp), List.take_of_length_le (by simp; omega)]

/-- The number of bytes that a read takes from a position inside the log. -/
def upTo (length rem : ℤ) : ℤ := if max length 0 = 0 then rem else min (max length 0) rem

/-- The bytes from a position inside the log on. -/
theorem take_upTo {start : ℤ} (hstart : 0 ≤ start) (hle : start ≤ log.length) (length : ℤ) :
    (log.drop start.toNat).take (upTo length (log.length - start)).toNat <+:
        log.drop start.toNat ∧
      (0 < length → (log.drop start.toNat).take (upTo length (log.length - start)).toNat =
        (log.drop start.toNat).take length.toNat) ∧
      (length = 0 → (log.drop start.toNat).take (upTo length (log.length - start)).toNat =
        log.drop start.toNat) := by
  have hlen : (log.drop start.toNat).length = (log.length - start).toNat := by
    rw [List.length_drop]
    omega
  refine ⟨List.take_prefix _ _, fun hpos => ?_, fun hzero => ?_⟩
  · rw [upTo, if_neg (by omega), max_eq_left hpos.le]
    rcases Int.le_total length (log.length - start) with hfit | hlong
    · rw [min_eq_left hfit]
    · rw [min_eq_right hlong, List.take_of_length_le (by omega), List.take_of_length_le (by omega)]
  · rw [upTo, if_pos (by omega), List.take_of_length_le (by omega)]

/-- The condition under which a read is right. -/
theorem Represents.reads_iff (h : r.Represents log) (offset length : ℤ) :
    r.ReadsRange log offset length ↔
      ¬ (length = 0 ∧ 0 ≤ offset ∧ offset < r.logStartOffset) := by
  have hstart : r.logStartOffset ≤ log.length := by
    rw [h.start]
    omega
  have hsize : r.byteSize = log.length - r.logStartOffset := by
    rw [byteSize, h.cumulative]
  -- A read from a position inside the log.
  have hread : ∀ {start : ℤ} (overflow : Bool), (r.logStartOffset : ℤ) ≤ start →
      start ≤ log.length →
      start = max (effectiveOffset log.length offset) r.logStartOffset →
      overflow = decide (effectiveOffset log.length offset < r.logStartOffset) →
      r.readBytes offset length =
        (Text.fromUtf8Lossy
          (r.copyRange start.toNat (start + upTo length (log.length - start)).toNat
          []), (log.length : ℤ), overflow) →
      r.ReadsRange log offset length := by
    intro start overflow hlow hhigh heq hflag hbytes
    have hnonneg : 0 ≤ upTo length (log.length - start) := by
      rw [upTo]
      split_ifs <;> omega
    rw [h.copyRange_window hlow hnonneg, hflag] at hbytes
    obtain ⟨hbegin, hpos, hzero⟩ := take_upTo ((Int.natCast_nonneg _).trans hlow) hhigh length
    rw [heq] at hbegin hpos hzero hbytes
    exact ⟨_, hbegin, hpos, hzero, hbytes⟩
  rcases Int.lt_or_le offset 0 with hneg | hnonneg
  · refine iff_of_true ?_ (by omega)
    have he : effectiveOffset log.length offset = log.length + offset := by
      rw [effectiveOffset, if_neg (by omega)]
    rcases Int.lt_or_le (log.length + offset) r.logStartOffset with hlost | hkept
    · apply hread true le_rfl (by omega) (by omega) (by simpa [he] using hlost)
      simp only [readBytes, if_pos hneg, h.cumulative, if_pos hlost, upTo]
    · apply hread false hkept (by omega) (by omega) (by simpa [he] using hkept)
      simp only [readBytes, if_pos hneg, h.cumulative, if_neg (not_lt.mpr hkept), upTo]
  have he : effectiveOffset log.length offset = offset := by
    rw [effectiveOffset, if_pos hnonneg]
  rcases Int.lt_or_le offset r.logStartOffset with hlost | hkept
  · -- The one branch that does not treat the length 0 as no limit.
    have hlostRead : r.readBytes offset length =
        (Text.fromUtf8Lossy ((log.drop r.logStartOffset).take
          (min (max length 0) (log.length - r.logStartOffset)).toNat), (log.length : ℤ), true) := by
      have hsize' : ((log.length - r.logStartOffset : ℕ) : ℤ) = log.length - r.logStartOffset :=
        Int.natCast_sub hstart
      have hcopy : r.copyRange r.logStartOffset
          ((r.logStartOffset : ℤ) + min (max length 0) (log.length - r.logStartOffset)).toNat [] =
            (log.drop r.logStartOffset).take
              (min (max length 0) (log.length - r.logStartOffset)).toNat :=
        h.copyRange_window (le_refl (r.logStartOffset : ℤ)) (by omega)
      simp only [readBytes, if_neg (not_lt.mpr hnonneg), if_pos hlost, h.cumulative, hsize, hsize',
        Int.toNat_natCast, hcopy]
    have hmax : (max (effectiveOffset log.length offset) (r.logStartOffset : ℤ)).toNat =
        r.logStartOffset := by
      rw [he, max_eq_right hlost.le, Int.toNat_natCast]
    have hflag : decide (effectiveOffset log.length offset < r.logStartOffset) = true := by
      simpa [he] using hlost
    constructor
    · rintro ⟨bytes, -, -, hall, hbytes⟩ ⟨rfl, -⟩
      rw [hlostRead, hall rfl, hmax] at hbytes
      have hempty := (congrArg Prod.fst hbytes).symm
      have hnone : (min (max (0 : ℤ) 0) (log.length - r.logStartOffset)).toNat = 0 := by omega
      simp only [hnone, List.take_zero] at hempty
      have hnil : log.drop r.logStartOffset = [] :=
        (fromUtf8Lossy_eq_empty_iff _).mp (hempty.trans ((fromUtf8Lossy_eq_empty_iff _).mpr rfl))
      rw [List.drop_eq_nil_iff] at hnil
      have hcapacity := r.capacity_pos
      rw [h.start] at hnil hlost
      omega
    · intro hlength
      rw [ReadsRange]
      simp only [hmax, hflag, hlostRead]
      refine ⟨_, List.take_prefix _ _, fun hpos => ?_, fun hzero =>
        absurd ⟨hzero, hnonneg, hlost⟩ hlength,
        rfl⟩
      rw [max_eq_left hpos.le]
      rcases Int.le_total length (log.length - r.logStartOffset) with hfit | hlong
      · rw [min_eq_left hfit]
      · rw [min_eq_right hlong, List.take_of_length_le (by rw [List.length_drop]; omega),
          List.take_of_length_le (by rw [List.length_drop]; omega)]
  · refine iff_of_true ?_ (by omega)
    rcases Int.lt_or_le offset log.length with hinside | hbehind
    · apply hread false hkept hinside.le (by omega) (by simpa [he] using hkept)
      simp only [readBytes, if_neg (not_lt.mpr hnonneg), if_neg (not_lt.mpr hkept), h.cumulative,
        if_neg (not_le.mpr hinside), upTo]
    · have hmax : (max (effectiveOffset log.length offset) (r.logStartOffset : ℤ)).toNat =
          offset.toNat := by
        rw [he, max_eq_left hkept]
      have hnil : log.drop offset.toNat = [] := List.drop_of_length_le (by omega)
      have hflag : decide (effectiveOffset log.length offset < r.logStartOffset) = false := by
        simpa [he] using hkept
      rw [ReadsRange]
      simp only [hmax, hnil, hflag]
      refine ⟨[], List.prefix_refl _, fun _ => List.take_nil.symm, fun _ => rfl, ?_⟩
      simp only [readBytes, if_neg (not_lt.mpr hnonneg), if_neg (not_lt.mpr hkept), h.cumulative,
        if_pos hbehind]
      rfl

/-- After any operations a read of a ring buffer, with any offset and any length, returns the
retained bytes of its range exactly when it is not a read without a limit from a position that is
lost. -/
theorem readsRange_iff (capacity : ℕ) (maxLines : Option ℕ) (ops : List LogOp)
    (offset length : ℤ) :
    let r := ops.foldl ContinuousRingBuffer.apply (create capacity maxLines)
    let log := history ops
    r.ReadsRange log offset length ↔
      ¬ (length = 0 ∧ 0 ≤ offset ∧ offset < (log.length - max capacity 1 : ℕ)) := by
  intro r log
  have h : r.Represents log := represents_run ops
  have hcapacity : r.capacity = max capacity 1 := (foldl_apply_capacity ops).trans create_capacity
  rw [h.reads_iff, h.start, hcapacity]

/-- The beginning of the log is lost, and a read of everything from there on returns nothing. -/
theorem exists_not_readsRange :
    let ops := [LogOp.writeBytes [97, 98, 99, 100]]
    let r := ops.foldl ContinuousRingBuffer.apply (create 2 none)
    r.readBytes 0 0 = ("", 4, true) ∧ ¬ r.ReadsRange (history ops) 0 0 := by
  intro ops r
  have hrep : r.Represents (history ops) := represents_run ops
  exact ⟨by decide, fun h => (hrep.reads_iff 0 0).mp h ⟨rfl, le_rfl, by decide⟩⟩

end ContinuousRingBuffer

end Rsupervisord
