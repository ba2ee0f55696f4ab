import Rsupervisord.Logging.RingRefinement
import Rsupervisord.Logging.Reader
import Rsupervisord.Support.Except

/-!
# Two back ends of log reads

A log is read from a ring buffer or from the bytes of a file. The statements are about logs that the
ring buffer holds as a whole, that do not exceed the limit of a read, and that have fewer than
`2 ^ 64` bytes, the bound of the offsets in the source.

* `readBytes_eq_readBytesFromSlice`: reads that the file accepts return the same text.
* `tailBytes_eq_tailBytesFromSlice_iff`: when tails return the same.

The tails differ because the ring buffer hands out offsets to go on from, while the file always
returns its last bytes and its size.
-/

namespace Rsupervisord

open ContinuousRingBuffer

/-- A text is empty when no byte was decoded. -/
theorem fromUtf8Lossy_eq_empty_iff (bytes : List UInt8) :
    Text.fromUtf8Lossy bytes = "" ↔ bytes = [] := by
  constructor
  · intro h
    have hnil : Text.decodeLossy bytes.length bytes = [] := by
      rw [← String.toList_ofList (l := Text.decodeLossy bytes.length bytes)]
      exact congrArg String.toList h
    rcases bytes with _ | ⟨b, rest⟩
    · rfl
    · simp only [List.length_cons, Text.decodeLossy] at hnil
      exact absurd hnil (List.cons_ne_nil _ _)
  · rintro rfl
    rfl

namespace ContinuousRingBuffer

variable {r : ContinuousRingBuffer} {log : List UInt8}

/-- A ring buffer seeded with a whole file represents its bytes. -/
theorem Represents.seed (r : ContinuousRingBuffer) (log : List UInt8) :
    (r.seed log log.length).Represents log := by
  rcases eq_or_ne log [] with rfl | hne
  · exact .nil rfl rfl
  let start : ContinuousRingBuffer :=
    { r.clear with
      cumulativeBytes := log.length - log.length
      currentLineStart := log.length - log.length }
  have hstart : start.Represents [] := .nil (Nat.sub_self _) rfl
  have hwritten : (start.writeBytes log).Represents log := hstart.writeBytes log
  have hpos : log.length > 0 ∧ ¬ log.isEmpty := by
    simp [List.length_pos_iff, hne]
  have hseed : r.seed log log.length =
      { start.writeBytes log with cumulativeBytes := log.length } := by
    simp only [ContinuousRingBuffer.seed, if_pos hpos]
    rfl
  -- The write offset is already the size of the file.
  rw [hseed, ← hwritten.cumulative]
  exact hwritten

/-- Windows of a list agree when they have the same bounds or are both empty. -/
theorem take_drop_congr {xs : List UInt8} {a b k m : ℕ}
    (h : a = b ∧ min k (xs.length - a) = min m (xs.length - a) ∨
      (k = 0 ∨ xs.length ≤ a) ∧ (m = 0 ∨ xs.length ≤ b)) :
    (xs.drop a).take k = (xs.drop b).take m := by
  rcases h with ⟨rfl, hmin⟩ | ⟨hleft, hright⟩
  · rw [List.take_eq_take_iff, List.length_drop]
    exact hmin
  · have hnil : ∀ c n : ℕ, (n = 0 ∨ xs.length ≤ c) → (xs.drop c).take n = [] := by
      intro c n hn
      rw [List.take_eq_nil_iff, List.drop_eq_nil_iff]
      exact hn
    rw [hnil a k hleft, hnil b m hright]

/-- The offsets of a ring buffer that holds the whole log, and the bytes it shows for a range. -/
theorem Represents.whole (h : r.Represents log) (hcap : log.length ≤ r.capacity) :
    r.logStartOffset = 0 ∧ r.cumulativeBytes = log.length ∧
      ∀ start end_, r.copyRange start end_ [] = (log.drop start).take (end_ - start) := by
  refine ⟨?_, h.cumulative, fun start end_ => ?_⟩
  · rw [h.start]
    omega
  · rw [h.copyRange_eq, Nat.sub_eq_zero_of_le hcap, Nat.max_zero, List.nil_append, List.drop_take]
    exact take_drop_congr (by omega)

/-! ## Reading -/

open LogFileReader in
/-- What a read returns of the window computed for it. -/
theorem readBytesFromSlice_of_window {offset length pos toRead : ℤ}
    (hwindow : computeReadWindow log.length offset length = .ok (pos, toRead)) (hpos : 0 ≤ pos) :
    readBytesFromSlice log offset length =
      .ok (Text.fromUtf8Lossy ((log.drop pos.toNat).take toRead.toNat)) := by
  rw [readBytesFromSlice, hwindow]
  show (if toRead = 0 then Except.ok "" else _) = _
  split
  next hzero =>
    rw [hzero]
    rfl
  next hread =>
    rw [List.drop_take]
    show Except.ok (Text.fromUtf8Lossy _) = _
    rw [take_drop_congr (k := min (pos + toRead).toNat log.length - pos.toNat)
      (m := toRead.toNat)]
    omega

open LogFileReader in
/-- The pairs that a read accepts, and their windows: the bytes before the end for a negative
offset, otherwise those from the offset on. -/
theorem computeReadWindow_eq_ok_iff (hlimit : log.length ≤ maxLogReadLimit)
    {offset length : ℤ} {window : ℤ × ℤ} :
    computeReadWindow log.length offset length = .ok window ↔
      0 ≤ length ∧ (offset < 0 → length = 0) ∧
        window =
          let pos := if offset < 0 then max (log.length + offset) 0 else min offset log.length
          (pos, if length = 0 then log.length - pos else min length (log.length - pos)) := by
  simp only [computeReadWindow]
  split
  next hneg =>
    split
    next hlength => simp [hneg, hlength]
    next hlength =>
      have hzero : length = 0 := by simpa using hlength
      subst hzero
      have hpos : max ((log.length : ℤ) -
          min (offset.natAbs : ℤ) (min (maxLogReadLimit : ℤ) (max (log.length : ℤ) 0))) 0 =
          max (log.length + offset) 0 := by omega
      have hread : min ((log.length : ℤ) - max (log.length + offset) 0)
          (min (offset.natAbs : ℤ) (min (maxLogReadLimit : ℤ) (max (log.length : ℤ) 0))) =
          log.length - max (log.length + offset) 0 := by omega
      rw [hpos, hread]
      simp [hneg, eq_comm]
  next hge =>
    split
    next hlength =>
      simp only [reduceCtorEq, false_iff]
      omega
    next hlength =>
      have hpos : max 0 (min offset (max (log.length : ℤ) 0)) = min offset log.length := by omega
      have hread : min (if length = 0 then (log.length : ℤ) - min offset log.length
          else min length (log.length - min offset log.length)) (maxLogReadLimit : ℤ) =
          if length = 0 then (log.length : ℤ) - min offset log.length
          else min length (log.length - min offset log.length) := by
        split <;> omega
      rw [hpos, hread]
      simp only [hge, Except.ok.injEq, eq_comm (b := window)]
      simp only [false_implies, true_and, not_lt.mp hlength]

/-- The two back ends of reading agree: what the file returns for a pair of an offset and a length
that it accepts is what a ring buffer with the same log returns. -/
theorem readBytes_eq_readBytesFromSlice (h : r.Represents log) (hcap : log.length ≤ r.capacity)
    (hlimit : log.length ≤ maxLogReadLimit) {offset length : ℤ} {content : String}
    (haccepted : LogFileReader.readBytesFromSlice log offset length = .ok content) :
    (r.readBytes offset length).1 = content := by
  obtain ⟨hstart, hcumulative, hcopy⟩ := h.whole hcap
  obtain ⟨⟨pos, toRead⟩, hwindow, -⟩ := Except.bind_eq_ok.mp haccepted
  obtain ⟨hlength, hneg, hpair⟩ := (computeReadWindow_eq_ok_iff hlimit).mp hwindow
  obtain ⟨hpos, hread⟩ := Prod.mk.injEq .. ▸ hpair
  have hcontent := haccepted.symm.trans (readBytesFromSlice_of_window hwindow (by
    split at hpos <;> omega))
  rw [Except.ok.inj hcontent]
  have hlen : max length 0 = length := max_eq_left hlength
  simp only [ContinuousRingBuffer.readBytes, byteSize, hstart, hcumulative, hcopy, hlen,
    Nat.cast_zero]
  rcases lt_or_ge offset 0 with hbehind | hahead
  · -- The bytes before the end; the whole log when it has not as many.
    rw [if_pos hbehind] at hpos hread ⊢
    rw [if_pos (hneg hbehind)] at hread ⊢
    split
    next => exact congrArg Text.fromUtf8Lossy (take_drop_congr (by omega))
    next => exact congrArg Text.fromUtf8Lossy (take_drop_congr (by omega))
  · rw [if_neg hahead.not_gt] at hpos hread
    rw [if_neg hahead.not_gt, if_neg hahead.not_gt]
    split
    next hend =>
      have hnone : (log.drop pos.toNat).take toRead.toNat = [] := by
        rw [List.take_eq_nil_iff, List.drop_eq_nil_iff]
        omega
      rw [hnone]
      rfl
    next =>
      apply congrArg Text.fromUtf8Lossy
      apply take_drop_congr
      split at hread <;> split <;> omega

/-- `readBytes_eq_readBytesFromSlice` for the last two of three bytes. -/
theorem readBytes_of_last_two : (((new 4).writeBytes [97, 98, 99]).readBytes (-2) 0).1 = "bc" :=
  readBytes_eq_readBytesFromSlice
    ((Represents.nil (r := new 4) rfl rfl).writeBytes [97, 98, 99]) (by decide)
    (by simp [maxLogReadLimit]) rfl

/-! ## Tailing -/

open LogFileReader in
/-- The window of a tail of a file that does not exceed the limit. -/
theorem computeTailWindow_eq {sz offset length : ℤ} (hsz : 0 ≤ sz) (hlimit : sz ≤ maxLogReadLimit) :
    computeTailWindow sz offset length =
      let len := max 0 (min length maxLogReadLimit)
      if max offset 0 + len < sz then (if len = 0 then sz - 1 else sz - len, len, true)
      else if sz ≤ max offset 0 then (sz, 0, false)
      else (max (sz - len) 0, min len sz, false) := by
  have hsmall : (maxLogReadLimit : ℤ) < 2 ^ 63 - 1 := by simp [maxLogReadLimit]
  have hlen : 0 ≤ max 0 (min length (maxLogReadLimit : ℤ)) := by omega
  have hoff : 0 ≤ max offset 0 := by omega
  simp only [computeTailWindow]
  generalize max 0 (min length (maxLogReadLimit : ℤ)) = len at hlen ⊢
  generalize max offset 0 = off at hoff ⊢
  -- The saturating operations compare with the size as the plain ones do.
  have hadd : ∀ o : ℤ, 0 ≤ o → (clampI64 (o + len) > sz ↔ o + len > sz) := by
    intro o ho
    simp only [clampI64]
    omega
  have hadd' : sz > clampI64 (off + len) ↔ off + len < sz := by
    simp only [clampI64]
    omega
  have hlast : clampI64 (sz - 1) = sz - 1 := by
    simp only [clampI64]
    omega
  simp only [hadd', hlast]
  by_cases hover : off + len < sz
  · simp only [hover, decide_true, if_true, hadd (sz - 1) (by omega)]
    split_ifs <;> simp only [Prod.mk.injEq, and_true] <;> omega
  · simp only [hover, decide_false, if_false, Bool.false_eq_true, hadd off hoff]
    split_ifs <;> simp only [Prod.mk.injEq, and_true] <;> omega

open LogFileReader in
/-- What a tail returns of the window computed for it. -/
theorem tailBytesFromSlice_of_window {offset length off len : ℤ} {overflow : Bool}
    (hwindow : computeTailWindow log.length offset length = (off, len, overflow))
    (hoff : 0 ≤ off) (hlen : 0 ≤ len) :
    tailBytesFromSlice log offset length =
      (Text.fromUtf8Lossy ((log.drop off.toNat).take len.toNat), (log.length : ℤ), overflow) := by
  unfold tailBytesFromSlice
  dsimp only
  rw [hwindow]
  dsimp only
  congr 2
  split
  next hnone =>
    rw [eq_comm, List.take_eq_nil_iff, List.drop_eq_nil_iff]
    omega
  next hsome =>
    rw [List.drop_take]
    exact take_drop_congr (by omega)

open LogFileReader in
/-- A tail of the bytes of a file that does not exceed the limit: its last bytes, none behind its
end, and its size. -/
theorem tailBytesFromSlice_eq (hlimit : log.length ≤ maxLogReadLimit) (offset length : ℤ) :
    tailBytesFromSlice log offset length =
      (Text.fromUtf8Lossy (if log.length ≤ offset then [] else lastBytes length.toNat log),
        (log.length : ℤ), decide (max offset 0 + max length 0 < log.length)) := by
  have hlast : lastBytes length.toNat log =
      (log.drop (log.length - length.toNat)).take log.length := by
    rw [lastBytes, List.take_of_length_le]
    simp
  have hwindow := @computeTailWindow_eq log.length offset length (by omega)
    (by exact_mod_cast hlimit)
  dsimp only at hwindow
  split_ifs at hwindow with hover hzero hend
  · rw [tailBytesFromSlice_of_window hwindow (by omega) (by omega), if_neg (by omega), hlast,
      decide_eq_true (by omega)]
    exact congrArg (fun bytes => (Text.fromUtf8Lossy bytes, _, _)) (take_drop_congr (by omega))
  · rw [tailBytesFromSlice_of_window hwindow (by omega) (by omega), if_neg (by omega), hlast,
      decide_eq_true (by omega)]
    exact congrArg (fun bytes => (Text.fromUtf8Lossy bytes, _, _)) (take_drop_congr (by omega))
  · have hnone : (if (log.length : ℤ) ≤ offset then [] else lastBytes length.toNat log) = [] := by
      split
      next => rfl
      next =>
        rw [lastBytes, List.drop_eq_nil_iff]
        omega
    rw [tailBytesFromSlice_of_window hwindow (by omega) (by omega), hnone,
      decide_eq_false (by omega)]
    rfl
  · rw [tailBytesFromSlice_of_window hwindow (by omega) (by omega), if_neg (by omega), hlast,
      decide_eq_false (by omega)]
    exact congrArg (fun bytes => (Text.fromUtf8Lossy bytes, _, _)) (take_drop_congr (by omega))

/-- A tail at offset zero of a ring buffer that holds the whole log: its last bytes, or the whole
log for no length. -/
theorem Represents.tailBytes_zero (h : r.Represents log) (hcap : log.length ≤ r.capacity)
    (length : ℤ) :
    r.tailBytes 0 length =
      (Text.fromUtf8Lossy (if length ≤ 0 then log else lastBytes length.toNat log),
        (log.length : ℤ), decide (0 < length ∧ length < log.length)) := by
  obtain ⟨hstart, hcumulative, hcopy⟩ := h.whole hcap
  simp only [ContinuousRingBuffer.tailBytes, byteSize, hstart, hcumulative, hcopy, if_true,
    Nat.cast_zero, Nat.sub_zero, Prod.mk.injEq, true_and, decide_eq_decide]
  refine ⟨congrArg Text.fromUtf8Lossy ?_, ?_⟩
  · have hdrop : ∀ n, log.drop n = (log.drop n).take log.length := fun n => by
      rw [List.take_of_length_le]
      simp
    have hwhole : log = (log.drop 0).take log.length := hdrop 0
    rcases le_or_gt length 0 with hnone | hsome
    · rw [if_pos hnone]
      refine Eq.trans (take_drop_congr ?_) hwhole.symm
      omega
    · rw [if_neg hsome.not_ge]
      refine Eq.trans (take_drop_congr ?_) (hdrop _).symm
      omega
  · split <;> omega

/-- A tail at another offset behind the last byte: nothing. -/
theorem Represents.tailBytes_of_le (h : r.Represents log) (hcap : log.length ≤ r.capacity)
    {offset : ℤ} (hoffset : offset ≠ 0) (hend : log.length ≤ offset.toNat) (length : ℤ) :
    r.tailBytes offset length = ("", (log.length : ℤ), false) := by
  obtain ⟨hstart, hcumulative, -⟩ := h.whole hcap
  simp only [ContinuousRingBuffer.tailBytes, hstart, hcumulative, if_neg hoffset, Nat.cast_zero]
  rw [if_pos (by omega)]

/-- A tail at another offset before the end: the bytes from there on. -/
theorem Represents.tailBytes_of_lt (h : r.Represents log) (hcap : log.length ≤ r.capacity)
    {offset : ℤ} (hoffset : offset ≠ 0) (hend : offset.toNat < log.length) (length : ℤ) :
    let count := if length ≤ 0 then log.length - offset.toNat
      else min length.toNat (log.length - offset.toNat)
    r.tailBytes offset length =
      (Text.fromUtf8Lossy ((log.drop offset.toNat).take count), ((offset.toNat + count : ℕ) : ℤ),
        decide (offset < 0)) := by
  obtain ⟨hstart, hcumulative, hcopy⟩ := h.whole hcap
  simp only [ContinuousRingBuffer.tailBytes, hstart, hcumulative, hcopy, if_neg hoffset,
    Nat.cast_zero]
  rw [if_neg (by omega)]
  simp only [Prod.mk.injEq, and_true]
  refine ⟨congrArg Text.fromUtf8Lossy (take_drop_congr ?_), ?_⟩
  · split <;> split <;> omega
  · split <;> split <;> omega

/-- The two back ends of tailing agree on the empty log, on the last bytes of a log, behind its end,
and when the bytes from the offset on are read to the end and decode like as many last bytes as
were asked for. Otherwise they differ. -/
theorem tailBytes_eq_tailBytesFromSlice_iff (h : r.Represents log) (hcap : log.length ≤ r.capacity)
    (hlimit : log.length ≤ maxLogReadLimit) (offset length : ℤ) :
    r.tailBytes offset length = LogFileReader.tailBytesFromSlice log offset length ↔
      log = [] ∨ (offset = 0 ∧ 0 < length) ∨ log.length ≤ offset ∨
        (0 < offset ∧ log.length ≤ offset + length ∧
          Text.fromUtf8Lossy (log.drop offset.toNat) =
            Text.fromUtf8Lossy (lastBytes length.toNat log)) := by
  rw [tailBytesFromSlice_eq hlimit]
  rcases eq_or_ne log [] with rfl | hlog
  · -- Nothing to return.
    have hlast : lastBytes length.toNat [] = [] := List.drop_nil
    have hover : decide (max offset 0 + max length 0 < (([] : List UInt8).length : ℤ)) = false := by
      simp only [List.length_nil, decide_eq_false_iff_not]
      omega
    rw [hlast, ite_self, hover]
    refine iff_of_true ?_ (.inl rfl)
    rcases eq_or_ne offset 0 with rfl | hne
    · rw [h.tailBytes_zero hcap, hlast, ite_self, decide_eq_false]
      simp only [List.length_nil]
      omega
    · exact h.tailBytes_of_le hcap hne (Nat.zero_le _) length
  have hpos : 0 < log.length := List.length_pos_iff.mpr hlog
  have htext : Text.fromUtf8Lossy log ≠ "" := (fromUtf8Lossy_eq_empty_iff log).not.mpr hlog
  simp only [hlog, false_or]
  rcases lt_trichotomy offset 0 with hneg | rfl | hoff
  · -- The ring buffer returns the first bytes and reports that bytes were passed over.
    refine iff_of_false ?_ (by omega)
    have hzero : offset.toNat = 0 := Int.toNat_of_nonpos hneg.le
    rw [h.tailBytes_of_lt hcap hneg.ne (by omega),
      if_neg (c := (log.length : ℤ) ≤ offset) (by omega),
      hzero, List.drop_zero]
    simp only [Prod.mk.injEq, decide_eq_decide]
    rintro ⟨hbytes, hcount, hover⟩
    have hnone : length ≤ 0 := by
      split at hcount <;> omega
    rw [if_pos hnone, Nat.sub_zero, List.take_length, lastBytes, Int.toNat_of_nonpos hnone,
      Nat.sub_zero, List.drop_length] at hbytes
    exact htext hbytes
  · -- The last bytes, unless no length is given.
    rw [h.tailBytes_zero hcap, if_neg (c := (log.length : ℤ) ≤ 0) (by omega)]
    simp only [Prod.mk.injEq, true_and, decide_eq_decide]
    constructor
    · rintro ⟨-, hover⟩
      omega
    · intro hagree
      have hlength : 0 < length := by omega
      rw [if_neg hlength.not_ge]
      exact ⟨rfl, by omega⟩
  · by_cases hend : (log.length : ℤ) ≤ offset
    · -- Nothing behind the end.
      refine iff_of_true ?_ (.inr (.inl hend))
      rw [h.tailBytes_of_le hcap hoff.ne' (by omega), if_pos hend, decide_eq_false (by omega)]
      rfl
    · -- The file returns its size, so the bytes must be read to the end.
      rw [h.tailBytes_of_lt hcap hoff.ne' (by omega), if_neg hend]
      simp only [Prod.mk.injEq, decide_eq_decide]
      constructor
      · rintro ⟨hbytes, hcount, hover⟩
        have hall : log.length ≤ offset + length := by omega
        rw [if_neg (by omega), List.take_of_length_le (by rw [List.length_drop]; omega)] at hbytes
        exact .inr (.inr ⟨hoff, hall, hbytes⟩)
      · intro hagree
        obtain ⟨-, hall, hbytes⟩ : 0 < offset ∧ log.length ≤ offset + length ∧ _ := by
          rcases hagree with hagree | hagree | hagree
          · omega
          · omega
          · exact hagree
        rw [if_neg (by omega), List.take_of_length_le (by rw [List.length_drop]; omega)]
        exact ⟨hbytes, by omega, by omega⟩

/-- `tailBytes_eq_tailBytesFromSlice_iff` for the last two of three bytes, read from their
offset. -/
theorem tailBytes_from_offset_one :
    ((new 4).writeBytes [97, 98, 99]).tailBytes 1 2 =
      LogFileReader.tailBytesFromSlice [97, 98, 99] 1 2 :=
  (tailBytes_eq_tailBytesFromSlice_iff
    ((Represents.nil (r := new 4) rfl rfl).writeBytes [97, 98, 99]) (by decide)
    (by simp [maxLogReadLimit]) 1 2).mpr (.inr (.inr (.inr ⟨by decide, by decide, rfl⟩)))

/-- The back ends do not agree for all offsets and lengths: for one byte from the second of three on
the ring buffer returns that byte and the offset behind it, the file its last byte and its size. -/
theorem exists_tailBytes_ne :
    ¬ ∀ (r : ContinuousRingBuffer) (log : List UInt8), r.Represents log →
      log.length ≤ r.capacity → log.length ≤ maxLogReadLimit → ∀ offset length : ℤ,
      r.tailBytes offset length = LogFileReader.tailBytesFromSlice log offset length := by
  intro hagree
  have habc := hagree ((new 4).writeBytes [97, 98, 99]) [97, 98, 99]
    ((Represents.nil (r := new 4) rfl rfl).writeBytes [97, 98, 99]) (by decide)
    (by simp [maxLogReadLimit]) 1 1
  have hring : ((new 4).writeBytes [97, 98, 99]).tailBytes 1 1 = ("b", 2, false) := rfl
  have hfile : LogFileReader.tailBytesFromSlice [97, 98, 99] 1 1 = ("c", 3, true) := rfl
  rw [hring, hfile] at habc
  exact absurd (congrArg (fun reply => reply.2.1) habc) (by decide)

end ContinuousRingBuffer

end Rsupervisord
