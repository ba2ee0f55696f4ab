import Rsupervisord.Logging.Reader

/-!
# Windows of log reads

A read and a tail of a log file compute the window of bytes that they return from signed 64-bit
numbers of a client. The computations are repeated here with checked arithmetic, in which an
operation that is not a saturating one has no result when it leaves the range, and neither has a
clamp to an empty interval.

## Main results

* `LogFileReader.windows_iff`: for which numbers the windows lie inside the file.
-/

namespace Rsupervisord

namespace LogFileReader

/-- The result of an operation on signed 64-bit numbers, when it is in their range. -/
def checkI64 (n : ℤ) : Option ℤ := if -2 ^ 63 ≤ n ∧ n < 2 ^ 63 then some n else none

/-- `clamp`, which panics when the interval is empty. -/
def clampChecked (lo hi n : ℤ) : Option ℤ := if lo ≤ hi then some (max lo (min n hi)) else none

/-- `compute_read_window` in checked arithmetic. -/
def computeReadWindowChecked (totalLen offset length : ℤ) :
    Option (Except LogReadError (ℤ × ℤ)) :=
  if offset < 0 then
    if length ≠ 0 then
      some (.error (.badArguments "length must be 0 when offset is negative"))
    else do
      let maxRead := min (maxLogReadLimit : ℤ) (max totalLen 0)
      let absOffset := min (offset.natAbs : ℤ) maxRead
      let pos := max (← checkI64 (totalLen - absOffset)) 0
      let rem ← checkI64 (totalLen - pos)
      some (.ok (pos, min rem absOffset))
  else if length < 0 then some (.error (.badArguments "length cannot be negative"))
  else do
    let pos ← clampChecked 0 (max totalLen 0) offset
    let remaining ← checkI64 (totalLen - pos)
    let toRead := if length = 0 then remaining else min length remaining
    some (.ok (pos, min toRead maxLogReadLimit))

/-- `compute_tail_window` in checked arithmetic. -/
def computeTailWindowChecked (sz offset length : ℤ) : Option (ℤ × ℤ × Bool) := do
  let off := max offset 0
  let len ← clampChecked 0 maxLogReadLimit length
  let overflow : Bool := sz > clampI64 (off + len)
  let off := if overflow then clampI64 (sz - 1) else off
  let (off, len) ←
    if clampI64 (off + len) > sz then do
      let len := if off > clampI64 (sz - 1) then 0 else len
      let off := max (← checkI64 (sz - len)) 0
      let len := max (← checkI64 (sz - off)) 0
      some (off, len)
    else some (off, len)
  some (max off 0, max len 0, overflow)

/-- The windows of a read and of a tail, of a file of the size `sz`, are right. -/
structure Windows (sz offset length : ℤ) : Prop where
  /-- The computations neither overflow nor panic. -/
  read_total : computeReadWindowChecked sz offset length = some (computeReadWindow sz offset length)
  tail_total : computeTailWindowChecked sz offset length = some (computeTailWindow sz offset length)
  /-- Every window lies inside the file and keeps to both limits. -/
  read_inside : ∀ start len, computeReadWindow sz offset length = .ok (start, len) →
    0 ≤ start ∧ 0 ≤ len ∧ start + len ≤ sz ∧ len ≤ maxLogReadLimit ∧ (0 < length → len ≤ length)
  tail_inside : ∀ start len overflow, computeTailWindow sz offset length = (start, len, overflow) →
    0 ≤ start ∧ 0 ≤ len ∧ start + len ≤ sz ∧ len ≤ maxLogReadLimit ∧ len ≤ max length 0
  /-- A tail that is not empty ends at the end of the file. -/
  tail_ends : ∀ start len overflow, computeTailWindow sz offset length = (start, len, overflow) →
    len ≠ 0 → start + len = sz
  /-- The overflow flag compares exact integers. -/
  tail_overflow : (computeTailWindow sz offset length).2.2 = true ↔
    sz > max offset 0 + min (max length 0) maxLogReadLimit

variable {sz offset length : ℤ}

theorem checkI64_of_nonneg {m n : ℤ} (hm : 0 ≤ m) (hm' : m < 2 ^ 63) (hn : 0 ≤ n)
    (hn' : n < 2 ^ 63) : checkI64 (m - n) = some (m - n) :=
  if_pos (by omega)

/-- The window of a read. -/
theorem read_window (hsz : 0 ≤ sz) (hsz' : sz < 2 ^ 63) :
    computeReadWindowChecked sz offset length = some (computeReadWindow sz offset length) ∧
      ∀ start len, computeReadWindow sz offset length = .ok (start, len) →
        0 ≤ start ∧ 0 ≤ len ∧ start + len ≤ sz ∧ len ≤ maxLogReadLimit ∧
          (0 < length → len ≤ length) := by
  simp only [computeReadWindowChecked, computeReadWindow]
  split_ifs with hneg hlength hnegative hall
  · exact ⟨rfl, nofun⟩
  · have habs : 0 ≤ min (offset.natAbs : ℤ) (min (maxLogReadLimit : ℤ) (max sz 0)) := by omega
    have hlimit : min (offset.natAbs : ℤ) (min (maxLogReadLimit : ℤ) (max sz 0)) ≤
        maxLogReadLimit := by
      omega
    have hle : min (offset.natAbs : ℤ) (min (maxLogReadLimit : ℤ) (max sz 0)) ≤ sz := by omega
    generalize min (offset.natAbs : ℤ) (min (maxLogReadLimit : ℤ) (max sz 0)) = abs at *
    rw [checkI64_of_nonneg hsz hsz' habs (by omega)]
    simp only [Option.bind_eq_bind, Option.bind_some]
    rw [checkI64_of_nonneg hsz hsz' (by omega) (by omega)]
    refine ⟨rfl, ?_⟩
    rintro start len h
    obtain ⟨rfl, rfl⟩ := Prod.mk.inj (Except.ok.inj h)
    omega
  · exact ⟨rfl, nofun⟩
  · rw [clampChecked, if_pos (le_max_right _ _)]
    simp only [Option.bind_eq_bind, Option.bind_some]
    rw [checkI64_of_nonneg hsz hsz' (by omega) (by omega)]
    refine ⟨rfl, ?_⟩
    rintro start len h
    obtain ⟨rfl, rfl⟩ := Prod.mk.inj (Except.ok.inj h)
    omega
  · rw [clampChecked, if_pos (le_max_right _ _)]
    simp only [Option.bind_eq_bind, Option.bind_some]
    rw [checkI64_of_nonneg hsz hsz' (by omega) (by omega)]
    refine ⟨rfl, ?_⟩
    rintro start len h
    obtain ⟨rfl, rfl⟩ := Prod.mk.inj (Except.ok.inj h)
    omega

/-- The computation of a tail neither overflows nor panics. -/
theorem tail_total (hsz : 0 ≤ sz) (hsz' : sz < 2 ^ 63) :
    computeTailWindowChecked sz offset length = some (computeTailWindow sz offset length) := by
  have hlimit : (maxLogReadLimit : ℤ) < 2 ^ 63 := by decide
  have hzero : (0 : ℤ) ≤ maxLogReadLimit := by decide
  have hlen : 0 ≤ max 0 (min length maxLogReadLimit) ∧
      max 0 (min length maxLogReadLimit) ≤ maxLogReadLimit := by omega
  simp only [computeTailWindowChecked, computeTailWindow, clampChecked, if_pos hzero,
    Option.bind_eq_bind, Option.bind_some]
  generalize max 0 (min length maxLogReadLimit : ℤ) = len at *
  generalize (if decide (sz > clampI64 (max offset 0 + len)) = true then clampI64 (sz - 1)
    else max offset 0) = off
  split_ifs with hbehind hpast
  · rw [checkI64_of_nonneg hsz hsz' le_rfl (by omega)]
    simp only [Option.bind_some]
    rw [checkI64_of_nonneg hsz hsz' (by omega) (by omega)]
    rfl
  · rw [checkI64_of_nonneg hsz hsz' hlen.1 (by omega)]
    simp only [Option.bind_some]
    rw [checkI64_of_nonneg hsz hsz' (by omega) (by omega)]
    rfl
  · rfl

/-- The tail of a file of the greatest size that there is, in which a saturating sum does not exceed
the size: the requested range ends behind the file, or it is passed over and has more than a
byte. -/
def Saturates (sz offset length : ℤ) : Prop :=
  let off := max offset 0
  let len := min (max length 0) (maxLogReadLimit : ℤ)
  sz = 2 ^ 63 - 1 ∧ (sz < off + len ∨ off + len < sz ∧ 1 < len)

instance (sz offset length : ℤ) : Decidable (Saturates sz offset length) :=
  inferInstanceAs (Decidable (_ ∧ (_ ∨ _ ∧ _)))

/-- The window of a tail. -/
theorem tail_window (hsz : 0 ≤ sz) (hsz' : sz < 2 ^ 63) (hoff : offset < 2 ^ 63) :
    (computeTailWindow sz offset length).2.2 =
        decide (sz > max offset 0 + min (max length 0) maxLogReadLimit) ∧
      0 ≤ (computeTailWindow sz offset length).1 ∧ 0 ≤ (computeTailWindow sz offset length).2.1 ∧
      (computeTailWindow sz offset length).2.1 ≤ min (max length 0) maxLogReadLimit ∧
      ((computeTailWindow sz offset length).1 + (computeTailWindow sz offset length).2.1 ≤ sz ↔
        ¬ Saturates sz offset length) ∧
      ((computeTailWindow sz offset length).1 + (computeTailWindow sz offset length).2.1 ≤ sz →
        (computeTailWindow sz offset length).2.1 ≠ 0 →
          (computeTailWindow sz offset length).1 + (computeTailWindow sz offset length).2.1 =
          sz) := by
  have hlimit : (maxLogReadLimit : ℤ) < 2 ^ 63 := by decide
  have hzero : (0 : ℤ) ≤ maxLogReadLimit := by decide
  have hlen : max 0 (min length maxLogReadLimit) = min (max length 0) (maxLogReadLimit : ℤ) := by
    omega
  have hlast : clampI64 (sz - 1) = sz - 1 := clampI64_of_mem (by omega) (by omega)
  simp only [computeTailWindow, hlen, hlast, Saturates]
  generalize hlength : min (max length 0) (maxLogReadLimit : ℤ) = len at *
  generalize hoffset : max offset 0 = off at *
  have hbounds : 0 ≤ len ∧ len < 2 ^ 63 ∧ 0 ≤ off ∧ off < 2 ^ 63 := by omega
  have hsum := clampI64_of_nonneg (n := off + len) (by omega)
  have hmoved := clampI64_of_nonneg (n := sz - 1 + len)
  clear hlen hlength hoffset hlimit hzero hlast
  by_cases hover : sz > clampI64 (off + len)
  · have hexact : sz > off + len := by omega
    simp only [hover, hexact, decide_true, if_true]
    split_ifs <;> simp only [true_and] <;> omega
  · have hexact : ¬ sz > off + len := by omega
    simp only [hover, hexact, decide_false, Bool.false_eq_true, if_false, false_and, or_false]
    split_ifs <;> refine ⟨trivial, ?_, ?_, ?_, ?_, ?_⟩ <;> omega

/-- Without an overflow the window of a tail begins at the offset or before it, and ends at the end
of the file even when it is empty. -/
theorem tail_window_of_not_overflow (hsz : 0 ≤ sz) (hsz' : sz < 2 ^ 63 - 1) (hoff : offset ≤ sz)
    (hover : (computeTailWindow sz offset length).2.2 = false) :
    (computeTailWindow sz offset length).1 ≤ max offset 0 ∧
      (computeTailWindow sz offset length).1 + (computeTailWindow sz offset length).2.1 = sz := by
  have hlen : 0 ≤ max 0 (min length (maxLogReadLimit : ℤ)) := le_max_left _ _
  have hlast : clampI64 (sz - 1) = sz - 1 := clampI64_of_mem (by omega) (by omega)
  simp only [computeTailWindow, decide_eq_false_iff_not] at hover
  simp only [computeTailWindow, hover, hlast, decide_false, Bool.false_eq_true, if_false]
  generalize max 0 (min length (maxLogReadLimit : ℤ)) = len at *
  have hsum : clampI64 (max offset 0 + len) = max offset 0 + len ∨ _ :=
    (clampI64_of_nonneg (by omega)).imp And.right id
  split_ifs <;> refine ⟨?_, ?_⟩ <;> omega

/-- The windows of a read and of a tail are right, for all arguments of a client, unless the file
has the greatest size that there is and a sum saturates. -/
theorem windows_iff {sz : ℤ} (hsz : 0 ≤ sz ∧ sz < 2 ^ 63) (offset length : Int64) :
    Windows sz offset.toInt length.toInt ↔ ¬ Saturates sz offset.toInt length.toInt := by
  have hoff : offset.toInt < 2 ^ 63 := Int64.toInt_lt offset
  generalize offset.toInt = offset at *
  generalize length.toInt = length
  obtain ⟨hflag, hstart, hlen, hmax, hinside, hends⟩ := tail_window hsz.1 hsz.2 hoff
  obtain ⟨hread, hreadInside⟩ := read_window hsz.1 hsz.2
  constructor
  · intro h
    exact hinside.mp (h.tail_inside _ _ _ rfl).2.2.1
  · intro h
    have hfits := hinside.mpr h
    refine ⟨hread, tail_total hsz.1 hsz.2, hreadInside, ?_, ?_, ?_⟩
    · rintro start len overflow heq
      rw [heq] at hstart hlen hmax hfits
      simp only at hstart hlen hmax hfits
      exact ⟨hstart, hlen, hfits, by omega, by omega⟩
    · rintro start len overflow heq hne
      rw [heq] at hends hfits
      exact hends hfits hne
    · rw [hflag, decide_eq_true_iff]

/-- The windows for the least offset and the greatest length. -/
theorem windows_of_extremes : Windows 100 Int64.minValue.toInt Int64.maxValue.toInt :=
  (windows_iff (by decide) Int64.minValue Int64.maxValue).mpr (by decide)

/-- The last ten bytes of the greatest file: the window ends behind the file. -/
theorem exists_not_windows :
    computeTailWindow (2 ^ 63 - 1) (Int64.toInt 0) (Int64.toInt 10) = (2 ^ 63 - 2, 10, true) ∧
      ¬ Windows (2 ^ 63 - 1) (Int64.toInt 0) (Int64.toInt 10) := by
  have hwindow : computeTailWindow (2 ^ 63 - 1) (Int64.toInt 0) (Int64.toInt 10) =
      (2 ^ 63 - 2, 10, true) := by decide
  refine ⟨hwindow, fun h => ?_⟩
  have hinside : (2 ^ 63 - 2 : ℤ) + 10 ≤ 2 ^ 63 - 1 := (h.tail_inside _ _ _ hwindow).2.2.1
  exact absurd hinside (by decide)

end LogFileReader

end Rsupervisord
