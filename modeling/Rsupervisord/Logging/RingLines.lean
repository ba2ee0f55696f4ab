import Rsupervisord.Logging.RingReads

/-!
# Lines of a ring buffer

A ring buffer keeps an index of its complete lines while it overwrites its oldest bytes, and returns
the lines of the log whose first byte it has kept. The log has fewer than `2 ^ 64` bytes, the bound
of the offsets in the source.

## Main results

* `ContinuousRingBuffer.Indexes.apply`: the index is that of the complete lines of the log without
  the lost ones.
* `ContinuousRingBuffer.readLineSlices_eq`: the lines that are read are the last ones of the log.
-/

namespace Rsupervisord

namespace ContinuousRingBuffer

open Lines

variable {r : ContinuousRingBuffer} {log data : List UInt8} {lines : List (List UInt8)}
  {capacity : ℕ} {maxLines : Option ℕ} {pos o m n : ℕ}

/-! ## Complete lines and their offsets -/

/-- Lines, from the offset `pos` on, with the offsets of their first bytes. -/
def withOffsets : ℕ → List (List UInt8) → List (ℕ × List UInt8)
  | _, [] => []
  | pos, line :: lines => (pos, line) :: withOffsets (pos + line.length + 1) lines

/-- The intervals of lines. -/
def bounds : ℕ → List (List UInt8) → List (ℕ × ℕ)
  | _, [] => []
  | pos, line :: lines =>
      (pos, pos + line.length + 1) :: bounds (pos + line.length + 1) lines

theorem scanLines_line {line : List UInt8} (h : newline ∉ line) (pos lineStart : ℕ)
    (data : List UInt8) :
    scanLines pos lineStart (line ++ data) = scanLines (pos + line.length) lineStart data := by
  induction line generalizing pos with
  | nil => rfl
  | cons b line ih =>
    rw [List.mem_cons, not_or] at h
    rw [List.cons_append, scanLines, if_neg (Ne.symm h.1), ih h.2, List.length_cons]
    congr 1
    omega

/-- A scan finds the intervals of the lines, and the start of what is behind them. -/
theorem scanLines_join (hlines : ∀ line ∈ lines, newline ∉ line) {rest : List UInt8}
    (hrest : newline ∉ rest) (pos : ℕ) :
    scanLines pos pos (join newline lines rest) =
      (bounds pos lines, pos + (join newline lines []).length) := by
  induction lines generalizing pos with
  | nil =>
    have hscan := scanLines_line hrest pos pos []
    rw [List.append_nil] at hscan
    rw [join_nil, join_nil, hscan]
    rfl
  | cons line lines ih =>
    obtain ⟨hline, hlines⟩ := List.forall_mem_cons.mp hlines
    rw [join_cons, join_cons, scanLines_line hline, scanLines, if_pos rfl, ih hlines]
    simp only [bounds, List.length_append, List.length_cons]
    congr 1
    omega

theorem scanLines_append (pos lineStart : ℕ) (xs ys : List UInt8) :
    scanLines pos lineStart (xs ++ ys) =
      ((scanLines pos lineStart xs).1 ++
          (scanLines (pos + xs.length) (scanLines pos lineStart xs).2 ys).1,
        (scanLines (pos + xs.length) (scanLines pos lineStart xs).2 ys).2) := by
  induction xs generalizing pos lineStart with
  | nil => rfl
  | cons b xs ih =>
    have hpos : pos + (b :: xs).length = pos + 1 + xs.length := by
      rw [List.length_cons]
      omega
    rw [List.cons_append, scanLines, scanLines, hpos]
    split_ifs with hb
    · rw [ih]
      rfl
    · rw [ih]

/-- Where a line begins does not matter once its beginning is lost. -/
theorem scanLines_of_lost {s s' : ℕ} (hs : s < o) (hs' : s' < o) (pos : ℕ) (data : List UInt8) :
    (scanLines pos s data).1.dropWhile (fun line => line.1 < o) =
        (scanLines pos s' data).1.dropWhile (fun line => line.1 < o) ∧
      max (scanLines pos s data).2 o = max (scanLines pos s' data).2 o := by
  induction data generalizing pos with
  | nil =>
    rw [scanLines, scanLines]
    exact ⟨rfl, by omega⟩
  | cons b data ih =>
    rw [scanLines, scanLines]
    split_ifs with hb
    · refine ⟨?_, rfl⟩
      rw [List.dropWhile_cons_of_pos (by simpa using hs),
        List.dropWhile_cons_of_pos (by simpa using hs')]
    · exact ih (pos + 1)

/-- Lines begin one behind the other. -/
theorem bounds_sorted (pos : ℕ) (lines : List (List UInt8)) :
    (bounds pos lines).Pairwise (fun x y => x.1 ≤ y.1) ∧ ∀ x ∈ bounds pos lines, pos ≤ x.1 := by
  induction lines generalizing pos with
  | nil => exact ⟨.nil, nofun⟩
  | cons line lines ih =>
    obtain ⟨hsorted, hle⟩ := ih (pos + line.length + 1)
    refine ⟨List.pairwise_cons.mpr ⟨fun x hx => ?_, hsorted⟩, ?_⟩
    · exact le_trans (by show pos ≤ pos + line.length + 1; omega) (hle x hx)
    · rintro x (_ | ⟨_, hx⟩)
      · exact le_rfl
      · exact le_trans (by omega) (hle x hx)

/-- Every line begins before what is behind the lines. -/
theorem scanLines_le {s : ℕ} (hs : s ≤ pos) (data : List UInt8) :
    ∀ x ∈ (scanLines pos s data).1, x.1 ≤ (scanLines pos s data).2 := by
  have hstart : ∀ {pos s : ℕ}, s ≤ pos → ∀ data, s ≤ (scanLines pos s data).2 := by
    intro pos s hs data
    induction data generalizing pos s with
    | nil => exact le_rfl
    | cons b data ih =>
      rw [scanLines]
      split_ifs
      · exact le_trans (by omega) (ih (le_refl (pos + 1)))
      · exact ih (by omega)
  induction data generalizing pos s with
  | nil => exact nofun
  | cons b data ih =>
    rw [scanLines]
    split_ifs
    · rintro x (_ | ⟨_, hx⟩)
      · exact le_trans (by show s ≤ pos + 1; omega) (hstart (le_refl (pos + 1)) data)
      · exact ih le_rfl x hx
    · exact ih (by omega)

/-! ## The index -/

/-- The number of lines that begin before the offset `o`. -/
def lost (o : ℕ) (index : List (ℕ × ℕ)) : ℕ := (index.takeWhile fun line => line.1 < o).length

/-- The number of lines that are missing at the start of the index: those that are lost, and those
above its limit. -/
def skipped (o : ℕ) (maxLineIndex : Option ℕ) (index : List (ℕ × ℕ)) : ℕ :=
  max (lost o index) (match maxLineIndex with
    | some m => index.length - m
    | none => 0)

theorem lost_le_length (o : ℕ) (index : List (ℕ × ℕ)) : lost o index ≤ index.length :=
  (List.takeWhile_prefix _).length_le

theorem skipped_le_length (o : ℕ) (maxLineIndex : Option ℕ) (index : List (ℕ × ℕ)) :
    skipped o maxLineIndex index ≤ index.length := by
  have h := lost_le_length o index
  unfold skipped
  split <;> omega

/-- More lines are lost later, of a longer log. -/
theorem lost_mono {o' : ℕ} (ho : o ≤ o') (index index' : List (ℕ × ℕ)) :
    lost o index ≤ lost o' (index ++ index') := by
  induction index with
  | nil => exact Nat.zero_le _
  | cons x index ih =>
    rw [lost, lost, List.cons_append]
    by_cases hx : x.1 < o
    · rw [List.takeWhile_cons_of_pos (by simpa using hx),
        List.takeWhile_cons_of_pos (by simpa using hx.trans_le ho)]
      exact Nat.succ_le_succ ih
    · rw [List.takeWhile_cons_of_neg (by simpa using hx)]
      exact Nat.zero_le _

/-- Of sorted lines the lost ones are at the start, also when some are missing there. -/
theorem dropWhile_drop {index : List (ℕ × ℕ)} (h : index.Pairwise (fun x y => x.1 ≤ y.1))
    (o k : ℕ) :
    (index.drop k).dropWhile (fun line => line.1 < o) = index.drop (max k (lost o index)) := by
  induction index generalizing k with
  | nil => simp
  | cons x index ih =>
    obtain ⟨hx, hindex⟩ := List.pairwise_cons.mp h
    have htail := ih hindex
    by_cases hlost : x.1 < o
    · have hcount : lost o (x :: index) = lost o index + 1 := by
        rw [lost, List.takeWhile_cons_of_pos (by simpa using hlost)]
        rfl
      rw [hcount]
      match k with
      | 0 =>
        rw [List.drop_zero, List.dropWhile_cons_of_pos (by simpa using hlost),
          max_eq_right (Nat.zero_le _), List.drop_succ_cons]
        have hall := htail 0
        rwa [List.drop_zero, max_eq_right (Nat.zero_le _)] at hall
      | k + 1 => rw [List.drop_succ_cons, htail, Nat.add_max_add_right, List.drop_succ_cons]
    · have hnone : ∀ y ∈ x :: index, ¬ y.1 < o := by
        rintro y (_ | ⟨_, hy⟩)
        · exact hlost
        · exact fun hlt => hlost (lt_of_le_of_lt (hx y hy) hlt)
      have hcount : lost o (x :: index) = 0 := by
        rw [lost, List.takeWhile_cons_of_neg (by simpa using hlost)]
        rfl
      rw [hcount, max_eq_left (Nat.zero_le _), List.dropWhile_eq_self_iff]
      intro hpos
      have hmem := List.mem_of_mem_drop (List.getElem_mem hpos)
      simpa using hnone _ hmem

/-- The index of a buffer is that of the complete lines of a log without the first ones, and the
line being written begins where it does in the log, or where the retained bytes begin. -/
structure Indexes (r : ContinuousRingBuffer) (log : List UInt8) : Prop where
  lineIndices : r.lineIndices = (scanLines 0 0 log).1.drop
    (skipped r.logStartOffset r.maxLineIndex (scanLines 0 0 log).1)
  currentLineStart : r.currentLineStart = max (scanLines 0 0 log).2 r.logStartOffset

/-- The lines of a log are sorted. -/
theorem scanLines_sorted (log : List UInt8) :
    (scanLines 0 0 log).1.Pairwise (fun x y => x.1 ≤ y.1) := by
  obtain ⟨hlines, hrest⟩ := notMem_cut newline log
  rw [← join_cut newline log, scanLines_join hlines hrest]
  exact (bounds_sorted 0 _).1

/-- What a write puts into the index. -/
theorem writeBytes_index (hne : data ≠ []) :
    let retained :=
      (r.lineIndices ++ (scanLines r.cumulativeBytes r.currentLineStart data).1).dropWhile
      fun line => line.1 < (r.writeBytes data).logStartOffset
    (r.writeBytes data).lineIndices = (match r.maxLineIndex with
      | some m => retained.drop (retained.length - m)
      | none => retained) ∧
    (r.writeBytes data).currentLineStart =
      max (scanLines r.cumulativeBytes r.currentLineStart data).2
        (r.writeBytes data).logStartOffset ∧
    (r.writeBytes data).maxLineIndex = r.maxLineIndex := by
  have hempty : data.isEmpty = false := by simpa using hne
  simp only [ContinuousRingBuffer.writeBytes, hempty]
  exact ⟨rfl, rfl, rfl⟩

/-- The index after a write is that of the longer log. -/
theorem Indexes.writeBytes (hrep : r.Represents log) (h : r.Indexes log) (data : List UInt8) :
    (r.writeBytes data).Indexes (log ++ data) := by
  rcases eq_or_ne data [] with rfl | hne
  · rwa [writeBytes_nil, List.append_nil]
  have hpos : 0 < data.length := List.length_pos_iff.mpr hne
  obtain ⟨hlines, hcurrent, hmax⟩ := writeBytes_index (r := r) hne
  have hoffset := (writeBytes_offsets (r := r) hne).2
  have hstart := hrep.start
  rw [hrep.cumulative] at hoffset hlines hcurrent
  generalize ho' : (r.writeBytes data).logStartOffset = o' at hlines hcurrent hoffset
  -- The lines that a scan of the whole log finds.
  have hscan : scanLines 0 0 (log ++ data) =
      ((scanLines 0 0 log).1 ++ (scanLines log.length (scanLines 0 0 log).2 data).1,
        (scanLines log.length (scanLines 0 0 log).2 data).2) := by
    rw [scanLines_append, Nat.zero_add]
  have hsorted := scanLines_sorted (log ++ data)
  have hle : ∀ x ∈ (scanLines 0 0 log).1, x.1 ≤ (scanLines 0 0 log).2 := scanLines_le le_rfl log
  obtain ⟨hindex, htail⟩ := h
  rw [hscan] at hsorted
  have hskip := skipped_le_length r.logStartOffset r.maxLineIndex (scanLines 0 0 log).1
  have hmono : ∀ index', lost r.logStartOffset (scanLines 0 0 log).1 ≤
      lost o' ((scanLines 0 0 log).1 ++ index') := lost_mono (by omega) _
  -- What remains of the old index and the new lines, whether or not the start of the line being
  -- written was lost.
  have hretained : ((r.lineIndices ++ (scanLines log.length r.currentLineStart data).1).dropWhile
        fun line => line.1 < o') =
      ((scanLines 0 0 log).1 ++ (scanLines log.length (scanLines 0 0 log).2 data).1).drop
        (max (skipped r.logStartOffset r.maxLineIndex (scanLines 0 0 log).1)
          (lost o' ((scanLines 0 0 log).1 ++
            (scanLines log.length (scanLines 0 0 log).2 data).1))) ∧
      max (scanLines log.length r.currentLineStart data).2 o' =
        max (scanLines log.length (scanLines 0 0 log).2 data).2 o' := by
    rw [← dropWhile_drop hsorted, List.drop_append_of_le_length hskip, ← hindex]
    rcases lt_or_ge (scanLines 0 0 log).2 r.logStartOffset with hlost | hkept
    · have hall : lost r.logStartOffset (scanLines 0 0 log).1 = (scanLines 0 0 log).1.length := by
        rw [lost, List.takeWhile_eq_self_iff.mpr]
        intro x hx
        simpa using lt_of_le_of_lt (hle x hx) hlost
      have hnil : r.lineIndices = [] := by
        rw [hindex, List.drop_eq_nil_iff]
        exact le_trans hall.ge (le_max_left _ _)
      rw [htail, max_eq_right hlost.le, hnil, List.nil_append, List.nil_append]
      exact scanLines_of_lost (by omega) (by omega) log.length data
    · rw [htail, max_eq_left hkept]
      exact ⟨rfl, rfl⟩
  obtain ⟨hretained, hline⟩ := hretained
  rw [hretained] at hlines
  have hindex' := hmono (scanLines log.length (scanLines 0 0 log).2 data).1
  have hle' := lost_le_length o'
    ((scanLines 0 0 log).1 ++ (scanLines log.length (scanLines 0 0 log).2 data).1)
  refine ⟨?_, ?_⟩
  · rw [hlines, hmax, ho', hscan]
    unfold skipped at hskip ⊢
    simp only [List.length_append] at hle' ⊢
    match r.maxLineIndex with
    | some m =>
      simp only [List.drop_drop, List.length_drop, List.length_append] at hskip ⊢
      congr 1
      omega
    | none =>
      simp only at hskip ⊢
      congr 1
      omega
  · rw [hcurrent, hline, ho', hscan]

theorem Indexes.nil (hlines : r.lineIndices = [])
    (hcurrent : r.currentLineStart = r.logStartOffset) : r.Indexes [] where
  lineIndices := hlines.trans List.drop_nil.symm
  currentLineStart := hcurrent.trans (Nat.zero_max _).symm

/-- The index follows the log through every operation. -/
theorem Indexes.apply (hrep : r.Represents log) (h : r.Indexes log) (op : LogOp) :
    (r.apply op).Indexes (LogOp.extend log op) := by
  match op with
  | .writeBytes data => exact h.writeBytes hrep data
  | .writeLine line =>
    simp only [ContinuousRingBuffer.apply, LogOp.extend, lineBytes, writeLine]
    split
    · exact h.writeBytes hrep _
    · rw [← List.append_assoc]
      exact (h.writeBytes hrep _).writeBytes (hrep.writeBytes _) _
  | .clear => exact .nil rfl rfl

/-- After any operations the index is that of the complete lines of the log. -/
theorem indexes_run (ops : List LogOp) :
    (ops.foldl ContinuousRingBuffer.apply (create capacity maxLines)).Indexes (history ops) := by
  have hrun : ∀ {r : ContinuousRingBuffer} {log : List UInt8}, r.Represents log → r.Indexes log →
      (ops.foldl ContinuousRingBuffer.apply r).Indexes (ops.foldl LogOp.extend log) := by
    induction ops with
    | nil => exact fun _ h => h
    | cons op ops ih => exact fun hrep h => ih (hrep.apply op) (h.apply hrep op)
  have hrep : (create capacity maxLines).Represents [] := by
    cases maxLines <;> exact .nil rfl rfl
  apply hrun hrep
  cases maxLines <;> exact .nil rfl rfl

/-! ## The lines that are selected -/

/-- The last entries of a list, at most `limit` of them. -/
def lastEntries {α : Type*} (limit : Option ℕ) (xs : List α) : List α :=
  match limit with
  | some n => xs.drop (xs.length - n)
  | none => xs

/-- All readable lines: the indexed ones, and the one being written. -/
def entries (r : ContinuousRingBuffer) : List (ℕ × ℕ) :=
  r.lineIndices ++
    if r.currentLineStart < r.cumulativeBytes then [(r.currentLineStart, r.cumulativeBytes)] else []

/-- The selection takes the last entries. -/
theorem selectLines_eq (r : ContinuousRingBuffer) (limit : Option ℕ) :
    r.selectLines limit = lastEntries limit r.entries := by
  have hcount : r.lineCount = r.entries.length := by
    rw [lineCount, entries, List.length_append]
    split_ifs <;> rfl
  obtain ⟨take, htake, hlimit, hlast⟩ : ∃ take, take ≤ r.entries.length ∧
      min (limit.getD r.entries.length) r.entries.length = take ∧
      lastEntries limit r.entries = r.entries.drop (r.entries.length - take) := by
    refine ⟨_, min_le_right _ _, rfl, ?_⟩
    match limit with
    | some n =>
      rw [lastEntries, Option.getD_some]
      congr 1
      omega
    | none => rw [lastEntries, Option.getD_none, min_self, Nat.sub_self, List.drop_zero]
  rw [hlast, selectLines]
  simp only [hcount, hlimit]
  rw [entries] at htake ⊢
  split_ifs at htake ⊢ with htail hroom hroom
  · rw [List.length_append, List.length_singleton] at htake ⊢
    obtain ⟨-, hroom⟩ := hroom
    rw [List.length_append, List.length_singleton, List.length_take, List.length_drop] at hroom
    rw [List.take_of_length_le (by rw [List.length_drop]; omega),
      List.drop_append_of_le_length (by omega)]
    congr 2
    omega
  · rw [List.length_append, List.length_singleton] at htake hroom ⊢
    rw [not_and, List.length_take, List.length_drop] at hroom
    have hnone : take = 0 := by
      have hfull := hroom htail
      omega
    rw [hnone, List.take_zero, List.drop_of_length_le (by simp)]
  · exact absurd hroom.1 htail
  · rw [List.append_nil] at htake ⊢
    rw [List.take_of_length_le (by rw [List.length_drop]; omega)]
    congr 1
    omega

/-! ## What the intervals hold -/

/-- The intervals of lines from the offset `s` on, and of what is behind them. -/
def entriesFrom (s : ℕ) (lines : List (List UInt8)) (rest : List UInt8) : List (ℕ × ℕ) :=
  bounds s lines ++
    if rest = [] then []
    else [(s + (join newline lines []).length, s + (join newline lines rest).length)]

/-- The contents of lines without their terminators, and what is behind them. -/
def contents (lines : List (List UInt8)) (rest : List UInt8) : List (List UInt8) :=
  lines.map (chop 13) ++ if rest = [] then [] else [rest]

/-- The complete lines of a log whose first byte is retained, the last ones that the index has room
for, and the retained part of the unfinished line, without their terminators. -/
def retainedEntries (capacity : ℕ) (maxLineIndex : Option ℕ) (log : List UInt8) :
    List (List UInt8) :=
  let oldest := log.length - capacity
  let retained := (withOffsets 0 (cut newline log).1).filter fun line => oldest ≤ line.1
  contents (lastEntries maxLineIndex (retained.map (·.2))) (lastBytes capacity (cut newline log).2)

theorem length_bounds (s : ℕ) (lines : List (List UInt8)) : (bounds s lines).length =
    lines.length := by
  induction lines generalizing s with
  | nil => rfl
  | cons line lines ih => rw [bounds, List.length_cons, List.length_cons, ih]

theorem length_join_cons (line : List UInt8) (lines : List (List UInt8)) (rest : List UInt8) :
    (join newline (line :: lines) rest).length =
    line.length + 1 + (join newline lines rest).length := by
  rw [join_cons, List.length_append, List.length_cons]
  omega

theorem bounds_drop (s k : ℕ) (lines : List (List UInt8)) :
    (bounds s lines).drop k =
    bounds (s + (join newline (lines.take k) []).length) (lines.drop k) := by
  induction lines generalizing s k with
  | nil => simp [bounds]
  | cons line lines ih =>
    match k with
    | 0 => rfl
    | k + 1 =>
      rw [bounds, List.drop_succ_cons, ih, List.take_succ_cons, List.drop_succ_cons,
        length_join_cons]
      congr 1
      omega

/-- The last intervals are those of the last lines. -/
theorem entriesFrom_drop {j : ℕ} (hj : j ≤ lines.length) (s : ℕ) (rest : List UInt8) :
    (entriesFrom s lines rest).drop j =
      entriesFrom (s + (join newline (lines.take j) []).length) (lines.drop j) rest := by
  have hsplit : ∀ rest, (join newline lines rest).length = (join newline (lines.take j) []).length +
      (join newline (lines.drop j) rest).length := by
    intro rest
    conv_lhs => rw [← List.take_append_drop j lines, join_append]
    rw [← List.length_append, ← join_append_rest, List.nil_append]
  rw [entriesFrom, entriesFrom, List.drop_append_of_le_length (by rwa [length_bounds]), bounds_drop,
    hsplit, hsplit, Nat.add_assoc, Nat.add_assoc]

/-- The retained lines are the last ones. -/
theorem filter_withOffsets (o pos : ℕ) (lines : List (List UInt8)) :
    ((withOffsets pos lines).filter fun line => o ≤ line.1).map (·.2) =
      lines.drop (lost o (bounds pos lines)) := by
  induction lines generalizing pos with
  | nil => rfl
  | cons line lines ih =>
    rw [withOffsets, bounds]
    by_cases hlost : pos < o
    · have hcount : lost o ((pos, pos + line.length + 1) :: bounds (pos + line.length + 1) lines) =
          lost o (bounds (pos + line.length + 1) lines) + 1 := by
        rw [lost, List.takeWhile_cons_of_pos (by simpa using hlost)]
        rfl
      rw [List.filter_cons_of_neg (by simpa using hlost), hcount, List.drop_succ_cons, ih]
    · have hcount : ∀ pos lines, o ≤ pos → lost o (bounds pos lines) = 0 := by
        intro pos lines hpos
        match lines with
        | [] => rfl
        | line :: lines =>
          rw [bounds, lost, List.takeWhile_cons_of_neg (by simpa using hpos)]
          rfl
      have hpos := not_lt.mp hlost
      have hhead : lost o ((pos, pos + line.length + 1) :: bounds (pos + line.length + 1) lines) =
          0 := hcount pos (line :: lines) hpos
      rw [List.filter_cons_of_pos (by simpa using hpos), List.map_cons, ih,
        hcount _ lines (by omega), hhead]
      rfl

/-- The scan of a log finds its complete lines. -/
theorem scanLines_log (log : List UInt8) :
    scanLines 0 0 log =
      (bounds 0 (cut newline log).1, log.length - (cut newline log).2.length) := by
  obtain ⟨hlines, hrest⟩ := notMem_cut newline log
  have hjoin := join_cut newline log
  have hlength : (join newline (cut newline log).1 []).length =
      log.length - (cut newline log).2.length := by
    have happend : join newline (cut newline log).1 [] ++ (cut newline log).2 = log := by
      rw [← join_append_rest, List.nil_append, hjoin]
    have hlength := congrArg List.length happend
    rw [List.length_append] at hlength
    omega
  conv_lhs => rw [← hjoin, scanLines_join hlines hrest, Nat.zero_add, hlength]

/-- The intervals of a buffer hold the lines of the log that the index has, and the retained part of
the unfinished one. They are a window at the end of the log. -/
theorem exists_window (hrep : r.Represents log) (h : r.Indexes log) {rest : List UInt8}
    (hlines : lines = (cut newline log).1.drop
      (skipped r.logStartOffset r.maxLineIndex (bounds 0 (cut newline log).1)))
    (hrest : rest = lastBytes r.capacity (cut newline log).2) :
    ∃ s, r.logStartOffset ≤ s ∧ log.drop s = join newline lines rest ∧
      r.entries = entriesFrom s lines rest := by
  obtain ⟨hindex, hcurrent⟩ := h
  rw [scanLines_log] at hindex hcurrent
  simp only at hindex hcurrent
  have hlog := join_cut newline log
  have hstart := hrep.start
  have hcapacity := r.capacity_pos
  -- No interval of the index begins before the retained bytes.
  have hkept : ∀ x ∈ (r.lineIndices).head?, r.logStartOffset ≤ x.1 := by
    intro x hx
    have hsorted := (bounds_sorted 0 (cut newline log).1).1
    have hlost : lost r.logStartOffset (bounds 0 (cut newline log).1) ≤
        skipped r.logStartOffset r.maxLineIndex (bounds 0 (cut newline log).1) := le_max_left _ _
    have hself : r.lineIndices.dropWhile (fun line => line.1 < r.logStartOffset) =
        r.lineIndices := by
      rw [hindex, dropWhile_drop hsorted, max_eq_left hlost]
    have hhead := List.head?_dropWhile_not (fun line => decide (line.1 < r.logStartOffset))
      r.lineIndices
    rw [hself, hx] at hhead
    simpa using hhead
  generalize skipped r.logStartOffset r.maxLineIndex (bounds 0 (cut newline log).1) = k at *
  generalize (cut newline log).2 = tail at *
  generalize (cut newline log).1 = all at *
  have hrestLength := length_lastBytes r.capacity tail
  rw [← hrest] at hrestLength
  -- The offset at which the lines begin.
  have hsplit : log = join newline (all.take k) [] ++ join newline lines tail := by
    rw [← join_append_rest, List.nil_append, ← join_append, hlines, List.take_append_drop, hlog]
  have hlength := congrArg List.length hsplit
  rw [List.length_append] at hlength
  rw [bounds_drop, Nat.zero_add, ← hlines] at hindex
  by_cases hnil : lines = []
  · refine ⟨log.length - rest.length, by omega, ?_, ?_⟩
    · rw [hnil, join_nil] at hsplit hlength ⊢
      have hdrop : log.length - rest.length =
          (join newline (all.take k) []).length + (tail.length - r.capacity) := by omega
      rw [hdrop]
      conv_lhs => rw [hsplit]
      rw [List.drop_append, List.drop_of_length_le (by omega), List.nil_append,
        Nat.add_sub_cancel_left, hrest, lastBytes]
    · rw [hnil, join_nil] at hlength
      rw [entries, hindex, hnil, hcurrent, hrep.cumulative, entriesFrom, join_nil, join_nil]
      congr 1
      by_cases hempty : rest = []
      · rw [hempty, List.length_nil] at hrestLength
        rw [if_neg (by omega), if_pos hempty]
      · have hpos := List.length_pos_iff.mpr hempty
        rw [if_pos (by omega), if_neg hempty, List.length_nil]
        congr 2 <;> omega
  · obtain ⟨line, others, hcons⟩ := List.exists_cons_of_ne_nil hnil
    have hfirst : r.logStartOffset ≤ (join newline (all.take k) []).length := by
      rw [hindex, hcons] at hkept
      exact hkept _ rfl
    -- The unfinished line is behind a retained one, so that all of it is retained.
    have htail : ∀ rest, (join newline lines rest).length =
        (join newline lines []).length + rest.length := by
      intro rest
      rw [← List.length_append, ← join_append_rest, List.nil_append]
    have hwhole : rest = tail := by
      rw [hrest, lastBytes_of_length_le]
      rw [htail] at hlength
      omega
    rw [hwhole]
    refine ⟨(join newline (all.take k) []).length, hfirst, ?_, ?_⟩
    · conv_lhs => rw [hsplit]
      exact List.drop_left
    · rw [entries, hindex, hcurrent, hrep.cumulative, entriesFrom]
      rw [htail] at hlength
      congr 1
      by_cases hempty : tail = []
      · rw [hempty, List.length_nil] at hlength ⊢
        rw [if_neg (by omega), if_pos rfl]
      · have hpos := List.length_pos_iff.mpr hempty
        rw [if_pos (by omega), if_neg hempty, htail tail]
        congr 2
        all_goals omega

/-! ## Reading -/

/-- The slices of the intervals of lines are their contents. -/
theorem sliceLines_entriesFrom (first : ℕ) {rest : List UInt8} (hrest : newline ∉ rest)
    (before : List UInt8) :
    sliceLines first (before ++ join newline lines rest)
        (entriesFrom (first + before.length) lines rest) = contents lines rest := by
  induction lines generalizing before with
  | nil =>
    rw [entriesFrom, contents, join_nil, join_nil, bounds, List.map_nil, List.nil_append,
      List.nil_append]
    by_cases hempty : rest = []
    · rw [if_pos hempty, if_pos hempty]
      rfl
    · have hlast : rest.getLast? ≠ some newline := fun h => hrest (List.mem_of_getLast? h)
      have hslice : ((before ++ rest).take (min (first + before.length + rest.length - first)
          (before ++ rest).length)).drop (first + before.length + 0 - first) = rest := by
        rw [List.take_of_length_le (by rw [List.length_append]; omega), Nat.add_zero,
          Nat.add_sub_cancel_left, List.drop_left]
      rw [if_neg hempty, if_neg hempty, List.length_nil, sliceLines, List.filterMap_cons]
      simp only [hslice, if_neg hlast, List.filterMap_nil]
      rw [if_neg (by rw [List.length_append]; omega)]
  | cons line lines ih =>
    have hcons : entriesFrom (first + before.length) (line :: lines) rest =
        (first + before.length, first + before.length + line.length + 1) ::
          entriesFrom (first + (before ++ line ++ [newline]).length) lines rest := by
      have hoffset : first + (before ++ line ++ [newline]).length =
          first + before.length + line.length + 1 := by
        simp only [List.length_append, List.length_singleton]
        omega
      rw [hoffset, entriesFrom, entriesFrom, bounds, length_join_cons, length_join_cons,
        List.cons_append]
      congr 5
      all_goals omega
    have hbuffer : before ++ join newline (line :: lines) rest =
        before ++ line ++ [newline] ++ join newline lines rest := by
      rw [join_cons]
      simp
    have hslice : ((before ++ line ++ [newline] ++ join newline lines rest).take
        (min (first + before.length + line.length + 1 - first)
          (before ++ line ++ [newline] ++ join newline lines rest).length)).drop
        (first + before.length - first) = line ++ [newline] := by
      have htake : min (first + before.length + line.length + 1 - first)
          (before ++ line ++ [newline] ++ join newline lines rest).length =
            (before ++ line ++ [newline]).length := by
        simp only [List.length_append, List.length_singleton]
        omega
      rw [htake, List.take_left, Nat.add_sub_cancel_left, List.append_assoc, List.drop_left]
    have hrest' := ih (before ++ line ++ [newline])
    rw [hcons, hbuffer, sliceLines, List.filterMap_cons]
    rw [sliceLines] at hrest'
    simp only [hslice, hrest', List.getLast?_concat, if_true, List.dropLast_concat]
    rw [if_neg (by simp only [List.length_append, List.length_singleton]; omega)]
    rfl

/-- Where valid bytes are sliced and bytes that are no text are decoded and split again, the lines
are the same. -/
def PathsAgree (r : ContinuousRingBuffer) (limit : Option ℕ) : Prop :=
  ∀ firstStart firstEnd selected, r.selectLines limit = (firstStart, firstEnd) :: selected →
    let frozen := r.copyRange firstStart (selected.getLast?.getD (firstStart, firstEnd)).2 []
    (String.fromUTF8? frozen.toByteArray).isSome →
      sliceLines firstStart frozen ((firstStart, firstEnd) :: selected) = lossyLines frozen

/-- Intervals of lines begin with the first line and end behind the last one. -/
theorem entriesFrom_ends {s first last : ℕ} {rest : List UInt8} {selected : List (ℕ × ℕ)}
    (h : entriesFrom s lines rest = (first, last) :: selected) :
    first = s ∧ (selected.getLast?.getD (first, last)).2 = s + (join newline lines rest).length ∧
      join newline lines rest ≠ [] := by
  have hlast : ((entriesFrom s lines rest).getLast?.map Prod.snd) =
      some (s + (join newline lines rest).length) := by
    by_cases hempty : rest = []
    · rw [entriesFrom, hempty, if_pos rfl, List.append_nil] at h ⊢
      clear hempty
      induction lines generalizing s first last selected with
      | nil => cases h
      | cons line lines ih =>
        rw [bounds, length_join_cons]
        match lines with
        | [] => rfl
        | line' :: lines' =>
          rw [bounds, List.getLast?_cons_cons, ← bounds, ih rfl]
          congr 1
          omega
    · rw [entriesFrom, if_neg hempty, List.getLast?_append, List.getLast?_singleton]
      rfl
  rw [h, List.getLast?_cons, Option.map_some, Option.some.injEq] at hlast
  refine ⟨?_, hlast, ?_⟩
  · match lines with
    | [] =>
      rw [entriesFrom, bounds, List.nil_append] at h
      split_ifs at h
      exact (Prod.mk.inj (List.cons.inj h).1).1.symm
    | _ :: _ => exact (Prod.mk.inj (List.cons.inj h).1).1.symm
  · match lines with
    | [] =>
      intro hnil
      rw [join_nil] at hnil
      rw [entriesFrom, bounds, List.nil_append, if_pos hnil] at h
      cases h
    | line :: lines =>
      rw [join_cons]
      exact List.append_ne_nil_of_right_ne_nil _ (List.cons_ne_nil _ _)

/-- A selection of lines is read as their contents, on both paths. -/
theorem readLineSlices_of_select (hrep : r.Represents log) {s : ℕ} {rest : List UInt8}
    {limit : Option ℕ} (hs : r.logStartOffset ≤ s) (hdrop : log.drop s = join newline lines rest)
    (hlines : ∀ line ∈ lines, newline ∉ line) (hrest : newline ∉ rest)
    (hselect : r.selectLines limit = entriesFrom s lines rest) :
    r.readLineSlices limit =
        (contents lines rest).map (fun content => Text.utf8Chars (Text.lossy content)) ∧
      r.PathsAgree limit := by
  -- The bytes of the window.
  have hfrozen : r.copyRange s (s + (join newline lines rest).length) [] =
      join newline lines rest := by
    rw [hrep.copyRange_eq, ← hrep.start, max_eq_left hs, List.nil_append, ← hdrop,
      List.length_drop, List.take_of_length_le (by omega)]
  have hslice : sliceLines s (join newline lines rest) (entriesFrom s lines rest) =
      contents lines rest := sliceLines_entriesFrom s hrest []
  have hlossy : lossyLines (join newline lines rest) =
      (contents lines rest).map (fun content => Text.utf8Chars (Text.lossy content)) := by
    have hsplit : Text.lines (Text.lossy (join newline lines rest)) =
        (contents lines rest).map Text.lossy := Text.lines_lossy_join hlines hrest
    rw [lossyLines, hsplit, List.map_map]
    rfl
  -- Valid bytes are valid line by line.
  have hvalid : (String.fromUTF8? (join newline lines rest).toByteArray).isSome →
      (contents lines rest).map (fun content => Text.utf8Chars (Text.lossy content)) =
        contents lines rest := by
    intro hsome
    obtain ⟨cs, hcs⟩ := Text.exists_of_fromUTF8? hsome
    obtain ⟨hline, htail⟩ := Text.utf8Chars_lossy_of_join hlines hrest hcs
    have hself : ∀ content ∈ contents lines rest,
        Text.utf8Chars (Text.lossy content) = content := by
      intro content hcontent
      rw [contents, List.mem_append, List.mem_map] at hcontent
      obtain ⟨line, hmem, rfl⟩ | hcontent := hcontent
      · exact Text.utf8Chars_lossy_chop (hline line hmem)
      · split_ifs at hcontent
        · exact absurd hcontent List.not_mem_nil
        · rw [List.mem_singleton.mp hcontent, htail]
    conv_rhs => rw [← List.map_id (contents lines rest)]
    exact List.map_congr_left hself
  constructor
  · unfold readLineSlices
    rw [hselect]
    match hentries : entriesFrom s lines rest with
    | [] =>
      have hnone : contents lines rest = [] := by
        rw [← hslice, hentries]
        rfl
      rw [hnone]
      rfl
    | (first, last) :: selected =>
      obtain ⟨rfl, hlast, hne⟩ := entriesFrom_ends hentries
      have hpos := List.length_pos_iff.mpr hne
      simp only [hlast, hfrozen]
      rw [if_neg (by omega), ← hentries, hslice]
      split_ifs with hsome
      · exact (hvalid hsome).symm
      · exact hlossy
  · intro first last selected hfirst
    rw [hselect] at hfirst
    obtain ⟨rfl, hlast, -⟩ := entriesFrom_ends hfirst
    simp only [hlast, hfrozen]
    intro hsome
    rw [← hfirst, hslice, hlossy, hvalid hsome]

/-- The lines of the index are those of the log whose first byte is retained, up to its limit. -/
theorem retainedEntries_eq (hrep : r.Represents log) :
    retainedEntries r.capacity r.maxLineIndex log =
      contents ((cut newline log).1.drop
          (skipped r.logStartOffset r.maxLineIndex (bounds 0 (cut newline log).1)))
        (lastBytes r.capacity (cut newline log).2) := by
  have hle := lost_le_length r.logStartOffset (bounds 0 (cut newline log).1)
  rw [length_bounds] at hle
  rw [retainedEntries, ← hrep.start, filter_withOffsets]
  unfold skipped lastEntries
  congr 1
  rw [length_bounds]
  match r.maxLineIndex with
  | some m =>
    simp only [List.length_drop, List.drop_drop]
    congr 1
    omega
  | none => exact congrArg (fun k => (cut newline log).1.drop k) (Nat.max_zero _).symm

theorem create_maxLineIndex :
    (create capacity maxLines).maxLineIndex = maxLines.map fun m => max m 1 := by
  cases maxLines <;> rfl

theorem apply_maxLineIndex (r : ContinuousRingBuffer) (op : LogOp) :
    (r.apply op).maxLineIndex = r.maxLineIndex := by
  have hwrite : ∀ (r : ContinuousRingBuffer) data,
      (r.writeBytes data).maxLineIndex = r.maxLineIndex := by
    intro r data
    rw [ContinuousRingBuffer.writeBytes]
    split <;> rfl
  cases op with
  | writeBytes data => exact hwrite r data
  | writeLine line =>
    simp only [ContinuousRingBuffer.apply, writeLine]
    split
    · exact hwrite _ _
    · rw [hwrite, hwrite]
  | clear => rfl

theorem foldl_apply_maxLineIndex (r : ContinuousRingBuffer) (ops : List LogOp) :
    (ops.foldl ContinuousRingBuffer.apply r).maxLineIndex = r.maxLineIndex := by
  induction ops generalizing r with
  | nil => rfl
  | cons op ops ih => rw [List.foldl_cons, ih, apply_maxLineIndex]

/-- After any operations a ring buffer returns the last lines of the log that it has retained, at
most `limit` of them: the complete ones whose first byte is retained, as many as the index has room
for, and the retained part of the unfinished one, without terminators and decoded. Both ways of
decoding return the same lines. -/
theorem readLineSlices_eq (capacity : ℕ) (maxLines : Option ℕ) (ops : List LogOp)
    (limit : Option ℕ) :
    let r := ops.foldl ContinuousRingBuffer.apply (create capacity maxLines)
    r.readLineSlices limit =
        (lastEntries limit (retainedEntries (max capacity 1) (maxLines.map fun m => max m 1)
          (history ops))).map (fun content => Text.utf8 (Text.fromUtf8Lossy content)) ∧
      r.PathsAgree limit := by
  intro r
  have hrep : r.Represents (history ops) := represents_run ops
  have hindexes : r.Indexes (history ops) := indexes_run ops
  have hcapacity : r.capacity = max capacity 1 := (foldl_apply_capacity ops).trans create_capacity
  have hmax : r.maxLineIndex = maxLines.map fun m => max m 1 :=
    (foldl_apply_maxLineIndex _ ops).trans create_maxLineIndex
  obtain ⟨s, hs, hdrop, hentries⟩ := exists_window hrep hindexes rfl rfl
  obtain ⟨hlines, hrest⟩ := notMem_cut newline (history ops)
  have htext : (fun content => Text.utf8 (Text.fromUtf8Lossy content)) =
      fun content => Text.utf8Chars (Text.lossy content) := by
    funext content
    rw [Text.fromUtf8Lossy_eq, Text.utf8, String.toList_ofList]
  rw [← hcapacity, ← hmax, retainedEntries_eq hrep, htext]
  have hall : ∀ line ∈ (cut newline (history ops)).1.drop
      (skipped r.logStartOffset r.maxLineIndex (bounds 0 (cut newline (history ops)).1)),
      newline ∉ line := fun line hline => hlines line (List.mem_of_mem_drop hline)
  have hpart : newline ∉ lastBytes r.capacity (cut newline (history ops)).2 := fun hmem =>
    hrest (List.mem_of_mem_drop hmem)
  generalize (cut newline (history ops)).1.drop _ = all at *
  generalize lastBytes r.capacity (cut newline (history ops)).2 = rest at *
  -- The last intervals and the last contents begin at the same place.
  have hlength : (entriesFrom s all rest).length = (contents all rest).length ∧
      (contents all rest).length ≤ all.length + 1 := by
    rw [entriesFrom, contents, List.length_append, List.length_append, length_bounds,
      List.length_map]
    split_ifs <;> simp
  obtain ⟨j, hlast, hlast'⟩ : ∃ j, lastEntries limit (entriesFrom s all rest) =
      (entriesFrom s all rest).drop j ∧
        lastEntries limit (contents all rest) = (contents all rest).drop j := by
    cases limit with
    | some n => exact ⟨_, rfl, by rw [lastEntries, hlength.1]⟩
    | none => exact ⟨0, rfl, rfl⟩
  have hselect := selectLines_eq r limit
  rw [hentries, hlast] at hselect
  rw [hlast']
  by_cases hj : j ≤ all.length
  · rw [entriesFrom_drop hj] at hselect
    have hcontents : (contents all rest).drop j = contents (all.drop j) rest := by
      rw [contents, List.drop_append_of_le_length (by rwa [List.length_map]), ← List.map_drop]
      rfl
    have hwindow : (history ops).drop (s + (join newline (all.take j) []).length) =
        join newline (all.drop j) rest := by
      have hsplit : join newline all rest =
          join newline (all.take j) [] ++ join newline (all.drop j) rest := by
        rw [← join_append_rest, List.nil_append, ← join_append, List.take_append_drop]
      rw [← List.drop_drop, hdrop, hsplit, List.drop_left]
    rw [hcontents]
    exact readLineSlices_of_select hrep (by omega) hwindow
      (fun line hline => hall line (List.mem_of_mem_drop hline)) hpart hselect
  · rw [List.drop_of_length_le (by omega)] at hselect ⊢
    refine ⟨?_, ?_⟩
    · rw [readLineSlices, hselect]
      rfl
    · intro first last selected hfirst
      rw [hselect] at hfirst
      cases hfirst

end ContinuousRingBuffer

end Rsupervisord
