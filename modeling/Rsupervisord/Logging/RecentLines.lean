import Rsupervisord.Logging.RingLines
import Rsupervisord.Logging.RingReads

/-!
# Recent lines

A ring buffer to which whole lines are written returns the last ones that fit into it.

* `ContinuousRingBuffer.HoldsLines`: the lines that were written to a ring buffer.
* `ContinuousRingBuffer.fitting`: the last lines that fit into a number of bytes.
* `ContinuousRingBuffer.HoldsLines.readLineSlices`: the lines that are read.
-/

namespace Rsupervisord

open Lines

namespace ContinuousRingBuffer

variable {r : ContinuousRingBuffer} {es : List (List UInt8)} {line : List UInt8}

/-- The lines were written to the buffer since it was empty, each with its newline. -/
structure HoldsLines (r : ContinuousRingBuffer) (es : List (List UInt8)) : Prop where
  whole : ∀ e ∈ es, newline ∉ e
  represents : r.Represents (join newline es [])
  indexes : r.Indexes (join newline es [])

theorem holdsLines_create (capacity : ℕ) (maxLines : Option ℕ) :
    (create capacity maxLines).HoldsLines [] := by
  refine ⟨by simp, ?_, ?_⟩ <;> cases maxLines
  · exact .nil rfl rfl
  · exact .nil rfl rfl
  · exact .nil rfl rfl
  · exact .nil rfl rfl

theorem holdsLines_clear (r : ContinuousRingBuffer) : r.clear.HoldsLines [] :=
  ⟨by simp, .nil rfl rfl, .nil rfl rfl⟩

/-- Bytes that are written piece by piece. -/
theorem writeBytes_pieces {log : List UInt8} (hrep : r.Represents log) (hindexes : r.Indexes log)
    (pieces : List (List UInt8)) :
    (pieces.foldl writeBytes r).Represents (log ++ pieces.flatten) ∧
      (pieces.foldl writeBytes r).Indexes (log ++ pieces.flatten) := by
  induction pieces generalizing r log with
  | nil => simpa using ⟨hrep, hindexes⟩
  | cons piece pieces ih =>
    rw [List.foldl_cons, List.flatten_cons, ← List.append_assoc]
    exact ih (hrep.writeBytes piece) (hindexes.writeBytes hrep piece)

theorem foldl_writeBytes_capacity (r : ContinuousRingBuffer) (pieces : List (List UInt8)) :
    (pieces.foldl writeBytes r).capacity = r.capacity := by
  have h := foldl_apply_capacity (r := r) (pieces.map .writeBytes)
  rwa [List.foldl_map] at h

theorem foldl_writeBytes_maxLineIndex (r : ContinuousRingBuffer) (pieces : List (List UInt8)) :
    (pieces.foldl writeBytes r).maxLineIndex = r.maxLineIndex := by
  have h := foldl_apply_maxLineIndex r (pieces.map .writeBytes)
  rwa [List.foldl_map] at h

/-- A further line, in pieces. -/
theorem HoldsLines.write (h : r.HoldsLines es) (hline : newline ∉ line)
    {pieces : List (List UInt8)} (hpieces : pieces.flatten = line ++ [newline]) :
    (pieces.foldl writeBytes r).HoldsLines (es ++ [line]) := by
  obtain ⟨hrep, hindexes⟩ := writeBytes_pieces h.represents h.indexes pieces
  have hjoin : join newline es [] ++ pieces.flatten = join newline (es ++ [line]) [] := by
    rw [hpieces, join_append, ← join_append_rest, List.nil_append, join_cons, join_nil]
  rw [hjoin] at hrep hindexes
  exact ⟨by simpa [or_imp, forall_and] using ⟨h.whole, hline⟩, hrep, hindexes⟩

/-- The last lines that fit into `capacity` bytes with their newlines. -/
def fitting (capacity : ℕ) : List (List UInt8) → List (List UInt8)
  | [] => []
  | e :: es =>
      if (join newline (e :: es) []).length ≤ capacity then e :: es else fitting capacity es

/-- The lines that are lost are those that do not fit. -/
theorem drop_lost_bounds (capacity pos : ℕ) (es : List (List UInt8)) :
    es.drop (lost (pos + (join newline es []).length - capacity) (bounds pos es)) =
      fitting capacity es := by
  induction es generalizing pos with
  | nil => simp [fitting]
  | cons e es ih =>
    rw [bounds, fitting]
    split_ifs with hfits
    · rw [lost, List.takeWhile_cons_of_neg (by simp only [decide_eq_true_eq]; omega)]
      rfl
    · have hlength := length_join_cons e es []
      have htotal : pos + (join newline (e :: es) []).length - capacity =
          pos + e.length + 1 + (join newline es []).length - capacity := by omega
      rw [htotal, lost, List.takeWhile_cons_of_pos (by simp only [decide_eq_true_eq]; omega),
        List.length_cons, List.drop_succ_cons]
      exact ih _

/-- The lines of the index. -/
theorem drop_skipped_bounds (capacity : ℕ) (maxLineIndex : Option ℕ) (es : List (List UInt8)) :
    es.drop (skipped ((join newline es []).length - capacity) maxLineIndex (bounds 0 es)) =
      lastEntries maxLineIndex (fitting capacity es) := by
  have hlost := drop_lost_bounds capacity 0 es
  rw [Nat.zero_add] at hlost
  have hle := lost_le_length ((join newline es []).length - capacity) (bounds 0 es)
  rw [length_bounds] at hle
  rw [← hlost]
  cases maxLineIndex with
  | none => rw [lastEntries, skipped, Nat.max_zero]
  | some m =>
    rw [lastEntries, skipped, length_bounds, List.length_drop, List.drop_drop]
    congr 1
    omega

/-- The last of the lines that fit are read, at most `limit` of them, each without a carriage return
at its end and decoded. -/
theorem HoldsLines.readLineSlices (h : r.HoldsLines es) (limit : Option ℕ) :
    r.readLineSlices limit =
      (lastEntries limit (lastEntries r.maxLineIndex (fitting r.capacity es))).map
        fun e => Text.utf8 (Text.fromUtf8Lossy (chop 13 e)) := by
  have hcut : cut newline (join newline es []) = (es, []) := cut_join h.whole List.not_mem_nil
  have hlines : lastEntries r.maxLineIndex (fitting r.capacity es) =
      (cut newline (join newline es [])).1.drop (skipped r.logStartOffset r.maxLineIndex
        (bounds 0 (cut newline (join newline es [])).1)) := by
    rw [hcut, h.represents.start, drop_skipped_bounds]
  have hrest : ([] : List UInt8) = lastBytes r.capacity (cut newline (join newline es [])).2 := by
    rw [hcut, lastBytes, List.drop_nil]
  obtain ⟨s, hs, hdrop, hentries⟩ := exists_window h.represents h.indexes hlines hrest
  generalize hall : lastEntries r.maxLineIndex (fitting r.capacity es) = all at *
  have hwhole : ∀ e ∈ all, newline ∉ e := by
    rw [hlines, hcut]
    exact fun e he => h.whole e (List.mem_of_mem_drop he)
  -- The selection begins with one of the lines.
  obtain ⟨j, hj, hlast, hlast'⟩ : ∃ j, j ≤ all.length ∧
      lastEntries limit (entriesFrom s all []) = (entriesFrom s all []).drop j ∧
        lastEntries limit all = all.drop j := by
    have hlength : (entriesFrom s all []).length = all.length := by
      rw [entriesFrom, if_pos rfl, List.append_nil, length_bounds]
    cases limit with
    | none => exact ⟨0, Nat.zero_le _, rfl, rfl⟩
    | some n => exact ⟨all.length - n, Nat.sub_le _ _, by rw [lastEntries, hlength], rfl⟩
  have hselect := selectLines_eq r limit
  rw [hentries, hlast, entriesFrom_drop hj] at hselect
  have htail : (join newline es []).drop (s + (join newline (all.take j) []).length) =
      join newline (all.drop j) [] := by
    have hsplit : join newline all [] =
        join newline (all.take j) [] ++ join newline (all.drop j) [] := by
      rw [← join_append_rest, List.nil_append, ← join_append, List.take_append_drop]
    rw [← List.drop_drop, hdrop, hsplit, List.drop_left]
  rw [hlast', (readLineSlices_of_select h.represents (by omega) htail
    (fun e he => hwhole e (List.mem_of_mem_drop he)) List.not_mem_nil hselect).1, contents,
    if_pos rfl, List.append_nil, List.map_map]
  refine List.map_congr_left fun e _ => ?_
  rw [Text.fromUtf8Lossy_eq, Text.utf8, String.toList_ofList]
  rfl

end ContinuousRingBuffer

end Rsupervisord
