import Mathlib.Data.List.Forall2
import Mathlib.Order.Nat
import Mathlib.Data.Nat.Init
import Rsupervisord.Support.Lines

/-!
# Log pump

`LogPumpBuilder::spawn`: the output of a program is read line by line, but at most a fixed number of
bytes at a time, and each piece is emitted without the terminator at its end.

* `LogPump.readUntil`, `LogPump.chunks`: the loop of the pump.
* `LogPump.PreservesLines`: the chunks are the lines of the input, cut into pieces.
* `LogPump.preservesLines_iff`: the inputs whose lines are preserved.
-/

namespace Rsupervisord

open Lines

/-- `MAX_PUMP_CHUNK_SIZE`. -/
def maxPumpChunkSize : ℕ := 1024 * 1024

namespace LogPump

/-- `read_until` a newline, on at most `limit` bytes: what is read, and what is left of the
input. -/
def readUntil : ℕ → List UInt8 → List UInt8 × List UInt8
  | 0, bytes => ([], bytes)
  | _ + 1, [] => ([], [])
  | limit + 1, b :: bytes =>
      if b = 10 then ([b], bytes)
      else (b :: (readUntil limit bytes).1, (readUntil limit bytes).2)

/-- What is read without a newline at its end and a carriage return before that. -/
def strip (buf : List UInt8) : List UInt8 :=
  if buf.getLast? = some 10 then chop 13 buf.dropLast else buf

theorem readUntil_append (limit : ℕ) (bytes : List UInt8) :
    (readUntil limit bytes).1 ++ (readUntil limit bytes).2 = bytes := by
  fun_induction readUntil limit bytes with
  | case1 bytes => rfl
  | case2 limit => rfl
  | case3 limit bytes => rfl
  | case4 limit b bytes hb ih => rw [List.cons_append, ih]

/-- The loop of the pump: the chunks that it emits. It ends when nothing is read. -/
def chunks (limit : ℕ) (bytes : List UInt8) : List (List UInt8) :=
  if _h : (readUntil limit bytes).1 = [] then []
  else strip (readUntil limit bytes).1 :: chunks limit (readUntil limit bytes).2
termination_by bytes.length
decreasing_by
  have hlength := congrArg List.length (readUntil_append limit bytes)
  have hpos := List.length_pos_iff.mpr _h
  rw [List.length_append] at hlength
  omega

/-- The pieces of a line: none of them is empty, except that of an empty line, nor longer than
`limit`. -/
def IsCut (limit : ℕ) (line : List UInt8) (pieces : List (List UInt8)) : Prop :=
  if line = [] then pieces = [[]]
  else pieces.flatten = line ∧ ∀ piece ∈ pieces, piece ≠ [] ∧ piece.length ≤ limit

/-- The lines of the input without their terminators; the last one may lack its terminator. -/
def inputLines (bytes : List UInt8) : List (List UInt8) :=
  (cut 10 bytes).1.map (chop 13) ++ if (cut 10 bytes).2 = [] then [] else [(cut 10 bytes).2]

/-- The chunks are, line by line, the pieces of the lines of the input. -/
def PreservesLines (limit : ℕ) (bytes : List UInt8) (emitted : List (List UInt8)) : Prop :=
  ∃ pieces, emitted = pieces.flatten ∧ List.Forall₂ (IsCut limit) (inputLines bytes) pieces

/-- The terminator of a line, which is given with a carriage return at its end, does not follow on a
full chunk: neither the newline nor the carriage return before it is the first byte of a further
chunk. -/
def Fits (limit : ℕ) (line : List UInt8) : Prop :=
  (line ≠ [] → line.length % limit ≠ 0) ∧
    (1 < line.length → line.getLast? = some 13 → line.length % limit ≠ 1)

instance (limit : ℕ) (line : List UInt8) : Decidable (Fits limit line) :=
  inferInstanceAs (Decidable (_ ∧ _))

variable {limit : ℕ} {line bytes buf rest : List UInt8}

/-! ## Reading -/

theorem readUntil_line (h : (10 : UInt8) ∉ line) (hlength : line.length < limit)
    (bytes : List UInt8) : readUntil limit (line ++ 10 :: bytes) = (line ++ [10], bytes) := by
  induction line generalizing limit with
  | nil =>
    obtain ⟨n, rfl⟩ := Nat.exists_eq_succ_of_ne_zero (Nat.ne_of_gt hlength)
    rfl
  | cons b line ih =>
    rw [List.mem_cons, not_or] at h
    rw [List.length_cons] at hlength
    obtain ⟨n, rfl⟩ := Nat.exists_eq_succ_of_ne_zero (Nat.ne_of_gt (Nat.zero_lt_of_lt hlength))
    rw [List.cons_append, readUntil, if_neg (Ne.symm h.1), ih h.2 (Nat.lt_of_succ_lt_succ hlength)]
    rfl

/-- As many bytes are read as there may be, when no newline is among them. -/
theorem readUntil_full (h : (10 : UInt8) ∉ line) (bytes : List UInt8) :
    readUntil line.length (line ++ bytes) = (line, bytes) := by
  induction line with
  | nil => rfl
  | cons b line ih =>
    rw [List.mem_cons, not_or] at h
    rw [List.length_cons, List.cons_append, readUntil, if_neg (Ne.symm h.1), ih h.2]

/-- All bytes are read at the end of the input. -/
theorem readUntil_last (h : (10 : UInt8) ∉ line) (hlength : line.length ≤ limit) :
    readUntil limit line = (line, []) := by
  induction line generalizing limit with
  | nil => cases limit <;> rfl
  | cons b line ih =>
    rw [List.mem_cons, not_or] at h
    rw [List.length_cons] at hlength
    obtain ⟨n, rfl⟩ := Nat.exists_eq_succ_of_ne_zero (Nat.ne_of_gt (Nat.zero_lt_of_lt hlength))
    rw [readUntil, if_neg (Ne.symm h.1), ih h.2 (Nat.le_of_succ_le_succ hlength)]

theorem mem_of_mem_chop {b c : UInt8} (h : b ∈ chop c line) : b ∈ line := by
  unfold chop at h
  split_ifs at h
  · exact List.dropLast_subset line h
  · exact h

theorem strip_line (line : List UInt8) : strip (line ++ [10]) = chop 13 line := by
  rw [strip, List.getLast?_concat, if_pos rfl, List.dropLast_concat]

theorem strip_of_notMem (h : (10 : UInt8) ∉ line) : strip line = line := by
  rw [strip, if_neg fun hlast => h (List.mem_of_getLast? hlast)]

theorem chunks_nil (limit : ℕ) : chunks limit [] = [] := by
  rw [chunks, readUntil_last List.not_mem_nil (Nat.zero_le _), dif_pos rfl]

theorem chunks_of_read (h : readUntil limit bytes = (buf, rest)) (hbuf : buf ≠ []) :
    chunks limit bytes = strip buf :: chunks limit rest := by
  rw [chunks, h, dif_neg hbuf]

/-- A read ends with its first newline. -/
theorem readUntil_cases (limit : ℕ) (bytes : List UInt8) : ∃ line, (10 : UInt8) ∉ line ∧
    ((readUntil limit bytes).1 = line ∨ (readUntil limit bytes).1 = line ++ [10]) := by
  fun_induction readUntil limit bytes with
  | case1 bytes => exact ⟨[], List.not_mem_nil, .inl rfl⟩
  | case2 limit => exact ⟨[], List.not_mem_nil, .inl rfl⟩
  | case3 limit bytes => exact ⟨[], List.not_mem_nil, .inr rfl⟩
  | case4 limit b bytes hb ih =>
    obtain ⟨line, hline, hread⟩ := ih
    refine ⟨b :: line, by simp [hline, Ne.symm hb], ?_⟩
    simpa using hread

theorem newline_notMem_chunks (h : buf ∈ chunks limit bytes) : (10 : UInt8) ∉ buf := by
  fun_induction chunks limit bytes with
  | case1 => exact absurd h List.not_mem_nil
  | case2 bytes hread ih =>
    obtain rfl | h := List.mem_cons.mp h
    · obtain ⟨line, hline, hcases | hcases⟩ := readUntil_cases limit bytes
      · rwa [hcases, strip_of_notMem hline]
      · rw [hcases, strip_line]
        exact fun hmem => hline (mem_of_mem_chop hmem)
    · exact ih h

/-! ## The chunks of a line -/

theorem chop_eq_nil_iff {c : UInt8} : chop c line = [] ↔ line = [] ∨ line = [c] := by
  unfold chop
  split_ifs with hlast
  · obtain ⟨content, rfl⟩ := List.getLast?_eq_some_iff.mp hlast
    simp
  · constructor
    · exact .inl
    · rintro (h | rfl)
      · exact h
      · exact absurd rfl hlast

theorem chop_append {c : UInt8} (xs : List UInt8) (h : line ≠ []) :
    chop c (xs ++ line) = xs ++ chop c line := by
  unfold chop
  rw [List.getLast?_append_of_ne_nil _ h]
  split_ifs
  · rw [List.dropLast_append_of_ne_nil h]
  · rfl

theorem length_chop_le {c : UInt8} (line : List UInt8) : (chop c line).length ≤ line.length := by
  unfold chop
  split_ifs
  · exact List.length_dropLast.trans_le (Nat.sub_le _ _)
  · exact le_rfl

/-- A full piece of a line that goes on. -/
theorem isCut_append {head content : List UInt8} {pieces : List (List UInt8)} (hhead : head ≠ [])
    (hlength : head.length ≤ limit) (hcontent : content ≠ []) (h : IsCut limit content pieces) :
    IsCut limit (head ++ content) (head :: pieces) := by
  rw [IsCut, if_neg hcontent] at h
  rw [IsCut, if_neg (by simp [hhead]), List.flatten_cons, h.1]
  exact ⟨rfl, List.forall_mem_cons.mpr ⟨⟨hhead, hlength⟩, h.2⟩⟩

theorem isCut_singleton (h : line.length ≤ limit) : IsCut limit line [line] := by
  unfold IsCut
  split_ifs with hline
  · rw [hline]
  · exact ⟨List.append_nil _, fun piece hpiece => List.mem_singleton.mp hpiece ▸ ⟨hline, h⟩⟩

/-- The pieces of a line have no empty one among them, unless the line is empty. -/
theorem IsCut.count_nil {pieces : List (List UInt8)} (h : IsCut limit line pieces) :
    pieces.count [] = if line = [] then 1 else 0 := by
  unfold IsCut at h
  split_ifs at h ⊢
  · rw [h]
    rfl
  · exact List.count_eq_zero.mpr fun hmem => (h.2 [] hmem).1 rfl

/-- Behind a full piece the rest of a line fits as the whole line does. -/
theorem fits_append {head tail : List UInt8} (hlimit : 2 ≤ limit) (hhead : head.length = limit)
    (hne : tail ≠ []) (hcr : tail ≠ [13]) : Fits limit (head ++ tail) ↔ Fits limit tail := by
  have hlength : (head ++ tail).length % limit = tail.length % limit := by
    rw [List.length_append, hhead, Nat.add_mod_left]
  have hlong : 1 < (head ++ tail).length := by
    have hpos := List.length_pos_iff.mpr hne
    rw [List.length_append]
    omega
  -- A rest that is one byte long does not end with a carriage return.
  have hend : (1 < (head ++ tail).length → tail.getLast? = some 13 → tail.length % limit ≠ 1) ↔
      (1 < tail.length → tail.getLast? = some 13 → tail.length % limit ≠ 1) := by
    constructor
    · exact fun h _ => h hlong
    · intro h _ hlast
      obtain ⟨content, rfl⟩ := List.getLast?_eq_some_iff.mp hlast
      refine h ?_ hlast
      have hpos : content ≠ [] := by
        rintro rfl
        exact hcr rfl
      have hlen := List.length_pos_iff.mpr hpos
      rw [List.length_append, List.length_singleton]
      omega
  unfold Fits
  rw [hlength, List.getLast?_append_of_ne_nil _ hne, hend]
  simp [hne]

/-- A line and its terminator. When the terminator follows on a full chunk, an empty chunk is
emitted. -/
theorem chunks_line (hlimit : 2 ≤ limit) (hline : (10 : UInt8) ∉ line) (bytes : List UInt8) :
    ∃ pieces, chunks limit (line ++ 10 :: bytes) = pieces ++ chunks limit bytes ∧
      (Fits limit line → IsCut limit (chop 13 line) pieces) ∧
      pieces.count [] = if chop 13 line = [] ∨ ¬ Fits limit line then 1 else 0 := by
  induction hn : line.length using Nat.strong_induction_on generalizing line with
  | h n ih =>
    by_cases hshort : line.length < limit
    · -- The terminator is read with the line.
      have hfits : Fits limit line := by
        rw [Fits, Nat.mod_eq_of_lt hshort]
        exact ⟨fun hne => (List.length_pos_iff.mpr hne).ne', fun hlt _ => hlt.ne'⟩
      have hcut : IsCut limit (chop 13 line) [chop 13 line] :=
        isCut_singleton ((length_chop_le line).trans hshort.le)
      refine ⟨[chop 13 line], ?_, fun _ => hcut, ?_⟩
      · rw [chunks_of_read (readUntil_line hline hshort bytes) (by simp), strip_line]
        rfl
      · rw [hcut.count_nil]
        simp only [not_true_eq_false, or_false, hfits]
    · -- A full piece of the line is read first.
      obtain ⟨head, tail, rfl, hhead⟩ : ∃ head tail, line = head ++ tail ∧ head.length = limit :=
        ⟨line.take limit, line.drop limit, (List.take_append_drop limit line).symm,
          List.length_take_of_le (not_lt.mp hshort)⟩
      rw [List.mem_append, not_or] at hline
      have hne : head ≠ [] := List.length_pos_iff.mp (by omega)
      have hlength : (head ++ tail).length % limit = tail.length % limit := by
        rw [List.length_append, hhead, Nat.add_mod_left]
      rw [List.length_append] at hn
      obtain ⟨pieces, hchunks, hcut, hcount⟩ := ih tail.length (by omega) hline.2 rfl
      have hread := readUntil_full hline.1 (tail ++ 10 :: bytes)
      rw [hhead] at hread
      refine ⟨head :: pieces, ?_, fun hfits => ?_, ?_⟩
      · rw [List.append_assoc, chunks_of_read hread hne, strip_of_notMem hline.1, hchunks]
        rfl
      · -- The full piece and the pieces of the rest of the line.
        have hne' : tail ≠ [] := by
          rintro rfl
          exact hfits.1 (by simp [hne]) hlength
        have hcr : tail ≠ [13] := by
          rintro rfl
          refine hfits.2 ?_ List.getLast?_concat ?_
          · rw [List.length_append, List.length_singleton]
            omega
          · rw [hlength]
            exact Nat.mod_eq_of_lt hlimit
        have hcontent : chop 13 tail ≠ [] := fun hnil => (chop_eq_nil_iff.mp hnil).elim hne' hcr
        rw [chop_append head hne']
        exact isCut_append hne hhead.le hcontent
          (hcut ((fits_append hlimit hhead hne' hcr).mp hfits))
      · have hzero : (head :: pieces).count [] = pieces.count [] :=
          List.count_cons_of_ne hne
        rw [hzero, hcount]
        by_cases hnil : tail = []
        · subst hnil
          have hbad : ¬ Fits limit (head ++ []) := fun hfits => hfits.1 (by simp [hne]) hlength
          rw [if_pos (.inl rfl), if_pos (.inr hbad)]
        · by_cases hcr : tail = [13]
          · subst hcr
            have hbad : ¬ Fits limit (head ++ [13]) := by
              intro hfits
              refine hfits.2 ?_ List.getLast?_concat ?_
              · rw [List.length_append, List.length_singleton]
                omega
              · rw [hlength]
                exact Nat.mod_eq_of_lt hlimit
            rw [if_pos (.inl rfl), if_pos (.inr hbad)]
          · have hcontent : chop 13 tail ≠ [] := fun h => (chop_eq_nil_iff.mp h).elim hnil hcr
            have hwhole : chop 13 (head ++ tail) ≠ [] := by
              rw [chop_append head hnil]
              simp [hne]
            simp only [hcontent, hwhole, fits_append hlimit hhead hnil hcr]

/-- The rest of the input behind the last terminator. -/
theorem chunks_rest (hpos : 0 < limit) (hline : (10 : UInt8) ∉ line) (hne : line ≠ []) :
    IsCut limit line (chunks limit line) := by
  induction hn : line.length using Nat.strong_induction_on generalizing line with
  | h n ih =>
    by_cases hshort : line.length ≤ limit
    · rw [chunks_of_read (readUntil_last hline hshort) hne, strip_of_notMem hline, chunks_nil]
      exact isCut_singleton hshort
    · obtain ⟨head, tail, rfl, hhead⟩ : ∃ head tail, line = head ++ tail ∧ head.length = limit :=
        ⟨line.take limit, line.drop limit, (List.take_append_drop limit line).symm,
          List.length_take_of_le (le_of_not_ge hshort)⟩
      rw [List.mem_append, not_or] at hline
      rw [List.length_append] at hshort hn
      have hne' : tail ≠ [] := List.length_pos_iff.mp (by omega)
      have hhead' : head ≠ [] := List.length_pos_iff.mp (by omega)
      have hread := readUntil_full hline.1 tail
      rw [hhead] at hread
      rw [chunks_of_read hread hhead', strip_of_notMem hline.1]
      exact isCut_append hhead' hhead.le hne' (ih tail.length (by omega) hline.2 hne' rfl)

/-! ## The chunks of the input -/

/-- The chunks of complete lines and of what is behind them. -/
theorem chunks_join (hlimit : 2 ≤ limit) {lines : List (List UInt8)}
    (hlines : ∀ line ∈ lines, (10 : UInt8) ∉ line) (rest : List UInt8) :
    ∃ pieces, chunks limit (join 10 lines rest) = pieces.flatten ++ chunks limit rest ∧
      ((∀ line ∈ lines, Fits limit line) →
        List.Forall₂ (IsCut limit) (lines.map (chop 13)) pieces) ∧
      pieces.flatten.count [] = lines.countP fun line => chop 13 line = [] ∨ ¬ Fits limit line := by
  induction lines with
  | nil => exact ⟨[], rfl, fun _ => .nil, rfl⟩
  | cons line lines ih =>
    obtain ⟨hline, hlines⟩ := List.forall_mem_cons.mp hlines
    obtain ⟨pieces, hchunks, hcut, hcount⟩ := ih hlines
    obtain ⟨first, hfirst, hcutFirst, hcountFirst⟩ :=
      chunks_line hlimit hline (join 10 lines rest)
    refine ⟨first :: pieces, ?_, fun hfits => ?_, ?_⟩
    · rw [join_cons, hfirst, hchunks, List.flatten_cons, List.append_assoc]
    · obtain ⟨hfit, hfits⟩ := List.forall_mem_cons.mp hfits
      exact .cons (hcutFirst hfit) (hcut hfits)
    · rw [List.flatten_cons, List.count_append, hcount, hcountFirst, List.countP_cons, Nat.add_comm]
      simp only [decide_eq_true_eq]

/-- The chunks of the rest are its pieces, when there is a rest. -/
theorem chunks_last (hpos : 0 < limit) (hrest : (10 : UInt8) ∉ rest) :
    ∃ pieces, chunks limit rest = pieces.flatten ∧
      List.Forall₂ (IsCut limit) (if rest = [] then [] else [rest]) pieces := by
  by_cases hnil : rest = []
  · rw [if_pos hnil, hnil, chunks_nil]
    exact ⟨[], rfl, .nil⟩
  · rw [if_neg hnil]
    exact ⟨[chunks limit rest], (List.append_nil _).symm, .cons (chunks_rest hpos hrest hnil) .nil⟩

/-- One empty chunk for each empty line. -/
theorem count_flatten {lines : List (List UInt8)} {pieces : List (List (List UInt8))}
    (h : List.Forall₂ (IsCut limit) lines pieces) :
    pieces.flatten.count [] = lines.countP fun line => line = [] := by
  induction h with
  | nil => rfl
  | cons hline _ ih =>
    rw [List.flatten_cons, List.count_append, hline.count_nil, ih, List.countP_cons, Nat.add_comm]
    simp only [decide_eq_true_eq]

/-- A line that does not fit is not empty. -/
theorem fits_of_chop_eq_nil (hlimit : 2 ≤ limit) (h : chop 13 line = []) : Fits limit line := by
  obtain rfl | rfl := chop_eq_nil_iff.mp h
  · exact ⟨fun hne => absurd rfl hne, fun hlt => absurd hlt (Nat.not_lt_zero 1)⟩
  · refine ⟨fun _ => ?_, fun hlt => absurd hlt (Nat.lt_irrefl 1)⟩
    rw [List.length_singleton, Nat.mod_eq_of_lt hlimit]
    exact Nat.one_ne_zero

/-- A predicate that holds of a further element of a list counts more elements. -/
theorem countP_lt {α : Type} {p q : α → Prop} [DecidablePred p] [DecidablePred q]
    {l : List α} {x : α}
    (hmem : x ∈ l) (hpq : ∀ y, p y → q y) (hp : ¬ p x) (hq : q x) :
    l.countP (fun y => p y) < l.countP (fun y => q y) := by
  obtain ⟨before, after, rfl⟩ := List.append_of_mem hmem
  have hmono : ∀ l : List α, l.countP (fun y => p y) ≤ l.countP (fun y => q y) := fun l =>
    List.countP_mono_left fun y _ hy => decide_eq_true (hpq y (of_decide_eq_true hy))
  have hbefore := hmono before
  have hafter := hmono after
  rw [List.countP_append, List.countP_append, List.countP_cons, List.countP_cons]
  simp only [hp, hq, decide_true, decide_false, if_true]
  simp
  omega

/-- The lines of the input are preserved when no terminator follows on a full chunk, and only
then. -/
theorem preservesLines_chunks_iff (hlimit : 2 ≤ limit) (bytes : List UInt8) :
    PreservesLines limit bytes (chunks limit bytes) ↔ ∀ line ∈ (cut 10 bytes).1,
    Fits limit line := by
  obtain ⟨hlines, hrest⟩ := notMem_cut 10 bytes
  have hjoin := join_cut 10 bytes
  unfold PreservesLines inputLines
  generalize (cut 10 bytes).1 = lines at *
  generalize (cut 10 bytes).2 = rest at *
  subst hjoin
  obtain ⟨pieces, hchunks, hcut, hcount⟩ := chunks_join hlimit hlines rest
  obtain ⟨last, hlast, hcutLast⟩ := chunks_last (Nat.lt_of_lt_of_le Nat.zero_lt_two hlimit) hrest
  rw [hchunks, hlast]
  constructor
  · rintro ⟨found, hfound, hall⟩
    -- An empty chunk too many for each line that does not fit.
    have hempty := congrArg (List.count []) hfound
    rw [List.count_append, hcount, count_flatten hcutLast, count_flatten hall, List.countP_append,
      Nat.add_right_cancel_iff, List.countP_map] at hempty
    by_contra hbad
    push Not at hbad
    obtain ⟨line, hline, hfit⟩ := hbad
    have hlt := countP_lt hline (p := fun line => chop 13 line = []) (q := fun line =>
      chop 13 line = [] ∨ ¬ Fits limit line) (fun _ h => .inl h)
      (fun h => hfit (fits_of_chop_eq_nil hlimit h)) (.inr hfit)
    exact absurd hempty hlt.ne'
  · intro hfits
    refine ⟨pieces ++ last, List.flatten_append.symm, ?_⟩
    exact List.rel_append (hcut hfits) hcutLast

/-- The exact condition: the content of a line that a newline ends, with the carriage return that
may stand before it, is no positive multiple of the chunk size, nor one more with the carriage
return at its end. -/
theorem preservesLines_iff (bytes : List UInt8) :
    PreservesLines maxPumpChunkSize bytes (chunks maxPumpChunkSize bytes) ↔
      ∀ line ∈ (cut 10 bytes).1, Fits maxPumpChunkSize line :=
  preservesLines_chunks_iff (by decide) bytes

/-- A line as long as a chunk is followed by an empty chunk. -/
theorem not_preservesLines_of_full_chunk :
    ¬ PreservesLines maxPumpChunkSize (List.replicate (1024 * 1024) 65 ++ [10])
      (chunks maxPumpChunkSize (List.replicate (1024 * 1024) 65 ++ [10])) := by
  rw [preservesLines_chunks_iff (by decide)]
  have hline : (10 : UInt8) ∉ List.replicate (1024 * 1024) (65 : UInt8) := by
    rw [List.mem_replicate]
    decide
  rw [cut_line hline]
  intro hfits
  refine (hfits _ List.mem_cons_self).1 ?_ ?_
  · exact List.ne_nil_of_length_pos (by rw [List.length_replicate]; decide)
  · rw [List.length_replicate]
    rfl

end LogPump

end Rsupervisord
