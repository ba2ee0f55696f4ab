import Mathlib.Data.List.Basic

/-!
# Lines of a list

A list is cut at each separator: the complete lines, which a separator ends, and what is behind the
last separator.

* `join_cut`: the lines and the rest make the list again.
* `cut_join`: lines and a rest without separators are what their list is cut into.
* `cut_append`: a list that grows gains lines; only its rest is cut again.
-/

namespace Lines

variable {α : Type*} [DecidableEq α] {sep : α} {xs ys line rest : List α} {lines : List (List α)}

/-- The complete lines of a list, without their separators, and the rest. -/
def cut (sep : α) : List α → List (List α) × List α
  | [] => ([], [])
  | a :: as =>
      if a = sep then ([] :: (cut sep as).1, (cut sep as).2)
      else
        match (cut sep as).1 with
        | [] => ([], a :: (cut sep as).2)
        | line :: lines => ((a :: line) :: lines, (cut sep as).2)

/-- Lines with their separators, and a rest behind them. -/
def join (sep : α) (lines : List (List α)) (rest : List α) : List α :=
  lines.flatMap (· ++ [sep]) ++ rest

/-- The list without `c` at its end. -/
def chop (c : α) (line : List α) : List α := if line.getLast? = some c then line.dropLast else line

omit [DecidableEq α] in
@[simp]
theorem join_nil (rest : List α) : join sep [] rest = rest := rfl

omit [DecidableEq α] in
@[simp]
theorem join_cons (line : List α) (lines : List (List α)) (rest : List α) :
    join sep (line :: lines) rest = line ++ sep :: join sep lines rest := by
  simp [join]

omit [DecidableEq α] in
theorem join_append (lines lines' : List (List α)) (rest : List α) :
    join sep (lines ++ lines') rest = join sep lines (join sep lines' rest) := by
  simp [join]

omit [DecidableEq α] in
/-- What is behind the lines is behind the rest. -/
theorem join_append_rest (lines : List (List α)) (rest ys : List α) :
    join sep lines (rest ++ ys) = join sep lines rest ++ ys := by
  simp [join]

/-- A list without a separator has no complete line. -/
theorem cut_of_notMem (h : sep ∉ xs) : cut sep xs = ([], xs) := by
  induction xs with
  | nil => rfl
  | cons a as ih =>
    rw [List.mem_cons, not_or] at h
    rw [cut, if_neg (Ne.symm h.1), ih h.2]

/-- The first line ends at the first separator. -/
theorem cut_line (h : sep ∉ line) (xs : List α) :
    cut sep (line ++ sep :: xs) = (line :: (cut sep xs).1, (cut sep xs).2) := by
  induction line with
  | nil => rw [List.nil_append, cut, if_pos rfl]
  | cons a as ih =>
    rw [List.mem_cons, not_or] at h
    rw [List.cons_append, cut, if_neg (Ne.symm h.1), ih h.2]

/-- Lines and a rest without separators are found again. -/
theorem cut_join (hlines : ∀ line ∈ lines, sep ∉ line) (hrest : sep ∉ rest) :
    cut sep (join sep lines rest) = (lines, rest) := by
  induction lines with
  | nil => exact cut_of_notMem hrest
  | cons line lines ih =>
    obtain ⟨hline, hlines⟩ := List.forall_mem_cons.mp hlines
    rw [join_cons, cut_line hline, ih hlines]

/-- The lines and the rest contain no separator. -/
theorem notMem_cut (sep : α) (xs : List α) :
    (∀ line ∈ (cut sep xs).1, sep ∉ line) ∧ sep ∉ (cut sep xs).2 := by
  induction xs with
  | nil => exact ⟨nofun, List.not_mem_nil⟩
  | cons a as ih =>
    obtain ⟨hlines, hrest⟩ := ih
    rw [cut]
    split_ifs with ha
    · exact ⟨List.forall_mem_cons.mpr ⟨List.not_mem_nil, hlines⟩, hrest⟩
    · have hne : sep ≠ a := fun h => ha h.symm
      match hcut : (cut sep as).1 with
      | [] =>
        refine ⟨nofun, ?_⟩
        rw [List.mem_cons, not_or]
        exact ⟨hne, hrest⟩
      | line :: lines =>
        rw [hcut] at hlines
        obtain ⟨hline, hlines⟩ := List.forall_mem_cons.mp hlines
        refine ⟨List.forall_mem_cons.mpr ⟨?_, hlines⟩, hrest⟩
        rw [List.mem_cons, not_or]
        exact ⟨hne, hline⟩

/-- Nothing but the separators is lost by cutting. -/
theorem join_cut (sep : α) (xs : List α) : join sep (cut sep xs).1 (cut sep xs).2 = xs := by
  induction xs with
  | nil => rfl
  | cons a as ih =>
    rw [cut]
    split_ifs with ha
    · rw [join_cons, ih, List.nil_append, ha]
    · match hcut : (cut sep as).1 with
      | [] =>
        rw [hcut, join_nil] at ih
        rw [join_nil, ih]
      | line :: lines =>
        rw [hcut, join_cons] at ih
        rw [join_cons, List.cons_append, ih]

/-- A list that grows keeps its lines, and its rest is cut again with what comes behind it. -/
theorem cut_append (sep : α) (xs ys : List α) :
    cut sep (xs ++ ys) =
      ((cut sep xs).1 ++ (cut sep ((cut sep xs).2 ++ ys)).1,
        (cut sep ((cut sep xs).2 ++ ys)).2) := by
  obtain ⟨hlines, -⟩ := notMem_cut sep xs
  obtain ⟨hlines', hrest⟩ := notMem_cut sep ((cut sep xs).2 ++ ys)
  have hjoin : xs ++ ys = join sep ((cut sep xs).1 ++ (cut sep ((cut sep xs).2 ++ ys)).1)
      (cut sep ((cut sep xs).2 ++ ys)).2 := by
    rw [join_append, join_cut, join_append_rest, join_cut]
  conv_lhs => rw [hjoin]
  apply cut_join _ hrest
  intro line hline
  exact (List.mem_append.mp hline).elim (hlines line) (hlines' line)

/-- What begins a list without a separator begins its first line, or the rest when there is no
line. -/
theorem isPrefix_cut (h : sep ∉ xs) (ys : List α) :
    (∃ line ∈ (cut sep (xs ++ ys)).1, xs <+: line) ∨ xs <+: (cut sep (xs ++ ys)).2 := by
  obtain ⟨hlines, hrest⟩ := notMem_cut sep ys
  have hjoin := join_cut sep ys
  cases hcut : (cut sep ys).1 with
  | nil =>
    right
    rw [hcut, join_nil] at hjoin
    rw [cut_of_notMem]
    · exact List.prefix_append xs ys
    · rw [List.mem_append, not_or]
      exact ⟨h, hjoin ▸ hrest⟩
  | cons line lines =>
    left
    rw [hcut] at hlines hjoin
    rw [join_cons] at hjoin
    have hline : sep ∉ xs ++ line := by
      rw [List.mem_append, not_or]
      exact ⟨h, hlines line List.mem_cons_self⟩
    rw [← hjoin, ← List.append_assoc, cut_line hline]
    exact ⟨xs ++ line, List.mem_cons_self, List.prefix_append xs line⟩

end Lines
