import Rsupervisord.Support.Text

/-!
# Searching a text

Where a separator occurs first, and the pieces of a text between separators. A text is apart from a
separator when no occurrence starts in it, whatever follows.

## Main results

* `cut_of_apart`: the separator behind a text that is apart from it is its first occurrence.
* `Apart.append`: such texts can be joined.
-/

namespace Text

variable {sep cs cs' before behind : List Char} {c : Char}

theorem cut_eq_append (h : cut sep cs = some (before, behind)) : cs = before ++ sep ++ behind := by
  induction cs generalizing before with
  | nil =>
    simp only [cut, Option.ite_none_right_eq_some, Option.some.injEq, Prod.mk.injEq] at h
    obtain ⟨rfl, rfl, rfl⟩ := h
    rfl
  | cons c cs ih =>
    rw [cut] at h
    split_ifs at h with hbegin
    · obtain ⟨rfl, rfl⟩ := Prod.mk.inj (Option.some.inj h)
      rw [List.nil_append]
      exact (List.prefix_iff_eq_append.mp (List.isPrefixOf_iff_prefix.mp hbegin)).symm
    · obtain ⟨⟨before', behind'⟩, hcut, heq⟩ := Option.map_eq_some_iff.mp h
      obtain ⟨rfl, rfl⟩ := Prod.mk.inj heq
      rw [ih hcut]
      rfl

theorem length_cut_lt (hsep : sep ≠ []) (h : cut sep cs = some (before, behind)) :
    behind.length < cs.length := by
  have hlength := congrArg List.length (cut_eq_append h)
  have hpos := List.length_pos_iff.mpr hsep
  simp only [List.length_append] at hlength
  omega

/-- The pieces between separators, of which there is at least one. The separator is not empty. -/
def splitText (sep cs : List Char) : List (List Char) :=
  match _h : cut sep cs with
  | none => [cs]
  | some (before, behind) =>
      if _hsep : sep = [] then [cs] else before :: splitText sep behind
termination_by cs.length
decreasing_by exact length_cut_lt ‹_› ‹_›

theorem splitText_of_none (h : cut sep cs = none) : splitText sep cs = [cs] := by
  rw [splitText]
  split
  next => rfl
  next _ _ hcut => simp [h] at hcut

theorem splitText_of_some (hsep : sep ≠ []) (h : cut sep cs = some (before, behind)) :
    splitText sep cs = before :: splitText sep behind := by
  rw [splitText]
  split
  next hcut => simp [h] at hcut
  next _ _ hcut =>
    obtain ⟨rfl, rfl⟩ := Prod.mk.inj (Option.some.inj (hcut.symm.trans h))
    rw [dif_neg hsep]

/-- No occurrence of the separator starts in the text. -/
def apart (sep : List Char) : List Char → Bool
  | [] => true
  | c :: cs => !sep.isPrefixOf (c :: cs) && !(c :: cs).isPrefixOf sep && apart sep cs

theorem apart_cons : apart sep (c :: cs) = true ↔
    (¬ sep <+: c :: cs ∧ ¬ c :: cs <+: sep) ∧ apart sep cs = true := by
  rw [apart, Bool.and_eq_true, Bool.and_eq_true, Bool.not_eq_true', Bool.not_eq_true',
    ← Bool.not_eq_true, ← Bool.not_eq_true, List.isPrefixOf_iff_prefix, List.isPrefixOf_iff_prefix]

/-- A text without the first character of the separator is apart from it. -/
theorem apart_of_notMem (hsep : sep.head? = some c) (h : c ∉ cs) : apart sep cs = true := by
  obtain ⟨rest, rfl⟩ := List.head?_eq_some_iff.mp hsep
  induction cs with
  | nil => rfl
  | cons d cs ih =>
    obtain ⟨hne, hcs⟩ := List.ne_and_not_mem_of_not_mem_cons h
    refine apart_cons.mpr ⟨⟨fun hbegin => ?_, fun hbegin => ?_⟩, ih hcs⟩
    · exact hne (List.cons_prefix_cons.mp hbegin).1
    · exact hne (List.cons_prefix_cons.mp hbegin).1.symm

/-- A separator that begins neither a text nor the other way round does not begin a longer text. -/
theorem not_prefix_append (h : ¬ sep <+: cs ∧ ¬ cs <+: sep) : ¬ sep <+: cs ++ cs' := by
  intro hbegin
  obtain hle | hle := List.prefix_or_prefix_of_prefix hbegin (List.prefix_append cs cs')
  · exact h.1 hle
  · exact h.2 hle

theorem apart_append (h : apart sep cs = true) (h' : apart sep cs' = true) :
    apart sep (cs ++ cs') = true := by
  induction cs with
  | nil => exact h'
  | cons c cs ih =>
    obtain ⟨hc, hcs⟩ := apart_cons.mp h
    refine apart_cons.mpr ⟨⟨not_prefix_append hc, fun hbegin => ?_⟩, ih hcs⟩
    exact hc.2 ((List.prefix_append (c :: cs) cs').trans hbegin)

/-- A text that is apart from the separator is skipped. -/
theorem cut_append_of_apart (h : apart sep cs = true) :
    cut sep (cs ++ cs') =
      (cut sep cs').map fun (before, behind) => (cs ++ before, behind) := by
  induction cs with
  | nil => simp
  | cons c cs ih =>
    obtain ⟨hc, hcs⟩ := apart_cons.mp h
    have hne : ¬ sep.isPrefixOf (c :: (cs ++ cs')) = true := by
      rw [List.isPrefixOf_iff_prefix]
      exact not_prefix_append hc
    rw [List.cons_append, cut, if_neg hne, ih hcs, Option.map_map]
    rfl

/-- The separator behind a text that is apart from it is its first occurrence. -/
theorem cut_of_apart (hsep : sep ≠ []) (h : apart sep cs = true) :
    cut sep (cs ++ (sep ++ cs')) = some (cs, cs') := by
  have hnil : cut sep (sep ++ cs') = some ([], cs') := by
    match sep with
    | s :: sep =>
      rw [List.cons_append, cut, ← List.cons_append, if_pos]
      · rw [List.drop_left]
      · rw [List.isPrefixOf_iff_prefix]
        exact List.prefix_append _ _
  rw [cut_append_of_apart h, hnil]
  simp

/-- A text that is apart from the separator does not contain it. -/
theorem cut_eq_none (hsep : sep ≠ []) (h : apart sep cs = true) : cut sep cs = none := by
  have hcut : cut sep (cs ++ []) = _ := cut_append_of_apart h
  rw [List.append_nil] at hcut
  rw [hcut, cut, if_neg hsep]
  rfl

end Text
