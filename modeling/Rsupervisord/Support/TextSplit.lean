import Mathlib
import Rsupervisord.Support.Text

/-!
# Joined texts

What the functions that take texts apart find in a text that was put together: a prefix, the parts
around a separator, a number; and what they say about the text that they were given.

* `stripPrefix_append`, `splitOnce_append`, `rsplitOnce_append`: the parts are found again.
* `eq_of_rsplitOnce`: the parts make the text.
* `parseUnsigned_toString`: a number is read back from its digits.
-/

namespace Text

variable {c : Char} {s t pre : String}

@[simp]
theorem stripPrefix_append (pre s : String) : stripPrefix pre (pre ++ s) = some s := by
  rw [stripPrefix, String.toList_append, if_pos (by simp), List.drop_left, String.ofList_toList]

theorem stripPrefix_eq_some_iff : stripPrefix pre s = some t ↔ s = pre ++ t := by
  constructor
  · intro h
    unfold stripPrefix at h
    split_ifs at h with hpre
    obtain ⟨rest, hrest⟩ := List.isPrefixOf_iff_prefix.mp hpre
    obtain rfl := Option.some.inj h
    rw [← hrest, List.drop_left]
    apply String.toList_injective
    rw [String.toList_append, String.toList_ofList, hrest]
  · rintro rfl
    exact stripPrefix_append pre t

theorem splitOnce_append (h : c ∉ s.toList) (t : String) :
    splitOnce c (s ++ String.ofList [c] ++ t) = some (s, t) := by
  have hne : ∀ d ∈ s.toList, decide (d ≠ c) = true := by
    intro d hd
    exact decide_eq_true fun hdc => h (hdc ▸ hd)
  unfold splitOnce
  rw [String.toList_append, String.toList_append, String.toList_ofList, List.append_assoc,
    List.dropWhile_append_of_pos hne, List.takeWhile_append_of_pos hne]
  simp

theorem splitOnce_of_notMem (h : c ∉ s.toList) : splitOnce c s = none := by
  unfold splitOnce
  rw [List.dropWhile_eq_nil_iff.mpr]
  intro d hd
  exact decide_eq_true fun hdc => h (hdc ▸ hd)

theorem splitOnce_of_toList {cs ds : List Char} (h : s.toList = cs ++ c :: ds) (hc : c ∉ cs) :
    splitOnce c s = some (.ofList cs, .ofList ds) := by
  have hs : s = String.ofList cs ++ String.ofList [c] ++ String.ofList ds := by
    apply String.toList_injective
    simp [h]
  rw [hs, splitOnce_append (by rwa [String.toList_ofList])]

theorem eq_of_splitOnce {behind : String} (h : splitOnce c s = some (t, behind)) :
    s = t ++ String.ofList [c] ++ behind ∧ c ∉ t.toList := by
  unfold splitOnce at h
  split at h
  next => cases h
  next d rest hdrop =>
    obtain ⟨rfl, rfl⟩ := Prod.mk.inj (Option.some.inj h)
    have hd : d = c := by
      have hhead := List.head?_dropWhile_not (fun d => decide (d ≠ c)) s.toList
      rw [hdrop] at hhead
      simpa using hhead
    constructor
    · apply String.toList_injective
      conv_lhs => rw [← List.takeWhile_append_dropWhile (p := fun d => decide (d ≠ c))
        (l := s.toList), hdrop, hd]
      simp
    · rw [String.toList_ofList]
      intro hmem
      have hne := List.mem_takeWhile_imp (p := fun d => decide (d ≠ c)) hmem
      simp at hne

theorem rsplitOnce_append (s : String) (h : c ∉ t.toList) :
    rsplitOnce c (s ++ String.ofList [c] ++ t) = some (s, t) := by
  have hne : ∀ d ∈ t.toList.reverse, decide (d ≠ c) = true := by
    intro d hd
    exact decide_eq_true fun hdc => h (hdc ▸ List.mem_reverse.mp hd)
  unfold rsplitOnce
  rw [String.toList_append, String.toList_append, String.toList_ofList, List.reverse_append,
    List.reverse_append, List.dropWhile_append_of_pos hne, List.takeWhile_append_of_pos hne]
  simp

theorem rsplitOnce_of_notMem (h : c ∉ s.toList) : rsplitOnce c s = none := by
  unfold rsplitOnce
  rw [List.dropWhile_eq_nil_iff.mpr]
  intro d hd
  exact decide_eq_true fun hdc => h (hdc ▸ List.mem_reverse.mp hd)

/-- The parts around the last separator make the text again. -/
theorem eq_of_rsplitOnce {behind : String} (h : rsplitOnce c s = some (t, behind)) :
    s = t ++ String.ofList [c] ++ behind := by
  unfold rsplitOnce at h
  split at h
  · cases h
  · next d rest hdrop =>
    obtain ⟨rfl, rfl⟩ := Prod.mk.inj (Option.some.inj h)
    have hd : d = c := by
      have hhead := List.head?_dropWhile_not (fun d => decide (d ≠ c)) s.toList.reverse
      rw [hdrop, List.head?_cons] at hhead
      simpa using hhead
    have hsplit : s.toList.reverse = s.toList.reverse.takeWhile (fun d => d ≠ c) ++ d :: rest := by
      rw [← hdrop, List.takeWhile_append_dropWhile]
    apply String.toList_injective
    have hreverse := congrArg List.reverse hsplit
    rw [List.reverse_reverse] at hreverse
    rw [String.toList_append, String.toList_append, String.toList_ofList, String.toList_ofList,
      String.toList_ofList]
    conv_lhs => rw [hreverse]
    rw [List.reverse_append, List.reverse_cons, hd]

/-- A number below the bound is read back from its digits. -/
theorem parseUnsigned_toString {bound n : ℕ} (h : n < bound) :
    parseUnsigned bound (toString n) = some n := by
  have hdigits : ∀ d ∈ (toString n).toList, d.isDigit = true := by
    intro d hd
    have hd' : d ∈ n.repr.toList := hd
    rw [Nat.toList_repr] at hd'
    exact Nat.isDigit_of_mem_toDigits (by decide) (by decide) hd'
  have hne : (toString n).toList ≠ [] := by
    show n.repr.toList ≠ []
    rw [Nat.toList_repr]
    exact Nat.toDigits_ne_nil
  have hvalue := digitsValue_toString n
  simp only [parseUnsigned]
  generalize (toString n).toList = ds at *
  split
  · -- The digits do not begin with a sign.
    exact absurd (hdigits '+' List.mem_cons_self) (by decide)
  · simp [hvalue, hne, h]

/-- The number that is read is below the bound. -/
theorem lt_of_parseUnsigned {bound n : ℕ} (h : parseUnsigned bound s = some n) : n < bound := by
  unfold parseUnsigned at h
  simp only at h
  split_ifs at h
  split at h
  · split_ifs at h with hlt
    exact Option.some.inj h ▸ hlt
  · cases h

@[simp]
theorem toAsciiLowercase_append (s t : String) :
    toAsciiLowercase (s ++ t) = toAsciiLowercase s ++ toAsciiLowercase t := by
  apply String.toList_injective
  simp [toAsciiLowercase]

@[simp]
theorem toAsciiLowercase_toAsciiLowercase (s : String) :
    toAsciiLowercase (toAsciiLowercase s) = toAsciiLowercase s := by
  apply String.toList_injective
  simp [toAsciiLowercase]

/-- A text without the letters `A` to `Z` is in lower case. -/
theorem toAsciiLowercase_eq_self (h : ∀ d ∈ s.toList, d.isUpper = false) :
    toAsciiLowercase s = s := by
  apply String.toList_injective
  rw [toAsciiLowercase, String.toList_ofList]
  refine (List.map_congr_left fun d hd => ?_).trans (List.map_id _)
  exact Char.toLower_eq_of_not_isUpper (by simp [h d hd])

/-- `str::replace`, where `skip` characters belong to an occurrence that was replaced. The pattern
is not empty. -/
def replaceChars (pat new : List Char) : ℕ → List Char → List Char
  | _, [] => []
  | skip + 1, _ :: cs => replaceChars pat new skip cs
  | 0, d :: cs =>
      if pat.isPrefixOf (d :: cs) then new ++ replaceChars pat new (pat.length - 1) cs
      else d :: replaceChars pat new 0 cs

/-- Replace the occurrences of a text. -/
def replace (pat new s : String) : String := .ofList (replaceChars pat.toList new.toList 0 s.toList)

/-- A text without the pattern stays as it is. -/
theorem replace_eq_self {pat : String} (new : String) (h : ¬ pat.toList <:+: s.toList) :
    replace pat new s = s := by
  have hchars : replaceChars pat.toList new.toList 0 s.toList = s.toList := by
    generalize s.toList = cs at h ⊢
    induction cs with
    | nil => rfl
    | cons d cs ih =>
      rw [replaceChars, if_neg, ih fun hcs => h (hcs.trans (List.infix_cons (List.infix_refl cs)))]
      exact fun hpre => h (List.isPrefixOf_iff_prefix.mp hpre).isInfix
  rw [replace, hchars, String.ofList_toList]

/-- Trimming keeps a text that neither begins nor ends with white space. -/
theorem trim_eq_self_of_ends (hfirst : ∀ d ∈ s.toList.head?, isWhitespace d = false)
    (hlast : ∀ d ∈ s.toList.getLast?, isWhitespace d = false) : trim s = s := by
  have hstart : s.toList.dropWhile isWhitespace = s.toList := by
    rw [List.dropWhile_eq_self_iff]
    intro hlt
    have hhead :=
      hfirst (s.toList[0]) (by rw [List.head?_eq_getElem?, List.getElem?_eq_getElem hlt]; rfl)
    simpa using hhead
  have hend : s.toList.rdropWhile isWhitespace = s.toList := by
    rw [List.rdropWhile_eq_self_iff]
    intro hne
    have hend := hlast _ (List.getLast?_eq_some_getLast hne)
    simpa using hend
  unfold trim
  rw [hstart, hend, String.ofList_toList]

/-- A trimmed text neither begins nor ends with white space. -/
theorem ends_of_trim_eq_self (h : trim s = s) :
    s.toList.dropWhile isWhitespace = s.toList ∧ s.toList.rdropWhile isWhitespace = s.toList := by
  have hlist : (s.toList.dropWhile isWhitespace).rdropWhile isWhitespace = s.toList := by
    have htrim := congrArg String.toList h
    rwa [trim, String.toList_ofList] at htrim
  have hle : s.toList.length ≤ (s.toList.dropWhile isWhitespace).length := by
    conv_lhs => rw [← hlist]
    exact (List.rdropWhile_prefix _ _).length_le
  have hstart : s.toList.dropWhile isWhitespace = s.toList :=
    (List.dropWhile_suffix _).eq_of_length_le hle
  rw [hstart] at hlist
  exact ⟨hstart, hlist⟩

/-- The first character of a trimmed text is no white space. -/
theorem head_of_trim_eq_self (h : trim s = s) : ∀ d ∈ s.toList.head?, isWhitespace d = false := by
  intro d hd
  have hhead := List.head?_dropWhile_not isWhitespace s.toList
  rw [(ends_of_trim_eq_self h).1, hd] at hhead
  simpa using hhead

/-- The last character of a trimmed text is no white space. -/
theorem last_of_trim_eq_self (h : trim s = s) : ∀ d ∈ s.toList.getLast?, isWhitespace d =
    false := by
  intro d hd
  obtain ⟨hne, rfl⟩ := List.mem_getLast?_eq_getLast hd
  have hlast := List.rdropWhile_last_not isWhitespace s.toList
    (by rw [(ends_of_trim_eq_self h).2]; exact hne)
  simp only [(ends_of_trim_eq_self h).2] at hlast
  simpa using hlast

/-- Trimming takes white space away only. -/
theorem mem_trim_of_not_isWhitespace (h : c ∈ s.toList) (hc : isWhitespace c = false) :
    c ∈ (trim s).toList := by
  have hdrop : ∀ cs : List Char, c ∈ cs → c ∈ cs.dropWhile isWhitespace := by
    intro cs hcs
    rw [← List.takeWhile_append_dropWhile (p := isWhitespace) (l := cs), List.mem_append] at hcs
    refine hcs.resolve_left fun htake => ?_
    rw [List.mem_takeWhile_imp htake] at hc
    cases hc
  rw [trim, String.toList_ofList, List.rdropWhile, List.mem_reverse]
  exact hdrop _ (List.mem_reverse.mpr (hdrop _ h))

/-- Around a character that is no white space, the two sides are trimmed at their outer ends. -/
theorem toList_trim_around {cs ds : List Char} (hc : isWhitespace c = false) :
    (trim (.ofList (cs ++ c :: ds))).toList =
      cs.dropWhile isWhitespace ++ c :: ds.rdropWhile isWhitespace := by
  have hdrop : ∀ cs ds : List Char, (cs ++ c :: ds).dropWhile isWhitespace =
      cs.dropWhile isWhitespace ++ c :: ds := by
    intro cs ds
    induction cs with
    | nil => rw [List.nil_append, List.dropWhile_cons_of_neg (by simp [hc])]; rfl
    | cons d cs ih =>
      rw [List.cons_append, List.dropWhile_cons, List.dropWhile_cons]
      split
      · exact ih
      · rfl
  rw [trim, String.toList_ofList, String.toList_ofList, hdrop, List.rdropWhile, List.rdropWhile,
    List.reverse_append, List.reverse_cons, List.append_assoc, List.singleton_append, hdrop]
  simp

/-- A text is split by such a character before and after it is trimmed. -/
theorem splitOnce_trim {behind : String} (hc : isWhitespace c = false)
    (h : splitOnce c s = some (t, behind)) :
    splitOnce c (trim s) = some (.ofList (t.toList.dropWhile isWhitespace),
      .ofList (behind.toList.rdropWhile isWhitespace)) := by
  obtain ⟨heq, hnot⟩ := eq_of_splitOnce h
  have hs : s = .ofList (t.toList ++ c :: behind.toList) := by
    apply String.toList_injective
    rw [heq]
    simp
  refine splitOnce_of_toList ?_ fun hmem => hnot ((List.dropWhile_sublist _).subset hmem)
  rw [hs, toList_trim_around hc]

/-- Trimming keeps the number of such characters. -/
theorem count_trim (hc : isWhitespace c = false) : (trim s).toList.count c = s.toList.count c := by
  have hdrop : ∀ cs : List Char, (cs.dropWhile isWhitespace).count c = cs.count c := by
    intro cs
    have hnone : (cs.takeWhile isWhitespace).count c = 0 := by
      rw [List.count_eq_zero]
      intro hmem
      rw [List.mem_takeWhile_imp hmem] at hc
      cases hc
    conv_rhs => rw [← List.takeWhile_append_dropWhile (p := isWhitespace) (l := cs),
      List.count_append, hnone, Nat.zero_add]
  rw [trim, String.toList_ofList, List.rdropWhile, List.count_reverse, hdrop, List.count_reverse,
    hdrop]

/-- White space around a trimmed text is taken away. -/
theorem trim_blank_around {bs bs' : List Char} (h : trim s = s)
    (hbs : ∀ d ∈ bs, isWhitespace d = true) (hbs' : ∀ d ∈ bs', isWhitespace d = true) :
    trim (.ofList (bs ++ s.toList ++ bs')) = s := by
  obtain ⟨hstart, hend⟩ := ends_of_trim_eq_self h
  have hlast : (s.toList ++ bs').rdropWhile isWhitespace = s.toList := by
    rw [List.rdropWhile, List.reverse_append, List.dropWhile_append_of_pos]
    · exact hend
    · exact fun d hd => hbs' d (List.mem_reverse.mp hd)
  rw [trim, String.toList_ofList, List.append_assoc, List.dropWhile_append_of_pos hbs]
  apply String.toList_injective
  rw [String.toList_ofList]
  cases hs : s.toList with
  | nil =>
    rw [List.nil_append, List.dropWhile_eq_nil_iff.mpr hbs']
    rfl
  | cons d ds =>
    have hd := head_of_trim_eq_self h d (by rw [hs]; rfl)
    rw [List.cons_append,
      List.dropWhile_cons_of_neg (by simp [hd]), ← List.cons_append, ← hs, hlast]

end Text
