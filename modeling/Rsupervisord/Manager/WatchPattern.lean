import Rsupervisord.Compat.Ini.Wildcard
import Rsupervisord.Support.Text

/-!
# The file name filter of the watch service

`matches_pattern` decides which files of a monitored directory count. It has a matcher of its own,
which knows a star at the start, a star at the end, or none.

* `SingleStar`: the patterns it can read.
* `matchesPattern_agrees_iff`: on other patterns it differs from `wildcard_match` exactly for the
  names that match.
-/

namespace Rsupervisord

open Glob

/-- `matches_pattern`. -/
def matchesPattern (pattern : Option String) (fileName : String) : Bool :=
  match pattern with
  | none => true
  | some pat =>
      let trimmed := Text.trim pat
      if trimmed = "" ∨ trimmed = "*" then true
      else
        match Text.stripPrefix "*" trimmed with
        | some suffix => suffix.toList.isSuffixOf fileName.toList
        | none =>
            match Text.stripSuffix "*" trimmed with
            | some start => start.toList.isPrefixOf fileName.toList
            | none => trimmed = fileName

/-- A pattern without stars and question marks but for one star at its start or at its end. -/
inductive SingleStar : List Char → Prop
  | exact {cs : List Char} (h : Bare cs) : SingleStar cs
  | atStart {cs : List Char} (h : Bare cs) : SingleStar ('*' :: cs)
  | atEnd {cs : List Char} (h : Bare cs) : SingleStar (cs ++ ['*'])

/-- The filter gives the answer of `wildcard_match` for the trimmed pattern; an empty pattern
matches every name. -/
def PatternAgrees (pattern fileName : String) : Prop :=
  some (matchesPattern (some pattern) fileName) =
    if Text.trim pattern = "" then some true else wildcardMatch (Text.trim pattern) fileName

instance (pattern fileName : String) : Decidable (PatternAgrees pattern fileName) :=
  inferInstanceAs (Decidable (_ = _))

variable {pattern fileName : String} {cs : List Char}

/-! ## How the filter reads a trimmed pattern -/

/-- With a star at the start, what follows ends the name. -/
theorem matchesPattern_of_star (htrim : (Text.trim pattern).toList = '*' :: cs) :
    matchesPattern (some pattern) fileName = true ↔ cs <:+ fileName.toList := by
  have hne : Text.trim pattern ≠ "" := by
    intro h
    rw [h] at htrim
    cases htrim
  have hstrip : Text.stripPrefix "*" (Text.trim pattern) = some (.ofList cs) := by
    simp [Text.stripPrefix, htrim]
  unfold matchesPattern
  by_cases hstar : Text.trim pattern = "*"
  · have hcs : cs = [] := by
      rw [hstar] at htrim
      exact (List.cons.inj htrim).2.symm
    subst hcs
    simp [hstar]
  · simp [hne, hstar, hstrip]

/-- Nothing is stripped from the start of a pattern that does not begin with a star. -/
theorem stripPrefix_star_eq_none {s : String} (hhead : s.toList.head? ≠ some '*') :
    Text.stripPrefix "*" s = none := by
  refine if_neg fun hpre => hhead ?_
  obtain ⟨rest, hrest⟩ := List.isPrefixOf_iff_prefix.mp hpre
  rw [← hrest]
  rfl

/-- With a star at the end only, what comes before it begins the name. -/
theorem matchesPattern_of_append_star (htrim : (Text.trim pattern).toList = cs ++ ['*'])
    (hcs : cs ≠ []) (hhead : cs.head? ≠ some '*') :
    matchesPattern (some pattern) fileName = true ↔ cs <+: fileName.toList := by
  have hhead' : (Text.trim pattern).toList.head? ≠ some '*' := by
    rw [htrim, List.head?_append_of_ne_nil _ hcs]
    exact hhead
  have hne : Text.trim pattern ≠ "" := by
    intro h
    simp [h] at htrim
  have hstar : Text.trim pattern ≠ "*" := fun h => hhead' (by rw [h]; rfl)
  have hstrip : Text.stripSuffix "*" (Text.trim pattern) = some (.ofList cs) := by
    simp [Text.stripSuffix, htrim]
  unfold matchesPattern
  simp [hne, hstar, stripPrefix_star_eq_none hhead', hstrip]

/-- Without a star at either end, the pattern is the name. -/
theorem matchesPattern_of_exact (htrim : (Text.trim pattern).toList = cs)
    (hcs : cs ≠ []) (hhead : cs.head? ≠ some '*') (hlast : cs.getLast? ≠ some '*') :
    matchesPattern (some pattern) fileName = true ↔ cs = fileName.toList := by
  subst htrim
  have hne : Text.trim pattern ≠ "" := by
    intro h
    simp [h] at hcs
  have hstar : Text.trim pattern ≠ "*" := fun h => hhead (by rw [h]; rfl)
  have hstrip : Text.stripSuffix "*" (Text.trim pattern) = none := by
    refine if_neg fun hsuffix => hlast ?_
    obtain ⟨start, hstart⟩ := List.isSuffixOf_iff_suffix.mp hsuffix
    rw [← hstart]
    exact List.getLast?_concat
  unfold matchesPattern
  simp [hne, hstar, stripPrefix_star_eq_none hhead, hstrip, String.ext_iff]

/-! ## Where it is right -/

/-- The filter is right when it lets a name through exactly when the name matches. -/
theorem patternAgrees_iff (hname : Bare fileName.toList) (hne : Text.trim pattern ≠ "") :
    PatternAgrees pattern fileName ↔
      (matchesPattern (some pattern) fileName = true ↔
        Matches (Text.trim pattern).toList fileName.toList) := by
  rw [PatternAgrees, if_neg hne, ← matchesLiterally_iff hname.1, ← wildcardMatch_eq_true_iff]
  obtain ⟨answer, hanswer, -⟩ := loop_start (Text.trim pattern).toList fileName.toList
  rw [wildcardMatch, hanswer _ (Nat.le_refl _), Option.some.injEq, Option.some.injEq,
    Bool.eq_iff_iff]

/-- A pattern with a single star is read as it is meant. -/
theorem matchesPattern_iff_of_singleStar (h : SingleStar (Text.trim pattern).toList)
    (hne : Text.trim pattern ≠ "") :
    matchesPattern (some pattern) fileName = true ↔
      Matches (Text.trim pattern).toList fileName.toList := by
  generalize htrim : (Text.trim pattern).toList = trimmed at h
  have hnil : trimmed ≠ [] := fun hnil => hne (by rw [← String.toList_inj, htrim, hnil]; rfl)
  cases h with
  | atStart hbare => rw [matchesPattern_of_star htrim, matches_cons_star_iff hbare]
  | exact hbare =>
    rw [matches_iff_of_bare hbare]
    refine matchesPattern_of_exact htrim hnil (fun hhead => ?_) (fun hlast => ?_)
    · exact hbare.1 (List.mem_of_head? hhead)
    · exact hbare.1 (List.mem_of_getLast? hlast)
  | @atEnd cs hbare =>
    by_cases hcs : cs = []
    · subst hcs
      rw [matchesPattern_of_star htrim]
      exact (matches_cons_star_iff bare_nil).symm
    · rw [matches_append_star_iff hbare]
      exact matchesPattern_of_append_star htrim hcs fun hhead => hbare.1 (List.mem_of_head? hhead)

/-- Another pattern lets no name through that is free of stars and question marks: one of them would
be sought in the name. -/
theorem matchesPattern_eq_false (h : ¬ SingleStar (Text.trim pattern).toList)
    (hname : Bare fileName.toList) : matchesPattern (some pattern) fileName = false := by
  rw [← Bool.not_eq_true]
  intro hmatch
  apply h
  generalize htrim : (Text.trim pattern).toList = trimmed
  have hnil : trimmed ≠ [] := by
    rintro rfl
    exact h (htrim ▸ .exact bare_nil)
  by_cases hhead : trimmed.head? = some '*'
  · obtain ⟨cs, rfl⟩ := List.head?_eq_some_iff.mp hhead
    exact .atStart (hname.subset ((matchesPattern_of_star htrim).mp hmatch).subset)
  · by_cases hlast : trimmed.getLast? = some '*'
    · obtain ⟨cs, rfl⟩ := List.getLast?_eq_some_iff.mp hlast
      obtain _ | ⟨c, cs⟩ := cs
      · exact .atEnd bare_nil
      · have hbegins :=
          (matchesPattern_of_append_star htrim (List.cons_ne_nil c cs) hhead).mp hmatch
        exact .atEnd (hname.subset hbegins.subset)
    · have heq := (matchesPattern_of_exact htrim hnil hhead hlast).mp hmatch
      exact .exact (heq ▸ hname)

/-- For names without stars and question marks, the filter agrees with `wildcard_match` exactly when
the trimmed pattern has a single star at one end or none, or does not match the name. It agrees on
all such names exactly for the patterns of this form. -/
theorem matchesPattern_agrees_iff (pattern : String) :
    (∀ fileName : String, Bare fileName.toList →
      (PatternAgrees pattern fileName ↔
        SingleStar (Text.trim pattern).toList ∨
          ¬ Matches (Text.trim pattern).toList fileName.toList)) ∧
      ((∀ fileName : String, Bare fileName.toList → PatternAgrees pattern fileName) ↔
        SingleStar (Text.trim pattern).toList) := by
  have hagrees : ∀ fileName : String, Bare fileName.toList →
      (PatternAgrees pattern fileName ↔
        SingleStar (Text.trim pattern).toList ∨
          ¬ Matches (Text.trim pattern).toList fileName.toList) := by
    intro fileName hname
    by_cases hne : Text.trim pattern = ""
    · have hempty : PatternAgrees pattern fileName := by
        simp [PatternAgrees, matchesPattern, hne]
      refine iff_of_true hempty (.inl ?_)
      rw [hne]
      exact .exact bare_nil
    · rw [patternAgrees_iff hname hne]
      by_cases hstar : SingleStar (Text.trim pattern).toList
      · exact iff_of_true (matchesPattern_iff_of_singleStar hstar hne) (.inl hstar)
      · rw [matchesPattern_eq_false hstar hname]
        simp [hstar]
  refine ⟨hagrees, fun hall => ?_, fun hstar fileName hname => ?_⟩
  · -- Each pattern matches some name, so it must be of the form that is read as it is meant.
    obtain ⟨text, hbare, hmatch⟩ := exists_matches_bare (Text.trim pattern).toList
    have hname : Bare (String.ofList text).toList := by rwa [String.toList_ofList]
    have hmatch' : Matches (Text.trim pattern).toList (String.ofList text).toList := by
      rwa [String.toList_ofList]
    exact ((hagrees _ hname).mp (hall _ hname)).resolve_right (not_not_intro hmatch')
  · exact (hagrees fileName hname).mpr (.inl hstar)

theorem matchesPattern_agrees_suffix : PatternAgrees " *.conf" "app.conf" :=
  ((matchesPattern_agrees_iff " *.conf").1 "app.conf" (by decide)).mpr
    (.inl (by
      have htrim : (Text.trim " *.conf").toList = '*' :: ".conf".toList := by decide +kernel
      rw [htrim]
      exact .atStart (by decide)))

/-- A star in the middle is not read as one. -/
theorem not_patternAgrees_of_middle_star :
    Bare "app.1.conf".toList ∧ ¬ PatternAgrees "app.*.conf" "app.1.conf" := by
  decide +kernel

end Rsupervisord
