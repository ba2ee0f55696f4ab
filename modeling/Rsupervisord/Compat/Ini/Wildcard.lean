import Mathlib.Tactic.Linarith
import Mathlib.Tactic.Ring
import Rsupervisord.Support.Glob

/-!
# Wildcard matching

`wildcard_match` of the INI parser: a loop that goes through pattern and text and returns to the
last star when it is stuck. It tries whether a character of the pattern is that of the text before
it tries whether it is a star, so a star that meets a star of the text is taken for this character.

* `Wildcard.loop`: the loop, with the number of rounds it may take.
* `Wildcard.loop_spec`: the loop ends, with the answer of the narrower meaning of patterns.
* `wildcardMatch_correct_iff`: the patterns and texts on which the answer is right.
-/

namespace Rsupervisord

open Glob

namespace Wildcard

/-- The locals of the loop: what is left of pattern and text, and, once a star was met, the pattern
behind the last one and the text to which its match reaches. -/
structure State where
  pattern : List Char
  text : List Char
  star : Option (List Char × List Char)
  deriving DecidableEq, Repr

/-- Return to the last star and let its match reach further. Without a star the answer is
negative. -/
def back : Option (List Char × List Char) → State ⊕ Bool
  | some (behind, reached) => .inl ⟨behind, reached.tail, some (behind, reached.tail)⟩
  | none => .inr false

/-- One round of the loop: the next state, or the answer when the loop is left. -/
def round (s : State) : State ⊕ Bool :=
  match s.pattern, s.text with
  -- The text is used up: only stars may be left of the pattern.
  | pattern, [] => .inr (pattern.all (· = '*'))
  | p :: pattern, c :: text =>
      if p = '?' ∨ p = c then .inl { s with pattern := pattern, text := text }
      else if p = '*' then .inl ⟨pattern, c :: text, some (pattern, c :: text)⟩
      else back s.star
  | [], _ :: _ => back s.star

/-- The loop of `wildcard_match`, for at most `fuel` rounds. -/
def loop : ℕ → State → Option Bool
  | 0, _ => none
  | fuel + 1, s =>
      match round s with
      | .inl s => loop fuel s
      | .inr answer => some answer

/-- Before the loop. -/
def start (pattern text : List Char) : State := ⟨pattern, text, none⟩

/-- Enough rounds for a pattern and a text. -/
def rounds (pattern text : List Char) : ℕ := (pattern.length + 2) * (text.length + 1) ^ 2

/-- What has been used up since the last star are characters that take each other; the text and the
pattern are not longer than at the start. -/
structure Consistent (bound length : ℕ) (s : State) : Prop where
  text : s.text.length ≤ bound
  pattern : s.star = none → s.pattern.length ≤ length
  run : ∀ behind reached, s.star = some (behind, reached) →
    reached.length ≤ bound ∧ Run behind reached s.pattern s.text

/-- How many rounds may be left. -/
def measure (bound length : ℕ) (s : State) : ℕ :=
  match s.star with
  | none => (length + 1) * (bound + 1) ^ 2 + s.text.length
  | some (behind, reached) =>
      behind.length * (bound + 1) ^ 2 + reached.length * (bound + 1) + s.text.length

/-- The rest of the text matches the rest of the pattern, or it does when the match of the last star
reaches further. -/
def Answers (s : State) : Prop :=
  MatchesLiterally s.pattern s.text ∨
    ∃ behind reached rest, s.star = some (behind, reached) ∧ reached ≠ [] ∧ rest <:+ reached.tail ∧
      MatchesLiterally behind rest

variable {s s' : State} {bound length : ℕ} {answer : Bool}

/-! ## One round -/

theorem suffix_iff {rest text : List Char} :
    rest <:+ text ↔ rest = text ∨ text ≠ [] ∧ rest <:+ text.tail := by
  cases text with
  | nil => simp
  | cons c text => simp [List.suffix_cons_iff]

/-- The match of the last star finds its rest behind what was used up. -/
theorem exists_of_star (h : Consistent bound length s) {behind reached rest : List Char}
    (hstar : s.star = some (behind, reached)) (hrest : rest <:+ reached.tail)
    (hmatch : MatchesLiterally behind rest) :
    ∃ rest', rest' <:+ s.text ∧ MatchesLiterally s.pattern rest' :=
  hmatch.of_run (h.run behind reached hstar).2 (hrest.trans (List.tail_suffix reached))

/-- Characters that take each other are used up. -/
theorem advance_spec {p c : Char} {pattern text : List Char} {star : Option (List Char × List Char)}
    (h : Consistent bound length ⟨p :: pattern, c :: text, star⟩) (htakes : Takes p c) :
    Consistent bound length ⟨pattern, text, star⟩ ∧
      (Answers ⟨pattern, text, star⟩ ↔ Answers ⟨p :: pattern, c :: text, star⟩) ∧
      measure bound length ⟨pattern, text, star⟩ <
        measure bound length ⟨p :: pattern, c :: text, star⟩ := by
  refine ⟨⟨Nat.le_of_succ_le h.text, fun hstar => Nat.le_of_succ_le (h.pattern hstar), ?_⟩, ?_, ?_⟩
  · intro behind reached hstar
    obtain ⟨hlength, hrun⟩ := h.run behind reached hstar
    exact ⟨hlength, hrun.snoc htakes⟩
  · exact or_congr_left (matchesLiterally_of_takes htakes).symm
  · unfold measure
    obtain _ | ⟨behind, reached⟩ := star
    · exact Nat.add_lt_add_left (Nat.lt_succ_self _) _
    · exact Nat.add_lt_add_left (Nat.lt_succ_self _) _

/-- A match of a star may reach anywhere. -/
theorem star_spec {c : Char} {pattern text : List Char} {star : Option (List Char × List Char)}
    (h : Consistent bound length ⟨'*' :: pattern, c :: text, star⟩) (hc : c ≠ '*') :
    Consistent bound length ⟨pattern, c :: text, some (pattern, c :: text)⟩ ∧
      (Answers ⟨pattern, c :: text, some (pattern, c :: text)⟩ ↔
        Answers ⟨'*' :: pattern, c :: text, star⟩) ∧
      measure bound length ⟨pattern, c :: text, some (pattern, c :: text)⟩ <
        measure bound length ⟨'*' :: pattern, c :: text, star⟩ := by
  refine ⟨⟨h.text, fun hstar => (by cases hstar), ?_⟩, ?_, ?_⟩
  · rintro behind reached hstar
    obtain ⟨rfl, rfl⟩ := Prod.mk.inj (Option.some.inj hstar)
    exact ⟨h.text, .nil _ _⟩
  · -- The pattern behind the star is sought in every rest of the text, and so it is by an earlier
    -- star.
    have hnew : Answers ⟨pattern, c :: text, some (pattern, c :: text)⟩ ↔
        ∃ rest, rest <:+ c :: text ∧ MatchesLiterally pattern rest := by
      constructor
      · rintro (hmatch | ⟨behind, reached, rest, hstar, -, hrest, hmatch⟩)
        · exact ⟨_, List.suffix_rfl, hmatch⟩
        · obtain ⟨rfl, rfl⟩ := Prod.mk.inj (Option.some.inj hstar)
          exact ⟨rest, hrest.trans (List.tail_suffix _), hmatch⟩
      · rintro ⟨rest, hrest, hmatch⟩
        obtain rfl | ⟨hne, hrest⟩ := suffix_iff.mp hrest
        · exact .inl hmatch
        · exact .inr ⟨pattern, c :: text, rest, rfl, hne, hrest, hmatch⟩
    rw [hnew, ← matchesLiterally_star hc]
    refine ⟨.inl, ?_⟩
    rintro (hmatch | ⟨behind, reached, rest, hstar, -, hrest, hmatch⟩)
    · exact hmatch
    · obtain ⟨rest', hrest', hmatch'⟩ := exists_of_star h hstar hrest hmatch
      obtain ⟨rest'', hrest'', hmatch''⟩ := hmatch'.tail
      exact (matchesLiterally_star hc).mpr ⟨rest'', hrest''.trans hrest', hmatch''⟩
  · have hbound : (c :: text).length ≤ bound := h.text
    have hmul : (c :: text).length * (bound + 1) ≤ bound * (bound + 1) :=
      Nat.mul_le_mul_right _ hbound
    have hsquare : (bound + 1) ^ 2 = bound * (bound + 1) + bound + 1 := by ring
    have hold : (pattern.length + 1) * (bound + 1) ^ 2 ≤
        measure bound length ⟨'*' :: pattern, c :: text, star⟩ := by
      unfold measure
      obtain _ | ⟨behind, reached⟩ := star
      · have hlength : pattern.length + 1 ≤ length := h.pattern rfl
        exact (Nat.mul_le_mul_right _ (Nat.le_succ_of_le hlength)).trans (Nat.le_add_right _ _)
      · have hlength : pattern.length + 1 ≤ behind.length :=
          (h.run behind reached rfl).2.length_le.1
        refine (Nat.mul_le_mul_right _ hlength).trans ?_
        show _ ≤ behind.length * (bound + 1) ^ 2 + reached.length * (bound + 1) + (c :: text).length
        rw [Nat.add_assoc]
        exact Nat.le_add_right _ _
    refine Nat.lt_of_lt_of_le ?_ hold
    show pattern.length * (bound + 1) ^ 2 + (c :: text).length * (bound + 1) + (c :: text).length <
      (pattern.length + 1) * (bound + 1) ^ 2
    rw [Nat.add_mul, Nat.one_mul]
    omega

/-- The matcher returns to the last star. -/
theorem return_spec {c : Char} {pattern text behind reached : List Char}
    (h : Consistent bound length ⟨pattern, c :: text, some (behind, reached)⟩)
    (hstuck : ¬ MatchesLiterally pattern (c :: text)) :
    Consistent bound length ⟨behind, reached.tail, some (behind, reached.tail)⟩ ∧
      (Answers ⟨behind, reached.tail, some (behind, reached.tail)⟩ ↔
        Answers ⟨pattern, c :: text, some (behind, reached)⟩) ∧
      measure bound length ⟨behind, reached.tail, some (behind, reached.tail)⟩ <
        measure bound length ⟨pattern, c :: text, some (behind, reached)⟩ := by
  obtain ⟨hbound, hrun⟩ := h.run behind reached rfl
  have hlength := hrun.length_le.2
  obtain _ | ⟨d, reached⟩ := reached
  · exact absurd hlength (Nat.not_succ_le_zero _)
  have htail : reached.length ≤ bound := Nat.le_of_succ_le hbound
  refine ⟨⟨htail, fun hstar => (by cases hstar), ?_⟩, ?_, ?_⟩
  · intro behind' reached' hstar
    obtain ⟨rfl, rfl⟩ := Prod.mk.inj (Option.some.inj hstar)
    exact ⟨htail, .nil _ _⟩
  · constructor
    · rintro (hmatch | ⟨behind', reached', rest, hstar, -, hrest, hmatch⟩)
      · exact .inr ⟨behind, d :: reached, reached, rfl, List.cons_ne_nil _ _,
          List.suffix_rfl, hmatch⟩
      · obtain ⟨rfl, rfl⟩ := Prod.mk.inj (Option.some.inj hstar)
        exact .inr ⟨behind, d :: reached, rest, rfl, List.cons_ne_nil _ _,
          hrest.trans (List.tail_suffix _), hmatch⟩
    · rintro (hmatch | ⟨behind', reached', rest, hstar, -, hrest, hmatch⟩)
      · exact absurd hmatch hstuck
      · obtain ⟨rfl, rfl⟩ := Prod.mk.inj (Option.some.inj hstar)
        obtain rfl | ⟨hne, hrest⟩ := suffix_iff.mp hrest
        · exact .inl hmatch
        · exact .inr ⟨behind, reached, rest, rfl, hne, hrest, hmatch⟩
  · show behind.length * (bound + 1) ^ 2 + reached.length * (bound + 1) + reached.length <
      behind.length * (bound + 1) ^ 2 + (reached.length + 1) * (bound + 1) + (c :: text).length
    rw [Nat.add_mul reached.length, Nat.one_mul]
    omega

/-- A round of the loop: it gives the answer, or a state with the same answer and fewer rounds
left. -/
theorem round_spec (h : Consistent bound length s) :
    (∃ answer, round s = .inr answer ∧ (answer = true ↔ Answers s)) ∨
      ∃ s', round s = .inl s' ∧ Consistent bound length s' ∧ (Answers s' ↔ Answers s) ∧
        measure bound length s' < measure bound length s := by
  obtain ⟨pattern, text, star⟩ := s
  cases text with
  | nil =>
    refine .inl ⟨pattern.all (· = '*'), by cases pattern <;> rfl, ?_⟩
    have hall : pattern.all (· = '*') = true ↔ MatchesLiterally pattern [] := by
      rw [matchesLiterally_nil_iff, List.all_eq_true]
      simp
    rw [hall]
    refine ⟨.inl, ?_⟩
    rintro (hmatch | ⟨behind, reached, rest, hstar, -, hrest, hmatch⟩)
    · exact hmatch
    · obtain ⟨rest', hrest', hmatch'⟩ := exists_of_star h hstar hrest hmatch
      rwa [List.suffix_nil.mp hrest'] at hmatch'
  | cons c text =>
    -- Where nothing can be taken, the answer is that of the last star.
    have hreturn : ¬ MatchesLiterally pattern (c :: text) →
        round ⟨pattern, c :: text, star⟩ = back star →
        (∃ answer, round ⟨pattern, c :: text, star⟩ = .inr answer ∧
            (answer = true ↔ Answers ⟨pattern, c :: text, star⟩)) ∨
          ∃ s', round ⟨pattern, c :: text, star⟩ = .inl s' ∧ Consistent bound length s' ∧
            (Answers s' ↔ Answers ⟨pattern, c :: text, star⟩) ∧
            measure bound length s' < measure bound length ⟨pattern, c :: text, star⟩ := by
      intro hstuck hround
      obtain _ | ⟨behind, reached⟩ := star
      · refine .inl ⟨false, hround, ⟨fun hfalse => (by cases hfalse), ?_⟩⟩
        rintro (hmatch | ⟨behind, reached, rest, hstar, -⟩)
        · exact absurd hmatch hstuck
        · cases hstar
      · exact .inr ⟨_, hround, return_spec h hstuck⟩
    cases pattern with
    | nil => exact hreturn not_matchesLiterally_nil_cons rfl
    | cons p pattern =>
      by_cases htakes : Takes p c
      · have hround : round ⟨p :: pattern, c :: text, star⟩ = .inl ⟨pattern, text, star⟩ :=
          if_pos htakes
        exact .inr ⟨_, hround, advance_spec h htakes⟩
      · by_cases hp : p = '*'
        · subst hp
          have hc : c ≠ '*' := fun hc => htakes (.inr hc.symm)
          have hround : round ⟨'*' :: pattern, c :: text, star⟩ =
              .inl ⟨pattern, c :: text, some (pattern, c :: text)⟩ :=
            (if_neg htakes).trans (if_pos rfl)
          exact .inr ⟨_, hround, star_spec h hc⟩
        · exact hreturn (not_matchesLiterally_of_not_takes htakes hp)
            ((if_neg htakes).trans (if_neg hp))

/-- The loop ends, and its answer is that of the narrower meaning. -/
theorem loop_spec (h : Consistent bound length s) {fuel : ℕ}
    (hfuel : measure bound length s < fuel) :
    ∃ answer, loop fuel s = some answer ∧ (answer = true ↔ Answers s) := by
  induction fuel generalizing s with
  | zero => exact absurd hfuel (Nat.not_lt_zero _)
  | succ fuel ih =>
    obtain ⟨answer, hround, hanswer⟩ | ⟨s', hround, hs', hanswers, hless⟩ := round_spec h
    · exact ⟨answer, by rw [loop, hround], hanswer⟩
    · obtain ⟨answer, hloop, hanswer⟩ := ih hs' (Nat.lt_of_lt_of_le hless (Nat.le_of_lt_succ hfuel))
      exact ⟨answer, by rw [loop, hround]; exact hloop, hanswer.trans hanswers⟩

end Wildcard

/-- `wildcard_match`. -/
def wildcardMatch (pattern text : String) : Option Bool :=
  Wildcard.loop (Wildcard.rounds pattern.toList text.toList)
    (Wildcard.start pattern.toList text.toList)

open Wildcard

/-- `wildcard_match` is right about a pattern and a text. -/
def WildcardCorrect (pattern text : String) : Prop :=
  wildcardMatch pattern text = some true ↔ Matches pattern.toList text.toList

/-- The loop ends within its rounds, whatever more it is given. -/
theorem loop_start (pattern text : List Char) :
    ∃ answer, (∀ fuel, rounds pattern text ≤ fuel → loop fuel (start pattern text) = some answer) ∧
      (answer = true ↔ MatchesLiterally pattern text) := by
  have hstart : Consistent text.length pattern.length (start pattern text) :=
    ⟨Nat.le_refl _, fun _ => Nat.le_refl _, fun behind reached hstar => by cases hstar⟩
  have hmeasure : measure text.length pattern.length (start pattern text) <
      rounds pattern text := by
    show (pattern.length + 1) * (text.length + 1) ^ 2 + text.length <
      (pattern.length + 2) * (text.length + 1) ^ 2
    have hsquare :
        (text.length + 1) ^ 2 = text.length * text.length + text.length + text.length + 1 := by
      ring
    rw [Nat.add_mul pattern.length 2, Nat.add_mul pattern.length 1]
    omega
  have hanswers : Answers (start pattern text) ↔ MatchesLiterally pattern text := by
    refine ⟨?_, .inl⟩
    rintro (hmatch | ⟨behind, reached, rest, hstar, -⟩)
    · exact hmatch
    · cases hstar
  obtain ⟨answer, hloop, hanswer⟩ := loop_spec hstart hmeasure
  refine ⟨answer, fun fuel hfuel => ?_, hanswer.trans hanswers⟩
  obtain ⟨answer', hloop', hanswer'⟩ := loop_spec hstart (Nat.lt_of_lt_of_le hmeasure hfuel)
  rw [hloop', Option.some.injEq, Bool.eq_iff_iff]
  exact hanswer'.trans hanswer.symm

theorem wildcardMatch_eq_true_iff (pattern text : String) :
    wildcardMatch pattern text = some true ↔ MatchesLiterally pattern.toList text.toList := by
  obtain ⟨answer, hloop, hanswer⟩ := loop_start pattern.toList text.toList
  rw [wildcardMatch, hloop _ (Nat.le_refl _), Option.some.injEq]
  exact hanswer

/-- A text with a star: the question marks count too many characters for a star that stands for the
star of the text. -/
theorem exists_not_literally {text : List Char} (h : '*' ∈ text) :
    ∃ pattern, Matches pattern text ∧ ¬ MatchesLiterally pattern text := by
  obtain ⟨before, behind, rfl⟩ := List.append_of_mem h
  refine ⟨List.replicate before.length '?' ++ '*' :: List.replicate (behind.length + 1) '?', ?_, ?_⟩
  · have hcount : MatchesLiterally (List.replicate (behind.length + 1) '?') ('*' :: behind) :=
      matchesLiterally_replicate.mpr rfl
    have hbehind : Matches ('*' :: List.replicate (behind.length + 1) '?') ('*' :: behind) :=
      .star List.suffix_rfl hcount.matches
    clear h
    induction before with
    | nil => exact hbehind
    | cons c before ih => exact .any c ih
  · clear h
    induction before with
    | nil =>
      intro hmatch
      -- The star takes the star, and a character is missing behind it.
      have hbehind := (matchesLiterally_of_takes (.inr rfl)).mp hmatch
      rw [matchesLiterally_replicate] at hbehind
      omega
    | cons c before ih => exact fun hmatch => ih ((matchesLiterally_of_takes (.inl rfl)).mp hmatch)

/-- The loop always ends. Its answer is right exactly when a text that matches the pattern also
matches it with each star that meets a star of the text standing for this one; and it is right about
a text for all patterns exactly when the text has no star. -/
theorem wildcardMatch_correct_iff (pattern text : String) :
    (∃ answer, ∀ fuel, rounds pattern.toList text.toList ≤ fuel →
        loop fuel (start pattern.toList text.toList) = some answer) ∧
      (WildcardCorrect pattern text ↔
        (Matches pattern.toList text.toList → MatchesLiterally pattern.toList text.toList)) ∧
      ((∀ pattern, WildcardCorrect pattern text) ↔ '*' ∉ text.toList) := by
  have hcorrect : ∀ pattern, WildcardCorrect pattern text ↔
      (Matches pattern.toList text.toList → MatchesLiterally pattern.toList text.toList) := by
    intro pattern
    rw [WildcardCorrect, wildcardMatch_eq_true_iff]
    exact ⟨Iff.mpr, fun h => ⟨MatchesLiterally.matches, h⟩⟩
  refine ⟨?_, hcorrect pattern, ?_⟩
  · obtain ⟨answer, hloop, -⟩ := loop_start pattern.toList text.toList
    exact ⟨answer, hloop⟩
  · constructor
    · intro hall hstar
      obtain ⟨pattern, hmatch, hliterally⟩ := exists_not_literally hstar
      have hpattern := (hcorrect (.ofList pattern)).mp (hall _)
      rw [String.toList_ofList] at hpattern
      exact hliterally (hpattern hmatch)
    · exact fun hstar pattern => (hcorrect pattern).mpr fun hmatch => hmatch.literally hstar

/-- A star does not match a text that begins with a star. -/
theorem not_wildcardCorrect_of_star : ¬ WildcardCorrect "*" "*a" := by
  have hanswer : wildcardMatch "*" "*a" = some false := by decide
  have hmatches : Matches "*".toList "*a".toList := .star (List.nil_suffix) .nil
  intro hcorrect
  have htrue := hcorrect.mpr hmatches
  rw [hanswer] at htrue
  cases htrue

end Rsupervisord
