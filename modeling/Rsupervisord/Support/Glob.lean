import Mathlib.Data.List.Basic

/-!
# Glob patterns

Patterns with stars and question marks over texts of characters.

* `Matches`: the meaning of a pattern. A star stands for any characters, a question mark for one.
* `MatchesLiterally`: the narrower meaning in which a star that meets a star of the text stands for
  exactly this one.
* `matchesLiterally_iff`: on texts without stars both are the same.
* `matches_cons_star_iff`, `matches_append_star_iff`: a single star at an end of a pattern stands
  for what is left of the text there.
* `MatchesLiterally.of_run`: what follows on a run of single characters is found no earlier in any
  later part of the text; this is why a matcher only has to go back to the last star.
-/

namespace Glob

/-- A text matches a pattern. -/
inductive Matches : List Char → List Char → Prop
  | nil : Matches [] []
  | star {pattern text rest : List Char} (hrest : rest <:+ text) (h : Matches pattern rest) :
      Matches ('*' :: pattern) text
  | any {pattern text : List Char} (c : Char) (h : Matches pattern text) :
      Matches ('?' :: pattern) (c :: text)
  | char {pattern text : List Char} {c : Char} (hstar : c ≠ '*') (hany : c ≠ '?')
      (h : Matches pattern text) : Matches (c :: pattern) (c :: text)

/-- A character of a pattern takes a character of the text by itself. -/
def Takes (p c : Char) : Prop := p = '?' ∨ p = c

instance (p c : Char) : Decidable (Takes p c) := inferInstanceAs (Decidable (_ ∨ _))

/-- A text matches a pattern in which each star that meets a star of the text stands for this
one. -/
inductive MatchesLiterally : List Char → List Char → Prop
  | nil : MatchesLiterally [] []
  | star {pattern text rest : List Char} (hhead : text.head? ≠ some '*') (hrest : rest <:+ text)
      (h : MatchesLiterally pattern rest) : MatchesLiterally ('*' :: pattern) text
  | one {pattern text : List Char} {p c : Char} (htakes : Takes p c)
      (h : MatchesLiterally pattern text) : MatchesLiterally (p :: pattern) (c :: text)

/-- The single characters of a pattern and of a text that take each other, up to the rests of
both. -/
inductive Run : List Char → List Char → List Char → List Char → Prop
  | nil (pattern text : List Char) : Run pattern text pattern text
  | snoc {pattern text pattern' text' : List Char} {p c : Char}
      (h : Run pattern text (p :: pattern') (c :: text')) (htakes : Takes p c) :
      Run pattern text pattern' text'

variable {pattern text pattern' text' rest : List Char} {p c : Char}

/-! ## The two meanings -/

theorem MatchesLiterally.matches (h : MatchesLiterally pattern text) : Matches pattern text := by
  induction h with
  | nil => exact .nil
  | star _ hrest _ ih => exact .star hrest ih
  | @one pattern text p c htakes _ ih =>
    obtain rfl | rfl := htakes
    · exact .any c ih
    · by_cases hstar : p = '*'
      · subst hstar
        exact .star (List.suffix_cons '*' text) ih
      · by_cases hany : p = '?'
        · subst hany
          exact .any _ ih
        · exact .char hstar hany ih

/-- No star of the pattern meets a star when the text has none. -/
theorem Matches.literally (h : Matches pattern text) (hstar : '*' ∉ text) :
    MatchesLiterally pattern text := by
  induction h with
  | nil => exact .nil
  | star hrest _ ih =>
    refine .star (fun hhead => hstar (List.mem_of_head? hhead)) hrest (ih fun hmem => ?_)
    exact hstar (hrest.subset hmem)
  | any c _ ih => exact .one (.inl rfl) (ih fun hmem => hstar (List.mem_cons_of_mem c hmem))
  | @char _ _ c _ _ _ ih =>
      exact .one (.inr rfl) (ih fun hmem => hstar (List.mem_cons_of_mem c hmem))

theorem matchesLiterally_iff (hstar : '*' ∉ text) :
    MatchesLiterally pattern text ↔ Matches pattern text :=
  ⟨MatchesLiterally.matches, fun h => h.literally hstar⟩

/-- A pattern of question marks counts the characters. -/
theorem matchesLiterally_replicate {n : ℕ} :
    MatchesLiterally (List.replicate n '?') text ↔ text.length = n := by
  constructor
  · intro h
    induction n generalizing text with
    | zero =>
      cases h
      rfl
    | succ n ih =>
      rw [List.replicate_succ] at h
      cases h with
      | one _ h => rw [List.length_cons, ih h]
  · intro h
    induction n generalizing text with
    | zero =>
      rw [List.length_eq_zero_iff.mp h]
      exact .nil
    | succ n ih =>
      cases text with
      | nil => cases h
      | cons c text => exact .one (.inl rfl) (ih (Nat.succ.inj h))

/-! ## Steps of a matcher -/

/-- A pattern that is used up matches no more characters. -/
theorem not_matchesLiterally_nil_cons : ¬ MatchesLiterally [] (c :: text) := by
  intro h
  cases h

/-- At the end of the text only stars may be left. -/
theorem matchesLiterally_nil_iff : MatchesLiterally pattern [] ↔ ∀ p ∈ pattern, p = '*' := by
  constructor
  · intro h
    generalize htext : ([] : List Char) = text at h
    induction h with
    | nil => exact fun p hp => absurd hp List.not_mem_nil
    | star _ hrest _ ih =>
      subst htext
      exact List.forall_mem_cons.mpr ⟨rfl, ih (List.suffix_nil.mp hrest).symm⟩
    | one => cases htext
  · intro h
    induction pattern with
    | nil => exact .nil
    | cons p pattern ih =>
      obtain ⟨rfl, hall⟩ := List.forall_mem_cons.mp h
      exact .star (fun hhead => by cases hhead) List.suffix_rfl (ih hall)

/-- Where the characters take each other, both are used up. -/
theorem matchesLiterally_of_takes (htakes : Takes p c) :
    MatchesLiterally (p :: pattern) (c :: text) ↔ MatchesLiterally pattern text := by
  refine ⟨fun h => ?_, .one htakes⟩
  cases h with
  | one _ h => exact h
  | star hhead _ _ =>
    obtain hp | rfl := htakes
    · exact absurd hp (by decide)
    · exact absurd rfl hhead

/-- A star that does not meet a star stands for any characters. -/
theorem matchesLiterally_star (hc : c ≠ '*') :
    MatchesLiterally ('*' :: pattern) (c :: text) ↔
      ∃ rest, rest <:+ c :: text ∧ MatchesLiterally pattern rest := by
  constructor
  · intro h
    cases h with
    | one htakes _ =>
      obtain hp | rfl := htakes
      · exact absurd hp (by decide)
      · exact absurd rfl hc
    | star _ hrest h => exact ⟨_, hrest, h⟩
  · rintro ⟨rest, hrest, h⟩
    exact .star (fun hhead => hc (Option.some.inj hhead)) hrest h

/-- Characters that do not take each other do not match. -/
theorem not_matchesLiterally_of_not_takes (htakes : ¬ Takes p c) (hp : p ≠ '*') :
    ¬ MatchesLiterally (p :: pattern) (c :: text) := by
  intro h
  cases h with
  | one h' _ => exact htakes h'
  | star => exact hp rfl

/-- What a pattern matches in a part of the text, the rest of the pattern behind its first character
matches in a smaller part. -/
theorem MatchesLiterally.tail (h : MatchesLiterally (p :: pattern) text) :
    ∃ rest, rest <:+ text ∧ MatchesLiterally pattern rest := by
  cases h with
  | star _ hrest h => exact ⟨_, hrest, h⟩
  | one _ h => exact ⟨_, List.suffix_cons _ _, h⟩

/-- Behind a run of single characters the rest of the pattern is found no earlier in a later part of
the text. -/
theorem MatchesLiterally.of_run (hrun : Run pattern text pattern' text') (hrest : rest <:+ text)
    (h : MatchesLiterally pattern rest) :
    ∃ rest', rest' <:+ text' ∧ MatchesLiterally pattern' rest' := by
  induction hrun with
  | nil => exact ⟨rest, hrest, h⟩
  | @snoc pattern' text' p c _ htakes ih =>
    obtain ⟨rest', hrest', h'⟩ := ih
    obtain rfl | hlater := List.suffix_cons_iff.mp hrest'
    · exact ⟨text', List.suffix_rfl, (matchesLiterally_of_takes htakes).mp h'⟩
    · obtain ⟨rest'', hrest'', h''⟩ := h'.tail
      exact ⟨rest'', hrest''.trans hlater, h''⟩

/-- A run leaves no more than it began with. -/
theorem Run.length_le (h : Run pattern text pattern' text') :
    pattern'.length ≤ pattern.length ∧ text'.length ≤ text.length := by
  induction h with
  | nil => exact ⟨Nat.le_refl _, Nat.le_refl _⟩
  | snoc _ _ ih => exact ⟨Nat.le_of_succ_le ih.1, Nat.le_of_succ_le ih.2⟩

/-! ## Patterns without stars and question marks -/

/-- Characters without stars and question marks. -/
def Bare (cs : List Char) : Prop := '*' ∉ cs ∧ '?' ∉ cs

instance (cs : List Char) : Decidable (Bare cs) := inferInstanceAs (Decidable (_ ∧ _))

@[simp]
theorem bare_nil : Bare [] := ⟨List.not_mem_nil, List.not_mem_nil⟩

theorem bare_cons : Bare (c :: text) ↔ (c ≠ '*' ∧ c ≠ '?') ∧ Bare text := by
  simp only [Bare, List.mem_cons, not_or, ne_comm, ne_eq]
  tauto

theorem Bare.subset {cs ds : List Char} (h : Bare ds) (hsubset : cs ⊆ ds) : Bare cs :=
  ⟨fun hc => h.1 (hsubset hc), fun hc => h.2 (hsubset hc)⟩

/-- Characters without stars and question marks match themselves. -/
theorem matches_iff_of_bare (h : Bare pattern) : Matches pattern text ↔ pattern = text := by
  constructor
  · intro hmatch
    induction hmatch with
    | nil => rfl
    | star => exact absurd rfl (bare_cons.mp h).1.1
    | any => exact absurd rfl (bare_cons.mp h).1.2
    | char _ _ _ ih => rw [ih (bare_cons.mp h).2]
  · rintro rfl
    induction pattern with
    | nil => exact .nil
    | cons p pattern ih =>
      obtain ⟨⟨hstar, hany⟩, hpattern⟩ := bare_cons.mp h
      exact .char hstar hany (ih hpattern)

/-- A star at the start stands for what is left of the text before the rest. -/
theorem matches_cons_star_iff (h : Bare pattern) :
    Matches ('*' :: pattern) text ↔ pattern <:+ text := by
  constructor
  · intro hmatch
    cases hmatch with
    | star hrest hmatch =>
      rw [(matches_iff_of_bare h).mp hmatch]
      exact hrest
    | char hstar => exact absurd rfl hstar
  · intro hsuffix
    exact .star hsuffix ((matches_iff_of_bare h).mpr rfl)

/-- A star at the end stands for what is left of the text behind the rest. -/
theorem matches_append_star_iff (h : Bare pattern) :
    Matches (pattern ++ ['*']) text ↔ pattern <+: text := by
  induction pattern generalizing text with
  | nil => exact ⟨fun _ => List.nil_prefix, fun _ => .star List.nil_suffix .nil⟩
  | cons p pattern ih =>
    obtain ⟨⟨hstar, hany⟩, hpattern⟩ := bare_cons.mp h
    rw [List.cons_append]
    constructor
    · intro hmatch
      cases hmatch with
      | star => exact absurd rfl hstar
      | any => exact absurd rfl hany
      | char _ _ hmatch => exact List.cons_prefix_cons.mpr ⟨rfl, (ih hpattern).mp hmatch⟩
    · intro hpre
      cases text with
      | nil => exact absurd (List.prefix_nil.mp hpre) (List.cons_ne_nil _ _)
      | cons c text =>
        obtain ⟨rfl, hrest⟩ := List.cons_prefix_cons.mp hpre
        exact .char hstar hany ((ih hpattern).mpr hrest)

/-- Each pattern matches a text without stars and question marks. -/
theorem exists_matches_bare (pattern : List Char) : ∃ text, Bare text ∧ Matches pattern text := by
  induction pattern with
  | nil => exact ⟨[], bare_nil, .nil⟩
  | cons p pattern ih =>
    obtain ⟨text, hbare, hmatch⟩ := ih
    by_cases hstar : p = '*'
    · subst hstar
      exact ⟨text, hbare, .star List.suffix_rfl hmatch⟩
    · by_cases hany : p = '?'
      · subst hany
        exact ⟨'x' :: text, bare_cons.mpr ⟨by decide, hbare⟩, .any 'x' hmatch⟩
      · exact ⟨p :: text, bare_cons.mpr ⟨⟨hstar, hany⟩, hbare⟩, .char hstar hany hmatch⟩

end Glob
