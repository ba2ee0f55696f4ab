import Rsupervisord.Config.Transform

/-!
# Strings of literals and references

A string of a configuration is written here as a list of segments: literals, whose percent and
dollar signs are doubled, and references to variables. When the configuration is loaded, a string is
expanded leniently: where an evaluation would fail, it is left as it is.

## Main definitions

* `StringExpression.Segment`, `StringExpression.render`: the segments of a string and its text.
* `StringExpression.valueOf`: what the string stands for, the literals and the values.
* `StringExpression.loaded`: the text that the lenient expansion leaves.

## Main results

* `StringExpression.evalNamed_render`: one evaluation of a list of segments.
* `StringExpression.expandValueWithExpr_render`: the lenient expansion of a list of segments.
-/

namespace Rsupervisord

namespace StringExpression

/-- A name that a reference can spell. -/
structure VarName where
  name : String
  nonempty : name ≠ ""
  trimmed : Text.trim name = name
  closed : ')' ∉ name.toList

/-- A segment of a string. -/
inductive Segment
  | literal (text : List Char)
  /-- `%(name)s`. -/
  | percent (var : VarName)
  /-- `$(name)`. -/
  | dollar (var : VarName)

/-- A character of a literal. -/
def escape (c : Char) : List Char := if c = '%' ∨ c = '$' then [c, c] else [c]

namespace Segment

/-- How a segment is written. -/
def render : Segment → List Char
  | literal text => text.flatMap escape
  | percent var => '%' :: '(' :: var.name.toList ++ [')', 's']
  | dollar var => '$' :: '(' :: var.name.toList ++ [')']

/-- What a segment stands for. -/
def value (vars : HashMap String String) : Segment → List Char
  | literal text => text
  | percent var | dollar var => ((vars.lookup var.name).getD "").toList

/-- What is left of a segment by one evaluation. A reference `$(name)` to an unknown variable
stays. -/
def remains (vars : HashMap String String) : Segment → List Char
  | literal text => text
  | percent var => ((vars.lookup var.name).getD "").toList
  | dollar var =>
      match vars.lookup var.name with
      | some val => val.toList
      | none => (dollar var).render

/-- The variable of a reference is defined. -/
def Defined (vars : HashMap String String) : Segment → Prop
  | literal _ => True
  | percent var | dollar var => (vars.lookup var.name).isSome

/-- What the variable of a reference is for `vars₁` it is for `vars₂`, too. -/
def Agrees (vars₁ vars₂ : HashMap String String) : Segment → Prop
  | literal _ => True
  | percent var | dollar var =>
      ∀ val, vars₁.lookup var.name = some val → vars₂.lookup var.name = some val

/-- An evaluation does not fail at the segment. -/
def Known (vars : HashMap String String) : Segment → Prop
  | percent var => (vars.lookup var.name).isSome
  | _ => True

end Segment

/-- The string of some segments. -/
def render (segments : List Segment) : List Char := segments.flatMap Segment.render

/-- The text begins with a format specifier. -/
def ReadsSpecifier (cs : List Char) : Prop :=
  ∃ c ∈ (cs.dropWhile isSpecFlag).head?, c = 's' ∨ c = 'd' ∨ c = 'i'

/-- No reference `$(name)` is before a format specifier, which would be taken for its own. -/
def Separated : List Segment → Prop
  | [] => True
  | .dollar _ :: segments => ¬ ReadsSpecifier (render segments) ∧ Separated segments
  | _ :: segments => Separated segments

variable {vars : HashMap String String} {text contextName : String} {var : VarName} {val : String}
  {rest cs : List Char} {fuel : ℕ} {segments : List Segment}

/-! ## One evaluation -/

theorem evalChars_cons (ch : Char) (out rest' : List Char)
    (h : nextPiece vars text contextName ch rest = .ok (out, rest')) :
    evalChars vars text contextName (fuel + 1) (ch :: rest) =
      (evalChars vars text contextName fuel rest').map (out ++ ·) := by
  rw [evalChars, h]
  simp only [bind, Except.bind]
  cases evalChars vars text contextName fuel rest' <;> rfl

theorem dropWhile_name : (var.name.toList ++ ')' :: rest).dropWhile (· ≠ ')') = ')' :: rest := by
  rw [List.dropWhile_append_of_pos, List.dropWhile_cons_of_neg (by simp)]
  rintro c hc
  have hne : c ≠ ')' := by
    rintro rfl
    exact var.closed hc
  simpa using hne

theorem takeWhile_name : (var.name.toList ++ ')' :: rest).takeWhile (· ≠ ')') =
    var.name.toList := by
  rw [List.takeWhile_append_of_pos, List.takeWhile_cons_of_neg (by simp), List.append_nil]
  rintro c hc
  have hne : c ≠ ')' := by
    rintro rfl
    exact var.closed hc
  simpa using hne

theorem trim_name :
    Text.trim (.ofList ((var.name.toList ++ ')' :: rest).takeWhile (· ≠ ')'))) = var.name := by
  rw [takeWhile_name, String.ofList_toList, var.trimmed]

/-- A reference is read up to its closing parenthesis. -/
theorem reference_of_some (trigger : Char) (h : vars.lookup var.name = some val) :
    reference vars text contextName trigger (var.name.toList ++ ')' :: rest) =
      formatReference trigger var.name val text contextName rest := by
  have hempty : var.name.isEmpty = false := by simpa using var.nonempty
  unfold reference
  rw [dropWhile_name]
  simp only
  rw [trim_name, hempty, h]
  rfl

theorem reference_dollar_of_none (h : vars.lookup var.name = none) :
    reference vars text contextName '$' (var.name.toList ++ ')' :: rest) =
      .ok ((Segment.dollar var).render, rest) := by
  have hempty : var.name.isEmpty = false := by simpa using var.nonempty
  unfold reference
  rw [dropWhile_name]
  simp only
  rw [trim_name, hempty, h, takeWhile_name]
  rfl

/-- A reference `$(name)` to an unknown variable is left as it is written. -/
theorem reference_dollar_of_unknown {name : List Char} (hclosed : ')' ∉ name)
    (hname : Text.trim (.ofList name) ≠ "") (h : vars.lookup (Text.trim (.ofList name)) = none) :
    reference vars text contextName '$' (name ++ ')' :: rest) =
      .ok ('$' :: '(' :: name ++ [')'], rest) := by
  have hne : ∀ c ∈ name, decide (c ≠ ')') = true := fun c hc =>
    decide_eq_true fun heq => hclosed (heq ▸ hc)
  have htake : (name ++ ')' :: rest).takeWhile (· ≠ ')') = name := by
    rw [List.takeWhile_append_of_pos hne, List.takeWhile_cons_of_neg (by simp), List.append_nil]
  have hdrop : (name ++ ')' :: rest).dropWhile (· ≠ ')') = ')' :: rest := by
    rw [List.dropWhile_append_of_pos hne, List.dropWhile_cons_of_neg (by simp)]
  have hempty : (Text.trim (.ofList name)).isEmpty = false := by simpa using hname
  unfold reference
  rw [hdrop]
  simp only
  rw [htake, hempty, h]
  rfl

theorem reference_percent_of_none (h : vars.lookup var.name = none) :
    ∃ e, reference vars text contextName '%' (var.name.toList ++ ')' :: rest) = .error e := by
  have hempty : var.name.isEmpty = false := by simpa using var.nonempty
  unfold reference
  rw [dropWhile_name]
  simp only
  rw [trim_name, hempty, h]
  exact ⟨_, rfl⟩

/-- `%(name)s` is replaced by the value. -/
theorem formatReference_string (trigger : Char) (varName : String) :
    formatReference trigger varName val text contextName ('s' :: rest) =
    .ok (val.toList, rest) := by
  have hflag : isSpecFlag 's' = false := by decide
  simp [formatReference, hflag, formatValue, Except.map]

/-- `$(name)` is replaced by the value, unless a specifier is behind it. -/
theorem formatReference_dollar (varName : String) (h : ¬ ReadsSpecifier rest) :
    formatReference '$' varName val text contextName rest = .ok (val.toList, rest) := by
  unfold formatReference
  simp only [if_true]
  match hdrop : rest.dropWhile isSpecFlag with
  | [] => rfl
  | c :: cs =>
    have hc : ¬ (c = 's' ∨ c = 'd' ∨ c = 'i') := by
      intro hc
      exact h ⟨c, by rw [hdrop]; rfl, hc⟩
    simp only [hc, if_false]

/-- One iteration reads a segment that is no literal. -/
theorem nextPiece_open (trigger : Char) (ht : trigger = '%' ∨ trigger = '$') :
    nextPiece vars text contextName trigger ('(' :: rest) =
      reference vars text contextName trigger rest := by
  obtain rfl | rfl := ht <;> simp [nextPiece]

theorem map_append_map_append {ε : Type*} (x : Except ε (List Char)) (out outs : List Char) :
    (x.map (outs ++ ·)).map (out ++ ·) = x.map (out ++ outs ++ ·) := by
  cases x with
  | error e => rfl
  | ok cs => exact congrArg Except.ok (List.append_assoc out outs cs).symm

theorem map_nil_append {ε : Type*} (x : Except ε (List Char)) : x.map ([] ++ ·) = x := by
  cases x <;> rfl

/-- A literal is read as it was, character by character. -/
theorem evalChars_literal (literal : List Char)
    (hfuel : (literal.flatMap escape ++ rest).length ≤ fuel) :
    ∃ fuel', rest.length ≤ fuel' ∧
      evalChars vars text contextName fuel (literal.flatMap escape ++ rest) =
        (evalChars vars text contextName fuel' rest).map (literal ++ ·) := by
  induction literal generalizing fuel with
  | nil => exact ⟨fuel, hfuel, (map_nil_append _).symm⟩
  | cons c literal ih =>
    rw [List.flatMap_cons, List.append_assoc] at hfuel ⊢
    obtain ⟨fuel, rfl⟩ : ∃ f, fuel = f + 1 :=
      Nat.exists_eq_add_one.mpr
      (by rw [escape] at hfuel; split_ifs at hfuel <;> simp at hfuel <;> omega)
    have hpiece : ∃ cs, escape c ++ (literal.flatMap escape ++ rest) = c :: cs ∧
        nextPiece vars text contextName c cs = .ok ([c], literal.flatMap escape ++ rest) := by
      by_cases hc : c = '%' ∨ c = '$'
      · refine ⟨c :: (literal.flatMap escape ++ rest), by rw [escape, if_pos hc]; rfl, ?_⟩
        simp [nextPiece, hc]
      · refine ⟨literal.flatMap escape ++ rest, by rw [escape, if_neg hc]; rfl, ?_⟩
        simp [nextPiece, hc]
    have hlength : (literal.flatMap escape ++ rest).length ≤ fuel := by
      rw [List.length_append] at hfuel
      have hpos : 1 ≤ (escape c).length := by rw [escape]; split_ifs <;> simp
      omega
    obtain ⟨cs, hcs, hpiece⟩ := hpiece
    obtain ⟨fuel', hfuel', heval⟩ := ih hlength
    refine ⟨fuel', hfuel', ?_⟩
    rw [hcs, evalChars_cons c [c] _ hpiece, heval, map_append_map_append]
    rfl

/-- A segment that is known is replaced by what remains of it. -/
theorem evalChars_segment {segment : Segment} (hknown : segment.Known vars)
    (hseparated : Separated (segment :: segments))
    (hfuel : (segment.render ++ render segments).length ≤ fuel) :
    ∃ fuel', (render segments).length ≤ fuel' ∧
      evalChars vars text contextName fuel (segment.render ++ render segments) =
        (evalChars vars text contextName fuel' (render segments)).map
        (segment.remains vars ++ ·) := by
  match segment with
  | .literal literal => exact evalChars_literal literal hfuel
  | .percent var =>
    obtain ⟨val, hval⟩ := Option.isSome_iff_exists.mp hknown
    have happend : (Segment.percent var).render ++ render segments =
        '%' :: '(' :: (var.name.toList ++ ')' :: 's' :: render segments) := by simp [Segment.render]
    rw [happend] at hfuel ⊢
    obtain ⟨fuel, rfl⟩ : ∃ f, fuel = f + 1 := Nat.exists_eq_add_one.mpr (by simp at hfuel; omega)
    have hpiece : nextPiece vars text contextName '%'
        ('(' :: (var.name.toList ++ ')' :: 's' :: render segments)) =
          .ok (val.toList, render segments) := by
      rw [nextPiece_open '%' (.inl rfl), reference_of_some '%' hval, formatReference_string]
    refine ⟨fuel, by simp at hfuel; omega, ?_⟩
    rw [evalChars_cons '%' _ _ hpiece, Segment.remains, hval]
    rfl
  | .dollar var =>
    have happend : (Segment.dollar var).render ++ render segments =
        '$' :: '(' :: (var.name.toList ++ ')' :: render segments) := by simp [Segment.render]
    rw [happend] at hfuel ⊢
    obtain ⟨fuel, rfl⟩ : ∃ f, fuel = f + 1 := Nat.exists_eq_add_one.mpr (by simp at hfuel; omega)
    have hpiece : nextPiece vars text contextName '$'
        ('(' :: (var.name.toList ++ ')' :: render segments)) =
          .ok ((Segment.dollar var).remains vars, render segments) := by
      rw [nextPiece_open '$' (.inr rfl), Segment.remains]
      cases hval : vars.lookup var.name with
      | some val => rw [reference_of_some '$' hval, formatReference_dollar _ hseparated.1]
      | none => rw [reference_dollar_of_none hval]
    refine ⟨fuel, by simp at hfuel; omega, ?_⟩
    rw [evalChars_cons '$' _ _ hpiece]

/-! ## Whole strings -/

/-- What one evaluation leaves of a string whose percent references are known. -/
def leftover (vars : HashMap String String) (segments : List Segment) : List Char :=
  segments.flatMap (Segment.remains vars)

/-- What the string stands for. -/
def valueOf (vars : HashMap String String) (segments : List Segment) : List Char :=
  segments.flatMap (Segment.value vars)

theorem leftover_cons (segment : Segment) (segments : List Segment) :
    leftover vars (segment :: segments) = segment.remains vars ++ leftover vars segments :=
  List.flatMap_cons

theorem valueOf_cons (segment : Segment) (segments : List Segment) :
    valueOf vars (segment :: segments) = segment.value vars ++ valueOf vars segments :=
  List.flatMap_cons

/-- The guard of `eval_named` is a shortcut of its loop. -/
theorem evalNamed_ofList (cs : List Char) :
    evalNamed vars (.ofList cs) contextName =
      (evalChars vars (.ofList cs) contextName cs.length cs).map .ofList := by
  rw [evalNamed, String.toList_ofList, String.length_ofList]
  split_ifs with hplain
  · have hcopy : evalChars vars (.ofList cs) contextName cs.length cs = .ok cs := by
      generalize String.ofList cs = text
      induction cs with
      | nil => rfl
      | cons c cs ih =>
        have hc : ¬ (c = '%' ∨ c = '$') := by
          rintro (rfl | rfl)
          · exact hplain.1 List.mem_cons_self
          · exact hplain.2 List.mem_cons_self
        have hpiece : nextPiece vars text contextName c cs = .ok ([c], cs) := by
          simp [nextPiece, hc]
        rw [List.length_cons, evalChars_cons c [c] cs hpiece,
          ih ⟨fun h => hplain.1 (.tail _ h), fun h => hplain.2 (.tail _ h)⟩]
        rfl
    rw [hcopy]
    rfl
  · rfl

/-- A string of known references is evaluated segment by segment. -/
theorem evalChars_render (hknown : ∀ segment ∈ segments, segment.Known vars)
    (hseparated : Separated segments) (hfuel : (render segments).length ≤ fuel) :
    evalChars vars text contextName fuel (render segments) = .ok (leftover vars segments) := by
  induction segments generalizing fuel with
  | nil => cases fuel <;> rfl
  | cons segment segments ih =>
    obtain ⟨hhead, htail⟩ := List.forall_mem_cons.mp hknown
    rw [render, List.flatMap_cons] at hfuel ⊢
    obtain ⟨fuel', hfuel', heval⟩ := evalChars_segment hhead hseparated hfuel
    have hseparated' : Separated segments := by
      match segment, hseparated with
      | .literal _, h | .percent _, h => exact h
      | .dollar _, h => exact h.2
    rw [← render, heval, ih htail hseparated' hfuel']
    rfl

/-- An evaluation fails at a percent reference to an unknown variable. -/
theorem evalChars_render_of_unknown (hseparated : Separated segments)
    (hunknown : ¬ ∀ segment ∈ segments, segment.Known vars)
    (hfuel : (render segments).length ≤ fuel) :
    ∃ e, evalChars vars text contextName fuel (render segments) = .error e := by
  induction segments generalizing fuel with
  | nil => exact absurd (List.forall_mem_nil _) hunknown
  | cons segment segments ih =>
    rw [render, List.flatMap_cons] at hfuel ⊢
    have hseparated' : Separated segments := by
      match segment, hseparated with
      | .literal _, h | .percent _, h => exact h
      | .dollar _, h => exact h.2
    by_cases hhead : segment.Known vars
    · obtain ⟨fuel', hfuel', heval⟩ := evalChars_segment hhead hseparated hfuel
      obtain ⟨e, he⟩ := ih hseparated' (fun h => hunknown (List.forall_mem_cons.mpr ⟨hhead, h⟩))
        hfuel'
      rw [← render, heval, he]
      exact ⟨e, rfl⟩
    · match segment with
      | .literal _ | .dollar _ => exact absurd trivial hhead
      | .percent var =>
        have hnone : vars.lookup var.name = none := by
          rwa [Segment.Known, Option.not_isSome_iff_eq_none] at hhead
        have happend : (Segment.percent var).render ++ segments.flatMap Segment.render =
            '%' :: '(' :: (var.name.toList ++ ')' :: 's' :: render segments) := by
          simp [Segment.render, render]
        rw [happend] at hfuel ⊢
        obtain ⟨fuel, rfl⟩ : ∃ f, fuel = f + 1 :=
          Nat.exists_eq_add_one.mpr (by simp at hfuel; omega)
        obtain ⟨e, he⟩ : ∃ e, reference vars text contextName '%'
            (var.name.toList ++ ')' :: 's' :: render segments) = .error e :=
          reference_percent_of_none hnone
        refine ⟨e, ?_⟩
        rw [evalChars, nextPiece_open '%' (.inl rfl), he]
        rfl

theorem evalNamed_render (hknown : ∀ segment ∈ segments, segment.Known vars)
    (hseparated : Separated segments) :
    evalNamed vars (.ofList (render segments)) contextName =
      .ok (.ofList (leftover vars segments)) := by
  rw [evalNamed_ofList, evalChars_render hknown hseparated le_rfl]
  rfl

/-- Defined variables have their values behind one evaluation. -/
theorem leftover_of_defined (hdefined : ∀ segment ∈ segments, segment.Defined vars) :
    leftover vars segments = valueOf vars segments := by
  apply List.flatMap_congr
  intro segment hsegment
  match segment, hdefined segment hsegment with
  | .literal _, _ | .percent _, _ => rfl
  | .dollar var, h =>
    obtain ⟨val, hval⟩ := Option.isSome_iff_exists.mp h
    simp only [Segment.remains, Segment.value, hval, Option.getD_some]

theorem known_of_defined (hdefined : ∀ segment ∈ segments, segment.Defined vars) :
    ∀ segment ∈ segments, segment.Known vars := by
  intro segment hsegment
  match segment, hdefined segment hsegment with
  | .literal _, _ | .dollar _, _ => exact trivial
  | .percent _, h => exact h

/-! ## The lenient expansion -/

instance (segment : Segment) : Decidable (segment.Known vars) :=
  match segment with
  | .literal _ => .isTrue trivial
  | .percent var => decidable_of_iff ((vars.lookup var.name).isSome = true) Iff.rfl
  | .dollar _ => .isTrue trivial

/-- The lenient expansion evaluates the string, and succeeds. -/
def Expands (vars : HashMap String String) (segments : List Segment) : Prop :=
  ('%' ∈ render segments ∨ ['$', '('] <:+: render segments) ∧
    ∀ segment ∈ segments, segment.Known vars

instance : Decidable (Expands vars segments) := inferInstanceAs (Decidable (_ ∧ _))

/-- The text that the lenient expansion leaves. -/
def loaded (vars : HashMap String String) (segments : List Segment) : List Char :=
  if Expands vars segments then leftover vars segments else render segments

/-- Nothing in the text is read as `${NAME}`. -/
def Unsubstituted (cs : List Char) : Prop :=
  ∀ pre rest, cs = pre ++ '$' :: '{' :: rest → '}' ∉ rest

/-- A text without percent and dollar signs. -/
def Signless (cs : List Char) : Prop := '%' ∉ cs ∧ '$' ∉ cs

/-- A literal without percent and dollar signs. -/
def Segment.PlainLiteral : Segment → Prop
  | literal text => Signless text
  | _ => False

/-- A variable expression that is not closed is kept. -/
theorem expandLineChars_open {osEnv : String → Option String} (expr : List Char)
    (h : '}' ∉ cs) :
    MacroExpander.expandLineChars osEnv (some expr) cs = '$' :: '{' :: (expr ++ cs) := by
  induction cs generalizing expr with
  | nil => rw [MacroExpander.expandLineChars, List.append_nil]
  | cons c cs ih =>
    rw [List.mem_cons, not_or] at h
    rw [MacroExpander.expandLineChars, ih (expr ++ [c]) h.2, List.append_assoc,
      List.singleton_append]
    exact fun hc => h.1 hc.symm

/-- A text in which nothing is read as `${NAME}` stays as it is. -/
theorem expandLineChars_of_unsubstituted {osEnv : String → Option String}
    (h : Unsubstituted cs) : MacroExpander.expandLineChars osEnv none cs = cs := by
  induction cs with
  | nil => rfl
  | cons c cs ih =>
    have htail : Unsubstituted cs := fun pre rest heq => h (c :: pre) rest (by rw [heq]; rfl)
    by_cases hopen : c = '$' ∧ cs.head? = some '{'
    · obtain ⟨rfl, hhead⟩ := hopen
      obtain ⟨rest, rfl⟩ := List.head?_eq_some_iff.mp hhead
      rw [MacroExpander.expandLineChars, expandLineChars_open [] (h [] rest rfl)]
      rfl
    · rw [MacroExpander.expandLineChars, ih htail]
      rintro rest rfl rfl
      exact hopen ⟨rfl, rfl⟩

/-- The lenient expansion of a list of segments. -/
theorem expandValueWithExpr_render {osEnv : String → Option String}
    (hseparated : Separated segments) (hunsubstituted : Unsubstituted (render segments)) :
    MacroExpander.expandValueWithExpr osEnv vars (.ofList (render segments)) =
      .ofList (loaded vars segments) := by
  have henv : MacroExpander.expandLineEnv osEnv (.ofList (render segments)) =
      .ofList (render segments) := by
    rw [MacroExpander.expandLineEnv, String.toList_ofList,
      expandLineChars_of_unsubstituted hunsubstituted]
  unfold MacroExpander.expandValueWithExpr
  simp only [henv, String.toList_ofList]
  rw [loaded]
  by_cases hexpands : Expands vars segments
  · have hsigns : ¬ ('$' ∉ render segments ∧ '%' ∉ render segments) := by
      rintro ⟨hdollar, hpercent⟩
      obtain hmem | hpart := hexpands.1
      · exact hpercent hmem
      · exact hdollar (hpart.subset List.mem_cons_self)
    rw [if_neg hsigns, if_pos hexpands.1, if_pos hexpands, eval,
      evalNamed_render hexpands.2 hseparated]
  · rw [if_neg hexpands]
    split_ifs with hsigns hread
    · rfl
    · have hunknown : ¬ ∀ segment ∈ segments, segment.Known vars :=
        fun hknown => hexpands ⟨hread, hknown⟩
      obtain ⟨e, he⟩ : ∃ e, evalChars vars (.ofList (render segments)) "expression"
          (render segments).length (render segments) = .error e :=
        evalChars_render_of_unknown hseparated hunknown le_rfl
      rw [eval, evalNamed_ofList, he]
      rfl
    · rfl

end StringExpression

end Rsupervisord
