import Rsupervisord.Config.DoubleExpansion

/-!
# Substitution

An expression that is a list of literals, whose percent and dollar signs are doubled, and of
references `%(name)s` evaluates piece by piece, whatever stands next to each other at the borders.

## Main results

* `StringExpression.eval_render`: the evaluation of a list of pieces.
-/

namespace Rsupervisord

namespace StringExpression

/-- A piece of an expression. -/
inductive Piece
  | literal (text : String)
  /-- `%(name)s`. -/
  | reference (name : String)
  deriving DecidableEq, Repr

namespace Piece

/-- How a piece is written. -/
def render : Piece → List Char
  | literal text => text.toList.flatMap escape
  | reference name => '%' :: '(' :: name.toList ++ [')', 's']

/-- What a piece stands for. -/
def value (vars : HashMap String String) : Piece → List Char
  | literal text => text.toList
  | reference name => ((vars.lookup name).getD "").toList

/-- The expression of some pieces. -/
def renderAll (pieces : List Piece) : String := .ofList (pieces.flatMap render)

/-- What some pieces stand for, one behind the other. -/
def valueOf (vars : HashMap String String) (pieces : List Piece) : String :=
  .ofList (pieces.flatMap (value vars))

end Piece

/-- A reference can spell the name of the variable: it is not closed within the name, and the name
without the white space around it is that of a variable with the same value. -/
structure Spells (vars : HashMap String String) (name : String) : Prop where
  closed : ')' ∉ name.toList
  nonempty : Text.trim name ≠ ""
  same : vars.lookup (Text.trim name) = vars.lookup name

variable {vars : HashMap String String} {text contextName name val : String} {rest : List Char}
  {fuel : ℕ} {pieces : List Piece}

/-- A name without white space around it is spelled. -/
theorem spells_of_trimmed (hclosed : ')' ∉ name.toList) (hnonempty : name ≠ "")
    (htrimmed : Text.trim name = name) : Spells vars name :=
  ⟨hclosed, htrimmed.symm ▸ hnonempty, congrArg vars.lookup htrimmed⟩

/-- A reference to a defined variable is read up to its end. -/
theorem nextPiece_reference (hspells : Spells vars name) (hval : vars.lookup name = some val) :
    nextPiece vars text contextName '%' ('(' :: (name.toList ++ ')' :: 's' :: rest)) =
      .ok (val.toList, rest) := by
  have hne : ∀ c ∈ name.toList, decide (c ≠ ')') = true := by
    rintro c hc
    refine decide_eq_true fun h => hspells.closed ?_
    rwa [h] at hc
  have hname : (name.toList ++ ')' :: 's' :: rest).takeWhile (· ≠ ')') = name.toList := by
    rw [List.takeWhile_append_of_pos hne, List.takeWhile_cons_of_neg (by simp), List.append_nil]
  have hrest : (name.toList ++ ')' :: 's' :: rest).dropWhile (· ≠ ')') = ')' :: 's' :: rest := by
    rw [List.dropWhile_append_of_pos hne, List.dropWhile_cons_of_neg (by simp)]
  have hempty : (Text.trim name).isEmpty = false := by simpa using hspells.nonempty
  rw [nextPiece_open '%' (.inl rfl)]
  unfold reference
  rw [hrest]
  simp only
  rw [hname, String.ofList_toList, hempty, hspells.same, hval]
  show formatReference '%' (Text.trim name) val text contextName ('s' :: rest) = _
  exact formatReference_string '%' (Text.trim name)

/-- Each piece is read on its own, whatever follows it. -/
theorem evalChars_piece {piece : Piece}
    (hpiece : ∀ name, piece = .reference name → (vars.lookup name).isSome ∧ Spells vars name)
    (hfuel : (piece.render ++ rest).length ≤ fuel) :
    ∃ fuel', rest.length ≤ fuel' ∧
      evalChars vars text contextName fuel (piece.render ++ rest) =
        (evalChars vars text contextName fuel' rest).map (piece.value vars ++ ·) := by
  cases piece with
  | literal text => exact evalChars_literal text.toList hfuel
  | reference name =>
    obtain ⟨hdefined, hspells⟩ := hpiece name rfl
    obtain ⟨val, hval⟩ := Option.isSome_iff_exists.mp hdefined
    have happend : (Piece.reference name).render ++ rest =
        '%' :: '(' :: (name.toList ++ ')' :: 's' :: rest) := by simp [Piece.render]
    rw [happend] at hfuel ⊢
    obtain ⟨fuel, rfl⟩ : ∃ f, fuel = f + 1 := Nat.exists_eq_add_one.mpr (by simp at hfuel; omega)
    refine ⟨fuel, by simp at hfuel; omega, ?_⟩
    rw [evalChars_cons '%' _ _ (nextPiece_reference hspells hval), Piece.value, hval]
    rfl

/-- The loop reads an expression piece by piece. -/
theorem evalChars_pieces
    (hpieces : ∀ name, .reference name ∈ pieces → (vars.lookup name).isSome ∧ Spells vars name)
    (hfuel : (pieces.flatMap Piece.render).length ≤ fuel) :
    evalChars vars text contextName fuel (pieces.flatMap Piece.render) =
      .ok (pieces.flatMap (Piece.value vars)) := by
  induction pieces generalizing fuel with
  | nil => cases fuel <;> rfl
  | cons piece pieces ih =>
    rw [List.flatMap_cons] at hfuel ⊢
    obtain ⟨fuel', hfuel', heval⟩ := evalChars_piece
      (fun name hname => hpieces name (hname ▸ List.mem_cons_self)) hfuel
    rw [heval, ih (fun name hname => hpieces name (List.mem_cons_of_mem _ hname)) hfuel']
    rfl

/-- An expression of literals and of references that spell defined variables evaluates to the
literals and the values, in any context. -/
theorem eval_render
    (hpieces : ∀ name, .reference name ∈ pieces → (vars.lookup name).isSome ∧ Spells vars name) :
    eval vars (Piece.renderAll pieces) = .ok (Piece.valueOf vars pieces) ∧
      ∀ contextName, evalNamed vars (Piece.renderAll pieces) contextName =
        .ok (Piece.valueOf vars pieces) := by
  have hnamed : ∀ contextName, evalNamed vars (Piece.renderAll pieces) contextName =
      .ok (Piece.valueOf vars pieces) := by
    intro contextName
    rw [Piece.renderAll, evalNamed_ofList, evalChars_pieces hpieces le_rfl]
    rfl
  exact ⟨hnamed _, hnamed⟩

/-- The variables of an instance, and three names that a reference reads otherwise. -/
def spelledVars : HashMap String String :=
  HashMap.extend ∅ [("process_num", "7"), ("ENV_ProgramFiles(x86)", "C:\\"),
    (" process_num", "8"), ("", "9")]

/-- A percent sign at the end of a literal, and a letter at the start of one. -/
theorem eval_render_borders :
    eval spelledVars "%%%%%(process_num)s5d$$(%(process_num)s)" = .ok "%%75d$(7)" := by
  have hpieces : ∀ name, Piece.reference name ∈ [.literal "%%", .reference "process_num",
      .literal "5d$(", .reference "process_num", .literal ")"] →
      (spelledVars.lookup name).isSome ∧ Spells spelledVars name := by
    intro name hname
    obtain rfl : name = "process_num" := by simpa using hname
    exact ⟨by decide, spells_of_trimmed (by decide) (by decide) (by decide +kernel)⟩
  exact (eval_render hpieces).1

/-- A reference is closed at the first parenthesis, and it does not read the white space around a
name. -/
theorem not_eval_render :
    (∀ name ∈ ["ENV_ProgramFiles(x86)", " process_num", ""], (spelledVars.lookup name).isSome) ∧
      (eval spelledVars (Piece.renderAll [.reference "ENV_ProgramFiles(x86)"])).isOk = false ∧
      eval spelledVars (Piece.renderAll [.reference " process_num"]) = .ok "7" ∧
      Piece.valueOf spelledVars [.reference " process_num"] = "8" ∧
      (eval spelledVars (Piece.renderAll [.reference ""])).isOk = false := by
  decide +kernel

end StringExpression

end Rsupervisord
