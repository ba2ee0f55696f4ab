import Mathlib.Data.List.Sort
import Mathlib.Data.String.Basic
import Rsupervisord.Support.HashMap
import Rsupervisord.Support.Text

/-!
# Expansion of configuration strings

`StringExpression::eval_named` replaces the format expressions `%(name)s` and `$(name)` of a text by
the values of variables. `MacroExpander` replaces `${NAME}` by variables of the process environment
and then evaluates the expressions leniently.

## Main results

* `StringExpression.evalNamed_congr`: only the values of the variables matter, not how the map that
  holds them is stored.
-/

namespace Rsupervisord

namespace StringExpression

/-- The text of `ConfigError::Expansion`. -/
def expansionError {α : Type} (message : String) : Except String α :=
  .error s!"Configuration expansion error: {message}"

/-- `format!` with a width: a number is padded on its left side, with zeros behind its sign or with
spaces before it. -/
def padNumber (zeros : Bool) (width : ℕ) (n : ℤ) : String :=
  let sign := if n < 0 then "-" else ""
  let digits := toString n.natAbs
  let padding := width - (sign.length + digits.length)
  if zeros then sign ++ .ofList (List.replicate padding '0') ++ digits
  else .ofList (List.replicate padding ' ') ++ sign ++ digits

/-- `format_value`. -/
def formatValue (varName varVal spec text contextName : String) : Except String String :=
  if spec = "s" then .ok varVal
  else if spec.toList.getLast? = some 'd' ∨ spec.toList.getLast? = some 'i' then
    match Text.parseSigned (-2 ^ 63) (2 ^ 63 - 1) (Text.trim varVal) with
    | .error e =>
        expansionError (s!"Cannot convert variable '{varName}' with value '{varVal}' to " ++
        s!"integer for format '{spec}' in '{contextName}': {e}")
    | .ok n =>
        let flagsWidth := spec.toList.dropLast
        if flagsWidth.isEmpty then .ok (toString n)
        else
          match Text.parseUnsigned (2 ^ 64) (.ofList flagsWidth) with
          | some width => .ok (padNumber (flagsWidth.head? = some '0') width n)
          | none => expansionError
              s!"Invalid integer format width in '{spec}' for format string '{text}'"
  else expansionError
    s!"Unsupported format specifier '%{spec}' for variable '{varName}' in '{text}'"

/-- The names of the variables for an error message, sorted and joined. -/
def availableVariables (vars : HashMap String String) : String :=
  ", ".intercalate (vars.keys.insertionSort (· ≤ ·))

/-- A flag or a digit of the width in a format specifier. -/
def isSpecFlag (c : Char) : Bool := c.isDigit || c = '-' || c = '+'

/-- What follows the closing parenthesis of a reference to a defined variable: a format specifier,
or else nothing of the expression. -/
def formatReference (trigger : Char) (varName varVal text contextName : String)
    (rest : List Char) : Except String (List Char × List Char) :=
  let flags := rest.takeWhile isSpecFlag
  let unmatched : Except String (List Char × List Char) :=
    if trigger = '$' then .ok (varVal.toList, rest)
    else
      match rest.head?.filter Char.isAlpha with
      | some c => expansionError (s!"Format string '{text}' for '{contextName}' has unsupported " ++
          s!"format specifier '%{c}'")
      | none => .ok (varVal.toList, rest)
  match rest.dropWhile isSpecFlag with
  | c :: rest =>
      if c = 's' ∨ c = 'd' ∨ c = 'i' then
        (formatValue varName varVal (.ofList (flags ++ [c])) text contextName).map fun out =>
          (out.toList, rest)
      else unmatched
  | [] => unmatched

/-- The expression behind `%(` or `$(`: what it is replaced by, and the rest of the text. -/
def reference (vars : HashMap String String) (text contextName : String) (trigger : Char)
    (cs : List Char) : Except String (List Char × List Char) :=
  match cs.dropWhile (· ≠ ')') with
  | [] => expansionError
      s!"Format string '{text}' for '{contextName}' is badly formatted: unclosed parenthesis"
  | _ :: rest =>
      let nameText := cs.takeWhile (· ≠ ')')
      let varName := Text.trim (.ofList nameText)
      if varName.isEmpty then expansionError
        s!"Format string '{text}' for '{contextName}' is badly formatted: empty variable name"
      else
        match vars.lookup varName with
        | some varVal => formatReference trigger varName varVal text contextName rest
        | none =>
            -- `$(...)` may be a substitution of the shell.
            if trigger = '$' then .ok ('$' :: '(' :: nameText ++ [')'], rest)
            else
              let available := availableVariables vars
              expansionError (s!"Format string '{text}' for '{contextName}' contains variable " ++
                s!"'{varName}' which cannot be expanded. Available variables: {available}")

/-- One iteration of the loop of `eval_named` at the character `ch`: what is pushed, and the rest of
the text. -/
def nextPiece (vars : HashMap String String) (text contextName : String) (ch : Char)
    (rest : List Char) : Except String (List Char × List Char) :=
  if ch = '%' ∨ ch = '$' then
    if rest.head? = some ch then .ok ([ch], rest.tail)
    else if rest.head? = some '(' then reference vars text contextName ch rest.tail
    else .ok ([ch], rest)
  else .ok ([ch], rest)

/-- The loop of `eval_named`, at most `fuel` iterations of it. Each takes a character at least. -/
def evalChars (vars : HashMap String String) (text contextName : String) :
    ℕ → List Char → Except String (List Char)
  | fuel + 1, ch :: rest => do
      let (out, rest) ← nextPiece vars text contextName ch rest
      let outs ← evalChars vars text contextName fuel rest
      return out ++ outs
  | _, _ => return []

/-- `eval_named`. -/
def evalNamed (vars : HashMap String String) (text contextName : String) : Except String String :=
  if '%' ∉ text.toList ∧ '$' ∉ text.toList then .ok text
  else (evalChars vars text contextName text.length text.toList).map .ofList

/-- `eval`. -/
def eval (vars : HashMap String String) (text : String) : Except String String :=
  evalNamed vars text "expression"

variable {vars vars' : HashMap String String} {text contextName : String}

/-- The names of the variables in an error message are those with a value. -/
theorem availableVariables_congr (h : ∀ k, vars.lookup k = vars'.lookup k) :
    availableVariables vars = availableVariables vars' := by
  have hperm : vars.keys.Perm vars'.keys := HashMap.keys_perm fun _ => HashMap.mem_congr h
  rw [availableVariables, availableVariables]
  congr 1
  exact ((List.perm_insertionSort _ _).trans
    (hperm.trans (List.perm_insertionSort _ _).symm)).eq_of_pairwise
    (fun _ _ _ _ => le_antisymm) (List.pairwise_insertionSort _ _) (List.pairwise_insertionSort _ _)

/-- A reference depends on the values of the variables only. -/
theorem reference_congr (h : ∀ k, vars.lookup k = vars'.lookup k) (trigger : Char)
    (cs : List Char) :
    reference vars text contextName trigger cs = reference vars' text contextName trigger cs := by
  simp only [reference, h, availableVariables_congr h]

/-- The loop depends on the values of the variables only. -/
theorem evalChars_congr (h : ∀ k, vars.lookup k = vars'.lookup k) (fuel : ℕ) (cs : List Char) :
    evalChars vars text contextName fuel cs = evalChars vars' text contextName fuel cs := by
  induction fuel generalizing cs with
  | zero => rfl
  | succ fuel ih =>
    match cs with
    | [] => rfl
    | ch :: rest => simp only [evalChars, nextPiece, reference_congr h, ih]

/-- The evaluation depends on the values of the variables only. -/
theorem evalNamed_congr (h : ∀ k, vars.lookup k = vars'.lookup k) (text contextName : String) :
    evalNamed vars text contextName = evalNamed vars' text contextName := by
  rw [evalNamed, evalNamed, evalChars_congr h]

end StringExpression

namespace MacroExpander

variable (osEnv : String → Option String)

/-- `resolve_var_expr`: `NAME`, or `NAME:-default` for a variable that may be unset or empty. -/
def resolveVarExpr (expr : List Char) : List Char :=
  match Text.cut [':', '-'] expr with
  | some (varName, defaultVal) =>
      match osEnv (Text.trim (.ofList varName)) with
      | some val => if val.isEmpty then defaultVal else val.toList
      | none => defaultVal
  | none => ((osEnv (Text.trim (.ofList expr))).getD "").toList

/-- `expand_line_env`, inside a variable expression that has begun, or outside of one. -/
def expandLineChars : Option (List Char) → List Char → List Char
  | none, [] => []
  | none, '$' :: '{' :: cs => expandLineChars (some []) cs
  | none, c :: cs => c :: expandLineChars none cs
  -- An expression that is not closed is kept.
  | some expr, [] => '$' :: '{' :: expr
  | some expr, '}' :: cs => resolveVarExpr osEnv expr ++ expandLineChars none cs
  | some expr, c :: cs => expandLineChars (some (expr ++ [c])) cs

/-- `expand_line_env`. -/
def expandLineEnv (raw : String) : String := .ofList (expandLineChars osEnv none raw.toList)

/-- `expand_value_with_expr`: an expression that fails is kept. -/
def expandValueWithExpr (vars : HashMap String String) (value : String) : String :=
  if '$' ∉ value.toList ∧ '%' ∉ value.toList then value
  else
    let envExpanded := expandLineEnv osEnv value
    if '%' ∈ envExpanded.toList ∨ ['$', '('] <:+: envExpanded.toList then
      match StringExpression.eval vars envExpanded with
      | .ok evaled => evaled
      | .error _ => envExpanded
    else envExpanded

end MacroExpander

end Rsupervisord
