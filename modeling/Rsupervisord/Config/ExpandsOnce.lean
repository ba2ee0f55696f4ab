import Rsupervisord.Config.SecondEvaluation
import Rsupervisord.Config.TranslatePaths
import Rsupervisord.Support.PathSpelling
import Rsupervisord.Support.TextSplit

/-!
# Strings that are expanded once

A string of a program is expanded when the configuration is loaded, path translation puts it behind
a directory, and most fields are evaluated again with the variables of the program. Both evaluations
together do what one should, when one of them has nothing to do, or when each does its own part.

## Main definitions

* `Translation.place`: the part of `translate_string` that path translation has.
* `Translation.Places`: path translation changes the beginning of a text only.
* `Translation.ExpandsOnce`: the condition on a string, by its segments and the variables.

## Main results

* `Translation.evaluateField_of_expandsOnce`: under the condition a field ends up with what its
  string stands for, where path translation puts it.
* `Translation.Ordinary.expandsOnce`: where path translation has no part and no value holds a sign,
  only then.
-/

namespace Rsupervisord

open StringExpression Transform UnixPath

/-- The evaluation of a field: with the variables of the program, under the name that the field has
in messages. The strings of some fields are used as they are. -/
def StringExpression.evaluateField (vars : HashMap String String) (context : Option String)
    (text : String) : Except String String :=
  match context with
  | some contextName => evalNamed vars text contextName
  | none => .ok text

namespace Translation

/-! ## Path translation -/

/-- What path translation makes of a text that is expanded. -/
def place (t : Translation) (kind : Kind) (expanded : String) : String :=
  match kind with
  | .path =>
      if t.ctx.pathTranslation then absolutize expanded t.ctx.configDir else expanded
  | .command =>
      if t.ctx.pathTranslation then
        CommandLine.translateCommand t.split (absolutize · t.ctx.configDir) expanded
      else expanded
  | .default => expanded

/-- The directory of the names behind `start`. -/
def anchor (configDir : Option String) (start : String) : String :=
  join (extend "" (stack (join (configDir.getD ".") start))) ""

/-- A path `start ++ path` is kept, or it is the names `path` behind `start`, and those get behind
the directory `pre`. -/
inductive PlacesPath (configDir : Option String) : String → String → String → Prop
  | kept {path : String} (hverbatim : isVerbatim path = true) : PlacesPath configDir "" "" path
  | behind {start path : String} (hstart : start = "" ∨ start.toList.getLast? = some '/')
      (hverbatim : isVerbatim (start ++ path) = false) (hnames : AllNames path) :
      PlacesPath configDir start (anchor configDir start) path

/-- Path translation puts `pre` in the place of `start` at the beginning of a text. -/
inductive Places (t : Translation) : Kind → String → String → String → Prop
  | unplaced {kind : Kind} {text : String}
      (hoff : kind = .default ∨ t.ctx.pathTranslation = false) : Places t kind "" "" text
  | path {start pre text : String} (hon : t.ctx.pathTranslation = true)
      (hpath : PlacesPath t.ctx.configDir start pre text) : Places t .path start pre text
  /-- The first word of a command is no path. -/
  | noPath {text : String}
      (hword : ∀ word words, t.split text = .ok (word :: words) → CommandLine.isPath word = false) :
      Places t .command "" "" text
  /-- The first word of a command is kept, and its words are spelled as they are joined. -/
  | keptWord {text word : String} {words : List String}
      (hsplit : t.split text = .ok (word :: words)) (hverbatim : isVerbatim word = true)
      (hspelled : CommandLine.joinCommandTokens (word :: words) = text) :
      Places t .command "" "" text
  /-- The first word of a command is a path, and needs no quotes. -/
  | word {start pre text word : String} {words : List String} (hon : t.ctx.pathTranslation = true)
      (hsplit : t.split (start ++ text) = .ok ((start ++ word) :: words))
      (hisPath : CommandLine.isPath (start ++ word) = true)
      (hspelled : CommandLine.joinCommandTokens ((start ++ word) :: words) = start ++ text)
      (hpath : PlacesPath t.ctx.configDir start pre word)
      (hbare : CommandLine.quoteTokenIfNeeded (start ++ word) = start ++ word)
      (hbare' : CommandLine.quoteTokenIfNeeded (pre ++ word) = pre ++ word) :
      Places t .command start pre text

variable {t : Translation} {kind : Kind} {start pre text path : String}
  {configDir : Option String}

theorem string_eq (s : String) :
    t.string kind s = t.place kind (MacroExpander.expandValueWithExpr t.osEnv t.vars s) := by
  cases kind <;> rfl

theorem place_of_unplaced (h : kind = .default ∨ t.ctx.pathTranslation = false) (text : String) :
    t.place kind text = text := by
  obtain rfl | hoff := h
  · rfl
  · cases kind <;> simp [place, hoff]

theorem isVerbatim_of_isAbsolute (h : isAbsolute path = true) : isVerbatim path = true := by
  obtain ⟨cs, hcs⟩ := List.head?_eq_some_iff.mp (of_decide_eq_true h)
  have hslash : Text.isWhitespace '/' = false := by decide
  have hpath : path = .ofList ([] ++ '/' :: cs) := by
    apply String.toList_injective
    rw [hcs, String.toList_ofList]
    rfl
  have htrim : (Text.trim path).toList = '/' :: cs.rdropWhile Text.isWhitespace := by
    rw [hpath, Text.toList_trim_around hslash]
    rfl
  have hlike : isAbsLike (Text.trim path) = true := by
    rw [isAbsLike, htrim]
    rfl
  simp [isVerbatim, hlike]

theorem PlacesPath.absolutize_eq (h : PlacesPath configDir start pre path) :
    absolutize (start ++ path) configDir = pre ++ path := by
  cases h with
  | kept hverbatim => rw [String.empty_append, absolutize, if_pos hverbatim]
  | behind hstart hverbatim hnames =>
    have hrelative : isAbsolute (start ++ path) = false := by
      rw [← Bool.not_eq_true]
      intro habsolute
      rw [isVerbatim_of_isAbsolute habsolute] at hverbatim
      cases hverbatim
    rw [absolutize, if_neg (by simp [hverbatim]), anchored, anchor,
      lexicalNorm_join_append _ hstart hrelative hnames]

/-- The first word of a command stands at its beginning. -/
theorem exists_joinCommandTokens (words : List String) :
    ∃ tail, ∀ word, CommandLine.joinCommandTokens (word :: words) =
      CommandLine.quoteTokenIfNeeded word ++ tail := by
  cases words with
  | nil => exact ⟨"", fun word => by simp [CommandLine.joinCommandTokens]⟩
  | cons word' words =>
    exact ⟨" " ++ CommandLine.joinCommandTokens (word' :: words), fun word => by
      simp [CommandLine.joinCommandTokens, String.append_assoc]⟩

theorem Places.place_eq (h : t.Places kind start pre text) :
    t.place kind (start ++ text) = pre ++ text := by
  cases h with
  | unplaced hoff => exact place_of_unplaced hoff _
  | path hon hpath => rw [place, if_pos hon, hpath.absolutize_eq]
  | noPath hword =>
    rw [String.empty_append, place]
    split_ifs
    · rw [CommandLine.translateCommand]
      split
      next word words hsplit => rw [if_neg (by simp [hword word words hsplit])]
      next => rfl
    · rfl
  | keptWord hsplit hverbatim hspelled =>
    rw [String.empty_append, place]
    split_ifs
    · rw [CommandLine.translateCommand, hsplit]
      simp only
      rw [absolutize, if_pos hverbatim, hspelled, ite_self]
    · rfl
  | @word _ _ _ word words hon hsplit hisPath hspelled hpath hbare hbare' =>
    obtain ⟨tail, htail⟩ := exists_joinCommandTokens words
    rw [htail, hbare, String.append_assoc] at hspelled
    have htext : text = word ++ tail := (String.append_right_inj start).mp hspelled.symm
    rw [place, if_pos hon, CommandLine.translateCommand, hsplit]
    simp only
    rw [if_pos hisPath, hpath.absolutize_eq, htail, hbare', htext, String.append_assoc]

/-! ## Both evaluations -/

/-- Path translation changes the beginning of a text, before and behind its second evaluation in
the same way: it takes text without signs from it, and nothing of what it puts there is read as an
expression. -/
def Carried (t : Translation) (vars : HashMap String String) (kind : Kind)
    (text value : List Char) : Prop :=
  ∃ start pre text' value' : String, text = (start ++ text').toList ∧
    value = (start ++ value').toList ∧ Signless start.toList ∧ t.Places kind start pre text' ∧
      t.Places kind start pre value' ∧ Scans vars text'.toList (chars pre.toList)

/-- The two evaluations of a string do what one should. The first one does it all, and the second
one has nothing to do; or the second one does it all, or the rest. -/
structure ExpandsOnce (t : Translation) (vars : HashMap String String) (kind : Kind)
    (context : Option String) (segments : List Segment) : Prop where
  separated : Separated segments
  /-- The string has no `${NAME}`. -/
  unsubstituted : Unsubstituted (render segments)
  evaluated :
    (Early t.vars vars segments ∧ (context.isSome →
        Scans vars [] (chars (t.place kind (.ofList (valueOf vars segments))).toList))) ∨
      (context.isSome ∧
        (Expands t.vars segments → (∀ segment ∈ segments, segment.Agrees t.vars vars) ∧
          Scans vars [] (itemsOf t.vars segments)) ∧
        t.Carried vars kind (loaded t.vars segments) (valueOf vars segments))

/-- Path translation has no part in a string, the string is read as it is written, no value holds a
sign, and what is known at loading keeps its value. In a field that is evaluated, the first
evaluation leaves no reference. -/
structure Ordinary (t : Translation) (vars : HashMap String String) (kind : Kind)
    (context : Option String) (segments : List Segment) : Prop where
  unplaced : kind = .default ∨ t.ctx.pathTranslation = false
  separated : Separated segments
  unsubstituted : Unsubstituted (render segments)
  agrees : ∀ segment ∈ segments, segment.Agrees t.vars vars
  signless : SignlessValues vars
  known : context.isSome → Expands t.vars segments → ∀ segment ∈ segments, segment.Defined t.vars

variable {vars : HashMap String String} {context : Option String} {segments : List Segment}
  {cs value : List Char}

/-- A text that path translation has no part in is carried. -/
theorem carried_of_unplaced (hoff : kind = .default ∨ t.ctx.pathTranslation = false)
    (cs value : List Char) : t.Carried vars kind cs value := by
  refine ⟨"", "", .ofList cs, .ofList value, ?_, ?_, ⟨nofun, nofun⟩, .unplaced hoff, .unplaced hoff,
    .nil⟩
  · rw [String.empty_append, String.toList_ofList]
  · rw [String.empty_append, String.toList_ofList]

/-- A text that path translation carries is evaluated behind it as before. -/
theorem Carried.evalNamed (h : t.Carried vars kind cs value) (heval : Evaluates vars cs value)
    (contextName : String) :
    StringExpression.evalNamed vars (t.place kind (.ofList cs)) contextName =
      .ok (t.place kind (.ofList value)) := by
  obtain ⟨start, pre, text', value', rfl, rfl, hstart, hplaces, hplaces', hscans⟩ := h
  rw [String.ofList_toList, String.ofList_toList, hplaces.place_eq, hplaces'.place_eq]
  rw [String.toList_append, String.toList_append] at heval
  have hwhole := (heval.of_append hstart).prepend hscans
  rw [← String.toList_append, ← String.toList_append] at hwhole
  simpa using hwhole.evalNamed contextName

/-- What the second evaluation does to the text that the first one leaves. -/
theorem evaluates_loaded (hdefined : ∀ segment ∈ segments, segment.Defined vars)
    (hseparated : Separated segments)
    (h : Expands t.vars segments → (∀ segment ∈ segments, segment.Agrees t.vars vars) ∧
      Scans vars [] (itemsOf t.vars segments)) :
    Evaluates vars (loaded t.vars segments) (valueOf vars segments) := by
  rw [loaded]
  split_ifs with hexpands
  · obtain ⟨hagree, hscans⟩ := h hexpands
    rw [← renderItems_itemsOf, ← valueItems_itemsOf hexpands.2 hagree]
    exact evaluates_scans hscans
  · exact evaluates_render hdefined hseparated

/-- A string that is expanded once ends up as what it stands for. -/
theorem evaluateField_of_expandsOnce (hdefined : ∀ segment ∈ segments, segment.Defined vars)
    (h : t.ExpandsOnce vars kind context segments) :
    evaluateField vars context (t.string kind (.ofList (render segments))) =
      .ok (t.place kind (.ofList (valueOf vars segments))) := by
  rw [string_eq, expandValueWithExpr_render h.separated h.unsubstituted]
  rcases h.evaluated with ⟨hearly, hscans⟩ | ⟨hcontext, hlate, hcarried⟩
  · -- The first evaluation gives the value, and the second one copies it.
    rw [hearly.loaded_eq]
    cases context with
    | none => rfl
    | some contextName =>
      have heval := (evaluates_scans (hscans rfl)).evalNamed contextName
      rwa [renderItems_chars, valueItems_chars, String.ofList_toList] at heval
  · -- The second evaluation gives the value, behind what path translation put before it.
    obtain ⟨contextName, rfl⟩ := Option.isSome_iff_exists.mp hcontext
    exact hcarried.evalNamed (evaluates_loaded hdefined h.separated hlate) contextName

/-- An ordinary string that ends up as what it stands for is expanded once. -/
theorem Ordinary.expandsOnce (hordinary : t.Ordinary vars kind context segments)
    (hdefined : ∀ segment ∈ segments, segment.Defined vars)
    (h : evaluateField vars context (t.string kind (.ofList (render segments))) =
      .ok (t.place kind (.ofList (valueOf vars segments)))) :
    t.ExpandsOnce vars kind context segments := by
  obtain ⟨hoff, hseparated, hunsubstituted, hagree, hvalues, hknown⟩ := hordinary
  rw [string_eq, expandValueWithExpr_render hseparated hunsubstituted, place_of_unplaced hoff,
    place_of_unplaced hoff] at h
  refine ⟨hseparated, hunsubstituted, ?_⟩
  rw [place_of_unplaced hoff, String.toList_ofList]
  cases context with
  | none =>
    have hloaded : loaded t.vars segments = valueOf vars segments :=
      String.ofList_injective (Except.ok.inj h)
    exact .inl ⟨early_of_loaded_eq hvalues hdefined hagree hloaded, nofun⟩
  | some contextName =>
    by_cases hexpands : Expands t.vars segments
    · have hearly : Early t.vars vars segments :=
        .inl ⟨hexpands, fun segment hsegment =>
          ⟨hknown rfl hexpands segment hsegment, hagree segment hsegment⟩⟩
      -- The value is evaluated to itself, which a text with something to replace is not: each
      -- replacement loses a sign.
      rw [hearly.loaded_eq] at h
      exact .inl ⟨hearly, fun _ => scans_of_evalNamed hvalues h⟩
    · exact .inr ⟨rfl, fun h => absurd h hexpands, carried_of_unplaced hoff _ _⟩

end Translation

end Rsupervisord
