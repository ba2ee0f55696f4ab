import Rsupervisord.Config.DoubleExpansion
import Rsupervisord.Support.Except

/-!
# The second evaluation of a string

What the first evaluation of a string leaves is evaluated again. It is a list of items: characters
of literals and of values, and references that were left because their variables were not known.
The second evaluation does what it should when it reads nothing else than these references.

## Main definitions

* `StringExpression.itemsOf`: the items that one evaluation makes of a string.
* `StringExpression.Scans`: an evaluation reads nothing but the references of some items.
* `StringExpression.Evaluates`: a text is evaluated to a value, whatever is around it.

## Main results

* `StringExpression.evaluates_scans`: items that are scanned are evaluated to what they stand for.
* `StringExpression.scans_of_evalNamed`: a text that is evaluated to itself is scanned, when no
  value holds a sign.
-/

namespace Rsupervisord

namespace StringExpression

/-- A part of the text that an evaluation has made. -/
inductive Item
  /-- A character of a literal or of a value. -/
  | char (c : Char)
  /-- A reference `$(name)` to a variable that was not known. -/
  | ref (var : VarName)

namespace Item

/-- The text of an item. -/
def render : Item → List Char
  | char c => [c]
  | ref var => (Segment.dollar var).render

/-- What an item stands for. -/
def value (vars : HashMap String String) : Item → List Char
  | char c => [c]
  | ref var => ((vars.lookup var.name).getD "").toList

end Item

/-- A text that has nothing to replace. -/
def chars (cs : List Char) : List Item := cs.map .char

/-- The items that one evaluation makes of a segment. -/
def Segment.items (vars : HashMap String String) : Segment → List Item
  | literal text => chars text
  | percent var => chars ((vars.lookup var.name).getD "").toList
  | dollar var =>
      match vars.lookup var.name with
      | some val => chars val.toList
      | none => [.ref var]

/-- The text of some items. -/
def renderItems (items : List Item) : List Char := items.flatMap Item.render

/-- What some items stand for. -/
def valueItems (vars : HashMap String String) (items : List Item) : List Char :=
  items.flatMap (Item.value vars)

/-- The items that one evaluation makes of a string. -/
def itemsOf (vars : HashMap String String) (segments : List Segment) : List Item :=
  segments.flatMap (Segment.items vars)

/-- An evaluation of the items, which are before `rest`, replaces nothing but their references: no
sign is before the same sign, and where one opens a reference, the variable is not known. -/
inductive Scans (vars : HashMap String String) (rest : List Char) : List Item → Prop
  | nil : Scans vars rest []
  | char {c : Char} {items : List Item}
      (hsign : c = '%' ∨ c = '$' → (renderItems items ++ rest).head? ≠ some c ∧
        (renderItems items ++ rest).head? ≠ some '(')
      (htail : Scans vars rest items) : Scans vars rest (.char c :: items)
  | unknown {name : List Char} {items : List Item} (hclosed : ')' ∉ name)
      (hname : Text.trim (.ofList name) ≠ "")
      (hnone : vars.lookup (Text.trim (.ofList name)) = none)
      (htail : Scans vars rest items) :
      Scans vars rest (chars ('$' :: '(' :: name ++ [')']) ++ items)
  | ref {var : VarName} {items : List Item} (hdefined : (vars.lookup var.name).isSome)
      (hspecifier : ¬ ReadsSpecifier (renderItems items ++ rest)) (htail : Scans vars rest items) :
      Scans vars rest (.ref var :: items)

variable {vars vars₁ vars₂ : HashMap String String} {text contextName : String}
  {rest cs value : List Char} {fuel : ℕ} {segments : List Segment} {items : List Item}

@[simp]
theorem renderItems_chars (cs : List Char) : renderItems (chars cs) = cs := by
  induction cs with
  | nil => rfl
  | cons c cs ih => exact congrArg (c :: ·) ih

@[simp]
theorem valueItems_chars (cs : List Char) : valueItems vars (chars cs) = cs := by
  induction cs with
  | nil => rfl
  | cons c cs ih => exact congrArg (c :: ·) ih

theorem renderItems_append (items items' : List Item) :
    renderItems (items ++ items') = renderItems items ++ renderItems items' :=
  List.flatMap_append

theorem valueItems_cons (item : Item) (items : List Item) :
    valueItems vars (item :: items) = item.value vars ++ valueItems vars items :=
  List.flatMap_cons

theorem valueItems_append (items items' : List Item) :
    valueItems vars (items ++ items') = valueItems vars items ++ valueItems vars items' :=
  List.flatMap_append

theorem itemsOf_cons (segment : Segment) (segments : List Segment) :
    itemsOf vars (segment :: segments) = segment.items vars ++ itemsOf vars segments :=
  List.flatMap_cons

/-- The items are what one evaluation leaves. -/
theorem renderItems_itemsOf (segments : List Segment) :
    renderItems (itemsOf vars segments) = leftover vars segments := by
  induction segments with
  | nil => rfl
  | cons segment segments ih =>
    rw [itemsOf_cons, renderItems_append, ih, leftover_cons]
    congr 1
    match segment with
    | .literal _ | .percent _ => exact renderItems_chars _
    | .dollar var =>
      rw [Segment.items, Segment.remains]
      cases vars.lookup var.name with
      | some val => exact renderItems_chars _
      | none => exact List.append_nil _

/-- The items stand for what the segments do, when what was known has kept its value. -/
theorem valueItems_itemsOf (hknown : ∀ segment ∈ segments, segment.Known vars₁)
    (hagree : ∀ segment ∈ segments, segment.Agrees vars₁ vars₂) :
    valueItems vars₂ (itemsOf vars₁ segments) = valueOf vars₂ segments := by
  induction segments with
  | nil => rfl
  | cons segment segments ih =>
    obtain ⟨hsegment, hsegments⟩ := List.forall_mem_cons.mp hagree
    obtain ⟨hknown, hknowns⟩ := List.forall_mem_cons.mp hknown
    rw [itemsOf_cons, valueItems_append, ih hknowns hsegments, valueOf_cons]
    congr 1
    match segment with
    | .literal _ => exact valueItems_chars _
    | .percent var =>
      obtain ⟨val, hval⟩ := Option.isSome_iff_exists.mp hknown
      rw [Segment.items, Segment.value, hval, hsegment val hval]
      exact valueItems_chars _
    | .dollar var =>
      rw [Segment.items]
      cases hval : vars₁.lookup var.name with
      | some val =>
        rw [Segment.value, hsegment val hval]
        exact valueItems_chars _
      | none => exact List.append_nil _

/-- A character is read alone when it is no sign, or a sign before something else. -/
theorem nextPiece_alone {c : Char}
    (hsign : c = '%' ∨ c = '$' → rest.head? ≠ some c ∧ rest.head? ≠ some '(') :
    nextPiece vars text contextName c rest = .ok ([c], rest) := by
  rw [nextPiece]
  split_ifs with htrigger hdoubled hopen
  · exact absurd hdoubled (hsign htrigger).1
  · exact absurd hopen (hsign htrigger).2
  · rfl
  · rfl

/-- Items that are scanned are replaced one by one. -/
theorem evalChars_scans (h : Scans vars rest items)
    (hfuel : (renderItems items ++ rest).length ≤ fuel) :
    ∃ fuel', rest.length ≤ fuel' ∧
      evalChars vars text contextName fuel (renderItems items ++ rest) =
        (evalChars vars text contextName fuel' rest).map (valueItems vars items ++ ·) := by
  induction h generalizing fuel with
  | nil => exact ⟨fuel, hfuel, (map_nil_append _).symm⟩
  | @char c items hsign _ ih =>
    -- A character that is read alone: the loop takes one step.
    have hrender : renderItems (.char c :: items) ++ rest = c :: (renderItems items ++ rest) := rfl
    rw [hrender, List.length_cons] at hfuel
    obtain ⟨fuel, rfl⟩ : ∃ f, fuel = f + 1 := Nat.exists_eq_add_one.mpr (by omega)
    obtain ⟨fuel', hfuel', heval⟩ := ih (Nat.le_of_succ_le_succ hfuel)
    refine ⟨fuel', hfuel', ?_⟩
    rw [hrender, evalChars_cons c [c] _ (nextPiece_alone hsign), heval, map_append_map_append]
    rfl
  | @unknown name items hclosed hname hnone _ ih =>
    -- The loop copies the whole reference in one step.
    have hrender : renderItems (chars ('$' :: '(' :: name ++ [')']) ++ items) ++ rest =
        '$' :: '(' :: (name ++ ')' :: (renderItems items ++ rest)) := by
      rw [renderItems_append, renderItems_chars]
      simp
    rw [hrender] at hfuel
    obtain ⟨fuel, rfl⟩ : ∃ f, fuel = f + 1 := Nat.exists_eq_add_one.mpr (by simp at hfuel; omega)
    have hrest : (renderItems items ++ rest).length ≤ fuel := by
      simp at hfuel ⊢
      omega
    obtain ⟨fuel', hfuel', heval⟩ := ih hrest
    have hpiece : nextPiece vars text contextName '$'
        ('(' :: (name ++ ')' :: (renderItems items ++ rest))) =
          .ok ('$' :: '(' :: name ++ [')'], renderItems items ++ rest) := by
      rw [nextPiece_open '$' (.inr rfl)]
      exact reference_dollar_of_unknown hclosed hname hnone
    refine ⟨fuel', hfuel', ?_⟩
    rw [hrender, evalChars_cons '$' _ _ hpiece, heval, map_append_map_append, valueItems_append,
      valueItems_chars]
  | @ref var items hdefined hspecifier _ ih =>
    obtain ⟨val, hval⟩ := Option.isSome_iff_exists.mp hdefined
    have hrender : renderItems (.ref var :: items) ++ rest =
        '$' :: '(' :: (var.name.toList ++ ')' :: (renderItems items ++ rest)) := by
      simp [renderItems, Item.render, Segment.render]
    rw [hrender] at hfuel
    obtain ⟨fuel, rfl⟩ : ∃ f, fuel = f + 1 := Nat.exists_eq_add_one.mpr (by simp at hfuel; omega)
    have hrest : (renderItems items ++ rest).length ≤ fuel := by
      simp at hfuel ⊢
      omega
    obtain ⟨fuel', hfuel', heval⟩ := ih hrest
    have hpiece : nextPiece vars text contextName '$'
        ('(' :: (var.name.toList ++ ')' :: (renderItems items ++ rest))) =
          .ok (val.toList, renderItems items ++ rest) := by
      rw [nextPiece_open '$' (.inr rfl), reference_of_some '$' hval,
        formatReference_dollar _ hspecifier]
    refine ⟨fuel', hfuel', ?_⟩
    rw [hrender, evalChars_cons '$' _ _ hpiece, heval, map_append_map_append, valueItems_cons,
      Item.value, hval]
    rfl

/-- The text is evaluated to the value, whatever the field is. -/
def Evaluates (vars : HashMap String String) (cs value : List Char) : Prop :=
  ∀ text contextName fuel, cs.length ≤ fuel →
    evalChars vars text contextName fuel cs = .ok value

theorem Evaluates.evalNamed (h : Evaluates vars cs value) (contextName : String) :
    StringExpression.evalNamed vars (.ofList cs) contextName = .ok (.ofList value) := by
  rw [evalNamed_ofList, h _ _ _ le_rfl]
  rfl

theorem Evaluates.unique {value' : List Char} (h : Evaluates vars cs value)
    (h' : StringExpression.evalNamed vars (.ofList cs) contextName = .ok (.ofList value')) :
    value = value' :=
  String.ofList_injective (Except.ok.inj ((h.evalNamed contextName).symm.trans h'))

/-- Items that are scanned are evaluated to what they stand for. -/
theorem evaluates_scans (h : Scans vars [] items) :
    Evaluates vars (renderItems items) (valueItems vars items) := by
  intro text contextName fuel hfuel
  have hrest : (renderItems items ++ []).length ≤ fuel := by rwa [List.append_nil]
  obtain ⟨fuel', -, heval⟩ := evalChars_scans h hrest
  rw [List.append_nil] at heval
  rw [heval]
  cases fuel' <;> exact congrArg Except.ok (List.append_nil _)

/-- A string of defined references is evaluated to what it stands for. -/
theorem evaluates_render (hdefined : ∀ segment ∈ segments, segment.Defined vars)
    (hseparated : Separated segments) :
    Evaluates vars (render segments) (valueOf vars segments) := by
  intro text contextName fuel hfuel
  rw [evalChars_render (known_of_defined hdefined) hseparated hfuel, leftover_of_defined hdefined]

/-- An evaluation of scanned text goes on with what is behind it. -/
theorem Evaluates.prepend {pre : List Char} (hpre : Scans vars cs (chars pre))
    (h : Evaluates vars cs value) : Evaluates vars (pre ++ cs) (pre ++ value) := by
  intro text contextName fuel hfuel
  have hrest : (renderItems (chars pre) ++ cs).length ≤ fuel := by rwa [renderItems_chars]
  obtain ⟨fuel', hfuel', heval⟩ := evalChars_scans hpre hrest
  rw [renderItems_chars, valueItems_chars] at heval
  rw [heval, h text contextName fuel' hfuel']
  rfl

/-- Text without signs is copied. -/
theorem evalChars_signless {pre : List Char} (hpre : Signless pre) :
    evalChars vars text contextName (pre.length + fuel) (pre ++ cs) =
      (evalChars vars text contextName fuel cs).map (pre ++ ·) := by
  induction pre with
  | nil => rw [List.length_nil, Nat.zero_add, List.nil_append, map_nil_append]
  | cons c pre ih =>
    obtain ⟨hpercent, hdollar⟩ := hpre
    rw [List.mem_cons, not_or] at hpercent hdollar
    have hpiece : nextPiece vars text contextName c (pre ++ cs) = .ok ([c], pre ++ cs) := by
      refine nextPiece_alone fun hsign => ?_
      obtain rfl | rfl := hsign
      · exact absurd rfl hpercent.1
      · exact absurd rfl hdollar.1
    rw [List.length_cons, Nat.add_right_comm, List.cons_append, evalChars_cons c [c] _ hpiece,
      ih ⟨hpercent.2, hdollar.2⟩, map_append_map_append]
    rfl

/-- Behind text without signs the rest is evaluated on its own. -/
theorem Evaluates.of_append {pre : List Char} (hpre : Signless pre)
    (h : Evaluates vars (pre ++ cs) (pre ++ value)) : Evaluates vars cs value := by
  intro text contextName fuel hfuel
  have hwhole := h text contextName (pre.length + fuel) (by rw [List.length_append]; omega)
  rw [evalChars_signless hpre] at hwhole
  obtain ⟨out, hout, happend⟩ := Except.map_eq_ok.mp hwhole
  rw [hout, List.append_cancel_left happend]

/-! ## The first evaluation leaves the value -/

/-- The first evaluation knows every variable, with the value that the second one has for it, or
there is nothing to evaluate. -/
def Early (vars₁ vars₂ : HashMap String String) (segments : List Segment) : Prop :=
  (Expands vars₁ segments ∧
    ∀ segment ∈ segments, segment.Defined vars₁ ∧ segment.Agrees vars₁ vars₂) ∨
  ∀ segment ∈ segments, segment.PlainLiteral

theorem leftover_of_agrees
    (h : ∀ segment ∈ segments, segment.Defined vars₁ ∧ segment.Agrees vars₁ vars₂) :
    leftover vars₁ segments = valueOf vars₂ segments := by
  apply List.flatMap_congr
  intro segment hsegment
  match segment, h segment hsegment with
  | .literal _, _ => rfl
  | .percent var, ⟨hdefined, hagree⟩ =>
    obtain ⟨val, hval⟩ := Option.isSome_iff_exists.mp hdefined
    rw [Segment.remains, Segment.value, hval, hagree val hval]
  | .dollar var, ⟨hdefined, hagree⟩ =>
    obtain ⟨val, hval⟩ := Option.isSome_iff_exists.mp hdefined
    simp only [Segment.remains, Segment.value, hval, hagree val hval, Option.getD_some]

/-- A literal without signs is written as it is. -/
theorem flatMap_escape_of_signless (h : Signless cs) : cs.flatMap escape = cs := by
  have hcopy : ∀ c ∈ cs, escape c = [c] := by
    rintro c hc
    rw [escape, if_neg]
    rintro (rfl | rfl)
    · exact h.1 hc
    · exact h.2 hc
  rw [List.flatMap_congr hcopy]
  exact List.flatMap_singleton' cs

/-- Literals without signs are written as they are, and stay. -/
theorem render_of_plainLiteral (h : ∀ segment ∈ segments, segment.PlainLiteral) :
    render segments = valueOf vars segments ∧ leftover vars segments = valueOf vars segments := by
  constructor
  · apply List.flatMap_congr
    intro segment hsegment
    have hplain := h segment hsegment
    cases segment with
    | literal text => exact flatMap_escape_of_signless hplain
    | percent | dollar => exact hplain.elim
  · apply List.flatMap_congr
    intro segment hsegment
    have hplain := h segment hsegment
    cases segment with
    | literal text => rfl
    | percent | dollar => exact hplain.elim

theorem Early.loaded_eq (h : Early vars₁ vars₂ segments) :
    loaded vars₁ segments = valueOf vars₂ segments := by
  rw [loaded]
  obtain ⟨hexpands, hagree⟩ | hplain := h
  · rw [if_pos hexpands, leftover_of_agrees hagree]
  · obtain ⟨hrender, -⟩ := @render_of_plainLiteral vars₂ _ hplain
    obtain ⟨hrender₁, hleftover⟩ := @render_of_plainLiteral vars₁ _ hplain
    split_ifs
    · rw [hleftover, ← hrender₁, hrender]
    · exact hrender

/-! ## Signs -/

/-- The number of percent and dollar signs. -/
def signs (cs : List Char) : ℕ := cs.countP fun c => c = '%' ∨ c = '$'

theorem signs_append (cs ds : List Char) : signs (cs ++ ds) = signs cs + signs ds :=
  List.countP_append

theorem signs_eq_zero_iff : signs cs = 0 ↔ Signless cs := by
  rw [signs, List.countP_eq_zero, Signless]
  constructor
  · intro h
    exact ⟨fun hmem => h _ hmem (by decide), fun hmem => h _ hmem (by decide)⟩
  · rintro ⟨hpercent, hdollar⟩ c hc hsign
    obtain rfl | rfl := of_decide_eq_true hsign
    · exact hpercent hc
    · exact hdollar hc

/-- Numbers have no signs. -/
theorem signless_of_digits (h : ∀ c ∈ cs, c.isDigit = true ∨ c = '-' ∨ c = ' ') : Signless cs := by
  constructor
  · intro hmem
    rcases h _ hmem with h | h | h <;> exact absurd h (by decide)
  · intro hmem
    rcases h _ hmem with h | h | h <;> exact absurd h (by decide)

theorem isDigit_of_mem_toString {n : ℕ} {c : Char} (hc : c ∈ (toString n).toList) :
    c.isDigit = true := by
  have hc' : c ∈ n.repr.toList := hc
  rw [Nat.toList_repr] at hc'
  exact Nat.isDigit_of_mem_toDigits (by decide) (by decide) hc'

theorem signless_toString (n : ℤ) : Signless (toString n).toList := by
  apply signless_of_digits
  intro c hc
  match n with
  | .ofNat m => exact .inl (isDigit_of_mem_toString (n := m) hc)
  | .negSucc m =>
    have hc' : c ∈ ("-" ++ toString (m + 1)).toList := hc
    rw [String.toList_append, List.mem_append] at hc'
    obtain hc' | hc' := hc'
    · exact .inr (.inl (by simpa using hc'))
    · exact .inl (isDigit_of_mem_toString hc')

theorem signless_padNumber (zeros : Bool) (width : ℕ) (n : ℤ) :
    Signless (padNumber zeros width n).toList := by
  apply signless_of_digits
  intro c hc
  unfold padNumber at hc
  simp only at hc
  generalize hsign : (if n < 0 then "-" else "") = sign at hc
  have hminus : c ∈ sign.toList → c = '-' := by
    rw [← hsign]
    split_ifs
    · simp
    · simp
  split_ifs at hc <;>
    simp only [String.toList_append, String.toList_ofList, List.mem_append] at hc
  · obtain (h | h) | h := hc
    · exact .inr (.inl (hminus h))
    · obtain rfl := List.eq_of_mem_replicate h
      exact .inl (by decide)
    · exact .inl (isDigit_of_mem_toString h)
  · obtain (h | h) | h := hc
    · exact .inr (.inr (List.eq_of_mem_replicate h))
    · exact .inr (.inl (hminus h))
    · exact .inl (isDigit_of_mem_toString h)

variable {varName val spec out : String} {trigger ch : Char} {piece rest' : List Char}

/-- A value without signs has none when it is formatted. -/
theorem signless_formatValue (hval : Signless val.toList)
    (h : formatValue varName val spec text contextName = .ok out) : Signless out.toList := by
  unfold formatValue at h
  split_ifs at h with hstring hnumber
  · obtain rfl := Except.ok.inj h
    exact hval
  · split at h
    · cases h
    next n _ =>
      simp only at h
      split_ifs at h
      · obtain rfl := Except.ok.inj h
        exact signless_toString n
      · split at h
        · obtain rfl := Except.ok.inj h
          exact signless_padNumber _ _ _
        · cases h
  · cases h

/-- A value without signs takes the place of a reference, and the rest has no more signs. -/
theorem formatReference_signs (hval : Signless val.toList)
    (h : formatReference trigger varName val text contextName rest = .ok (piece, rest')) :
    signs piece = 0 ∧ rest' <:+ rest := by
  have hunmatched : ∀ {x : Except String (List Char × List Char)},
      x = .ok (val.toList, rest) → x = .ok (piece, rest') → signs piece = 0 ∧ rest' <:+ rest := by
    rintro _ rfl h
    obtain ⟨rfl, rfl⟩ := Prod.mk.inj (Except.ok.inj h)
    exact ⟨signs_eq_zero_iff.mpr hval, List.suffix_refl _⟩
  unfold formatReference at h
  simp only at h
  split at h
  next c tail hdrop =>
    split_ifs at h with hspecifier hdollar
    · obtain ⟨out, hout, heq⟩ := Except.map_eq_ok.mp h
      obtain ⟨rfl, rfl⟩ := Prod.mk.inj heq
      refine ⟨signs_eq_zero_iff.mpr (signless_formatValue hval hout), ?_⟩
      exact ((List.suffix_cons c tail).trans (hdrop ▸ List.dropWhile_suffix _))
    · exact hunmatched rfl h
    · split at h
      · cases h
      · exact hunmatched rfl h
  next =>
    split_ifs at h with hdollar
    · exact hunmatched rfl h
    · split at h
      · cases h
      · exact hunmatched rfl h

/-- The values of the variables hold no sign. -/
def SignlessValues (vars : HashMap String String) : Prop :=
  ∀ name val, vars.lookup name = some val → Signless val.toList

/-- A reference is read up to the first closing parenthesis, and replaced by the value of its
variable or left as it is. -/
theorem reference_cases (h : reference vars text contextName ch cs = .ok (piece, rest')) :
    ∃ name behind, ')' ∉ name ∧ cs = name ++ ')' :: behind ∧ Text.trim (.ofList name) ≠ "" ∧
      ((∃ val, vars.lookup (Text.trim (.ofList name)) = some val ∧
          formatReference ch (Text.trim (.ofList name)) val text contextName behind =
            .ok (piece, rest')) ∨
        (vars.lookup (Text.trim (.ofList name)) = none ∧ ch = '$' ∧
          piece = '$' :: '(' :: name ++ [')'] ∧ rest' = behind)) := by
  unfold reference at h
  split at h
  · cases h
  next d behind hdrop =>
    have hd : d = ')' := by
      have hhead := List.head?_dropWhile_not (fun c => decide (c ≠ ')')) cs
      rw [hdrop] at hhead
      simpa using hhead
    subst hd
    have hcs : cs = cs.takeWhile (· ≠ ')') ++ ')' :: behind := by
      rw [← hdrop, List.takeWhile_append_dropWhile]
    have hclosed : ')' ∉ cs.takeWhile (· ≠ ')') := fun hmem => by
      simpa using List.mem_takeWhile_imp hmem
    simp only at h
    by_cases hempty : (Text.trim (.ofList (cs.takeWhile (· ≠ ')')))).isEmpty = true
    · rw [if_pos hempty] at h
      cases h
    · rw [if_neg hempty] at h
      have hname : Text.trim (.ofList (cs.takeWhile (· ≠ ')'))) ≠ "" := fun heq =>
        hempty (by rw [heq]; rfl)
      refine ⟨_, behind, hclosed, hcs, hname, ?_⟩
      split at h
      next val hval => exact .inl ⟨val, hval, h⟩
      next hnone =>
        split_ifs at h with hdollar
        · obtain ⟨rfl, rfl⟩ := Prod.mk.inj (Except.ok.inj h)
          exact .inr ⟨hnone, hdollar, rfl, rfl⟩
        · cases h

/-- What one iteration of the loop does, when no value holds a sign: it copies a character that is
none, or stands alone, or a reference to an unknown variable, or a sign is lost. -/
theorem nextPiece_cases (hvalues : SignlessValues vars)
    (h : nextPiece vars text contextName ch rest = .ok (piece, rest')) :
    rest' <:+ rest ∧
      (signs piece + signs rest' < signs (ch :: rest) ∨
        (piece = [ch] ∧ rest' = rest ∧ (ch = '%' ∨ ch = '$' → rest.head? ≠ some ch ∧
          rest.head? ≠ some '(')) ∨
        ∃ name, ')' ∉ name ∧ Text.trim (.ofList name) ≠ "" ∧
          vars.lookup (Text.trim (.ofList name)) = none ∧ piece = '$' :: '(' :: name ++ [')'] ∧
            ch :: rest = piece ++ rest') := by
  unfold nextPiece at h
  split_ifs at h with hsign hdoubled hopen
  · obtain ⟨rfl, rfl⟩ := Prod.mk.inj (Except.ok.inj h)
    obtain ⟨tail, rfl⟩ := List.head?_eq_some_iff.mp hdoubled
    -- Of a doubled sign one is lost.
    refine ⟨List.suffix_cons ch tail, .inl ?_⟩
    have hone : ∀ cs, signs (ch :: cs) = signs cs + 1 := fun cs => by
      rw [signs, List.countP_cons_of_pos (by simpa using hsign)]
      rfl
    rw [hone, hone, List.tail_cons, hone]
    have hnil : signs [] = 0 := rfl
    omega
  · obtain ⟨tail, rfl⟩ := List.head?_eq_some_iff.mp hopen
    rw [List.tail_cons] at h
    obtain ⟨name, behind, hclosed, rfl, hname, hreference⟩ := reference_cases h
    have hsuffix : behind <:+ '(' :: (name ++ ')' :: behind) :=
      ⟨'(' :: (name ++ [')']), by simp⟩
    rcases hreference with ⟨val, hval, hformat⟩ | ⟨hnone, rfl, rfl, rfl⟩
    · -- The sign of the reference is lost, and its value has none.
      obtain ⟨hpiece, hrest⟩ := formatReference_signs (hvalues _ val hval) hformat
      refine ⟨hrest.trans hsuffix, .inl ?_⟩
      have hle : signs rest' ≤ signs ('(' :: (name ++ ')' :: behind)) :=
        (hrest.trans hsuffix).sublist.countP_le
      have hone : signs (ch :: '(' :: (name ++ ')' :: behind)) =
          signs ('(' :: (name ++ ')' :: behind)) + 1 :=
        List.countP_cons_of_pos (by simpa using hsign)
      omega
    · exact ⟨hsuffix, .inr (.inr ⟨name, hclosed, hname, hnone, rfl, by simp⟩)⟩
  · obtain ⟨rfl, rfl⟩ := Prod.mk.inj (Except.ok.inj h)
    exact ⟨List.suffix_refl _, .inr (.inl ⟨rfl, rfl, fun _ => ⟨hdoubled, hopen⟩⟩)⟩
  · obtain ⟨rfl, rfl⟩ := Prod.mk.inj (Except.ok.inj h)
    exact ⟨List.suffix_refl _, .inr (.inl ⟨rfl, rfl, fun h => absurd h hsign⟩)⟩

/-- Where no value holds a sign, an evaluation makes no more signs, and a text that loses none is
scanned. -/
theorem signs_evalChars (hvalues : SignlessValues vars) {out : List Char}
    (hfuel : cs.length ≤ fuel) (h : evalChars vars text contextName fuel cs = .ok out) :
    signs out ≤ signs cs ∧ (signs out = signs cs → Scans vars [] (chars cs)) := by
  -- The number of signs never grows, so that it is kept only if every step keeps it.
  induction fuel generalizing cs out with
  | zero =>
    obtain rfl := List.length_eq_zero_iff.mp (Nat.le_zero.mp hfuel)
    obtain rfl := Except.ok.inj h
    exact ⟨le_rfl, fun _ => .nil⟩
  | succ fuel ih =>
    match cs with
    | [] =>
      obtain rfl := Except.ok.inj h
      exact ⟨le_rfl, fun _ => .nil⟩
    | ch :: rest =>
      obtain ⟨⟨piece, rest'⟩, hpiece, h⟩ := Except.bind_eq_ok.mp h
      obtain ⟨outs, houts, h⟩ := Except.bind_eq_ok.mp h
      obtain rfl := Except.ok.inj h
      obtain ⟨hsuffix, hcases⟩ := nextPiece_cases hvalues hpiece
      have hlength : rest'.length ≤ fuel := by
        have hle := hsuffix.length_le
        rw [List.length_cons] at hfuel
        omega
      obtain ⟨hle, hscans⟩ := ih hlength houts
      rw [signs_append]
      rcases hcases with hlost | ⟨rfl, rfl, hsign⟩ | ⟨name, hclosed, hname, hnone, rfl, heq⟩
      · exact ⟨by omega, fun heq => by omega⟩
      · have hcons : signs (ch :: rest') = signs [ch] + signs rest' := signs_append [ch] rest'
        rw [hcons]
        refine ⟨by omega, fun heq => ?_⟩
        have htail : Scans vars [] (chars rest') := hscans (by omega)
        refine .char ?_ htail
        rw [← chars, renderItems_chars, List.append_nil]
        exact hsign
      · have hcount := congrArg signs heq
        rw [signs_append] at hcount
        rw [hcount]
        refine ⟨by omega, fun _ => ?_⟩
        rw [heq]
        have hitems : chars ('$' :: '(' :: name ++ [')'] ++ rest') =
            chars ('$' :: '(' :: name ++ [')']) ++ chars rest' := List.map_append
        rw [hitems]
        exact .unknown hclosed hname hnone (hscans (by omega))

/-- Where no value holds a sign, a text that is evaluated to itself is scanned. -/
theorem scans_of_evalNamed (hvalues : SignlessValues vars)
    (h : evalNamed vars (.ofList cs) contextName = .ok (.ofList cs)) :
    Scans vars [] (chars cs) := by
  rw [evalNamed_ofList] at h
  obtain ⟨out, hout, heq⟩ := Except.map_eq_ok.mp h
  obtain rfl := String.ofList_injective heq
  exact (signs_evalChars hvalues le_rfl hout).2 rfl

/-- A reference has a sign, and its value has none. -/
theorem signs_reference {var : VarName} (hvalues : SignlessValues vars)
    (hdefined : (vars.lookup var.name).isSome) :
    signs ((vars.lookup var.name).getD "").toList = 0 ∧ 1 ≤ signs (Segment.dollar var).render ∧
      1 ≤ signs (Segment.percent var).render := by
  obtain ⟨val, hval⟩ := Option.isSome_iff_exists.mp hdefined
  refine ⟨?_, ?_, ?_⟩
  · rw [hval]
    exact signs_eq_zero_iff.mpr (hvalues _ val hval)
  · exact List.countP_pos_iff.mpr ⟨'$', List.mem_cons_self, by decide⟩
  · exact List.countP_pos_iff.mpr ⟨'%', List.mem_cons_self, by decide⟩

/-- Each doubled sign is one sign more. -/
theorem signs_flatMap_escape (cs : List Char) : signs (cs.flatMap escape) = 2 * signs cs := by
  induction cs with
  | nil => rfl
  | cons c cs ih =>
    have hescape : signs (escape c) = 2 * signs [c] := by
      by_cases hc : c = '%' ∨ c = '$' <;> simp [escape, signs, hc]
    have hcons : signs (c :: cs) = signs [c] + signs cs := signs_append [c] cs
    rw [List.flatMap_cons, signs_append, ih, hescape, hcons]
    omega

/-- What the first evaluation leaves has more signs than the value when a reference is left. -/
theorem signs_leftover (hvalues : SignlessValues vars₂)
    (hdefined : ∀ segment ∈ segments, segment.Defined vars₂)
    (hknown : ∀ segment ∈ segments, segment.Known vars₁)
    (hagree : ∀ segment ∈ segments, segment.Agrees vars₁ vars₂) :
    signs (valueOf vars₂ segments) ≤ signs (leftover vars₁ segments) ∧
      (signs (leftover vars₁ segments) = signs (valueOf vars₂ segments) →
        ∀ segment ∈ segments, segment.Defined vars₁) := by
  induction segments with
  | nil => exact ⟨le_rfl, fun _ => List.forall_mem_nil _⟩
  | cons segment segments ih =>
    rw [List.forall_mem_cons] at hdefined hknown hagree
    obtain ⟨hle, hall⟩ := ih hdefined.2 hknown.2 hagree.2
    rw [leftover_cons, valueOf_cons, signs_append, signs_append, List.forall_mem_cons]
    have hsegment : signs (segment.value vars₂) ≤ signs (segment.remains vars₁) ∧
        (signs (segment.remains vars₁) = signs (segment.value vars₂) → segment.Defined vars₁) := by
      match segment with
      | .literal _ => exact ⟨le_rfl, fun _ => trivial⟩
      | .percent var =>
        -- A string that refers to an unknown variable by `%` is not evaluated at all.
        obtain ⟨val, hval⟩ := Option.isSome_iff_exists.mp hknown.1
        rw [Segment.remains, Segment.value, hval, hagree.1 val hval]
        exact ⟨le_rfl, fun _ => hknown.1⟩
      | .dollar var =>
        obtain ⟨hzero, hone, -⟩ := signs_reference hvalues hdefined.1
        rw [Segment.value, hzero, Segment.remains, Segment.Defined]
        cases hval : vars₁.lookup var.name with
        | some val => exact ⟨Nat.zero_le _, fun _ => rfl⟩
        | none => exact ⟨Nat.zero_le _, fun heq => by simp only at heq; omega⟩
    exact ⟨by omega, fun heq => ⟨hsegment.2 (by omega), hall (by omega)⟩⟩

/-- The text of a string has more signs than its value when there is something to evaluate. -/
theorem signs_render (hvalues : SignlessValues vars)
    (hdefined : ∀ segment ∈ segments, segment.Defined vars) :
    signs (valueOf vars segments) ≤ signs (render segments) ∧
      (signs (render segments) = signs (valueOf vars segments) →
        ∀ segment ∈ segments, segment.PlainLiteral) := by
  induction segments with
  | nil => exact ⟨le_rfl, fun _ => List.forall_mem_nil _⟩
  | cons segment segments ih =>
    rw [List.forall_mem_cons] at hdefined
    obtain ⟨hle, hall⟩ := ih hdefined.2
    have hrender : render (segment :: segments) = segment.render ++ render segments :=
      List.flatMap_cons
    rw [hrender, valueOf_cons, signs_append, signs_append, List.forall_mem_cons]
    have hsegment : signs (segment.value vars) ≤ signs segment.render ∧
        (signs segment.render = signs (segment.value vars) → segment.PlainLiteral) := by
      match segment with
      | .literal text =>
        rw [Segment.render, Segment.value, signs_flatMap_escape]
        exact ⟨by omega, fun heq => signs_eq_zero_iff.mp (by omega)⟩
      | .percent var =>
        obtain ⟨hzero, -, hone⟩ := signs_reference hvalues hdefined.1
        rw [Segment.value, hzero]
        exact ⟨Nat.zero_le _, fun heq => by omega⟩
      | .dollar var =>
        obtain ⟨hzero, hone, -⟩ := signs_reference hvalues hdefined.1
        rw [Segment.value, hzero]
        exact ⟨Nat.zero_le _, fun heq => by omega⟩
    exact ⟨by omega, fun heq => ⟨hsegment.2 (by omega), hall (by omega)⟩⟩

/-- Where no value holds a sign and what is known keeps its value, the first evaluation leaves the
value only when it knows everything. -/
theorem early_of_loaded_eq (hvalues : SignlessValues vars₂)
    (hdefined : ∀ segment ∈ segments, segment.Defined vars₂)
    (hagree : ∀ segment ∈ segments, segment.Agrees vars₁ vars₂)
    (h : loaded vars₁ segments = valueOf vars₂ segments) : Early vars₁ vars₂ segments := by
  rw [loaded] at h
  split_ifs at h with hexpands
  · have hknown := (signs_leftover hvalues hdefined hexpands.2 hagree).2 (congrArg signs h)
    exact .inl ⟨hexpands, fun segment hsegment =>
      ⟨hknown segment hsegment, hagree segment hsegment⟩⟩
  · exact .inr ((signs_render hvalues hdefined).2 (congrArg signs h))

end StringExpression

end Rsupervisord
