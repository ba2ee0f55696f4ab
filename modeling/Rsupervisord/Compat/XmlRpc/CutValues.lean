import Rsupervisord.Compat.XmlRpc.Tokens

/-!
# Values that are cut

Every parser takes the end of the document for the end of its element. So a value that is cut
between two tags is read as a value, with the elements and members up to there, of which the last
one may be shorter. Only a tag or a text that is cut and a member without a name are errors.

## Main definitions

* `Unfinished` and `LosesNothing`: a cut that is an error, and one that changes nothing.
* `CutOutcome`: what a parser makes of a text that is cut.

## Main results

* `cutReads`: what is read of a value that is cut.
-/

namespace Rsupervisord

namespace XmlRpc

open Xml XmlReader

variable {C : Codecs}

/-! ### Cuts -/

/-- The markup that comes last. -/
def last (ts : List Token) : Option Markup := ts.getLast?.map Token.markup

/-- The tokens end in a parameter without a value, or in a member without a name. -/
def Unfinished (ts : List Token) : Prop :=
  last ts = some (.start "param") ∨ last ts = some (.start "member")

/-- Markup that opens or closes what is not a value. -/
def IsClosing : Markup → Prop
  | .close _ => True
  | .start name => name = "data" ∨ name = "params"
  | _ => False

instance : DecidablePred IsClosing
  | .close _ => .isTrue trivial
  | .start name => inferInstanceAs (Decidable (name = "data" ∨ name = "params"))
  | .empty _ | .declaration | .leaf _ _ => .isFalse id

/-- Behind the tokens `ts`, the tokens `ts'` hold nothing but closing tags and the empty string that
a value without content stands for: in an opened value, or as the value of the last member. -/
def LosesNothing (ts ts' : List Token) : Prop :=
  (∀ t ∈ ts', IsClosing t.markup) ∨
    (∃ rest, ts' = tok (.leaf "string" []) :: rest ∧ ∀ t ∈ rest, IsClosing t.markup) ∨
    ∃ k rest, last ts = some (.leaf "name" k) ∧
      ts' = line (.start "value") :: tok (.leaf "string" []) :: rest ∧
        ∀ t ∈ rest, IsClosing t.markup

/-- Markup after which both do not depend on what was before. -/
def IsNeutral (m : Markup) : Prop :=
  m ≠ .start "param" ∧ m ≠ .start "member" ∧ ∀ k, m ≠ .leaf "name" k

section Lists

variable {ts ts' before u rest : List Token} {t : Token} {r : List Char}

theorem last_nil_ne (k : List Char) : last [] ≠ some (.leaf "name" k) := nofun

theorem last_append_cons (before ts : List Token) (t : Token) :
    last (before ++ t :: ts) = last (t :: ts) := by
  rw [last, last, List.getLast?_append_cons]

theorem last_cons_cons (t t' : Token) (ts : List Token) :
    last (t :: t' :: ts) = last (t' :: ts) := by
  rw [last, last, List.getLast?_cons_cons]

theorem unfinished_append (before : List Token) (ht : IsNeutral t.markup) :
    Unfinished (before ++ t :: ts) ↔ Unfinished ts := by
  rw [Unfinished, Unfinished, last_append_cons]
  cases ts with
  | nil =>
    have h : last [t] = some t.markup := rfl
    have hnil : last [] = none := rfl
    rw [h, hnil, Option.some.injEq, Option.some.injEq]
    exact iff_of_false (not_or.mpr ⟨ht.1, ht.2.1⟩) (by simp)
  | cons t' ts => rw [last_cons_cons]

theorem losesNothing_append (before : List Token) (ht : IsNeutral t.markup) :
    LosesNothing (before ++ t :: ts) ts' ↔ LosesNothing ts ts' := by
  have hlast : ∀ k, last (before ++ t :: ts) = some (.leaf "name" k) ↔
      last ts = some (.leaf "name" k) := by
    intro k
    rw [last_append_cons]
    cases ts with
    | nil =>
      have h : last [t] = some t.markup := rfl
      have hnil : last [] = none := rfl
      rw [h, hnil, Option.some.injEq]
      exact iff_of_false (ht.2.2 k) (by simp)
    | cons t' ts => rw [last_cons_cons]
  simp only [LosesNothing, hlast]

/-- What is behind a closing tag must be closing as well. -/
theorem losesNothing_close (ts rest : List Token) {name : String}
    (hu : last u = some (.close name)) :
    LosesNothing ts (u ++ rest) ↔ LosesNothing ts u ∧ ∀ t ∈ rest, IsClosing t.markup := by
  constructor
  · rintro (h | ⟨rest', heq, h⟩ | ⟨k, rest', hk, heq, h⟩)
    · obtain ⟨hu', hrest⟩ := List.forall_mem_append.mp h
      exact ⟨.inl hu', hrest⟩
    · obtain _ | ⟨x, u⟩ := u
      · cases hu
      · obtain ⟨rfl, rfl⟩ := List.cons.inj heq
        obtain ⟨hu', hrest⟩ := List.forall_mem_append.mp h
        exact ⟨.inr (.inl ⟨u, rfl, hu'⟩), hrest⟩
    · obtain _ | ⟨x, _ | ⟨y, u⟩⟩ := u
      · cases hu
      · rw [(List.cons.inj heq).1] at hu
        cases hu
      · obtain ⟨rfl, htail⟩ := List.cons.inj heq
        obtain ⟨rfl, rfl⟩ := List.cons.inj htail
        obtain ⟨hu', hrest⟩ := List.forall_mem_append.mp h
        exact ⟨.inr (.inr ⟨k, u, hk, rfl, hu'⟩), hrest⟩
  · rintro ⟨h | ⟨rest', rfl, h⟩ | ⟨k, rest', hk, rfl, h⟩, hrest⟩
    · exact .inl (List.forall_mem_append.mpr ⟨h, hrest⟩)
    · exact .inr (.inl ⟨_, rfl, List.forall_mem_append.mpr ⟨h, hrest⟩⟩)
    · exact .inr (.inr ⟨k, _, hk, rfl, List.forall_mem_append.mpr ⟨h, hrest⟩⟩)

/-- Something else than closing tags is missing. -/
theorem not_losesNothing_cons (ht : ¬ IsClosing t.markup) (hleaf : t ≠ tok (.leaf "string" []))
    (hvalue : t = line (.start "value") → ∀ k, last ts ≠ some (.leaf "name" k)) :
    ¬ LosesNothing ts (t :: rest) := by
  rintro (h | ⟨rest', heq, -⟩ | ⟨k, rest', hk, heq, -⟩)
  · exact ht (h t List.mem_cons_self)
  · exact hleaf (List.cons.inj heq).1
  · exact hvalue (List.cons.inj heq).1 k hk

/-- What is behind a tag that closes, or opens what is no value, must do so as well. -/
theorem losesNothing_cons (ht : IsClosing t.markup) :
    LosesNothing ts (t :: rest) ↔ ∀ t' ∈ rest, IsClosing t'.markup := by
  constructor
  · rintro (h | ⟨rest', heq, -⟩ | ⟨k, rest', -, heq, -⟩)
    · exact fun t' ht' => h t' (List.mem_cons_of_mem _ ht')
    · rw [(List.cons.inj heq).1] at ht
      exact absurd ht (by decide)
    · rw [(List.cons.inj heq).1] at ht
      exact absurd ht (by decide)
  · exact fun h => .inl (List.forall_mem_cons.mpr ⟨ht, h⟩)

/-- A list of tokens ends like its last part. -/
theorem last_append (ts : List Token) (hu : u ≠ []) : last (ts ++ u) = last u := by
  rw [last, last, List.getLast?_append_of_ne_nil _ hu]

/-- Two lists are cut in the first or in the second one. -/
theorem append_split {xs ys : List Token} (h : xs ++ ys = ts ++ ts') :
    (∃ u, u ≠ [] ∧ xs = ts ++ u ∧ ts' = u ++ ys) ∨ ∃ u, ts = xs ++ u ∧ ys = u ++ ts' := by
  obtain ⟨u, rfl, rfl⟩ | ⟨u, rfl, rfl⟩ := List.append_eq_append_iff.mp h
  · exact .inr ⟨u, rfl, rfl⟩
  · by_cases hnil : u = []
    · exact .inr ⟨[], by simp [hnil], by simp [hnil]⟩
    · exact .inl ⟨u, hnil, rfl, rfl⟩

/-- A single token that is cut is cut at its beginning. -/
theorem eq_of_singleton (h : [t] = ts ++ ts') (hcut : Cut r ts') : ts = [] ∧ ts' = [t] := by
  obtain ⟨rfl, rfl⟩ | ⟨ts, rfl, hnil⟩ := List.cons_eq_append_iff.mp h
  · exact ⟨rfl, rfl⟩
  · obtain ⟨t', rest, rfl, -⟩ := hcut
    exact absurd hnil.symm (List.append_ne_nil_of_right_ne_nil _ (List.cons_ne_nil _ _))

theorem cut_of_append (hu : u ≠ []) (h : Cut r (u ++ rest)) : Cut r u := by
  obtain ⟨t, u, rfl⟩ := List.exists_cons_of_ne_nil hu
  exact cut_cons.mpr (cut_cons.mp h)

end Lists

/-! ### Parsers at the end of a document -/

/-- What a parser makes of a text that is cut behind the tokens `ts`: an error for a tag or a text
that is cut and where something is unfinished, and a good result otherwise. -/
def CutOutcome {α : Type} (C : Codecs) (fuel : ℕ) (ts : List Token) (r : List Char)
    (res : Except ParseError (α × C.xml.State)) (good : α → Prop) : Prop :=
  ('<' ∈ r ∨ Unfinished ts) ∧ (∃ f, res = .error (.fault f)) ∨
    '<' ∉ r ∧ ¬ Unfinished ts ∧
      ∃ a s' opened, res = .ok (a, s') ∧ C.xml.At s' opened [] fuel ∧ good a

section Ends

variable {s s' : C.xml.State} {opened : List String} {r : List Char} {n fuel : ℕ} {ts : List Token}

/-- An outcome passes through a further computation. -/
theorem CutOutcome.bind {α β : Type} {res : Except ParseError (α × C.xml.State)} {good : α → Prop}
    {good' : β → Prop} {ts' : List Token} {f : α × C.xml.State →
      Except ParseError (β × C.xml.State)}
    {fuel' : ℕ} (h : CutOutcome C fuel ts r res good) (hts : Unfinished ts' ↔ Unfinished ts)
    (hf : '<' ∉ r → ¬ Unfinished ts → ∀ a s' opened, C.xml.At s' opened [] fuel → good a →
      ∃ b s'' opened', f (a, s') = .ok (b, s'') ∧ C.xml.At s'' opened' [] fuel' ∧ good' b) :
    CutOutcome C fuel' ts' r (res >>= f) good' := by
  obtain ⟨hcut, e, rfl⟩ | ⟨hr, hunf, a, s', opened, rfl, hs', hgood⟩ := h
  · exact .inl ⟨hcut.imp_right hts.mpr, e, rfl⟩
  · exact .inr ⟨hr, fun h => hunf (hts.mp h), hf hr hunf a s' opened hs' hgood⟩

theorem CutOutcome.mono {α : Type} {res : Except ParseError (α × C.xml.State)} {good : α → Prop}
    {fuel' : ℕ} (h : CutOutcome C fuel ts r res good) (hle : fuel ≤ fuel') :
    CutOutcome C fuel' ts r res good := by
  obtain hcut | ⟨hr, hts, a, s', opened, hres, hs', hgood⟩ := h
  · exact .inl hcut
  · exact .inr ⟨hr, hts, a, s', opened, hres, hs'.mono hle, hgood⟩

/-- The outcome for the tokens behind neutral ones. -/
theorem CutOutcome.append {α : Type} {res : Except ParseError (α × C.xml.State)}
    {good good' : α → Prop} {t : Token} (h : CutOutcome C fuel ts r res good) (before : List Token)
    (ht : IsNeutral t.markup) (hgood : ∀ a, good a → good' a) :
    CutOutcome C fuel (before ++ t :: ts) r res good' := by
  obtain ⟨hcut, hres⟩ | ⟨hr, hts, a, s', opened, hres, hs', ha⟩ := h
  · exact .inl ⟨hcut.imp_right (unfinished_append before ht).mpr, hres⟩
  · exact .inr ⟨hr, fun h => hts ((unfinished_append before ht).mp h), a, s', opened, hres, hs',
      hgood a ha⟩

/-- The end of the document ends a value. -/
theorem parseValueElement_eof (hread : C.xml.readEvent s = .ok (.eof, s')) (cur : Option Value) :
    parseValueElement C (n + 1) s cur = .ok (cur.getD (.string ""), s') := by
  rw [parseValueElement, hread]

theorem parseArray_eof (hread : C.xml.readEvent s = .ok (.eof, s')) (items : List Value) :
    parseArray C (n + 1) s items = .ok (items, s') := by
  rw [parseArray, hread]

theorem parseStruct_eof (hread : C.xml.readEvent s = .ok (.eof, s')) (map : List (String × Value)) :
    parseStruct C (n + 1) s map = .ok (map, s') := by
  rw [parseStruct, hread]

theorem parseMember_eof (hread : C.xml.readEvent s = .ok (.eof, s')) (k : String)
    (val : Option Value) :
    parseMember C (n + 1) s (some k) val = .ok ((k, val.getD (.string "")), s') := by
  rw [parseMember, hread]

theorem parseParamValue_eof (hread : C.xml.readEvent s = .ok (.eof, s')) (val : Value) :
    parseParamValue C (n + 1) s (some val) = .ok (val, s') := by
  rw [parseParamValue, hread]

theorem parseParams_eof (hread : C.xml.readEvent s = .ok (.eof, s')) (params : List Value) :
    parseParams C (n + 1) s params = .ok (params, s') := by
  rw [parseParams, hread]

/-- A value whose next token is cut. -/
theorem parseValueElement_ends (h : Cuts.Ends C.xml s opened r n) (cur : Option Value)
    {good : Value → Prop} (hts : ¬ Unfinished ts) (hgood : good (cur.getD (.string ""))) :
    CutOutcome C (n + 1) ts r (parseValueElement C (n + 1) s cur) good := by
  obtain ⟨hr, hread, hs'⟩ | ⟨hr, hread⟩ := h
  · exact .inr ⟨hr, hts, _, _, _, parseValueElement_eof hread cur, hs', hgood⟩
  · refine .inl ⟨.inl hr, ?_⟩
    rw [parseValueElement, hread]
    exact ⟨_, rfl⟩

theorem parseArray_ends (h : Cuts.Ends C.xml s opened r n) (items : List Value)
    {good : List Value → Prop} (hts : ¬ Unfinished ts) (hgood : good items) :
    CutOutcome C (n + 1) ts r (parseArray C (n + 1) s items) good := by
  obtain ⟨hr, hread, hs'⟩ | ⟨hr, hread⟩ := h
  · exact .inr ⟨hr, hts, _, _, _, parseArray_eof hread items, hs', hgood⟩
  · refine .inl ⟨.inl hr, ?_⟩
    rw [parseArray, hread]
    exact ⟨_, rfl⟩

theorem parseStruct_ends (h : Cuts.Ends C.xml s opened r n) (map : List (String × Value))
    {good : List (String × Value) → Prop} (hts : ¬ Unfinished ts) (hgood : good map) :
    CutOutcome C (n + 1) ts r (parseStruct C (n + 1) s map) good := by
  obtain ⟨hr, hread, hs'⟩ | ⟨hr, hread⟩ := h
  · exact .inr ⟨hr, hts, _, _, _, parseStruct_eof hread map, hs', hgood⟩
  · refine .inl ⟨.inl hr, ?_⟩
    rw [parseStruct, hread]
    exact ⟨_, rfl⟩

theorem parseMember_ends (h : Cuts.Ends C.xml s opened r n) (k : String) (val : Option Value)
    {good : String × Value → Prop} (hts : ¬ Unfinished ts)
    (hgood : good (k, val.getD (.string ""))) :
    CutOutcome C (n + 1) ts r (parseMember C (n + 1) s (some k) val) good := by
  obtain ⟨hr, hread, hs'⟩ | ⟨hr, hread⟩ := h
  · exact .inr ⟨hr, hts, _, _, _, parseMember_eof hread k val, hs', hgood⟩
  · refine .inl ⟨.inl hr, ?_⟩
    rw [parseMember, hread]
    exact ⟨_, rfl⟩

/-- A member without a name is an error. -/
theorem parseMember_unfinished (h : Cuts.Ends C.xml s opened r n) :
    ∃ f, parseMember C (n + 1) s none none = .error (.fault f) := by
  obtain ⟨-, hread, -⟩ | ⟨-, hread⟩ := h
  · rw [parseMember, hread]
    exact ⟨_, rfl⟩
  · rw [parseMember, hread]
    exact ⟨_, rfl⟩

theorem parseParamValue_ends (h : Cuts.Ends C.xml s opened r n) (val : Value)
    {good : Value → Prop} (hts : ¬ Unfinished ts) (hgood : good val) :
    CutOutcome C (n + 1) ts r (parseParamValue C (n + 1) s (some val)) good := by
  obtain ⟨hr, hread, hs'⟩ | ⟨hr, hread⟩ := h
  · exact .inr ⟨hr, hts, _, _, _, parseParamValue_eof hread val, hs', hgood⟩
  · refine .inl ⟨.inl hr, ?_⟩
    rw [parseParamValue, hread]
    exact ⟨_, rfl⟩

/-- A parameter without a value is an error. -/
theorem parseParamValue_unfinished (h : Cuts.Ends C.xml s opened r n) :
    ∃ f, parseParamValue C (n + 1) s none = .error (.fault f) := by
  obtain ⟨-, hread, -⟩ | ⟨-, hread⟩ := h
  · rw [parseParamValue, hread]
    exact ⟨_, rfl⟩
  · rw [parseParamValue, hread]
    exact ⟨_, rfl⟩

theorem parseParams_ends (h : Cuts.Ends C.xml s opened r n) (params : List Value)
    {good : List Value → Prop} (hts : ¬ Unfinished ts) (hgood : good params) :
    CutOutcome C (n + 1) ts r (parseParams C (n + 1) s params) good := by
  obtain ⟨hr, hread, hs'⟩ | ⟨hr, hread⟩ := h
  · exact .inr ⟨hr, hts, _, _, _, parseParams_eof hread params, hs', hgood⟩
  · refine .inl ⟨.inl hr, ?_⟩
    rw [parseParams, hread]
    exact ⟨_, rfl⟩

end Ends

/-! ### Values that are cut -/

/-- A value that is cut, behind its opening tag, is read as the value when nothing is lost, as
another one when something is, or not at all. -/
def CutReads (C : Codecs) (v : Value) : Prop :=
  ∀ ⦃s : C.xml.State⦄ ⦃opened : List String⦄ ⦃ts ts' : List Token⦄ ⦃r : List Char⦄ ⦃fuel : ℕ⦄,
    v.tokens C ++ [tok (.close "value")] = ts ++ ts' → Cut r ts' →
      C.xml.At s ("value" :: opened) (text ts ++ r) fuel →
        CutOutcome C fuel ts r (parseValueElement C fuel s none)
          (fun w => w = v.readBack C ↔ LosesNothing ts ts')

section Value

variable {s s' : C.xml.State} {opened : List String} {ts ts' : List Token} {r : List Char}
  {n fuel : ℕ} {v : Value}

theorem isNeutral_start {name : String} (hparam : name ≠ "param") (hmember : name ≠ "member") :
    IsNeutral (.start name) := by
  refine ⟨?_, ?_, Markup.start_ne_leaf _ _⟩
  · rintro ⟨⟩
    exact hparam rfl
  · rintro ⟨⟩
    exact hmember rfl

theorem isNeutral_close (name : String) : IsNeutral (.close name) := ⟨nofun, nofun, nofun⟩

theorem isNeutral_empty (name : String) : IsNeutral (.empty name) := ⟨nofun, nofun, nofun⟩

theorem not_unfinished_nil : ¬ Unfinished [] := by
  rintro (h | h) <;> cases h

theorem not_unfinished_of_last {m : Markup} (h : last ts = some m) (hm : IsNeutral m) :
    ¬ Unfinished ts := by
  rintro (h' | h')
  · exact hm.1 (Option.some.inj (h.symm.trans h'))
  · exact hm.2.1 (Option.some.inj (h.symm.trans h'))

/-- Only closing tags are missing. -/
theorem losesNothing_of_closing (h : ∀ t ∈ ts', ∃ name, t.markup = .close name) :
    LosesNothing ts ts' := by
  refine .inl fun t ht => ?_
  obtain ⟨name, hname⟩ := h t ht
  rw [hname]
  trivial

/-- Only a string without characters is an empty string in the document. -/
theorem empty_iff (v : Value) (rest : List Token) (hrest : ∀ t ∈ rest, IsClosing t.markup) :
    .string "" = v.readBack C ↔ ∃ rest', v.tokens C ++ rest = tok (.leaf "string" []) :: rest' ∧
      ∀ t ∈ rest', IsClosing t.markup := by
  cases v with
  | string s =>
    have htokens : Value.tokens C (.string s) ++ rest =
        tok (.leaf "string" (escapeXml s).toList) :: rest := rfl
    rw [htokens, Value.readBack, Value.string.injEq]
    constructor
    · intro h
      rw [← h]
      exact ⟨rest, rfl, hrest⟩
    · rintro ⟨rest', heq, -⟩
      have hmarkup := congrArg Token.markup (List.cons.inj heq).1
      exact (String.toList_eq_nil_iff.mp (Markup.leaf.inj hmarkup).2).symm
  | _ =>
    refine iff_of_false (by simp [Value.readBack]) ?_
    rintro ⟨rest', heq, -⟩
    simp [Value.tokens, tok] at heq

/-- Where the content of a value is missing, nothing is lost when it is the empty string. -/
theorem losesNothing_tokens (v : Value) (rest : List Token)
    (hrest : ∀ t ∈ rest, IsClosing t.markup) :
    .string "" = v.readBack C ↔ LosesNothing [] (v.tokens C ++ rest) := by
  rw [empty_iff v rest hrest]
  constructor
  · exact fun h => .inr (.inl h)
  · rintro (h | h | ⟨k, rest', hk, -, -⟩)
    · cases v <;> exact absurd (h _ List.mem_cons_self) (by simp [tok, IsClosing])
    · exact h
    · cases hk

/-- Behind the name of a member, the value may be missing as well. -/
theorem losesNothing_value (before : List Token) (cs : List Char) (v : Value) (rest : List Token)
    (hrest : ∀ t ∈ rest, IsClosing t.markup) :
    .string "" = v.readBack C ↔ LosesNothing (before ++ [line (.leaf "name" cs)])
      (line (.start "value") :: (v.tokens C ++ rest)) := by
  rw [empty_iff v rest hrest]
  constructor
  · rintro ⟨rest', heq, h⟩
    refine .inr (.inr ⟨cs, rest', last_append before (List.cons_ne_nil _ _), ?_, h⟩)
    rw [heq]
  · rintro (h | ⟨rest', heq, -⟩ | ⟨k, rest', -, heq, h⟩)
    · exact absurd (h _ List.mem_cons_self) (by decide)
    · exact absurd (List.cons.inj heq).1 (by decide)
    · exact ⟨rest', (List.cons.inj heq).2, h⟩

/-- A cut of the end tag of a value. -/
theorem cut_close (hR : C.xml.Cuts) {w : Value} (hcut : Cut r [tok (.close "value")])
    (h : C.xml.At s opened r fuel) (cur : Option Value) (hts : ¬ Unfinished ts)
    (hw : cur.getD (.string "") = w) :
    CutOutcome C fuel ts r (parseValueElement C fuel s cur)
      (fun a => a = w ↔ LosesNothing ts [tok (.close "value")]) := by
  have hvalid : isName "value" = true := by decide
  obtain ⟨n, rfl, hends⟩ := hR.tag h (cut_cons.mp hcut) rfl hvalid (Markup.close_ne_leaf _)
  apply parseValueElement_ends hends cur hts
  refine iff_of_true hw (losesNothing_of_closing fun t ht => ?_)
  exact ⟨"value", List.mem_singleton.mp ht ▸ rfl⟩

/-- A cut of an element that holds nothing but text, or behind it. -/
theorem cut_scalar (hR : C.xml.Cuts) {tag : String} {cs : List Char}
    (htokens : v.tokens C = [tok (.leaf tag cs)]) (hscalar : IsScalar C tag cs (v.readBack C))
    (hcs : '<' ∉ cs) (htag : tag ≠ "name") : CutReads C v := by
  intro s opened ts ts' r fuel hsplit hcut h
  have hempty := losesNothing_tokens (C := C) v [tok (.close "value")] (by decide)
  rw [htokens, List.singleton_append] at hsplit hempty
  obtain ⟨rfl, rfl⟩ | ⟨ts, rfl, htail⟩ := List.cons_eq_append_iff.mp hsplit
  · -- The element is cut.
    have hleaf : r <+: [] ++ element tag cs ∧ r ≠ [] ++ element tag cs := cut_cons.mp hcut
    obtain ⟨n, rfl, hends | ⟨hr, s', e, hread, htext⟩⟩ := hR.leaf h hleaf rfl hscalar.isName hcs
    · exact parseValueElement_ends hends none not_unfinished_nil hempty
    · obtain ⟨decode, hdecode, -⟩ := hscalar.decode
      refine .inl ⟨.inl hr, ?_⟩
      rw [parseValueElement, hread]
      simp only [hdecode, readScalar, htext]
      exact ⟨_, rfl⟩
  · have htext : text (tok (.leaf tag cs) :: ts) ++ r = element tag cs ++ (text ts ++ r) :=
      List.append_assoc _ _ _
    rw [htext] at h
    obtain ⟨n, s₁, rfl, hstep, h₁⟩ := parseValueElement_scalar hscalar none h
    rw [hstep]
    obtain ⟨rfl, rfl⟩ := eq_of_singleton htail hcut
    have hneutral : IsNeutral (.leaf tag cs) := by
      refine ⟨(Markup.start_ne_leaf _ _ _).symm, (Markup.start_ne_leaf _ _ _).symm, fun k => ?_⟩
      rintro ⟨⟩
      exact htag rfl
    exact (cut_close hR hcut h₁ (some _) (not_unfinished_of_last rfl hneutral) rfl).mono
      (Nat.le_succ _)

theorem cut_nil (hR : C.xml.Cuts) : CutReads C .nil := by
  intro s opened ts ts' r fuel hsplit hcut h
  obtain ⟨rfl, rfl⟩ | ⟨ts, rfl, htail⟩ := List.cons_eq_append_iff.mp hsplit
  · have hvalid : isName "nil" = true := by decide
    obtain ⟨n, rfl, hends⟩ := hR.tag h (cut_cons.mp hcut) rfl hvalid (Markup.empty_ne_leaf _)
    exact parseValueElement_ends hends none not_unfinished_nil
      (losesNothing_tokens .nil _ (by decide))
  · have htext : text (tok (.empty "nil") :: ts) ++ r = emptyTag "nil" ++ (text ts ++ r) :=
      List.append_assoc _ _ _
    rw [htext] at h
    obtain ⟨n, s₁, rfl, hempty, h₁⟩ := h.empty (by decide)
    have hstep : parseValueElement C (n + 1) s none = parseValueElement C n s₁ (some .nil) := by
      rw [parseValueElement, hempty]
      rfl
    rw [hstep]
    obtain ⟨rfl, rfl⟩ := eq_of_singleton htail hcut
    exact (cut_close hR hcut h₁ (some _) (not_unfinished_of_last rfl (isNeutral_empty _)) rfl).mono
      (Nat.le_succ _)

/-- A complete value, up to its closing tag. -/
theorem reads_tokens {w : Value} (hreads : Reads C (content C v) w) (hv : v.IsOrdered)
    (h : C.xml.At s ("value" :: opened) (text (v.tokens C ++ tok (.close "value") :: ts) ++
      r) fuel) :
    ∃ s', parseValueElement C fuel s none = .ok (w, s') ∧
      C.xml.At s' opened (text ts ++ r) fuel := by
  have htext : text (v.tokens C ++ tok (.close "value") :: ts) ++ r =
      content C v ++ (endTag "value" ++ (text ts ++ r)) := by
    rw [text_append, text_tokens hv, text_cons, List.append_assoc, List.append_assoc]
    rfl
  rw [htext] at h
  exact hreads h

/-- Only an empty array has nothing but closing tags. -/
theorem closing_itemTokens {items : List Value} :
    (∀ t ∈ Value.itemTokens C items ++ [line (.close "data"), tok (.close "array")],
      IsClosing t.markup) ↔ items = [] := by
  have hclosing : ∀ t ∈ [line (.close "data"), tok (.close "array")],
      IsClosing t.markup := by decide
  cases items with
  | nil => exact iff_of_true hclosing rfl
  | cons item items =>
      exact iff_of_false (fun h => absurd (h _ List.mem_cons_self) (by decide))
        (List.cons_ne_nil _ _)

/-- A cut in the elements of an array. -/
theorem cut_items (hR : C.xml.Cuts) (hd : C.ReadsDoubles) {items : List Value}
    (hordered : ∀ item ∈ items, item.IsOrdered) (hcuts : ∀ item ∈ items, CutReads C item)
    (acc : List Value)
    (hsplit : Value.itemTokens C items ++ [line (.close "data"), tok (.close "array")] = ts ++ ts')
    (hcut : Cut r ts') (h : C.xml.At s ("data" :: "array" :: opened) (text ts ++ r) fuel) :
    CutOutcome C fuel ts r (parseArray C fuel s acc)
      (fun a => a = acc ++ items.map (Value.readBack C) ↔ LosesNothing ts ts') := by
  induction items generalizing s ts fuel acc with
  | nil =>
    have hdata : isName "data" = true := by decide
    have harray : isName "array" = true := by decide
    have hclosing : ∀ t ∈ ts', ∃ name, t.markup = .close name := by
      intro t ht
      have hmem : t ∈ [line (.close "data"), tok (.close "array")] := by
        have heq : [line (.close "data"), tok (.close "array")] = ts ++ ts' := hsplit
        rw [heq]
        exact List.mem_append_right _ ht
      simp only [List.mem_cons, List.not_mem_nil, or_false] at hmem
      obtain rfl | rfl := hmem
      · exact ⟨"data", rfl⟩
      · exact ⟨"array", rfl⟩
    have hgood : acc = acc ++ [].map (Value.readBack C) ↔ LosesNothing ts ts' :=
      iff_of_true (List.append_nil acc).symm (losesNothing_of_closing hclosing)
    obtain ⟨rfl, rfl⟩ | ⟨ts, rfl, htail⟩ := List.cons_eq_append_iff.mp hsplit
    · obtain ⟨n, rfl, hends⟩ := hR.tag h (cut_cons.mp hcut) rfl hdata (Markup.close_ne_leaf _)
      exact parseArray_ends hends acc not_unfinished_nil hgood
    · obtain ⟨n, s₁, rfl, hread, h₁⟩ := h.closeToken rfl rfl hdata
      have hstep : parseArray C (n + 1) s acc = parseArray C n s₁ acc := by
        rw [parseArray, hread]
        rfl
      rw [hstep]
      obtain ⟨rfl, rfl⟩ := eq_of_singleton htail hcut
      obtain ⟨n, rfl, hends⟩ := hR.tag h₁ (cut_cons.mp hcut) rfl harray (Markup.close_ne_leaf _)
      exact (parseArray_ends hends acc (not_unfinished_of_last rfl (isNeutral_close _)) hgood).mono
        (Nat.le_succ _)
  | cons item items ih =>
    have hvalid : isName "value" = true := by decide
    have hordered' := hordered item List.mem_cons_self
    set tail := Value.itemTokens C items ++ [line (.close "data"), tok (.close "array")] with htail
    have hsplit' : line (.start "value") :: ((item.tokens C ++ [tok (.close "value")]) ++ tail) =
        ts ++ ts' := by
      rw [← hsplit, htail, Value.itemTokens]
      simp
    obtain ⟨rfl, rfl⟩ | ⟨ts, rfl, hrest⟩ := List.cons_eq_append_iff.mp hsplit'
    · obtain ⟨n, rfl, hends⟩ := hR.tag h (cut_cons.mp hcut) rfl hvalid (Markup.start_ne_leaf _)
      apply parseArray_ends hends acc not_unfinished_nil
      refine iff_of_false ?_ (not_losesNothing_cons (by decide) (by decide) fun _ => last_nil_ne)
      simp
    · obtain ⟨n, s₁, rfl, hread, h₁⟩ := h.startToken rfl rfl hvalid
      have hstep : parseArray C (n + 1) s acc = (parseValueElement C n s₁ none >>= fun p =>
          parseArray C n p.2 (acc ++ [p.1])) := by
        rw [parseArray, hread]
        rfl
      have hneutral : IsNeutral (line (.start "value")).markup :=
        isNeutral_start (by decide) (by decide)
      rw [hstep]
      obtain ⟨u, hu, hitem, rfl⟩ | ⟨u, rfl, hmore⟩ := append_split hrest
      · -- The element is cut.
        have hlast : last u = some (.close "value") := by
          rw [← last_append ts hu, ← hitem, last_append _ (List.cons_ne_nil _ _)]
          rfl
        have hvalue := hcuts item List.mem_cons_self hitem (cut_of_append hu hcut) h₁
        apply hvalue.bind (unfinished_append [] hneutral)
        intro _ _ w s₂ opened₂ hs₂ hw
        obtain ⟨m, s₃, rfl, heof, h₃⟩ := hR.blank hs₂ rfl
        refine ⟨_, s₃, _, parseArray_eof heof _, h₃.mono (Nat.le_succ _), ?_⟩
        have hlost := (losesNothing_append [] hneutral).trans
          (losesNothing_close ts tail hlast)
        rw [List.nil_append] at hlost
        rw [hlost, ← hw, htail, closing_itemTokens, List.append_cancel_left_eq, List.map_cons,
          List.cons.injEq, eq_comm (a := []), List.map_eq_nil_iff]
      · have htext : text (item.tokens C ++ [tok (.close "value")] ++ u) =
            text (item.tokens C ++ tok (.close "value") :: u) := by rw [List.append_assoc]; rfl
        rw [htext] at h₁
        obtain ⟨s₂, hparse, h₂⟩ := reads_tokens (reads_readBack hR hd hordered') hordered' h₁
        have hrest' := ih (fun i hi => hordered i (List.mem_cons_of_mem _ hi))
          (fun i hi => hcuts i (List.mem_cons_of_mem _ hi)) (acc ++ [item.readBack C]) hmore h₂
        have htokens : line (.start "value") :: (item.tokens C ++ [tok (.close "value")] ++ u) =
            (line (.start "value") :: item.tokens C) ++ tok (.close "value") :: u := by simp
        rw [hparse, htokens]
        refine (hrest'.append _ (isNeutral_close _) fun a ha => ?_).mono (Nat.le_succ _)
        rw [losesNothing_append _ (isNeutral_close _), ← ha, List.append_assoc]
        rfl

/-- The elements of a complete array. -/
theorem parseArray_tokens (hR : C.xml.Cuts) (hd : C.ReadsDoubles) {items : List Value}
    (hordered : ∀ item ∈ items, item.IsOrdered)
    (h : C.xml.At s ("data" :: "array" :: opened)
      (text (Value.itemTokens C items ++ [line (.close "data"), tok (.close "array")]) ++ r) fuel) :
    ∃ s', parseArray C fuel s [] = .ok (items.map (Value.readBack C), s') ∧
      C.xml.At s' opened r fuel := by
  have htext : text (Value.itemTokens C items ++
      [line (.close "data"), tok (.close "array")]) ++ r =
      '\n' :: (serializeItems C items).toList ++ (endTag "data" ++ (endTag "array" ++ r)) := by
    have hitems := text_itemTokens (C := C) (fun item hitem => text_tokens (hordered item hitem))
      (endTag "data" ++ (endTag "array" ++ r))
    rw [List.cons_append, ← hitems]
    simp [Token.chars, line, tok, Markup.chars]
  rw [htext] at h
  exact parseArray_serializeItems (fun item hitem =>
    reads_readBack hR hd (hordered item hitem)) [] h

/-- Where what is inside of a value ends with the document, the value ends as well. -/
theorem CutOutcome.value {α : Type} {res : Except ParseError (α × C.xml.State)} {good : α → Prop}
    {good' : Value → Prop} {f : α → Value} (h : CutOutcome C n ts r res good) (hR : C.xml.Cuts)
    (hts : Unfinished ts' ↔ Unfinished ts) (hgood : ∀ a, good a → good' (f a)) :
    CutOutcome C (n + 1) ts' r (res >>= fun p =>
      parseValueElement C n p.2 (some (f p.1))) good' := by
  apply h.bind hts
  intro _ _ a s₁ opened hs₁ ha
  obtain ⟨m, s₂, rfl, heof, h₂⟩ := hR.blank hs₁ rfl
  exact ⟨_, s₂, _, parseValueElement_eof heof _, h₂.mono (Nat.le_succ _), hgood a ha⟩

/-- A cut in an array, or behind it. -/
theorem cut_array (hR : C.xml.Cuts) (hd : C.ReadsDoubles) {items : List Value}
    (hordered : ∀ item ∈ items, item.IsOrdered) (hcuts : ∀ item ∈ items, CutReads C item) :
    CutReads C (.array items) := by
  intro s opened ts ts' r fuel hsplit hcut h
  have harray : isName "array" = true := by decide
  have hdata : isName "data" = true := by decide
  have hsplit' : tok (.start "array") :: tok (.start "data") ::
      ((Value.itemTokens C items ++ [line (.close "data"), tok (.close "array")]) ++
        [tok (.close "value")]) = ts ++ ts' := hsplit
  obtain ⟨rfl, rfl⟩ | ⟨ts, rfl, hrest⟩ := List.cons_eq_append_iff.mp hsplit'
  · obtain ⟨n, rfl, hends⟩ := hR.tag h (cut_cons.mp hcut) rfl harray (Markup.start_ne_leaf _)
    exact parseValueElement_ends hends none not_unfinished_nil
      (losesNothing_tokens (.array items) [tok (.close "value")] (by decide))
  obtain ⟨n, s₁, rfl, hread, h₁⟩ := h.startToken rfl rfl harray
  have hstep : parseValueElement C (n + 1) s none = (parseArray C n s₁ [] >>= fun p =>
      parseValueElement C n p.2 (some (.array p.1))) := by
    rw [parseValueElement, hread]
    rfl
  have hneutral : IsNeutral (tok (.start "array")).markup := isNeutral_start (by decide) (by decide)
  have hneutral' : IsNeutral (tok (.start "data")).markup := isNeutral_start (by decide) (by decide)
  rw [hstep]
  obtain ⟨rfl, rfl⟩ | ⟨ts, rfl, htail⟩ := List.cons_eq_append_iff.mp hrest
  · obtain ⟨n, rfl, hends⟩ := hR.tag h₁ (cut_cons.mp hcut) rfl hdata (Markup.start_ne_leaf _)
    have hout : CutOutcome C (n + 1) [] r (parseArray C (n + 1) s₁ []) (· = []) :=
      parseArray_ends hends [] not_unfinished_nil rfl
    refine hout.value hR (unfinished_append [] hneutral) fun a ha => ?_
    have hend : ∀ t ∈ [tok (.close "value")], IsClosing t.markup := by decide
    rw [ha, losesNothing_cons (by decide), List.forall_mem_append, closing_itemTokens,
      and_iff_left hend, Value.readBack, readBackItems_eq, Value.array.injEq, eq_comm,
      List.map_eq_nil_iff]
  obtain ⟨n, s₂, rfl, hread', h₂⟩ := h₁.startToken rfl rfl hdata
  have hstep' : parseArray C (n + 1) s₁ [] = parseArray C n s₂ [] := by
    rw [parseArray, hread']
    rfl
  rw [hstep']
  obtain ⟨u, hu, hitems, rfl⟩ | ⟨u, rfl, hmore⟩ := append_split htail
  · have hlast : last u = some (.close "array") := by
      rw [← last_append ts hu, ← hitems, last_append _ (List.cons_ne_nil _ _)]
      rfl
    have hout := cut_items hR hd hordered hcuts [] hitems (cut_of_append hu hcut) h₂
    refine (hout.mono (Nat.le_succ n)).value hR
      ((unfinished_append [] hneutral).trans (unfinished_append [] hneutral')) fun a ha => ?_
    have hlost := (losesNothing_append [tok (.start "array")] hneutral').trans
      (losesNothing_close ts [tok (.close "value")] hlast)
    have hend : ∀ t ∈ [tok (.close "value")], IsClosing t.markup := by decide
    rw [List.singleton_append, and_iff_left hend, ← ha] at hlost
    rw [hlost, Value.readBack, readBackItems_eq, Value.array.injEq, List.nil_append]
  · obtain ⟨rfl, rfl⟩ := eq_of_singleton hmore hcut
    rw [List.append_nil] at h₂ ⊢
    obtain ⟨s₃, hparse, h₃⟩ := parseArray_tokens hR hd hordered h₂
    rw [hparse]
    refine (cut_close hR hcut (h₃.mono (Nat.le_succ n)) (some _) ?_ ?_).mono (Nat.le_succ _)
    · have hlast := last_append (tok (.start "array") :: tok (.start "data") ::
        Value.itemTokens C items) (List.cons_ne_nil (line (.close "data")) [tok (.close "array")])
      exact not_unfinished_of_last hlast (isNeutral_close _)
    · rw [Option.getD_some, Value.readBack, readBackItems_eq]

/-- A complete member is read back. -/
theorem parseMember_tokens (hR : C.xml.Cuts) (hd : C.ReadsDoubles) {k : String} (hv : v.IsOrdered)
    (h : C.xml.At s ("member" :: opened)
      (text (line (.leaf "name" (escapeXml k).toList) :: line (.start "value") ::
        (v.tokens C ++ tok (.close "value") :: line (.close "member") :: ts)) ++ r) fuel) :
    ∃ s', parseMember C fuel s none none = .ok ((escapeXml k, v.readBack C), s') ∧
      C.xml.At s' opened (text ts ++ r) fuel := by
  have htext : text (line (.leaf "name" (escapeXml k).toList) :: line (.start "value") ::
      (v.tokens C ++ tok (.close "value") :: line (.close "member") :: ts)) ++ r =
        '\n' :: (element "name" (escapeXml k).toList ++ ('\n' :: (element "value" (content C v) ++
          '\n' :: (endTag "member" ++ (text ts ++ r))))) := by
    simp [text_tokens hv, Token.chars, line, tok, Markup.chars, element]
  rw [htext] at h
  exact parseMember_eq (hR.readsText (rawText_escapeXml k) (by decide)) (reads_readBack hR hd hv) h

/-- A cut in a member. -/
theorem cut_member (hR : C.xml.Cuts) (hd : C.ReadsDoubles) {k : String} (hv : v.IsOrdered)
    (hcuts : CutReads C v)
    (hsplit : line (.leaf "name" (escapeXml k).toList) :: line (.start "value") ::
      ((v.tokens C ++ [tok (.close "value")]) ++ [line (.close "member")]) = ts ++ ts')
    (hcut : Cut r ts') (h : C.xml.At s ("member" :: opened) (text ts ++ r) fuel) :
    CutOutcome C fuel (line (.start "member") :: ts) r (parseMember C fuel s none none)
      (fun m => m.1 = escapeXml k ∧
        (m.2 = v.readBack C ↔ LosesNothing (line (.start "member") :: ts) ts')) := by
  have hname : isName "name" = true := by decide
  have hvalue : isName "value" = true := by decide
  have hmember : isName "member" = true := by decide
  have hraw := rawText_escapeXml k
  obtain ⟨rfl, rfl⟩ | ⟨ts, rfl, hrest⟩ := List.cons_eq_append_iff.mp hsplit
  · -- The name is missing or cut.
    obtain ⟨n, rfl, hends | ⟨hr, s', e, hread, htext⟩⟩ :=
      hR.leaf h (cut_cons.mp hcut) rfl hname hraw.notMem_lt
    · exact .inl ⟨.inr (.inr rfl), parseMember_unfinished hends⟩
    · refine .inl ⟨.inl hr, ?_⟩
      rw [parseMember, hread]
      simp only [if_true, htext]
      exact ⟨_, rfl⟩
  obtain ⟨n, s₁, s₂, rfl, hread, htext, h₂⟩ :=
    h.leafToken rfl rfl hname (hR.readsText hraw hname)
  have hstep : parseMember C (n + 1) s none none =
      parseMember C n s₂ (some (escapeXml k)) none := by
    rw [parseMember, hread]
    simp only [if_true, htext, String.ofList_toList]
  rw [hstep]
  obtain ⟨rfl, rfl⟩ | ⟨ts, rfl, htail⟩ := List.cons_eq_append_iff.mp hrest
  · -- The value is missing.
    obtain ⟨n, rfl, hends⟩ := hR.tag h₂ (cut_cons.mp hcut) rfl hvalue (Markup.start_ne_leaf _)
    have hend : ∀ t ∈ [tok (.close "value"), line (.close "member")],
        IsClosing t.markup := by decide
    have hts : ¬ Unfinished [line (.start "member"), line (.leaf "name" (escapeXml k).toList)] := by
      rintro (h | h) <;> cases h
    refine (parseMember_ends hends (escapeXml k) none hts ⟨rfl, ?_⟩).mono (Nat.le_succ _)
    rw [Option.getD_none, List.append_assoc, List.cons_append, List.nil_append]
    exact losesNothing_value [line (.start "member")] _ v _ hend
  obtain ⟨n, s₃, rfl, hread', h₃⟩ := h₂.startToken rfl rfl hvalue
  have hstep' : parseMember C (n + 1) s₂ (some (escapeXml k)) none =
      (parseValueElement C n s₃ none >>= fun p =>
        parseMember C n p.2 (some (escapeXml k)) (some p.1)) := by
    rw [parseMember, hread']
    rfl
  have hneutral : IsNeutral (line (.start "value")).markup :=
    isNeutral_start (by decide) (by decide)
  set before := [line (.start "member"), line (.leaf "name" (escapeXml k).toList)] with hbefore
  rw [hstep']
  obtain ⟨u, hu, hval, rfl⟩ | ⟨u, rfl, hmore⟩ := append_split htail
  · -- The value is cut.
    have hlast : last u = some (.close "value") := by
      rw [← last_append ts hu, ← hval, last_append _ (List.cons_ne_nil _ _)]
      rfl
    have hout := hcuts hval (cut_of_append hu hcut) h₃
    refine (hout.bind (unfinished_append before hneutral)
      fun _ _ w s₄ opened₄ hs₄ hw => ?_).mono (Nat.le_succ _)
    obtain ⟨m, s₅, rfl, heof, h₅⟩ := hR.blank hs₄ rfl
    refine ⟨_, s₅, _, parseMember_eof heof _ _, h₅.mono (Nat.le_succ _), rfl, ?_⟩
    have hlost := (losesNothing_append before hneutral).trans
      (losesNothing_close ts [line (.close "member")] hlast)
    have hend : ∀ t ∈ [line (.close "member")], IsClosing t.markup := by decide
    rw [and_iff_left hend, ← hw] at hlost
    exact hlost.symm
  · obtain ⟨rfl, rfl⟩ := eq_of_singleton hmore hcut
    have htokens : v.tokens C ++ [tok (.close "value")] ++ [] =
        v.tokens C ++ tok (.close "value") :: [] := List.append_nil _
    rw [htokens] at h₃ ⊢
    obtain ⟨s₄, hparse, h₄⟩ := reads_tokens (reads_readBack hR hd hv) hv h₃
    rw [hparse]
    obtain ⟨n, rfl, hends⟩ := hR.tag h₄ (cut_cons.mp hcut) rfl hmember (Markup.close_ne_leaf _)
    have hlast := last_append (before ++ line (.start "value") :: v.tokens C)
      (List.cons_ne_nil (tok (.close "value")) [])
    have hts : ¬ Unfinished (before ++ line (.start "value") :: v.tokens C ++
        [tok (.close "value")]) :=
      not_unfinished_of_last hlast (isNeutral_close _)
    rw [List.append_assoc] at hts
    have hclosing : ∀ t ∈ [line (.close "member")], ∃ name, t.markup = .close name := by
      intro t ht
      exact ⟨"member", List.mem_singleton.mp ht ▸ rfl⟩
    exact (parseMember_ends hends _ _ hts
      ⟨rfl, iff_of_true rfl (losesNothing_of_closing hclosing)⟩).mono (by omega)

/-- Only a struct without members has nothing but closing tags. -/
theorem closing_memberTokens {members : List (String × Value)} :
    (∀ t ∈ Value.memberTokens C members ++ [line (.close "struct")], IsClosing t.markup) ↔
      members = [] := by
  have hclosing : ∀ t ∈ [line (.close "struct")], IsClosing t.markup := by decide
  cases members with
  | nil => exact iff_of_true hclosing rfl
  | cons m members =>
    refine iff_of_false (fun h => ?_) (List.cons_ne_nil _ _)
    obtain ⟨k, v⟩ := m
    exact absurd (h (line (.start "member")) List.mem_cons_self) (by decide)

/-- The map of members that are inserted one after the other. -/
def insertAll (map members : List (String × Value)) : List (String × Value) :=
  members.foldl (fun map m => BTreeMap.insert m.1 m.2 map) map

/-- A member of a struct as it is read back. -/
def readBackMember (C : Codecs) (m : String × Value) : String × Value :=
  (escapeXml m.1, m.2.readBack C)

/-- Insertions of members with names of their own. -/
theorem insert_eq_insertAll {map members : List (String × Value)} {k : String} {w w' : Value}
    (hkeys : ((map ++ (k, w') :: members.map (readBackMember C)).map Prod.fst).Nodup) :
    BTreeMap.insert k w map = insertAll map ((k, w') :: members.map (readBackMember C)) ↔
      w = w' ∧ members = [] := by
  have hnew : k ∉ map.map Prod.fst := by
    rw [List.map_append, List.map_cons, List.nodup_append] at hkeys
    exact fun hmem => hkeys.2.2 _ hmem _ List.mem_cons_self rfl
  constructor
  · intro heq
    have hlength := congrArg List.length heq
    rw [insertAll, (BTreeMap.foldl_insert_perm hkeys).length_eq,
      (BTreeMap.insert_perm hnew).length_eq,
      List.length_append, List.length_cons, List.length_cons, List.length_map] at hlength
    obtain rfl : members = [] := List.length_eq_zero_iff.mp (by omega)
    exact ⟨(BTreeMap.insert_inj hnew).mp heq, rfl⟩
  · rintro ⟨rfl, rfl⟩
    rfl

/-- A cut in the members of a struct. -/
theorem cut_members (hR : C.xml.Cuts) (hd : C.ReadsDoubles) {members : List (String × Value)}
    (hordered : ∀ m ∈ members, m.2.IsOrdered) (hcuts : ∀ m ∈ members, CutReads C m.2)
    (map : List (String × Value))
    (hkeys : ((map ++ members.map (readBackMember C)).map Prod.fst).Nodup)
    (hsplit : Value.memberTokens C members ++ [line (.close "struct")] = ts ++ ts')
    (hcut : Cut r ts') (h : C.xml.At s ("struct" :: opened) (text ts ++ r) fuel) :
    CutOutcome C fuel ts r (parseStruct C fuel s map)
      (fun a => a = insertAll map (members.map (readBackMember C)) ↔ LosesNothing ts ts') := by
  induction members generalizing s ts fuel map with
  | nil =>
    have hstruct : isName "struct" = true := by decide
    have hclosing : ∀ t ∈ [line (.close "struct")], ∃ name, t.markup = .close name := by
      intro t ht
      exact ⟨"struct", List.mem_singleton.mp ht ▸ rfl⟩
    obtain ⟨rfl, rfl⟩ := eq_of_singleton hsplit hcut
    obtain ⟨n, rfl, hends⟩ := hR.tag h (cut_cons.mp hcut) rfl hstruct (Markup.close_ne_leaf _)
    exact parseStruct_ends hends map not_unfinished_nil
      (iff_of_true rfl (losesNothing_of_closing hclosing))
  | cons m members ih =>
    obtain ⟨k, v⟩ := m
    have hmember : isName "member" = true := by decide
    have hv : v.IsOrdered := hordered (k, v) List.mem_cons_self
    set tail := Value.memberTokens C members ++ [line (.close "struct")] with htail
    have hsplit' : line (.start "member") ::
        ((line (.leaf "name" (escapeXml k).toList) :: line (.start "value") ::
          ((v.tokens C ++ [tok (.close "value")]) ++ [line (.close "member")])) ++ tail) =
        ts ++ ts' := by
      rw [← hsplit, htail, Value.memberTokens, Value.memberToken]
      simp
    obtain ⟨rfl, rfl⟩ | ⟨ts, rfl, hrest⟩ := List.cons_eq_append_iff.mp hsplit'
    · obtain ⟨n, rfl, hends⟩ := hR.tag h (cut_cons.mp hcut) rfl hmember (Markup.start_ne_leaf _)
      apply parseStruct_ends hends map not_unfinished_nil
      refine iff_of_false (fun heq => ?_)
        (not_losesNothing_cons (by decide) (by decide) fun _ => last_nil_ne)
      have hlength := congrArg List.length heq
      rw [insertAll, (BTreeMap.foldl_insert_perm hkeys).length_eq, List.length_append] at hlength
      simp at hlength
    obtain ⟨n, s₁, rfl, hread, h₁⟩ := h.startToken rfl rfl hmember
    have hstep : parseStruct C (n + 1) s map = (parseMember C n s₁ none none >>= fun p =>
        parseStruct C n p.2 (BTreeMap.insert p.1.1 p.1.2 map)) := by
      rw [parseStruct, hread]
      rfl
    rw [hstep]
    obtain ⟨u, hu, hm, rfl⟩ | ⟨u, rfl, hmore⟩ := append_split hrest
    · -- The member is cut.
      have hlast : last u = some (.close "member") := by
        rw [← last_append ts hu, ← hm]
        exact last_append (line (.leaf "name" (escapeXml k).toList) :: line (.start "value") ::
          (v.tokens C ++ [tok (.close "value")])) (List.cons_ne_nil (line (.close "member")) [])
      have hout := cut_member hR hd hv (hcuts (k, v) List.mem_cons_self) hm
          (cut_of_append hu hcut) h₁
      apply hout.bind Iff.rfl
      rintro - - ⟨k', w⟩ s₂ opened₂ hs₂ ⟨hk, hw⟩
      obtain ⟨n, s₃, rfl, heof, h₃⟩ := hR.blank hs₂ rfl
      refine ⟨_, s₃, _, parseStruct_eof heof _, h₃.mono (Nat.le_succ _), ?_⟩
      rw [losesNothing_close _ _ hlast, ← hw, htail, closing_memberTokens]
      obtain rfl : k' = escapeXml k := hk
      exact insert_eq_insertAll hkeys
    · have htokens : line (.leaf "name" (escapeXml k).toList) :: line (.start "value") ::
          ((v.tokens C ++ [tok (.close "value")]) ++ [line (.close "member")]) ++ u =
          line (.leaf "name" (escapeXml k).toList) :: line (.start "value") ::
            (v.tokens C ++ tok (.close "value") :: line (.close "member") :: u) := by simp
      have htokens' : line (.start "member") :: (line (.leaf "name" (escapeXml k).toList) ::
          line (.start "value") ::
            (v.tokens C ++ tok (.close "value") :: line (.close "member") :: u)) =
          (line (.start "member") :: line (.leaf "name" (escapeXml k).toList) ::
            line (.start "value") :: (v.tokens C ++ [tok (.close "value")])) ++
              line (.close "member") :: u := by simp
      rw [htokens] at h₁
      obtain ⟨s₂, hparse, h₂⟩ := parseMember_tokens hR hd hv h₁
      have hkeys' := ((BTreeMap.insert_append_perm hkeys).map Prod.fst).nodup_iff.mpr hkeys
      have hrest' := ih (fun m hm => hordered m (List.mem_cons_of_mem _ hm))
        (fun m hm => hcuts m (List.mem_cons_of_mem _ hm))
        (BTreeMap.insert (escapeXml k) (v.readBack C) map) hkeys' hmore h₂
      rw [hparse, htokens, htokens']
      refine (hrest'.append _ (isNeutral_close "member") fun a ha => ?_).mono (Nat.le_succ _)
      rw [losesNothing_append _ (isNeutral_close "member"), ← ha]
      rfl

/-- Escaped names of different members are different. -/
theorem nodup_readBackMember {members : List (String × Value)} (h : BTreeMap.IsSorted members) :
    (([] ++ members.map (readBackMember C)).map Prod.fst).Nodup := by
  have hnames : (members.map Prod.fst).Nodup :=
    List.pairwise_map.mpr (h.imp fun hlt => ne_of_lt hlt)
  rw [List.nil_append, List.map_map]
  show (members.map (escapeXml ∘ Prod.fst)).Nodup
  rw [← List.map_map]
  exact hnames.map escapeXml_injective

/-- The members of a complete struct. -/
theorem parseStruct_tokens (hR : C.xml.Cuts) (hd : C.ReadsDoubles) {members : List (String × Value)}
    (hordered : ∀ m ∈ members, m.2.IsOrdered)
    (h : C.xml.At s ("struct" :: opened)
      (text (Value.memberTokens C members ++ [line (.close "struct")]) ++ r) fuel) :
    ∃ s', parseStruct C fuel s [] = .ok (insertAll [] (members.map (readBackMember C)), s') ∧
      C.xml.At s' opened r fuel := by
  have htext : text (Value.memberTokens C members ++ [line (.close "struct")]) ++ r =
      '\n' :: (serializeMembers C members).toList ++ (endTag "struct" ++ r) := by
    have hmembers := text_memberTokens (C := C) (fun m hm => text_tokens (hordered m hm))
      (endTag "struct" ++ r)
    rw [List.cons_append, ← hmembers]
    simp [Token.chars, line, Markup.chars]
  rw [htext] at h
  exact parseStruct_serializeMembers (fun m _ => hR.readsText (rawText_escapeXml m.1) (by decide))
    (fun m hm => reads_readBack hR hd (hordered m hm)) [] h

/-- A cut in a struct, or behind it. -/
theorem cut_struct (hR : C.xml.Cuts) (hd : C.ReadsDoubles) {members : List (String × Value)}
    (hsorted : BTreeMap.IsSorted members) (hordered : ∀ m ∈ members, m.2.IsOrdered)
    (hcuts : ∀ m ∈ members, CutReads C m.2) : CutReads C (.struct members) := by
  intro s opened ts ts' r fuel hsplit hcut h
  have hstruct : isName "struct" = true := by decide
  have hreadBack : Value.readBack C (.struct members) =
      .struct (insertAll [] (members.map (readBackMember C))) := by
    rw [Value.readBack, readBackMembers_eq]
    rfl
  have hsplit' : tok (.start "struct") :: ((Value.memberTokens C members ++
      [line (.close "struct")]) ++ [tok (.close "value")]) = ts ++ ts' := hsplit
  obtain ⟨rfl, rfl⟩ | ⟨ts, rfl, hrest⟩ := List.cons_eq_append_iff.mp hsplit'
  · obtain ⟨n, rfl, hends⟩ := hR.tag h (cut_cons.mp hcut) rfl hstruct (Markup.start_ne_leaf _)
    exact parseValueElement_ends hends none not_unfinished_nil
      (losesNothing_tokens (.struct members) [tok (.close "value")] (by decide))
  obtain ⟨n, s₁, rfl, hread, h₁⟩ := h.startToken rfl rfl hstruct
  have hstep : parseValueElement C (n + 1) s none = (parseStruct C n s₁ [] >>= fun p =>
      parseValueElement C n p.2 (some (.struct p.1))) := by
    rw [parseValueElement, hread]
    rfl
  have hneutral : IsNeutral (tok (.start "struct")).markup :=
    isNeutral_start (by decide) (by decide)
  rw [hstep]
  obtain ⟨u, hu, hmembers, rfl⟩ | ⟨u, rfl, hmore⟩ := append_split hrest
  · have hlast : last u = some (.close "struct") := by
      rw [← last_append ts hu, ← hmembers, last_append _ (List.cons_ne_nil _ _)]
      rfl
    have hout := cut_members hR hd hordered hcuts [] (nodup_readBackMember hsorted) hmembers
      (cut_of_append hu hcut) h₁
    refine hout.value hR (unfinished_append [] hneutral) fun a ha => ?_
    have hlost := (losesNothing_append [] hneutral).trans
      (losesNothing_close ts [tok (.close "value")] hlast)
    have hend : ∀ t ∈ [tok (.close "value")], IsClosing t.markup := by decide
    rw [List.nil_append, and_iff_left hend, ← ha] at hlost
    rw [hlost, hreadBack, Value.struct.injEq]
  · obtain ⟨rfl, rfl⟩ := eq_of_singleton hmore hcut
    rw [List.append_nil] at h₁ ⊢
    obtain ⟨s₂, hparse, h₂⟩ := parseStruct_tokens hR hd hordered h₁
    rw [hparse]
    refine (cut_close hR hcut h₂ (some _) ?_ ?_).mono (Nat.le_succ _)
    · have hlast := last_append (tok (.start "struct") :: Value.memberTokens C members)
        (List.cons_ne_nil (line (.close "struct")) [])
      exact not_unfinished_of_last hlast (isNeutral_close _)
    · rw [Option.getD_some, hreadBack]

/-- What is read of a value that is cut. -/
theorem cutReads (hR : C.xml.Cuts) (hd : C.ReadsDoubles) {v : Value} (hv : v.IsOrdered) :
    CutReads C v := by
  induction hv with
  | int i =>
    have hscalar : IsScalar C "int" (toString i.toInt).toList (Value.readBack C (.int i)) :=
      isScalar_int i
    refine cut_scalar hR rfl hscalar (fun hmem => ?_) (by decide)
    obtain h | h | h | h | h := ascii_of_mem_toString hmem <;> exact absurd h (by decide)
  | boolean b =>
    have hscalar : IsScalar C "boolean" (if b then ['1'] else ['0'])
        (Value.readBack C (.boolean b)) := isScalar_boolean b
    exact cut_scalar hR rfl hscalar (by cases b <;> decide) (by decide)
  | string s =>
    have hraw := rawText_escapeXml s
    have hscalar : IsScalar C "string" (escapeXml s).toList (Value.readBack C (.string s)) :=
      isScalar_string (hR.readsText hraw (by decide))
    exact cut_scalar hR rfl hscalar hraw.notMem_lt (by decide)
  | dateTime dt =>
    have hraw := rawText_escapeXml dt
    have hscalar : IsScalar C "dateTime.iso8601" (escapeXml dt).toList
        (Value.readBack C (.dateTime dt)) := isScalar_dateTime (hR.readsText hraw (by decide))
    exact cut_scalar hR rfl hscalar hraw.notMem_lt (by decide)
  | base64 b =>
    have hscalar : IsScalar C "base64" (C.base64.encode b).toList (Value.readBack C (.base64 b)) :=
      isScalar_base64 b
    refine cut_scalar hR rfl hscalar (fun hmem => ?_) (by decide)
    obtain h | h | h | h | h := ascii_of_mem_encode hmem <;> exact absurd h (by decide)
  | double d => exact cut_scalar hR rfl (isScalar_double hR hd d) (hd d).1.notMem_lt (by decide)
  | array hitems ih => exact cut_array hR hd hitems ih
  | struct hsorted hmembers ih => exact cut_struct hR hd hsorted hmembers ih
  | nil => exact cut_nil hR

end Value

end XmlRpc

end Rsupervisord
