import Rsupervisord.Support.Xml

/-!
# Documents that end too early

A document is a list of tokens: tags, and elements that hold nothing but text, with white space
before them. A document that is cut has complete tokens and the beginning of another one. A pull
reader reports the end of its input when it meets only white space, and an error when it meets the
beginning of a tag.

## Main definitions

* `Xml.Token`: the tokens, and `Xml.text`: their text.
* `Xml.Cut`: the beginning of the next token.
* `XmlReader.Cuts`: a reader that reports what is missing.

## Main results

* `Xml.exists_cut`: where a document is cut.
* `XmlReader.Cuts.tag` and `XmlReader.Cuts.leaf`: what a reader finds there.
* `Xml.strictLexer`: a reader whose state is the position, as such a reader.
-/

namespace Xml

/-- What a token marks. -/
inductive Markup where
  | start (name : String)
  | close (name : String)
  | empty (name : String)
  | declaration
  /-- An element that holds nothing but text. -/
  | leaf (name : String) (cs : List Char)
  deriving DecidableEq, Repr

def Markup.chars : Markup → List Char
  | start name => startTag name
  | close name => endTag name
  | empty name => emptyTag name
  | declaration => Xml.declaration
  | leaf name cs => element name cs

theorem Markup.start_ne_leaf (name : String) : ∀ name' cs, Markup.start name ≠ .leaf name' cs :=
  nofun

theorem Markup.close_ne_leaf (name : String) : ∀ name' cs, Markup.close name ≠ .leaf name' cs :=
  nofun

theorem Markup.empty_ne_leaf (name : String) : ∀ name' cs, Markup.empty name ≠ .leaf name' cs :=
  nofun

theorem Markup.declaration_ne_leaf : ∀ name' cs, Markup.declaration ≠ .leaf name' cs := nofun

/-- Names are names, and text has no tag in it. -/
def Markup.IsValid : Markup → Prop
  | start name | close name | empty name => isName name = true
  | declaration => True
  | leaf name cs => isName name = true ∧ '<' ∉ cs

/-- Text as it stands in a document: references, and characters that are no markup, also those that
no document may contain. -/
inductive RawText : List Char → Prop
  | nil : RawText []
  | char {c : Char} {cs : List Char} (hlt : c ≠ '<') (hamp : c ≠ '&') (hcs : RawText cs) :
      RawText (c :: cs)
  | reference {name : String} {cs : List Char} (hname : isName name = true) (hcs : RawText cs) :
      RawText (reference name ++ cs)

/-- Raw text has no tag in it. -/
theorem RawText.notMem_lt {cs : List Char} (h : RawText cs) : '<' ∉ cs := by
  induction h with
  | nil => exact List.not_mem_nil
  | char hlt _ _ ih => exact fun hmem => (List.mem_cons.mp hmem).elim (hlt ·.symm) ih
  | reference hname _ ih =>
    have hnotMem := notMem_name hname (c := '<') (by decide) (by decide)
    simp [Xml.reference, hnotMem, ih]

/-- Text without markup is raw text. -/
theorem RawText.of_forall {cs : List Char} (h : ∀ c ∈ cs, c ≠ '<' ∧ c ≠ '&') : RawText cs := by
  induction cs with
  | nil => exact .nil
  | cons c cs ih =>
    obtain ⟨hlt, hamp⟩ := h c List.mem_cons_self
    exact .char hlt hamp (ih fun d hd => h d (List.mem_cons_of_mem c hd))

/-- Markup with the white space before it. -/
structure Token where
  space : List Char := []
  markup : Markup
  deriving DecidableEq, Repr

def Token.chars (t : Token) : List Char := t.space ++ t.markup.chars

/-- The text of a list of tokens. -/
def text (ts : List Token) : List Char := ts.flatMap Token.chars

@[simp]
theorem text_nil : text [] = [] := rfl

@[simp]
theorem text_cons (t : Token) (ts : List Token) : text (t :: ts) = t.chars ++ text ts := rfl

@[simp]
theorem text_append (ts ts' : List Token) : text (ts ++ ts') = text ts ++ text ts' :=
  List.flatMap_append

/-- The beginning of the next token, which may be nothing. -/
def Cut (r : List Char) (ts : List Token) : Prop :=
  ∃ t rest, ts = t :: rest ∧ r <+: t.chars ∧ r ≠ t.chars

theorem cut_cons {r : List Char} {t : Token} {ts : List Token} :
    Cut r (t :: ts) ↔ r <+: t.chars ∧ r ≠ t.chars := by
  constructor
  · rintro ⟨t', rest, heq, h⟩
    rw [(List.cons.inj heq).1]
    exact h
  · intro h
    exact ⟨t, ts, rfl, h⟩

/-- The beginning of two lists is one of the first, or goes on in the second. -/
theorem prefix_append_cases {α : Type*} {p xs ys : List α} (h : p <+: xs ++ ys) :
    p <+: xs ∧ p ≠ xs ∨ ∃ q, p = xs ++ q ∧ q <+: ys := by
  obtain ⟨rest, hrest⟩ := h
  obtain ⟨mid, rfl, hmid⟩ | ⟨mid, rfl, hmid⟩ := List.append_eq_append_iff.mp hrest
  · by_cases hnil : mid = []
    · exact .inr ⟨[], by simp [hnil], List.nil_prefix⟩
    · exact .inl ⟨List.prefix_append _ _, fun h => hnil (List.self_eq_append_right.mp h)⟩
  · exact .inr ⟨mid, rfl, ⟨rest, hmid.symm⟩⟩

/-- A document that is cut has complete tokens and the beginning of the next one. -/
theorem exists_cut {ts : List Token} {p : List Char} (h : p <+: text ts) (hne : p ≠ text ts) :
    ∃ before behind r, ts = before ++ behind ∧ p = text before ++ r ∧ Cut r behind := by
  induction ts generalizing p with
  | nil => exact absurd (List.prefix_nil.mp h) hne
  | cons t ts ih =>
    obtain ⟨hbegins, hproper⟩ | ⟨q, rfl, hq⟩ := prefix_append_cases h
    · exact ⟨[], t :: ts, p, rfl, rfl, t, ts, rfl, hbegins, hproper⟩
    · have hne' : q ≠ text ts := by
        rintro rfl
        exact hne rfl
      obtain ⟨before, behind, r, rfl, rfl, hcut⟩ := ih hq hne'
      refine ⟨t :: before, behind, r, rfl, ?_, hcut⟩
      rw [text_cons, List.append_assoc]

/-- The beginning of markup between angle brackets is an open bracket without a closing one. -/
theorem exists_of_prefix_tag {r body : List Char} (h : r <+: '<' :: (body ++ ['>']))
    (hne : r ≠ '<' :: (body ++ ['>'])) (hnil : r ≠ []) (hbody : '>' ∉ body) :
    ∃ cs, r = '<' :: cs ∧ '>' ∉ cs := by
  obtain ⟨c, cs, rfl⟩ := List.exists_cons_of_ne_nil hnil
  obtain ⟨rfl, hcs⟩ := List.cons_prefix_cons.mp h
  refine ⟨cs, rfl, fun hmem => ?_⟩
  obtain ⟨hbefore, -⟩ | ⟨q, rfl, hq⟩ := prefix_append_cases hcs
  · exact hbody (hbefore.mem hmem)
  · have hqnil : q = [] := by
      by_contra hq'
      obtain ⟨d, ds, rfl⟩ := List.exists_cons_of_ne_nil hq'
      obtain ⟨rfl, hds⟩ := List.cons_prefix_cons.mp hq
      rw [List.prefix_nil.mp hds] at hne
      exact hne rfl
    rw [hqnil, List.append_nil] at hmem
    exact hbody hmem

/-- Markup that is no leaf is between angle brackets. -/
theorem Markup.exists_body {m : Markup} (h : m.IsValid) (hleaf : ∀ name cs, m ≠ .leaf name cs) :
    ∃ body, m.chars = '<' :: (body ++ ['>']) ∧ '>' ∉ body := by
  cases m with
  | start name => exact ⟨name.toList, rfl, (of_isName h).2.2.1⟩
  | close name => exact ⟨'/' :: name.toList, rfl, by simp [(of_isName h).2.2.1]⟩
  | empty name =>
    refine ⟨name.toList ++ ['/'], ?_, by simp [(of_isName h).2.2.1]⟩
    simp [Markup.chars, emptyTag]
  | declaration => exact ⟨"?xml version=\"1.0\"?".toList, rfl, by decide⟩
  | leaf name cs => exact absurd rfl (hleaf name cs)

theorem notMem_of_all_isSpace {space : List Char} (h : space.all isSpace = true) : '<' ∉ space :=
  fun hmem => absurd (List.all_eq_true.mp h '<' hmem) (by decide)

end Xml

namespace XmlReader

open Xml

variable {R : XmlReader} {s : R.State} {opened : List String} {cs rest r space : List Char}
  {name : String} {fuel : ℕ}

/-- A reader that reports what is missing, and takes text as it stands in the document. -/
structure Cuts (R : XmlReader) : Prop where
  /-- The end of the input is reported as an event, however often. -/
  eof {s : R.State} {opened : List String} {space : List Char}
    (h : R.position s = ⟨opened, space⟩) (hspace : space.all isSpace = true) :
    ∃ s', R.readEvent s = .ok (.eof, s') ∧ R.position s' = ⟨opened, []⟩
  /-- A tag that is not closed is an error. -/
  unclosed {s : R.State} {opened : List String} {space cs : List Char}
    (h : R.position s = ⟨opened, space ++ '<' :: cs⟩) (hspace : space.all isSpace = true)
    (hcs : '>' ∉ cs) : ∃ e, R.readEvent s = .error e
  /-- Text is not changed. -/
  readText {s : R.State} {opened : List String} {cs rest : List Char} {name : String}
    (h : R.position s = ⟨name :: opened, cs ++ (endTag name ++ rest)⟩) (hcs : RawText cs)
    (hname : isName name = true) :
    ∃ s', R.readText s name = .ok (.ofList cs, s') ∧ R.position s' = ⟨opened, rest⟩
  /-- A text whose end tag is missing is an error. -/
  missing {s : R.State} {opened : List String} {cs r : List Char} {name : String}
    (h : R.position s = ⟨name :: opened, cs ++ r⟩) (hcs : '<' ∉ cs) (hr : r <+: endTag name)
    (hne : r ≠ endTag name) : ∃ e, R.readText s name = .error e

/-- A token that opens an element is read. -/
theorem At.startToken {t : Token} {ts : List Token}
    (h : R.At s opened (Xml.text (t :: ts) ++ r) fuel)
    (ht : t.markup = .start name) (hspace : t.space.all isSpace =
      true) (hname : isName name = true) :
    ∃ n s', fuel = n + 1 ∧ R.readEvent s = .ok (.start name, s') ∧
      R.At s' (name :: opened) (Xml.text ts ++ r) n := by
  have htext : Xml.text (t :: ts) ++ r = t.space ++ (startTag name ++ (Xml.text ts ++ r)) := by
    simp [Token.chars, ht, Markup.chars]
  rw [htext] at h
  exact h.start t.space hspace hname

/-- A token that closes the innermost element is read. -/
theorem At.closeToken {t : Token} {ts : List Token}
    (h : R.At s (name :: opened) (Xml.text (t :: ts) ++ r) fuel) (ht : t.markup = .close name)
    (hspace : t.space.all isSpace = true) (hname : isName name = true) :
    ∃ n s', fuel = n + 1 ∧ R.readEvent s = .ok (.endTag name, s') ∧
      R.At s' opened (Xml.text ts ++ r) n := by
  have htext : Xml.text (t :: ts) ++ r = t.space ++ (Xml.endTag name ++ (Xml.text ts ++ r)) := by
    simp [Token.chars, ht, Markup.chars]
  rw [htext] at h
  exact h.endTag t.space hspace hname

/-- A token that is an element with text is read in two steps. -/
theorem At.leafToken {t : Token} {ts : List Token} {cs : List Char}
    (h : R.At s opened (Xml.text (t :: ts) ++ r) fuel) (ht : t.markup = .leaf name cs)
    (hspace : t.space.all isSpace = true) (hname : isName name = true) (hcs : R.ReadsText name cs) :
    ∃ n s₁ s₂, fuel = n + 1 ∧ R.readEvent s = .ok (.start name, s₁) ∧
      R.readText s₁ name = .ok (.ofList cs, s₂) ∧ R.At s₂ opened (Xml.text ts ++ r) n := by
  have htext : Xml.text (t :: ts) ++ r =
      t.space ++ (startTag name ++ (cs ++ (Xml.endTag name ++ (Xml.text ts ++ r)))) := by
    simp [Token.chars, ht, Markup.chars, element]
  rw [htext] at h
  obtain ⟨n, s₁, hn, hread, h₁⟩ := h.start t.space hspace hname
  obtain ⟨s₂, hleaf, h₂⟩ := hcs h₁
  exact ⟨n, s₁, s₂, hn, hread, hleaf, h₂⟩

namespace Cuts

/-- Raw text is read. -/
theorem readsText (hR : R.Cuts) (hcs : RawText cs) (hname : isName name = true) :
    R.ReadsText name cs := by
  intro s opened rest fuel h
  obtain ⟨s', hread, hs'⟩ := hR.readText h.position_eq hcs hname
  refine ⟨s', hread, hs', lt_of_le_of_lt ?_ h.length_lt⟩
  simp only [List.length_append]
  omega

/-- Where the input ends, a loop over the events meets the end. -/
theorem blank (hR : R.Cuts) (h : R.At s opened r fuel) (hr : r.all isSpace = true) :
    ∃ n s', fuel = n + 1 ∧ R.readEvent s = .ok (.eof, s') ∧ R.At s' opened [] fuel := by
  obtain ⟨s', hread, hs'⟩ := hR.eof h.position_eq hr
  have hfuel : 0 < fuel := lt_of_le_of_lt (Nat.zero_le _) h.length_lt
  exact ⟨fuel - 1, s', by omega, hread, hs', hfuel⟩

/-- The input ends, or an error is reported. -/
inductive Ends (R : XmlReader) (s : R.State) (opened : List String) (r : List Char) (n : ℕ) : Prop
  | eof {s' : R.State} (hr : '<' ∉ r) (hread : R.readEvent s = .ok (.eof, s'))
      (h : R.At s' opened [] (n + 1)) : Ends R s opened r n
  | unclosed {e : String} (hr : '<' ∈ r) (hread : R.readEvent s = .error e) : Ends R s opened r n

/-- What a loop meets at the beginning of a tag. -/
theorem tag (hR : R.Cuts) {t : Token} (h : R.At s opened r fuel)
    (hcut : r <+: t.chars ∧ r ≠ t.chars)
    (hspace : t.space.all isSpace = true) (hvalid : t.markup.IsValid)
    (hleaf : ∀ name cs, t.markup ≠ .leaf name cs) : ∃ n, fuel = n + 1 ∧ Ends R s opened r n := by
  have hfuel : fuel = fuel - 1 + 1 := by
    have := h.length_lt
    omega
  refine ⟨fuel - 1, hfuel, ?_⟩
  have hblank : r.all isSpace = true → Ends R s opened r (fuel - 1) := by
    intro hr
    obtain ⟨n, s', rfl, hread, hs'⟩ := hR.blank h hr
    exact .eof (notMem_of_all_isSpace hr) hread hs'
  obtain ⟨hbefore, -⟩ | ⟨q, rfl, hq⟩ := prefix_append_cases hcut.1
  · apply hblank
    exact List.all_eq_true.mpr fun c hc => List.all_eq_true.mp hspace c (hbefore.mem hc)
  · by_cases hnil : q = []
    · apply hblank
      rwa [hnil, List.append_nil]
    · obtain ⟨body, hbody, hnot⟩ := Markup.exists_body hvalid hleaf
      have hne : q ≠ t.markup.chars := by
        rintro rfl
        exact hcut.2 rfl
      rw [hbody] at hq hne
      obtain ⟨cs, rfl, hcs⟩ := exists_of_prefix_tag hq hne hnil hnot
      obtain ⟨e, hread⟩ := hR.unclosed h.position_eq hspace hcs
      exact .unclosed (List.mem_append_right _ List.mem_cons_self) hread

/-- What a loop meets at the beginning of an element with text. Behind its start tag the text is
missing. -/
theorem leaf (hR : R.Cuts) {cs : List Char} (h : R.At s opened r fuel)
    (hcut : r <+: space ++ element name cs ∧ r ≠ space ++ element name cs)
    (hspace : space.all isSpace = true) (hname : isName name = true) (hcs : '<' ∉ cs) :
    ∃ n, fuel = n + 1 ∧ (Ends R s opened r n ∨
      '<' ∈ r ∧ ∃ s' e, R.readEvent s = .ok (.start name, s') ∧ R.readText s' name = .error e) := by
  have hassoc : space ++ element name cs = (space ++ startTag name) ++ (cs ++ endTag name) := by
    simp [element]
  rw [hassoc] at hcut
  obtain ⟨hbefore, hne⟩ | ⟨q, rfl, hq⟩ := prefix_append_cases hcut.1
  · obtain ⟨n, hn, hends⟩ := hR.tag (t := ⟨space, .start name⟩) h ⟨hbefore, hne⟩ hspace hname
      (Markup.start_ne_leaf name)
    exact ⟨n, hn, .inl hends⟩
  · rw [List.append_assoc] at h
    obtain ⟨n, s', hn, hread, hs'⟩ := h.start space hspace hname
    refine ⟨n, hn, .inr ⟨?_, s', ?_⟩⟩
    · exact List.mem_append_left _ (List.mem_append_right _ List.mem_cons_self)
    · have hne : q ≠ cs ++ endTag name := by
        rintro rfl
        exact hcut.2 rfl
      obtain ⟨hinside, -⟩ | ⟨q', rfl, hq'⟩ := prefix_append_cases hq
      · have hposition : R.position s' = ⟨name :: opened, q ++ []⟩ := by
          rw [List.append_nil]
          exact hs'.position_eq
        obtain ⟨e, htext⟩ := hR.missing hposition (fun hmem => hcs (hinside.mem hmem))
          List.nil_prefix nofun
        exact ⟨e, hread, htext⟩
      · have hne' : q' ≠ endTag name := by
          rintro rfl
          exact hne rfl
        obtain ⟨e, htext⟩ := hR.missing hs'.position_eq hcs hq' hne'
        exact ⟨e, hread, htext⟩

end Cuts

end XmlReader

namespace Xml

/-- A tag begins at the position and is not closed. -/
def Position.unclosed (p : Position) : Bool :=
  match p.rest.dropWhile isSpace with
  | '<' :: cs => !cs.contains '>'
  | _ => false

/-- The next event at a position, or an error for a tag that is not closed. -/
def Position.readClosed (p : Position) : Except String (Event × Position) :=
  if p.unclosed then .error "syntax error: tag not closed" else p.readEvent

section Strict

variable {p : Position} {opened : List String} {space cs rest r : List Char} {name : String}

/-- A complete tag is closed. -/
theorem readClosed_tag {m : Markup} (hspace : space.all isSpace = true) (hvalid : m.IsValid)
    (hleaf : ∀ name cs, m ≠ .leaf name cs) :
    Position.readClosed ⟨opened, space ++ (m.chars ++ rest)⟩ =
      Position.readEvent ⟨opened, space ++ (m.chars ++ rest)⟩ := by
  obtain ⟨body, hbody, -⟩ := Markup.exists_body hvalid hleaf
  have hchars : m.chars ++ rest = '<' :: (body ++ '>' :: rest) := by simp [hbody]
  have hclosed : Position.unclosed ⟨opened, space ++ (m.chars ++ rest)⟩ = false := by
    simp only [hchars, Position.unclosed,
      dropWhile_space hspace (show isSpace '<' = false by decide)]
    simp
  rw [Position.readClosed, hclosed]
  rfl

theorem readClosed_of_head (h : ∀ c ∈ (p.rest.dropWhile isSpace).head?, c ≠ '<') :
    p.readClosed = p.readEvent := by
  have hclosed : p.unclosed = false := by
    unfold Position.unclosed
    split
    next cs hcs =>
      rw [hcs] at h
      exact absurd rfl (h '<' rfl)
    next => rfl
  rw [Position.readClosed, hclosed]
  rfl

theorem head?_of_text (hcs : ∀ c ∈ cs, isTextChar c = true) (hspace : cs.all isSpace = false)
    (rest : List Char) : ∀ c ∈ ((cs ++ rest).dropWhile isSpace).head?, c ≠ '<' := by
  obtain ⟨d, ds, hds⟩ : ∃ d ds, cs.dropWhile isSpace = d :: ds := by
    refine List.exists_cons_of_ne_nil fun h => ?_
    rw [List.dropWhile_eq_nil_iff, ← List.all_eq_true, hspace] at h
    cases h
  have hd : isTextChar d = true := hcs d ((List.dropWhile_sublist _).mem (hds ▸ List.mem_cons_self))
  have hdrop : (cs ++ rest).dropWhile isSpace = d :: ds ++ rest := by
    rw [List.dropWhile_append, hds]
    rfl
  rw [hdrop]
  rintro c hc rfl
  obtain rfl : d = '<' := Option.some.inj hc
  cases hd

theorem head?_of_reference (hspace : space.all isSpace = true) (name : String) (rest : List Char) :
    ∀ c ∈ ((space ++ (reference name ++ rest)).dropWhile isSpace).head?, c ≠ '<' := by
  have hdrop : (space ++ (reference name ++ rest)).dropWhile isSpace =
      '&' :: (name.toList ++ [';'] ++ rest) := dropWhile_space hspace (by decide)
  rw [hdrop]
  rintro c hc rfl
  cases hc

theorem readClosed_space (hspace : space.all isSpace = true) :
    Position.readClosed ⟨opened, space⟩ = .ok (.eof, ⟨opened, []⟩) := by
  rw [readClosed_of_head, readEvent_space hspace]
  rw [List.dropWhile_eq_nil_iff.mpr (List.all_eq_true.mp hspace)]
  nofun

theorem readClosed_unclosed (hspace : space.all isSpace = true) (hcs : '>' ∉ cs) :
    Position.readClosed ⟨opened, space ++ '<' :: cs⟩ = .error "syntax error: tag not closed" := by
  have hunclosed : Position.unclosed ⟨opened, space ++ '<' :: cs⟩ = true := by
    simp only [Position.unclosed, dropWhile_space hspace (show isSpace '<' = false by decide)]
    simpa using hcs
  rw [Position.readClosed, if_pos hunclosed]

/-- The text up to the end tag is taken. -/
theorem readText_raw (hcs : '<' ∉ cs) :
    Position.readText ⟨name :: opened, cs ++ (endTag name ++ rest)⟩ name =
      .ok (.ofList cs, ⟨opened, rest⟩) := by
  obtain ⟨tail, htail⟩ : ∃ tail, endTag name ++ rest = '<' :: tail := ⟨_, rfl⟩
  have hbegins : (endTag name).isPrefixOf ('<' :: tail) = true :=
    List.isPrefixOf_iff_prefix.mpr ⟨rest, htail⟩
  unfold Position.readText
  simp only [htail, scan hcs, hbegins, if_true]
  rw [← htail, List.drop_left]
  rfl

/-- A text without its end tag is not taken. -/
theorem readText_missing (hcs : '<' ∉ cs) (hr : r <+: endTag name) (hne : r ≠ endTag name) :
    Position.readText ⟨name :: opened, cs ++ r⟩ name =
      .error "ill-formed document: expected end tag" := by
  have hdrop : (cs ++ r).dropWhile (· ≠ '<') = r := by
    have hall : ∀ c ∈ cs, decide (c ≠ '<') = true := by
      intro c hc
      exact decide_eq_true fun h => hcs (h ▸ hc)
    rw [List.dropWhile_append_of_pos hall]
    cases r with
    | nil => rfl
    | cons c r =>
      obtain ⟨rfl, -⟩ := List.cons_prefix_cons.mp hr
      exact List.dropWhile_cons_of_neg (by simp)
  have hbegins : ¬ (endTag name).isPrefixOf r = true := by
    rw [List.isPrefixOf_iff_prefix]
    exact fun h => hne (hr.eq_of_length_le h.length_le)
  unfold Position.readText
  simp only [hdrop]
  rw [if_neg hbegins]

end Strict

/-- A reader whose state is its position and that reports tags that are not closed. -/
def strictLexer : XmlReader where
  State := Position
  fromStr doc := ⟨[], doc.toList⟩
  readEvent := Position.readClosed
  readText := Position.readText
  unescape text := if '&' ∈ text.toList then .error "unexpected reference" else .ok text
  position p := p
  position_fromStr := lexer.position_fromStr
  readEvent_start {_ _ _ _ name} h hspace hname :=
    ⟨_, h ▸ (readClosed_tag (m := .start name) hspace hname (Markup.start_ne_leaf name)).trans
      (readEvent_startTag hspace hname), rfl⟩
  readEvent_endTag {_ _ _ _ name} h hspace hname :=
    ⟨_, h ▸ (readClosed_tag (m := .close name) hspace hname (Markup.close_ne_leaf name)).trans
      (readEvent_endTag hspace hname), rfl⟩
  readEvent_empty {_ _ _ _ name} h hspace hname :=
    ⟨_, h ▸ (readClosed_tag (m := .empty name) hspace hname (Markup.empty_ne_leaf name)).trans
      (readEvent_emptyTag hspace hname), rfl⟩
  readEvent_declaration h hspace :=
    ⟨_, h ▸ (readClosed_tag (m := .declaration) hspace trivial Markup.declaration_ne_leaf).trans
      (readEvent_declaration hspace), rfl⟩
  readEvent_eof h hspace := ⟨_, h ▸ readClosed_space hspace⟩
  readEvent_text {_ _ _ rest} h hcs hspace hrest :=
    ⟨_, h ▸ (readClosed_of_head (head?_of_text hcs hspace rest)).trans
      (readEvent_text hcs hspace hrest), rfl⟩
  readEvent_reference {_ _ _ rest name} h hspace hname :=
    ⟨_, h ▸ (readClosed_of_head (head?_of_reference hspace name rest)).trans
      (readEvent_reference hspace hname), rfl⟩
  readText_eq := lexer.readText_eq
  unescape_eq := lexer.unescape_eq

theorem strictLexer_cuts : strictLexer.Cuts where
  eof {s opened space} h hspace := by
    obtain rfl : s = (⟨opened, space⟩ : Position) := h
    exact ⟨_, readClosed_space hspace, rfl⟩
  unclosed {s opened space cs} h hspace hcs := by
    obtain rfl : s = (⟨opened, space ++ '<' :: cs⟩ : Position) := h
    exact ⟨_, readClosed_unclosed hspace hcs⟩
  readText {s opened cs rest name} h hcs _ := by
    obtain rfl : s = (⟨name :: opened, cs ++ (endTag name ++ rest)⟩ : Position) := h
    exact ⟨_, readText_raw hcs.notMem_lt, rfl⟩
  missing {s opened cs r name} h hcs hr hne := by
    obtain rfl : s = (⟨name :: opened, cs ++ r⟩ : Position) := h
    exact ⟨_, readText_missing hcs hr hne⟩

end Xml
