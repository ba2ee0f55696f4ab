import Mathlib.Data.List.DropRight

/-!
# Pull readers for XML

An XML pull reader returns one event after the other and removes white space around text. What it
does is described by its position in the document: the names of the open elements and the rest of
the input. Only documents without attributes, comments and CDATA sections are described.

## Main results

* `XmlReader`: the operations of a reader and what they do at a position.
* `Xml.lexer`: a reader whose state is the position.
-/

namespace Xml

/-- A character that a document may contain. -/
def isChar (c : Char) : Bool :=
  let n := c.toNat
  n = 0x9 || n = 0xA || n = 0xD || (0x20 ≤ n && n ≤ 0xD7FF) || (0xE000 ≤ n && n ≤ 0xFFFD) ||
    (0x10000 ≤ n && n ≤ 0x10FFFF)

/-- White space between two tags. -/
def isSpace (c : Char) : Bool := c = ' ' || c = '\t' || c = '\n' || c = '\r'

/-- A character that stands for itself in text. A carriage return may be read as a newline. -/
def isTextChar (c : Char) : Bool := isChar c && c ≠ '\r' && c ≠ '<' && c ≠ '>' && c ≠ '&'

/-- Remove white space from both ends of a text. -/
def trimSpace (cs : List Char) : List Char := (cs.dropWhile isSpace).rdropWhile isSpace

/-- An element name without a prefix. -/
def isName (name : String) : Bool :=
  match name.toList with
  | [] => false
  | c :: cs => c.isAlpha && cs.all fun c => c.isAlphanum || c = '.'

/-- The tag that opens an element. -/
def startTag (name : String) : List Char := '<' :: name.toList ++ ['>']

/-- The tag that closes an element. -/
def endTag (name : String) : List Char := '<' :: '/' :: name.toList ++ ['>']

/-- The tag of an element without content. -/
def emptyTag (name : String) : List Char := '<' :: name.toList ++ ['/', '>']

/-- An element with its content. -/
def element (name : String) (content : List Char) : List Char :=
  startTag name ++ (content ++ endTag name)

/-- A reference to an entity. -/
def reference (name : String) : List Char := '&' :: name.toList ++ [';']

/-- The declaration at the start of a document. -/
def declaration : List Char := "<?xml version=\"1.0\"?>".toList

/-- A text as it is written between two tags: characters that stand for themselves and references
to entities. -/
inductive CharData : List Char → Prop
  | nil : CharData []
  | char {c : Char} {cs : List Char} (hc : isTextChar c = true) (hcs : CharData cs) :
      CharData (c :: cs)
  | reference {name : String} {cs : List Char} (hname : isName name = true) (hcs : CharData cs) :
      CharData (reference name ++ cs)

/-- What a reader finds in a document. -/
inductive Event where
  | start (name : String)
  | endTag (name : String)
  | empty (name : String)
  | text (content : String)
  | generalRef (name : String)
  | other
  | eof
  deriving DecidableEq, Repr

/-- A position in a document. -/
structure Position where
  /-- The names of the elements that are open, the innermost first. -/
  opened : List String
  /-- The input that was not read yet. -/
  rest : List Char
  deriving DecidableEq, Repr

/-- Text consists of characters that stand for themselves. -/
theorem CharData.of_forall {cs : List Char} (h : ∀ c ∈ cs, isTextChar c = true) : CharData cs := by
  induction cs with
  | nil => exact .nil
  | cons c cs ih =>
    exact .char (h c List.mem_cons_self) (ih fun d hd => h d (List.mem_cons_of_mem c hd))

/-- Texts are joined to a text. -/
theorem CharData.append {cs ds : List Char} (hcs : CharData cs) (hds : CharData ds) :
    CharData (cs ++ ds) := by
  induction hcs with
  | nil => exact hds
  | char hc _ ih => exact .char hc ih
  | reference hname _ ih =>
    rw [List.append_assoc]
    exact .reference hname ih

/-- The characters of a name. -/
theorem of_mem_name {name : String} (h : isName name = true) {c : Char} (hc : c ∈ name.toList) :
    c.isAlphanum = true ∨ c = '.' := by
  unfold isName at h
  split at h
  next => cases h
  next d ds hds =>
    rw [Bool.and_eq_true, List.all_eq_true] at h
    rw [hds] at hc
    rcases List.mem_cons.mp hc with rfl | hc
    · exact .inl (by rw [Char.isAlphanum, h.1, Bool.true_or])
    · simpa using h.2 c hc

/-- A name contains no other character. -/
theorem notMem_name {name : String} (h : isName name = true) {c : Char}
    (hc : c.isAlphanum = false) (hdot : c ≠ '.') : c ∉ name.toList := by
  intro hmem
  rcases of_mem_name h hmem with halnum | rfl
  · rw [hc] at halnum
    cases halnum
  · exact hdot rfl

/-- A text has no tag in it. -/
theorem CharData.notMem_lt {cs : List Char} (h : CharData cs) : '<' ∉ cs := by
  induction h with
  | nil => exact List.not_mem_nil
  | @char c cs hc _ ih =>
    have hne : c ≠ '<' := by
      rintro rfl
      exact absurd hc (by decide)
    exact fun hmem => (List.mem_cons.mp hmem).elim (hne ·.symm) ih
  | reference hname _ ih =>
    have hnotMem := notMem_name hname (c := '<') (by decide) (by decide)
    simp [Xml.reference, hnotMem, ih]

end Xml

open Xml in
/-- A pull reader, with its configuration to remove white space around text. -/
structure XmlReader where
  State : Type
  /-- A reader at the start of a document. -/
  fromStr : String → State
  /-- The next event. -/
  readEvent : State → Except String (Event × State)
  /-- The raw text up to the end tag of the element, which is read with it. -/
  readText : State → String → Except String (String × State)
  /-- Replace references by what they stand for. -/
  unescape : String → Except String String
  position : State → Position
  position_fromStr (doc : String) : position (fromStr doc) = ⟨[], doc.toList⟩
  readEvent_start {s : State} {opened : List String} {space rest : List Char} {name : String}
    (h : position s = ⟨opened, space ++ (startTag name ++ rest)⟩)
    (hspace : space.all isSpace = true) (hname : isName name = true) :
    ∃ s', readEvent s = .ok (.start name, s') ∧ position s' = ⟨name :: opened, rest⟩
  readEvent_endTag {s : State} {opened : List String} {space rest : List Char} {name : String}
    (h : position s = ⟨name :: opened, space ++ (endTag name ++ rest)⟩)
    (hspace : space.all isSpace = true) (hname : isName name = true) :
    ∃ s', readEvent s = .ok (.endTag name, s') ∧ position s' = ⟨opened, rest⟩
  readEvent_empty {s : State} {opened : List String} {space rest : List Char} {name : String}
    (h : position s = ⟨opened, space ++ (emptyTag name ++ rest)⟩)
    (hspace : space.all isSpace = true) (hname : isName name = true) :
    ∃ s', readEvent s = .ok (.empty name, s') ∧ position s' = ⟨opened, rest⟩
  readEvent_declaration {s : State} {opened : List String} {space rest : List Char}
    (h : position s = ⟨opened, space ++ (declaration ++ rest)⟩)
    (hspace : space.all isSpace = true) :
    ∃ s', readEvent s = .ok (.other, s') ∧ position s' = ⟨opened, rest⟩
  readEvent_eof {s : State} {space : List Char} (h : position s = ⟨[], space⟩)
    (hspace : space.all isSpace = true) :
    ∃ s', readEvent s = .ok (.eof, s')
  /-- Text ends before a tag or a reference. White space alone is no text. -/
  readEvent_text {s : State} {opened : List String} {cs rest : List Char}
    (h : position s = ⟨opened, cs ++ rest⟩) (hcs : ∀ c ∈ cs, isTextChar c = true)
    (hspace : cs.all isSpace = false) (hrest : rest.head? = some '<' ∨ rest.head? = some '&') :
    ∃ s', readEvent s = .ok (.text (.ofList (trimSpace cs)), s') ∧ position s' = ⟨opened, rest⟩
  readEvent_reference {s : State} {opened : List String} {space rest : List Char} {name : String}
    (h : position s = ⟨opened, space ++ (reference name ++ rest)⟩)
    (hspace : space.all isSpace = true) (hname : isName name = true) :
    ∃ s', readEvent s = .ok (.generalRef name, s') ∧ position s' = ⟨opened, rest⟩
  readText_eq {s : State} {opened : List String} {cs rest : List Char} {name : String}
    (h : position s = ⟨name :: opened, cs ++ (endTag name ++ rest)⟩) (hcs : CharData cs)
    (hname : isName name = true) :
    ∃ s', readText s name = .ok (.ofList cs, s') ∧ position s' = ⟨opened, rest⟩
  unescape_eq {text : String} (h : '&' ∉ text.toList) : unescape text = .ok text

namespace Xml

/-- The event of the markup between `<` and the next `>`. -/
def readMarkup (opened : List String) (markup rest : List Char) :
    Except String (Event × Position) :=
  if markup.head? = some '/' then
    let name := String.ofList markup.tail
    if opened.head? = some name then .ok (.endTag name, ⟨opened.tail, rest⟩)
    else .error "ill-formed document: end tag without start tag"
  else if markup.head? = some '?' then .ok (.other, ⟨opened, rest⟩)
  else if markup.getLast? = some '/' then .ok (.empty (.ofList markup.dropLast), ⟨opened, rest⟩)
  else .ok (.start (.ofList markup), ⟨.ofList markup :: opened, rest⟩)

/-- The next event at a position. -/
def Position.readEvent (p : Position) : Except String (Event × Position) :=
  match p.rest.dropWhile isSpace with
  | [] => .ok (.eof, { p with rest := [] })
  | c :: cs =>
      if c = '<' then
        readMarkup p.opened (cs.takeWhile (· ≠ '>')) (cs.dropWhile (· ≠ '>')).tail
      else if c = '&' then
        .ok (.generalRef (.ofList (cs.takeWhile (· ≠ ';'))),
          { p with rest := (cs.dropWhile (· ≠ ';')).tail })
      else
        .ok (.text (.ofList (((c :: cs).takeWhile fun c => c ≠ '<' && c ≠ '&').rdropWhile isSpace)),
          { p with rest := (c :: cs).dropWhile fun c => c ≠ '<' && c ≠ '&' })

/-- The text at a position up to the end tag of the element. -/
def Position.readText (p : Position) (name : String) : Except String (String × Position) :=
  let rest := p.rest.dropWhile (· ≠ '<')
  if (Xml.endTag name).isPrefixOf rest then
    .ok (.ofList (p.rest.takeWhile (· ≠ '<')),
      ⟨p.opened.tail, rest.drop (Xml.endTag name).length⟩)
  else .error "ill-formed document: expected end tag"

section Lexer

variable {p : Position} {opened : List String} {space cs rest : List Char} {name : String}

/-- White space is skipped. -/
theorem dropWhile_space (hspace : space.all isSpace = true) {c : Char}
    (hc : isSpace c = false) : (space ++ c :: rest).dropWhile isSpace = c :: rest := by
  rw [List.dropWhile_append_of_pos (List.all_eq_true.mp hspace),
    List.dropWhile_cons_of_neg (by simp [hc])]

/-- The scan for a character stops at the first one. -/
theorem scan {c : Char} (hc : c ∉ cs) :
    (cs ++ c :: rest).takeWhile (· ≠ c) = cs ∧ (cs ++ c :: rest).dropWhile (· ≠ c) = c :: rest := by
  have hall : ∀ d ∈ cs, decide (d ≠ c) = true := by
    intro d hd
    exact decide_eq_true fun h => hc (h ▸ hd)
  constructor
  · rw [List.takeWhile_append_of_pos hall, List.takeWhile_cons_of_neg (by simp), List.append_nil]
  · rw [List.dropWhile_append_of_pos hall, List.dropWhile_cons_of_neg (by simp)]

/-- Markup is read up to its end. -/
theorem readEvent_markup (hspace : space.all isSpace = true) (hcs : '>' ∉ cs) :
    Position.readEvent ⟨opened, space ++ '<' :: (cs ++ '>' :: rest)⟩ =
      readMarkup opened cs rest := by
  unfold Position.readEvent
  simp only [dropWhile_space hspace (show isSpace '<' = false by decide), (scan hcs).1,
    (scan hcs).2, List.tail_cons, if_true]

/-- A name has characters, and none of them is a slash or a question mark. -/
theorem of_isName (hname : isName name = true) :
    '/' ∉ name.toList ∧ '?' ∉ name.toList ∧ '>' ∉ name.toList ∧ ';' ∉ name.toList :=
  ⟨notMem_name hname (by decide) (by decide), notMem_name hname (by decide) (by decide),
    notMem_name hname (by decide) (by decide), notMem_name hname (by decide) (by decide)⟩

/-- Markup that begins with a name is a tag that opens an element. -/
theorem head?_name_append (hname : isName name = true) (tail : List Char) {c : Char}
    (hc : c ∉ name.toList) : (name.toList ++ tail).head? ≠ some c := by
  unfold isName at hname
  split at hname
  next => cases hname
  next d ds hds =>
    rw [hds, List.mem_cons, not_or] at hc
    rw [hds, List.cons_append, List.head?_cons]
    exact fun h => hc.1 (Option.some.inj h).symm

/-- A start tag is read. -/
theorem readEvent_startTag (hspace : space.all isSpace = true) (hname : isName name = true) :
    Position.readEvent ⟨opened, space ++ (startTag name ++ rest)⟩ =
      .ok (.start name, ⟨name :: opened, rest⟩) := by
  obtain ⟨hslash, hquery, hgt, -⟩ := of_isName hname
  have hlast : name.toList.getLast? ≠ some '/' := fun h => hslash (List.mem_of_getLast? h)
  have hhead : ∀ c, c ∉ name.toList → name.toList.head? ≠ some c := by
    intro c hc
    simpa using head?_name_append hname [] hc
  have htag : startTag name ++ rest = '<' :: (name.toList ++ '>' :: rest) := by simp [startTag]
  rw [htag, readEvent_markup hspace hgt]
  unfold readMarkup
  rw [if_neg (hhead _ hslash), if_neg (hhead _ hquery), if_neg hlast, String.ofList_toList]

/-- The end tag of the innermost element is read. -/
theorem readEvent_endTag (hspace : space.all isSpace = true) (hname : isName name = true) :
    Position.readEvent ⟨name :: opened, space ++ (endTag name ++ rest)⟩ =
      .ok (.endTag name, ⟨opened, rest⟩) := by
  obtain ⟨-, -, hgt, -⟩ := of_isName hname
  have hgt' : '>' ∉ '/' :: name.toList := by simp [hgt]
  have htag : endTag name ++ rest = '<' :: ('/' :: name.toList ++ '>' :: rest) := by simp [endTag]
  rw [htag, readEvent_markup hspace hgt']
  unfold readMarkup
  rw [List.head?_cons, List.tail_cons, String.ofList_toList, if_pos rfl]
  exact if_pos rfl

/-- The tag of an element without content is read. -/
theorem readEvent_emptyTag (hspace : space.all isSpace = true) (hname : isName name = true) :
    Position.readEvent ⟨opened, space ++ (emptyTag name ++ rest)⟩ =
      .ok (.empty name, ⟨opened, rest⟩) := by
  obtain ⟨hslash, hquery, hgt, -⟩ := of_isName hname
  have hgt' : '>' ∉ name.toList ++ ['/'] := by simp [hgt]
  have hhead : ∀ c, c ∉ name.toList → (name.toList ++ ['/']).head? ≠ some c :=
    fun c => head?_name_append hname ['/']
  have htag : emptyTag name ++ rest = '<' :: (name.toList ++ ['/'] ++ '>' :: rest) := by
    simp [emptyTag]
  rw [htag, readEvent_markup hspace hgt']
  unfold readMarkup
  rw [if_neg (hhead _ hslash), if_neg (hhead _ hquery), if_pos List.getLast?_concat,
    List.dropLast_concat, String.ofList_toList]

/-- A declaration is read. -/
theorem readEvent_declaration (hspace : space.all isSpace = true) :
    Position.readEvent ⟨opened, space ++ (declaration ++ rest)⟩ = .ok (.other, ⟨opened, rest⟩) := by
  have hgt : '>' ∉ "?xml version=\"1.0\"?".toList := by decide
  exact readEvent_markup hspace hgt

/-- A reference is read. -/
theorem readEvent_reference (hspace : space.all isSpace = true) (hname : isName name = true) :
    Position.readEvent ⟨opened, space ++ (reference name ++ rest)⟩ =
      .ok (.generalRef name, ⟨opened, rest⟩) := by
  obtain ⟨-, -, -, hsemi⟩ := of_isName hname
  unfold Position.readEvent
  have hdrop : (space ++ (reference name ++ rest)).dropWhile isSpace =
      '&' :: (name.toList ++ ';' :: rest) := by
    simpa [reference] using dropWhile_space hspace (by decide)
  simp only [hdrop, (scan hsemi).1, (scan hsemi).2, String.ofList_toList, List.tail_cons]
  rfl

/-- White space at the end of a document is skipped. -/
theorem readEvent_space (hspace : space.all isSpace = true) :
    Position.readEvent ⟨opened, space⟩ = .ok (.eof, ⟨opened, []⟩) := by
  unfold Position.readEvent
  rw [List.dropWhile_eq_nil_iff.mpr (List.all_eq_true.mp hspace)]

/-- Text is read up to the next tag or reference. -/
theorem readEvent_text (hcs : ∀ c ∈ cs, isTextChar c = true) (hspace : cs.all isSpace = false)
    (hrest : rest.head? = some '<' ∨ rest.head? = some '&') :
    Position.readEvent ⟨opened, cs ++ rest⟩ =
      .ok (.text (.ofList (trimSpace cs)), ⟨opened, rest⟩) := by
  -- The text begins with the first character that is not white space.
  obtain ⟨c, ds, hds⟩ : ∃ c ds, cs.dropWhile isSpace = c :: ds := by
    refine List.exists_cons_of_ne_nil fun h => ?_
    rw [List.dropWhile_eq_nil_iff, ← List.all_eq_true, hspace] at h
    cases h
  have hmem : ∀ d ∈ c :: ds, (d ≠ '<' && d ≠ '&') = true := by
    intro d hd
    have hd' := hcs d ((List.dropWhile_sublist _).mem (hds ▸ hd))
    simp only [isTextChar, Bool.and_eq_true] at hd'
    exact Bool.and_eq_true_iff.mpr ⟨hd'.1.1.2, hd'.2⟩
  have hstop : rest.takeWhile (fun c => c ≠ '<' && c ≠ '&') = [] ∧
      rest.dropWhile (fun c => c ≠ '<' && c ≠ '&') = rest := by
    cases rest with
    | nil => exact ⟨rfl, rfl⟩
    | cons d rest =>
      rw [List.head?_cons, Option.some.injEq, Option.some.injEq] at hrest
      rcases hrest with rfl | rfl
      · exact ⟨rfl, rfl⟩
      · exact ⟨rfl, rfl⟩
  have hdrop : (cs ++ rest).dropWhile isSpace = c :: ds ++ rest := by
    rw [← hds, List.dropWhile_append, hds]
    rfl
  have hlt : c ≠ '<' ∧ c ≠ '&' := by simpa using hmem c List.mem_cons_self
  unfold Position.readEvent trimSpace
  simp only [hdrop, List.cons_append, hlt.1, hlt.2, if_false]
  rw [← List.cons_append, List.takeWhile_append_of_pos hmem, List.dropWhile_append_of_pos hmem,
    hstop.1, hstop.2, List.append_nil, hds]

/-- The text of an element is read up to its end tag. -/
theorem readText_eq (hcs : CharData cs) :
    Position.readText ⟨name :: opened, cs ++ (endTag name ++ rest)⟩ name =
      .ok (.ofList cs, ⟨opened, rest⟩) := by
  obtain ⟨tail, htail⟩ : ∃ tail, endTag name ++ rest = '<' :: tail := ⟨_, rfl⟩
  have hbegins : (endTag name).isPrefixOf ('<' :: tail) = true :=
    List.isPrefixOf_iff_prefix.mpr ⟨rest, htail⟩
  unfold Position.readText
  simp only [htail, scan hcs.notMem_lt, hbegins, if_true]
  rw [← htail, List.drop_left]
  rfl

end Lexer

/-- A reader whose state is its position. References in text events are reported apart, so that
nothing is left to be unescaped. -/
def lexer : XmlReader where
  State := Position
  fromStr doc := ⟨[], doc.toList⟩
  readEvent := Position.readEvent
  readText := Position.readText
  unescape text := if '&' ∈ text.toList then .error "unexpected reference" else .ok text
  position p := p
  position_fromStr _ := rfl
  readEvent_start h hspace hname := ⟨_, h ▸ readEvent_startTag hspace hname, rfl⟩
  readEvent_endTag h hspace hname := ⟨_, h ▸ readEvent_endTag hspace hname, rfl⟩
  readEvent_empty h hspace hname := ⟨_, h ▸ readEvent_emptyTag hspace hname, rfl⟩
  readEvent_declaration h hspace := ⟨_, h ▸ readEvent_declaration hspace, rfl⟩
  readEvent_eof h hspace := ⟨_, h ▸ readEvent_space hspace⟩
  readEvent_text h hcs hspace hrest := ⟨_, h ▸ readEvent_text hcs hspace hrest, rfl⟩
  readEvent_reference h hspace hname := ⟨_, h ▸ readEvent_reference hspace hname, rfl⟩
  readText_eq h hcs _ := ⟨_, h ▸ readText_eq hcs, rfl⟩
  unescape_eq h := if_neg h

end Xml

/-! ### Loops over events -/

namespace XmlReader

open Xml

variable {R : XmlReader} {s : R.State} {opened : List String} {cs rest : List Char} {name : String}
  {fuel : ℕ}

/-- A loop over the events of a reader is at a position, with fuel for the rest of the input. -/
structure At (R : XmlReader) (s : R.State) (opened : List String) (rest : List Char)
    (fuel : ℕ) : Prop where
  position_eq : R.position s = ⟨opened, rest⟩
  length_lt : rest.length < fuel

/-- The start of a document. -/
theorem at_fromStr (doc : String) :
    R.At (R.fromStr doc) [] doc.toList (doc.toList.length + 1) :=
  ⟨R.position_fromStr doc, Nat.lt_succ_self _⟩

/-- More fuel suffices as well. -/
theorem At.mono {fuel' : ℕ} (h : R.At s opened rest fuel) (hle : fuel ≤ fuel') :
    R.At s opened rest fuel' :=
  ⟨h.position_eq, lt_of_lt_of_le h.length_lt hle⟩

/-- Where there is fuel, the loop takes a step. -/
theorem At.exists_succ (h : R.At s opened cs fuel) (tail : List Char)
    (hlt : tail.length < cs.length) : ∃ n, fuel = n + 1 ∧ tail.length < n :=
  ⟨fuel - 1, by have := h.length_lt; omega, by have := h.length_lt; omega⟩

/-- A tag that opens an element comes next. -/
theorem At.start (space : List Char) (h : R.At s opened (space ++ (startTag name ++ rest)) fuel)
    (hspace : space.all isSpace = true) (hname : isName name = true) :
    ∃ n s', fuel = n + 1 ∧ R.readEvent s = .ok (.start name, s') ∧
      R.At s' (name :: opened) rest n := by
  obtain ⟨n, hn, hlt⟩ := h.exists_succ rest (by simp [startTag]; omega)
  obtain ⟨s', hread, hs'⟩ := R.readEvent_start h.position_eq hspace hname
  exact ⟨n, s', hn, hread, hs', hlt⟩

/-- The end tag of the innermost element comes next. -/
theorem At.endTag (space : List Char)
    (h : R.At s (name :: opened) (space ++ (Xml.endTag name ++ rest)) fuel)
    (hspace : space.all isSpace = true) (hname : isName name = true) :
    ∃ n s', fuel = n + 1 ∧ R.readEvent s = .ok (.endTag name, s') ∧ R.At s' opened rest n := by
  obtain ⟨n, hn, hlt⟩ := h.exists_succ rest (by simp [Xml.endTag]; omega)
  obtain ⟨s', hread, hs'⟩ := R.readEvent_endTag h.position_eq hspace hname
  exact ⟨n, s', hn, hread, hs', hlt⟩

/-- An element without content comes next. -/
theorem At.empty (h : R.At s opened (emptyTag name ++ rest) fuel) (hname : isName name = true) :
    ∃ n s', fuel = n + 1 ∧ R.readEvent s = .ok (.empty name, s') ∧ R.At s' opened rest n := by
  obtain ⟨n, hn, hlt⟩ := h.exists_succ rest (by simp [emptyTag]; omega)
  have hposition : R.position s = ⟨opened, [] ++ (emptyTag name ++ rest)⟩ := h.position_eq
  obtain ⟨s', hread, hs'⟩ := R.readEvent_empty hposition rfl hname
  exact ⟨n, s', hn, hread, hs', hlt⟩

/-- The declaration comes next. -/
theorem At.declaration (h : R.At s opened (Xml.declaration ++ rest) fuel) :
    ∃ n s', fuel = n + 1 ∧ R.readEvent s = .ok (.other, s') ∧ R.At s' opened rest n := by
  obtain ⟨n, hn, hlt⟩ := h.exists_succ rest
    (by rw [List.length_append]; exact Nat.lt_add_of_pos_left (by decide))
  have hposition : R.position s = ⟨opened, [] ++ (Xml.declaration ++ rest)⟩ := h.position_eq
  obtain ⟨s', hread, hs'⟩ := R.readEvent_declaration hposition rfl
  exact ⟨n, s', hn, hread, hs', hlt⟩

/-- A reference comes next. -/
theorem At.reference (space : List Char)
    (h : R.At s opened (space ++ (Xml.reference name ++ rest)) fuel)
    (hspace : space.all isSpace = true) (hname : isName name = true) :
    ∃ n s', fuel = n + 1 ∧ R.readEvent s = .ok (.generalRef name, s') ∧ R.At s' opened rest n := by
  obtain ⟨n, hn, hlt⟩ := h.exists_succ rest (by simp [Xml.reference]; omega)
  obtain ⟨s', hread, hs'⟩ := R.readEvent_reference h.position_eq hspace hname
  exact ⟨n, s', hn, hread, hs', hlt⟩

/-- Text comes next. -/
theorem At.text (h : R.At s opened (cs ++ rest) fuel) (hcs : ∀ c ∈ cs, isTextChar c = true)
    (hspace : cs.all isSpace = false) (hrest : rest.head? = some '<' ∨ rest.head? = some '&') :
    ∃ n s', fuel = n + 1 ∧ R.readEvent s = .ok (.text (.ofList (trimSpace cs)), s') ∧
      R.At s' opened rest n := by
  obtain ⟨n, hn, hlt⟩ := h.exists_succ rest (by
    cases cs with
    | nil => cases hspace
    | cons c cs =>
      rw [List.length_append, List.length_cons]
      omega)
  obtain ⟨s', hread, hs'⟩ := R.readEvent_text h.position_eq hcs hspace hrest
  exact ⟨n, s', hn, hread, hs', hlt⟩

/-- The end of the document comes next. -/
theorem At.eof (h : R.At s [] cs fuel) (hspace : cs.all isSpace = true) :
    ∃ n s', fuel = n + 1 ∧ R.readEvent s = .ok (.eof, s') := by
  obtain ⟨s', hread⟩ := R.readEvent_eof h.position_eq hspace
  exact ⟨fuel - 1, s', by have := h.length_lt; omega, hread⟩

/-- The reader takes the text `cs` of an element that holds nothing else. -/
def ReadsText (R : XmlReader) (name : String) (cs : List Char) : Prop :=
  ∀ {s : R.State} {opened : List String} {rest : List Char} {fuel : ℕ},
    R.At s (name :: opened) (cs ++ (Xml.endTag name ++ rest)) fuel →
      ∃ s', R.readText s name = .ok (.ofList cs, s') ∧ R.At s' opened rest fuel

/-- The text of an element is taken with its end tag. -/
theorem readsText_of_charData (hcs : CharData cs) (hname : isName name = true) :
    R.ReadsText name cs := by
  intro s opened rest fuel h
  obtain ⟨s', hread, hs'⟩ := R.readText_eq h.position_eq hcs hname
  refine ⟨s', hread, hs', lt_of_le_of_lt ?_ h.length_lt⟩
  simp only [List.length_append]
  omega

end XmlReader
