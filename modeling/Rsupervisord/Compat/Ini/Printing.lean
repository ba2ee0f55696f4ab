import Rsupervisord.Compat.Ini.Parser

/-!
# Printed INI documents

A document is a list of sections with their entries, each written with one of the two delimiters and
with its further lines indented. The parser finds the document again, but for the sections without
entries and for the entries with a colon whose value has an equals sign in its first line.

## Main definitions

* `IniEntry`, `IniSection`: a document, and how it is written.
* `Ini.Returns`: a parsed document is the document.

## Main results

* `Ini.returns_iff`: the documents that are found again.
-/

namespace Rsupervisord

/-- How the key of an entry is set off from its value. -/
inductive Delimiter where
  | equals
  | colon
  deriving DecidableEq, Repr

/-- An entry as it is written. -/
structure IniEntry where
  key : String
  delimiter : Delimiter
  /-- The part of the value behind the delimiter. -/
  first : String
  /-- The further lines of the value with their indentation. -/
  continuation : List (String × String)
  deriving DecidableEq, Repr

/-- A section as it is written. -/
structure IniSection where
  name : String
  entries : List IniEntry
  deriving DecidableEq, Repr

/-- The character that delimits. -/
def Delimiter.mark : Delimiter → Char
  | equals => '='
  | colon => ':'

/-- What is written between the key and this character. -/
def Delimiter.pad : Delimiter → List Char
  | equals => [' ']
  | colon => []

namespace IniEntry

/-- The line with the key. -/
def line (e : IniEntry) : String :=
  e.key ++ .ofList (e.delimiter.pad ++ [e.delimiter.mark, ' ']) ++ e.first

/-- The lines of an entry. -/
def lines (e : IniEntry) : List String := e.line :: e.continuation.map fun l => l.1 ++ l.2

/-- The lines of the value. -/
def valueLines (e : IniEntry) : List String :=
  (if e.first = "" then [] else [e.first]) ++ e.continuation.map Prod.snd

/-- The value of an entry. -/
def value (e : IniEntry) : String := "\n".intercalate e.valueLines

end IniEntry

namespace IniSection

/-- The lines of a section. -/
def lines (s : IniSection) : List String :=
  ("[" ++ s.name ++ "]") :: s.entries.flatMap IniEntry.lines

end IniSection

namespace Ini

/-- The text of a document. -/
def render (d : List IniSection) : String :=
  .ofList (Lines.join '\n' ((d.flatMap IniSection.lines).map String.toList) [])

/-- A text without line feeds and without what begins a comment. -/
def Unmarked (s : String) : Prop := ∀ c ∈ s.toList, c ≠ '\n' ∧ isCommentMarker c = false

instance (s : String) : Decidable (Unmarked s) := List.decidableBAll _ _

/-- White space within a line. -/
def Blank (s : String) : Prop := ∀ c ∈ s.toList, c ≠ '\n' ∧ Text.isWhitespace c = true

instance (s : String) : Decidable (Blank s) := List.decidableBAll _ _

/-- A line that continues a value. -/
structure ContinuationWellFormed (l : String × String) : Prop where
  indented : l.1 ≠ ""
  blank : Blank l.1
  nonempty : l.2 ≠ ""
  trimmed : Text.trim l.2 = l.2
  unmarked : Unmarked l.2
  noHeader : isHeader l.2 = false

instance (l : String × String) : Decidable (ContinuationWellFormed l) :=
  decidable_of_iff (l.1 ≠ "" ∧ Blank l.1 ∧ l.2 ≠ "" ∧ Text.trim l.2 = l.2 ∧ Unmarked l.2 ∧
      isHeader l.2 = false)
    ⟨fun h => ⟨h.1, h.2.1, h.2.2.1, h.2.2.2.1, h.2.2.2.2.1, h.2.2.2.2.2⟩,
      fun h => ⟨h.indented, h.blank, h.nonempty, h.trimmed, h.unmarked, h.noHeader⟩⟩

/-- An entry with a lower-case key and a trimmed value. -/
structure EntryWellFormed (e : IniEntry) : Prop where
  nonempty : e.key ≠ ""
  lowercase : Text.toAsciiLowercase e.key = e.key
  keyTrimmed : Text.trim e.key = e.key
  keyUnmarked : Unmarked e.key
  noDelimiter : '=' ∉ e.key.toList ∧ ':' ∉ e.key.toList
  trimmed : Text.trim e.first = e.first
  unmarked : Unmarked e.first
  noHeader : isHeader (Text.trim e.line) = false
  continuation : ∀ l ∈ e.continuation, ContinuationWellFormed l
  noHere : ¬ "%(here)s".toList <:+: e.value.toList

instance (e : IniEntry) : Decidable (EntryWellFormed e) :=
  decidable_of_iff ((e.key ≠ "" ∧ Text.toAsciiLowercase e.key = e.key ∧ Text.trim e.key = e.key ∧
      Unmarked e.key) ∧ ('=' ∉ e.key.toList ∧ ':' ∉ e.key.toList) ∧ Text.trim e.first = e.first ∧
      Unmarked e.first ∧ isHeader (Text.trim e.line) = false ∧
      (∀ l ∈ e.continuation, ContinuationWellFormed l) ∧ ¬ "%(here)s".toList <:+: e.value.toList)
    ⟨fun ⟨⟨hne, hlower, hkey, hmarks⟩, hdelim, htrim, hfirst, hheader, hcont, hhere⟩ =>
        ⟨hne, hlower, hkey, hmarks, hdelim, htrim, hfirst, hheader, hcont, hhere⟩,
      fun h => ⟨⟨h.nonempty, h.lowercase, h.keyTrimmed, h.keyUnmarked⟩, h.noDelimiter, h.trimmed,
        h.unmarked, h.noHeader, h.continuation, h.noHere⟩⟩

/-- A section with a name and with distinct keys. -/
structure SectionWellFormed (s : IniSection) : Prop where
  nonempty : s.name ≠ ""
  trimmed : Text.trim s.name = s.name
  unmarked : Unmarked s.name
  nodup : (s.entries.map (·.key)).Nodup
  entries : ∀ e ∈ s.entries, EntryWellFormed e

instance (s : IniSection) : Decidable (SectionWellFormed s) :=
  decidable_of_iff (s.name ≠ "" ∧ Text.trim s.name = s.name ∧ Unmarked s.name ∧
      (s.entries.map (·.key)).Nodup ∧ ∀ e ∈ s.entries, EntryWellFormed e)
    ⟨fun ⟨hne, htrim, hmarks, hnodup, hentries⟩ => ⟨hne, htrim, hmarks, hnodup, hentries⟩,
      fun h => ⟨h.nonempty, h.trimmed, h.unmarked, h.nodup, h.entries⟩⟩

/-- A document of distinct sections. -/
structure WellFormed (d : List IniSection) : Prop where
  nodup : (d.map (·.name)).Nodup
  sections : ∀ s ∈ d, SectionWellFormed s

instance (d : List IniSection) : Decidable (WellFormed d) :=
  decidable_of_iff ((d.map (·.name)).Nodup ∧ ∀ s ∈ d, SectionWellFormed s)
    ⟨fun ⟨hnodup, hsections⟩ => ⟨hnodup, hsections⟩, fun h => ⟨h.nodup, h.sections⟩⟩

/-- The parsed document is the document: it has its sections, in order, with their entries, and
nothing else. -/
def Returns (ini : ParsedIni) (d : List IniSection) : Prop :=
  ini.sectionOrder = d.map (·.name) ∧
    (∀ name, name ∈ ini.sections → name ∈ d.map (·.name)) ∧
    ∀ s ∈ d, ∃ entries, ini.sections.lookup s.name = some entries ∧
      ∀ key value, entries.lookup key = some value ↔
        ∃ e ∈ s.entries, e.key = key ∧ e.value = value

variable {here : String} {st : State} {line : String} {e : IniEntry} {s : IniSection}
  {d : List IniSection}

/-! ## One line -/

/-- A line without what begins a comment has no comment. -/
theorem stripInlineComment_of_unmarked (h : ∀ c ∈ line.toList, isCommentMarker c = false) :
    stripInlineComment line = line := by
  have hloop : ∀ (cs : List Char) (q : Quoting) (passed : List Char),
      (∀ c ∈ cs, isCommentMarker c = false) → beforeComment q passed cs = none := by
    intro cs
    induction cs with
    | nil => exact fun _ _ _ => by rw [beforeComment]
    | cons c cs ih =>
      intro q passed hcs
      obtain ⟨hc, hcs⟩ := List.forall_mem_cons.mp hcs
      unfold beforeComment
      simp only [hc, Bool.and_false, Bool.false_eq_true, if_false]
      split_ifs <;> exact ih _ _ hcs
  rw [stripInlineComment, hloop _ _ _ h]

/-- A line with text and without a comment. -/
structure Readable (line : String) : Prop where
  unmarked : Unmarked line
  noReturn : line.toList.getLast? ≠ some '\r'
  nonempty : Text.trim line ≠ ""

/-- A line with text and without a comment is read as it is. -/
theorem parseLine_of_readable (h : Readable line) :
    parseLine here st line =
      if isHeader (Text.trim line) then
        { flushKv here st with
          currentSection := Text.trim (.ofList ((Text.trim line).toList.drop 1).dropLast)
          currentKeyIndent := 0 }
      else if st.currentKey ≠ "" ∧ st.currentKeyIndent < indentOf line then
        { st with
          currentVal :=
            (if st.currentVal = "" then "" else st.currentVal ++ "\n") ++ Text.trim line }
      else
        (splitEntry (Text.trim line)).elim st fun e => { flushKv here st with
          currentKey := e.1, currentVal := e.2, currentKeyIndent := indentOf line } := by
  have hline : Text.trimEndMatches (fun c => c = '\r' || c = '\n') line = line := by
    rw [Text.trimEndMatches, List.rdropWhile_eq_self_iff.mpr, String.ofList_toList]
    intro hne
    have hlf := (h.unmarked _ (List.getLast_mem hne)).1
    have hcr : line.toList.getLast hne ≠ '\r' := fun hcr =>
      h.noReturn (hcr ▸ List.getLast?_eq_some_getLast hne)
    simp [hcr, hlf]
  have hstart : Text.trimStart line ≠ "" := by
    intro hempty
    rw [Text.trimStart, String.ofList_eq_empty_iff] at hempty
    refine h.nonempty ?_
    rw [Text.trim, hempty]
    rfl
  have hmarked : ¬ (Text.trimStart line).toList.head?.any isCommentMarker = true := by
    rw [Option.any_eq_true]
    rintro ⟨c, hc, hmark⟩
    have hmem : c ∈ line.toList := by
      rw [Text.trimStart, String.toList_ofList] at hc
      exact (List.dropWhile_sublist _).mem (List.mem_of_mem_head? hc)
    rw [(h.unmarked c hmem).2] at hmark
    cases hmark
  have hcomment := stripInlineComment_of_unmarked fun c hc => (h.unmarked c hc).2
  rw [parseLine]
  simp only [hline, hcomment, hstart, hmarked, h.nonempty, false_or,
    Bool.false_eq_true, if_false]
  cases splitEntry (Text.trim line) <;> rfl

/-- The parsed document once the key that is being read is entered. -/
def settled (here : String) (st : State) : ParsedIni := (flushKv here st).ini

/-- A key that is being read is entered. -/
theorem settled_of_key {ini : ParsedIni} {sectionName key val : String} {indent : ℕ}
    (hsection : sectionName ≠ "") (hkey : key ≠ "") :
    settled here ⟨ini, sectionName, key, val, indent⟩ =
      ini.insertEntry sectionName key (Text.replace "%(here)s" here val) :=
  if_pos ⟨hsection, hkey⟩

/-- Without a key nothing is entered. -/
theorem settled_of_empty {ini : ParsedIni} {sectionName val : String} {indent : ℕ} :
    settled here ⟨ini, sectionName, "", val, indent⟩ = ini :=
  if_neg fun hkey => hkey.2 rfl

theorem toList_header : ("[" ++ s.name ++ "]").toList = '[' :: (s.name.toList ++ [']']) := by
  rw [String.toList_append, String.toList_append]
  rfl

theorem getLast?_header : ("[" ++ s.name ++ "]").toList.getLast? = some ']' := by
  rw [toList_header, ← List.cons_append, List.getLast?_concat]

theorem trim_header : Text.trim ("[" ++ s.name ++ "]") = "[" ++ s.name ++ "]" := by
  apply Text.trim_eq_self_of_ends
  · rw [toList_header]
    rintro c ⟨rfl⟩
    decide
  · rw [getLast?_header]
    rintro c ⟨rfl⟩
    decide

theorem readable_header (h : SectionWellFormed s) : Readable ("[" ++ s.name ++ "]") := by
  refine ⟨?_, ?_, ?_⟩
  · intro c hc
    rw [toList_header, List.mem_cons, List.mem_append, List.mem_singleton] at hc
    obtain rfl | hc | rfl := hc
    · decide
    · exact h.unmarked c hc
    · decide
  · rw [getLast?_header]
    decide
  · rw [trim_header]
    intro hempty
    have hnil := congrArg String.toList hempty
    rw [toList_header] at hnil
    cases hnil

/-- A header enters the key that was read, and begins a section. -/
theorem parseLine_header (h : SectionWellFormed s) :
    parseLine here st ("[" ++ s.name ++ "]") = ⟨settled here st, s.name, "", "", 0⟩ := by
  have hheader : isHeader ("[" ++ s.name ++ "]") = true := by
    rw [isHeader, getLast?_header, toList_header]
    rfl
  rw [parseLine_of_readable (readable_header h), trim_header, if_pos hheader, toList_header,
    List.drop_one, List.tail_cons, List.dropLast_concat, String.ofList_toList, h.trimmed]
  rfl

theorem trim_continuation {l : String × String} (h : ContinuationWellFormed l) :
    Text.trim (l.1 ++ l.2) = l.2 := by
  have hblank := Text.trim_blank_around h.trimmed (fun c hc => (h.blank c hc).2)
    (fun c (hc : c ∈ []) => absurd hc List.not_mem_nil)
  rw [List.append_nil, ← String.toList_append, String.ofList_toList] at hblank
  exact hblank

theorem readable_continuation {l : String × String} (h : ContinuationWellFormed l) :
    Readable (l.1 ++ l.2) := by
  have hne : l.2.toList ≠ [] := fun hnil => h.nonempty (String.toList_eq_nil_iff.mp hnil)
  refine ⟨?_, ?_, ?_⟩
  · intro c hc
    rw [String.toList_append, List.mem_append] at hc
    obtain hc | hc := hc
    · obtain ⟨hfeed, hwhite⟩ := h.blank c hc
      refine ⟨hfeed, ?_⟩
      cases hmark : isCommentMarker c with
      | false => rfl
      | true =>
        obtain rfl | rfl : c = ';' ∨ c = '#' := by simpa [isCommentMarker] using hmark
        · cases hwhite
        · cases hwhite
    · exact h.unmarked c hc
  · rw [String.toList_append, List.getLast?_append_of_ne_nil _ hne]
    intro hlast
    cases Text.last_of_trim_eq_self h.trimmed _ hlast
  · rw [trim_continuation h]
    exact h.nonempty

theorem indentOf_continuation {l : String × String} (h : ContinuationWellFormed l) :
    0 < indentOf (l.1 ++ l.2) := by
  have hstart : Text.trimStart (l.1 ++ l.2) = l.2 := by
    rw [Text.trimStart, String.toList_append,
      List.dropWhile_append_of_pos fun c hc => (h.blank c hc).2,
      (Text.ends_of_trim_eq_self h.trimmed).1, String.ofList_toList]
  have hbytes : 0 < (Text.utf8 l.1).length := by
    obtain ⟨c, hc⟩ := List.exists_mem_of_ne_nil l.1.toList
      fun hnil => h.indented (String.toList_eq_nil_iff.mp hnil)
    have hchar : 0 < (String.utf8EncodeChar c).length := by
      rw [String.length_utf8EncodeChar]
      exact c.utf8Size_pos
    obtain ⟨b, hb⟩ := List.exists_mem_of_length_pos hchar
    exact List.length_pos_of_mem (List.mem_flatMap.mpr ⟨c, hc, hb⟩)
  rw [indentOf, hstart, Text.utf8, String.toList_append, Text.utf8Chars_append, List.length_append]
  exact Nat.lt_of_lt_of_eq hbytes (Nat.add_sub_cancel _ _).symm

/-- An indented line continues the value of the key that is being read. -/
theorem parseLine_continuation {l : String × String} (h : ContinuationWellFormed l)
    (hkey : st.currentKey ≠ "") (hindent : st.currentKeyIndent = 0) :
    parseLine here st (l.1 ++ l.2) = { st with
      currentVal := (if st.currentVal = "" then "" else st.currentVal ++ "\n") ++ l.2 } := by
  rw [parseLine_of_readable (readable_continuation h), trim_continuation h, h.noHeader,
    if_neg Bool.false_ne_true, if_pos ⟨hkey, hindent ▸ indentOf_continuation h⟩]

theorem toList_line : e.line.toList =
    e.key.toList ++ e.delimiter.pad ++ e.delimiter.mark :: ' ' :: e.first.toList := by
  simp [IniEntry.line]

/-- The line of an entry without the blank at its end that an empty value leaves. -/
theorem toList_trim_line (h : EntryWellFormed e) :
    (Text.trim e.line).toList = e.key.toList ++ e.delimiter.pad ++
      e.delimiter.mark :: if e.first = "" then [] else ' ' :: e.first.toList := by
  have hmark : Text.isWhitespace e.delimiter.mark = false := by
    cases e.delimiter <;> decide
  have hkey : (e.key.toList ++ e.delimiter.pad).dropWhile Text.isWhitespace =
      e.key.toList ++ e.delimiter.pad := by
    cases hlist : e.key.toList with
    | nil => exact absurd (String.toList_eq_nil_iff.mp hlist) h.nonempty
    | cons c cs =>
      have hc := Text.head_of_trim_eq_self h.keyTrimmed c (by rw [hlist]; rfl)
      rw [List.cons_append, List.dropWhile_cons_of_neg (by simp [hc])]
  have hfirst : (' ' :: e.first.toList).rdropWhile Text.isWhitespace =
      if e.first = "" then [] else ' ' :: e.first.toList := by
    split_ifs with hempty
    · rw [hempty]
      decide
    · have hne : e.first.toList ≠ [] := fun hnil => hempty (String.toList_eq_nil_iff.mp hnil)
      rw [List.rdropWhile_eq_self_iff]
      intro hcons
      rw [List.getLast_cons hne]
      have hlast := Text.last_of_trim_eq_self h.trimmed _ (List.getLast?_eq_some_getLast hne)
      simp [hlast]
  have hline : e.line = .ofList (e.key.toList ++ e.delimiter.pad ++
      e.delimiter.mark :: ' ' :: e.first.toList) := by
    rw [← toList_line, String.ofList_toList]
  rw [hline, Text.toList_trim_around hmark, hkey, hfirst]

/-- The key before the delimiter. -/
theorem trim_key (h : EntryWellFormed e) :
    Text.trim (.ofList (e.key.toList ++ e.delimiter.pad)) = e.key := by
  have hpad : ∀ c ∈ e.delimiter.pad, Text.isWhitespace c = true := by
    intro c hc
    cases hd : e.delimiter with
    | equals =>
      rw [hd, Delimiter.pad, List.mem_singleton] at hc
      rw [hc]
      decide
    | colon =>
      rw [hd] at hc
      cases hc
  have hblank := Text.trim_blank_around h.keyTrimmed
    (fun c (hc : c ∈ []) => absurd hc List.not_mem_nil) hpad
  rwa [List.nil_append] at hblank

/-- The value behind the delimiter. -/
theorem trim_first (h : EntryWellFormed e) :
    Text.trim (.ofList (if e.first = "" then [] else ' ' :: e.first.toList)) = e.first := by
  split_ifs with hempty
  · rw [hempty]
    rfl
  · have hspace : ∀ c ∈ [' '], Text.isWhitespace c = true := by
      intro c hc
      rw [List.mem_singleton.mp hc]
      decide
    have hblank := Text.trim_blank_around h.trimmed hspace
      (fun c (hc : c ∈ []) => absurd hc List.not_mem_nil)
    rwa [List.append_nil] at hblank

theorem splitEntry_of_equals {cs ds : List Char} (h : line.toList = cs ++ '=' :: ds)
    (hcs : '=' ∉ cs) :
    splitEntry line = some (Text.trim (.ofList cs), Text.trim (.ofList ds)) := by
  rw [splitEntry, Text.splitOnce_of_toList h hcs]
  rfl

theorem splitEntry_of_colon {cs ds : List Char} (hnone : '=' ∉ line.toList)
    (h : line.toList = cs ++ ':' :: ds) (hcs : ':' ∉ cs) :
    splitEntry line = some (Text.trim (.ofList cs), Text.trim (.ofList ds)) := by
  rw [splitEntry, Text.splitOnce_of_notMem hnone, Text.splitOnce_of_toList h hcs]
  rfl

/-- An entry is taken apart at its delimiter when no equals sign is behind a colon. -/
theorem splitEntry_line (h : EntryWellFormed e)
    (hplain : e.delimiter = .colon → '=' ∉ e.first.toList) :
    splitEntry (Text.trim e.line) = some (e.key, e.first) := by
  have hlist := toList_trim_line h
  have hkey := trim_key h
  cases hd : e.delimiter with
  | equals =>
    rw [hd] at hlist hkey
    change (Text.trim e.line).toList = _ ++ '=' :: _ at hlist
    have hnot : '=' ∉ e.key.toList ++ Delimiter.equals.pad := by
      rw [List.mem_append, not_or]
      exact ⟨h.noDelimiter.1, by decide⟩
    rw [splitEntry_of_equals hlist hnot, hkey, trim_first h]
  | colon =>
    rw [hd] at hlist hkey
    change (Text.trim e.line).toList = _ ++ ':' :: _ at hlist
    have hnone : '=' ∉ (Text.trim e.line).toList := by
      intro hmem
      rcases List.mem_append.mp (toList_line ▸ Text.mem_of_mem_trim hmem) with hmem | hmem
      · rw [hd, Delimiter.pad, List.append_nil] at hmem
        exact h.noDelimiter.1 hmem
      · rw [hd] at hmem
        simp only [Delimiter.mark, List.mem_cons] at hmem
        obtain hmem | hmem | hmem := hmem
        · cases hmem
        · cases hmem
        · exact hplain hd hmem
    have hnot : ':' ∉ e.key.toList ++ Delimiter.colon.pad := by
      rw [Delimiter.pad, List.append_nil]
      exact h.noDelimiter.2
    rw [splitEntry_of_colon hnone hlist hnot, hkey, trim_first h]

/-- An entry with an equals sign behind its colon is taken apart at this sign. -/
theorem splitEntry_line_of_mem (h : EntryWellFormed e) (hd : e.delimiter = .colon)
    (hmem : '=' ∈ e.first.toList) :
    ∃ k v, splitEntry (Text.trim e.line) = some (k, v) ∧ ':' ∈ k.toList := by
  obtain ⟨before, behind, hfirst, hbefore⟩ := List.eq_append_cons_of_mem hmem
  have hne : e.first ≠ "" := by
    rintro hempty
    rw [hempty] at hmem
    cases hmem
  have hlist : (Text.trim e.line).toList =
      (e.key.toList ++ ':' :: ' ' :: before) ++ '=' :: behind := by
    rw [toList_trim_line h, if_neg hne, hfirst, hd]
    simp [Delimiter.pad, Delimiter.mark]
  have hnot : '=' ∉ e.key.toList ++ ':' :: ' ' :: before := by
    rw [List.mem_append, not_or]
    refine ⟨h.noDelimiter.1, ?_⟩
    simp [hbefore]
  refine ⟨_, _, splitEntry_of_equals hlist hnot, ?_⟩
  refine Text.mem_trim_of_not_isWhitespace ?_ (by decide)
  simp

theorem readable_line (h : EntryWellFormed e) : Readable e.line := by
  refine ⟨?_, ?_, ?_⟩
  · intro d hd
    rw [toList_line] at hd
    simp only [List.mem_append, List.mem_cons] at hd
    obtain (hd | hd) | rfl | rfl | hd := hd
    · exact h.keyUnmarked d hd
    · cases hdelim : e.delimiter with
      | equals =>
        rw [hdelim, Delimiter.pad, List.mem_singleton] at hd
        rw [hd]
        decide
      | colon =>
        rw [hdelim] at hd
        cases hd
    · cases e.delimiter <;> decide
    · decide
    · exact h.unmarked d hd
  · rw [toList_line, List.getLast?_append_of_ne_nil _ (List.cons_ne_nil _ _),
      List.getLast?_cons_cons]
    cases hlist : e.first.toList with
    | nil => decide
    | cons f fs =>
      rw [List.getLast?_cons_cons, ← hlist]
      intro hlast
      cases Text.last_of_trim_eq_self h.trimmed _ hlast
  · intro hempty
    have hlist := toList_trim_line h
    rw [hempty, String.toList_empty] at hlist
    simp at hlist

/-- The line of an entry enters the key that was read, and begins to read another. -/
theorem parseLine_entry (h : EntryWellFormed e) {k v : String}
    (hsplit : splitEntry (Text.trim e.line) = some (k, v)) :
    parseLine here st e.line = ⟨settled here st, st.currentSection, k, v, 0⟩ := by
  obtain ⟨c, cs, hkey⟩ := List.exists_cons_of_ne_nil
    fun hnil => h.nonempty (String.toList_eq_nil_iff.mp hnil)
  have hc := Text.head_of_trim_eq_self h.keyTrimmed c (by rw [hkey]; rfl)
  have hstart : Text.trimStart e.line = e.line := by
    rw [Text.trimStart, toList_line, hkey, List.cons_append, List.cons_append,
      List.dropWhile_cons_of_neg (by simp [hc]), ← List.cons_append, ← List.cons_append, ← hkey,
      ← toList_line, String.ofList_toList]
  have hzero : indentOf e.line = 0 := by
    rw [indentOf, hstart, Nat.sub_self]
  rw [parseLine_of_readable (readable_line h), h.noHeader, if_neg Bool.false_ne_true,
    if_neg, hsplit,
    hzero]
  · rfl
  · rw [hzero]
    exact fun hlt => absurd hlt.2 (Nat.not_lt_zero _)

/-! ## Whole documents -/

/-- A further line of a value. -/
def addLine (val text : String) : String := (if val = "" then "" else val ++ "\n") ++ text

/-- The key that is read from an entry, and the first line of its value. -/
def readEntry (e : IniEntry) : String × String := (splitEntry (Text.trim e.line)).getD ("", "")

/-- The value that is read from an entry. -/
def readValue (e : IniEntry) : String :=
  (e.continuation.map Prod.snd).foldl addLine (readEntry e).2

/-- Enter what is read from an entry. -/
def enter (here sectionName : String) (ini : ParsedIni) (e : IniEntry) : ParsedIni :=
  ini.insertEntry sectionName (readEntry e).1 (Text.replace "%(here)s" here (readValue e))

/-- An entry is read with a key. -/
theorem readEntry_spec (h : EntryWellFormed e) :
    splitEntry (Text.trim e.line) = some ((readEntry e).1, (readEntry e).2) ∧
      (readEntry e).1 ≠ "" := by
  by_cases hplain : e.delimiter = .colon → '=' ∉ e.first.toList
  · rw [readEntry, splitEntry_line h hplain]
    exact ⟨rfl, h.nonempty⟩
  · rw [Classical.not_imp, not_not] at hplain
    obtain ⟨k, v, hsplit, hcolon⟩ := splitEntry_line_of_mem h hplain.1 hplain.2
    rw [readEntry, hsplit]
    refine ⟨rfl, ?_⟩
    rintro rfl
    cases hcolon

/-- The further lines of a value are added to it. -/
theorem foldl_continuation {ini : ParsedIni} {sectionName key val : String}
    {ls : List (String × String)} (h : ∀ l ∈ ls, ContinuationWellFormed l) (hkey : key ≠ "") :
    (ls.map fun l => l.1 ++ l.2).foldl (parseLine here) ⟨ini, sectionName, key, val, 0⟩ =
      ⟨ini, sectionName, key, (ls.map Prod.snd).foldl addLine val, 0⟩ := by
  induction ls generalizing val with
  | nil => rfl
  | cons l ls ih =>
    obtain ⟨hhead, htail⟩ := List.forall_mem_cons.mp h
    rw [List.map_cons, List.foldl_cons, parseLine_continuation hhead hkey rfl, ih htail]
    rfl

/-- The lines of an entry enter the key that was read, and leave the entry to be entered. -/
theorem foldl_entry (h : EntryWellFormed e) :
    e.lines.foldl (parseLine here) st =
      ⟨settled here st, st.currentSection, (readEntry e).1, readValue e, 0⟩ := by
  obtain ⟨hsplit, hkey⟩ := readEntry_spec h
  rw [IniEntry.lines, List.foldl_cons, parseLine_entry h hsplit,
    foldl_continuation h.continuation hkey, readValue]

/-- The entries of a section are entered one after the other. -/
theorem foldl_entries {es : List IniEntry} {sectionName : String}
    (h : ∀ e ∈ es, EntryWellFormed e) (hsection : sectionName ≠ "")
    (hst : st.currentSection = sectionName) :
    settled here ((es.flatMap IniEntry.lines).foldl (parseLine here) st) =
      es.foldl (enter here sectionName) (settled here st) := by
  induction es generalizing st with
  | nil => rfl
  | cons e es ih =>
    obtain ⟨hhead, htail⟩ := List.forall_mem_cons.mp h
    rw [List.flatMap_cons, List.foldl_append, foldl_entry hhead, hst, ih htail ?_,
      settled_of_key hsection (readEntry_spec hhead).2, List.foldl_cons, enter]
    rfl

/-- The sections of a document are entered one after the other. -/
theorem foldl_sections (h : ∀ s ∈ d, SectionWellFormed s) :
    settled here ((d.flatMap IniSection.lines).foldl (parseLine here) st) =
      d.foldl (fun ini s => s.entries.foldl (enter here s.name) ini) (settled here st) := by
  induction d generalizing st with
  | nil => rfl
  | cons s d ih =>
    obtain ⟨hhead, htail⟩ := List.forall_mem_cons.mp h
    rw [List.flatMap_cons, List.foldl_append, ih htail, IniSection.lines, List.foldl_cons,
      parseLine_header hhead, foldl_entries hhead.entries hhead.nonempty rfl, settled_of_empty,
      List.foldl_cons]

/-- The lines of a document can be read. -/
theorem readable_lines (h : ∀ s ∈ d, SectionWellFormed s) :
    ∀ line ∈ d.flatMap IniSection.lines, Readable line := by
  intro line hline
  obtain ⟨s, hs, hline⟩ := List.mem_flatMap.mp hline
  obtain rfl | hline := List.mem_cons.mp hline
  · exact readable_header (h s hs)
  · obtain ⟨e, he, hline⟩ := List.mem_flatMap.mp hline
    have hentry := (h s hs).entries e he
    obtain rfl | hline := List.mem_cons.mp hline
    · exact readable_line hentry
    · obtain ⟨l, hl, rfl⟩ := List.mem_map.mp hline
      exact readable_continuation (hentry.continuation l hl)

/-- The lines of a document are found in its text. -/
theorem lines_render (h : ∀ s ∈ d, SectionWellFormed s) :
    (Text.lines (render d).toList).map String.ofList = d.flatMap IniSection.lines := by
  have hlines := readable_lines h
  have hcut : Lines.cut '\n' (render d).toList =
      ((d.flatMap IniSection.lines).map String.toList, []) := by
    rw [render, String.toList_ofList]
    refine Lines.cut_join ?_ List.not_mem_nil
    rintro l hl
    obtain ⟨line, hline, rfl⟩ := List.mem_map.mp hl
    exact fun hfeed => ((hlines line hline).unmarked _ hfeed).1 rfl
  rw [Text.lines, hcut, if_pos rfl, List.append_nil, List.map_map, List.map_map]
  refine (List.map_congr_left fun line hline => ?_).trans (List.map_id _)
  show String.ofList (Lines.chop '\r' line.toList) = line
  rw [Lines.chop, if_neg (hlines line hline).noReturn, String.ofList_toList]

/-- What the parser makes of a document. -/
theorem parseIniContent_render (h : WellFormed d) :
    parseIniContent here (render d) =
      d.foldl (fun ini s => s.entries.foldl (enter here s.name) ini) {} := by
  rw [parseIniContent, lines_render h.sections]
  exact foldl_sections h.sections

/-! ## Entered documents -/

theorem lookup_insertEntry {ini : ParsedIni} {sectionName key val name : String} :
    (ini.insertEntry sectionName key val).sections.lookup name =
      if name = sectionName then
        some (((ini.sections.lookup sectionName).getD ∅).insert (Text.toAsciiLowercase key) val)
      else ini.sections.lookup name := by
  unfold ParsedIni.insertEntry
  by_cases hmem : sectionName ∈ ini.sections
  · obtain ⟨sec, hsec⟩ := HashMap.mem_iff_lookup.mp hmem
    simp only [if_pos hmem, hsec, HashMap.lookup_insert, Option.getD_some]
  · have hnone : ini.sections.lookup sectionName = none := AList.lookup_eq_none.mpr hmem
    simp only [if_neg hmem, AList.lookup_insert, HashMap.lookup_insert, hnone, Option.getD_none]
    split <;> rfl

theorem sectionOrder_insertEntry {ini : ParsedIni} {sectionName key val : String} :
    (ini.insertEntry sectionName key val).sectionOrder =
      if sectionName ∈ ini.sections then ini.sectionOrder
      else ini.sectionOrder ++ [sectionName] := by
  unfold ParsedIni.insertEntry
  by_cases hmem : sectionName ∈ ini.sections
  · obtain ⟨sec, hsec⟩ := HashMap.mem_iff_lookup.mp hmem
    simp only [if_pos hmem, hsec]
  · simp only [if_neg hmem, AList.lookup_insert]

/-- The keys and values that are entered from a section. -/
def entered (here : String) (es : List IniEntry) : List (String × String) :=
  es.map fun e =>
    (Text.toAsciiLowercase (readEntry e).1, Text.replace "%(here)s" here (readValue e))

/-- Entering some entries of a section makes the section, if it is new, and changes no other. -/
theorem foldl_enter {es : List IniEntry} (hes : es ≠ []) {ini : ParsedIni} {name : String} :
    (es.foldl (enter here name) ini).sectionOrder =
        (if name ∈ ini.sections then ini.sectionOrder else ini.sectionOrder ++ [name]) ∧
      ∀ name', (es.foldl (enter here name) ini).sections.lookup name' =
        if name' = name then
          some (((ini.sections.lookup name).getD ∅).extend (entered here es))
        else ini.sections.lookup name' := by
  induction es generalizing ini with
  | nil => exact absurd rfl hes
  | cons e es ih =>
    rw [List.foldl_cons]
    have hlookup := @lookup_insertEntry ini name (readEntry e).1
      (Text.replace "%(here)s" here (readValue e))
    by_cases hnil : es = []
    · rw [hnil]
      exact ⟨sectionOrder_insertEntry, fun name' => hlookup⟩
    · obtain ⟨horder, hsections⟩ := @ih hnil (enter here name ini e)
      have hmem : name ∈ (enter here name ini e).sections :=
        HashMap.mem_iff_lookup.mpr ⟨_, hlookup.trans (if_pos rfl)⟩
      refine ⟨?_, fun name' => ?_⟩
      · rw [horder, if_pos hmem, enter, sectionOrder_insertEntry]
      · rw [hsections name', enter, hlookup, hlookup, if_pos rfl]
        split <;> rfl

/-- The sections with entries are entered in order, each with what is read from its entries, and no
others. -/
theorem foldl_document {ini : ParsedIni} (hnodup : (d.map (·.name)).Nodup)
    (hfresh : ∀ s ∈ d, s.name ∉ ini.sections) :
    let ini' := d.foldl (fun ini s => s.entries.foldl (enter here s.name) ini) ini
    ini'.sectionOrder =
        ini.sectionOrder ++ (d.filter fun s => decide (s.entries ≠ [])).map (·.name) ∧
      (∀ name, name ∉ d.map (·.name) → ini'.sections.lookup name = ini.sections.lookup name) ∧
      ∀ s ∈ d, ini'.sections.lookup s.name =
        if s.entries = [] then none else some (HashMap.extend ∅ (entered here s.entries)) := by
  induction d generalizing ini with
  | nil => exact ⟨(List.append_nil _).symm, fun _ _ => rfl, fun s hs => absurd hs List.not_mem_nil⟩
  | cons s d ih =>
    rw [List.map_cons, List.nodup_cons] at hnodup
    obtain ⟨hnew, hrest⟩ := List.forall_mem_cons.mp hfresh
    have hother : ∀ s' ∈ d, s'.name ≠ s.name := fun s' hs' hname =>
      hnodup.1 (hname ▸ List.mem_map_of_mem hs')
    have hnone : ini.sections.lookup s.name = none := AList.lookup_eq_none.mpr hnew
    -- What the first section makes of the document.
    obtain ⟨horder, hsections⟩ : (s.entries.foldl (enter here s.name) ini).sectionOrder =
          ini.sectionOrder ++ (if s.entries = [] then [] else [s.name]) ∧
        ∀ name, (s.entries.foldl (enter here s.name) ini).sections.lookup name =
          if name = s.name then
            if s.entries = [] then none else some (HashMap.extend ∅ (entered here s.entries))
          else ini.sections.lookup name := by
      by_cases hnil : s.entries = []
      · rw [hnil]
        refine ⟨(List.append_nil _).symm, fun name => ?_⟩
        show ini.sections.lookup name = _
        rw [if_pos rfl]
        split_ifs with hname
        · exact hname ▸ hnone
        · rfl
      · obtain ⟨horder, hsections⟩ := @foldl_enter here _ hnil ini s.name
        rw [if_neg hnew] at horder
        refine ⟨by rw [horder, if_neg hnil], fun name => ?_⟩
        rw [hsections, hnone, if_neg hnil]
        rfl
    have hfresh' : ∀ s' ∈ d, s'.name ∉ (s.entries.foldl (enter here s.name) ini).sections := by
      intro s' hs' hmem
      obtain ⟨sec, hsec⟩ := HashMap.mem_iff_lookup.mp hmem
      rw [hsections, if_neg (hother s' hs')] at hsec
      exact hrest s' hs' (HashMap.mem_iff_lookup.mpr ⟨sec, hsec⟩)
    obtain ⟨horder', hout, hin⟩ := ih hnodup.2 hfresh'
    refine ⟨?_, ?_, List.forall_mem_cons.mpr ⟨?_, hin⟩⟩
    · rw [List.foldl_cons, horder', horder, List.filter_cons, List.append_assoc]
      by_cases hnil : s.entries = [] <;> simp [hnil]
    · intro name hname
      rw [List.map_cons, List.mem_cons, not_or] at hname
      rw [List.foldl_cons, hout name hname.2, hsections, if_neg hname.1]
    · rw [List.foldl_cons, hout _ hnodup.1, hsections, if_pos rfl]

/-- The document is read as it is: each section has an entry, and no equals sign is behind a
colon. -/
def ReadsPlainly (d : List IniSection) : Prop :=
  ∀ s ∈ d, s.entries ≠ [] ∧ ∀ e ∈ s.entries, e.delimiter = .colon → '=' ∉ e.first.toList

instance (d : List IniSection) : Decidable (ReadsPlainly d) :=
  inferInstanceAs (Decidable (∀ s ∈ d, _))

/-- The further lines of a value are joined to its first one. -/
theorem foldl_addLine {first : String} {texts : List String} (htexts : ∀ t ∈ texts, t ≠ "") :
    texts.foldl addLine first =
      "\n".intercalate ((if first = "" then [] else [first]) ++ texts) := by
  induction texts generalizing first with
  | nil =>
    split_ifs with hfirst
    · exact hfirst
    · rfl
  | cons t texts ih =>
    obtain ⟨ht, htexts⟩ := List.forall_mem_cons.mp htexts
    rw [List.foldl_cons, ih htexts]
    by_cases hfirst : first = ""
    · have hadd : addLine first t = t := by rw [addLine, if_pos hfirst, String.empty_append]
      rw [hadd, if_neg ht, if_pos hfirst]
      rfl
    · have hadd : addLine first t = first ++ "\n" ++ t := by rw [addLine, if_neg hfirst]
      have hne : first ++ "\n" ++ t ≠ "" := by
        intro hempty
        have hlist := congrArg String.toList hempty
        rw [String.toList_append, String.toList_append] at hlist
        simp at hlist
      rw [hadd, if_neg hne, if_neg hfirst]
      rfl

/-- What is entered from an entry that is taken apart at its delimiter. -/
theorem entered_of_plain (h : EntryWellFormed e)
    (hplain : e.delimiter = .colon → '=' ∉ e.first.toList) :
    (Text.toAsciiLowercase (readEntry e).1, Text.replace "%(here)s" here (readValue e)) =
      (e.key, e.value) := by
  have hread : readEntry e = (e.key, e.first) := by
    rw [readEntry, splitEntry_line h hplain, Option.getD_some]
  have hvalue : readValue e = e.value := by
    rw [readValue, hread, foldl_addLine, IniEntry.value, IniEntry.valueLines]
    intro t ht
    obtain ⟨l, hl, rfl⟩ := List.mem_map.mp ht
    exact (h.continuation l hl).nonempty
  rw [hvalue, hread, h.lowercase, Text.replace_eq_self here h.noHere]

/-- A printed document is found again exactly when each of its sections has an entry and no entry
with a colon has an equals sign in the first line of its value. -/
theorem returns_iff (h : WellFormed d) :
    Returns (parseIniContent here (render d)) d ↔ ReadsPlainly d := by
  obtain ⟨horder, hout, hin⟩ := @foldl_document here d {} h.nodup
    fun s _ hmem => (AList.notMem_empty _ hmem)
  rw [parseIniContent_render h]
  constructor
  · rintro ⟨-, -, hsections⟩ s hs
    obtain ⟨entries, hlookup, hentries⟩ := hsections s hs
    rw [hin s hs] at hlookup
    by_cases hnil : s.entries = []
    · rw [if_pos hnil] at hlookup
      cases hlookup
    rw [if_neg hnil] at hlookup
    obtain rfl := Option.some.inj hlookup
    refine ⟨hnil, fun e he hcolon hmem => ?_⟩
    -- The key that is read contains the colon, so that it is none of the document.
    have hentry := ((h.sections s hs).entries e he)
    obtain ⟨k, v, hsplit, hk⟩ := splitEntry_line_of_mem hentry hcolon hmem
    have hread : readEntry e = (k, v) := by rw [readEntry, hsplit, Option.getD_some]
    have hkey : Text.toAsciiLowercase k ∈ HashMap.extend ∅ (entered here s.entries) := by
      refine HashMap.mem_extend.mpr (.inr (List.mem_map.mpr ⟨_, List.mem_map_of_mem he, ?_⟩))
      rw [hread]
    obtain ⟨value, hvalue⟩ := HashMap.mem_iff_lookup.mp hkey
    obtain ⟨e', he', hsame, -⟩ := (hentries _ _).mp hvalue
    refine ((h.sections s hs).entries e' he').noDelimiter.2 ?_
    rw [hsame, Text.toAsciiLowercase, String.toList_ofList]
    exact List.mem_map.mpr ⟨':', hk, by decide⟩
  · intro hplain
    refine ⟨?_, fun name hname => ?_, fun s hs => ?_⟩
    · rw [horder, List.filter_eq_self.mpr fun s hs => decide_eq_true (hplain s hs).1]
      rfl
    · by_contra hnot
      obtain ⟨sec, hsec⟩ := HashMap.mem_iff_lookup.mp hname
      rw [hout name hnot] at hsec
      cases hsec
    · obtain ⟨hne, hcolons⟩ := hplain s hs
      have hsection := h.sections s hs
      have hentered : entered here s.entries = s.entries.map fun e => (e.key, e.value) :=
        List.map_congr_left fun e he => entered_of_plain (hsection.entries e he) (hcolons e he)
      have hkeys : ((s.entries.map fun e => (e.key, e.value)).map Prod.fst).Nodup := by
        rw [List.map_map]
        exact hsection.nodup
      refine ⟨_, (hin s hs).trans (if_neg hne), fun key value => ?_⟩
      rw [hentered, HashMap.lookup_extend_empty hkeys, List.mem_map]
      refine exists_congr fun e => and_congr_right fun _ => ?_
      rw [Prod.mk.injEq]

/-- A program section in the two notations, with a value of two lines. -/
def catSection : List IniSection :=
  [⟨"program:cat", [⟨"command", .equals, "/bin/cat -n a=b:c", []⟩,
    ⟨"priority", .colon, "5", []⟩, ⟨"environment", .equals, "", [("  ", "A=1,"), ("\t", "b: 2")]⟩]⟩]

/-- The section is found again. -/
theorem returns_catSection : Returns (parseIniContent "." (render catSection)) catSection :=
  (returns_iff (by decide +kernel)).mpr (by decide)

/-- An entry with a colon and an equals sign is taken apart at the equals sign. -/
theorem exists_not_returns :
    ∃ d, WellFormed d ∧ (∀ s ∈ d, s.entries ≠ []) ∧
      ¬ Returns (parseIniContent "." (render d)) d := by
  refine ⟨[⟨"program:cat", [⟨"environment", .colon, "A=1", []⟩]⟩], by decide +kernel, by decide, ?_⟩
  rintro ⟨-, -, hsections⟩
  obtain ⟨entries, hlookup, hentries⟩ := hsections _ List.mem_cons_self
  have hkey : (((parseIniContent "."
      (render [⟨"program:cat", [⟨"environment", .colon, "A=1", []⟩]⟩])).sections.lookup
        "program:cat").bind (·.lookup "environment")) = none := by decide +kernel
  rw [hlookup] at hkey
  have hvalue := (hentries "environment" "A=1").mpr ⟨_, List.mem_cons_self, rfl, rfl⟩
  rw [Option.bind_some, hvalue] at hkey
  cases hkey

end Ini

end Rsupervisord
