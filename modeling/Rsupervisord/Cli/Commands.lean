import Rsupervisord.Compat.XmlRpc.RoundTrip
import Rsupervisord.Support.Search

/-!
# What the client reads

The client does not parse a response. It searches for tags, and takes the text between them as it
is.

## Main results

* `Cli.decodes_iff`: the replies that the client reads as the daemon wrote them.
-/

namespace Rsupervisord

open XmlRpc

/-! ## The replies of the daemon -/

/-- The reply to a request for the tail of a log. -/
def tailProcessLog (data : String) (newOff : Int64) (overflow : Bool) : Value :=
  .array [.string data, .int newOff.toInt32, .boolean overflow]

/-- The reply to a request to read the configuration again: `[[added, changed, removed]]`. -/
def reloadConfig (added changed removed : List String) : Value :=
  .array [.array [.array (added.map .string), .array (changed.map .string),
    .array (removed.map .string)]]

namespace Cli

/-! ## The client -/

/-- The text of the first element with a name. -/
def extractXmlTag (xml : List Char) (tag : String) : Option String := do
  let (_, content) ← Text.cut ("<" ++ tag ++ ">").toList xml
  let (text, _) ← Text.cut ("</" ++ tag ++ ">").toList content
  return .ofList text

/-- `str::parse::<i64>`. -/
def parseI64 (s : String) : Option Int64 :=
  ((Text.parseSigned (-2 ^ 63) (2 ^ 63 - 1) s).map .ofInt).toOption

/-- The text, the offset and the overflow flag of a tail reply. -/
def parseTailXml (xml : String) : String × Int64 × Bool :=
  let content := (extractXmlTag xml.toList "string").getD ""
  let offset := (((extractXmlTag xml.toList "int").bind parseI64).or
    ((extractXmlTag xml.toList "i4").bind parseI64)).getD 0
  let overflow :=
    ((extractXmlTag xml.toList "boolean").map fun s => s == "1" || s == "true").getD false
  (content, offset, overflow)

/-- The texts of the strings in a piece of the reply. -/
def itemTexts (chunk : List Char) : List String :=
  ((Text.splitText "<string>".toList chunk).drop 1).filterMap fun s =>
    ((Text.splitText "</string>".toList s).head?).map .ofList

/-- The pieces of a text from each start of an array to the next end of one. -/
def arrayChunks (xml : List Char) : List (List Char) :=
  match _h : Text.cut "<array>".toList xml with
  | none => []
  | some (_, behind) =>
      match _h' : Text.cut "</array>".toList ("<array>".toList ++ behind) with
      | none => []
      | some (chunk, rest) => chunk :: arrayChunks rest
termination_by xml.length
decreasing_by
  have hstart := congrArg List.length (Text.cut_eq_append ‹Text.cut "<array>".toList xml = _›)
  have hend := congrArg List.length
    (Text.cut_eq_append ‹Text.cut "</array>".toList ("<array>".toList ++ _) = _›)
  simp at hstart hend
  omega

/-- The added, the changed and the removed names of a reload reply. -/
def parseReloadConfigXml (xml : String) : List String × List String × List String :=
  let chunks := arrayChunks xml.toList
  let items (i : ℕ) := (chunks[i]?.map itemTexts).getD []
  (items 1, items 2, items 3)

/-! ## The text of a reply -/

open Xml Text

variable {C : Codecs} {xml pre text post sep : List Char} {tag name : String}

/-- The text of a response up to the first item of its array. -/
def replyHead : List Char :=
  "<?xml version=\"1.0\"?>\n<methodResponse>\n<params>\n<param>\n".toList ++
    (startTag "value" ++ (startTag "array" ++ (startTag "data" ++ ['\n'])))

/-- The text of a response behind the items of its array. -/
def replyTail : List Char :=
  endTag "data" ++ (endTag "array" ++ (endTag "value" ++
    "\n</param>\n</params>\n</methodResponse>\n".toList))

/-- An item of an array on a line of its own. -/
def item (cs : List Char) : List Char := element "value" cs ++ ['\n']

theorem toList_serializeItems (items : List Value) :
    (serializeItems C items).toList = items.flatMap fun v => item (content C v) := by
  induction items with
  | nil => rfl
  | cons v items ih =>
    rw [serializeItems, String.toList_append, String.toList_append, toList_serializeValue, ih,
      List.flatMap_cons]
    rfl

theorem toList_serializeResponse (items : List Value) :
    (serializeResponse C (.ok (.array items))).toList =
      replyHead ++ ((items.flatMap fun v => item (content C v)) ++ replyTail) := by
  unfold serializeResponse replyHead replyTail
  rw [String.toList_append, String.toList_append, toList_serializeValue, content,
    toList_serializeItems]
  simp only [element, List.append_assoc, List.cons_append, List.nil_append]

/-- An escaped text has no tag. -/
theorem lt_notMem_escapeXml (s : String) : '<' ∉ (escapeXml s).toList := by
  rw [toList_escapeXml, List.mem_flatMap]
  rintro ⟨c, -, hc⟩
  unfold escapeChar at hc
  split at hc
  · exact absurd hc (by decide)
  · exact absurd hc (by decide)
  · exact absurd hc (by decide)
  · exact absurd hc (by decide)
  · exact absurd hc (by decide)
  next hlt _ _ _ _ => exact hlt (List.mem_singleton.mp hc).symm

/-- The tag that separates is not in an element with another name. -/
theorem apart_element (hstart : apart sep (startTag name) = true) (htext : apart sep text = true)
    (hend : apart sep (endTag name) = true) : apart sep (element name text) = true :=
  apart_append hstart (apart_append htext hend)

theorem apart_item (htext : apart sep text = true) (hstart : apart sep (startTag "value") = true)
    (hend : apart sep (endTag "value" ++ ['\n']) = true) : apart sep (item text) = true := by
  rw [item, element, List.append_assoc, List.append_assoc]
  exact apart_append hstart (apart_append htext hend)

/-! ## The tail of a log -/

theorem extractXmlTag_of_apart (hpre : apart (startTag tag) pre = true) (htext : '<' ∉ text) :
    extractXmlTag (pre ++ (element tag text ++ post)) tag = some (.ofList text) := by
  have hopen : ("<" ++ tag ++ ">").toList = startTag tag := by simp [startTag]
  have hclose : ("</" ++ tag ++ ">").toList = endTag tag := by simp [endTag]
  rw [extractXmlTag, hopen, hclose, element, List.append_assoc, List.append_assoc,
    cut_of_apart (by simp [startTag]) hpre]
  simp only [Option.bind_eq_bind, Option.bind_some]
  rw [cut_of_apart (by simp [endTag]) (apart_of_notMem rfl htext)]
  rfl

theorem parseI64_toString (i : Int32) : parseI64 (toString i.toInt) = some (.ofInt i.toInt) := by
  have hlo := i.le_toInt
  have hhi := i.toInt_lt
  rw [parseI64, parseSigned_toString (by decide) (by decide) (by omega) (by omega)]
  rfl

/-- The client reads an item behind others that have no tag of its name. -/
theorem extractXmlTag_item (hpre : apart (startTag tag) (pre ++ startTag "value") = true)
    (htext : '<' ∉ text) :
    extractXmlTag (pre ++ (item (element tag text) ++ post)) tag = some (.ofList text) := by
  have happend : pre ++ (item (element tag text) ++ post) =
      pre ++ startTag "value" ++ (element tag text ++ (endTag "value" ++ '\n' :: post)) := by
    simp [item, element]
  rw [happend]
  exact extractXmlTag_of_apart hpre htext

/-- The client reads the escaped text and the number that was written. -/
theorem parseTailXml_tailProcessLog (data : String) (newOff : Int64) (overflow : Bool) :
    parseTailXml (serializeResponse C (.ok (tailProcessLog data newOff overflow))) =
      (escapeXml data, .ofInt newOff.toInt32.toInt, overflow) := by
  let string := item (element "string" (escapeXml data).toList)
  let int := item (element "int" (toString newOff.toInt32.toInt).toList)
  let boolean := item (element "boolean" (if overflow then ['1'] else ['0']))
  have hxml : (serializeResponse C (.ok (tailProcessLog data newOff overflow))).toList =
      replyHead ++ (string ++ (int ++ (boolean ++ replyTail))) := by
    rw [tailProcessLog, toList_serializeResponse]
    simp only [List.flatMap_cons, List.flatMap_nil, List.append_assoc, List.nil_append, content,
      string, int, boolean]
  have hlt := lt_notMem_escapeXml data
  have hdigits : '<' ∉ (toString newOff.toInt32.toInt).toList := fun hc =>
    absurd (ascii_of_mem_toString hc) (by decide)
  have hint : apart (startTag "int") string = true :=
    apart_item (apart_element (by decide) (apart_of_notMem rfl hlt) (by decide)) (by decide)
      (by decide)
  have hboolean : apart (startTag "boolean") string = true :=
    apart_item (apart_element (by decide) (apart_of_notMem rfl hlt) (by decide)) (by decide)
      (by decide)
  have hboolean' : apart (startTag "boolean") int = true :=
    apart_item (apart_element (by decide) (apart_of_notMem rfl hdigits) (by decide)) (by decide)
      (by decide)
  have hreadString :
      extractXmlTag (replyHead ++ (string ++ (int ++ (boolean ++ replyTail)))) "string" =
      some (.ofList (escapeXml data).toList) := extractXmlTag_item (by decide) hlt
  have hreadInt : extractXmlTag (replyHead ++ (string ++ (int ++ (boolean ++ replyTail)))) "int" =
      some (.ofList (toString newOff.toInt32.toInt).toList) := by
    rw [← List.append_assoc]
    exact extractXmlTag_item (apart_append (apart_append (by decide) hint) (by decide)) hdigits
  have hreadBoolean :
      extractXmlTag (replyHead ++ (string ++ (int ++ (boolean ++ replyTail)))) "boolean" =
      some (.ofList (if overflow then ['1'] else ['0'])) := by
    rw [← List.append_assoc, ← List.append_assoc]
    refine extractXmlTag_item (apart_append (apart_append (apart_append (by decide) hboolean)
      hboolean') (by decide)) ?_
    cases overflow <;> decide
  rw [parseTailXml, hxml, hreadString, hreadInt, hreadBoolean, String.ofList_toList,
    String.ofList_toList]
  simp only [Option.getD_some, Option.bind_some, parseI64_toString, Option.some_or, Option.map_some,
    Prod.mk.injEq, true_and]
  cases overflow <;> decide

/-! ## The summary of a reload -/

/-- The item of a name. -/
def nameItem (name : String) : List Char := item (element "string" (escapeXml name).toList)

theorem apart_nameItem (hstart : apart sep (startTag "value" ++ startTag "string") = true)
    (hend : apart sep (endTag "string" ++ endTag "value" ++ ['\n']) = true)
    (hsep : sep.head? = some '<') : apart sep (nameItem name) = true := by
  have happend : nameItem name = startTag "value" ++ startTag "string" ++
      ((escapeXml name).toList ++ (endTag "string" ++ endTag "value" ++ ['\n'])) := by
    simp only [nameItem, item, element, List.append_assoc]
  rw [happend]
  exact apart_append hstart (apart_append (apart_of_notMem hsep (lt_notMem_escapeXml name)) hend)

/-- The first piece of the rest of a list of names is the first name. -/
theorem splitText_names (names : List String) (hpre : apart (startTag "string") pre = true)
    (hpost : apart (startTag "string") post = true) :
    ∃ cs pieces, splitText (startTag "string") (pre ++ (names.flatMap nameItem ++ post)) =
        (pre ++ cs) :: pieces ∧
      pieces.filterMap (fun s => ((splitText (endTag "string") s).head?).map String.ofList) =
        names.map escapeXml := by
  induction names generalizing pre with
  | nil =>
    refine ⟨post, [], ?_, rfl⟩
    exact splitText_of_none (cut_eq_none (by decide) (apart_append hpre hpost))
  | cons name names ih =>
    have hesc := lt_notMem_escapeXml name
    have hname : apart (startTag "string")
        ((escapeXml name).toList ++ (endTag "string" ++ (endTag "value" ++ ['\n']))) = true :=
      apart_append (apart_of_notMem rfl hesc) (by decide)
    obtain ⟨cs, pieces, hsplit, hpieces⟩ := ih hname
    have happend : pre ++ ((name :: names).flatMap nameItem ++ post) =
        pre ++ startTag "value" ++ (startTag "string" ++
          ((escapeXml name).toList ++ (endTag "string" ++ (endTag "value" ++ ['\n'])) ++
            (names.flatMap nameItem ++ post))) := by
      simp only [List.flatMap_cons, nameItem, item, element, List.append_assoc]
    have hvalue : apart (startTag "string") (pre ++ startTag "value") = true :=
      apart_append hpre (by decide)
    refine ⟨startTag "value", ((escapeXml name).toList ++
      (endTag "string" ++ (endTag "value" ++ ['\n'])) ++ cs) :: pieces, ?_, ?_⟩
    · rw [happend, splitText_of_some (by decide) (cut_of_apart (by decide) hvalue), hsplit]
    · have hcut : cut (endTag "string") ((escapeXml name).toList ++
          (endTag "string" ++ (endTag "value" ++ ['\n'])) ++ cs) =
            some ((escapeXml name).toList, endTag "value" ++ ['\n'] ++ cs) := by
        rw [List.append_assoc, List.append_assoc]
        exact cut_of_apart (by decide) (apart_of_notMem rfl hesc)
      rw [List.filterMap_cons, splitText_of_some (by decide) hcut]
      simp [hpieces, -toList_escapeXml]

/-- The client reads the escaped names of a piece. -/
theorem itemTexts_names (names : List String) (hpre : apart (startTag "string") pre = true)
    (hpost : apart (startTag "string") post = true) :
    itemTexts (pre ++ (names.flatMap nameItem ++ post)) = names.map escapeXml := by
  obtain ⟨cs, pieces, hsplit, hpieces⟩ := splitText_names names hpre hpost
  have hopen : "<string>".toList = startTag "string" := by decide
  have hclose : "</string>".toList = endTag "string" := by decide
  rw [itemTexts, hopen, hclose, hsplit]
  exact hpieces

theorem arrayChunks_element (hpre : apart (startTag "array") pre = true)
    (htext : apart (endTag "array") text = true) :
    arrayChunks (pre ++ (element "array" text ++ post)) =
      (startTag "array" ++ text) :: arrayChunks post := by
  have hopen : "<array>".toList = startTag "array" := by decide
  have hclose : "</array>".toList = endTag "array" := by decide
  have hstart : cut "<array>".toList (pre ++ (element "array" text ++ post)) =
      some (pre, text ++ (endTag "array" ++ post)) := by
    rw [hopen, element, List.append_assoc, List.append_assoc]
    exact cut_of_apart (by decide) hpre
  have hend : cut "</array>".toList ("<array>".toList ++ (text ++ (endTag "array" ++ post))) =
      some (startTag "array" ++ text, post) := by
    rw [hopen, hclose, ← List.append_assoc]
    exact cut_of_apart (by decide) (apart_append (by decide) htext)
  rw [arrayChunks]
  split
  next hnone => cases hnone.symm.trans hstart
  next _ _ hsome =>
    obtain ⟨rfl, rfl⟩ := Prod.mk.inj (Option.some.inj (hsome.symm.trans hstart))
    split
    next hnone => cases hnone.symm.trans hend
    next _ _ hsome' =>
      obtain ⟨rfl, rfl⟩ := Prod.mk.inj (Option.some.inj (hsome'.symm.trans hend))
      rfl

theorem arrayChunks_of_apart (h : apart (startTag "array") text = true) :
    arrayChunks text = [] := by
  have hnone : cut "<array>".toList text = none := cut_eq_none (by decide) h
  rw [arrayChunks]
  split
  next => rfl
  next _ _ hsome => exact absurd (hnone.symm.trans hsome) nofun

/-- The text of an array of names. -/
def namesText (names : List String) : List Char :=
  startTag "data" ++ ('\n' :: (names.flatMap nameItem ++ endTag "data"))

theorem apart_namesText (names : List String) : apart (endTag "array") (namesText names) =
    true := by
  have hnames : apart (endTag "array") (names.flatMap nameItem) = true := by
    induction names with
    | nil => rfl
    | cons name names ih =>
      rw [List.flatMap_cons]
      exact apart_append (apart_nameItem (by decide) (by decide) rfl) ih
  have hdata : apart (endTag "array") (startTag "data" ++ ['\n']) = true := by decide
  have happend : namesText names = startTag "data" ++ ['\n'] ++ (names.flatMap nameItem ++
      endTag "data") := by simp [namesText]
  rw [happend]
  exact apart_append hdata (apart_append hnames (by decide))

theorem itemTexts_namesText (names : List String) :
    itemTexts (startTag "array" ++ namesText names) = names.map escapeXml := by
  have happend : startTag "array" ++ namesText names =
      startTag "array" ++ startTag "data" ++ ['\n'] ++
      (names.flatMap nameItem ++ endTag "data") := by
    simp [namesText]
  rw [happend]
  exact itemTexts_names names (by decide) (by decide)

theorem content_names (names : List String) :
    content C (.array (names.map .string)) = element "array" (namesText names) := by
  rw [content, toList_serializeItems, List.flatMap_map]
  simp only [element, namesText, List.append_assoc, List.cons_append]
  rfl

/-- The client takes the changed names for the added ones and the removed names for the changed
ones. -/
theorem parseReloadConfigXml_reloadConfig (added changed removed : List String) :
    parseReloadConfigXml (serializeResponse C (.ok (reloadConfig added changed removed))) =
      (changed.map escapeXml, removed.map escapeXml, []) := by
  let head := "<?xml version=\"1.0\"?>\n<methodResponse>\n<params>\n<param>\n".toList ++
    startTag "value"
  -- The first array ends where the array of the added names does.
  let nested := startTag "data" ++ ['\n'] ++ startTag "value" ++ startTag "array" ++
    startTag "data" ++ ['\n'] ++ startTag "value" ++ startTag "array"
  let between := endTag "value" ++ ['\n'] ++ startTag "value"
  let tail := endTag "value" ++ ['\n'] ++ endTag "data" ++ endTag "array" ++ endTag "value" ++
    ['\n'] ++ replyTail
  have hxml : (serializeResponse C (.ok (reloadConfig added changed removed))).toList =
      head ++ (element "array" (nested ++ namesText added) ++
        (between ++ (element "array" (namesText changed) ++
          (between ++ (element "array" (namesText removed) ++ tail))))) := by
    rw [reloadConfig, toList_serializeResponse, List.flatMap_singleton, content,
      toList_serializeItems]
    unfold replyHead
    simp only [List.flatMap_cons, List.flatMap_nil, content_names, item, element,
      List.append_assoc, List.cons_append, List.nil_append, head, nested, between, tail]
  have hnested : apart (endTag "array") (nested ++ namesText added) = true :=
    apart_append (by decide) (apart_namesText added)
  have hchunks :
      arrayChunks (serializeResponse C (.ok (reloadConfig added changed removed))).toList =
      [startTag "array" ++ (nested ++ namesText added), startTag "array" ++ namesText changed,
        startTag "array" ++ namesText removed] := by
    rw [hxml, arrayChunks_element (by decide) hnested,
      arrayChunks_element (by decide) (apart_namesText changed),
      arrayChunks_element (by decide) (apart_namesText removed), arrayChunks_of_apart (by decide)]
  rw [parseReloadConfigXml, hchunks]
  simp [itemTexts_namesText]

/-! ## What the client decodes -/

/-- An offset is written as 32 bits. -/
theorem ofInt_toInt32_eq_iff (n : Int64) :
    Int64.ofInt n.toInt32.toInt = n ↔ -2 ^ 31 ≤ n.toInt ∧ n.toInt < 2 ^ 31 := by
  have hlo := n.toInt32.le_toInt
  have hhi := n.toInt32.toInt_lt
  have hwrap : (Int64.ofInt n.toInt32.toInt).toInt = n.toInt32.toInt :=
    Int64.toInt_ofInt_of_le (by omega) (by omega)
  rw [← Int64.toInt_inj, hwrap]
  constructor
  · intro h
    omega
  · rintro ⟨hle, hlt⟩
    rw [Int64.toInt_toInt32]
    exact Int.bmod_eq_of_le (by omega) (by omega)

/-- The client reads the tail of a log as it was exactly when nothing in the text is escaped and the
offset has 32 bits, and the summary of a reload exactly when it is empty. -/
theorem decodes_iff (C : Codecs) :
    (∀ (data : String) (newOff : Int64) (overflow : Bool),
      parseTailXml (serializeResponse C (.ok (tailProcessLog data newOff overflow))) =
          (data, newOff, overflow) ↔
        IsPlain data ∧ -2 ^ 31 ≤ newOff.toInt ∧ newOff.toInt < 2 ^ 31) ∧
    ∀ added changed removed : List String,
      parseReloadConfigXml (serializeResponse C (.ok (reloadConfig added changed removed))) =
          (added, changed, removed) ↔
        added = [] ∧ changed = [] ∧ removed = [] := by
  refine ⟨fun data newOff overflow => ?_, fun added changed removed => ?_⟩
  · rw [parseTailXml_tailProcessLog, Prod.mk.injEq, Prod.mk.injEq, escapeXml_eq_self,
      ofInt_toInt32_eq_iff]
    exact ⟨fun ⟨hdata, hoff, _⟩ => ⟨hdata, hoff⟩, fun ⟨hdata, hoff⟩ => ⟨hdata, hoff, rfl⟩⟩
  · rw [parseReloadConfigXml_reloadConfig, Prod.mk.injEq, Prod.mk.injEq]
    constructor
    · rintro ⟨hadded, hchanged, rfl⟩
      obtain rfl : changed = [] := by simpa using hchanged.symm
      exact ⟨hadded.symm, rfl, rfl⟩
    · rintro ⟨rfl, rfl, rfl⟩
      exact ⟨rfl, rfl, rfl⟩

/-- A text with a tag and a new program. -/
theorem exists_not_decodes :
    parseTailXml (serializeResponse plainCodecs (.ok (tailProcessLog "<ready>" 7 false))) ≠
      ("<ready>", 7, false) ∧
    parseReloadConfigXml (serializeResponse plainCodecs (.ok (reloadConfig ["web"] [] []))) ≠
      (["web"], [], []) := by
  rw [parseTailXml_tailProcessLog, parseReloadConfigXml_reloadConfig]
  exact ⟨by decide, by decide⟩

end Cli

end Rsupervisord
