import Mathlib
import Rsupervisord.Compat.XmlRpc.Received
import Rsupervisord.Support.Except

/-!
# Round trip of XML-RPC values

The text of a serialized value is parsed into the received value, whatever the reader. Each parse
function has one lemma for the text it reads. A value inside other values is read by the same
lemma, by induction on the value.
-/

namespace Rsupervisord

namespace XmlRpc

open Xml XmlReader

/-! ### The text of a value -/

/-- The text between the tags of a value. -/
def content (C : Codecs) : Value → List Char
  | .int i => element "int" (toString i.toInt).toList
  | .boolean b => element "boolean" (if b then ['1'] else ['0'])
  | .string s => element "string" (escapeXml s).toList
  | .double d => element "double" (C.displayF64 d).toList
  | .dateTime dt => element "dateTime.iso8601" (escapeXml dt).toList
  | .base64 b => element "base64" (C.base64.encode b).toList
  | .array items => element "array" (element "data" ('\n' :: (serializeItems C items).toList))
  | .struct members => element "struct" ('\n' :: (serializeMembers C members).toList)
  | .nil => emptyTag "nil"

variable {C : Codecs}

/-- A text between two tags and two end tags. -/
theorem toList_nested {before text after outer inner : String}
    (hbefore : before.toList = startTag outer ++ startTag inner)
    (hafter : after.toList = endTag inner ++ endTag outer) :
    (before ++ text ++ after).toList = element outer (element inner text.toList) := by
  rw [String.toList_append, String.toList_append, hbefore, hafter]
  simp only [element, List.append_assoc]

/-- A serialized value is an element with the content of the value. -/
theorem toList_serializeValue (v : Value) :
    (serializeValue C v).toList = element "value" (content C v) := by
  cases v with
  | int i =>
    show ("<value><int>" ++ toString i.toInt ++ "</int></value>").toList = _
    exact toList_nested rfl rfl
  | boolean b =>
    have hdigit : (if b then "1" else "0" : String).toList = if b then ['1'] else ['0'] := by
      cases b with
      | false => rfl
      | true => rfl
    show ("<value><boolean>" ++ (if b then "1" else "0") ++ "</boolean></value>").toList =
      element "value" (element "boolean" (if b then ['1'] else ['0']))
    rw [← hdigit]
    exact toList_nested rfl rfl
  | string s =>
    show ("<value><string>" ++ escapeXml s ++ "</string></value>").toList = _
    exact toList_nested rfl rfl
  | double d =>
    show ("<value><double>" ++ C.displayF64 d ++ "</double></value>").toList = _
    exact toList_nested rfl rfl
  | dateTime dt =>
    show ("<value><dateTime.iso8601>" ++ escapeXml dt ++ "</dateTime.iso8601></value>").toList = _
    exact toList_nested rfl rfl
  | base64 b =>
    show ("<value><base64>" ++ C.base64.encode b ++ "</base64></value>").toList = _
    exact toList_nested rfl rfl
  | array items =>
    have hbefore : "<value><array><data>\n".toList =
        startTag "value" ++ (startTag "array" ++ (startTag "data" ++ ['\n'])) := rfl
    have hafter : "</data></array></value>".toList =
        endTag "data" ++ (endTag "array" ++ endTag "value") := rfl
    show ("<value><array><data>\n" ++ serializeItems C items ++
        "</data></array></value>").toList = _
    rw [String.toList_append, String.toList_append, hbefore, hafter]
    simp only [content, element, List.append_assoc, List.nil_append, List.cons_append]
  | struct members =>
    have hbefore : "<value><struct>\n".toList =
        startTag "value" ++ (startTag "struct" ++ ['\n']) := rfl
    have hafter : "</struct></value>".toList = endTag "struct" ++ endTag "value" := rfl
    show ("<value><struct>\n" ++ serializeMembers C members ++ "</struct></value>").toList = _
    rw [String.toList_append, String.toList_append, hbefore, hafter]
    simp only [content, element, List.append_assoc, List.nil_append, List.cons_append]
  | nil =>
    show "<value><nil/></value>".toList = _
    rfl

/-- A serialized member. -/
theorem toList_serializeMember (k : String) (v : Value) :
    (serializeMember C (k, v)).toList =
      startTag "member" ++ ('\n' :: (element "name" (escapeXml k).toList ++
        ('\n' :: (element "value" (content C v) ++ '\n' :: (endTag "member" ++ ['\n']))))) := by
  have hbefore : "<member>\n<name>".toList = startTag "member" ++ ('\n' :: startTag "name") := rfl
  have hbetween : "</name>\n".toList = endTag "name" ++ ['\n'] := rfl
  have hafter : "\n</member>\n".toList = '\n' :: (endTag "member" ++ ['\n']) := rfl
  show ("<member>\n<name>" ++ escapeXml k ++ "</name>\n" ++ serializeValue C v ++
    "\n</member>\n").toList = _
  rw [String.toList_append, String.toList_append, String.toList_append, String.toList_append,
    hbefore, hbetween, hafter, toList_serializeValue]
  simp only [element, List.append_assoc, List.nil_append, List.cons_append]

/-! ### Legal text -/

/-- The codes of letters, digits and the signs of numbers and of base64. -/
theorem toNat_of_ascii {c : Char}
    (h : c.isAlphanum = true ∨ c = '-' ∨ c = '+' ∨ c = '/' ∨ c = '=') :
    (43 ≤ c.toNat ∧ c.toNat ≤ 59) ∨ c.toNat = 61 ∨ (65 ≤ c.toNat ∧ c.toNat ≤ 122) := by
  rcases h with h | rfl | rfl | rfl | rfl
  · have hcodes : 'A'.val.toNat = 65 ∧ 'Z'.val.toNat = 90 ∧ 'a'.val.toNat = 97 ∧
        'z'.val.toNat = 122 ∧ '0'.val.toNat = 48 ∧ '9'.val.toNat = 57 := by decide
    simp only [Char.isAlphanum, Char.isAlpha, Char.isUpper, Char.isLower, Char.isDigit,
      Bool.or_eq_true, Bool.and_eq_true, decide_eq_true_eq, UInt32.le_iff_toNat_le, ge_iff_le] at h
    show (43 ≤ c.val.toNat ∧ c.val.toNat ≤ 59) ∨ c.val.toNat = 61 ∨
      (65 ≤ c.val.toNat ∧ c.val.toNat ≤ 122)
    omega
  · decide
  · decide
  · decide
  · decide

/-- They stand for themselves. -/
theorem isTextChar_of_ascii {c : Char}
    (h : c.isAlphanum = true ∨ c = '-' ∨ c = '+' ∨ c = '/' ∨ c = '=') : isTextChar c = true := by
  have hrange := toNat_of_ascii h
  have hne : ∀ d : Char, ¬((43 ≤ d.toNat ∧ d.toNat ≤ 59) ∨ d.toNat = 61 ∨
      (65 ≤ d.toNat ∧ d.toNat ≤ 122)) → c ≠ d := by
    rintro d hd rfl
    exact hd hrange
  have hchar : isChar c = true := by
    simp only [isChar, Bool.or_eq_true, Bool.and_eq_true, decide_eq_true_eq]
    omega
  simp only [isTextChar, Bool.and_eq_true, decide_eq_true_eq]
  exact ⟨⟨⟨⟨hchar, hne _ (by decide)⟩, hne _ (by decide)⟩, hne _ (by decide)⟩, hne _ (by decide)⟩

/-- They are no white space. -/
theorem isWhitespace_of_ascii {c : Char}
    (h : c.isAlphanum = true ∨ c = '-' ∨ c = '+' ∨ c = '/' ∨ c = '=') :
    Text.isWhitespace c = false := by
  have hrange := toNat_of_ascii h
  simp only [Text.isWhitespace, Bool.or_eq_false_iff, Bool.and_eq_false_iff,
    decide_eq_false_iff_not]
  omega

/-- A legal character that is not escaped stands for itself. -/
theorem isTextChar_of_not_special {c : Char} (hchar : isChar c = true) (hcr : c ≠ '\r')
    (h : isSpecial c = false) : isTextChar c = true := by
  have hmem : c ∉ specialChars := fun hc => by simp [isSpecial, hc] at h
  simp only [specialChars, List.mem_cons, not_or] at hmem
  simp only [isTextChar, Bool.and_eq_true, decide_eq_true_eq]
  exact ⟨⟨⟨⟨hchar, hcr⟩, hmem.1⟩, hmem.2.1⟩, hmem.2.2.1⟩

/-- An escaped text is text. -/
theorem charData_escapeXml {s : String} (h : IsLegal s) : CharData (escapeXml s).toList := by
  have hchars : ∀ cs : List Char, (∀ c ∈ cs, isChar c = true ∧ c ≠ '\r') →
      CharData (cs.flatMap escapeChar) := by
    intro cs hcs
    induction cs with
    | nil => exact .nil
    | cons c cs ih =>
      obtain ⟨hchar, hcr⟩ := hcs c List.mem_cons_self
      have htail := ih fun d hd => hcs d (List.mem_cons_of_mem c hd)
      rw [List.flatMap_cons]
      cases hc : isSpecial c with
      | false =>
        rw [escapeChar_of_not_special hc]
        exact .char (isTextChar_of_not_special hchar hcr hc) htail
      | true =>
        obtain ⟨name, hname, href⟩ := escapeChar_of_special hc
        rw [href]
        exact .reference hname htail
  rw [toList_escapeXml]
  exact hchars _ h

/-- The characters of a number. -/
theorem ascii_of_mem_toString {n : ℤ} {c : Char} (hc : c ∈ (toString n).toList) :
    c.isAlphanum = true ∨ c = '-' ∨ c = '+' ∨ c = '/' ∨ c = '=' := by
  rcases Text.of_mem_toString_int hc with rfl | hdigit
  · exact .inr (.inl rfl)
  · exact .inl (by rw [Char.isAlphanum, hdigit, Bool.or_true])

/-- The characters of a base64 text. -/
theorem ascii_of_mem_encode {b : List UInt8} {c : Char} (hc : c ∈ (C.base64.encode b).toList) :
    c.isAlphanum = true ∨ c = '-' ∨ c = '+' ∨ c = '/' ∨ c = '=' :=
  (C.base64.mem_encode hc).imp_right .inr

/-! ### Reading the text of an element -/

/-- A reader of a value element finds the value `val` in the text `cs`. -/
def Reads (C : Codecs) (cs : List Char) (val : Value) : Prop :=
  ∀ {s : C.xml.State} {opened : List String} {rest : List Char} {fuel : ℕ},
    C.xml.At s ("value" :: opened) (cs ++ (endTag "value" ++ rest)) fuel →
      ∃ s', parseValueElement C fuel s none = .ok (val, s') ∧ C.xml.At s' opened rest fuel

section Value

variable {s s' : C.xml.State} {opened : List String} {rest : List Char} {fuel : ℕ}

/-- The end tag of a value ends its loop. -/
theorem parseValueElement_endTag (space : List Char) (currentVal : Option Value)
    (h : C.xml.At s ("value" :: opened) (space ++ (endTag "value" ++ rest)) fuel)
    (hspace : space.all isSpace = true) :
    ∃ s', parseValueElement C fuel s currentVal = .ok (currentVal.getD (.string ""), s') ∧
      C.xml.At s' opened rest fuel := by
  obtain ⟨fuel, s₁, rfl, hread, h₁⟩ := h.endTag space hspace (by decide)
  refine ⟨s₁, ?_, h₁.mono (Nat.le_succ _)⟩
  rw [parseValueElement, hread]
  rfl

/-- An element that holds nothing but text, and the value that it is read as. -/
structure IsScalar (C : Codecs) (tag : String) (cs : List Char) (val : Value) : Prop where
  isName : isName tag = true
  readsText : C.xml.ReadsText tag cs
  decode : ∃ f, decodeScalar C tag = some f ∧ f (.ofList cs) = .ok val

/-- An element that holds nothing but text is a value for the loop. -/
theorem parseValueElement_scalar {tag : String} {cs : List Char} {val : Value}
    (hscalar : IsScalar C tag cs val) (currentVal : Option Value)
    (h : C.xml.At s opened (element tag cs ++ rest) fuel) :
    ∃ n s', fuel = n + 1 ∧
      parseValueElement C (n + 1) s currentVal = parseValueElement C n s' (some val) ∧
      C.xml.At s' opened rest n := by
  obtain ⟨decode, hdecode, hval⟩ := hscalar.decode
  simp only [element, List.append_assoc] at h
  obtain ⟨n, s₁, hfuel, hstart, h₁⟩ := h.start [] rfl hscalar.isName
  obtain ⟨s₂, htext, h₂⟩ := hscalar.readsText h₁
  have hread : readScalar C s₁ tag decode = .ok (val, s₂) := by
    unfold readScalar
    rw [htext]
    simp only [hval]
  refine ⟨n, s₂, hfuel, ?_, h₂⟩
  rw [parseValueElement, hstart]
  simp only [hdecode, hread]
  rfl

/-- An element that holds nothing but text is read. -/
theorem reads_scalar {tag : String} {cs : List Char} {val : Value}
    (hscalar : IsScalar C tag cs val) : Reads C (element tag cs) val := by
  intro s opened rest fuel h
  obtain ⟨n, s₁, rfl, hstep, h₁⟩ := parseValueElement_scalar hscalar none h
  obtain ⟨s₂, hend, h₂⟩ := parseValueElement_endTag [] (some val) h₁ rfl
  exact ⟨s₂, hstep.trans hend, h₂.mono (Nat.le_succ _)⟩

/-- The text of a number is the number. -/
theorem isScalar_int (i : Int32) : IsScalar C "int" (toString i.toInt).toList (.int i) := by
  have hname : isName "int" = true := by decide
  refine ⟨hname, readsText_of_charData
    (.of_forall fun c hc => isTextChar_of_ascii (ascii_of_mem_toString hc)) hname, _, rfl, ?_⟩
  have htrim : Text.trim (toString i.toInt) = toString i.toInt :=
    Text.trim_eq_self fun c hc => isWhitespace_of_ascii (ascii_of_mem_toString hc)
  have hparse : Text.parseSigned (-2 ^ 31) (2 ^ 31 - 1) (toString i.toInt) = .ok i.toInt :=
    Text.parseSigned_toString (by decide) (by decide) i.le_toInt
      (Int.le_sub_one_of_lt i.toInt_lt)
  rw [String.ofList_toList, htrim, hparse]
  show Except.ok (Value.int (Int32.ofInt i.toInt)) = _
  rw [Int32.ofInt_toInt]

/-- The text of a boolean is the boolean. -/
theorem isScalar_boolean (b : Bool) :
    IsScalar C "boolean" (if b then ['1'] else ['0']) (.boolean b) := by
  have hname : isName "boolean" = true := by decide
  cases b with
  | false =>
    exact ⟨hname,
      readsText_of_charData (.of_forall (List.all_iff_forall_prop.mp (by decide))) hname,
      _, rfl, rfl⟩
  | true =>
    exact ⟨hname,
      readsText_of_charData (.of_forall (List.all_iff_forall_prop.mp (by decide))) hname,
      _, rfl, rfl⟩

/-- The text of a string is a string with its references. -/
theorem isScalar_string {str : String} (h : C.xml.ReadsText "string" (escapeXml str).toList) :
    IsScalar C "string" (escapeXml str).toList (.string (escapeXml str)) :=
  ⟨by decide, h, _, rfl, by rw [String.ofList_toList]⟩

/-- The text of a date-time is a date-time with its references. -/
theorem isScalar_dateTime {dt : String}
    (h : C.xml.ReadsText "dateTime.iso8601" (escapeXml dt).toList) :
    IsScalar C "dateTime.iso8601" (escapeXml dt).toList (.dateTime (escapeXml dt)) :=
  ⟨by decide, h, _, rfl, by rw [String.ofList_toList]⟩

/-- The text of bytes are the bytes. -/
theorem isScalar_base64 (b : List UInt8) :
    IsScalar C "base64" (C.base64.encode b).toList (.base64 b) := by
  have hname : isName "base64" = true := by decide
  refine ⟨hname, readsText_of_charData
    (.of_forall fun c hc => isTextChar_of_ascii (ascii_of_mem_encode hc)) hname, _, rfl, ?_⟩
  have hclean : (C.base64.encode b).toList.filter (!Text.isWhitespace ·) =
      (C.base64.encode b).toList :=
    List.filter_eq_self.mpr fun c hc => by rw [isWhitespace_of_ascii (ascii_of_mem_encode hc)]; rfl
  rw [String.toList_ofList, hclean, String.ofList_toList, C.base64.decode_encode]
  rfl

/-- The element `nil` is read. -/
theorem reads_nil : Reads C (content C .nil) .nil := by
  intro s opened rest fuel h
  obtain ⟨fuel, s₁, rfl, hempty, h₁⟩ := h.empty (by decide)
  obtain ⟨s₂, hend, h₂⟩ := parseValueElement_endTag [] (some .nil) h₁ rfl
  refine ⟨s₂, ?_, h₂.mono (Nat.le_succ _)⟩
  rw [parseValueElement, hempty]
  exact hend

/-! ### Arrays and structs -/

/-- The elements of an array are read one after the other. -/
theorem parseArray_serializeItems {f : Value → Value} {items : List Value}
    (hitems : ∀ item ∈ items, Reads C (content C item) (f item)) (acc : List Value)
    (h : C.xml.At s ("data" :: "array" :: opened)
      ('\n' :: (serializeItems C items).toList ++ (endTag "data" ++ (endTag "array" ++ rest)))
      fuel) :
    ∃ s', parseArray C fuel s acc = .ok (acc ++ items.map f, s') ∧
      C.xml.At s' opened rest fuel := by
  induction items generalizing s fuel acc with
  | nil =>
    obtain ⟨fuel, s₁, rfl, hdata, h₁⟩ := h.endTag ['\n'] rfl (by decide)
    obtain ⟨fuel, s₂, rfl, harray, h₂⟩ := h₁.endTag [] rfl (by decide)
    refine ⟨s₂, ?_, h₂.mono (by omega)⟩
    rw [parseArray, hdata]
    show parseArray C (fuel + 1) s₁ acc = _
    rw [parseArray, harray, List.map_nil, List.append_nil]
    rfl
  | cons item items ih =>
    have htext : (serializeItems C (item :: items)).toList =
        element "value" (content C item) ++ '\n' :: (serializeItems C items).toList := by
      show (serializeValue C item ++ "\n" ++ serializeItems C items).toList = _
      rw [String.toList_append, String.toList_append, toList_serializeValue, List.append_assoc]
      rfl
    rw [htext] at h
    simp only [element, List.append_assoc, List.cons_append] at h
    obtain ⟨fuel, s₁, rfl, hvalue, h₁⟩ := h.start ['\n'] rfl (by decide)
    obtain ⟨s₂, hitem, h₂⟩ := hitems item List.mem_cons_self h₁
    obtain ⟨s₃, hrest, h₃⟩ := ih (fun item' hitem' => hitems item' (List.mem_cons_of_mem _ hitem'))
      (acc ++ [f item]) h₂
    refine ⟨s₃, ?_, h₃.mono (Nat.le_succ _)⟩
    rw [parseArray, hvalue]
    show (parseValueElement C fuel s₁ none >>= _) = _
    rw [hitem]
    show parseArray C fuel s₂ (acc ++ [f item]) = _
    rw [hrest, List.map_cons, List.append_assoc, List.singleton_append]

/-- An array is read when its elements are. -/
theorem reads_array {f : Value → Value} {items : List Value}
    (hitems : ∀ item ∈ items, Reads C (content C item) (f item)) :
    Reads C (content C (.array items)) (.array (items.map f)) := by
  intro s opened rest fuel h
  simp only [content, element, List.append_assoc] at h
  obtain ⟨fuel, s₁, rfl, harray, h₁⟩ := h.start [] rfl (by decide)
  obtain ⟨fuel, s₂, rfl, hdata, h₂⟩ := h₁.start [] rfl (by decide)
  obtain ⟨s₃, hparse, h₃⟩ := parseArray_serializeItems hitems [] h₂
  obtain ⟨s₄, hend, h₄⟩ :=
    parseValueElement_endTag [] (some (.array (items.map f))) (h₃.mono (Nat.le_succ _)) rfl
  refine ⟨s₄, ?_, h₄.mono (Nat.le_succ _)⟩
  have hparse' : parseArray C (fuel + 1) s₁ [] = .ok (items.map f, s₃) := by
    rw [parseArray, hdata]
    exact hparse
  rw [parseValueElement, harray]
  show (parseArray C (fuel + 1) s₁ [] >>= _) = _
  rw [hparse']
  exact hend

/-- A member of a struct is read. -/
theorem parseMember_eq {k : String} {v w : Value} (hk : C.xml.ReadsText "name" (escapeXml k).toList)
    (hv : Reads C (content C v) w)
    (h : C.xml.At s ("member" :: opened) ('\n' :: (element "name" (escapeXml k).toList ++
      ('\n' :: (element "value" (content C v) ++ '\n' :: (endTag "member" ++ rest))))) fuel) :
    ∃ s', parseMember C fuel s none none = .ok ((escapeXml k, w), s') ∧
      C.xml.At s' opened rest fuel := by
  simp only [element, List.append_assoc] at h
  obtain ⟨fuel, s₁, rfl, hname, h₁⟩ := h.start ['\n'] rfl (by decide)
  obtain ⟨s₂, htext, h₂⟩ := hk h₁
  obtain ⟨fuel, s₃, rfl, hvalue, h₃⟩ := h₂.start ['\n'] rfl (by decide)
  obtain ⟨s₄, hparse, h₄⟩ := hv h₃
  obtain ⟨fuel, s₅, rfl, hend, h₅⟩ := h₄.endTag ['\n'] rfl (by decide)
  refine ⟨s₅, ?_, h₅.mono (by omega)⟩
  rw [parseMember, hname]
  simp only [if_true, htext, String.ofList_toList]
  show parseMember C (fuel + 1 + 1) s₂ (some (escapeXml k)) none = _
  rw [parseMember, hvalue]
  show (parseValueElement C (fuel + 1) s₃ none >>= _) = _
  rw [hparse]
  show parseMember C (fuel + 1) s₄ (some (escapeXml k)) (some w) = _
  rw [parseMember, hend]
  rfl

/-- The members of a struct are read and stored one after the other. -/
theorem parseStruct_serializeMembers {f : Value → Value} {members : List (String × Value)}
    (hnames : ∀ m ∈ members, C.xml.ReadsText "name" (escapeXml m.1).toList)
    (hmembers : ∀ m ∈ members, Reads C (content C m.2) (f m.2))
    (map : List (String × Value))
    (h : C.xml.At s ("struct" :: opened)
      ('\n' :: (serializeMembers C members).toList ++ (endTag "struct" ++ rest)) fuel) :
    ∃ s', parseStruct C fuel s map =
        .ok ((members.map fun m => (escapeXml m.1, f m.2)).foldl
          (fun map m => BTreeMap.insert m.1 m.2 map) map, s') ∧
      C.xml.At s' opened rest fuel := by
  induction members generalizing s fuel map with
  | nil =>
    obtain ⟨fuel, s₁, rfl, hend, h₁⟩ := h.endTag ['\n'] rfl (by decide)
    refine ⟨s₁, ?_, h₁.mono (Nat.le_succ _)⟩
    rw [parseStruct, hend]
    rfl
  | cons m members ih =>
    obtain ⟨k, v⟩ := m
    have htext : (serializeMembers C ((k, v) :: members)).toList =
        (serializeMember C (k, v)).toList ++ (serializeMembers C members).toList := by
      show (serializeMember C (k, v) ++ serializeMembers C members).toList = _
      rw [String.toList_append]
    rw [htext, toList_serializeMember] at h
    simp only [List.append_assoc, List.cons_append, List.nil_append] at h
    obtain ⟨fuel, s₁, rfl, hmember, h₁⟩ := h.start ['\n'] rfl (by decide)
    obtain ⟨s₂, hparse, h₂⟩ := parseMember_eq (hnames _ List.mem_cons_self)
      (hmembers _ List.mem_cons_self) h₁
    obtain ⟨s₃, hrest, h₃⟩ := ih (fun m hm => hnames m (List.mem_cons_of_mem _ hm))
      (fun m hm => hmembers m (List.mem_cons_of_mem _ hm))
      (BTreeMap.insert (escapeXml k) (f v) map) h₂
    refine ⟨s₃, ?_, h₃.mono (Nat.le_succ _)⟩
    rw [parseStruct, hmember]
    show (parseMember C fuel s₁ none none >>= _) = _
    rw [hparse]
    exact hrest

/-- A struct is read when its members are. -/
theorem reads_struct {f : Value → Value} {members : List (String × Value)}
    (hnames : ∀ m ∈ members, C.xml.ReadsText "name" (escapeXml m.1).toList)
    (hmembers : ∀ m ∈ members, Reads C (content C m.2) (f m.2)) :
    Reads C (content C (.struct members))
    (.struct ((members.map fun m => (escapeXml m.1, f m.2)).foldl
      (fun map m => BTreeMap.insert m.1 m.2 map) [])) := by
  intro s opened rest fuel h
  simp only [content, element, List.append_assoc] at h
  obtain ⟨fuel, s₁, rfl, hstruct, h₁⟩ := h.start [] rfl (by decide)
  obtain ⟨s₂, hparse, h₂⟩ := parseStruct_serializeMembers hnames hmembers [] h₁
  obtain ⟨s₃, hend, h₃⟩ := parseValueElement_endTag [] (some (.struct _)) h₂ rfl
  refine ⟨s₃, ?_, h₃.mono (Nat.le_succ _)⟩
  rw [parseValueElement, hstruct]
  show (parseStruct C fuel s₁ [] >>= _) = _
  rw [hparse]
  exact hend

end Value

/-- The content of a value is read as the received value. -/
theorem reads_content {v : Value} (hv : v.IsWire) : Reads C (content C v) (received v) := by
  induction hv with
  | int i => exact reads_scalar (isScalar_int i)
  | boolean b => exact reads_scalar (isScalar_boolean b)
  | string hs =>
    exact reads_scalar (isScalar_string (readsText_of_charData (charData_escapeXml hs) (by decide)))
  | dateTime hdt =>
    exact reads_scalar
      (isScalar_dateTime (readsText_of_charData (charData_escapeXml hdt) (by decide)))
  | base64 b => exact reads_scalar (isScalar_base64 b)
  | @array items _ ih =>
    rw [received, receivedItems_eq]
    exact reads_array ih
  | @struct members _ hnames _ ih =>
    rw [received, receivedMembers_eq]
    exact reads_struct (fun m hm =>
      readsText_of_charData (charData_escapeXml (hnames m hm)) (by decide))
      ih
  | nil => exact reads_nil

/-! ### Untagged strings -/

/-- The texts of a string between its special characters are trimmed, and the first one that is not
empty is taken. -/
def firstText (cs : List Char) : List Char :=
  (((cs.splitOnP isSpecial).map trimSpace).find? (· ≠ [])).getD []

/-- Induction over the special characters of a text. -/
theorem specialInduction {P : List Char → Prop}
    (plain : ∀ cs, (∀ c ∈ cs, isSpecial c = false) → P cs)
    (split : ∀ pre c post, (∀ c ∈ pre, isSpecial c = false) → isSpecial c = true → P post →
      P (pre ++ c :: post)) (cs : List Char) : P cs := by
  induction hn : cs.length using Nat.strong_induction_on generalizing cs with
  | h n ih =>
    by_cases hall : ∀ c ∈ cs, isSpecial c = false
    · exact plain cs hall
    · push Not at hall
      obtain ⟨c, hc, hspecial⟩ := hall
      -- Split before the first special character.
      have hpre : ∀ c ∈ cs.takeWhile (!isSpecial ·), isSpecial c = false :=
        fun c hc => by simpa using List.mem_takeWhile_imp hc
      have hhead := List.head?_dropWhile_not (!isSpecial ·) cs
      have hsplit := List.takeWhile_append_dropWhile (p := (!isSpecial ·)) (l := cs)
      cases hdrop : cs.dropWhile (!isSpecial ·) with
      | nil =>
        rw [hdrop, List.append_nil] at hsplit
        rw [← hsplit] at hc
        exact absurd (hpre c hc) hspecial
      | cons d post =>
        rw [hdrop] at hhead hsplit
        rw [← hsplit]
        refine split _ d post hpre (by simpa using hhead) (ih post.length ?_ post rfl)
        rw [← hn, ← hsplit, List.length_append, List.length_cons]
        omega

/-- Only white space is trimmed away as a whole. -/
theorem trimSpace_eq_nil {cs : List Char} : trimSpace cs = [] ↔ cs.all isSpace = true := by
  unfold trimSpace
  rw [List.rdropWhile_eq_nil_iff, List.all_eq_true]
  constructor
  · intro h
    cases hds : cs.dropWhile isSpace with
    | nil => exact List.dropWhile_eq_nil_iff.mp hds
    | cons d ds =>
      have hhead := List.head?_dropWhile_not isSpace cs
      rw [hds] at h hhead
      have hd : isSpace d = true := h d List.mem_cons_self
      simp [hd] at hhead
  · exact fun h c hc => h c ((List.dropWhile_sublist _).mem hc)

/-- A plain text is its own first text. -/
theorem firstText_of_forall {cs : List Char} (h : ∀ c ∈ cs, isSpecial c = false) :
    firstText cs = trimSpace cs := by
  unfold firstText
  rw [List.splitOnP_eq_singleton h, List.map_singleton]
  by_cases hnil : trimSpace cs = []
  · simp [hnil]
  · simp [hnil]

/-- The first text is before the first special character or behind it. -/
theorem firstText_append {pre post : List Char} {c : Char}
    (hpre : ∀ c ∈ pre, isSpecial c = false) (hc : isSpecial c = true) :
    firstText (pre ++ c :: post) =
    if trimSpace pre = [] then firstText post else trimSpace pre := by
  unfold firstText
  rw [List.splitOnP_append_cons_of_forall_mem hpre c hc, List.map_cons]
  by_cases hnil : trimSpace pre = []
  · simp [hnil]
  · simp [hnil]

/-- Plain characters are not escaped. -/
theorem flatMap_escapeChar {cs : List Char} (h : ∀ c ∈ cs, isSpecial c = false) :
    cs.flatMap escapeChar = cs := by
  rw [List.flatMap_congr fun c hc => escapeChar_of_not_special (h c hc), List.flatMap_singleton']

/-- Legal plain characters stand for themselves. -/
theorem isTextChar_of_mem {cs : List Char} (hcs : ∀ c ∈ cs, isChar c = true ∧ c ≠ '\r')
    (h : ∀ c ∈ cs, isSpecial c = false) : ∀ c ∈ cs, isTextChar c = true :=
  fun c hc => isTextChar_of_not_special (hcs c hc).1 (hcs c hc).2 (h c hc)

/-- Trimming makes no reference. -/
theorem amp_notMem_trimSpace {cs : List Char} (h : ∀ c ∈ cs, isSpecial c = false) :
    '&' ∉ (String.ofList (trimSpace cs)).toList := by
  rw [String.toList_ofList]
  intro hmem
  have hmem' : '&' ∈ cs := (List.dropWhile_sublist _).mem ((List.rdropWhile_prefix _ _).mem hmem)
  exact absurd (h _ hmem') (by decide)

/-- The first text has no reference in it. -/
theorem amp_notMem_firstText (cs : List Char) : '&' ∉ firstText cs := by
  induction cs using specialInduction with
  | plain cs hplain =>
    rw [firstText_of_forall hplain]
    simpa using amp_notMem_trimSpace hplain
  | split pre c post hpre hc ih =>
    rw [firstText_append hpre hc]
    split
    next => exact ih
    next => simpa using amp_notMem_trimSpace hpre

section Untagged

variable {s s' : C.xml.State} {opened : List String} {rest : List Char} {fuel : ℕ}

/-- Text is taken when no value was found before. -/
theorem parseValueElement_text (n : ℕ) (currentVal : Option Value) {str : String}
    (hamp : '&' ∉ str.toList) (hread : C.xml.readEvent s = .ok (.text str, s')) :
    parseValueElement C (n + 1) s currentVal =
      parseValueElement C n s' (some (currentVal.getD (.string str))) := by
  cases currentVal with
  | none =>
    rw [parseValueElement, hread]
    simp only [C.xml.unescape_eq hamp, Option.getD_none]
  | some v =>
    rw [parseValueElement, hread]
    rfl

/-- References are skipped. -/
theorem parseValueElement_reference (n : ℕ) (currentVal : Option Value) {name : String}
    (hread : C.xml.readEvent s = .ok (.generalRef name, s')) :
    parseValueElement C (n + 1) s currentVal = parseValueElement C n s' currentVal := by
  rw [parseValueElement, hread]

/-- An escaped text directly in a value element is read as the first text between references that
is not blank. -/
theorem parseValueElement_untagged (cs : List Char)
    (hcs : ∀ c ∈ cs, isChar c = true ∧ c ≠ '\r') (currentVal : Option Value)
    (h : C.xml.At s ("value" :: opened) (cs.flatMap escapeChar ++ (endTag "value" ++ rest)) fuel) :
    ∃ s', parseValueElement C fuel s currentVal =
        .ok (currentVal.getD (.string (.ofList (firstText cs))), s') ∧
      C.xml.At s' opened rest fuel := by
  induction cs using specialInduction generalizing s fuel currentVal with
  | plain cs hplain =>
    rw [flatMap_escapeChar hplain] at h
    rw [firstText_of_forall hplain]
    cases hspace : cs.all isSpace with
    | true =>
      rw [trimSpace_eq_nil.mpr hspace]
      exact parseValueElement_endTag cs currentVal h hspace
    | false =>
      obtain ⟨fuel, s₁, rfl, hread, h₁⟩ := h.text (isTextChar_of_mem hcs hplain) hspace (.inl rfl)
      obtain ⟨s₂, hend, h₂⟩ := parseValueElement_endTag [] _ h₁ rfl
      refine ⟨s₂, ?_, h₂.mono (Nat.le_succ _)⟩
      rw [parseValueElement_text fuel currentVal (amp_notMem_trimSpace hplain) hread]
      exact hend
  | split pre c post hpre hc ih =>
    obtain ⟨name, hname, href⟩ := escapeChar_of_special hc
    have hpost : ∀ d ∈ post, isChar d = true ∧ d ≠ '\r' :=
      fun d hd => hcs d (List.mem_append_right _ (List.mem_cons_of_mem c hd))
    have hpre' := isTextChar_of_mem (fun d hd => hcs d (List.mem_append_left _ hd)) hpre
    rw [List.flatMap_append, flatMap_escapeChar hpre, List.flatMap_cons, href, List.append_assoc,
      List.append_assoc] at h
    rw [firstText_append hpre hc]
    cases hspace : pre.all isSpace with
    | true =>
      obtain ⟨fuel, s₁, rfl, hread, h₁⟩ := h.reference pre hspace hname
      obtain ⟨s₂, hparse, h₂⟩ := ih hpost currentVal h₁
      refine ⟨s₂, ?_, h₂.mono (Nat.le_succ _)⟩
      rw [parseValueElement_reference fuel currentVal hread, if_pos (trimSpace_eq_nil.mpr hspace)]
      exact hparse
    | false =>
      have hne : trimSpace pre ≠ [] := by
        rw [Ne, trimSpace_eq_nil, hspace]
        exact Bool.false_ne_true
      obtain ⟨fuel, s₁, rfl, htext, h₁⟩ := h.text hpre' hspace (.inr rfl)
      obtain ⟨fuel, s₂, rfl, hread, h₂⟩ := h₁.reference [] rfl hname
      obtain ⟨s₃, hparse, h₃⟩ := ih hpost _ h₂
      refine ⟨s₃, ?_, h₃.mono (by omega)⟩
      rw [parseValueElement_text _ currentVal (amp_notMem_trimSpace hpre) htext,
        parseValueElement_reference fuel _ hread, if_neg hne]
      exact hparse

/-- A string directly in a value element is read as its first text. -/
theorem reads_untagged {str : String} (h : IsLegal str) :
    Reads C (escapeXml str).toList (.string (.ofList (firstText str.toList))) := by
  intro s opened rest fuel hat
  rw [toList_escapeXml] at hat
  exact parseValueElement_untagged str.toList h none hat

end Untagged

/-! ### Method calls -/

/-- The text between the tags `params`: an element `param` for each value, with white space between
the tags. -/
inductive IsParams : List String → List Char → Prop
  | nil {space : List Char} (hspace : space.all isSpace = true) : IsParams [] space
  | cons {value : String} {values : List String} {space₁ space₂ space₃ text : List Char}
      (h₁ : space₁.all isSpace = true) (h₂ : space₂.all isSpace = true)
      (h₃ : space₃.all isSpace = true) (htext : IsParams values text) :
      IsParams (value :: values)
        (space₁ ++ (startTag "param" ++ (space₂ ++ (value.toList ++
          (space₃ ++ (endTag "param" ++ text))))))

/-- A document that calls the method `name` with the values whose texts are `values`. It may begin
with a declaration and may have white space between the tags. -/
inductive IsCall (name : String) (values : List String) (doc : String) : Prop
  | mk {prolog space₁ space₂ space₃ space₄ space₅ params : List Char}
      (hprolog : prolog = [] ∨ prolog = declaration) (hname : CharData name.toList)
      (h₁ : space₁.all isSpace = true) (h₂ : space₂.all isSpace = true)
      (h₃ : space₃.all isSpace = true) (h₄ : space₄.all isSpace = true)
      (h₅ : space₅.all isSpace = true) (hparams : IsParams values params)
      (hdoc : doc.toList = prolog ++ (space₁ ++ (startTag "methodCall" ++ (space₂ ++
        (element "methodName" name.toList ++ (space₃ ++ (startTag "params" ++ (params ++
          (endTag "params" ++ (space₄ ++ (endTag "methodCall" ++ space₅))))))))))) :
      IsCall name values doc

/-- The parameters of a request, one after the other. -/
def paramsXml : List String → String
  | [] => ""
  | value :: values => "<param>" ++ value ++ "</param>" ++ paramsXml values

/-- The parameters of a request are parameters of a call. -/
theorem isParams_paramsXml (values : List String) : IsParams values (paramsXml values).toList := by
  induction values with
  | nil => exact .nil rfl
  | cons value values ih =>
    have h : IsParams (value :: values) ([] ++ (startTag "param" ++ ([] ++ (value.toList ++
        ([] ++ (endTag "param" ++ (paramsXml values).toList)))))) := .cons rfl rfl rfl ih
    show IsParams _ ("<param>" ++ value ++ "</param>" ++ paramsXml values).toList
    rw [String.toList_append, String.toList_append, String.toList_append, List.append_assoc,
      List.append_assoc]
    exact h

/-- The request of the client has the elements of a method call and no white space. -/
theorem toList_callXmlrpc (name params : String) : (callXmlrpc name params).toList =
    declaration ++ (startTag "methodCall" ++ (element "methodName" name.toList ++
      (startTag "params" ++ (params.toList ++ (endTag "params" ++ endTag "methodCall"))))) := by
  have hbefore : "<?xml version=\"1.0\"?><methodCall><methodName>".toList =
      declaration ++ (startTag "methodCall" ++ startTag "methodName") := rfl
  have hbetween : "</methodName><params>".toList = endTag "methodName" ++ startTag "params" := rfl
  have hafter : "</params></methodCall>".toList = endTag "params" ++ endTag "methodCall" := rfl
  unfold callXmlrpc
  rw [String.toList_append, String.toList_append, String.toList_append, String.toList_append,
    hbefore, hbetween, hafter]
  simp only [element, List.append_assoc]

/-- The request of the client is a method call. -/
theorem isCall_callXmlrpc {name : String} (hname : CharData name.toList) (values : List String) :
    IsCall name values (callXmlrpc name (paramsXml values)) := by
  refine @IsCall.mk name values _ declaration [] [] [] [] [] (paramsXml values).toList (.inr rfl)
    hname rfl rfl rfl rfl rfl (isParams_paramsXml values) ?_
  rw [toList_callXmlrpc, List.append_nil]
  rfl

section Call

variable {s s' : C.xml.State} {opened : List String} {rest : List Char} {fuel : ℕ}

/-- A parameter is read. -/
theorem parseParamValue_eq {cs space₂ space₃ : List Char} {val : Value} (hval : Reads C cs val)
    (h₂ : space₂.all isSpace = true) (h₃ : space₃.all isSpace = true)
    (h : C.xml.At s ("param" :: opened)
      (space₂ ++ (element "value" cs ++ (space₃ ++ (endTag "param" ++ rest)))) fuel) :
    ∃ s', parseParamValue C fuel s none = .ok (val, s') ∧ C.xml.At s' opened rest fuel := by
  simp only [element, List.append_assoc] at h
  obtain ⟨fuel, s₁, rfl, hvalue, h₁⟩ := h.start space₂ h₂ (by decide)
  obtain ⟨s₂, hparse, h₂⟩ := hval h₁
  obtain ⟨fuel, s₃, rfl, hend, h₃⟩ := h₂.endTag space₃ h₃ (by decide)
  refine ⟨s₃, ?_, h₃.mono (by omega)⟩
  rw [parseParamValue, hvalue]
  show (parseValueElement C (fuel + 1) s₁ none >>= _) = _
  rw [hparse]
  show parseParamValue C (fuel + 1) s₂ (some val) = _
  rw [parseParamValue, hend]
  rfl

/-- The parameters are read one after the other. -/
theorem parseParams_eq {values : List (List Char × Value)}
    (hvalues : ∀ v ∈ values, Reads C v.1 v.2) {texts : List String}
    (htexts : texts.map String.toList = values.map fun v => element "value" v.1)
    {params : List Char} (hparams : IsParams texts params) (acc : List Value)
    (h : C.xml.At s ("params" :: opened) (params ++ (endTag "params" ++ rest)) fuel) :
    ∃ s', parseParams C fuel s acc = .ok (acc ++ values.map Prod.snd, s') ∧
      C.xml.At s' opened rest fuel := by
  induction hparams generalizing s fuel values acc with
  | @nil space hspace =>
    obtain rfl : values = [] := List.map_eq_nil_iff.mp htexts.symm
    obtain ⟨fuel, s₁, rfl, hend, h₁⟩ := h.endTag space hspace (by decide)
    refine ⟨s₁, ?_, h₁.mono (Nat.le_succ _)⟩
    rw [parseParams, hend, List.map_nil, List.append_nil]
    rfl
  | @cons value texts space₁ space₂ space₃ text hspace₁ hspace₂ hspace₃ _ ih =>
    cases values with
    | nil => cases htexts
    | cons v values =>
      rw [List.map_cons, List.map_cons, List.cons.injEq] at htexts
      rw [htexts.1] at h
      simp only [List.append_assoc] at h
      obtain ⟨fuel, s₁, rfl, hparam, h₁⟩ := h.start space₁ hspace₁ (by decide)
      obtain ⟨s₂, hvalue, h₂⟩ :=
        parseParamValue_eq (hvalues v List.mem_cons_self) hspace₂ hspace₃ h₁
      obtain ⟨s₃, hrest, h₃⟩ := ih (fun v' hv' => hvalues v' (List.mem_cons_of_mem v hv')) htexts.2
        (acc ++ [v.2]) h₂
      refine ⟨s₃, ?_, h₃.mono (Nat.le_succ _)⟩
      rw [parseParams, hparam]
      show (parseParamValue C fuel s₁ none >>= _) = _
      rw [hvalue]
      show parseParams C fuel s₂ (acc ++ [v.2]) = _
      rw [hrest, List.map_cons, List.append_assoc, List.singleton_append]

/-- The elements of a method call are read. -/
theorem parseDocument_eq {name : String} {values : List (List Char × Value)}
    (hvalues : ∀ v ∈ values, Reads C v.1 v.2) {texts : List String}
    (htexts : texts.map String.toList = values.map fun v => element "value" v.1)
    {space₁ space₂ space₃ space₄ space₅ params : List Char}
    (hname : C.xml.ReadsText "methodName" name.toList)
    (h₁ : space₁.all isSpace = true) (h₂ : space₂.all isSpace = true)
    (h₃ : space₃.all isSpace = true) (h₄ : space₄.all isSpace = true)
    (h₅ : space₅.all isSpace = true) (hparams : IsParams texts params)
    (h : C.xml.At s [] (space₁ ++ (startTag "methodCall" ++ (space₂ ++
      (element "methodName" name.toList ++ (space₃ ++ (startTag "params" ++ (params ++
        (endTag "params" ++ (space₄ ++ (endTag "methodCall" ++ space₅)))))))))) fuel) :
    parseDocument C fuel s none [] = .ok (some name, values.map Prod.snd) := by
  simp only [element, List.append_assoc] at h
  obtain ⟨fuel, s₁, rfl, hcall, hs₁⟩ := h.start space₁ h₁ (by decide)
  obtain ⟨fuel, s₂, rfl, hstart, hs₂⟩ := hs₁.start space₂ h₂ (by decide)
  obtain ⟨s₃, htext, hs₃⟩ := hname hs₂
  obtain ⟨fuel, s₄, rfl, hstartParams, hs₄⟩ := hs₃.start space₃ h₃ (by decide)
  obtain ⟨s₅, hparse, hs₅⟩ := parseParams_eq hvalues htexts hparams [] hs₄
  obtain ⟨fuel, s₆, rfl, hendCall, hs₆⟩ := hs₅.endTag space₄ h₄ (by decide)
  obtain ⟨fuel, s₇, rfl, heof⟩ := hs₆.eof h₅
  rw [parseDocument, hcall]
  show parseDocument C _ s₁ none [] = _
  rw [parseDocument, hstart]
  simp only [if_true, htext, String.ofList_toList]
  show parseDocument C _ s₃ (some name) [] = _
  rw [parseDocument, hstartParams]
  show (parseParams C _ s₄ [] >>= _) = _
  rw [hparse]
  show parseDocument C _ s₅ (some name) (values.map Prod.snd) = _
  rw [parseDocument, hendCall]
  show parseDocument C _ s₆ (some name) (values.map Prod.snd) = _
  rw [parseDocument, heof]

/-- A document is parsed when the name and the parameters are read. -/
theorem parse_of_toList {name : String} (hmethod : validateMethodName name = .ok ())
    {values : List (List Char × Value)} (hvalues : ∀ v ∈ values, Reads C v.1 v.2)
    {texts : List String}
    (htexts : texts.map String.toList = values.map fun v => element "value" v.1)
    {prolog space₁ space₂ space₃ space₄ space₅ params : List Char}
    (hprolog : prolog = [] ∨ prolog = declaration)
    (hname : C.xml.ReadsText "methodName" name.toList)
    (h₁ : space₁.all isSpace = true) (h₂ : space₂.all isSpace = true)
    (h₃ : space₃.all isSpace = true) (h₄ : space₄.all isSpace = true)
    (h₅ : space₅.all isSpace = true) (hparams : IsParams texts params) {doc : String}
    (hdoc : doc.toList = prolog ++ (space₁ ++ (startTag "methodCall" ++ (space₂ ++
      (element "methodName" name.toList ++ (space₃ ++ (startTag "params" ++ (params ++
        (endTag "params" ++ (space₄ ++ (endTag "methodCall" ++ space₅))))))))))) :
    MethodCall.parse C doc = .ok ⟨name, values.map Prod.snd⟩ := by
  have h := at_fromStr (R := C.xml) doc
  unfold MethodCall.parse
  generalize doc.toList.length + 1 = fuel at h ⊢
  have hdocument :
      parseDocument C fuel (C.xml.fromStr doc) none [] = .ok (some name, values.map Prod.snd) := by
    rw [hdoc] at h
    rcases hprolog with rfl | rfl
    · exact parseDocument_eq hvalues htexts hname h₁ h₂ h₃ h₄ h₅ hparams h
    · obtain ⟨fuel, s₁, rfl, hread, hs₁⟩ := h.declaration
      rw [parseDocument, hread]
      exact parseDocument_eq hvalues htexts hname h₁ h₂ h₃ h₄ h₅ hparams hs₁
  rw [hdocument]
  rw [Except.bind_eq_ok]
  refine ⟨_, rfl, ?_⟩
  simp only [hmethod]

/-- A method call is parsed when its parameters are read. -/
theorem parse_eq {name : String} (hmethod : validateMethodName name = .ok ())
    {values : List (List Char × Value)} (hvalues : ∀ v ∈ values, Reads C v.1 v.2)
    {texts : List String}
    (htexts : texts.map String.toList = values.map fun v => element "value" v.1)
    {doc : String} (hdoc : IsCall name texts doc) :
    MethodCall.parse C doc = .ok ⟨name, values.map Prod.snd⟩ := by
  obtain ⟨hprolog, hname, h₁, h₂, h₃, h₄, h₅, hparams, hdoc⟩ := hdoc
  have htext : C.xml.ReadsText "methodName" name.toList := readsText_of_charData hname (by decide)
  exact parse_of_toList hmethod hvalues htexts hprolog htext h₁ h₂ h₃ h₄ h₅ hparams hdoc

end Call

/-- A method call with serialized parameters is parsed into the received values. -/
theorem parse_serializeValue {name doc : String} {values : List Value}
    (hmethod : validateMethodName name = .ok ()) (hvalues : ∀ v ∈ values, v.IsWire)
    (hdoc : IsCall name (values.map (serializeValue C)) doc) :
    MethodCall.parse C doc = .ok ⟨name, values.map received⟩ := by
  have hreads : ∀ v ∈ values.map fun v => (content C v, received v), Reads C v.1 v.2 := by
    intro v hv
    obtain ⟨value, hvalue, rfl⟩ := List.mem_map.mp hv
    exact reads_content (hvalues value hvalue)
  have htexts : (values.map (serializeValue C)).map String.toList =
      (values.map fun v => (content C v, received v)).map fun v => element "value" v.1 := by
    rw [List.map_map, List.map_map]
    exact List.map_congr_left fun v _ => toList_serializeValue v
  rw [parse_eq hmethod hreads htexts hdoc, List.map_map]
  rfl

/-- A string parameter, written without the element `string`. -/
def untaggedValue (s : String) : String := "<value>" ++ escapeXml s ++ "</value>"

/-- A method call with an untagged string is parsed into what is read for the string. -/
theorem parse_untaggedValue {name doc str : String} {val : Value}
    (hmethod : validateMethodName name = .ok ()) (hval : Reads C (escapeXml str).toList val)
    (hdoc : IsCall name [untaggedValue str] doc) :
    MethodCall.parse C doc = .ok ⟨name, [val]⟩ := by
  have htexts : [untaggedValue str].map String.toList =
      [((escapeXml str).toList, val)].map fun v => element "value" v.1 := by
    show [("<value>" ++ escapeXml str ++ "</value>").toList] = _
    rw [String.toList_append, String.toList_append, List.append_assoc]
    rfl
  have hreads : ∀ v ∈ [((escapeXml str).toList, val)], Reads C v.1 v.2 := by
    intro v hv
    obtain rfl := List.mem_singleton.mp hv
    exact hval
  exact parse_eq hmethod hreads htexts hdoc

/-- Method calls come back with the values they were written with if and only if no string,
date-time or member name has a character to escape, and a string comes back the same from both of
its forms if and only if it has none. -/
theorem roundTrips_iff {name : String} (hmethod : validateMethodName name = .ok ()) :
    (∀ (values : List Value) (doc : String), (∀ v ∈ values, v.IsWire) →
        IsCall name (values.map (serializeValue C)) doc →
        (MethodCall.parse C doc = .ok ⟨name, values⟩ ↔
          ∀ v ∈ values, ∀ s ∈ v.texts, IsPlain s)) ∧
      ∀ s tagged untagged : String, IsLegal s → trimSpace s.toList = s.toList →
        IsCall name [serializeValue C (.string s)] tagged →
        IsCall name [untaggedValue s] untagged →
        ((∃ v, MethodCall.parse C tagged = .ok ⟨name, [v]⟩ ∧
            MethodCall.parse C untagged = .ok ⟨name, [v]⟩) ↔
          IsPlain s) := by
  constructor
  · intro values doc hvalues hdoc
    rw [parse_serializeValue hmethod hvalues hdoc, Except.ok.injEq, MethodCall.mk.injEq]
    have hsame : values.map received = values ↔ ∀ v ∈ values, received v = v := by
      conv_lhs => rw [← List.map_id values, List.map_map]
      exact List.map_inj_left
    rw [hsame, and_iff_right rfl]
    exact forall₂_congr fun v hv => received_eq_self (hvalues v hv)
  · intro s tagged untagged hs htrim htagged huntagged
    have hwire : ∀ v ∈ [Value.string s], v.IsWire := by
      intro v hv
      obtain rfl := List.mem_singleton.mp hv
      exact .string hs
    rw [parse_serializeValue hmethod hwire htagged,
      parse_untaggedValue hmethod (reads_untagged hs) huntagged]
    have htext : received (.string s) = .string (.ofList (firstText s.toList)) ↔ IsPlain s := by
      constructor
      · intro h
        by_contra hplain
        -- Only the tagged form keeps references.
        have hamp := amp_mem_escapeXml hplain
        rw [Value.string.inj h, String.toList_ofList] at hamp
        exact amp_notMem_firstText _ hamp
      · intro hplain
        show Value.string (escapeXml s) = _
        rw [escapeXml_of_isPlain hplain, firstText_of_forall hplain, htrim, String.ofList_toList]
    rw [← htext]
    constructor
    · rintro ⟨v, hv, hv'⟩
      have hcalls := Except.ok.inj (hv.trans hv'.symm)
      exact (List.cons.inj (MethodCall.mk.inj hcalls).2).1
    · intro h
      refine ⟨received (.string s), rfl, ?_⟩
      rw [← h]

/-- Standard base64 and a reader whose state is its position. Doubles have no text. -/
def plainCodecs : Codecs where
  xml := Xml.lexer
  base64 := Base64.standard
  displayF64 _ := ""
  parseF64 _ := .error "invalid float literal"

/-- A struct with an array, a date-time and a text over two lines comes back, and so does a string
from both of its forms. -/
theorem roundTrips_struct :
    MethodCall.parse plainCodecs (callXmlrpc "demo.echo" (paramsXml
        ([Value.struct [("at", .dateTime "20260101T00:00:00"),
            ("items", .array [.int (-5), .base64 [1, 2], .boolean true, .nil]),
            ("text", .string " two\nlines ")]].map (serializeValue plainCodecs)))) =
      .ok ⟨"demo.echo", [.struct [("at", .dateTime "20260101T00:00:00"),
        ("items", .array [.int (-5), .base64 [1, 2], .boolean true, .nil]),
        ("text", .string " two\nlines ")]]⟩ ∧
      ∃ v, MethodCall.parse plainCodecs (callXmlrpc "demo.echo"
            (paramsXml [serializeValue plainCodecs (.string "a b")])) = .ok ⟨"demo.echo", [v]⟩ ∧
          MethodCall.parse plainCodecs (callXmlrpc "demo.echo"
            (paramsXml [untaggedValue "a b"])) = .ok ⟨"demo.echo", [v]⟩ := by
  have hmethod : validateMethodName "demo.echo" = .ok () := rfl
  have hname : CharData "demo.echo".toList := .of_forall (List.all_iff_forall_prop.mp (by decide))
  have hitems : Value.IsWire (.array [.int (-5), .base64 [1, 2], .boolean true, .nil]) := by
    refine .array fun item hitem => ?_
    simp only [List.mem_cons, List.not_mem_nil, or_false] at hitem
    rcases hitem with rfl | rfl | rfl | rfl
    · exact .int _
    · exact .base64 _
    · exact .boolean _
    · exact .nil
  have hstruct : Value.IsWire (.struct [("at", .dateTime "20260101T00:00:00"),
      ("items", .array [.int (-5), .base64 [1, 2], .boolean true, .nil]),
      ("text", .string " two\nlines ")]) := by
    refine .struct ?_ ?_ fun m hm => ?_
    · unfold BTreeMap.IsSorted
      decide
    · decide
    · simp only [List.mem_cons, List.not_mem_nil, or_false] at hm
      rcases hm with rfl | rfl | rfl
      · exact .dateTime (by decide)
      · exact hitems
      · exact .string (by decide)
  obtain ⟨hvalues, hforms⟩ := roundTrips_iff (C := plainCodecs) hmethod
  constructor
  · refine (hvalues _ _ ?_ (isCall_callXmlrpc hname _)).mpr ?_
    · intro v hv
      obtain rfl := List.mem_singleton.mp hv
      exact hstruct
    · intro v hv
      obtain rfl := List.mem_singleton.mp hv
      show ∀ s ∈ ["at", "20260101T00:00:00", "items", "text", " two\nlines "], IsPlain s
      decide
  · refine (hforms "a b" _ _ ?_ (by decide) (isCall_callXmlrpc hname _)
      (isCall_callXmlrpc hname _)).mpr ?_
    · decide
    · decide

/-- A reference comes back as it was written, and an untagged string ends at it. -/
theorem parse_reference :
    MethodCall.parse plainCodecs (callXmlrpc "demo.echo"
        (paramsXml [serializeValue plainCodecs (.string "a&b")])) =
      .ok ⟨"demo.echo", [.string "a&amp;b"]⟩ ∧
      MethodCall.parse plainCodecs (callXmlrpc "demo.echo"
        (paramsXml [serializeValue plainCodecs (.string "a&b")])) ≠
      .ok ⟨"demo.echo", [.string "a&b"]⟩ ∧
      MethodCall.parse plainCodecs (callXmlrpc "demo.echo" (paramsXml [untaggedValue "a&b"])) =
      .ok ⟨"demo.echo", [.string "a"]⟩ := by
  have hmethod : validateMethodName "demo.echo" = .ok () := rfl
  have hname : CharData "demo.echo".toList := .of_forall (List.all_iff_forall_prop.mp (by decide))
  have hlegal : IsLegal "a&b" := by decide
  have hwire : ∀ v ∈ [Value.string "a&b"], v.IsWire := by
    intro v hv
    obtain rfl := List.mem_singleton.mp hv
    exact .string hlegal
  have htagged := parse_serializeValue (C := plainCodecs) hmethod hwire (isCall_callXmlrpc hname _)
  have huntagged := parse_untaggedValue (C := plainCodecs) hmethod (reads_untagged hlegal)
    (isCall_callXmlrpc hname _)
  have hreceived : [Value.string "a&b"].map received = [.string "a&amp;b"] := rfl
  rw [hreceived] at htagged
  refine ⟨htagged, fun h => ?_, huntagged⟩
  have hcalls := Except.ok.inj (htagged.symm.trans h)
  have hstring := Value.string.inj (List.cons.inj (MethodCall.mk.inj hcalls).2).1
  exact absurd hstring (by decide)

end XmlRpc

end Rsupervisord
