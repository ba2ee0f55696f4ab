import Rsupervisord.Compat.XmlRpc.RoundTrip
import Rsupervisord.Support.XmlTokens

/-!
# The tokens of a method call

A method call that the client sends is a list of tokens, and so is each of its values. All values
are read back, with their texts escaped: also those whose texts have characters that no document may
contain.

## Main definitions

* `callTokens`: the tokens of a method call.
* `Value.readBack`: the value that is read back from a serialized value.

## Main results

* `text_callTokens`: the text of the tokens is the document that the client sends.
* `reads_readBack`: a complete value is read back.
-/

namespace Rsupervisord

namespace XmlRpc

open Xml XmlReader

variable (C : Codecs)

/-! ### Tokens -/

/-- Markup on the same line. -/
def tok (m : Markup) : Token := ⟨[], m⟩

/-- Markup on a line of its own. -/
def line (m : Markup) : Token := ⟨['\n'], m⟩

mutual

/-- The tokens between the tags of a value. -/
def Value.tokens : Value → List Token
  | .int i => [tok (.leaf "int" (toString i.toInt).toList)]
  | .boolean b => [tok (.leaf "boolean" (if b then ['1'] else ['0']))]
  | .string s => [tok (.leaf "string" (escapeXml s).toList)]
  | .double d => [tok (.leaf "double" (C.displayF64 d).toList)]
  | .dateTime dt => [tok (.leaf "dateTime.iso8601" (escapeXml dt).toList)]
  | .base64 b => [tok (.leaf "base64" (C.base64.encode b).toList)]
  | .array items =>
      tok (.start "array") :: tok (.start "data") ::
        (Value.itemTokens items ++ [line (.close "data"), tok (.close "array")])
  | .struct members =>
      tok (.start "struct") :: (Value.memberTokens members ++ [line (.close "struct")])
  | .nil => [tok (.empty "nil")]

def Value.itemTokens : List Value → List Token
  | [] => []
  | item :: items =>
      line (.start "value") :: (item.tokens ++ tok (.close "value") :: Value.itemTokens items)

def Value.memberTokens : List (String × Value) → List Token
  | [] => []
  | m :: members => Value.memberToken m ++ Value.memberTokens members

def Value.memberToken : String × Value → List Token
  | (k, v) =>
      line (.start "member") :: line (.leaf "name" (escapeXml k).toList) :: line (.start "value") ::
        (v.tokens ++ [tok (.close "value"), line (.close "member")])

end

def paramTokens : List Value → List Token
  | [] => []
  | v :: values =>
      tok (.start "param") :: tok (.start "value") ::
        (v.tokens C ++ tok (.close "value") :: tok (.close "param") :: paramTokens values)

/-- The tokens of a method call. -/
def callTokens (name : String) (values : List Value) : List Token :=
  tok .declaration :: tok (.start "methodCall") :: tok (.leaf "methodName" name.toList) ::
    tok (.start "params") :: (paramTokens C values ++
      [tok (.close "params"), tok (.close "methodCall")])

/-! ### The values that are read -/

mutual

/-- The value that is read back from a serialized value: texts stay escaped, and doubles are those
of their text. -/
def Value.readBack : Value → Value
  | .string s => .string (escapeXml s)
  | .double d => .double ((C.parseF64 (Text.trim (C.displayF64 d))).toOption.getD d)
  | .dateTime dt => .dateTime (escapeXml dt)
  | .array items => .array (Value.readBackItems items)
  | .struct members =>
      .struct ((Value.readBackMembers members).foldl (fun map m => BTreeMap.insert m.1 m.2 map) [])
  | v => v

def Value.readBackItems : List Value → List Value
  | [] => []
  | item :: items => item.readBack :: Value.readBackItems items

def Value.readBackMembers : List (String × Value) → List (String × Value)
  | [] => []
  | m :: members => Value.readBackMember m :: Value.readBackMembers members

def Value.readBackMember : String × Value → String × Value
  | (k, v) => (escapeXml k, v.readBack)

end

/-- A value whose structs have their members in order, as all values have. -/
inductive Value.IsOrdered : Value → Prop
  | int (i : Int32) : IsOrdered (.int i)
  | boolean (b : Bool) : IsOrdered (.boolean b)
  | string (s : String) : IsOrdered (.string s)
  | double (d : UInt64) : IsOrdered (.double d)
  | dateTime (dt : String) : IsOrdered (.dateTime dt)
  | base64 (b : List UInt8) : IsOrdered (.base64 b)
  | array {items : List Value} (hitems : ∀ item ∈ items, IsOrdered item) : IsOrdered (.array items)
  | struct {members : List (String × Value)} (hsorted : BTreeMap.IsSorted members)
      (hmembers : ∀ m ∈ members, IsOrdered m.2) : IsOrdered (.struct members)
  | nil : IsOrdered .nil

/-- The text of a double is raw text and is read as a double. -/
def Codecs.ReadsDoubles (C : Codecs) : Prop :=
  ∀ d, RawText (C.displayF64 d).toList ∧ ∃ d', C.parseF64 (Text.trim (C.displayF64 d)) = .ok d'

variable {C}

@[simp]
theorem readBackItems_eq (items : List Value) :
    Value.readBackItems C items = items.map (Value.readBack C) := by
  induction items with
  | nil => rfl
  | cons item items ih => rw [Value.readBackItems, ih, List.map_cons]

@[simp]
theorem readBackMembers_eq (members : List (String × Value)) :
    Value.readBackMembers C members = members.map fun m => (escapeXml m.1, m.2.readBack C) := by
  induction members with
  | nil => rfl
  | cons m members ih =>
    obtain ⟨k, v⟩ := m
    rw [Value.readBackMembers, ih, List.map_cons]
    rfl

/-- An escaped text is raw text. -/
theorem rawText_escapeXml (s : String) : RawText (escapeXml s).toList := by
  rw [toList_escapeXml]
  induction s.toList with
  | nil => exact .nil
  | cons c cs ih =>
    rw [List.flatMap_cons]
    cases hspecial : isSpecial c with
    | false =>
      rw [escapeChar_of_not_special hspecial]
      refine .char ?_ ?_ ih
      · rintro rfl
        cases hspecial
      · rintro rfl
        cases hspecial
    | true =>
      obtain ⟨name, hname, heq⟩ := escapeChar_of_special hspecial
      rw [heq]
      exact .reference hname ih

/-! ### The text of the tokens -/

theorem text_itemTokens {items : List Value}
    (hitems : ∀ item ∈ items, text (item.tokens C) = content C item) (rest : List Char) :
    text (Value.itemTokens C items) ++ '\n' :: rest =
    '\n' :: ((serializeItems C items).toList ++ rest) := by
  induction items with
  | nil => rfl
  | cons item items ih =>
    have htext : (serializeItems C (item :: items)).toList =
        element "value" (content C item) ++ '\n' :: (serializeItems C items).toList := by
      show (serializeValue C item ++ "\n" ++ serializeItems C items).toList = _
      rw [String.toList_append, String.toList_append, toList_serializeValue, List.append_assoc]
      rfl
    have htail := ih fun item' hitem' => hitems item' (List.mem_cons_of_mem _ hitem')
    rw [Value.itemTokens, text_cons, text_append, text_cons, hitems item List.mem_cons_self, htext]
    simp only [Token.chars, line, tok, Markup.chars, element, List.append_assoc, List.nil_append,
      List.cons_append, htail]

theorem text_memberToken {k : String} {v : Value} (hv : text (v.tokens C) = content C v) :
    text (Value.memberToken C (k, v)) ++ ['\n'] = '\n' :: (serializeMember C (k, v)).toList := by
  rw [Value.memberToken, toList_serializeMember]
  simp only [text_cons, text_append, text_nil, hv, Token.chars, line, tok, Markup.chars, element,
    List.append_assoc, List.nil_append, List.cons_append]

theorem text_memberTokens {members : List (String × Value)}
    (hmembers : ∀ m ∈ members, text (m.2.tokens C) = content C m.2) (rest : List Char) :
    text (Value.memberTokens C members) ++ '\n' :: rest =
      '\n' :: ((serializeMembers C members).toList ++ rest) := by
  induction members with
  | nil => rfl
  | cons m members ih =>
    obtain ⟨k, v⟩ := m
    have htext : (serializeMembers C ((k, v) :: members)).toList =
        (serializeMember C (k, v)).toList ++ (serializeMembers C members).toList := by
      show (serializeMember C (k, v) ++ serializeMembers C members).toList = _
      rw [String.toList_append]
    have htail := ih fun m hm => hmembers m (List.mem_cons_of_mem _ hm)
    have hhead : text (Value.memberToken C (k, v)) ++ ['\n'] = _ :=
      text_memberToken (hmembers (k, v) List.mem_cons_self)
    rw [Value.memberTokens, text_append, List.append_assoc, htail, htext, List.append_assoc]
    calc text (Value.memberToken C (k, v)) ++ '\n' :: ((serializeMembers C members).toList ++ rest)
        = (text (Value.memberToken C (k, v)) ++ ['\n']) ++
        ((serializeMembers C members).toList ++ rest) := by
          simp
      _ = _ := by rw [hhead, List.cons_append]

/-- The tokens of a value are its content. -/
theorem text_tokens {v : Value} (hv : v.IsOrdered) : text (v.tokens C) = content C v := by
  induction hv with
  | @array items _ ih =>
    have hitems := text_itemTokens ih (endTag "data" ++ endTag "array")
    simp only [Value.tokens, content, text_cons, text_append, text_nil, Token.chars, line, tok,
      Markup.chars, element, List.append_assoc, List.nil_append, List.cons_append,
      List.append_nil] at hitems ⊢
    rw [hitems]
  | @struct members _ _ ih =>
    have hmembers := text_memberTokens ih (endTag "struct")
    simp only [Value.tokens, content, text_cons, text_append, text_nil, Token.chars, line, tok,
      Markup.chars, element, List.nil_append, List.cons_append, List.append_nil] at hmembers ⊢
    rw [hmembers]
  | int _ | boolean _ | string _ | double _ | dateTime _ | base64 _ | nil =>
    simp [Value.tokens, content, tok, Token.chars, Markup.chars]

theorem text_paramTokens {values : List Value} (hvalues : ∀ v ∈ values, v.IsOrdered) :
    text (paramTokens C values) = (paramsXml (values.map (serializeValue C))).toList := by
  induction values with
  | nil => rfl
  | cons v values ih =>
    have htail := ih fun v' hv' => hvalues v' (List.mem_cons_of_mem _ hv')
    have hbefore : "<param>".toList = startTag "param" := rfl
    have hafter : "</param>".toList = endTag "param" := rfl
    rw [List.map_cons, paramsXml, String.toList_append, String.toList_append, String.toList_append,
      toList_serializeValue, hbefore, hafter, ← htail, paramTokens, text_cons, text_cons,
      text_append,
      text_tokens (hvalues v List.mem_cons_self)]
    simp [Token.chars, tok, Markup.chars, element]

/-- The tokens of a method call are the document that the client sends. -/
theorem text_callTokens {name : String} {values : List Value}
    (hvalues : ∀ v ∈ values, v.IsOrdered) : text (callTokens C name values) =
      (callXmlrpc name (paramsXml (values.map (serializeValue C)))).toList := by
  rw [toList_callXmlrpc, ← text_paramTokens hvalues]
  simp [callTokens, Token.chars, tok, Markup.chars, element]

/-! ### Complete values -/

/-- The text of a double is a double. -/
theorem isScalar_double (hR : C.xml.Cuts) (hd : C.ReadsDoubles) (d : UInt64) :
    IsScalar C "double" (C.displayF64 d).toList (Value.readBack C (.double d)) := by
  obtain ⟨htext, d', hparse⟩ := hd d
  have hname : isName "double" = true := by decide
  refine ⟨hname, hR.readsText htext hname, _, rfl, ?_⟩
  simp [Value.readBack, String.ofList_toList, hparse, Except.toOption, Except.map]

/-- A complete value is read back. -/
theorem reads_readBack (hR : C.xml.Cuts) (hd : C.ReadsDoubles) {v : Value} (hv : v.IsOrdered) :
    Reads C (content C v) (v.readBack C) := by
  induction hv with
  | int i => exact reads_scalar (isScalar_int i)
  | boolean b => exact reads_scalar (isScalar_boolean b)
  | string s =>
    exact reads_scalar (isScalar_string (hR.readsText (rawText_escapeXml s) (by decide)))
  | dateTime dt =>
    exact reads_scalar (isScalar_dateTime (hR.readsText (rawText_escapeXml dt) (by decide)))
  | base64 b => exact reads_scalar (isScalar_base64 b)
  | double d => exact reads_scalar (isScalar_double hR hd d)
  | @array items _ ih =>
    rw [Value.readBack, readBackItems_eq]
    exact reads_array ih
  | @struct members _ _ ih =>
    rw [Value.readBack, readBackMembers_eq]
    exact reads_struct (fun m _ => hR.readsText (rawText_escapeXml m.1) (by decide)) ih
  | nil => exact reads_nil

end XmlRpc

end Rsupervisord
