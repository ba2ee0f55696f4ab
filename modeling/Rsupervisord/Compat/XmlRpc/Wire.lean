import Rsupervisord.Support.Base64
import Rsupervisord.Support.BTreeMap
import Rsupervisord.Support.Text
import Rsupervisord.Support.Xml
import Mathlib.Data.String.Basic

/-!
# XML-RPC wire format

Values are written as XML and method calls are parsed from XML with a pull reader. Every parse
function is a loop over the events of the reader. The loops take fuel, which a call that is read
to its end does not use up.
-/

namespace Rsupervisord

namespace XmlRpc

/-- The fault codes of a call that cannot be parsed. -/
inductive FaultCode where
  | unknownMethod
  | incorrectParameters
  deriving DecidableEq, Repr

/-- The number of a fault code. -/
def FaultCode.code : FaultCode → Int32
  | .unknownMethod => 1
  | .incorrectParameters => 2

/-- The name of a fault code. -/
def FaultCode.name : FaultCode → String
  | .unknownMethod => "UNKNOWN_METHOD"
  | .incorrectParameters => "INCORRECT_PARAMETERS"

/-- A fault response. -/
structure Fault where
  code : Int32
  message : String
  deriving DecidableEq, Repr

/-- A fault with the code and a message. -/
def Fault.new (code : FaultCode) (message : String) : Fault := ⟨code.code, message⟩

/-- The method does not exist or must not be called. -/
def Fault.unknownMethod (name : String) : Fault :=
  .new .unknownMethod (FaultCode.unknownMethod.name ++ ": method '" ++ name ++ "' not found")

/-- The request cannot be read. -/
def Fault.incorrectParams (detail : String) : Fault :=
  .new .incorrectParameters (FaultCode.incorrectParameters.name ++ ": " ++ detail)

/-- A dynamically typed value. The members of a struct are sorted by their names. -/
inductive Value where
  | int (i : Int32)
  | boolean (b : Bool)
  | string (s : String)
  /-- A double, by the bits of its representation. -/
  | double (bits : UInt64)
  | dateTime (dt : String)
  | base64 (b : List UInt8)
  | array (items : List Value)
  | struct (members : List (String × Value))
  | nil
  deriving Repr

/-- A parsed method call. -/
structure MethodCall where
  name : String
  params : List Value

/-- The libraries that the wire format relies on. -/
structure Codecs where
  xml : XmlReader
  base64 : Base64Engine
  displayF64 : UInt64 → String
  parseF64 : String → Except String UInt64

/-! ### Serialization -/

/-- Replace a character that has a meaning in XML by a reference. -/
def escapeChar : Char → List Char
  | '<' => "&lt;".toList
  | '>' => "&gt;".toList
  | '&' => "&amp;".toList
  | '\'' => "&apos;".toList
  | '"' => "&quot;".toList
  | c => [c]

/-- `escape_xml`. -/
def escapeXml (s : String) : String := .ofList (s.toList.flatMap escapeChar)

section Serialize

variable (C : Codecs)

mutual

/-- The text that a value adds to the output. -/
def serializeValue : Value → String
  | .int i => "<value><int>" ++ toString i.toInt ++ "</int></value>"
  | .boolean b => "<value><boolean>" ++ (if b then "1" else "0") ++ "</boolean></value>"
  | .string s => "<value><string>" ++ escapeXml s ++ "</string></value>"
  | .double d => "<value><double>" ++ C.displayF64 d ++ "</double></value>"
  | .dateTime dt =>
      "<value><dateTime.iso8601>" ++ escapeXml dt ++ "</dateTime.iso8601></value>"
  | .base64 b => "<value><base64>" ++ C.base64.encode b ++ "</base64></value>"
  | .array items => "<value><array><data>\n" ++ serializeItems items ++ "</data></array></value>"
  | .struct members => "<value><struct>\n" ++ serializeMembers members ++ "</struct></value>"
  | .nil => "<value><nil/></value>"

/-- The values of an array, a line each. -/
def serializeItems : List Value → String
  | [] => ""
  | item :: items => serializeValue item ++ "\n" ++ serializeItems items

/-- The members of a struct. -/
def serializeMembers : List (String × Value) → String
  | [] => ""
  | m :: members => serializeMember m ++ serializeMembers members

/-- A member of a struct. -/
def serializeMember : String × Value → String
  | (k, v) =>
      "<member>\n<name>" ++ escapeXml k ++ "</name>\n" ++ serializeValue v ++ "\n</member>\n"

end

/-- The response for a result or a fault. -/
def serializeResponse : Except Fault Value → String
  | .ok val =>
      "<?xml version=\"1.0\"?>\n<methodResponse>\n<params>\n<param>\n" ++ serializeValue C val ++
        "\n</param>\n</params>\n</methodResponse>\n"
  | .error fault =>
      "<?xml version=\"1.0\"?>\n<methodResponse>\n<fault>\n<value>\n<struct>\n" ++
        "<member>\n<name>faultCode</name>\n<value><int>" ++ toString fault.code.toInt ++
        "</int></value>\n</member>\n" ++
        "<member>\n<name>faultString</name>\n<value><string>" ++ escapeXml fault.message ++
        "</string></value>\n</member>\n" ++
        "</struct>\n</value>\n</fault>\n</methodResponse>\n"

end Serialize

/-- The request that the client sends for a method call. -/
def callXmlrpc (methodName paramsXml : String) : String :=
  "<?xml version=\"1.0\"?><methodCall><methodName>" ++ methodName ++ "</methodName><params>" ++
    paramsXml ++ "</params></methodCall>"

/-! ### Parsing -/

/-- Why a parse fails: the caller gets a fault, or the model ran out of fuel. -/
inductive ParseError where
  | fault (f : Fault)
  | outOfFuel
  deriving DecidableEq, Repr

/-- The fault for a request that cannot be read. -/
def incorrectParams (detail : String) : ParseError := .fault (.incorrectParams detail)

/-- The name has two segments that are not empty and do not begin with an underscore. -/
def validateMethodName (name : String) : Except Fault Unit :=
  if name.toList.head? = some '_' ∨ ['.', '.'] <:+: name.toList then .error (.unknownMethod name)
  else
    match Text.split '.' name with
    | [first, second] =>
        if first = "" ∨ second = "" then .error (.unknownMethod name)
        else if first.toList.head? = some '_' ∨ second.toList.head? = some '_' then
          .error (.unknownMethod name)
        else .ok ()
    | _ => .error (.unknownMethod name)

section Parse

variable (C : Codecs)

/-- How the text of an element with the name `tag` is read, when the element holds nothing but
text. -/
def decodeScalar (tag : String) : Option (String → Except String Value) :=
  match tag with
  | "i4" | "int" =>
      some fun txt =>
      (Text.parseSigned (-2 ^ 31) (2 ^ 31 - 1) (Text.trim txt)).map (.int <| .ofInt ·)
  | "boolean" =>
      some fun txt =>
        match Text.trim txt with
        | "1" | "true" => .ok (.boolean true)
        | "0" | "false" => .ok (.boolean false)
        | _ => .error "Invalid boolean value"
  | "string" => some fun txt => .ok (.string txt)
  | "double" => some fun txt => (C.parseF64 (Text.trim txt)).map .double
  | "dateTime.iso8601" => some fun txt => .ok (.dateTime txt)
  | "base64" =>
      some fun txt =>
        (C.base64.decode (.ofList (txt.toList.filter (!Text.isWhitespace ·)))).map .base64
  | _ => none

/-- Read the text of the element that was opened last. -/
def readScalar (reader : C.xml.State) (tag : String) (decode : String → Except String Value) :
    Except ParseError (Value × C.xml.State) :=
  match C.xml.readText reader tag with
  | .error e => .error (incorrectParams e)
  | .ok (txt, reader) =>
      match decode txt with
      | .error e => .error (incorrectParams e)
      | .ok val => .ok (val, reader)

mutual

/-- `parse_value_element`: the events up to the end of a value. -/
def parseValueElement :
    ℕ → C.xml.State → Option Value → Except ParseError (Value × C.xml.State)
  | 0, _, _ => .error .outOfFuel
  | fuel + 1, reader, currentVal =>
      match C.xml.readEvent reader with
      | .error e => .error (incorrectParams e)
      | .ok (.start tag, reader) =>
          match decodeScalar C tag with
          | some decode => do
              let (val, reader) ← readScalar C reader tag decode
              parseValueElement fuel reader (some val)
          | none =>
              if tag = "struct" then do
                let (s, reader) ← parseStruct fuel reader []
                parseValueElement fuel reader (some (.struct s))
              else if tag = "array" then do
                let (a, reader) ← parseArray fuel reader []
                parseValueElement fuel reader (some (.array a))
              else if tag = "nil" then parseValueElement fuel reader (some .nil)
              else parseValueElement fuel reader currentVal
      | .ok (.empty tag, reader) =>
          if tag = "nil" then parseValueElement fuel reader (some .nil)
          else if tag = "string" then parseValueElement fuel reader (some (.string ""))
          else parseValueElement fuel reader currentVal
      | .ok (.text content, reader) =>
          -- Text directly in the element is a string, unless a value was found before.
          match currentVal with
          | some _ => parseValueElement fuel reader currentVal
          | none =>
              match C.xml.unescape content with
              | .error e => .error (incorrectParams e)
              | .ok txt => parseValueElement fuel reader (some (.string txt))
      | .ok (.endTag tag, reader) =>
          if tag = "value" then .ok (currentVal.getD (.string ""), reader)
          else parseValueElement fuel reader currentVal
      | .ok (.eof, reader) => .ok (currentVal.getD (.string ""), reader)
      | .ok (_, reader) => parseValueElement fuel reader currentVal

/-- `parse_struct`: the events up to the end of a struct, with the members so far. -/
def parseStruct :
    ℕ → C.xml.State → List (String × Value) →
      Except ParseError (List (String × Value) × C.xml.State)
  | 0, _, _ => .error .outOfFuel
  | fuel + 1, reader, map =>
      match C.xml.readEvent reader with
      | .error e => .error (incorrectParams e)
      | .ok (.start tag, reader) =>
          if tag = "member" then do
            let ((k, v), reader) ← parseMember fuel reader none none
            parseStruct fuel reader (BTreeMap.insert k v map)
          else parseStruct fuel reader map
      | .ok (.endTag tag, reader) =>
          if tag = "struct" then .ok (map, reader) else parseStruct fuel reader map
      | .ok (.eof, reader) => .ok (map, reader)
      | .ok (_, reader) => parseStruct fuel reader map

/-- `parse_member`: the events up to the end of a member, with its name and value so far. -/
def parseMember :
    ℕ → C.xml.State → Option String → Option Value →
      Except ParseError ((String × Value) × C.xml.State)
  | 0, _, _, _ => .error .outOfFuel
  | fuel + 1, reader, key, val =>
      let finish (reader : C.xml.State) : Except ParseError ((String × Value) × C.xml.State) :=
        match key with
        | none => .error (incorrectParams "struct member missing name")
        | some k => .ok ((k, val.getD (.string "")), reader)
      match C.xml.readEvent reader with
      | .error e => .error (incorrectParams e)
      | .ok (.start tag, reader) =>
          if tag = "name" then
            match C.xml.readText reader tag with
            | .error e => .error (incorrectParams e)
            | .ok (txt, reader) => parseMember fuel reader (some txt) val
          else if tag = "value" then do
            let (v, reader) ← parseValueElement fuel reader none
            parseMember fuel reader key (some v)
          else parseMember fuel reader key val
      | .ok (.empty tag, reader) =>
          if tag = "value" then parseMember fuel reader key (some (.string ""))
          else parseMember fuel reader key val
      | .ok (.endTag tag, reader) =>
          if tag = "member" then finish reader else parseMember fuel reader key val
      | .ok (.eof, reader) => finish reader
      | .ok (_, reader) => parseMember fuel reader key val

/-- `parse_array`: the events up to the end of an array, with the items so far. -/
def parseArray :
    ℕ → C.xml.State → List Value → Except ParseError (List Value × C.xml.State)
  | 0, _, _ => .error .outOfFuel
  | fuel + 1, reader, items =>
      match C.xml.readEvent reader with
      | .error e => .error (incorrectParams e)
      | .ok (.start tag, reader) =>
          if tag = "value" then do
            let (item, reader) ← parseValueElement fuel reader none
            parseArray fuel reader (items ++ [item])
          else parseArray fuel reader items
      | .ok (.empty tag, reader) =>
          if tag = "value" then parseArray fuel reader (items ++ [.string ""])
          else parseArray fuel reader items
      | .ok (.endTag tag, reader) =>
          if tag = "array" then .ok (items, reader) else parseArray fuel reader items
      | .ok (.eof, reader) => .ok (items, reader)
      | .ok (_, reader) => parseArray fuel reader items

end

/-- `parse_param_value`: the events up to the end of a parameter. -/
def parseParamValue :
    ℕ → C.xml.State → Option Value → Except ParseError (Value × C.xml.State)
  | 0, _, _ => .error .outOfFuel
  | fuel + 1, reader, foundValue =>
      let finish (reader : C.xml.State) : Except ParseError (Value × C.xml.State) :=
        match foundValue with
        | none => .error (incorrectParams "param without value")
        | some val => .ok (val, reader)
      match C.xml.readEvent reader with
      | .error e => .error (incorrectParams e)
      | .ok (.start tag, reader) =>
          if tag = "value" then do
            let (val, reader) ← parseValueElement C fuel reader none
            parseParamValue fuel reader (some val)
          else parseParamValue fuel reader foundValue
      | .ok (.empty tag, reader) =>
          if tag = "value" then parseParamValue fuel reader (some (.string ""))
          else parseParamValue fuel reader foundValue
      | .ok (.endTag tag, reader) =>
          if tag = "param" then finish reader else parseParamValue fuel reader foundValue
      | .ok (.eof, reader) => finish reader
      | .ok (_, reader) => parseParamValue fuel reader foundValue

/-- `parse_params`: the events up to the end of the parameters. -/
def parseParams :
    ℕ → C.xml.State → List Value → Except ParseError (List Value × C.xml.State)
  | 0, _, _ => .error .outOfFuel
  | fuel + 1, reader, params =>
      match C.xml.readEvent reader with
      | .error e => .error (incorrectParams ("XML parse error: " ++ e))
      | .ok (.start tag, reader) =>
          if tag = "param" then do
            let (val, reader) ← parseParamValue C fuel reader none
            parseParams fuel reader (params ++ [val])
          else parseParams fuel reader params
      | .ok (.endTag tag, reader) =>
          if tag = "params" then .ok (params, reader) else parseParams fuel reader params
      | .ok (.eof, reader) => .ok (params, reader)
      | .ok (_, reader) => parseParams fuel reader params

/-- The loop of `MethodCall.parse` over the events of the document. -/
def parseDocument :
    ℕ → C.xml.State → Option String → List Value → Except ParseError (Option String × List Value)
  | 0, _, _, _ => .error .outOfFuel
  | fuel + 1, reader, methodName, params =>
      match C.xml.readEvent reader with
      | .error e => .error (incorrectParams ("Malformed XML: " ++ e))
      | .ok (.start tag, reader) =>
          if tag = "methodName" then
            match C.xml.readText reader tag with
            | .error e => .error (incorrectParams e)
            | .ok (name, reader) => parseDocument fuel reader (some name) params
          else if tag = "params" then do
            let (params, reader) ← parseParams C fuel reader []
            parseDocument fuel reader methodName params
          else parseDocument fuel reader methodName params
      | .ok (.eof, _) => .ok (methodName, params)
      | .ok (_, reader) => parseDocument fuel reader methodName params

/-- Parse a request. Every event takes at least one character of the document, so the fuel
suffices for all of them. -/
def MethodCall.parse (xml : String) : Except ParseError MethodCall := do
  let (methodName, params) ←
    parseDocument C (xml.toList.length + 1) (C.xml.fromStr xml) none []
  match methodName with
  | none => .error (.fault (.new .incorrectParameters "Missing methodName tag"))
  | some name =>
      match validateMethodName name with
      | .error f => .error (.fault f)
      | .ok () => .ok { name, params }

end Parse

end XmlRpc

end Rsupervisord
