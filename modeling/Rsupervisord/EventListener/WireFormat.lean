import Mathlib
import Rsupervisord.EventListener.Protocol
import Rsupervisord.Support.Utf8

/-!
# Reading events back from the wire

A listener process reads the events from its standard input: a header line, and behind it as many
characters of payload as the header's `len` says. Whatever the payloads contain, it reads back the
events that were written, as long as no header value contains white space.
-/

namespace Rsupervisord

/-! ## Header lines -/

/-- A value that can stand in the header line. -/
def HeaderSafe (value : String) : Prop :=
  ∀ c ∈ value.toList, Text.isWhitespace c = false

instance (value : String) : Decidable (HeaderSafe value) :=
  List.decidableBAll _ _

/-- The header values of the envelope contain no white space. -/
def EventEnvelope.HeaderSafe (e : EventEnvelope) : Prop :=
  Rsupervisord.HeaderSafe e.pool ∧ Rsupervisord.HeaderSafe e.eventName

instance (e : EventEnvelope) : Decidable e.HeaderSafe :=
  inferInstanceAs (Decidable (_ ∧ _))

/-- The fields of a header line: its words between spaces, each split at its first colon. -/
def headerFields (line : String) : List (String × String) :=
  (line.toList.splitOn ' ').filterMap fun word => Text.splitOnce ':' (.ofList word)

/-- A number in a header field. -/
def headerNumber (value : String) : Option ℕ :=
  if value.toList.isEmpty then none else Text.digitsValue value.toList

/-- What a listener takes from a header line. -/
structure EventHeader where
  serial : ℕ
  pool : String
  poolSerial : ℕ
  eventName : String
  len : ℕ
  deriving DecidableEq, Repr

/-- Read a header line. -/
def EventHeader.parse (line : String) : Option EventHeader := do
  let fields := headerFields line
  let serial ← headerNumber (← fields.lookup "serial")
  let pool ← fields.lookup "pool"
  let poolSerial ← headerNumber (← fields.lookup "poolserial")
  let eventName ← fields.lookup "eventname"
  let len ← headerNumber (← fields.lookup "len")
  some { serial, pool, poolSerial, eventName, len }

/-! ## Listeners -/

/-- A listener that follows the documented meaning of `len`: asked for `len` characters of payload,
it takes exactly the text of that many characters from its input. -/
structure WireListener where
  readPayload : ℕ → List UInt8 → Option (String × List UInt8)
  readPayload_utf8 : ∀ (payload : String) (rest : List UInt8),
    readPayload payload.toList.length (Text.utf8 payload ++ rest) = some (payload, rest)

namespace WireListener

/-- The listener that decodes its input character by character. -/
def byCharacters : WireListener where
  readPayload len bytes := (Text.readChars len bytes).map fun (cs, rest) => (.ofList cs, rest)
  readPayload_utf8 payload rest := by
    rw [Text.utf8, Text.readChars_utf8Chars, Option.map_some]
    simp only [String.ofList_toList]

variable (listener : WireListener)

/-- Read one event: a header line and the payload. -/
def readEnvelope (bytes : List UInt8) : Option (EventEnvelope × List UInt8) := do
  let (line, rest) ← Text.readLine bytes
  let header ← EventHeader.parse line
  let (payload, rest) ← listener.readPayload header.len rest
  some ({
    globalSerial := header.serial
    poolSerial := header.poolSerial
    pool := header.pool
    eventName := header.eventName
    payload }, rest)

/-- Read events until the input ends, at most `fuel` of them. -/
def readEnvelopes : ℕ → List UInt8 → Option (List EventEnvelope)
  | _, [] => some []
  | 0, _ :: _ => none
  | fuel + 1, bytes => do
    let (e, rest) ← listener.readEnvelope bytes
    let es ← readEnvelopes fuel rest
    some (e :: es)

/-- Read a whole input. An event takes at least one byte. -/
def readAll (bytes : List UInt8) : Option (List EventEnvelope) :=
  listener.readEnvelopes bytes.length bytes

end WireListener

/-! ## The header line of an envelope -/

/-- A field as it stands in the header line. -/
def headerWord (field : String × String) : List Char :=
  field.1.toList ++ ':' :: field.2.toList

/-- A word without its colon splits into the field again. -/
theorem splitOnce_headerWord {field : String × String} (h : ':' ∉ field.1.toList) :
    Text.splitOnce ':' (.ofList (headerWord field)) = some field := by
  have hne : ∀ c ∈ field.1.toList, decide (c ≠ ':') = true := by
    intro c hc
    exact decide_eq_true fun hcolon => h (hcolon ▸ hc)
  unfold Text.splitOnce headerWord
  rw [String.toList_ofList, List.dropWhile_append_of_pos hne, List.takeWhile_append_of_pos hne]
  simp

/-- A character of a joined line is the separator or stands in one of the words. -/
theorem mem_of_mem_intercalate {sep c : Char} {words : List (List Char)}
    (h : c ∈ [sep].intercalate words) : c = sep ∨ ∃ word ∈ words, c ∈ word := by
  induction words with
  | nil => exact absurd h List.not_mem_nil
  | cons word words ih =>
    rcases words with _ | ⟨next, words⟩
    · rw [List.intercalate_singleton] at h
      exact .inr ⟨word, List.mem_cons_self, h⟩
    · rw [List.intercalate_cons_cons, List.mem_append, List.mem_append,
        List.mem_singleton] at h
      rcases h with (h | h) | h
      · exact .inr ⟨word, List.mem_cons_self, h⟩
      · exact .inl h
      · exact (ih h).imp_right fun ⟨w, hw, hc⟩ => ⟨w, List.mem_cons_of_mem _ hw, hc⟩

/-- Fields without spaces are read back from the line that joins them. -/
theorem headerFields_intercalate {fields : List (String × String)} (hne : fields ≠ [])
    (hspace : ∀ f ∈ fields, ' ' ∉ headerWord f) (hcolon : ∀ f ∈ fields, ':' ∉ f.1.toList) :
    headerFields (.ofList ([' '].intercalate (fields.map headerWord))) = fields := by
  unfold headerFields
  rw [String.toList_ofList, List.splitOn_intercalate]
  · rw [List.filterMap_map]
    have hsplit : ∀ f ∈ fields,
        ((fun word => Text.splitOnce ':' (.ofList word)) ∘ headerWord) f = some f :=
      fun f hf => splitOnce_headerWord (hcolon f hf)
    rw [List.filterMap_congr hsplit, List.filterMap_some]
  · intro word hword
    obtain ⟨f, hf, rfl⟩ := List.mem_map.mp hword
    exact hspace f hf
  · simpa using hne

namespace EventEnvelope

variable (e : EventEnvelope) (serverIdentifier : String)

/-- The fields of the header line that `format_wire` writes. -/
def wireHeader : List (String × String) :=
  [("ver", "3.0"), ("server", serverIdentifier), ("serial", toString e.globalSerial),
    ("pool", e.pool), ("poolserial", toString e.poolSerial), ("eventname", e.eventName),
    ("len", toString e.payload.toList.length)]

/-- The header line, its newline and the payload. -/
theorem toList_formatWire :
    (e.formatWire serverIdentifier).toList =
      [' '].intercalate ((e.wireHeader serverIdentifier).map headerWord) ++
        '\n' :: e.payload.toList := by
  -- The numbers are opaque texts here.
  have htext : ∀ serial poolSerial len : String,
      (s!"ver:3.0 server:{serverIdentifier} serial:{serial} pool:{e.pool} " ++
        s!"poolserial:{poolSerial} eventname:{e.eventName} len:{len}\n{e.payload}").toList =
      [' '].intercalate (([("ver", "3.0"), ("server", serverIdentifier), ("serial", serial),
        ("pool", e.pool), ("poolserial", poolSerial), ("eventname", e.eventName),
        ("len", len)] : List (String × String)).map headerWord) ++ '\n' :: e.payload.toList := by
    intro serial poolSerial len
    have hstr : ∀ s : String, toString s = s := fun _ => rfl
    simp only [String.toList_append, hstr, headerWord, List.map_cons, List.map_nil]
    simp
  exact htext _ _ _

/-- The fields of an envelope with safe header values contain no white space. -/
theorem wireHeader_safe {e : EventEnvelope} {serverIdentifier : String} (he : e.HeaderSafe)
    (hserver : Rsupervisord.HeaderSafe serverIdentifier) :
    ∀ f ∈ e.wireHeader serverIdentifier, ∀ c ∈ headerWord f, Text.isWhitespace c = false := by
  have hnumber : ∀ n : ℕ, ∀ c ∈ (toString n).toList, Text.isWhitespace c = false :=
    fun _ _ hc => Text.isWhitespace_of_mem_toString hc
  -- The names of the fields and the version are fixed words.
  have hfixed : ∀ word : String, word.toList.all (!Text.isWhitespace ·) = true →
      ∀ c ∈ word.toList, Text.isWhitespace c = false := by
    intro word hall c hc
    simpa using List.all_eq_true.mp hall c hc
  have hword : ∀ name value : String, (∀ c ∈ name.toList, Text.isWhitespace c = false) →
      (∀ c ∈ value.toList, Text.isWhitespace c = false) →
      ∀ c ∈ headerWord (name, value), Text.isWhitespace c = false := by
    intro name value hname hvalue c hc
    rcases List.mem_append.mp hc with hc | hc
    · exact hname c hc
    · rcases List.mem_cons.mp hc with rfl | hc
      · decide
      · exact hvalue c hc
  intro f hf
  simp only [wireHeader, List.mem_cons, List.not_mem_nil, or_false] at hf
  rcases hf with rfl | rfl | rfl | rfl | rfl | rfl | rfl
  · exact hword _ _ (hfixed _ rfl) (hfixed _ rfl)
  · exact hword _ _ (hfixed _ rfl) hserver
  · exact hword _ _ (hfixed _ rfl) (hnumber _)
  · exact hword _ _ (hfixed _ rfl) he.1
  · exact hword _ _ (hfixed _ rfl) (hnumber _)
  · exact hword _ _ (hfixed _ rfl) he.2
  · exact hword _ _ (hfixed _ rfl) (hnumber _)

/-- A listener reads back the header that `format_wire` writes. -/
theorem parse_wireHeader {e : EventEnvelope} {serverIdentifier : String} (he : e.HeaderSafe)
    (hserver : Rsupervisord.HeaderSafe serverIdentifier) :
    EventHeader.parse
        (.ofList ([' '].intercalate ((e.wireHeader serverIdentifier).map headerWord))) =
      some {
        serial := e.globalSerial
        pool := e.pool
        poolSerial := e.poolSerial
        eventName := e.eventName
        len := e.payload.toList.length } := by
  have hsafe := wireHeader_safe he hserver
  have hnumber : ∀ n : ℕ, headerNumber n.repr = some n := by
    intro n
    have hne : n.repr.toList.isEmpty = false := by simp
    have hvalue : Text.digitsValue n.repr.toList = some n := Text.digitsValue_toString n
    rw [headerNumber, hne, hvalue]
    rfl
  unfold EventHeader.parse
  rw [headerFields_intercalate (by simp [wireHeader])
    (fun f hf hspace => absurd (hsafe f hf ' ' hspace) (by decide)) (by simp [wireHeader])]
  simp [wireHeader, List.lookup, hnumber]

end EventEnvelope

/-! ## Reading back what was written -/

namespace WireListener

/-- The bytes of a sequence of events on the wire. -/
def wireBytes (serverIdentifier : String) (es : List EventEnvelope) : List UInt8 :=
  es.flatMap fun e => Text.utf8 (e.formatWire serverIdentifier)

variable (listener : WireListener) {serverIdentifier : String}

/-- A listener reads one event back and leaves the bytes behind it. -/
theorem readEnvelope_formatWire {e : EventEnvelope} (he : e.HeaderSafe)
    (hserver : HeaderSafe serverIdentifier) (rest : List UInt8) :
    listener.readEnvelope (Text.utf8 (e.formatWire serverIdentifier) ++ rest) =
      some (e, rest) := by
  generalize hheader :
    String.ofList ([' '].intercalate ((e.wireHeader serverIdentifier).map headerWord)) = header
  have hparse := EventEnvelope.parse_wireHeader he hserver
  rw [hheader] at hparse
  have hbytes : Text.utf8 (e.formatWire serverIdentifier) ++ rest =
      Text.utf8 header ++ 10 :: (Text.utf8 e.payload ++ rest) := by
    have hnewline : ∀ cs : List Char, Text.utf8Chars ('\n' :: cs) = 10 :: Text.utf8Chars cs :=
      fun _ => rfl
    rw [Text.utf8, EventEnvelope.toList_formatWire, Text.utf8Chars_append, hnewline,
      List.append_assoc, List.cons_append, ← hheader, Text.utf8, String.toList_ofList]
    rfl
  have hline : '\n' ∉ header.toList := by
    rw [← hheader, String.toList_ofList]
    intro hmem
    rcases mem_of_mem_intercalate hmem with hspace | ⟨word, hword, hmem⟩
    · exact absurd hspace (by decide)
    · obtain ⟨f, hf, rfl⟩ := List.mem_map.mp hword
      exact absurd (EventEnvelope.wireHeader_safe he hserver f hf _ hmem) (by decide)
  unfold readEnvelope
  rw [hbytes, Text.readLine_utf8 hline]
  simp only [Option.bind_eq_bind, Option.bind_some, hparse, listener.readPayload_utf8]

/-- An event takes at least one byte. -/
theorem formatWire_bytes_ne_nil (serverIdentifier : String) (e : EventEnvelope) :
    Text.utf8 (e.formatWire serverIdentifier) ≠ [] := by
  rw [Text.utf8, EventEnvelope.toList_formatWire, Text.utf8Chars_append]
  apply List.append_ne_nil_of_right_ne_nil
  exact List.cons_ne_nil 10 _

/-- As many steps as there are events suffice. -/
theorem readEnvelopes_wireBytes {es : List EventEnvelope} (hes : ∀ e ∈ es, e.HeaderSafe)
    (hserver : HeaderSafe serverIdentifier) {fuel : ℕ} (hfuel : es.length ≤ fuel) :
    listener.readEnvelopes fuel (wireBytes serverIdentifier es) = some es := by
  induction es generalizing fuel with
  | nil => rw [wireBytes, List.flatMap_nil, readEnvelopes]
  | cons e es ih =>
    obtain ⟨fuel, rfl⟩ : ∃ n, fuel = n + 1 :=
      ⟨fuel - 1, by rw [List.length_cons] at hfuel; omega⟩
    have hrest := ih (fun e he => hes e (List.mem_cons_of_mem _ he)) (Nat.le_of_succ_le_succ hfuel)
    have hfirst := listener.readEnvelope_formatWire (hes e List.mem_cons_self) hserver
      (wireBytes serverIdentifier es)
    have hcons : wireBytes serverIdentifier (e :: es) =
        Text.utf8 (e.formatWire serverIdentifier) ++ wireBytes serverIdentifier es := rfl
    obtain ⟨b, bs, hbytes⟩ := List.exists_cons_of_ne_nil
      (List.append_ne_nil_of_left_ne_nil (formatWire_bytes_ne_nil serverIdentifier e)
        (wireBytes serverIdentifier es))
    rw [hcons, hbytes, readEnvelopes, ← hbytes, hfirst]
    · simp only [Option.bind_eq_bind, Option.bind_some, hrest]
    · exact List.cons_ne_nil b bs

/-- There are at least as many bytes as events. -/
theorem length_le_length_wireBytes (es : List EventEnvelope) :
    es.length ≤ (wireBytes serverIdentifier es).length := by
  induction es with
  | nil => exact Nat.zero_le _
  | cons e es ih =>
    have hpos := List.length_pos_of_ne_nil (formatWire_bytes_ne_nil serverIdentifier e)
    rw [wireBytes, List.flatMap_cons, List.length_append, List.length_cons]
    rw [wireBytes] at ih
    omega

/-- Whatever the payloads contain, every listener that follows the documented meaning of `len`, the
one that decodes its input character by character among them, reads back the events that were
written. -/
theorem readAll_wireBytes {es : List EventEnvelope} (hes : ∀ e ∈ es, e.HeaderSafe)
    (hserver : HeaderSafe serverIdentifier) :
    byCharacters.readAll (wireBytes serverIdentifier es) = some es ∧
      ∀ listener : WireListener, listener.readAll (wireBytes serverIdentifier es) = some es := by
  have hread : ∀ listener : WireListener,
      listener.readAll (wireBytes serverIdentifier es) = some es := fun listener =>
    listener.readEnvelopes_wireBytes hes hserver (length_le_length_wireBytes es)
  exact ⟨hread byCharacters, hread⟩

/-- `readAll_wireBytes` for a payload of several lines that looks like a header and holds
characters of more than one byte, and an event behind it. -/
theorem readAll_wireBytes_of_lookalike_payload :
    let es : List EventEnvelope := [
      ⟨0, 0, "pool", "PROCESS_LOG_STDOUT", "pid:7\nver:3.0 serial:1 len:0\näöü€😀"⟩,
      ⟨1, 0, "other", "TICK_5", "when:5"⟩]
    byCharacters.readAll (wireBytes "supervisor" es) = some es ∧
      ∀ listener : WireListener, listener.readAll (wireBytes "supervisor" es) = some es :=
  readAll_wireBytes (by decide) (by decide)

end WireListener

end Rsupervisord
