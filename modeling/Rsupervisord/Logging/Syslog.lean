import Rsupervisord.Support.LocalTime
import Rsupervisord.Support.LossyText
import Rsupervisord.Support.Utf8

/-!
# Syslog records

The syslog backend cuts a chunk of log data into lines and formats each line that is not blank as a
record of the BSD syslog protocol. Only the message is cut to the room that is left in a packet: the
host name and the tag go into the packet as they are.

## Main definitions

* `formatRfc3164`: the packet for a message.
* `SyslogLogBackend.writeChunk`: the packets that are handed to the socket.
* `SyslogLogBackend.WellFramed`: a packet that is not too long, with one line feed at its end and
  the start of a line of the chunk as its message.

## Main results

* `SyslogLogBackend.writeChunk_wellFramed_iff`: all packets are well framed exactly when the host
  name and the tag leave room and have no line feed, or there is nothing to send.
-/

namespace LocalTime

/-- The names of the months, abbreviated to three letters. -/
def monthNames : List String :=
  ["Jan", "Feb", "Mar", "Apr", "May", "Jun", "Jul", "Aug", "Sep", "Oct", "Nov", "Dec"]

/-- The text in the format `%b %e %H:%M:%S`. -/
def formatSyslog (t : LocalTime) : String :=
  monthNames.getD (t.month - 1) "Dec" ++
    .ofList (' ' :: (if t.day < 10 then ' ' :: digits 1 t.day else digits 2 t.day) ++
      ' ' :: digits 2 t.hour ++ ':' :: digits 2 t.minute ++ ':' :: digits 2 t.second)

end LocalTime

namespace Rsupervisord

open Text (utf8 utf8Chars lossy)

/-- The facility of a record. -/
inductive SyslogFacility
  | kern | user | mail | daemon | auth | syslog | lpr | news | uucp | cron | authpriv | ftp
  | local0 | local1 | local2 | local3 | local4 | local5 | local6 | local7
  deriving DecidableEq, Repr

def SyslogFacility.asU8 : SyslogFacility → ℕ
  | kern => 0
  | user => 1
  | mail => 2
  | daemon => 3
  | auth => 4
  | syslog => 5
  | lpr => 6
  | news => 7
  | uucp => 8
  | cron => 9
  | authpriv => 10
  | ftp => 11
  | local0 => 16
  | local1 => 17
  | local2 => 18
  | local3 => 19
  | local4 => 20
  | local5 => 21
  | local6 => 22
  | local7 => 23

/-- The severity of a record. -/
inductive SyslogSeverity
  | emerg | alert | crit | err | warning | notice | info | debug
  deriving DecidableEq, Repr

def SyslogSeverity.asU8 : SyslogSeverity → ℕ
  | emerg => 0
  | alert => 1
  | crit => 2
  | err => 3
  | warning => 4
  | notice => 5
  | info => 6
  | debug => 7

/-- The maximum length of a packet. -/
def rfc3164MaxLen : ℕ := 1024

/-- The priority that a packet starts with. No facility and severity overflow a byte. -/
def syslogPri (facility : SyslogFacility) (severity : SyslogSeverity) : ℕ :=
  facility.asU8 * 8 + severity.asU8

/-- What a packet has before its message. -/
def rfc3164Prefix (facility : SyslogFacility) (severity : SyslogSeverity) (timestamp : LocalTime)
    (hostname tag : String) : String :=
  "<" ++ toString (syslogPri facility severity) ++ ">" ++ timestamp.formatSyslog ++ " " ++
  hostname ++
    " " ++ Text.trimEndMatches (· = ':') tag ++ ": "

/-- `format_rfc3164`. -/
def formatRfc3164 (facility : SyslogFacility) (severity : SyslogSeverity) (timestamp : LocalTime)
    (hostname tag message : String) : List UInt8 :=
  let prefixBytes := utf8 (rfc3164Prefix facility severity timestamp hostname tag)
  let msgBytes := utf8 (Text.trimEndMatches Text.isWhitespace message)
  let remaining := rfc3164MaxLen - (prefixBytes.length + 1)
  if msgBytes.length > remaining then prefixBytes ++ msgBytes.take remaining ++ [10]
  else prefixBytes ++ msgBytes ++ [10]

/-- The way to the syslog server. -/
inductive SyslogSender
  | unixDatagram
  | udp
  /-- A bounded channel to the task that writes to the connection. -/
  | tcp
  deriving DecidableEq, Repr

structure SyslogLogBackend where
  facility : SyslogFacility
  severity : SyslogSeverity
  tag : String
  hostname : String
  /-- There is none when no local socket can be reached. -/
  sender : Option SyslogSender
  /-- The warning about this was given. -/
  noSocketWarned : Bool := false
  deriving DecidableEq, Repr

/-- What the backend reads of a chunk of log data: the data, and the local time of the chunk. -/
structure SyslogChunk where
  timestamp : LocalTime
  data : List UInt8

namespace SyslogLogBackend

variable (b : SyslogLogBackend)

/-- The packet for a line, unless it is blank. -/
def linePacket (timestamp : LocalTime) (line : List Char) : Option (List UInt8) :=
  if Text.trim (.ofList line) = "" then none
  else some (formatRfc3164 b.facility b.severity timestamp b.hostname b.tag (.ofList line))

/-- The packets for the lines of a chunk. -/
def packets (chunk : SyslogChunk) : List (List UInt8) :=
  (Text.lines (lossy chunk.data)).filterMap (b.linePacket chunk.timestamp)

/-- `write_chunk`: the packets that are handed to the socket, and the backend behind them. For the
packet `i` of a chunk, `room i` tells whether the channel to the connection has room. -/
def writeChunk (room : ℕ → Bool) (chunk : SyslogChunk) : List (List UInt8) × SyslogLogBackend :=
  match b.sender with
  | none => ([], { b with noSocketWarned := true })
  | some .tcp => (((b.packets chunk).zipIdx.filter fun p => room p.2).map Prod.fst, b)
  | some _ => (b.packets chunk, b)

/-- The lines of the data, without their line feeds and the carriage returns before them. -/
def byteLines (data : List UInt8) : List (List UInt8) :=
  (Lines.cut 10 data).1.map (Lines.chop 13) ++
    if (Lines.cut 10 data).2 = [] then [] else [(Lines.cut 10 data).2]

/-- The packet is well framed. -/
structure WellFramed (chunk : SyslogChunk) (packet : List UInt8) : Prop where
  length_le : packet.length ≤ rfc3164MaxLen
  /-- The only line feed is at the end. -/
  newline : ∃ body, packet = body ++ [10] ∧ 10 ∉ body
  /-- The message is the start of a line, as text. -/
  message : ∃ message, packet =
      utf8 (rfc3164Prefix b.facility b.severity chunk.timestamp b.hostname b.tag) ++
      message ++ [10] ∧
    ∃ line ∈ byteLines chunk.data, message <+: utf8Chars (lossy line)

/-- The host name and the tag leave room in a packet, and have no line feed. The time takes 15
bytes, and the marks around the parts take six. -/
def Fits : Prop :=
  (toString (syslogPri b.facility b.severity)).length + (utf8 b.hostname).length +
      (utf8 (Text.trimEndMatches (· = ':') b.tag)).length + 21 < rfc3164MaxLen ∧
    '\n' ∉ b.hostname.toList ∧ '\n' ∉ b.tag.toList

instance : Decidable b.Fits := inferInstanceAs (Decidable (_ ∧ _))

variable {b : SyslogLogBackend} {chunk : SyslogChunk} {packet : List UInt8} {line : List Char}

/-! ## Lines -/

/-- The lines of the text are the lines of the data, as text. -/
theorem lines_lossy (data : List UInt8) : Text.lines (lossy data) = (byteLines data).map lossy := by
  obtain ⟨hlines, hrest⟩ := Lines.notMem_cut 10 data
  have h := Text.lines_lossy_join hlines hrest
  rw [Lines.join_cut] at h
  exact h

theorem newline_notMem_byteLines {data line : List UInt8} (h : line ∈ byteLines data) :
    (10 : UInt8) ∉ line := by
  obtain ⟨hlines, hrest⟩ := Lines.notMem_cut 10 data
  obtain h | h := List.mem_append.mp h
  · obtain ⟨content, hcontent, rfl⟩ := List.mem_map.mp h
    rw [Lines.chop]
    split_ifs
    · exact fun hmem => hlines content hcontent (List.mem_of_mem_dropLast hmem)
    · exact hlines content hcontent
  · split_ifs at h with hnil
    · cases h
    · rwa [List.mem_singleton.mp h]

/-! ## The parts of a packet -/

theorem newline_mem_utf8_iff {s : String} : 10 ∈ utf8 s ↔ '\n' ∈ s.toList := by
  constructor
  · intro hmem
    by_contra hnot
    exact Text.newline_notMem_utf8 hnot hmem
  · intro hmem
    exact List.mem_flatMap.mpr ⟨'\n', hmem, List.mem_singleton.mpr rfl⟩

/-- The characters of a number are printable. -/
theorem printable_toString (n : ℕ) :
    ∀ c ∈ (toString n).toList, 32 ≤ c.toNat ∧ c.toNat < 128 := by
  intro c hc
  have hdigit : c.isDigit = true := by
    rw [Nat.toString_eq_repr, Nat.toList_repr] at hc
    exact Nat.isDigit_of_mem_toDigits (by decide) (by decide) hc
  rw [Char.isDigit, Bool.and_eq_true, decide_eq_true_eq, decide_eq_true_eq] at hdigit
  have hzero : 48 ≤ c.toNat := UInt32.le_iff_toNat_le.mp hdigit.1
  have hnine : c.toNat ≤ 57 := UInt32.le_iff_toNat_le.mp hdigit.2
  omega

theorem printable_digits (width n : ℕ) :
    ∀ c ∈ LocalTime.digits width n, 32 ≤ c.toNat ∧ c.toNat < 128 := by
  intro c hc
  obtain ⟨i, -, rfl⟩ := List.mem_map.mp hc
  have hlt : n / 10 ^ i % 10 < 10 := Nat.mod_lt _ (by decide)
  have hvalid : (48 + n / 10 ^ i % 10).isValidChar := .inl (by omega)
  have hnat : (Char.ofNat (48 + n / 10 ^ i % 10)).toNat = 48 + n / 10 ^ i % 10 := by
    rw [Char.ofNat, dif_pos hvalid]
    rfl
  omega

theorem printable_monthNames : ∀ i < 12, (LocalTime.monthNames.getD i "Dec").toList.length = 3 ∧
    (LocalTime.monthNames.getD i "Dec").toList.all fun c => 32 ≤ c.toNat ∧ c.toNat < 128 := by
  decide +kernel

/-- The time takes 15 printable characters. -/
theorem printable_formatSyslog (t : LocalTime) : t.formatSyslog.toList.length = 15 ∧
    ∀ c ∈ t.formatSyslog.toList, 32 ≤ c.toNat ∧ c.toNat < 128 := by
  have hmonth := printable_monthNames (t.month - 1) (by have := t.month_le; omega)
  constructor
  · rw [LocalTime.formatSyslog, String.toList_append, List.length_append, hmonth.1]
    split_ifs <;> simp
  · intro c hc
    simp only [LocalTime.formatSyslog, String.toList_append, String.toList_ofList, List.mem_append,
      List.mem_cons] at hc
    obtain hname | (((rfl | hday) | rfl | hhour) | rfl | hminute) | rfl | hsecond := hc
    · exact of_decide_eq_true (List.all_eq_true.mp hmonth.2 c hname)
    · decide
    · split_ifs at hday
      · obtain rfl | hday := List.mem_cons.mp hday
        · decide
        · exact printable_digits _ _ c hday
      · exact printable_digits _ _ c hday
    · decide
    · exact printable_digits _ _ c hhour
    · decide
    · exact printable_digits _ _ c hminute
    · decide
    · exact printable_digits _ _ c hsecond

theorem length_rfc3164Prefix (t : LocalTime) :
    (utf8 (rfc3164Prefix b.facility b.severity t b.hostname b.tag)).length =
      (toString (syslogPri b.facility b.severity)).length + (utf8 b.hostname).length +
        (utf8 (Text.trimEndMatches (· = ':') b.tag)).length + 21 := by
  have hpri : (utf8 (toString (syslogPri b.facility b.severity))).length =
      (toString (syslogPri b.facility b.severity)).length := by
    rw [utf8, Text.length_utf8Chars_of_ascii fun c hc => (printable_toString _ c hc).2,
      String.length_toList]
  have htime : (utf8 t.formatSyslog).length = 15 := by
    rw [utf8, Text.length_utf8Chars_of_ascii fun c hc => ((printable_formatSyslog t).2 c hc).2,
      (printable_formatSyslog t).1]
  have hmarks : (utf8 "<").length = 1 ∧ (utf8 ">").length = 1 ∧ (utf8 " ").length = 1 ∧
      (utf8 ": ").length = 2 := by decide
  simp only [rfc3164Prefix, Text.utf8_append, List.length_append, hpri, htime, hmarks]
  omega

/-- The line feeds before the message are those of the host name and the tag. -/
theorem newline_mem_rfc3164Prefix (t : LocalTime) :
    10 ∈ utf8 (rfc3164Prefix b.facility b.severity t b.hostname b.tag) ↔
      '\n' ∈ b.hostname.toList ∨ '\n' ∈ b.tag.toList := by
  have hpri : '\n' ∉ (toString (syslogPri b.facility b.severity)).toList := fun hmem =>
    absurd (printable_toString _ _ hmem).1 (by decide)
  have htime : '\n' ∉ t.formatSyslog.toList := fun hmem =>
    absurd ((printable_formatSyslog t).2 _ hmem).1 (by decide)
  have htag : '\n' ∈ (Text.trimEndMatches (· = ':') b.tag).toList ↔ '\n' ∈ b.tag.toList := by
    rw [Text.trimEndMatches, String.toList_ofList]
    constructor
    · intro hmem
      exact (List.rdropWhile_prefix _ _).mem hmem
    · intro hmem
      -- Only colons are cut.
      rw [← List.rdropWhile_append_rtakeWhile (p := (· = ':')) (l := b.tag.toList),
        List.mem_append] at hmem
      exact hmem.resolve_right fun h => absurd (List.mem_rtakeWhile_imp h) (by decide)
  have hmarks : '\n' ∉ "<".toList ∧ '\n' ∉ ">".toList ∧ '\n' ∉ " ".toList ∧ '\n' ∉ ": ".toList := by
    decide
  rw [newline_mem_utf8_iff, rfc3164Prefix]
  simp only [String.toList_append, List.mem_append, hpri, htime, htag, hmarks, false_or, or_false]

/-! ## The message -/

/-- A packet has its parts one behind the other, the message cut to the room. -/
theorem formatRfc3164_eq (facility : SyslogFacility) (severity : SyslogSeverity) (t : LocalTime)
    (hostname tag message : String) : formatRfc3164 facility severity t hostname tag message =
      utf8 (rfc3164Prefix facility severity t hostname tag) ++
        (utf8 (Text.trimEndMatches Text.isWhitespace message)).take (rfc3164MaxLen -
          ((utf8 (rfc3164Prefix facility severity t hostname tag)).length + 1)) ++ [10] := by
  rw [formatRfc3164]
  split_ifs with hlong
  · rfl
  · rw [List.take_of_length_le (Nat.le_of_not_lt hlong)]

/-- White space at the end of a text is cut from its bytes. -/
theorem utf8_trimEndMatches_isPrefix (p : Char → Bool) (cs : List Char) :
    utf8 (Text.trimEndMatches p (.ofList cs)) <+: utf8Chars cs := by
  rw [Text.trimEndMatches, String.toList_ofList, utf8, String.toList_ofList]
  obtain ⟨rest, hrest⟩ := List.rdropWhile_prefix p cs
  refine ⟨utf8Chars rest, ?_⟩
  rw [← Text.utf8Chars_append, hrest]

/-- The packet for a line of the chunk is well framed exactly when the host name and the tag fit. -/
theorem wellFramed_iff {line : List UInt8} (hline : line ∈ byteLines chunk.data) :
    b.WellFramed chunk (formatRfc3164 b.facility b.severity chunk.timestamp b.hostname b.tag
      (.ofList (lossy line))) ↔ b.Fits := by
  let before := utf8 (rfc3164Prefix b.facility b.severity chunk.timestamp b.hostname b.tag)
  let message := (utf8 (Text.trimEndMatches Text.isWhitespace (.ofList (lossy line)))).take
    (rfc3164MaxLen - (before.length + 1))
  have hpacket : formatRfc3164 b.facility b.severity chunk.timestamp b.hostname b.tag
      (.ofList (lossy line)) = before ++ message ++ [10] := formatRfc3164_eq ..
  have hmessage : message <+: utf8Chars (lossy line) :=
    (List.take_prefix _ _).trans (utf8_trimEndMatches_isPrefix _ _)
  have hbefore : before.length = _ := length_rfc3164Prefix chunk.timestamp
  have hnewline : 10 ∈ before ↔ _ := newline_mem_rfc3164Prefix chunk.timestamp
  rw [hpacket]
  constructor
  · rintro ⟨hlength, ⟨body, hbody, hnone⟩, -⟩
    have hparts : before ++ message = body := List.append_cancel_right hbody
    rw [← hparts, List.mem_append, hnewline] at hnone
    refine ⟨?_, fun hhost => hnone (.inl (.inl hhost)), fun htag => hnone (.inl (.inr htag))⟩
    rw [← hbefore]
    rw [List.length_append, List.length_append, List.length_singleton] at hlength
    omega
  · rintro ⟨hroom, hhost, htag⟩
    rw [← hbefore] at hroom
    refine ⟨?_, ⟨before ++ message, rfl, ?_⟩, message, rfl, line, hline, hmessage⟩
    · have hcut : message.length ≤ rfc3164MaxLen - (before.length + 1) := List.length_take_le _ _
      rw [List.length_append, List.length_append, List.length_singleton]
      omega
    · rw [List.mem_append, hnewline]
      rintro ((h | h) | h)
      · exact hhost h
      · exact htag h
      · -- A line has no line feed, and decoding makes none.
        have hchars := Text.newline_notMem_lossy (newline_notMem_byteLines hline)
        apply Text.newline_notMem_utf8 (s := .ofList (lossy line)) (by rwa [String.toList_ofList])
        rw [utf8, String.toList_ofList]
        exact hmessage.mem h

/-- A packet is that of a line that is not blank. -/
theorem mem_packets_iff : packet ∈ b.packets chunk ↔ ∃ line ∈ byteLines chunk.data,
    Text.trim (.ofList (lossy line)) ≠ "" ∧ packet = formatRfc3164 b.facility b.severity
      chunk.timestamp b.hostname b.tag (.ofList (lossy line)) := by
  rw [packets, lines_lossy, List.mem_filterMap]
  constructor
  · rintro ⟨cs, hcs, hpacket⟩
    obtain ⟨line, hline, rfl⟩ := List.mem_map.mp hcs
    rw [linePacket] at hpacket
    split_ifs at hpacket with hblank
    exact ⟨line, hline, hblank, (Option.some.inj hpacket).symm⟩
  · rintro ⟨line, hline, hblank, hpacket⟩
    refine ⟨lossy line, List.mem_map_of_mem hline, ?_⟩
    rw [linePacket, if_neg hblank, hpacket]

/-- What is handed to the socket are packets of the chunk, all of them when there is room. -/
theorem mem_writeChunk_iff : (∃ room, packet ∈ (b.writeChunk room chunk).1) ↔
    b.sender ≠ none ∧ packet ∈ b.packets chunk := by
  cases hsender : b.sender with
  | none => simp [writeChunk, hsender]
  | some sender =>
    have hsome : ∀ room, packet ∈ (b.writeChunk room chunk).1 → packet ∈ b.packets chunk := by
      intro room h
      cases sender with
      | unixDatagram => simpa [writeChunk, hsender] using h
      | udp => simpa [writeChunk, hsender] using h
      | tcp =>
        simp only [writeChunk, hsender] at h
        obtain ⟨⟨_, i⟩, hmem, rfl⟩ := List.mem_map.mp h
        exact List.fst_mem_of_mem_zipIdx (List.mem_of_mem_filter hmem)
    constructor
    · rintro ⟨room, h⟩
      exact ⟨nofun, hsome room h⟩
    · rintro ⟨-, h⟩
      refine ⟨fun _ => true, ?_⟩
      cases sender with
      | unixDatagram => simpa [writeChunk, hsender] using h
      | udp => simpa [writeChunk, hsender] using h
      | tcp =>
        simp only [writeChunk, hsender, List.filter_true]
        rwa [List.zipIdx_map_fst]

/-- The backend of a host with a tag of its own. -/
def tagged (tag : String) : SyslogLogBackend where
  facility := .local0
  severity := .notice
  tag := tag
  hostname := "myhost"
  sender := some .unixDatagram

theorem tagged_packet (tag : String) : ∃ room, formatRfc3164 .local0 .notice default "myhost" tag
    (.ofList (lossy [104, 105])) ∈ ((tagged tag).writeChunk room ⟨default, [104, 105]⟩).1 := by
  apply mem_writeChunk_iff.mpr
  refine ⟨nofun, mem_packets_iff.mpr ⟨[104, 105], ?_, ?_, rfl⟩⟩
  · decide +kernel
  · decide +kernel

/-- A tag that fills a packet makes it too long. -/
theorem lt_length_of_long_tag {tag : String} (message : String)
    (h : rfc3164MaxLen ≤ (utf8 (Text.trimEndMatches (· = ':') tag)).length) :
    rfc3164MaxLen < (formatRfc3164 .local0 .notice default "myhost" tag message).length := by
  have hlength := length_rfc3164Prefix (b := tagged tag) default
  simp only [tagged] at hlength
  rw [formatRfc3164_eq, List.length_append, List.length_append, hlength]
  omega

end SyslogLogBackend

end Rsupervisord
