import Rsupervisord.Config.LogTranslation
import Rsupervisord.Support.TextSplit

/-!
# The grammar of syslog destinations

The documented form of a remote syslog destination is `syslog@[proto:]host[:port]`. The parser takes
every word of letters before a colon for a protocol, so a host of one word cannot be given a port
alone; and what it accepts is read back from its printed form.

* `SyslogTarget.display`: `Display for SyslogTarget`.
* `LogDestination.parse_display`: a target that was accepted is read back.
* `LogDestination.acceptsGrammar_iff`: the forms of the grammar that are accepted.
-/

namespace Rsupervisord

/-- `Display for SyslogProto`. -/
def SyslogProto.display : SyslogProto → String
  | .udp => "udp"
  | .tcp => "tcp"

/-- The port of a protocol when none is given. -/
def SyslogProto.defaultPort : SyslogProto → ℕ
  | .udp => 514
  | .tcp => 6514

/-- `Display for SyslogTarget`. -/
def SyslogTarget.display : SyslogTarget → String
  | .localSocket => "syslog"
  | .remote proto host port =>
      "syslog@" ++ (proto.display ++ ":" ++ (host ++ ":" ++ toString port))

namespace LogDestination

mutual

/-- The syslog targets of a destination. -/
def syslogTargets : LogDestination → List SyslogTarget
  | .syslog target => [target]
  | .composite list => allSyslogTargets list
  | _ => []

/-- The syslog targets of a list of destinations. -/
def allSyslogTargets : List LogDestination → List SyslogTarget
  | [] => []
  | d :: list => d.syslogTargets ++ allSyslogTargets list

end

/-- A letter, a digit, a dot or a hyphen. -/
def isHostChar (c : Char) : Bool := c.isAlphanum || c = '.' || c = '-'

/-- An address `[proto:]host[:port]`. -/
def formAddress (proto : Option SyslogProto) (host : String) (port : Option ℕ) : String :=
  (proto.map fun p => p.display ++ ":").getD "" ++ host ++
    (port.map fun n => ":" ++ toString n).getD ""

/-- The documented form `syslog@[proto:]host[:port]`. -/
def documentedForm (proto : Option SyslogProto) (host : String) (port : Option ℕ) : String :=
  "syslog@" ++ formAddress proto host port

/-- The target that the form stands for: the host in lower case, and the port of the protocol when
none is given. -/
def documentedTarget (proto : Option SyslogProto) (host : String) (port : Option ℕ) :
    SyslogTarget :=
  .remote (proto.getD .udp) (Text.toAsciiLowercase host) (port.getD (proto.getD .udp).defaultPort)

/-- The parser reads a form of the grammar as it is documented. -/
def AcceptsForm (proto : Option SyslogProto) (host : String) (port : Option ℕ) : Prop :=
  parse (documentedForm proto host port) = .ok (.syslog (documentedTarget proto host port))

/-- A target as the parser leaves it: the host is not empty, trimmed, in lower case and without a
comma, the port a 16-bit number. -/
structure Accepted (host : String) (port : ℕ) : Prop where
  nonempty : host ≠ ""
  trimmed : Text.trim host = host
  lower : Text.toAsciiLowercase host = host
  noComma : ',' ∉ host.toList
  port_lt : port < 2 ^ 16

variable {proto : SyslogProto} {host rest token s : String} {port : ℕ} {d : LogDestination}
  {target : SyslogTarget}

/-! ## Reading an address -/

/-- The digits of a port are no colon, no comma, no white space and no letters. -/
theorem isDigit_of_mem_port {c : Char} (h : c ∈ (toString port).toList) : c.isDigit = true := by
  have h' : c ∈ port.repr.toList := h
  rw [Nat.toList_repr] at h'
  exact Nat.isDigit_of_mem_toDigits (by decide) (by decide) h'

theorem notMem_port {c : Char} (h : c.isDigit = false) : c ∉ (toString port).toList := by
  intro hmem
  rw [isDigit_of_mem_port hmem] at h
  cases h

theorem toAsciiLowercase_port (port : ℕ) : Text.toAsciiLowercase (toString port) =
    toString port := by
  refine Text.toAsciiLowercase_eq_self fun c hc => ?_
  have hdigit := isDigit_of_mem_port hc
  simp only [Char.isDigit, Char.isUpper, Bool.and_eq_true, decide_eq_true_eq, ge_iff_le,
    UInt32.le_iff_toNat_le] at hdigit ⊢
  simp at hdigit ⊢
  omega

theorem isLower_of_mem_display {c : Char} (h : c ∈ proto.display.toList) : c.isLower = true := by
  cases proto with
  | udp => exact List.all_eq_true.mp (show ['u', 'd', 'p'].all Char.isLower = true from rfl) c h
  | tcp => exact List.all_eq_true.mp (show ['t', 'c', 'p'].all Char.isLower = true from rfl) c h

/-- The first characters of a remote destination. -/
theorem of_mem_syslog {c : Char} (h : c ∈ "syslog@".toList) : c.isLower = true ∨ c = '@' := by
  rw [show "syslog@".toList = ['s', 'y', 's', 'l', 'o', 'g'] ++ ['@'] from rfl,
    List.mem_append, List.mem_singleton] at h
  refine h.imp_left fun hc => ?_
  exact List.all_eq_true.mp
    (show ['s', 'y', 's', 'l', 'o', 'g'].all Char.isLower = true from rfl) c hc

theorem syslog_append_ne (rest : String) : "syslog@" ++ rest ≠ "" := by
  intro h
  have hlist := congrArg String.toList h
  rw [String.toList_append] at hlist
  cases hlist

/-- A host and a port behind a protocol. -/
theorem syslogHostPort_port (address : String) (proto : SyslogProto) (host : String)
    (hport : port < 2 ^ 16) :
    syslogHostPort address proto (host ++ ":" ++ toString port) = .ok (Text.trim host, port) := by
  have hcolon : ':' ∉ (toString port).toList := notMem_port (by decide)
  have hsplit := Text.rsplitOnce_append host hcolon
  rw [show String.ofList [':'] = ":" from rfl] at hsplit
  unfold syslogHostPort
  rw [hsplit]
  simp only [Text.parseUnsigned_toString hport]

theorem syslogHostPort_host (address : String) (proto : SyslogProto) (h : ':' ∉ host.toList) :
    syslogHostPort address proto host = .ok (Text.trim host, proto.defaultPort) := by
  unfold syslogHostPort
  rw [Text.rsplitOnce_of_notMem h]
  cases proto <;> rfl

/-- A protocol that is given is taken. -/
theorem syslogProto_display (proto : SyslogProto) (rest : String) :
    syslogProto (proto.display ++ ":" ++ rest) = .ok (proto, rest) := by
  cases proto with
  | udp =>
    rw [syslogProto, show SyslogProto.udp.display ++ ":" = "udp:" from rfl, Text.stripPrefix_append]
  | tcp =>
    have hudp : Text.stripPrefix "udp:" ("tcp:" ++ rest) = none := by
      rw [Text.stripPrefix, String.toList_append]
      rfl
    rw [syslogProto, show SyslogProto.tcp.display ++ ":" = "tcp:" from rfl, hudp,
      Text.stripPrefix_append]

/-- An address whose protocol, host and port were found. -/
theorem parseSyslogRemote_of_parts {address : String}
    (hproto : syslogProto address = .ok (proto, rest))
    (hhost : syslogHostPort address proto rest = .ok (host, port)) (hne : host ≠ "") :
    parseSyslogRemote address = .ok (.syslog (.remote proto host port)) := by
  unfold parseSyslogRemote
  rw [hproto]
  simp only [bind, Except.bind, hhost, String.isEmpty_iff, hne, if_false]

/-- A token that begins like a remote destination is parsed as one. -/
theorem parseSingle_syslog (rest : String) :
    parseSingle ("syslog@" ++ rest) = parseSyslogRemote (Text.toAsciiLowercase rest) := by
  have hlower : Text.toAsciiLowercase ("syslog@" ++ rest) = "syslog@" ++
      Text.toAsciiLowercase rest := by
    rw [Text.toAsciiLowercase_append]
    rfl
  have hlabel : (label ("syslog@" ++ rest)).2 =
      some (parseSyslogRemote (Text.toAsciiLowercase rest)) := by
    rw [label, hlower, Text.stripPrefix_append]
    rfl
  rw [parseSingle_eq (syslog_append_ne rest)]
  cases hkeyword : (label ("syslog@" ++ rest)).1 with
  | some k =>
    -- A keyword is no syslog address.
    rw [label_of_keyword hkeyword] at hlabel
    cases hlabel
  | none =>
    rw [← Prod.mk.eta (p := label ("syslog@" ++ rest)), hkeyword, hlabel]

/-- A destination without a comma and without white space around it is one member. -/
theorem parse_of_notMem (htrim : Text.trim s = s) (hne : s ≠ "") (hcomma : ',' ∉ s.toList) :
    parse s = parseSingle s := by
  simp only [parse, htrim, String.isEmpty_iff, hne, if_false, hcomma]

/-! ## Reading a printed target -/

/-- A printed target is read back. -/
theorem parse_display (h : Accepted host port) (proto : SyslogProto) :
    parse (SyslogTarget.remote proto host port).display =
      .ok (.syslog (.remote proto host port)) := by
  have hchars : ∀ c ∈ (SyslogTarget.remote proto host port).display.toList,
      c.isLower = true ∨ c = '@' ∨ c = ':' ∨ c ∈ host.toList ∨ c.isDigit = true := by
    intro c hc
    simp only [SyslogTarget.display, String.toList_append, List.mem_append] at hc
    obtain hc | (hc | hc) | (hc | hc) | hc := hc
    · exact (of_mem_syslog hc).imp_right .inl
    · exact .inl (isLower_of_mem_display hc)
    · exact .inr (.inr (.inl (List.mem_singleton.mp hc)))
    · exact .inr (.inr (.inr (.inl hc)))
    · exact .inr (.inr (.inl (List.mem_singleton.mp hc)))
    · exact .inr (.inr (.inr (.inr (isDigit_of_mem_port hc))))
  have hcomma : ',' ∉ (SyslogTarget.remote proto host port).display.toList := by
    intro hmem
    obtain h' | h' | h' | h' | h' := hchars _ hmem
    · exact absurd h' (by decide)
    · exact absurd h' (by decide)
    · exact absurd h' (by decide)
    · exact h.noComma h'
    · exact absurd h' (by decide)
  have hdigits : (toString port).toList ≠ [] := by
    show port.repr.toList ≠ []
    rw [Nat.toList_repr]
    exact Nat.toDigits_ne_nil
  have htrim : Text.trim (SyslogTarget.remote proto host port).display =
      (SyslogTarget.remote proto host port).display := by
    apply Text.trim_eq_self_of_ends
    · intro c hc
      simp only [SyslogTarget.display, String.toList_append] at hc
      obtain rfl := Option.some.inj (show some 's' = some c from hc)
      decide
    · intro c hc
      simp only [SyslogTarget.display, String.toList_append, ← List.append_assoc] at hc
      rw [List.getLast?_append_of_ne_nil _ hdigits] at hc
      exact Text.isWhitespace_of_mem_toString (List.mem_of_getLast? hc)
  have hne : (SyslogTarget.remote proto host port).display ≠ "" := syslog_append_ne _
  have hlower : Text.toAsciiLowercase (proto.display ++ ":" ++ (host ++ ":" ++ toString port)) =
      proto.display ++ ":" ++ (host ++ ":" ++ toString port) := by
    rw [Text.toAsciiLowercase_append, Text.toAsciiLowercase_append, Text.toAsciiLowercase_append,
      Text.toAsciiLowercase_append, h.lower, toAsciiLowercase_port]
    cases proto <;> rfl
  rw [parse_of_notMem htrim hne hcomma, SyslogTarget.display, parseSingle_syslog, hlower]
  refine parseSyslogRemote_of_parts (syslogProto_display proto _) ?_ h.nonempty
  rw [syslogHostPort_port _ _ _ h.port_lt, h.trimmed]

/-! ## What the parser accepts -/

/-- The rest of an address behind its protocol. -/
theorem mem_of_syslogProto {address : String}
    (h : syslogProto address = .ok (proto, rest)) {c : Char}
    (hc : c ∈ rest.toList) : c ∈ address.toList := by
  unfold syslogProto at h
  split at h
  · next hudp =>
    obtain ⟨-, rfl⟩ := Prod.mk.inj (Except.ok.inj h)
    rw [Text.stripPrefix_eq_some_iff.mp hudp, String.toList_append]
    exact List.mem_append_right _ hc
  · split at h
    · next htcp =>
      obtain ⟨-, rfl⟩ := Prod.mk.inj (Except.ok.inj h)
      rw [Text.stripPrefix_eq_some_iff.mp htcp, String.toList_append]
      exact List.mem_append_right _ hc
    · split at h
      · split_ifs at h
        obtain ⟨-, rfl⟩ := Prod.mk.inj (Except.ok.inj h)
        exact hc
      · obtain ⟨-, rfl⟩ := Prod.mk.inj (Except.ok.inj h)
        exact hc

/-- The host and the port that are found. -/
theorem of_syslogHostPort {address : String}
    (h : syslogHostPort address proto rest = .ok (host, port)) :
    port < 2 ^ 16 ∧ Text.trim host = host ∧ ∀ c ∈ host.toList, c ∈ rest.toList := by
  unfold syslogHostPort at h
  split at h
  · next before text hsplit =>
    split at h
    · next n hport =>
      obtain ⟨rfl, rfl⟩ := Prod.mk.inj (Except.ok.inj h)
      refine ⟨Text.lt_of_parseUnsigned hport, Text.trim_trim before, fun c hc => ?_⟩
      rw [Text.eq_of_rsplitOnce hsplit, String.toList_append, String.toList_append,
        List.append_assoc]
      exact List.mem_append_left _ (Text.mem_of_mem_trim hc)
    · cases h
  · obtain ⟨rfl, rfl⟩ := Prod.mk.inj (Except.ok.inj h)
    refine ⟨?_, Text.trim_trim rest, fun c hc => Text.mem_of_mem_trim hc⟩
    cases proto <;> decide

/-- A remote target that a member stands for. -/
theorem accepted_of_parseSingle (hcomma : ',' ∉ token.toList)
    (h : parseSingle token = .ok (.syslog (.remote proto host port))) : Accepted host port := by
  have hne : token ≠ "" := by
    rintro rfl
    cases h
  rw [parseSingle_eq hne] at h
  rcases hlabel : label token with ⟨_ | k, _ | target⟩
  · rw [hlabel] at h
    cases h
  · rw [hlabel] at h
    obtain ⟨rest, hrest, rfl⟩ := Option.map_eq_some_iff.mp (congrArg Prod.snd hlabel)
    unfold parseSyslogRemote at h
    obtain ⟨⟨proto', hostPort⟩, hproto, h⟩ := Except.bind_eq_ok.mp h
    obtain ⟨⟨host', port'⟩, hhost, h⟩ := Except.bind_eq_ok.mp h
    simp only [String.isEmpty_iff] at h
    split_ifs at h with hempty
    obtain ⟨rfl, rfl, rfl⟩ : proto' = proto ∧ host' = host ∧ port' = port := by
      simpa using Except.ok.inj h
    obtain ⟨hlt, htrim, hmem⟩ := of_syslogHostPort hhost
    -- The host consists of characters of the token in lower case.
    have hchar : ∀ c ∈ host'.toList, ∃ d ∈ token.toList, d.toLower = c := by
      intro c hc
      have hc' := mem_of_syslogProto hproto (hmem c hc)
      have hlower : c ∈ (Text.toAsciiLowercase token).toList := by
        rw [Text.stripPrefix_eq_some_iff.mp hrest, String.toList_append]
        exact List.mem_append_right _ hc'
      rw [Text.toAsciiLowercase, String.toList_ofList] at hlower
      exact List.mem_map.mp hlower
    refine ⟨hempty, htrim, Text.toAsciiLowercase_eq_self fun c hc => ?_, fun hc => ?_, hlt⟩
    · obtain ⟨d, -, rfl⟩ := hchar c hc
      exact Char.isUpper_toLower_eq_false d
    · obtain ⟨d, hd, hlower⟩ := hchar _ hc
      have hupper : d.isUpper = false := by
        by_contra hupper
        have hisLower := Char.isLower_toLower_eq_isAlpha d
        rw [hlower, Char.isAlpha, Bool.eq_true_of_not_eq_false hupper, Bool.true_or] at hisLower
        exact absurd hisLower (by decide)
      rw [Char.toLower_eq_of_not_isUpper (by simp [hupper])] at hlower
      exact hcomma (hlower ▸ hd)
  all_goals
    rw [hlabel] at h
    obtain rfl := Except.ok.inj h
    have hcases := cases_of_keyword (congrArg Prod.fst hlabel)
    simp at hcases

theorem mem_allSyslogTargets {ds : List LogDestination} :
    target ∈ allSyslogTargets ds ↔ ∃ d ∈ ds, target ∈ d.syslogTargets := by
  induction ds with
  | nil => simp [allSyslogTargets]
  | cons d ds ih => simp [allSyslogTargets, ih]

theorem syslogTargets_collect (ds : List LogDestination) :
    (collect ds).syslogTargets = allSyslogTargets ds := by
  obtain _ | ⟨d, _ | ⟨e, ds⟩⟩ := ds
  · rfl
  · exact (List.append_nil _).symm
  · rfl

theorem exists_member_of_forall₂ {ms : List String} {ds : List LogDestination}
    (h : List.Forall₂ (fun a d => parseSingle a = .ok d) ms ds) :
    ∀ d ∈ ds, ∃ a ∈ ms, parseSingle a = .ok d := by
  induction h with
  | nil => exact fun d hd => absurd hd List.not_mem_nil
  | cons hd _ ih =>
    refine List.forall_mem_cons.mpr ⟨⟨_, List.mem_cons_self, hd⟩, fun d hd => ?_⟩
    obtain ⟨a, ha, hparse⟩ := ih d hd
    exact ⟨a, List.mem_cons_of_mem _ ha, hparse⟩

/-- A target of an accepted destination is that of one of its members. -/
theorem exists_member_of_mem_syslogTargets (h : parse s = .ok d) (ht : target ∈ d.syslogTargets) :
    ∃ token ∈ members s, parseSingle token = .ok (.syslog target) := by
  rw [parse_eq_collect, Except.map_eq_ok] at h
  obtain ⟨ds, hds, rfl⟩ := h
  rw [syslogTargets_collect, mem_allSyslogTargets] at ht
  obtain ⟨d, hd, ht⟩ := ht
  obtain ⟨token, htoken, hparse⟩ := exists_member_of_forall₂ (Except.mapM_eq_ok_iff.mp hds) d hd
  refine ⟨token, htoken, ?_⟩
  cases d with
  | syslog found =>
    obtain rfl := List.mem_singleton.mp ht
    exact hparse
  | composite list => exact absurd rfl (parseSingle_ne_composite hparse list)
  | auto | null | devStdout | devStderr | file path => cases ht

/-! ## The forms of the grammar -/

/-- A character of a host is no separator and no white space. -/
theorem of_isHostChar {c : Char} (h : isHostChar c = true) :
    c ≠ ':' ∧ c ≠ ',' ∧ Text.isWhitespace c = false := by
  unfold isHostChar at h
  rw [Bool.or_eq_true, Bool.or_eq_true, decide_eq_true_eq, decide_eq_true_eq] at h
  obtain (h | rfl) | rfl := h
  · refine ⟨?_, ?_, ?_⟩
    · rintro rfl
      exact absurd h (by decide)
    · rintro rfl
      exact absurd h (by decide)
    · simp only [Char.isAlphanum, Char.isAlpha, Char.isUpper, Char.isLower, Char.isDigit,
        Bool.or_eq_true, Bool.and_eq_true, decide_eq_true_eq, UInt32.le_iff_toNat_le,
        ge_iff_le] at h
      have hrange : ((65 ≤ c.toNat ∧ c.toNat ≤ 90) ∨ (97 ≤ c.toNat ∧ c.toNat ≤ 122)) ∨
          (48 ≤ c.toNat ∧ c.toNat ≤ 57) := h
      simp only [Text.isWhitespace, Bool.or_eq_false_iff, Bool.and_eq_false_iff,
        decide_eq_false_iff_not]
      omega
  all_goals decide

theorem isHostChar_toLower {c : Char} (h : isHostChar c = true) : isHostChar c.toLower = true := by
  by_cases hupper : c.isUpper = true
  · have halpha : c.toLower.isAlpha = true := by
      rw [Char.isAlpha_toLower_eq_isAlpha, Char.isAlpha, hupper, Bool.true_or]
    rw [isHostChar, Char.isAlphanum, halpha, Bool.true_or, Bool.true_or, Bool.true_or]
  · rwa [Char.toLower_eq_of_not_isUpper hupper]

/-- A host in lower case. -/
structure IsLowerHost (host : String) : Prop where
  nonempty : host ≠ ""
  isHostChar : ∀ c ∈ host.toList, isHostChar c = true

theorem IsLowerHost.noColon (h : IsLowerHost host) : ':' ∉ host.toList := fun hmem =>
  (of_isHostChar (h.isHostChar _ hmem)).1 rfl

theorem IsLowerHost.trim (h : IsLowerHost host) : Text.trim host = host :=
  Text.trim_eq_self fun c hc => (of_isHostChar (h.isHostChar c hc)).2.2

theorem isLowerHost_toAsciiLowercase (hne : host ≠ "")
    (hchars : ∀ c ∈ host.toList, isHostChar c = true) :
    IsLowerHost (Text.toAsciiLowercase host) := by
  refine ⟨fun hempty => hne ?_, fun c hc => ?_⟩
  · have hlist := congrArg String.toList hempty
    rw [Text.toAsciiLowercase, String.toList_ofList] at hlist
    exact String.toList_injective (List.map_eq_nil_iff.mp hlist)
  · rw [Text.toAsciiLowercase, String.toList_ofList] at hc
    obtain ⟨d, hd, rfl⟩ := List.mem_map.mp hc
    exact isHostChar_toLower (hchars d hd)

/-- A form of the grammar is one member, which is read in lower case. -/
theorem parse_documentedForm (proto : Option SyslogProto) (port : Option ℕ)
    (hchars : ∀ c ∈ host.toList, isHostChar c = true) :
    parse (documentedForm proto host port) =
      parseSyslogRemote (formAddress proto (Text.toAsciiLowercase host) port) := by
  have hlowerChar : ∀ {c : Char}, c.isLower = true → isHostChar c = true := by
    intro c hc
    rw [isHostChar, Char.isAlphanum, Char.isAlpha, hc, Bool.or_true]
    rfl
  have haddress : ∀ c ∈ (formAddress proto host port).toList, isHostChar c = true ∨ c = ':' := by
    intro c hc
    rw [formAddress, String.toList_append, String.toList_append, List.mem_append,
      List.mem_append] at hc
    obtain (hc | hc) | hc := hc
    · obtain _ | p := proto
      · cases hc
      · rw [Option.map_some, Option.getD_some, String.toList_append, List.mem_append] at hc
        exact hc.imp (fun hc => hlowerChar (isLower_of_mem_display hc)) List.mem_singleton.mp
    · exact .inl (hchars c hc)
    · obtain _ | n := port
      · cases hc
      · rw [Option.map_some, Option.getD_some, String.toList_append, List.mem_append] at hc
        refine hc.symm.imp (fun hc => ?_) List.mem_singleton.mp
        rw [isHostChar, Char.isAlphanum, isDigit_of_mem_port hc, Bool.or_true]
        rfl
  have hform : ∀ c ∈ (documentedForm proto host port).toList,
      c ≠ ',' ∧ Text.isWhitespace c = false := by
    intro c hc
    rw [documentedForm, String.toList_append, List.mem_append] at hc
    obtain hc | hc := hc
    · obtain hlower | rfl := of_mem_syslog hc
      · exact (of_isHostChar (hlowerChar hlower)).2
      · decide
    · obtain hhost | rfl := haddress c hc
      · exact (of_isHostChar hhost).2
      · decide
  have hlower : Text.toAsciiLowercase (formAddress proto host port) =
      formAddress proto (Text.toAsciiLowercase host) port := by
    have hproto : Text.toAsciiLowercase ((proto.map fun p => p.display ++ ":").getD "") =
        (proto.map fun p => p.display ++ ":").getD "" := by
      obtain _ | _ | _ := proto <;> rfl
    have hport : Text.toAsciiLowercase ((port.map fun n => ":" ++ toString n).getD "") =
        (port.map fun n => ":" ++ toString n).getD "" := by
      obtain _ | n := port
      · rfl
      · rw [Option.map_some, Option.getD_some, Text.toAsciiLowercase_append, toAsciiLowercase_port]
        rfl
    rw [formAddress, Text.toAsciiLowercase_append, Text.toAsciiLowercase_append, hproto, hport]
    rfl
  rw [parse_of_notMem (Text.trim_eq_self fun c hc => (hform c hc).2) (syslog_append_ne _)
    fun hcomma => (hform _ hcomma).1 rfl, documentedForm, parseSingle_syslog, hlower]

/-- The text up to the first colon. -/
theorem eq_of_append_colon {s' t' t : String} (hs : ':' ∉ s.toList) (hs' : ':' ∉ s'.toList)
    (h : s ++ ":" ++ t = s' ++ ":" ++ t') : s = s' ∧ t = t' := by
  have hsplit := Text.splitOnce_append hs t
  rw [show String.ofList [':'] = ":" from rfl, h] at hsplit
  have hsplit' := Text.splitOnce_append hs' t'
  rw [show String.ofList [':'] = ":" from rfl] at hsplit'
  exact Prod.mk.inj (Option.some.inj (hsplit.symm.trans hsplit'))

/-- A host that is not a word of letters keeps its port. -/
theorem syslogProto_host_port (h : IsLowerHost host)
    (hword : host.toList.all Char.isAlpha = false) (n : ℕ) :
    syslogProto (host ++ ":" ++ toString n) = .ok (.udp, host ++ ":" ++ toString n) := by
  have hstrip : ∀ proto : SyslogProto,
      Text.stripPrefix (proto.display ++ ":") (host ++ ":" ++ toString n) = none := by
    intro proto
    rw [Option.eq_none_iff_forall_ne_some]
    intro t ht
    have hproto : ':' ∉ proto.display.toList := by cases proto <;> decide
    obtain ⟨rfl, -⟩ := eq_of_append_colon h.noColon hproto (Text.stripPrefix_eq_some_iff.mp ht)
    cases proto <;> exact absurd hword (by decide)
  have hsplit := Text.splitOnce_append h.noColon (toString n)
  rw [show String.ofList [':'] = ":" from rfl] at hsplit
  rw [syslogProto, show "udp:" = SyslogProto.udp.display ++ ":" from rfl, hstrip,
    show "tcp:" = SyslogProto.tcp.display ++ ":" from rfl, hstrip, hsplit]
  simp [hword]

/-- The forms that are read as they are documented, for a host in lower case. -/
theorem parseSyslogRemote_formAddress (h : IsLowerHost host) {proto : Option SyslogProto}
    {port : Option ℕ} (hport : ∀ n ∈ port, n < 2 ^ 16)
    (hform : ¬ (proto = none ∧ port.isSome = true ∧ host.toList.all Char.isAlpha = true)) :
    parseSyslogRemote (formAddress proto host port) =
      .ok (.syslog (.remote (proto.getD .udp) host
        (port.getD (proto.getD .udp).defaultPort))) := by
  obtain _ | n := port
  · have hhost := syslogHostPort_host (formAddress proto host none) (proto.getD .udp) h.noColon
    rw [h.trim] at hhost
    refine parseSyslogRemote_of_parts ?_ hhost h.nonempty
    obtain _ | p := proto
    · have hstrip : ∀ proto : SyslogProto, Text.stripPrefix (proto.display ++ ":") host = none := by
        intro proto
        rw [Option.eq_none_iff_forall_ne_some]
        intro t ht
        refine h.noColon ?_
        rw [Text.stripPrefix_eq_some_iff.mp ht, String.toList_append, String.toList_append]
        exact List.mem_append_left _ (List.mem_append_right _ (List.mem_singleton_self _))
      have haddress : formAddress none host none = host := by
        simp [formAddress]
      rw [haddress, syslogProto, show "udp:" = SyslogProto.udp.display ++ ":" from rfl, hstrip,
        show "tcp:" = SyslogProto.tcp.display ++ ":" from rfl, hstrip,
        Text.splitOnce_of_notMem h.noColon]
      rfl
    · have haddress : formAddress (some p) host none = p.display ++ ":" ++ host := by
        simp [formAddress]
      rw [haddress]
      exact syslogProto_display p host
  · have hlt : n < 2 ^ 16 := hport n rfl
    have hhost := syslogHostPort_port (formAddress proto host (some n)) (proto.getD .udp) host hlt
    rw [h.trim] at hhost
    refine parseSyslogRemote_of_parts ?_ hhost h.nonempty
    obtain _ | p := proto
    · have hword : host.toList.all Char.isAlpha = false := by
        by_contra hword
        exact hform ⟨rfl, rfl, Bool.eq_true_of_not_eq_false hword⟩
      have haddress : formAddress none host (some n) = host ++ ":" ++ toString n := by
        simp [formAddress, String.append_assoc]
      rw [haddress]
      exact syslogProto_host_port h hword n
    · have haddress : formAddress (some p) host (some n) =
          p.display ++ ":" ++ (host ++ ":" ++ toString n) := by
        simp [formAddress, String.append_assoc]
      rw [haddress]
      exact syslogProto_display p _

/-- A word of letters before a port alone is taken for a protocol. -/
theorem parseSyslogRemote_word_port (h : IsLowerHost host)
    (hword : host.toList.all Char.isAlpha = true) (n : ℕ) :
    parseSyslogRemote (formAddress none host (some n)) ≠ .ok (.syslog (.remote .udp host n)) := by
  have haddress : formAddress none host (some n) = host ++ ":" ++ toString n := by
    simp [formAddress, String.append_assoc]
  obtain ⟨c, hc⟩ := List.exists_mem_of_ne_nil _ fun hnil : host.toList = [] =>
    h.nonempty (String.toList_injective hnil)
  have halpha := List.all_eq_true.mp hword
  have hnotDigit : ∀ d : Char, d.isAlpha = true → d.isDigit = false := by
    intro d hd
    simp only [Char.isAlpha, Char.isUpper, Char.isLower, Bool.or_eq_true, Bool.and_eq_true,
      decide_eq_true_eq, UInt32.le_iff_toNat_le, ge_iff_le] at hd
    have hrange : (65 ≤ d.toNat ∧ d.toNat ≤ 90) ∨ (97 ≤ d.toNat ∧ d.toNat ≤ 122) := hd
    simp only [Char.isDigit, Bool.and_eq_false_iff, decide_eq_false_iff_not, ge_iff_le,
      UInt32.le_iff_toNat_le]
    show ¬ 48 ≤ d.toNat ∨ ¬ d.toNat ≤ 57
    omega
  intro hparse
  rw [haddress, parseSyslogRemote] at hparse
  obtain ⟨⟨proto, rest⟩, hproto, hparse⟩ := Except.bind_eq_ok.mp hparse
  obtain ⟨⟨host', port⟩, hhost, hparse⟩ := Except.bind_eq_ok.mp hparse
  simp only [String.isEmpty_iff] at hparse
  split_ifs at hparse
  obtain ⟨rfl, rfl, rfl⟩ : proto = .udp ∧ host' = host ∧ port = n := by
    simpa using Except.ok.inj hparse
  unfold syslogProto at hproto
  split at hproto
  · next t hudp =>
    -- The host is `udp`: the port is taken for the host.
    obtain ⟨-, rfl⟩ := Prod.mk.inj (Except.ok.inj hproto)
    have hudpColon : ':' ∉ "udp".toList := by decide
    have hsplit := eq_of_append_colon h.noColon hudpColon
      (Text.stripPrefix_eq_some_iff.mp hudp)
    rw [← hsplit.2, syslogHostPort_host _ _ (notMem_port (by decide))] at hhost
    have hsame := (Prod.mk.inj (Except.ok.inj hhost)).1
    rw [← hsame] at hc
    have hdigit := isDigit_of_mem_port (Text.mem_of_mem_trim hc)
    rw [← hsame] at halpha
    rw [hnotDigit c (halpha c hc)] at hdigit
    cases hdigit
  · split at hproto
    · cases (Prod.mk.inj (Except.ok.inj hproto)).1
    · have hsplit := Text.splitOnce_append h.noColon (toString port)
      rw [show String.ofList [':'] = ":" from rfl] at hsplit
      rw [hsplit] at hproto
      have hcond : ¬ ((host' ++ ":" ++ toString port).toList.all fun c =>
          c.isDigit || c = '.' || c = ':') ∧ '.' ∉ host'.toList ∧
          host'.toList.all Char.isAlpha := by
        refine ⟨fun hall => ?_, fun hdot => ?_, hword⟩
        · have hc' : c ∈ (host' ++ ":" ++ toString port).toList := by
            rw [String.toList_append, String.toList_append]
            exact List.mem_append_left _ (List.mem_append_left _ hc)
          have hchar := List.all_eq_true.mp hall c hc'
          rw [hnotDigit c (halpha c hc), Bool.false_or, Bool.or_eq_true, decide_eq_true_eq,
            decide_eq_true_eq] at hchar
          obtain rfl | rfl := hchar
          · exact absurd (halpha _ hc) (by decide)
          · exact h.noColon hc
        · exact absurd (halpha _ hdot) (by decide)
      simp only [if_pos hcond] at hproto
      cases hproto

/-- The documented grammar is accepted except for a host of one word with a port and without a
protocol; and every accepted remote target is read back from its printed form. -/
theorem acceptsGrammar_iff {host : String} {port : Option ℕ} (hne : host ≠ "")
    (hchars : ∀ c ∈ host.toList, isHostChar c = true) (hport : ∀ n ∈ port, n < 2 ^ 16)
    (proto : Option SyslogProto) :
    (AcceptsForm proto host port ↔
        ¬ (proto = none ∧ port.isSome = true ∧ host.toList.all Char.isAlpha = true)) ∧
      ∀ s d p h n, parse s = .ok d → .remote p h n ∈ d.syslogTargets →
        parse (SyslogTarget.remote p h n).display = .ok (.syslog (.remote p h n)) := by
  have hlower := isLowerHost_toAsciiLowercase hne hchars
  have hword : (Text.toAsciiLowercase host).toList.all Char.isAlpha =
      host.toList.all Char.isAlpha := by
    rw [Text.toAsciiLowercase, String.toList_ofList, List.all_map]
    congr 1
    funext c
    exact Char.isAlpha_toLower_eq_isAlpha c
  rw [AcceptsForm, parse_documentedForm proto port hchars, ← hword]
  refine ⟨⟨?_, ?_⟩, ?_⟩
  · rintro haccepts ⟨rfl, hsome, halpha⟩
    obtain ⟨n, rfl⟩ := Option.isSome_iff_exists.mp hsome
    exact parseSyslogRemote_word_port hlower halpha n haccepts
  · exact fun hform => parseSyslogRemote_formAddress hlower hport hform
  · intro s d p h n hparse hmem
    obtain ⟨token, htoken, hsingle⟩ := exists_member_of_mem_syslogTargets hparse hmem
    exact parse_display (accepted_of_parseSingle (of_mem_tokens htoken).2 hsingle) p

/-- The condition at work: a host with a dot, and a port. -/
theorem acceptsForm_of_dotted_host :
    (AcceptsForm none "logs.Internal" (some 1514) ↔
        ¬ (none = (none : Option SyslogProto) ∧ (some 1514).isSome = true ∧
          "logs.Internal".toList.all Char.isAlpha = true)) ∧
      ∀ s d p h n, parse s = .ok d → .remote p h n ∈ d.syslogTargets →
        parse (SyslogTarget.remote p h n).display = .ok (.syslog (.remote p h n)) :=
  acceptsGrammar_iff (by decide) (List.all_eq_true.mp (by decide)) (by simp) none

/-- A host of one word cannot be given a port alone: it is refused as a protocol. -/
theorem not_acceptsForm_of_word :
    ¬ AcceptsForm none "localhost" (some 514) := by
  have hparse : (parse (documentedForm none "localhost" (some 514))).isOk = false := by decide
  intro haccepts
  rw [show parse (documentedForm none "localhost" (some 514)) = _ from haccepts] at hparse
  cases hparse

end LogDestination

end Rsupervisord
