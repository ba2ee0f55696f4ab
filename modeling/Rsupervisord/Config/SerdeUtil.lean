import Rsupervisord.Program.State
import Rsupervisord.Support.Numerals

/-!
# Reading and writing settings

The conversions between settings and their texts: loose booleans, byte sizes, octal modes, lists,
durations and bind addresses. A configuration is written and read again when its paths are
translated, so what is written has to be read back.

## Main definitions

* `stringToBytes`, `bytesToString`: byte sizes with a unit.
* `stringToChmod`, `chmodToString`: octal modes.
* `normalizeHttpBind`: the address that a listener is bound to.

## Main results

* `settings_read_back`: byte sizes, modes and bind addresses are read back as they were.
-/

namespace Rsupervisord

/-- What the conversions use of the standard library. -/
structure TextNumbers where
  /-- `str::to_uppercase`. -/
  toUppercase : String → String
  /-- A text as a binary fraction, times a unit, as a `usize`. -/
  scaled : String → ℕ → Option ℕ

/-- `usize::MAX + 1`. -/
def usizeBound : ℕ := 2 ^ 64

/-! ## Numbers and switches -/

/-- `string_to_bool`. -/
def stringToBool (s : String) : Except ProgramError Bool :=
  let trimmed := Text.trim s
  if ["1", "true", "yes", "on"].any (Text.eqIgnoreAsciiCase trimmed) then .ok true
  else if ["0", "false", "no", "off"].any (Text.eqIgnoreAsciiCase trimmed) then .ok false
  else .error (.configError s!"Invalid boolean value '{trimmed}'")

/-- A number with a unit, in `string_to_bytes`. -/
def scaledBytes (std : TextNumbers) (num : String) (unit : ℕ) (unitName trimmed : String) :
    Except ProgramError ℕ :=
  match std.scaled (Text.trim num) unit with
  | some n => .ok n
  | none => .error (.configError s!"Invalid {unitName} value: '{trimmed}'")

/-- `string_to_bytes`. -/
def stringToBytes (std : TextNumbers) (s : String) : Except ProgramError ℕ :=
  let trimmed := Text.trim s
  if trimmed = "" then .error (.configError "Byte size string cannot be empty")
  else
    let upper := std.toUppercase trimmed
    match Text.stripSuffix "GB" upper <|> Text.stripSuffix "G" upper with
    | some num => scaledBytes std num (1024 ^ 3) "gigabyte" trimmed
    | none =>
        match Text.stripSuffix "MB" upper <|> Text.stripSuffix "M" upper with
        | some num => scaledBytes std num (1024 ^ 2) "megabyte" trimmed
        | none =>
            match Text.stripSuffix "KB" upper <|> Text.stripSuffix "K" upper with
            | some num => scaledBytes std num 1024 "kilobyte" trimmed
            | none =>
                match Text.stripSuffix "B" upper with
                | some num =>
                    (Text.parseRadix 10 usizeBound (Text.trim num)).mapError fun _ =>
                      .configError s!"Invalid byte value: '{trimmed}'"
                | none =>
                    (Text.parseRadix 10 usizeBound upper).mapError fun _ =>
                      .configError s!"Invalid numeric byte value: '{trimmed}'"

/-- `bytes_to_string`. -/
def bytesToString (bytes : ℕ) : String :=
  if 0 < bytes ∧ bytes % 1024 ^ 3 = 0 then s!"{bytes / 1024 ^ 3}GB"
  else if 0 < bytes ∧ bytes % 1024 ^ 2 = 0 then s!"{bytes / 1024 ^ 2}MB"
  else if 0 < bytes ∧ bytes % 1024 = 0 then s!"{bytes / 1024}KB"
  else s!"{bytes}B"

/-- `CHMOD_MASK`. -/
def chmodMask : ℕ := 0o7777

/-- `string_to_chmod`. -/
def stringToChmod (s : String) : Except ProgramError ℕ :=
  let trimmed := Text.trim s
  if trimmed = "" then .error (.configError "Invalid octal mode '': empty value")
  else
    let digits := (Text.stripPrefix "0o" trimmed <|> Text.stripPrefix "0O" trimmed).getD trimmed
    match Text.parseRadix 8 (2 ^ 32) digits with
    | .ok mode => .ok (mode &&& chmodMask)
    | .error e => .error (.configError s!"Invalid octal mode '{trimmed}': {e}")

/-- `chmod_to_string`. -/
def chmodToString (mode : ℕ) : String := Text.padDigits 8 4 (mode &&& chmodMask)

/-- `string_to_umask`. -/
def stringToUmask (s : String) : Except ProgramError ℕ :=
  let trimmed := Text.trim s
  match Text.stripPrefix "0o" trimmed <|> Text.stripPrefix "0O" trimmed with
  | some rest =>
      (Text.parseRadix 8 (2 ^ 32) rest).mapError fun e =>
        .configError s!"Invalid octal umask '{trimmed}': {e}"
  | none =>
      if trimmed.toList.head? = some '0' ∧ 1 < (Text.utf8 trimmed).length then
        (Text.parseRadix 8 (2 ^ 32) trimmed).mapError fun e =>
          .configError s!"Invalid octal umask '{trimmed}': {e}"
      else
        (Text.parseRadix 10 (2 ^ 32) trimmed).mapError fun e =>
          .configError s!"Invalid umask '{trimmed}': {e}"

/-- `string_to_duration`, in seconds. -/
def stringToDuration (s : String) : Except ProgramError ℕ :=
  (Text.parseRadix 10 (2 ^ 64) s).mapError fun e =>
    .configError s!"invalid duration '{s}': {e}"

/-! ## Lists -/

/-- A character between the items of a list. -/
def isListSeparator (c : Char) : Bool :=
  c = ',' || c = ' ' || c = '\t' || c = '\r' || c = '\n'

/-- `string_to_str_list`. -/
def stringToStrList (s : String) : List String :=
  ((s.toList.splitOnP isListSeparator).map fun item => Text.trim (.ofList item)).filter (· ≠ "")

/-- `string_to_i32_list`. -/
def stringToI32List (s : String) : Except ProgramError (List ℤ) :=
  (stringToStrList s).mapM fun token =>
    (Text.parseSigned (-2 ^ 31) (2 ^ 31 - 1) token).mapError fun e =>
      .configError s!"Invalid integer '{token}' in list: {e}"

/-! ## Bind addresses -/

/-- `normalize_http_bind`. -/
def normalizeHttpBind (bind : String) : String :=
  let trimmed := Text.trim bind
  if trimmed = "" then ""
  else
    match Text.stripPrefix "*" trimmed with
    | some port => "0.0.0.0:" ++ (Text.stripPrefix ":" port).getD port
    | none =>
        match Text.stripPrefix ":" trimmed with
        | some port => "0.0.0.0:" ++ port
        | none => if trimmed.toList.all Char.isDigit then "0.0.0.0:" ++ trimmed else trimmed

/-! ## What is written is read back -/

/-- A text that the conversion to upper case leaves alone. -/
def IsUpperWord (s : String) : Prop := ∀ c ∈ s.toList, c.isDigit = true ∨ c.isUpper = true

/-- The standard library on texts of digits and capital letters: they are upper case, and numbers
that a binary fraction holds are scaled without loss up to the largest `usize`. -/
structure TextNumbers.Exact (std : TextNumbers) : Prop where
  toUppercase : ∀ {s}, IsUpperWord s → std.toUppercase s = s
  scaled : ∀ {n} k, n ≤ 2 ^ 53 →
    std.scaled (toString n) (1024 ^ k) = some (min (n * 1024 ^ k) (usizeBound - 1))

theorem isDigit_of_mem_toString {n : ℕ} {c : Char} (hc : c ∈ (toString n).toList) :
    c.isDigit = true := by
  have hc' : c ∈ n.repr.toList := hc
  rw [Nat.toList_repr] at hc'
  exact Nat.isDigit_of_mem_toDigits (by decide) (by decide) hc'

theorem isUpperWord_append (n : ℕ) {unit : String} (hunit : unit.toList.all Char.isUpper = true) :
    IsUpperWord (toString n ++ unit) := by
  intro c hc
  rw [String.toList_append, List.mem_append] at hc
  obtain hc | hc := hc
  · exact .inl (isDigit_of_mem_toString hc)
  · exact .inr (List.all_eq_true.mp hunit c hc)

theorem IsUpperWord.trim {s : String} (h : IsUpperWord s) : Text.trim s = s := by
  refine Text.trim_eq_self fun c hc => ?_
  have hc := h c hc
  simp only [Char.isDigit, Char.isUpper, Bool.and_eq_true, decide_eq_true_eq, ge_iff_le,
    UInt32.le_iff_toNat_le] at hc
  change 48 ≤ c.toNat ∧ c.toNat ≤ 57 ∨ 65 ≤ c.toNat ∧ c.toNat ≤ 90 at hc
  simp only [Text.isWhitespace, Bool.or_eq_false_iff, Bool.and_eq_false_iff,
    decide_eq_false_iff_not]
  omega

/-- A suffix of letters behind a number is a suffix of the letters. -/
theorem stripSuffix_toString (n : ℕ) {suf unit : String}
    (hsuf : suf.toList.all (fun c => !c.isDigit) = true) :
    (¬ suf.toList <:+ unit.toList → Text.stripSuffix suf (toString n ++ unit) = none) ∧
      Text.stripSuffix unit (toString n ++ unit) = some (toString n) := by
  constructor
  · intro hne
    refine if_neg fun hsuffix => hne ?_
    rw [List.isSuffixOf_iff_suffix, String.toList_append] at hsuffix
    obtain hsuffix' | ⟨ds, hds⟩ :=
      List.suffix_or_suffix_of_suffix hsuffix (List.suffix_append _ unit.toList)
    · exact hsuffix'
    · -- What is before the letters is a part of the number.
      obtain ⟨before, hbefore⟩ := hsuffix
      rw [← hds, ← List.append_assoc] at hbefore
      have hnumber := List.append_cancel_right hbefore
      cases ds with
      | nil => exact hds ▸ List.suffix_refl _
      | cons d ds =>
        have hdigit := isDigit_of_mem_toString (hnumber ▸ List.mem_append_right before
          List.mem_cons_self : d ∈ (toString n).toList)
        have hd := List.all_eq_true.mp hsuf d (hds ▸ by simp)
        rw [hdigit] at hd
        cases hd
  · rw [Text.stripSuffix_eq_some (String.toList_append), String.ofList_toList]

/-- What `string_to_bytes` does with a number and its unit. -/
theorem stringToBytes_unit {std : TextNumbers} (h : std.Exact) (n : ℕ) {unit : String}
    (hunit : unit.toList.all Char.isUpper = true) :
    stringToBytes std (toString n ++ unit) =
      match Text.stripSuffix "GB" (toString n ++ unit) <|>
        Text.stripSuffix "G" (toString n ++ unit) with
      | some num => scaledBytes std num (1024 ^ 3) "gigabyte" (toString n ++ unit)
      | none =>
          match Text.stripSuffix "MB" (toString n ++ unit) <|>
            Text.stripSuffix "M" (toString n ++ unit) with
          | some num => scaledBytes std num (1024 ^ 2) "megabyte" (toString n ++ unit)
          | none =>
              match Text.stripSuffix "KB" (toString n ++ unit) <|>
                Text.stripSuffix "K" (toString n ++ unit) with
              | some num => scaledBytes std num 1024 "kilobyte" (toString n ++ unit)
              | none =>
                  match Text.stripSuffix "B" (toString n ++ unit) with
                  | some num =>
                      (Text.parseRadix 10 usizeBound (Text.trim num)).mapError fun _ =>
                        .configError s!"Invalid byte value: '{toString n ++ unit}'"
                  | none =>
                      (Text.parseRadix 10 usizeBound (toString n ++ unit)).mapError fun _ =>
                        .configError s!"Invalid numeric byte value: '{toString n ++ unit}'" := by
  have hplain := isUpperWord_append n hunit
  have hne : toString n ++ unit ≠ "" := by
    rw [Ne, String.append_eq_empty_iff]
    exact fun hempty => Nat.repr_ne_empty hempty.1
  unfold stringToBytes
  simp only [hplain.trim, h.toUppercase hplain, if_neg hne]

theorem scaledBytes_toString {std : TextNumbers} (h : std.Exact) {n k : ℕ} (hn : n ≤ 2 ^ 53)
    (hbound : n * 1024 ^ k < usizeBound) (unitName trimmed : String) :
    scaledBytes std (toString n) (1024 ^ k) unitName trimmed = .ok (n * 1024 ^ k) := by
  have htrim : Text.trim (toString n) = toString n :=
    Text.trim_eq_self fun c hc => Text.isWhitespace_of_mem_toString hc
  rw [scaledBytes, htrim, h.scaled k hn, Nat.min_eq_left (Nat.le_sub_one_of_lt hbound)]

/-- A byte size is read back. -/
theorem stringToBytes_bytesToString {std : TextNumbers} (h : std.Exact) {bytes : ℕ}
    (hbytes : bytes ≤ 2 ^ 63) : stringToBytes std (bytesToString bytes) = .ok bytes := by
  have hsmall : bytes < usizeBound := lt_of_le_of_lt hbytes (by decide)
  have hstrip : ∀ (n : ℕ) {suf unit : String}, suf.toList.all (fun c => !c.isDigit) = true →
      ¬ suf.toList <:+ unit.toList → Text.stripSuffix suf (toString n ++ unit) = none :=
    fun n _ _ hsuf => (stripSuffix_toString n hsuf).1
  have hunit : ∀ (n : ℕ) (unit : String), Text.stripSuffix unit (toString n ++ unit) =
      some (toString n) := fun n unit => by
    rw [Text.stripSuffix_eq_some String.toList_append, String.ofList_toList]
  unfold bytesToString
  split_ifs with hgb hmb hkb
  -- The size is written in the largest unit that divides it; the units before are not at its end.
  · show stringToBytes std (toString (bytes / 1024 ^ 3) ++ "GB") = _
    rw [stringToBytes_unit h _ (by decide), hunit]
    refine (scaledBytes_toString h (k := 3) (by omega) (by omega) _ _).trans ?_
    rw [Nat.div_mul_cancel (Nat.dvd_of_mod_eq_zero hgb.2)]
  · show stringToBytes std (toString (bytes / 1024 ^ 2) ++ "MB") = _
    rw [stringToBytes_unit h _ (by decide), hstrip _ (by decide) (by decide),
      hstrip _ (by decide) (by decide), hunit]
    refine (scaledBytes_toString h (k := 2) (by omega) (by omega) _ _).trans ?_
    rw [Nat.div_mul_cancel (Nat.dvd_of_mod_eq_zero hmb.2)]
  · show stringToBytes std (toString (bytes / 1024) ++ "KB") = _
    rw [stringToBytes_unit h _ (by decide), hstrip _ (by decide) (by decide),
      hstrip _ (by decide) (by decide), hstrip _ (by decide) (by decide),
      hstrip _ (by decide) (by decide), hunit]
    refine (scaledBytes_toString h (k := 1) (by omega) (by omega) _ _).trans ?_
    rw [Nat.pow_one, Nat.div_mul_cancel (Nat.dvd_of_mod_eq_zero hkb.2)]
  · show stringToBytes std (toString bytes ++ "B") = _
    rw [stringToBytes_unit h _ (by decide), hstrip _ (by decide) (by decide),
      hstrip _ (by decide) (by decide), hstrip _ (by decide) (by decide),
      hstrip _ (by decide) (by decide), hstrip _ (by decide) (by decide),
      hstrip _ (by decide) (by decide), hunit]
    have htrim : Text.trim (toString bytes) = toString bytes :=
      Text.trim_eq_self fun c hc => Text.isWhitespace_of_mem_toString hc
    -- Plain bytes are read as an integer, without a fraction.
    have hdigits : toString bytes = Text.padDigits 10 0 bytes := by
      rw [Text.padDigits, Nat.zero_sub, List.replicate_zero, List.nil_append]
      exact Nat.repr_eq_ofList_toDigits
    simp only [htrim]
    rw [hdigits, Text.parseRadix_pad (by decide) (by decide) hsmall]
    rfl

/-- A mode is read back, as far as it is written. -/
theorem stringToChmod_chmodToString (mode : ℕ) :
    stringToChmod (chmodToString mode) = .ok (mode &&& chmodMask) := by
  have hmode : mode &&& chmodMask < 2 ^ 32 := lt_of_le_of_lt Nat.and_le_right (by decide)
  have hdigits : ∀ c ∈ (chmodToString mode).toList, c.isDigit = true := by
    intro c hc
    rw [chmodToString, Text.padDigits, String.toList_ofList, List.mem_append] at hc
    obtain hc | hc := hc
    · rw [List.eq_of_mem_replicate hc]
      rfl
    · exact Nat.isDigit_of_mem_toDigits (by decide) (by decide) hc
  have htrim : Text.trim (chmodToString mode) = chmodToString mode :=
    IsUpperWord.trim fun c hc => .inl (hdigits c hc)
  have hne : chmodToString mode ≠ "" := by
    intro hempty
    have htoList := congrArg String.toList hempty
    simp [chmodToString, Text.padDigits] at htoList
  -- A mode is written in digits only, so that none of the prefixes is before it.
  have hstrip : ∀ pre : String, (∃ c ∈ pre.toList, c.isDigit = false) →
      Text.stripPrefix pre (chmodToString mode) = none := by
    rintro pre ⟨c, hc, hdigit⟩
    cases hrest : Text.stripPrefix pre (chmodToString mode) with
    | none => rfl
    | some rest =>
      have hmem := hdigits c (by
        rw [Text.stripPrefix_eq_some_iff.mp hrest, String.toList_append]
        exact List.mem_append_left _ hc)
      rw [hdigit] at hmem
      cases hmem
  unfold stringToChmod
  simp only [htrim, if_neg hne, hstrip "0o" ⟨'o', by decide, rfl⟩,
    hstrip "0O" ⟨'O', by decide, rfl⟩]
  have hread : Text.parseRadix 8 (2 ^ 32) (chmodToString mode) = .ok (mode &&& chmodMask) :=
    Text.parseRadix_pad (by decide) (by decide) hmode 4
  have hdefault : (none <|> none : Option String).getD (chmodToString mode) =
      chmodToString mode := rfl
  simp only [hdefault, hread, Nat.land_assoc, Nat.and_self]

/-- What stays as it is. -/
theorem normalizeHttpBind_eq_self {bind : String} (htrim : Text.trim bind = bind)
    (hfirst : ∀ c ∈ bind.toList.head?, c ≠ '*' ∧ c ≠ ':')
    (hdigits : bind.toList.all Char.isDigit = false) : normalizeHttpBind bind = bind := by
  have hstrip : ∀ {c : Char}, (∀ d ∈ bind.toList.head?, d ≠ c) →
      Text.stripPrefix (.singleton c) bind = none := by
    intro c hc
    cases hrest : Text.stripPrefix (.singleton c) bind with
    | none => rfl
    | some rest =>
      exact absurd rfl (hc c (by rw [Text.stripPrefix_eq_some_iff.mp hrest]; simp))
  have hstar : Text.stripPrefix "*" bind = none :=
    hstrip (c := '*') fun c hc => (hfirst c hc).1
  have hcolon : Text.stripPrefix ":" bind = none :=
    hstrip (c := ':') fun c hc => (hfirst c hc).2
  unfold normalizeHttpBind
  simp only [htrim, hstar, hcolon, hdigits]
  by_cases hempty : bind = ""
  · rw [if_pos hempty, hempty]
  · rw [if_neg hempty]
    rfl

/-- The result is empty, a port behind the wildcard address, or the trimmed text. -/
theorem normalizeHttpBind_cases (bind : String) :
    normalizeHttpBind bind = "" ∨
      (∃ start port, Text.trim bind = start ++ port ∧
        normalizeHttpBind bind = "0.0.0.0:" ++ port) ∨
      normalizeHttpBind bind = Text.trim bind ∧
        (∀ c ∈ (Text.trim bind).toList.head?, c ≠ '*' ∧ c ≠ ':') ∧
        (Text.trim bind).toList.all Char.isDigit = false := by
  have hstrip : ∀ {pre text port : String}, Text.stripPrefix pre text = some port →
      text = pre ++ port := fun h => Text.stripPrefix_eq_some_iff.mp h
  have hnone : ∀ {c : Char}, Text.stripPrefix (.singleton c) (Text.trim bind) = none →
      ∀ d ∈ (Text.trim bind).toList.head?, d ≠ c := by
    rintro c hc d hd rfl
    obtain ⟨rest, hrest⟩ := List.head?_eq_some_iff.mp hd
    have htoList : (Text.trim bind).toList = (String.singleton d).toList ++ rest := by
      simpa using hrest
    rw [Text.stripPrefix_eq_some htoList] at hc
    cases hc
  unfold normalizeHttpBind
  simp only
  by_cases hempty : Text.trim bind = ""
  · exact .inl (if_pos hempty)
  rw [if_neg hempty]
  cases hstar : Text.stripPrefix "*" (Text.trim bind) with
  | some port =>
    refine .inr (.inl ?_)
    cases hcolon : Text.stripPrefix ":" port with
    | some port' =>
      refine ⟨"*" ++ ":", port', ?_, by simp only [hcolon, Option.getD_some]⟩
      rw [hstrip hstar, hstrip hcolon, String.append_assoc]
    | none => exact ⟨"*", port, hstrip hstar, by simp only [hcolon, Option.getD_none]⟩
  | none =>
    cases hcolon : Text.stripPrefix ":" (Text.trim bind) with
    | some port => exact .inr (.inl ⟨":", port, hstrip hcolon, rfl⟩)
    | none =>
      cases hdigits : (Text.trim bind).toList.all Char.isDigit with
      | true => exact .inr (.inl ⟨"", Text.trim bind, String.empty_append.symm, if_pos rfl⟩)
      | false =>
        refine .inr (.inr ⟨?_, fun d hd =>
          ⟨hnone (c := '*') hstar d hd, hnone (c := ':') hcolon d hd⟩, rfl⟩)
        simp only [Bool.false_eq_true, if_false]

/-- An address that is normalized stays as it is. -/
theorem normalizeHttpBind_normalizeHttpBind (bind : String) :
    normalizeHttpBind (normalizeHttpBind bind) = normalizeHttpBind bind := by
  obtain hempty | ⟨start, port, htrim, hport⟩ | ⟨htrim, hfirst, hdigits⟩ :=
    normalizeHttpBind_cases bind
  · rw [hempty]
    rfl
  · -- What is behind the wildcard address ends as the given one does.
    have hlast := Text.last_of_trim_eq_self (Text.trim_trim bind)
    have htoList : ("0.0.0.0:" ++ port).toList = "0.0.0.0:".toList ++ port.toList :=
      String.toList_append
    rw [hport]
    refine normalizeHttpBind_eq_self (Text.trim_eq_self_of_ends ?_ ?_) ?_ ?_
    · rw [htoList]
      intro c hc
      obtain rfl := Option.some.inj (hc : some '0' = some c)
      rfl
    · intro c hc
      rw [htoList, List.getLast?_append] at hc
      cases hlastPort : port.toList.getLast? with
      | none =>
        rw [hlastPort] at hc
        obtain rfl := Option.some.inj (hc : some ':' = some c)
        rfl
      | some d =>
        rw [hlastPort] at hc
        obtain rfl := Option.some.inj (hc : some d = some c)
        refine hlast d ?_
        rw [htrim, String.toList_append, List.getLast?_append, hlastPort]
        rfl
    · rw [htoList]
      intro c hc
      obtain rfl := Option.some.inj (hc : some '0' = some c)
      decide
    · rw [htoList, List.all_append]
      rfl
  · rw [htrim]
    exact normalizeHttpBind_eq_self (Text.trim_trim bind) hfirst hdigits

/-- Byte sizes, modes and bind addresses are read back as they were; a mode as far as it is
written. -/
theorem settings_read_back {std : TextNumbers} (h : std.Exact) :
    (∀ bytes ≤ 2 ^ 63, stringToBytes std (bytesToString bytes) = .ok bytes) ∧
      (∀ mode, stringToChmod (chmodToString mode) = .ok (mode &&& chmodMask)) ∧
      ∀ bind, normalizeHttpBind (normalizeHttpBind bind) = normalizeHttpBind bind :=
  ⟨fun _ => stringToBytes_bytesToString h, stringToChmod_chmodToString,
    normalizeHttpBind_normalizeHttpBind⟩

/-- The conversions on decimal digits. -/
def TextNumbers.decimal : TextNumbers where
  toUppercase := Text.toAsciiUppercase
  scaled num unit := (Text.digitsValue num.toList).map fun n => min (n * unit) (usizeBound - 1)

theorem TextNumbers.exact_decimal : TextNumbers.decimal.Exact where
  toUppercase {s} h := by
    have hchars : s.toList.map Char.toUpper = s.toList.map id := by
      refine List.map_congr_left fun c hc => ?_
      have hc := h c hc
      simp only [Char.isDigit, Char.isUpper, Bool.and_eq_true, decide_eq_true_eq, ge_iff_le,
        UInt32.le_iff_toNat_le] at hc
      change 48 ≤ c.toNat ∧ c.toNat ≤ 57 ∨ 65 ≤ c.toNat ∧ c.toNat ≤ 90 at hc
      refine dif_neg fun hlower => ?_
      have hle : 97 ≤ c.toNat := UInt32.le_iff_toNat_le.mp hlower.1
      omega
    show String.ofList (s.toList.map Char.toUpper) = s
    rw [hchars, List.map_id, String.ofList_toList]
  scaled {n} k _ := by
    show (Text.digitsValue (toString n).toList).map _ = _
    rw [Text.digitsValue_toString, Option.map_some]

/-- Ten kilobytes, a mode and a port. -/
theorem settings_read_back_decimal : stringToBytes .decimal (bytesToString 10240) = .ok 10240 ∧
    stringToChmod (chmodToString 0o700) = .ok 0o700 ∧
    normalizeHttpBind (normalizeHttpBind ":9001") = normalizeHttpBind ":9001" :=
  have h := settings_read_back TextNumbers.exact_decimal
  ⟨h.1 10240 (by decide), h.2.1 0o700, h.2.2 ":9001"⟩

end Rsupervisord
