import Rsupervisord.Support.FormCode
import Rsupervisord.Support.TextSplit
import Rsupervisord.Support.Utf8

/-!
# Percent-decoded tokens

`percent_decode_string` decodes the token in the query of a request. It agrees with the reference
decoder unless an escape or a plus is among the two bytes behind a percent sign that escapes
nothing: these two bytes are taken together with the percent sign, and a digit behind a plus is a
hexadecimal number for the standard library.

## Main definitions

* `percentDecodeString`: the function.
* `PercentDecode.keepsEscapes`: the texts for which it is the reference decoder.

## Main results

* `percentDecodeString_eq_iff`: the texts that are decoded as by the reference decoder.
-/

namespace Rsupervisord

open FormCode Text

/-- The digits of a number with a sign. -/
def unsigned : List UInt8 → Option (List UInt8)
  | [] => none
  | [b] => if b = plus ∨ b = 45 then none else some [b]
  | b :: b' :: rest => some (if b = plus then b' :: rest else b :: b' :: rest)

/-- One more digit, unless the number overflows. -/
def pushDigit (n : ℕ) (b : UInt8) : Option ℕ := do
  let d ← hexValue b
  if n * 16 + d < 256 then some (n * 16 + d) else none

/-- `u8::from_str_radix` with radix 16. -/
def u8FromHex (src : List UInt8) : Option UInt8 := do
  let digits ← unsigned src
  let n ← digits.foldlM pushDigit 0
  some (.ofNat n)

/-- The byte that `percent_decode_string` reads from the two bytes behind a percent sign. -/
def readEscape (h1 h2 : UInt8) : Option UInt8 :=
  (fromUtf8 [h1, h2]).bind fun hexStr => u8FromHex (utf8 hexStr)

/-- The loop of `percent_decode_string`. -/
def percentDecodeBytes : List UInt8 → List UInt8
  | [] => []
  | b :: rest =>
    if b = percent then
      match rest with
      | h1 :: h2 :: rest =>
        match readEscape h1 h2 with
        | some val => val :: percentDecodeBytes rest
        | none => percent :: h1 :: h2 :: percentDecodeBytes rest
      | [h1] => [percent, h1]
      | [] => [percent]
    else if b = plus then space :: percentDecodeBytes rest
    else b :: percentDecodeBytes rest

/-- `percent_decode_string`. -/
def percentDecodeString (s : String) : String := (fromUtf8 (percentDecodeBytes (utf8 s))).getD s

/-- The token that a pair of the query holds. -/
def tokenOfPair (pair : String) : Option String :=
  match splitOnce '=' pair with
  | some (k, v) => if k = "token" then some (percentDecodeString v) else none
  | none => none

/-- The query in `attempts_from_request`: its first token. -/
def queryToken (query : String) : Option String := (split '&' query).findSome? tokenOfPair

/-- Behind a percent sign that escapes nothing, the two bytes that are taken with it hold neither a
plus nor the beginning of an escape. -/
def keepsEscapes : List UInt8 → Bool
  | [] => true
  | b :: rest =>
    if b = percent then
      match rest with
      | h1 :: h2 :: rest =>
        if (hexByte h1 h2).isSome then keepsEscapes rest
        else h1 ≠ plus && h2 ≠ plus && !startsEscape (h1 :: h2 :: rest) &&
          !startsEscape (h2 :: rest) && keepsEscapes rest
      | [h1] => h1 ≠ plus
      | [] => true
    else keepsEscapes rest

variable {b h1 h2 x y v : UInt8} {bs code rest : List UInt8} {s text plain : String}

/-! ## Hexadecimal numbers -/

theorem pushDigit_of_hexValue {n m : ℕ} (h : hexValue b = some m) (hlt : n * 16 + m < 256) :
    pushDigit n b = some (n * 16 + m) := by
  rw [pushDigit, h]
  exact if_pos hlt

theorem pushDigit_of_hexValue_none {n : ℕ} (h : hexValue b = none) : pushDigit n b = none := by
  rw [pushDigit, h]
  rfl

/-- A number of two digits. -/
theorem u8FromHex_pair (hplus : x ≠ plus) : u8FromHex [x, y] = hexByte x y := by
  have hunsigned : unsigned [x, y] = some [x, y] := congrArg some (if_neg hplus)
  rw [u8FromHex, hunsigned, hexByte]
  cases hx : hexValue x with
  | none => simp [pushDigit_of_hexValue_none hx]
  | some n =>
    have hn := (ne_of_hexValue hx).1
    cases hy : hexValue y with
    | none => simp [pushDigit_of_hexValue hx (n := 0) (by omega), pushDigit_of_hexValue_none hy]
    | some m =>
      have hm := (ne_of_hexValue hy).1
      simp [pushDigit_of_hexValue hx (n := 0) (by omega),
        pushDigit_of_hexValue hy (n := n) (by omega), Nat.mul_comm]

/-- A number of one digit behind a plus. -/
theorem u8FromHex_plus : u8FromHex [plus, y] = (hexValue y).map .ofNat := by
  have hunsigned : unsigned [plus, y] = some [y] := rfl
  rw [u8FromHex, hunsigned]
  cases hy : hexValue y with
  | none => simp [pushDigit_of_hexValue_none hy]
  | some m =>
    have hm := (ne_of_hexValue hy).1
    simp [pushDigit_of_hexValue hy (n := 0) (by omega)]

theorem toNat_lt_of_hexByte (h : hexByte x y = some v) : x.toNat < 128 ∧ y.toNat < 128 := by
  obtain ⟨n, m, hx, hy, -⟩ := hexByte_eq_some_iff.mp h
  exact ⟨(ne_of_hexValue hx).2.1, (ne_of_hexValue hy).2.1⟩

/-- What is read from two bytes below 128 is the number they write. -/
theorem readEscape_of_lt (hx : x.toNat < 128) (hy : y.toNat < 128) :
    readEscape x y = u8FromHex [x, y] := by
  have hascii : ∀ b ∈ [x, y], b.toNat < 128 := by
    simp [hx, hy]
  have htext : fromUtf8 [x, y] = some (.ofList ([x, y].map fun b => Char.ofNat b.toNat)) := by
    rw [fromUtf8_eq_some_iff, utf8, String.toList_ofList, utf8Chars_ascii hascii]
  rw [readEscape, htext, Option.bind_some, ← fromUtf8_eq_some_iff.mp htext]

/-- What is read from two bytes is the number they write. -/
theorem u8FromHex_of_readEscape (h : readEscape x y = some v) : u8FromHex [x, y] = some v := by
  obtain ⟨s, htext, hv⟩ := Option.bind_eq_some_iff.mp h
  rw [fromUtf8_eq_some_iff.mp htext]
  exact hv

/-- Two digits are the byte they stand for. -/
theorem readEscape_of_hexByte (h : hexByte x y = some v) : readEscape x y = some v := by
  obtain ⟨n, m, hx, -, -⟩ := hexByte_eq_some_iff.mp h
  obtain ⟨hlt, hlt'⟩ := toNat_lt_of_hexByte h
  rw [readEscape_of_lt hlt hlt', u8FromHex_pair (ne_of_hexValue hx).2.2.2.1, h]

/-- What is read as a byte without being two digits is a digit behind a plus. -/
theorem of_readEscape (h : readEscape x y = some v) (hbyte : hexByte x y = none) :
    x = plus ∧ v ≠ percent := by
  have hread := u8FromHex_of_readEscape h
  by_cases hplus : x = plus
  · refine ⟨hplus, ?_⟩
    rw [hplus, u8FromHex_plus] at hread
    obtain ⟨m, hm, rfl⟩ := Option.map_eq_some_iff.mp hread
    have hlt := (ne_of_hexValue hm).1
    intro hpercent
    have hnat := congrArg UInt8.toNat hpercent
    rw [UInt8.toNat_ofNat', Nat.mod_eq_of_lt (by omega)] at hnat
    have hpercent' : percent.toNat = 37 := rfl
    omega
  · rw [u8FromHex_pair hplus, hbyte] at hread
    cases hread

theorem hexByte_of_readEscape_none (h : readEscape x y = none) : hexByte x y = none := by
  rw [Option.eq_none_iff_forall_ne_some]
  intro v hbyte
  cases h.symm.trans (readEscape_of_hexByte hbyte)

/-! ## The loop -/

/-- A byte other than a percent sign is decoded by itself. -/
theorem percentDecodeBytes_of_ne (h : b ≠ percent) :
    percentDecodeBytes (b :: rest) = FormCode.plain b :: percentDecodeBytes rest := by
  rw [percentDecodeBytes.eq_def]
  simp only [if_neg h]
  rw [FormCode.plain]
  split_ifs <;> rfl

/-- A percent sign that begins no escape is a percent sign for the reference decoder. -/
theorem decode_percent (h : startsEscape (percent :: rest) = false) :
    decode (percent :: rest) = percent :: decode rest := by
  rw [decode_cons h, plain_percent]

theorem cons_ne_decode_percent {cs : List UInt8} (hx : x ≠ percent)
    (h : startsEscape (percent :: rest) = false) : x :: cs ≠ decode (percent :: rest) := by
  intro heq
  rw [decode_percent h] at heq
  exact hx (List.cons.inj heq).1

theorem startsEscape_percent :
    startsEscape (percent :: h1 :: h2 :: rest) = (hexByte h1 h2).isSome := by
  rw [startsEscape, decide_eq_true rfl, Bool.true_and]

/-- Text that is two bytes off is never what the reference decoder returns. -/
theorem cons_cons_percentDecodeBytes_ne (hx : x ≠ percent ∧ x ≠ space)
    (hy : y ≠ percent ∧ y ≠ space) : x :: y :: percentDecodeBytes bs ≠ decode bs := by
  fun_induction percentDecodeBytes bs generalizing x y with
  | case1 => exact List.cons_ne_nil _ _
  | case2 h1 h2 rest val hread ih =>
    cases hbyte : hexByte h1 h2 with
    | none =>
      apply cons_ne_decode_percent hx.1
      rw [startsEscape_percent, hbyte]
      rfl
    | some v =>
      obtain rfl : val = v :=
        Option.some.inj (hread.symm.trans (readEscape_of_hexByte hbyte))
      intro heq
      rw [decode_escape hbyte] at heq
      obtain ⟨rfl, htail⟩ := List.cons.inj heq
      exact ih hy hx htail
  | case3 h1 h2 rest hread ih =>
    apply cons_ne_decode_percent hx.1
    rw [startsEscape_percent, hexByte_of_readEscape_none hread]
    rfl
  | case4 h1 => exact cons_ne_decode_percent hx.1 rfl
  | case5 => exact cons_ne_decode_percent hx.1 rfl
  | case6 rest hplus ih =>
    intro heq
    rw [decode_cons (startsEscape_of_ne (by decide)), plain_plus] at heq
    exact hx.2 (List.cons.inj heq).1
  | case7 b rest hne hplus ih =>
    intro heq
    rw [decode_of_ne hne hplus] at heq
    obtain ⟨rfl, htail⟩ := List.cons.inj heq
    exact ih hy hx htail

/-- A digit of an escape is neither a percent sign nor a plus nor a space. -/
theorem ne_of_hexByte (h : hexByte x y = some v) :
    (x ≠ percent ∧ x ≠ space) ∧ (y ≠ percent ∧ y ≠ space) ∧ x ≠ plus ∧ y ≠ plus := by
  obtain ⟨n, m, hx, hy, -⟩ := hexByte_eq_some_iff.mp h
  obtain ⟨-, -, hxpercent, hxplus, hxspace⟩ := ne_of_hexValue hx
  obtain ⟨-, -, hypercent, hyplus, hyspace⟩ := ne_of_hexValue hy
  exact ⟨⟨hxpercent, hxspace⟩, ⟨hypercent, hyspace⟩, hxplus, hyplus⟩

/-- Where an escape begins at the last byte that was taken, the rest is two bytes off. -/
theorem cons_percentDecodeBytes_ne (h : startsEscape (b :: rest) = true) :
    b :: percentDecodeBytes rest ≠ decode (b :: rest) := by
  obtain ⟨hi, lo, v, rest', hcons, hv⟩ := startsEscape_iff.mp h
  obtain ⟨rfl, rfl⟩ := List.cons.inj hcons
  obtain ⟨hhi, hlo, hhiplus, hloplus⟩ := ne_of_hexByte hv
  rw [decode_escape hv, percentDecodeBytes_of_ne hhi.1, plain_of_ne hhiplus,
    percentDecodeBytes_of_ne hlo.1, plain_of_ne hloplus]
  intro heq
  exact cons_cons_percentDecodeBytes_ne hhi hlo (List.cons.inj heq).2

/-- Where an escape begins at the first of the two bytes, the rest is two bytes off. -/
theorem cons_cons_percentDecodeBytes_ne' (h : startsEscape (b :: x :: rest) = true) :
    b :: x :: percentDecodeBytes rest ≠ decode (b :: x :: rest) := by
  obtain ⟨hi, lo, v, rest', hcons, hv⟩ := startsEscape_iff.mp h
  obtain ⟨rfl, hbehind⟩ := List.cons.inj hcons
  obtain ⟨rfl, rfl⟩ := List.cons.inj hbehind
  obtain ⟨hhi, hlo, hhiplus, hloplus⟩ := ne_of_hexByte hv
  rw [decode_escape hv, percentDecodeBytes_of_ne hlo.1, plain_of_ne hloplus]
  intro heq
  exact cons_cons_percentDecodeBytes_ne hhi hlo (List.cons.inj heq).2

/-- A byte that stays as it is goes on with the same rest exactly if it is no plus and begins no
escape. -/
theorem cons_eq_decode_iff {cs : List UInt8} (h : startsEscape (b :: rest) = false) :
    b :: cs = decode (b :: rest) ↔ b ≠ plus ∧ cs = decode rest := by
  rw [decode_cons h, List.cons.injEq, eq_comm, plain_eq_self_iff]

theorem keepsEscapes_of_ne (h : b ≠ percent) : keepsEscapes (b :: rest) = keepsEscapes rest := by
  rw [keepsEscapes.eq_def (b :: rest)]
  exact if_neg h

/-- The loop is the reference decoder exactly where no escape and no plus is taken with a percent
sign that escapes nothing. -/
theorem percentDecodeBytes_eq_iff (bs : List UInt8) :
    percentDecodeBytes bs = decode bs ↔ keepsEscapes bs = true := by
  fun_induction percentDecodeBytes bs with
  | case1 => exact iff_of_true rfl rfl
  | case2 h1 h2 rest val hread ih =>
    rw [keepsEscapes, if_pos rfl]
    cases hbyte : hexByte h1 h2 with
    | none =>
      obtain ⟨rfl, hval⟩ := of_readEscape hread hbyte
      rw [decode_percent (by rw [startsEscape_percent, hbyte]; rfl)]
      simp [hval]
    | some v =>
      obtain rfl : val = v :=
        Option.some.inj (hread.symm.trans (readEscape_of_hexByte hbyte))
      rw [decode_escape hbyte, List.cons.injEq, ih]
      simp
  | case3 h1 h2 rest hread ih =>
    have hbyte : hexByte h1 h2 = none := hexByte_of_readEscape_none hread
    rw [decode_percent (by rw [startsEscape_percent, hbyte]; rfl), List.cons.injEq, keepsEscapes,
      if_pos rfl, hbyte]
    simp only [true_and, Option.isSome_none, Bool.false_eq_true, if_false, Bool.and_eq_true,
      decide_eq_true_eq, Bool.not_eq_true']
    by_cases hfirst : startsEscape (h1 :: h2 :: rest) = true
    · exact iff_of_false (cons_cons_percentDecodeBytes_ne' hfirst) (by simp [hfirst])
    · by_cases hsecond : startsEscape (h2 :: rest) = true
      · rw [cons_eq_decode_iff (by simpa using hfirst)]
        exact iff_of_false (fun h => cons_percentDecodeBytes_ne hsecond h.2) (by simp [hsecond])
      · rw [cons_eq_decode_iff (by simpa using hfirst), cons_eq_decode_iff (by simpa using hsecond),
          ih]
        simp [hfirst, hsecond, and_assoc]
  | case4 h1 =>
    rw [decode_percent rfl, List.cons.injEq, cons_eq_decode_iff rfl, keepsEscapes, if_pos rfl]
    simp [decode]
  | case5 => exact iff_of_true rfl rfl
  | case6 rest hplus ih =>
    rw [decode_cons (startsEscape_of_ne hplus), plain_plus, List.cons.injEq, ih,
      keepsEscapes_of_ne hplus]
    exact and_iff_right rfl
  | case7 b rest hpercent hplus ih =>
    rw [decode_of_ne hpercent hplus, List.cons.injEq, ih, keepsEscapes_of_ne hpercent]
    exact and_iff_right rfl

/-! ## Texts -/

/-- Bytes that the reference decoder leaves alone keep their escapes. -/
theorem keepsEscapes_of_decode_eq_self (h : decode bs = bs) : keepsEscapes bs = true := by
  fun_induction keepsEscapes bs with
  | case1 => rfl
  | case2 h1 h2 rest hbyte ih =>
    have hstart := startsEscape_of_decode_eq_self h
    rw [startsEscape_percent, hbyte] at hstart
    cases hstart
  | case3 h1 h2 rest hbyte ih =>
    have htail := (decode_eq_self_cons h).2
    obtain ⟨hfirst, htail'⟩ := decode_eq_self_cons htail
    obtain ⟨hsecond, hrest⟩ := decode_eq_self_cons htail'
    simp [hfirst, hsecond, startsEscape_of_decode_eq_self htail,
      startsEscape_of_decode_eq_self htail', ih hrest]
  | case4 h1 => exact decide_eq_true (decode_eq_self_cons (decode_eq_self_cons h).2).1
  | case5 => rfl
  | case6 b rest hb ih => exact ih (decode_eq_self_cons h).2

/-- Encodings keep their escapes. -/
theorem keepsEscapes_of_encodes (h : Encodes bs code) : keepsEscapes code = true := by
  induction h with
  | nil => rfl
  | literal hpercent _ _ ih => rwa [keepsEscapes_of_ne hpercent]
  | space _ ih => rwa [keepsEscapes_of_ne (by decide)]
  | escape hbyte _ ih =>
    rw [keepsEscapes, if_pos rfl, hbyte]
    exact ih

/-- An encoding is decoded. -/
theorem percentDecodeString_of_encodes (h : Encodes (utf8 plain) (utf8 text)) :
    percentDecodeString text = plain := by
  rw [percentDecodeString, (percentDecodeBytes_eq_iff _).mpr (keepsEscapes_of_encodes h),
    decode_of_encodes h, fromUtf8_eq_some_iff.mpr rfl, Option.getD_some]

/-- The first token of a query is read back from its encoding. -/
theorem queryToken_of_encodes {pairs pairs' : List String}
    (hbefore : ∀ pair ∈ pairs, tokenOfPair pair = none)
    (hpairs : ∀ pair ∈ pairs ++ ("token=" ++ text) :: pairs', '&' ∉ pair.toList)
    (h : Encodes (utf8 plain) (utf8 text)) :
    queryToken (.ofList (['&'].intercalate
      ((pairs ++ ("token=" ++ text) :: pairs').map String.toList))) = some plain := by
  have htoken : tokenOfPair ("token=" ++ text) = some plain := by
    have hsplit : splitOnce '=' ("token" ++ String.ofList ['='] ++ text) = some ("token", text) :=
      splitOnce_append (by decide) text
    have happend : "token" ++ String.ofList ['='] = "token=" := by decide
    rw [happend] at hsplit
    rw [tokenOfPair, hsplit]
    exact congrArg some (percentDecodeString_of_encodes h)
  rw [queryToken, split, String.toList_ofList, List.splitOn_intercalate, List.map_map]
  · have hmap : String.ofList ∘ String.toList = id := funext fun pair => String.ofList_toList
    rw [hmap, List.map_id, List.findSome?_append, List.findSome?_eq_none_iff.mpr hbefore,
      Option.none_or, List.findSome?_cons, htoken]
  · intro l hl
    obtain ⟨pair, hpair, rfl⟩ := List.mem_map.mp hl
    exact hpairs pair hpair
  · simp

/-- The function is the reference decoder exactly on the texts that keep their escapes, as all
encodings do. -/
theorem percentDecodeString_eq_iff (h : decode (utf8 text) = utf8 plain) :
    (percentDecodeString text = plain ↔ keepsEscapes (utf8 text) = true) ∧
      (Encodes (utf8 plain) (utf8 text) → percentDecodeString text = plain) := by
  have hdecode : keepsEscapes (utf8 text) = true → percentDecodeString text = plain := by
    intro hkeeps
    rw [percentDecodeString, (percentDecodeBytes_eq_iff _).mpr hkeeps, h,
      fromUtf8_eq_some_iff.mpr rfl, Option.getD_some]
  refine ⟨⟨?_, hdecode⟩, fun hencodes => hdecode (keepsEscapes_of_encodes hencodes)⟩
  intro hplain
  rw [percentDecodeString] at hplain
  cases htext : fromUtf8 (percentDecodeBytes (utf8 text)) with
  | none =>
    -- What is no text is returned as it was.
    rw [htext, Option.getD_none] at hplain
    rw [← hplain] at h
    exact keepsEscapes_of_decode_eq_self h
  | some s =>
    rw [htext, Option.getD_some] at hplain
    rw [← percentDecodeBytes_eq_iff, fromUtf8_eq_some_iff.mp htext, h, hplain]

/-- An encoded text is decoded. -/
theorem percentDecodeString_eq_iff_sum :
    (percentDecodeString "a%2Bb%3Dc" = "a+b=c" ↔ keepsEscapes (utf8 "a%2Bb%3Dc") = true) ∧
      (Encodes (utf8 "a+b=c") (utf8 "a%2Bb%3Dc") → percentDecodeString "a%2Bb%3Dc" = "a+b=c") :=
  percentDecodeString_eq_iff (by decide +kernel)

/-- The first character of the text behind a percent sign is a plus, and the text holds an escape
behind a percent sign that escapes nothing. -/
theorem percentDecodeString_swallows :
    (decode (utf8 "100%+F") = utf8 "100% F" ∧ percentDecodeString "100%+F" ≠ "100% F") ∧
      decode (utf8 "100%%41") = utf8 "100%A" ∧ percentDecodeString "100%%41" ≠ "100%A" := by
  decide +kernel

end Rsupervisord
