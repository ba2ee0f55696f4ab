import Mathlib.Data.List.DropRight
import Mathlib.Data.UInt

/-!
# Text functions

The operations on strings and byte strings of the standard library that parsers rely on, defined on
lists of characters so that they evaluate. A string is a sequence of Unicode scalar values, as
Lean's own `String`.
-/

namespace Text

/-- The Unicode property `White_Space`. -/
def isWhitespace (c : Char) : Bool :=
  let n := c.toNat
  (9 ≤ n && n ≤ 13) || n = 32 || n = 0x85 || n = 0xA0 || n = 0x1680 ||
    (0x2000 ≤ n && n ≤ 0x200A) || n = 0x2028 || n = 0x2029 || n = 0x202F || n = 0x205F ||
    n = 0x3000

/-- Remove the characters that satisfy `p` from the end. -/
def trimEndMatches (p : Char → Bool) (s : String) : String :=
  .ofList (s.toList.rdropWhile p)

/-- Remove white space from the start. -/
def trimStart (s : String) : String :=
  .ofList (s.toList.dropWhile isWhitespace)

/-- Remove white space from both ends. -/
def trim (s : String) : String :=
  .ofList ((s.toList.dropWhile isWhitespace).rdropWhile isWhitespace)

/-- The rest of `s` behind `pre`, when `s` starts with it. -/
def stripPrefix (pre s : String) : Option String :=
  if pre.toList.isPrefixOf s.toList then some (.ofList (s.toList.drop pre.toList.length)) else none

/-- The rest of `s` before `suf`, when `s` ends with it. -/
def stripSuffix (suf s : String) : Option String :=
  if suf.toList.isSuffixOf s.toList then
    some (.ofList (s.toList.take (s.toList.length - suf.toList.length)))
  else none

/-- The parts of `s` before and behind the first `c`, when `s` contains it. -/
def splitOnce (c : Char) (s : String) : Option (String × String) :=
  match s.toList.dropWhile (· ≠ c) with
  | [] => none
  | _ :: rest => some (.ofList (s.toList.takeWhile (· ≠ c)), .ofList rest)

/-- The parts of a text before and behind the first `sep`, when the text contains it. -/
def cut (sep : List Char) : List Char → Option (List Char × List Char)
  | [] => if sep = [] then some ([], []) else none
  | c :: cs =>
      if sep.isPrefixOf (c :: cs) then some ([], (c :: cs).drop sep.length)
      else (cut sep cs).map fun (before, behind) => (c :: before, behind)

/-- The parts of `s` between the separators `c`. -/
def split (c : Char) (s : String) : List String :=
  (s.toList.splitOn c).map .ofList

/-- The parts of `s` before and behind the last `c`, when `s` contains it. -/
def rsplitOnce (c : Char) (s : String) : Option (String × String) :=
  match s.toList.reverse.dropWhile (· ≠ c) with
  | [] => none
  | _ :: rest => some (.ofList rest.reverse, .ofList (s.toList.reverse.takeWhile (· ≠ c)).reverse)

/-- Lower case of the letters `A` to `Z`; other characters stay. -/
def toAsciiLowercase (s : String) : String :=
  .ofList (s.toList.map Char.toLower)

/-- Equality up to the case of the letters `A` to `Z`. -/
def eqIgnoreAsciiCase (s t : String) : Bool :=
  toAsciiLowercase s = toAsciiLowercase t

/-- Upper case of the letters `a` to `z`; other characters stay. -/
def toAsciiUppercase (s : String) : String :=
  .ofList (s.toList.map Char.toUpper)

/-- The value of a string of decimal digits, `none` when another character occurs. -/
def digitsValue (ds : List Char) : Option ℕ :=
  ds.foldl
    (fun acc c => acc.bind fun n =>
      if c.isDigit then some (10 * n + (c.toNat - '0'.toNat)) else none)
    (some 0)

/-- Decimal digits have the value of the number they spell. -/
theorem foldl_digitsValue {ds : List Char} (h : ∀ c ∈ ds, c.isDigit = true) (n : ℕ) :
    ds.foldl
        (fun acc c => acc.bind fun n =>
          if c.isDigit then some (10 * n + (c.toNat - '0'.toNat)) else none)
        (some n) =
      some (Nat.ofDigitChars 10 ds n) := by
  induction ds generalizing n with
  | nil => rfl
  | cons c ds ih =>
    have hc : c.isDigit = true := h c List.mem_cons_self
    rw [List.foldl_cons, Option.bind_some, if_pos hc, ih fun d hd =>
      h d (List.mem_cons_of_mem _ hd),
      Nat.ofDigitChars_cons]

/-- The parts do not contain the separator. -/
theorem notMem_of_mem_splitOn {c : Char} {cs part : List Char} (h : part ∈ cs.splitOn c) :
    c ∉ part := by
  induction cs generalizing part with
  | nil =>
    rw [List.splitOn_nil, List.mem_singleton] at h
    subst h
    exact List.not_mem_nil
  | cons d cs ih =>
    rw [List.splitOn_cons_eq_if_modifyHead] at h
    split at h
    next =>
      rcases List.mem_cons.mp h with rfl | h
      · exact List.not_mem_nil
      · exact ih h
    next hd =>
      -- The first part grows by a character that is not the separator.
      cases hparts : cs.splitOn c with
      | nil => exact absurd hparts (List.splitOn_ne_nil c cs)
      | cons first parts =>
        rw [hparts, List.modifyHead_cons, List.mem_cons] at h
        have hfirst : c ∉ first := ih (hparts ▸ List.mem_cons_self)
        rcases h with rfl | h
        · rw [List.mem_cons, not_or]
          exact ⟨fun hc => hd (by simp [hc]), hfirst⟩
        · exact ih (hparts ▸ List.mem_cons_of_mem first h)

/-- What follows a prefix. -/
theorem stripPrefix_eq_some {pre s : String} {cs : List Char} (h : s.toList = pre.toList ++ cs) :
    stripPrefix pre s = some (.ofList cs) := by
  unfold stripPrefix
  rw [h, if_pos (List.isPrefixOf_iff_prefix.mpr (List.prefix_append _ _)), List.drop_left]

/-- What comes before a suffix. -/
theorem stripSuffix_eq_some {suf s : String} {cs : List Char} (h : s.toList = cs ++ suf.toList) :
    stripSuffix suf s = some (.ofList cs) := by
  unfold stripSuffix
  rw [h, if_pos (List.isSuffixOf_iff_suffix.mpr (List.suffix_append _ _)), List.length_append,
    Nat.add_sub_cancel, List.take_left]

/-- Trimming takes characters away. -/
theorem mem_of_mem_trim {c : Char} {s : String} (h : c ∈ (trim s).toList) : c ∈ s.toList := by
  rw [trim, String.toList_ofList] at h
  exact (List.dropWhile_sublist _).mem ((List.rdropWhile_prefix _ _).mem h)

/-- A trimmed string stays as it is. -/
theorem trim_trim (s : String) : trim (trim s) = trim s := by
  unfold trim
  rw [String.toList_ofList]
  -- What is left begins with the first character that is not white space.
  have hstart : ((s.toList.dropWhile isWhitespace).rdropWhile isWhitespace).dropWhile isWhitespace =
      (s.toList.dropWhile isWhitespace).rdropWhile isWhitespace := by
    obtain ⟨rest, hrest⟩ :=
      List.rdropWhile_prefix isWhitespace (l := s.toList.dropWhile isWhitespace)
    cases hcs : (s.toList.dropWhile isWhitespace).rdropWhile isWhitespace with
    | nil => rfl
    | cons c cs =>
      have hc := List.head?_dropWhile_not isWhitespace s.toList
      rw [← hrest, hcs, List.cons_append, List.head?_cons] at hc
      rw [List.dropWhile_cons_of_neg (by simpa using hc)]
  rw [hstart, List.rdropWhile_idempotent]

/-- A number is read back from its decimal digits. -/
@[simp]
theorem digitsValue_toString (n : ℕ) : digitsValue (toString n).toList = some n := by
  have hdigits : ∀ c ∈ Nat.toDigits 10 n, c.isDigit = true :=
    fun c hc => Nat.isDigit_of_mem_toDigits (by decide) (by decide) hc
  show digitsValue n.repr.toList = some n
  rw [Nat.toList_repr]
  unfold digitsValue
  rw [foldl_digitsValue hdigits, Nat.ofDigitChars_ten_toDigits]

/-- Decimal digits are not white space. -/
theorem isWhitespace_of_mem_toString {n : ℕ} {c : Char} (hc : c ∈ (toString n).toList) :
    isWhitespace c = false := by
  have hc' : c ∈ n.repr.toList := hc
  rw [Nat.toList_repr] at hc'
  have hdigit : c.isDigit = true := Nat.isDigit_of_mem_toDigits (by decide) (by decide) hc'
  obtain ⟨hlo, hhi⟩ : 48 ≤ c.toNat ∧ c.toNat ≤ 57 := by
    simpa [Char.isDigit, UInt32.le_iff_toNat_le] using hdigit
  simp only [isWhitespace, Bool.or_eq_false_iff, Bool.and_eq_false_iff, decide_eq_false_iff_not]
  omega

/-- A string without white space stays as it is. -/
theorem trim_eq_self {s : String} (h : ∀ c ∈ s.toList, isWhitespace c = false) : trim s = s := by
  have hstart : s.toList.dropWhile isWhitespace = s.toList := by
    rw [List.dropWhile_eq_self_iff]
    exact fun hlt => by simpa using h _ (List.getElem_mem hlt)
  have hend : s.toList.rdropWhile isWhitespace = s.toList := by
    rw [List.rdropWhile_eq_self_iff]
    exact fun hne => by simpa using h _ (List.getLast_mem hne)
  unfold trim
  rw [hstart, hend, String.ofList_toList]

/-- The characters of a number with a sign. -/
theorem of_mem_toString_int {n : ℤ} {c : Char} (hc : c ∈ (toString n).toList) :
    c = '-' ∨ c.isDigit = true := by
  have hdigit : ∀ m : ℕ, c ∈ m.repr.toList → c.isDigit = true := by
    intro m hm
    rw [Nat.toList_repr] at hm
    exact Nat.isDigit_of_mem_toDigits (by decide) (by decide) hm
  cases n with
  | ofNat m => exact .inr (hdigit m hc)
  | negSucc m =>
    have hc' : c ∈ ("-" ++ (m + 1).repr).toList := hc
    rw [String.toList_append, List.mem_append] at hc'
    rcases hc' with hc' | hc'
    · exact .inl (List.mem_singleton.mp hc')
    · exact .inr (hdigit (m + 1) hc')

/-- Parse an unsigned number below `bound`: an optional plus sign and at least one digit. -/
def parseUnsigned (bound : ℕ) (s : String) : Option ℕ :=
  let ds := match s.toList with
    | '+' :: rest => rest
    | cs => cs
  if ds.isEmpty then none
  else
    match digitsValue ds with
    | some n => if n < bound then some n else none
    | none => none

/-- Append a decimal digit to a number with the given sign. The number stays between `lo` and
`hi`. -/
def pushDigit (lo hi sign n : ℤ) (c : Char) : Except String ℤ :=
  let n' := 10 * n + sign * (c.toNat - '0'.toNat : ℕ)
  if c.isDigit = false then .error "invalid digit found in string"
  else if hi < n' then .error "number too large to fit in target type"
  else if n' < lo then .error "number too small to fit in target type"
  else .ok n'

/-- Parse a number between `lo` and `hi`: an optional sign and at least one digit. -/
def parseSigned (lo hi : ℤ) (s : String) : Except String ℤ :=
  let cs := s.toList
  let digits (sign : ℤ) (ds : List Char) : Except String ℤ :=
    if ds.isEmpty then .error "invalid digit found in string"
    else ds.foldlM (pushDigit lo hi sign) 0
  if cs.isEmpty then .error "cannot parse integer from empty string"
  else if cs.head? = some '-' then digits (-1) cs.tail
  else if cs.head? = some '+' then digits 1 cs.tail
  else digits 1 cs

/-- Further digits make a number no smaller. -/
theorem le_ofDigitChars (ds : List Char) (n : ℕ) : n ≤ Nat.ofDigitChars 10 ds n := by
  induction ds generalizing n with
  | nil => exact le_refl n
  | cons c ds ih =>
    rw [Nat.ofDigitChars_cons]
    exact le_trans (by omega) (ih _)

/-- Digits that spell a number in the range are read. -/
theorem foldlM_pushDigit {lo hi sign : ℤ} (hsign : sign = 1 ∨ sign = -1) (hlo : lo ≤ 0)
    (hhi : 0 ≤ hi) {ds : List Char} (hds : ∀ c ∈ ds, c.isDigit = true) {n : ℕ}
    (hle : lo ≤ sign * Nat.ofDigitChars 10 ds n) (hge : sign * Nat.ofDigitChars 10 ds n ≤ hi) :
    ds.foldlM (pushDigit lo hi sign) (sign * n) = .ok (sign * Nat.ofDigitChars 10 ds n) := by
  induction ds generalizing n with
  | nil => rfl
  | cons c ds ih =>
    have hc : c.isDigit = true := hds c List.mem_cons_self
    rw [Nat.ofDigitChars_cons] at hle hge ⊢
    -- The digits read so far spell a number between zero and the whole one.
    have hn := le_ofDigitChars ds (10 * n + (c.toNat - '0'.toNat))
    have hpush : pushDigit lo hi sign (sign * n) c =
        .ok (sign * (10 * n + (c.toNat - '0'.toNat) : ℕ)) := by
      have hn' : 10 * (sign * n) + sign * (c.toNat - '0'.toNat : ℕ) =
          sign * (10 * n + (c.toNat - '0'.toNat) : ℕ) := by
        rw [Int.natCast_add, Int.natCast_mul, Int.mul_add, Int.mul_left_comm]
        rfl
      unfold pushDigit
      simp only [hc, hn']
      rw [if_neg (by decide), if_neg, if_neg]
      · rcases hsign with rfl | rfl
        · omega
        · omega
      · rcases hsign with rfl | rfl
        · omega
        · omega
    rw [List.foldlM_cons, hpush]
    exact ih (fun d hd => hds d (List.mem_cons_of_mem c hd)) hle hge

/-- A number is read back from its decimal digits and its sign. -/
theorem parseSigned_toString {lo hi n : ℤ} (hlo : lo ≤ 0) (hhi : 0 ≤ hi) (hle : lo ≤ n)
    (hge : n ≤ hi) : parseSigned lo hi (toString n) = .ok n := by
  have hdigits : ∀ m : ℕ, ∀ c ∈ Nat.toDigits 10 m, c.isDigit = true :=
    fun m c hc => Nat.isDigit_of_mem_toDigits (by decide) (by decide) hc
  have hread : ∀ (sign : ℤ) (m : ℕ), sign = 1 ∨ sign = -1 → lo ≤ sign * m → sign * m ≤ hi →
      (Nat.toDigits 10 m).foldlM (pushDigit lo hi sign) 0 = .ok (sign * m) := by
    intro sign m hsign hle hge
    have h := foldlM_pushDigit hsign hlo hhi (hdigits m) (n := 0)
    rw [Nat.ofDigitChars_ten_toDigits] at h
    simpa using h hle hge
  have hne : ∀ m : ℕ, (Nat.toDigits 10 m).isEmpty = false :=
    fun m => List.isEmpty_eq_false_iff.mpr Nat.toDigits_ne_nil
  cases n with
  | ofNat m =>
    -- The first digit is no sign.
    have hhead : ∀ c, c.isDigit = false → (Nat.toDigits 10 m).head? ≠ some c := by
      intro c hc h
      rw [hdigits m c (List.mem_of_head? h)] at hc
      cases hc
    show parseSigned lo hi m.repr = _
    unfold parseSigned
    simp only [Nat.toList_repr, hne, hhead '-' (by decide), hhead '+' (by decide)]
    simpa using hread 1 m (.inl rfl) (by simpa using hle) (by simpa using hge)
  | negSucc m =>
    have hcs : (toString (Int.negSucc m)).toList = '-' :: Nat.toDigits 10 (m + 1) := by
      show ("-" ++ (m + 1).repr).toList = _
      rw [String.toList_append, Nat.toList_repr]
      rfl
    have h := hread (-1) (m + 1) (.inr rfl) (by omega) (by omega)
    unfold parseSigned
    simp only [hcs, List.head?_cons, List.tail_cons, hne, List.isEmpty_cons, Bool.false_eq_true,
      if_true, if_false, h]
    exact congrArg Except.ok (by omega)

/-- The UTF-8 bytes of a list of characters. -/
def utf8Chars (cs : List Char) : List UInt8 := cs.flatMap String.utf8EncodeChar

/-- `str::as_bytes`: the UTF-8 bytes of a string. -/
def utf8 (s : String) : List UInt8 := utf8Chars s.toList

@[simp]
theorem utf8Chars_nil : utf8Chars [] = [] := rfl

@[simp]
theorem utf8Chars_append (cs ds : List Char) :
    utf8Chars (cs ++ ds) = utf8Chars cs ++ utf8Chars ds :=
  List.flatMap_append

/-- The bytes are those of Lean's own encoding. -/
theorem utf8_toByteArray (s : String) : (utf8 s).toByteArray = s.toByteArray := by
  rw [← String.utf8Encode_toList]
  rfl

/-- The next step of a lossy UTF-8 decoder on non-empty input: a character and the number of bytes
it takes. A byte sequence that no character continues is replaced by one replacement character for
its longest prefix that could still begin a character. -/
def decodeFirst (b : UInt8) (rest : List UInt8) : Char × ℕ :=
  let replacement := Char.ofNat 0xFFFD
  let tail (b : UInt8) (lo hi : ℕ) : Bool := lo ≤ b.toNat && b.toNat ≤ hi
  let n := b.toNat
  if n < 0x80 then (Char.ofNat n, 1)
  else if 0xC2 ≤ n ∧ n ≤ 0xDF then
    match rest with
    | b₁ :: _ =>
        if tail b₁ 0x80 0xBF then (Char.ofNat ((n - 0xC0) * 64 + (b₁.toNat - 0x80)), 2)
        else (replacement, 1)
    | [] => (replacement, 1)
  else if 0xE0 ≤ n ∧ n ≤ 0xEF then
    let lo := if n = 0xE0 then 0xA0 else 0x80
    let hi := if n = 0xED then 0x9F else 0xBF
    match rest with
    | b₁ :: rest =>
        if tail b₁ lo hi then
          match rest with
          | b₂ :: _ =>
              if tail b₂ 0x80 0xBF then
                (Char.ofNat ((n - 0xE0) * 4096 + (b₁.toNat - 0x80) * 64 + (b₂.toNat - 0x80)), 3)
              else (replacement, 2)
          | [] => (replacement, 2)
        else (replacement, 1)
    | [] => (replacement, 1)
  else if 0xF0 ≤ n ∧ n ≤ 0xF4 then
    let lo := if n = 0xF0 then 0x90 else 0x80
    let hi := if n = 0xF4 then 0x8F else 0xBF
    match rest with
    | b₁ :: rest =>
        if tail b₁ lo hi then
          match rest with
          | b₂ :: rest =>
              if tail b₂ 0x80 0xBF then
                match rest with
                | b₃ :: _ =>
                    if tail b₃ 0x80 0xBF then
                      (Char.ofNat ((n - 0xF0) * 262144 + (b₁.toNat - 0x80) * 4096 +
                        (b₂.toNat - 0x80) * 64 + (b₃.toNat - 0x80)), 4)
                    else (replacement, 3)
                | [] => (replacement, 3)
              else (replacement, 2)
          | [] => (replacement, 2)
        else (replacement, 1)
    | [] => (replacement, 1)
  else (replacement, 1)

/-- Lossy UTF-8 decoding with `fuel` steps. -/
def decodeLossy : ℕ → List UInt8 → List Char
  | 0, _ => []
  | _, [] => []
  | fuel + 1, b :: rest =>
      let (c, n) := decodeFirst b rest
      c :: decodeLossy fuel (rest.drop (n - 1))

/-- Lossy UTF-8 decoding. Each step takes at least one byte, so as many steps as bytes suffice. -/
def fromUtf8Lossy (bytes : List UInt8) : String :=
  .ofList (decodeLossy bytes.length bytes)

end Text
