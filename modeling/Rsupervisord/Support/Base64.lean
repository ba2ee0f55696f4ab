import Mathlib.Data.Bool.AllAny
import Mathlib.Data.UInt
import Mathlib.Data.List.GetD

/-!
# Base64

An engine that writes bytes as base64 text and reads them back, and the engine with the standard
alphabet and padding. Three bytes are written as four digits of six bits each. A group of one or
two bytes at the end is padded with the character `=`.
-/

/-- A base64 engine. -/
structure Base64Engine where
  encode : List UInt8 → String
  decode : String → Except String (List UInt8)
  /-- No bytes are written as no text. -/
  encode_nil : encode [] = ""
  /-- Bytes are read back from their text. -/
  decode_encode (bytes : List UInt8) : decode (encode bytes) = .ok bytes
  /-- The text consists of digits and padding. -/
  mem_encode {bytes : List UInt8} {c : Char} (h : c ∈ (encode bytes).toList) :
    c.isAlphanum = true ∨ c = '+' ∨ c = '/' ∨ c = '='

namespace Base64

/-- The digits in the order of their values. -/
def alphabet : List Char :=
  "ABCDEFGHIJKLMNOPQRSTUVWXYZabcdefghijklmnopqrstuvwxyz0123456789+/".toList

/-- The digit of value `n`. -/
def digit (n : ℕ) : Char := alphabet.getD n 'A'

/-- The value of a digit. -/
def value (c : Char) : Option ℕ :=
  if c ∈ alphabet then some (alphabet.idxOf c) else none

/-- Write bytes as digits and padding. -/
def encodeChars : List UInt8 → List Char
  | [] => []
  | [a] => [digit (a.toNat / 4), digit (a.toNat % 4 * 16), '=', '=']
  | [a, b] =>
      [digit (a.toNat / 4), digit (a.toNat % 4 * 16 + b.toNat / 16), digit (b.toNat % 16 * 4), '=']
  | a :: b :: c :: rest =>
      digit (a.toNat / 4) :: digit (a.toNat % 4 * 16 + b.toNat / 16) ::
        digit (b.toNat % 16 * 4 + c.toNat / 64) :: digit (c.toNat % 64) :: encodeChars rest

/-- Read bytes from digits and padding. The bits of a padded group that belong to no byte are
zero. -/
def decodeChars : List Char → Option (List UInt8)
  | [] => some []
  | c₁ :: c₂ :: c₃ :: c₄ :: rest => do
      let n₁ ← value c₁
      let n₂ ← value c₂
      let a := UInt8.ofNat (n₁ * 4 + n₂ / 16)
      if c₄ = '=' then
        if rest ≠ [] then none
        else if c₃ = '=' then
          if n₂ % 16 = 0 then some [a] else none
        else
          let n₃ ← value c₃
          if n₃ % 4 = 0 then some [a, UInt8.ofNat (n₂ % 16 * 16 + n₃ / 4)] else none
      else
        let n₃ ← value c₃
        let n₄ ← value c₄
        let bytes ← decodeChars rest
        some (a :: UInt8.ofNat (n₂ % 16 * 16 + n₃ / 4) :: UInt8.ofNat (n₃ % 4 * 64 + n₄) :: bytes)
  | _ => none

set_option maxRecDepth 4096 in
/-- The digits differ from each other. -/
theorem nodup_alphabet : alphabet.Nodup := by decide

/-- A digit is a character of the alphabet. -/
theorem digit_mem (n : ℕ) : digit n ∈ alphabet := by
  unfold digit
  rcases Nat.lt_or_ge n alphabet.length with hlt | hge
  · rw [List.getD_eq_getElem _ _ hlt]
    exact List.getElem_mem hlt
  · rw [List.getD_eq_default _ _ hge]
    decide

/-- A digit has the value it was written for. -/
theorem value_digit {n : ℕ} (h : n < 64) : value (digit n) = some n := by
  have hlt : n < alphabet.length := h
  unfold value
  rw [if_pos (digit_mem n)]
  unfold digit
  rw [List.getD_eq_getElem _ _ hlt, nodup_alphabet.idxOf_getElem n hlt]

/-- A digit is not padding. -/
theorem digit_ne_pad (n : ℕ) : digit n ≠ '=' := by
  have hpad : '=' ∉ alphabet := by decide
  exact fun h => hpad (h ▸ digit_mem n)

/-- A digit is a letter, a decimal digit or one of two signs. -/
theorem digit_cases (n : ℕ) : (digit n).isAlphanum = true ∨ digit n = '+' ∨ digit n = '/' := by
  have hall : ∀ c ∈ alphabet, c.isAlphanum = true ∨ c = '+' ∨ c = '/' :=
    List.all_iff_forall_prop.mp (by decide)
  exact hall _ (digit_mem n)

/-- A byte is put together from its bits. -/
theorem ofNat_eq {n : ℕ} {b : UInt8} (h : n = b.toNat) : UInt8.ofNat n = b := by
  rw [h, UInt8.ofNat_toNat]

/-- Bytes are read back from their digits. -/
theorem decodeChars_encodeChars (bytes : List UInt8) :
    decodeChars (encodeChars bytes) = some bytes := by
  -- A group of three bytes at a time.
  induction bytes using encodeChars.induct with
  | case1 => rfl
  | case2 a =>
    have ha := a.toNat_lt
    have h₁ : a.toNat / 4 < 64 := by omega
    have h₂ : a.toNat % 4 * 16 < 64 := by omega
    have ha' : UInt8.ofNat (a.toNat / 4 * 4 + a.toNat % 4 * 16 / 16) = a :=
      ofNat_eq (by omega)
    have hbits : a.toNat % 4 * 16 % 16 = 0 := by omega
    simp only [encodeChars, decodeChars, value_digit h₁, value_digit h₂, ha', hbits,
      Option.bind_eq_bind, Option.bind_some, if_true]
    simp
  | case3 a b =>
    have ha := a.toNat_lt
    have hb := b.toNat_lt
    have h₁ : a.toNat / 4 < 64 := by omega
    have h₂ : a.toNat % 4 * 16 + b.toNat / 16 < 64 := by omega
    have h₃ : b.toNat % 16 * 4 < 64 := by omega
    have ha' : UInt8.ofNat (a.toNat / 4 * 4 + (a.toNat % 4 * 16 + b.toNat / 16) / 16) = a :=
      ofNat_eq (by omega)
    have hb' : UInt8.ofNat
        ((a.toNat % 4 * 16 + b.toNat / 16) % 16 * 16 + b.toNat % 16 * 4 / 4) = b :=
      ofNat_eq (by omega)
    simp only [encodeChars, decodeChars, value_digit h₁, value_digit h₂, value_digit h₃, ha', hb',
      digit_ne_pad, Option.bind_eq_bind, Option.bind_some, if_true, if_false]
    simp
  | case4 a b c rest ih =>
    have ha := a.toNat_lt
    have hb := b.toNat_lt
    have hc := c.toNat_lt
    have h₁ : a.toNat / 4 < 64 := by omega
    have h₂ : a.toNat % 4 * 16 + b.toNat / 16 < 64 := by omega
    have h₃ : b.toNat % 16 * 4 + c.toNat / 64 < 64 := by omega
    have h₄ : c.toNat % 64 < 64 := by omega
    have ha' : UInt8.ofNat (a.toNat / 4 * 4 + (a.toNat % 4 * 16 + b.toNat / 16) / 16) = a :=
      ofNat_eq (by omega)
    have hb' : UInt8.ofNat ((a.toNat % 4 * 16 + b.toNat / 16) % 16 * 16 +
        (b.toNat % 16 * 4 + c.toNat / 64) / 4) = b :=
      ofNat_eq (by omega)
    have hc' : UInt8.ofNat
        ((b.toNat % 16 * 4 + c.toNat / 64) % 4 * 64 + c.toNat % 64) = c :=
      ofNat_eq (by omega)
    simp only [encodeChars, decodeChars, value_digit h₁, value_digit h₂, value_digit h₃,
      value_digit h₄, ha', hb', hc', ih, digit_ne_pad, Option.bind_eq_bind, Option.bind_some,
      if_false]

/-- The text of bytes consists of digits and padding. -/
theorem mem_encodeChars {bytes : List UInt8} {c : Char} (h : c ∈ encodeChars bytes) :
    c.isAlphanum = true ∨ c = '+' ∨ c = '/' ∨ c = '=' := by
  have hdigit : ∀ n, c = digit n →
      c.isAlphanum = true ∨ c = '+' ∨ c = '/' ∨ c = '=' := by
    rintro n rfl
    rcases digit_cases n with h | h | h
    · exact .inl h
    · exact .inr (.inl h)
    · exact .inr (.inr (.inl h))
  have hpad : c = '=' → c.isAlphanum = true ∨ c = '+' ∨ c = '/' ∨ c = '=' :=
    fun h => .inr (.inr (.inr h))
  induction bytes using encodeChars.induct with
  | case1 => exact absurd h List.not_mem_nil
  | case2 a =>
    simp only [encodeChars, List.mem_cons, List.not_mem_nil, or_false] at h
    rcases h with h | h | h | h
    · exact hdigit _ h
    · exact hdigit _ h
    · exact hpad h
    · exact hpad h
  | case3 a b =>
    simp only [encodeChars, List.mem_cons, List.not_mem_nil, or_false] at h
    rcases h with h | h | h | h
    · exact hdigit _ h
    · exact hdigit _ h
    · exact hdigit _ h
    · exact hpad h
  | case4 a b d rest ih =>
    simp only [encodeChars, List.mem_cons] at h
    rcases h with h | h | h | h | h
    · exact hdigit _ h
    · exact hdigit _ h
    · exact hdigit _ h
    · exact hdigit _ h
    · exact ih h

/-- The engine with the standard alphabet and padding. -/
def standard : Base64Engine where
  encode bytes := .ofList (encodeChars bytes)
  decode text := (decodeChars text.toList).elim (.error "Invalid padding") .ok
  encode_nil := rfl
  decode_encode bytes := by
    rw [String.toList_ofList, decodeChars_encodeChars]
    rfl
  mem_encode h := mem_encodeChars (String.toList_ofList ▸ h)

example : standard.encode [77, 97, 110, 77] = "TWFuTQ==" := by decide

end Base64
