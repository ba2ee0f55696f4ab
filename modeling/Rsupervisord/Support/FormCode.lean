import Mathlib.Data.List.Basic

/-!
# Form encoding

The reference decoder of percent-encoded text: a percent sign with two hexadecimal digits is the
byte they stand for, a plus is a space, and any other byte is itself.

## Main definitions

* `FormCode.decode`: the reference decoder.
* `FormCode.Encodes`: the encodings of a list of bytes.

## Main results

* `FormCode.decode_of_encodes`: every encoding is decoded.
-/

namespace FormCode

/-- `%` -/
def percent : UInt8 := 37

/-- `+` -/
def plus : UInt8 := 43

/-- A space. -/
def space : UInt8 := 32

/-- The value of a hexadecimal digit. -/
def hexValue (b : UInt8) : Option ℕ :=
  if 48 ≤ b.toNat ∧ b.toNat ≤ 57 then some (b.toNat - 48)
  else if 65 ≤ b.toNat ∧ b.toNat ≤ 70 then some (b.toNat - 55)
  else if 97 ≤ b.toNat ∧ b.toNat ≤ 102 then some (b.toNat - 87)
  else none

/-- The byte that two hexadecimal digits stand for. -/
def hexByte (hi lo : UInt8) : Option UInt8 := do
  let n ← hexValue hi
  let m ← hexValue lo
  some (.ofNat (16 * n + m))

/-- A byte outside of an escape. -/
def plain (b : UInt8) : UInt8 := if b = plus then space else b

/-- The reference decoder. -/
def decode : List UInt8 → List UInt8
  | [] => []
  | [b] => [plain b]
  | [b, b'] => [plain b, plain b']
  | b :: hi :: lo :: rest =>
    if b = percent then
      match hexByte hi lo with
      | some v => v :: decode rest
      | none => b :: decode (hi :: lo :: rest)
    else plain b :: decode (hi :: lo :: rest)

/-- An escape begins the bytes. -/
def startsEscape : List UInt8 → Bool
  | b :: hi :: lo :: _ => b = percent && (hexByte hi lo).isSome
  | _ => false

/-- The encodings of a list of bytes. -/
inductive Encodes : List UInt8 → List UInt8 → Prop
  | nil : Encodes [] []
  | literal {b : UInt8} {bs code : List UInt8} (hpercent : b ≠ percent) (hplus : b ≠ plus)
      (rest : Encodes bs code) : Encodes (b :: bs) (b :: code)
  | space {bs code : List UInt8} (rest : Encodes bs code) : Encodes (space :: bs) (plus :: code)
  | escape {b hi lo : UInt8} {bs code : List UInt8} (hbyte : hexByte hi lo = some b)
      (rest : Encodes bs code) : Encodes (b :: bs) (percent :: hi :: lo :: code)

variable {b hi lo v : UInt8} {bs code rest : List UInt8}

theorem plain_plus : plain plus = space := rfl

theorem plain_percent : plain percent = percent := rfl

theorem plain_of_ne (h : b ≠ plus) : plain b = b := if_neg h

theorem plain_eq_self_iff : plain b = b ↔ b ≠ plus := by
  constructor
  · rintro h rfl
    exact absurd h (by decide)
  · exact plain_of_ne

/-! ## Digits -/

theorem ne_of_hexValue {n : ℕ} (h : hexValue b = some n) :
    n < 16 ∧ b.toNat < 128 ∧ b ≠ percent ∧ b ≠ plus ∧ b ≠ space := by
  have hbound : n < 16 ∧ 48 ≤ b.toNat ∧ b.toNat < 128 := by
    rw [hexValue] at h
    split_ifs at h with hdigit hupper hlower
    · obtain rfl := Option.some.inj h
      omega
    · obtain rfl := Option.some.inj h
      omega
    · obtain rfl := Option.some.inj h
      omega
  refine ⟨hbound.1, hbound.2.2, ?_, ?_, ?_⟩
  · rintro rfl
    exact absurd hbound.2.1 (by decide)
  · rintro rfl
    exact absurd hbound.2.1 (by decide)
  · rintro rfl
    exact absurd hbound.2.1 (by decide)

theorem hexByte_eq_some_iff : hexByte hi lo = some v ↔
    ∃ n m, hexValue hi = some n ∧ hexValue lo = some m ∧ v = .ofNat (16 * n + m) := by
  rw [hexByte]
  cases hexValue hi <;> cases hexValue lo <;> simp [eq_comm]

/-! ## One step of the decoder -/

theorem startsEscape_iff : startsEscape bs = true ↔
    ∃ hi lo v rest, bs = percent :: hi :: lo :: rest ∧ hexByte hi lo = some v := by
  constructor
  · intro h
    obtain _ | ⟨b, _ | ⟨hi, _ | ⟨lo, rest⟩⟩⟩ := bs
    · cases h
    · cases h
    · cases h
    · rw [startsEscape, Bool.and_eq_true, decide_eq_true_eq] at h
      obtain ⟨rfl, hbyte⟩ := h
      obtain ⟨v, hv⟩ := Option.isSome_iff_exists.mp hbyte
      exact ⟨hi, lo, v, rest, rfl, hv⟩
  · rintro ⟨hi, lo, v, rest, rfl, hv⟩
    simp [startsEscape, hv]

/-- An escape is decoded to its byte. -/
theorem decode_escape (h : hexByte hi lo = some v) :
    decode (percent :: hi :: lo :: rest) = v :: decode rest := by
  rw [decode, if_pos rfl, h]

/-- A byte that begins no escape is decoded by itself. -/
theorem decode_cons (h : startsEscape (b :: rest) = false) :
    decode (b :: rest) = plain b :: decode rest := by
  obtain _ | ⟨hi, _ | ⟨lo, rest⟩⟩ := rest
  · rfl
  · rfl
  · rw [decode]
    split_ifs with hpercent
    · rw [startsEscape, hpercent, decide_eq_true rfl, Bool.true_and,
        Option.isSome_eq_false_iff, Option.isNone_iff_eq_none] at h
      rw [h, hpercent, plain_percent]
    · rfl

theorem startsEscape_of_ne (h : b ≠ percent) : startsEscape (b :: rest) = false := by
  rw [← Bool.not_eq_true, startsEscape_iff]
  rintro ⟨hi, lo, v, rest', hcons, -⟩
  exact h (List.cons.inj hcons).1

/-- A digit is decoded to itself. -/
theorem decode_of_ne (hpercent : b ≠ percent) (hplus : b ≠ plus) :
    decode (b :: rest) = b :: decode rest := by
  rw [decode_cons (startsEscape_of_ne hpercent), plain_of_ne hplus]

/-! ## Encodings -/

/-- Every encoding is decoded. -/
theorem decode_of_encodes (h : Encodes bs code) : decode code = bs := by
  induction h with
  | nil => rfl
  | literal hpercent hplus _ ih => rw [decode_of_ne hpercent hplus, ih]
  | space _ ih => rw [decode_cons (startsEscape_of_ne (by decide)), plain_plus, ih]
  | escape hbyte _ ih => rw [decode_escape hbyte, ih]

/-- Decoding lengthens nothing. -/
theorem length_decode_le (bs : List UInt8) : (decode bs).length ≤ bs.length := by
  fun_induction decode bs with
  | case1 => exact Nat.le_refl _
  | case2 => exact Nat.le_refl _
  | case3 => exact Nat.le_refl _
  | case4 hi lo rest v hv ih => simp only [List.length_cons]; omega
  | case5 hi lo rest hv ih => simp only [List.length_cons] at ih ⊢; omega
  | case6 b hi lo rest hb ih => simp only [List.length_cons] at ih ⊢; omega

/-- Bytes that decode to themselves hold neither a plus nor an escape. -/
theorem startsEscape_of_decode_eq_self (h : decode bs = bs) : startsEscape bs = false := by
  rw [← Bool.not_eq_true, startsEscape_iff]
  rintro ⟨hi, lo, v, rest, rfl, hv⟩
  have hlength := congrArg List.length h
  rw [decode_escape hv] at hlength
  have hle := length_decode_le rest
  simp only [List.length_cons] at hlength
  omega

theorem decode_eq_self_cons (h : decode (b :: rest) = b :: rest) :
    b ≠ plus ∧ decode rest = rest := by
  rw [decode_cons (startsEscape_of_decode_eq_self h)] at h
  obtain ⟨hplain, hrest⟩ := List.cons.inj h
  exact ⟨plain_eq_self_iff.mp hplain, hrest⟩

end FormCode
