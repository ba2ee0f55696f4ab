import Rsupervisord.Support.Except
import Rsupervisord.Support.TextSplit

/-!
# Numerals in a radix

`from_str_radix` for an unsigned integer type and a radix up to ten, with the text of its errors,
and numerals that are padded with zeros.

## Main results

* `Text.parseRadix_pad`: a number is read back from its digits with any zeros before them.
-/

namespace Text

/-- `char::to_digit`. -/
def digitOf (radix : ℕ) (c : Char) : Option ℕ :=
  if c.isDigit ∧ c.toNat - '0'.toNat < radix then some (c.toNat - '0'.toNat) else none

/-- Append a digit to a number, which stays below `bound`. -/
def pushRadix (radix bound n : ℕ) (c : Char) : Except String ℕ :=
  match digitOf radix c with
  | none => .error "invalid digit found in string"
  | some d =>
      if radix * n + d < bound then .ok (radix * n + d)
      else .error "number too large to fit in target type"

/-- `from_str_radix`: an optional plus sign and at least one digit. -/
def parseRadix (radix bound : ℕ) (s : String) : Except String ℕ :=
  let digits := match s.toList with
    | '+' :: rest => rest
    | cs => cs
  if s.toList = [] then .error "cannot parse integer from empty string"
  else if digits = [] then .error "invalid digit found in string"
  else digits.foldlM (pushRadix radix bound) 0

/-- The digits of a number with zeros before them, `width` characters at least. -/
def padDigits (radix width n : ℕ) : String :=
  .ofList (List.replicate (width - (Nat.toDigits radix n).length) '0' ++ Nat.toDigits radix n)

variable {radix bound n : ℕ} {s : String} {ds : List Char}

/-- The digits of a number are digits of the radix. -/
theorem digitOf_of_mem_toDigits (hradix : 1 < radix) (hten : radix ≤ 10) {c : Char}
    (hc : c ∈ Nat.toDigits radix n) : digitOf radix c = some (c.toNat - '0'.toNat) := by
  have hdigit : ∀ d < radix, digitOf radix d.digitChar =
      some (d.digitChar.toNat - '0'.toNat) := by
    intro d hd
    have hd10 : d < 10 := by omega
    have hvalue : d.digitChar.toNat - '0'.toNat = d := Nat.toNat_digitChar_sub_48_of_lt_ten hd10
    exact if_pos ⟨by rw [Nat.isDigit_digitChar, decide_eq_true hd10], by rwa [hvalue]⟩
  induction n using Nat.base_induction radix hradix with
  | single m hm =>
    rw [Nat.toDigits_of_lt_base hm, List.mem_singleton] at hc
    exact hc ▸ hdigit m hm
  | digit m k hk hm ih =>
    rw [← Nat.toDigits_append_toDigits hradix hm hk, List.mem_append] at hc
    obtain hc | hc := hc
    · exact ih hc
    · rw [Nat.toDigits_of_lt_base hk, List.mem_singleton] at hc
      exact hc ▸ hdigit k hk

theorem init_le_ofDigitChars (hradix : 0 < radix) (ds : List Char) (n : ℕ) :
    n ≤ Nat.ofDigitChars radix ds n := by
  induction ds generalizing n with
  | nil => exact le_refl n
  | cons c ds ih =>
    rw [Nat.ofDigitChars_cons]
    exact le_trans (le_trans (Nat.le_mul_of_pos_left n hradix) (Nat.le_add_right _ _)) (ih _)

/-- Digits that spell a number below the bound are read. -/
theorem foldlM_pushRadix (hradix : 0 < radix)
    (hds : ∀ c ∈ ds, digitOf radix c = some (c.toNat - '0'.toNat))
    (hbound : Nat.ofDigitChars radix ds n < bound) :
    ds.foldlM (pushRadix radix bound) n = .ok (Nat.ofDigitChars radix ds n) := by
  induction ds generalizing n with
  | nil => rfl
  | cons c ds ih =>
    rw [Nat.ofDigitChars_cons] at hbound ⊢
    have hn := init_le_ofDigitChars hradix ds (radix * n + (c.toNat - '0'.toNat))
    have hpush : pushRadix radix bound n c = .ok (radix * n + (c.toNat - '0'.toNat)) := by
      rw [pushRadix, hds c List.mem_cons_self]
      exact if_pos (lt_of_le_of_lt hn hbound)
    rw [List.foldlM_cons, hpush]
    exact ih (fun d hd => hds d (List.mem_cons_of_mem c hd)) hbound

/-- A number is read back from its digits with any zeros before them. -/
theorem parseRadix_pad (hradix : 1 < radix) (hten : radix ≤ 10) (hn : n < bound) (width : ℕ) :
    parseRadix radix bound (padDigits radix width n) = .ok n := by
  have hdigits : ∀ c ∈ (padDigits radix width n).toList,
      digitOf radix c = some (c.toNat - '0'.toNat) := by
    intro c hc
    rw [padDigits, String.toList_ofList, List.mem_append] at hc
    obtain hc | hc := hc
    · rw [List.eq_of_mem_replicate hc]
      exact if_pos ⟨rfl, by simpa using Nat.zero_lt_of_lt hradix⟩
    · exact digitOf_of_mem_toDigits hradix hten hc
  have hvalue : Nat.ofDigitChars radix (padDigits radix width n).toList 0 = n := by
    rw [padDigits, String.toList_ofList, Nat.ofDigitChars_append, Nat.ofDigitChars_replicate_zero,
      Nat.mul_zero, Nat.ofDigitChars_toDigits hradix hten]
  have hne : (padDigits radix width n).toList ≠ [] := by
    simp [padDigits]
  have hread := foldlM_pushRadix (by omega) hdigits (hvalue.symm ▸ hn : _ < bound)
  rw [hvalue] at hread
  unfold parseRadix
  generalize (padDigits radix width n).toList = ds at *
  cases ds with
  | nil => exact absurd rfl hne
  | cons c ds =>
    have hc : c ≠ '+' := by
      rintro rfl
      exact absurd (hdigits '+' List.mem_cons_self) (by simp [digitOf])
    simpa [hc] using hread

end Text
