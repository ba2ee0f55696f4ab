import Mathlib.Algebra.Group.Nat.Defs
import Mathlib.Data.List.Basic

/-!
# Local times

A time of day on a date, and its text with a fixed width.
-/

/-- A date and a time of day. -/
structure LocalTime where
  year : ℕ
  month : ℕ
  day : ℕ
  hour : ℕ
  minute : ℕ
  second : ℕ
  year_lt : year < 10000
  month_le : 1 ≤ month ∧ month ≤ 12
  day_le : 1 ≤ day ∧ day ≤ 31
  hour_lt : hour < 24
  minute_lt : minute < 60
  /-- A leap second is the second 60. -/
  second_le : second ≤ 60
  deriving DecidableEq

namespace LocalTime

instance : Inhabited LocalTime where
  default := ⟨1970, 1, 1, 0, 0, 0, by decide, by decide, by decide, by decide, by decide, by decide⟩

/-- The fields, from the year to the second. -/
def fields (t : LocalTime) : List ℕ := [t.year, t.month, t.day, t.hour, t.minute, t.second]

/-- Times are compared by their fields, the year first. -/
instance : LE LocalTime := ⟨fun t t' => t.fields = t'.fields ∨ List.Lex (· < ·) t.fields t'.fields⟩

theorem le_refl (t : LocalTime) : t ≤ t := .inl rfl

/-- The last `width` digits of a number. -/
def digits (width n : ℕ) : List Char :=
  (List.range width).reverse.map fun i => Char.ofNat (48 + n / 10 ^ i % 10)

/-- The text in the format `%Y-%m-%dT%H-%M-%S`. -/
def format (t : LocalTime) : String :=
  .ofList (digits 4 t.year ++ '-' :: digits 2 t.month ++ '-' :: digits 2 t.day ++
    'T' :: digits 2 t.hour ++ '-' :: digits 2 t.minute ++ '-' :: digits 2 t.second)

@[simp]
theorem length_digits (width n : ℕ) : (digits width n).length = width := by
  simp [digits]

/-- All texts have the same length. -/
theorem length_toList_format (t : LocalTime) : t.format.toList.length = 19 := by
  simp [format]

end LocalTime
