import Rsupervisord.Support.Text

/-!
# Reading UTF-8 text from a byte stream

A reader that takes a line, or a given number of characters, from the front of a stream of bytes,
and what it takes from the encoding of a string.
-/

namespace Text

/-! ## Characters -/

/-- The first character of a stream and the bytes behind it. -/
def readChar (bytes : List UInt8) : Option (Char × List UInt8) :=
  (bytes.toByteArray.utf8DecodeChar? 0).map fun c => (c, bytes.drop c.utf8Size)

/-- The first `n` characters of a stream and the bytes behind them. -/
def readChars : ℕ → List UInt8 → Option (List Char × List UInt8)
  | 0, bytes => some ([], bytes)
  | n + 1, bytes => do
    let (c, rest) ← readChar bytes
    let (cs, rest) ← readChars n rest
    some (c :: cs, rest)

theorem readChar_utf8EncodeChar (c : Char) (rest : List UInt8) :
    readChar (String.utf8EncodeChar c ++ rest) = some (c, rest) := by
  unfold readChar
  rw [List.toByteArray_append, ByteArray.utf8DecodeChar?_utf8EncodeChar_append, Option.map_some,
    ← String.length_utf8EncodeChar, List.drop_left]

/-- Reading as many characters as were encoded takes their bytes and no others. -/
theorem readChars_utf8Chars (cs : List Char) (rest : List UInt8) :
    readChars cs.length (utf8Chars cs ++ rest) = some (cs, rest) := by
  induction cs with
  | nil => rfl
  | cons c cs ih =>
    have hcons : utf8Chars (c :: cs) ++ rest =
        String.utf8EncodeChar c ++ (utf8Chars cs ++ rest) := by
      rw [utf8Chars, List.flatMap_cons, List.append_assoc]
      rfl
    rw [List.length_cons, hcons, readChars, readChar_utf8EncodeChar]
    show (readChars cs.length (utf8Chars cs ++ rest)).bind _ = _
    rw [ih]
    rfl

/-- Valid bytes are those of a text. -/
theorem exists_of_fromUTF8? {bytes : List UInt8}
    (h : (String.fromUTF8? bytes.toByteArray).isSome) : ∃ cs, bytes = utf8Chars cs := by
  rw [String.fromUTF8?] at h
  split at h
  next hvalid =>
    refine ⟨(String.fromUTF8 bytes.toByteArray hvalid).toList, ?_⟩
    apply List.toByteArray_inj.mp
    exact (utf8_toByteArray (String.fromUTF8 bytes.toByteArray hvalid)).symm
  next => cases h

/-! ## Texts -/

/-- `str::from_utf8`. -/
def fromUtf8 (bytes : List UInt8) : Option String := String.fromUTF8? bytes.toByteArray

theorem fromUtf8_eq_some_iff {bytes : List UInt8} {s : String} :
    fromUtf8 bytes = some s ↔ bytes = utf8 s := by
  rw [fromUtf8, String.fromUTF8?]
  constructor
  · intro h
    split at h
    next hvalid =>
      obtain rfl := Option.some.inj h
      apply List.toByteArray_inj.mp
      exact (utf8_toByteArray (String.fromUTF8 bytes.toByteArray hvalid)).symm
    next => cases h
  · rintro rfl
    rw [utf8_toByteArray, dif_pos s.isValidUTF8]
    rfl

/-- Bytes below 128 are a text. -/
theorem utf8Chars_ascii {bytes : List UInt8} (h : ∀ b ∈ bytes, b.toNat < 128) :
    utf8Chars (bytes.map fun b => Char.ofNat b.toNat) = bytes := by
  induction bytes with
  | nil => rfl
  | cons b bytes ih =>
    obtain ⟨hb, hbytes⟩ := List.forall_mem_cons.mp h
    have hvalid : b.toNat.isValidChar := .inl (by omega)
    have hval : (Char.ofNat b.toNat).val.toNat = b.toNat := by
      rw [Char.ofNat, dif_pos hvalid]
      rfl
    have hchar : String.utf8EncodeChar (Char.ofNat b.toNat) = [b] := by
      simp only [String.utf8EncodeChar, hval]
      rw [if_pos (by omega), UInt8.ofNat_toNat]
    rw [List.map_cons, utf8Chars, List.flatMap_cons, hchar, List.singleton_append]
    exact congrArg (b :: ·) (ih hbytes)

/-- Text of ASCII characters has a byte for each of them. -/
theorem length_utf8Chars_of_ascii {cs : List Char} (h : ∀ c ∈ cs, c.toNat < 128) :
    (utf8Chars cs).length = cs.length := by
  induction cs with
  | nil => rfl
  | cons c cs ih =>
    obtain ⟨hc, hcs⟩ := List.forall_mem_cons.mp h
    have hsize : c.utf8Size = 1 := by
      rw [Char.utf8Size_eq_one_iff, UInt32.le_iff_toNat_le]
      exact Nat.le_of_lt_succ hc
    rw [utf8Chars, List.flatMap_cons, List.length_append, String.length_utf8EncodeChar, hsize,
      List.length_cons, Nat.add_comm]
    exact congrArg (· + 1) (ih hcs)

theorem utf8_append (s t : String) : utf8 (s ++ t) = utf8 s ++ utf8 t := by
  rw [utf8, String.toList_append, utf8Chars_append]
  rfl

/-! ## Lines -/

/-- A byte below 128 occurs only as the encoding of its own character. -/
theorem eq_of_mem_utf8EncodeChar {c : Char} {b : UInt8} (hb : b.toNat < 128)
    (hmem : b ∈ String.utf8EncodeChar c) : c.toNat = b.toNat := by
  -- The bytes of longer encodings all have their top bit set.
  have htoNat : ∀ n, (UInt8.ofNat n).toNat = n % 256 := fun n => UInt8.toNat_ofNat'
  have hval : c.toNat = c.val.toNat := rfl
  simp only [String.utf8EncodeChar] at hmem
  split_ifs at hmem with h₁ h₂ h₃
  · have hb' : b = UInt8.ofNat c.val.toNat := List.mem_singleton.mp hmem
    rw [hb', htoNat]
    omega
  · simp only [List.mem_cons, List.not_mem_nil, or_false] at hmem
    rcases hmem with rfl | rfl <;> rw [htoNat] at hb <;> omega
  · simp only [List.mem_cons, List.not_mem_nil, or_false] at hmem
    rcases hmem with rfl | rfl | rfl <;> rw [htoNat] at hb <;> omega
  · simp only [List.mem_cons, List.not_mem_nil, or_false] at hmem
    rcases hmem with rfl | rfl | rfl | rfl <;> rw [htoNat] at hb <;> omega

/-- The bytes before the first newline as text, and the bytes behind it. -/
def readLine (bytes : List UInt8) : Option (String × List UInt8) :=
  match bytes.dropWhile (· ≠ 10) with
  | [] => none
  | _ :: rest => (String.fromUTF8? (bytes.takeWhile (· ≠ 10)).toByteArray).map (·, rest)

/-- Text without a newline has no newline byte. -/
theorem newline_notMem_utf8 {s : String} (h : '\n' ∉ s.toList) : 10 ∉ utf8 s := by
  intro hmem
  obtain ⟨c, hc, hbyte⟩ := List.mem_flatMap.mp hmem
  have hc10 : c.toNat = 10 := eq_of_mem_utf8EncodeChar (by decide) hbyte
  have hnewline : c = '\n' := Char.toNat_inj.mp hc10
  exact h (hnewline ▸ hc)

/-- A line is read back from its bytes. -/
theorem readLine_utf8 {line : String} (h : '\n' ∉ line.toList) (rest : List UInt8) :
    readLine (utf8 line ++ 10 :: rest) = some (line, rest) := by
  have hne : ∀ b ∈ utf8 line, decide (b ≠ 10) = true := by
    intro b hb
    exact decide_eq_true fun hb10 => newline_notMem_utf8 h (hb10 ▸ hb)
  unfold readLine
  rw [List.dropWhile_append_of_pos hne, List.takeWhile_append_of_pos hne]
  simp only [List.dropWhile_cons, List.takeWhile_cons, ne_eq, not_true_eq_false, decide_false,
    Bool.false_eq_true, if_false, List.append_nil]
  rw [utf8_toByteArray, String.fromUTF8?, dif_pos line.isValidUTF8]
  rfl

end Text
