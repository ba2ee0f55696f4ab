import Rsupervisord.Support.Lines
import Rsupervisord.Support.Utf8

/-!
# Lossy decoding

Lossy decoding of UTF-8 reads encoded text back and does not look across a character below 128, such
as the end of a line.

* `lossy_utf8Chars`: text is read back from its bytes.
* `lossy_append_ascii`: what is before and behind a character below 128 is decoded by itself.
* `lines_lossy_join`: lines are decoded one by one.
-/

namespace Text

open Lines

variable {b : UInt8} {xs ys : List UInt8}

/-! ## One character -/

/-- A byte below 128 continues no character, as the end of the input does. -/
theorem decodeFirst_append {x : UInt8} (hb : b.toNat < 0x80) (rest ys : List UInt8) :
    decodeFirst x (rest ++ b :: ys) = decodeFirst x rest := by
  have htail : ∀ lo hi, 0x80 ≤ lo → (decide (lo ≤ b.toNat) && decide (b.toNat ≤ hi)) = false := by
    intro lo hi hlo
    rw [Bool.and_eq_false_iff, decide_eq_false_iff_not]
    exact .inl (by omega)
  have hthree : ∀ n : ℕ, 0x80 ≤ if n = 0xE0 then 0xA0 else 0x80 := by
    intro n
    split_ifs <;> omega
  have hfour : ∀ n : ℕ, 0x80 ≤ if n = 0xF0 then 0x90 else 0x80 := by
    intro n
    split_ifs <;> omega
  match rest with
  | [] =>
    simp only [decodeFirst, List.nil_append, htail _ _ (hthree _), htail _ _ (hfour _),
      htail _ _ (le_refl 0x80), Bool.false_eq_true, if_false]
  | [b₁] =>
    simp only [decodeFirst, List.cons_append, List.nil_append, htail _ _ (le_refl 0x80),
      Bool.false_eq_true, if_false]
  | [b₁, b₂] =>
    simp only [decodeFirst, List.cons_append, List.nil_append, htail _ _ (le_refl 0x80),
      Bool.false_eq_true, if_false]
  | b₁ :: b₂ :: b₃ :: rest => simp only [decodeFirst, List.cons_append]

/-- A step takes a byte at least and no more than there are. -/
theorem decodeFirst_snd (x : UInt8) (rest : List UInt8) :
    1 ≤ (decodeFirst x rest).2 ∧ (decodeFirst x rest).2 ≤ rest.length + 1 := by
  match rest with
  | [] | [b₁] | [b₁, b₂] | b₁ :: b₂ :: b₃ :: rest =>
    simp only [decodeFirst]
    split_ifs <;> simp

theorem decodeFirst_ascii (hb : b.toNat < 0x80) (rest : List UInt8) :
    decodeFirst b rest = (Char.ofNat b.toNat, 1) := by
  simp only [decodeFirst, if_pos hb]

/-- A character below 128 is decoded from a byte of its own. -/
theorem decodeFirst_of_toNat_lt {x : UInt8} {rest : List UInt8}
    (h : (decodeFirst x rest).1.toNat < 0x80) :
    x.toNat < 0x80 ∧ (decodeFirst x rest).1 = Char.ofNat x.toNat := by
  have hofNat : ∀ {n : ℕ}, 0x80 ≤ n → n < 0xD800 ∨ 0xDFFF < n ∧ n < 0x110000 →
      ¬ (Char.ofNat n).toNat < 0x80 := by
    intro n hlow hvalid
    have hn : n.isValidChar := hvalid
    have heq : (Char.ofNat n).toNat = n := by
      rw [Char.ofNat, dif_pos hn]
      rfl
    omega
  by_cases hx : x.toNat < 0x80
  · exact ⟨hx, by rw [decodeFirst_ascii hx]⟩
  · refine absurd h ?_
    match rest with
    | [] | [b₁] | [b₁, b₂] | b₁ :: b₂ :: b₃ :: rest =>
      simp only [decodeFirst, if_neg hx, Bool.and_eq_true, decide_eq_true_eq]
      split_ifs
      all_goals
        dsimp only
        apply hofNat <;> omega

/-- A character is read back from its bytes. -/
theorem decodeFirst_utf8EncodeChar (c : Char) (rest : List UInt8) :
    ∃ b bs, String.utf8EncodeChar c = b :: bs ∧
      decodeFirst b (bs ++ rest) = (c, bs.length + 1) := by
  have htoNat : ∀ n, (UInt8.ofNat n).toNat = n % 256 := fun n => UInt8.toNat_ofNat'
  have hofNat : ∀ n, n = c.toNat → Char.ofNat n = c := by
    rintro _ rfl
    exact Char.ofNat_toNat c
  have hval : c.toNat = c.val.toNat := rfl
  have hvalid : c.val.toNat < 0xD800 ∨ (0xDFFF < c.val.toNat ∧ c.val.toNat < 0x110000) := c.valid
  have hbetween : ∀ {lo n hi : ℕ}, lo ≤ n → n ≤ hi → (decide (lo ≤ n) && decide (n ≤ hi)) =
      true := by
    intro lo n hi hlo hhi
    rw [Bool.and_eq_true, decide_eq_true_eq, decide_eq_true_eq]
    exact ⟨hlo, hhi⟩
  simp only [String.utf8EncodeChar]
  split_ifs with h₁ h₂ h₃
  · refine ⟨_, _, rfl, ?_⟩
    simp only [decodeFirst, htoNat]
    rw [if_pos (by omega), hofNat _ (by omega)]
    rfl
  · refine ⟨_, _, rfl, ?_⟩
    simp only [decodeFirst, htoNat, List.cons_append, List.nil_append]
    rw [if_neg (by omega), if_pos (by omega), if_pos (hbetween (by omega) (by omega)),
      hofNat _ (by omega)]
    rfl
  · refine ⟨_, _, rfl, ?_⟩
    simp only [decodeFirst, htoNat, List.cons_append, List.nil_append]
    rw [if_neg (by omega), if_neg (by omega), if_pos (by omega),
      if_pos (hbetween (by split_ifs <;> omega) (by split_ifs <;> omega)),
      if_pos (hbetween (by omega) (by omega)), hofNat _ (by omega)]
    rfl
  · refine ⟨_, _, rfl, ?_⟩
    simp only [decodeFirst, htoNat, List.cons_append, List.nil_append]
    rw [if_neg (by omega), if_neg (by omega), if_neg (by omega), if_pos (by omega),
      if_pos (hbetween (by split_ifs <;> omega) (by split_ifs <;> omega)),
      if_pos (hbetween (by omega) (by omega)), if_pos (hbetween (by omega) (by omega)),
      hofNat _ (by omega)]
    rfl

/-! ## Byte strings -/

/-- The characters of lossy decoding. -/
def lossy (bytes : List UInt8) : List Char := decodeLossy bytes.length bytes

theorem fromUtf8Lossy_eq (bytes : List UInt8) : fromUtf8Lossy bytes = .ofList (lossy bytes) := rfl

/-- As many steps as bytes suffice. -/
theorem decodeLossy_of_length_le {fuel : ℕ} (h : xs.length ≤ fuel) :
    decodeLossy fuel xs = lossy xs := by
  induction hn : xs.length using Nat.strong_induction_on generalizing xs fuel with
  | h n ih =>
    match xs, fuel with
    | [], 0 | [], _ + 1 => rfl
    | b :: rest, fuel + 1 =>
      rw [List.length_cons] at h hn
      have hlength : (rest.drop ((decodeFirst b rest).2 - 1)).length ≤ rest.length := by simp
      have hrest : ∀ {fuel}, rest.length ≤ fuel →
          decodeLossy fuel (rest.drop ((decodeFirst b rest).2 - 1)) =
            lossy (rest.drop ((decodeFirst b rest).2 - 1)) :=
        fun hfuel => ih _ (by omega) (by omega) rfl
      rw [lossy, List.length_cons, decodeLossy, decodeLossy]
      simp only
      rw [hrest (by omega), hrest le_rfl]

theorem lossy_cons (b : UInt8) (rest : List UInt8) :
    lossy (b :: rest) =
      (decodeFirst b rest).1 :: lossy (rest.drop ((decodeFirst b rest).2 - 1)) := by
  rw [lossy, List.length_cons, decodeLossy]
  simp only
  rw [decodeLossy_of_length_le (by simp)]

/-- Text is read back from its bytes. -/
theorem lossy_utf8Chars (cs : List Char) : lossy (utf8Chars cs) = cs := by
  induction cs with
  | nil => rfl
  | cons c cs ih =>
    obtain ⟨b, bs, hbytes, hdecode⟩ := decodeFirst_utf8EncodeChar c (utf8Chars cs)
    have hcons : utf8Chars (c :: cs) = b :: (bs ++ utf8Chars cs) := by
      rw [utf8Chars, List.flatMap_cons, hbytes]
      rfl
    rw [hcons, lossy_cons, hdecode, Nat.add_sub_cancel, List.drop_left, ih]

/-- What is before and behind a character below 128 is decoded by itself. -/
theorem lossy_append_ascii (hb : b.toNat < 0x80) (xs ys : List UInt8) :
    lossy (xs ++ b :: ys) = lossy xs ++ Char.ofNat b.toNat :: lossy ys := by
  induction hn : xs.length using Nat.strong_induction_on generalizing xs with
  | h n ih =>
    match xs with
    | [] =>
      rw [List.nil_append, lossy_cons, decodeFirst_ascii hb]
      rfl
    | x :: rest =>
      obtain ⟨-, hlength⟩ := decodeFirst_snd x rest
      rw [List.length_cons] at hn
      rw [List.cons_append, lossy_cons, lossy_cons, decodeFirst_append hb,
        List.drop_append_of_le_length (by omega), ih _ (by rw [List.length_drop]; omega) _ rfl]
      rfl

/-- A character below 128 is decoded from its own byte only. -/
theorem mem_of_mem_lossy {c : Char} (hc : c.toNat < 0x80) (h : c ∈ lossy xs) :
    UInt8.ofNat c.toNat ∈ xs := by
  induction hlen : xs.length using Nat.strong_induction_on generalizing xs with
  | h k ih =>
    match xs with
    | [] => exact absurd h List.not_mem_nil
    | x :: rest =>
      rw [List.length_cons] at hlen
      rw [lossy_cons, List.mem_cons] at h
      obtain h | h := h
      · obtain ⟨hx, hchar⟩ := decodeFirst_of_toNat_lt (h ▸ hc)
        have hbyte : UInt8.ofNat c.toNat = x := by
          have hvalid : x.toNat.isValidChar := .inl (by omega)
          have hc : c.toNat = x.toNat := by
            rw [h, hchar, Char.ofNat, dif_pos hvalid]
            rfl
          rw [hc]
          exact UInt8.ofNat_toNat
        exact hbyte ▸ List.mem_cons_self
      · exact .tail _ (List.mem_of_mem_drop (ih _ (by rw [List.length_drop]; omega) h rfl))

theorem lossy_eq_nil_iff : lossy xs = [] ↔ xs = [] := by
  match xs with
  | [] => exact iff_of_true rfl rfl
  | x :: rest =>
    rw [lossy_cons]
    exact iff_of_false (List.cons_ne_nil _ _) (List.cons_ne_nil _ _)

/-- The last character, when it is below 128, is that of the last byte. -/
theorem getLast?_lossy {c : Char} (hc : c.toNat < 0x80) (h : (lossy xs).getLast? = some c) :
    xs.getLast? = some (UInt8.ofNat c.toNat) := by
  induction hlen : xs.length using Nat.strong_induction_on generalizing xs with
  | h k ih =>
    match xs with
    | [] => cases h
    | x :: rest =>
      rw [List.length_cons] at hlen
      rw [lossy_cons] at h
      by_cases hrest : rest.drop ((decodeFirst x rest).2 - 1) = []
      · -- The only character.
        rw [hrest] at h
        have hchar : (decodeFirst x rest).1 = c := Option.some.inj h
        obtain ⟨hx, hbyte⟩ := decodeFirst_of_toNat_lt (hchar ▸ hc)
        rw [decodeFirst_ascii hx, Nat.sub_self, List.drop_zero] at hrest
        have hvalid : x.toNat.isValidChar := .inl (by omega)
        have hnat : c.toNat = x.toNat := by
          rw [← hchar, hbyte, Char.ofNat, dif_pos hvalid]
          rfl
        rw [hrest, hnat, UInt8.ofNat_toNat]
        rfl
      · have hne : lossy (rest.drop ((decodeFirst x rest).2 - 1)) ≠ [] := by
          rwa [ne_eq, lossy_eq_nil_iff]
        rw [List.getLast?_cons_of_ne_nil hne] at h
        have hlast := ih _ (by rw [List.length_drop]; omega) h rfl
        obtain ⟨taken, htaken⟩ : rest.drop ((decodeFirst x rest).2 - 1) <:+ rest :=
          List.drop_suffix _ _
        rw [← htaken, ← List.cons_append, List.getLast?_append, hlast]
        rfl

/-! ## Lines -/

/-- `str::lines`: what is between line feeds, without a carriage return before them, and what is
behind the last one, if there is something. -/
def lines (cs : List Char) : List (List Char) :=
  (Lines.cut '\n' cs).1.map (chop '\r') ++
  if (Lines.cut '\n' cs).2 = [] then [] else [(Lines.cut '\n' cs).2]

variable {ls : List (List UInt8)} {t : List UInt8}

/-- A line without a line feed is decoded to one. -/
theorem newline_notMem_lossy (h : (10 : UInt8) ∉ xs) : '\n' ∉ lossy xs := fun hmem =>
  h (mem_of_mem_lossy (by decide) hmem)

/-- Lines are decoded one by one. -/
theorem lossy_join (ls : List (List UInt8)) (t : List UInt8) :
    lossy (join 10 ls t) = join '\n' (ls.map lossy) (lossy t) := by
  induction ls with
  | nil => rfl
  | cons l ls ih =>
    rw [join_cons, List.map_cons, join_cons, lossy_append_ascii (by decide), ih]
    rfl

/-- Decoding keeps the carriage return at the end of a line, and makes none. -/
theorem lossy_chop (line : List UInt8) : lossy (chop 13 line) = chop '\r' (lossy line) := by
  rw [chop, chop]
  by_cases hlast : line.getLast? = some 13
  · obtain ⟨content, rfl⟩ := List.getLast?_eq_some_iff.mp hlast
    have happend : lossy (content ++ [13]) = lossy content ++ ['\r'] := by
      rw [lossy_append_ascii (by decide)]
      rfl
    rw [if_pos hlast, happend, if_pos (by simp), List.dropLast_concat, List.dropLast_concat]
  · rw [if_neg hlast, if_neg]
    exact fun h => hlast (getLast?_lossy (by decide) h)

/-- The decoded lines of a byte string are its lines, decoded. -/
theorem lines_lossy_join (hls : ∀ l ∈ ls, (10 : UInt8) ∉ l) (ht : (10 : UInt8) ∉ t) :
    lines (lossy (join 10 ls t)) =
      (ls.map (chop 13) ++ if t = [] then [] else [t]).map lossy := by
  have hlines : ∀ l ∈ ls.map lossy, '\n' ∉ l := by
    intro l hl
    obtain ⟨line, hline, rfl⟩ := List.mem_map.mp hl
    exact newline_notMem_lossy (hls line hline)
  rw [lossy_join, lines, cut_join hlines (newline_notMem_lossy ht)]
  simp only [lossy_eq_nil_iff, List.map_append, List.map_map]
  congr 1
  · exact List.map_congr_left fun l _ => (lossy_chop l).symm
  · split_ifs <;> rfl

/-- The lines of encoded text are the encoded lines of the text. -/
theorem utf8Chars_join (ls : List (List Char)) (t : List Char) :
    utf8Chars (join '\n' ls t) = join 10 (ls.map utf8Chars) (utf8Chars t) := by
  induction ls with
  | nil => rfl
  | cons l ls ih =>
    have hnewline : utf8Chars ('\n' :: join '\n' ls t) = 10 :: utf8Chars (join '\n' ls t) := rfl
    rw [join_cons, List.map_cons, join_cons, utf8Chars_append, hnewline, ih]

/-- Valid text is valid line by line: decoding and encoding give each line back. -/
theorem utf8Chars_lossy_of_join (hls : ∀ l ∈ ls, (10 : UInt8) ∉ l) (ht : (10 : UInt8) ∉ t)
    {cs : List Char} (h : join 10 ls t = utf8Chars cs) :
    (∀ l ∈ ls, utf8Chars (lossy l) = l) ∧ utf8Chars (lossy t) = t := by
  have hbytes : ∀ {line : List Char}, '\n' ∉ line → (10 : UInt8) ∉ utf8Chars line := by
    intro line hline hmem
    rw [← lossy_utf8Chars line] at hline
    obtain ⟨before, behind, hsplit⟩ := List.append_of_mem hmem
    rw [hsplit, lossy_append_ascii (by decide)] at hline
    exact hline (List.mem_append_right _ List.mem_cons_self)
  obtain ⟨hlines, hrest⟩ := notMem_cut '\n' cs
  have hcut : (ls, t) = ((Lines.cut '\n' cs).1.map utf8Chars, utf8Chars (Lines.cut '\n' cs).2) := by
    rw [← cut_join hls ht, h]
    conv_lhs => rw [← join_cut '\n' cs, utf8Chars_join]
    apply cut_join _ (hbytes hrest)
    intro l hl
    obtain ⟨line, hline, rfl⟩ := List.mem_map.mp hl
    exact hbytes (hlines line hline)
  obtain ⟨rfl, rfl⟩ := Prod.mk.inj hcut
  refine ⟨fun l hl => ?_, by rw [lossy_utf8Chars]⟩
  obtain ⟨line, -, rfl⟩ := List.mem_map.mp hl
  rw [lossy_utf8Chars]

/-- Without its carriage return a valid line is valid. -/
theorem utf8Chars_lossy_chop {line : List UInt8} (h : utf8Chars (lossy line) = line) :
    utf8Chars (lossy (chop 13 line)) = chop 13 line := by
  rw [chop]
  split_ifs with hlast
  · obtain ⟨content, rfl⟩ := List.getLast?_eq_some_iff.mp hlast
    rw [lossy_append_ascii (by decide), utf8Chars_append] at h
    have hreturn : utf8Chars (Char.ofNat (13 : UInt8).toNat :: lossy []) = [13] := rfl
    rw [hreturn, List.append_cancel_right_eq] at h
    rw [List.dropLast_concat, h]
  · exact h

end Text
