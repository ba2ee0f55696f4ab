import Rsupervisord.Config.CommandLine
import Rsupervisord.Config.Resolve

/-!
# The round trip of a command line

A command line is written and read with different rules. The tokens that survive are those in which
no backslash meets a character that it escapes and, without quotes, nothing is special to a shell.

## Main results

* `CommandLine.lossless_iff`: the tokens that come back, and the programs that are started with
  them.
-/

namespace Rsupervisord

namespace CommandLine

open ShellWords (State Emit Lossless KeepsPlain words isPlain isMark quote)

variable {c d : Char} {word r tail cs : List Char} {w token : List Char}
  {ws tokens : List (List Char)} {last : Bool}

/-! ## Joined tokens -/

/-- The tokens on one line. -/
def joinTokens (tokens : List (List Char)) : List Char :=
  [' '].intercalate (tokens.map quoteToken)

/-- What is on the line behind a token. -/
def behind (tokens : List (List Char)) : List Char :=
  if tokens = [] then [] else ' ' :: joinTokens tokens

theorem joinTokens_cons : joinTokens (token :: tokens) = quoteToken token ++ behind tokens := by
  cases tokens with
  | nil => simp [joinTokens, behind]
  | cons token' tokens => simp [joinTokens, behind]

theorem toList_joinCommandTokens (tokens : List String) :
    (joinCommandTokens tokens).toList = joinTokens (tokens.map String.toList) := by
  rw [joinCommandTokens, String.toList_intercalate, joinTokens, List.map_map, List.map_map]
  congr 1
  exact List.map_congr_left fun token _ => String.toList_ofList

theorem escapeQuotes_cons :
    escapeQuotes (c :: r) = (if c = '"' then ['\\', '"'] else [c]) ++ escapeQuotes r :=
  List.flatMap_cons

theorem countP_isPlain_escapeQuotes (r : List Char) :
    (escapeQuotes r).countP isPlain = r.countP isPlain := by
  induction r with
  | nil => rfl
  | cons c r ih =>
    rw [escapeQuotes_cons, List.countP_append, List.countP_cons, ih]
    split_ifs with hc <;> simp_all [isPlain]
    omega

theorem countP_backslash_escapeQuotes (r : List Char) :
    (escapeQuotes r).countP (· = '\\') = r.countP isMark := by
  induction r with
  | nil => rfl
  | cons c r ih =>
    rw [escapeQuotes_cons, List.countP_append, List.countP_cons, ih]
    split_ifs with hc <;> simp_all [isMark] <;> omega

/-- Nothing plain is added by quotes. -/
theorem countP_isPlain_quoteToken (token : List Char) :
    (quoteToken token).countP isPlain = token.countP isPlain := by
  rw [quoteToken]
  split_ifs with hempty
  · simp [hempty, isPlain]
  · rw [List.cons_append, List.countP_cons, List.countP_append, countP_isPlain_escapeQuotes]
    rfl
  · rfl

/-- A quoted token has a backslash for each of its backslashes and double quotes. -/
theorem countP_backslash_quoteToken (token : List Char) :
    (quoteToken token).countP (· = '\\') = token.countP isMark := by
  rw [quoteToken]
  split_ifs with hempty hquotes
  · simp [hempty]
  · rw [List.cons_append, List.countP_cons, List.countP_append, countP_backslash_escapeQuotes]
    rfl
  · -- Without quotes the token has no double quote.
    refine List.countP_congr fun c hc => ?_
    have hne : c ≠ '"' := by
      rintro rfl
      simp [needsQuotes, hc] at hquotes
    simp [isMark, hne]

/-- The line has every plain character of the tokens, and a backslash for every backslash and double
quote. -/
theorem countP_joinTokens (tokens : List (List Char)) :
    (joinTokens tokens).countP isPlain = tokens.flatten.countP isPlain ∧
      (joinTokens tokens).countP (· = '\\') = tokens.flatten.countP isMark := by
  induction tokens with
  | nil => exact ⟨rfl, rfl⟩
  | cons token tokens ih =>
    have hbehind : (behind tokens).countP isPlain = (joinTokens tokens).countP isPlain ∧
        (behind tokens).countP (· = '\\') = (joinTokens tokens).countP (· = '\\') := by
      rw [behind]
      split_ifs with h
      · subst h
        exact ⟨rfl, rfl⟩
      · exact ⟨by simp [isPlain], by simp⟩
    rw [joinTokens_cons, List.countP_append, List.countP_append, List.flatten_cons,
      List.countP_append, List.countP_append, countP_isPlain_quoteToken,
      countP_backslash_quoteToken, hbehind.1, hbehind.2, ih.1, ih.2]
    exact ⟨rfl, rfl⟩

/-- No character of the text makes quotes necessary. -/
def Bare (r : List Char) : Prop := ' ' ∉ r ∧ '\t' ∉ r ∧ '"' ∉ r

theorem bare_of_needsQuotes (h : needsQuotes r = false) : Bare r := by
  simp only [needsQuotes, Bool.or_eq_false_iff, List.contains_eq_mem, decide_eq_false_iff_not] at h
  exact ⟨h.1.1, h.1.2, h.2⟩

theorem Bare.cons (h : Bare (c :: r)) : (c ≠ ' ' ∧ c ≠ '\t' ∧ c ≠ '"') ∧ Bare r := by
  simp only [Bare, List.mem_cons, not_or] at h
  exact ⟨⟨Ne.symm h.1.1, Ne.symm h.2.1.1, Ne.symm h.2.2.1⟩, h.1.2, h.2.1.2, h.2.2.2⟩

/-! ## Shells -/

/-- A backslash between double quotes stays before a character that is not special. -/
theorem words_backslash (hc : c ∉ unixSpecials) :
    words .doubleQuoted word ('\\' :: c :: cs) =
    words .doubleQuoted (word ++ ['\\']) (c :: cs) := by
  simp only [unixSpecials, ShellWords.escapable, List.mem_cons, not_or] at hc
  simp [words, ShellWords.step, ShellWords.escapable, hc]

/-- The start of a word is read as the rest of one. -/
theorem words_delimiter (hblank : ShellWords.isBlank c = false) (hhash : c ≠ '#')
    (hbackslash : c ≠ '\\') :
    words .delimiter word (c :: cs) = words .unquoted word (c :: cs) := by
  simp only [words, ShellWords.step, hblank, hhash, hbackslash]
  split_ifs <;> first | rfl | contradiction

/-- A character that is special to nothing is read. -/
theorem words_unquoted (hquote : c ≠ quote) (hdouble : c ≠ '"') (hbackslash : c ≠ '\\')
    (hblank : ShellWords.isBlank c = false) :
    words .unquoted word (c :: cs) = words .unquoted (word ++ [c]) cs := by
  simp [words, ShellWords.step, hquote, hdouble, hbackslash, hblank]

/-- A character that is not special is read behind the backslash as it is written. -/
theorem exists_escapeQuotes (tail : List Char) (hr : r.headD '"' ∉ unixSpecials) :
    ∃ d, d ∉ unixSpecials ∧ ∃ cs, escapeQuotes r ++ tail = d :: cs := by
  match r with
  | [] => simp [unixSpecials, ShellWords.escapable] at hr
  | d :: r =>
    refine ⟨d, hr, escapeQuotes r ++ tail, ?_⟩
    have hne : d ≠ '"' := by
      rintro rfl
      simp [unixSpecials, ShellWords.escapable] at hr
    rw [escapeQuotes_cons, if_neg hne]
    rfl

/-- Between double quotes a shell reads an escaped token as it was. -/
theorem words_escapeQuotes (h : safeQuoted unixSpecials r = true) :
    words .doubleQuoted word (escapeQuotes r ++ '"' :: tail) =
      words .unquoted (word ++ r) tail := by
  induction r generalizing word with
  | nil => simp [escapeQuotes, words, ShellWords.step]
  | cons c r ih =>
    obtain ⟨hc, hr⟩ := Bool.and_eq_true_iff.mp h
    rw [escapeQuotes_cons]
    by_cases hquote : c = '"'
    · subst hquote
      simp [words, ShellWords.step, ShellWords.escapable, ih hr]
    · rw [if_neg hquote, List.append_assoc, List.singleton_append]
      by_cases hbackslash : c = '\\'
      · subst hbackslash
        have hnext : r.headD '"' ∉ unixSpecials := by simpa using hc
        obtain ⟨d, hd, cs, hcs⟩ := exists_escapeQuotes ('"' :: tail) hnext
        rw [hcs, words_backslash hd, ← hcs, ih hr, List.append_assoc]
        rfl
      · simp [words, ShellWords.step, hquote, hbackslash, ih hr]

/-- A shell reads the characters of a bare token as they are, up to a backslash at the end of the
line. -/
theorem words_bare_cons (cs : List Char) (hbare : Bare (c :: r)) (hbackslash : c ≠ '\\')
    (h : safeBare last (c :: r) = true) :
    words .unquoted word (c :: cs) = words .unquoted (word ++ [c]) cs ∧ safeBare last r = true := by
  obtain ⟨⟨hspace, htab, hdouble⟩, -⟩ := hbare.cons
  simp only [safeBare, hbackslash, if_false, Bool.and_eq_true, decide_eq_true_eq] at h
  refine ⟨words_unquoted h.1.2 hdouble hbackslash ?_, h.2⟩
  simp [ShellWords.isBlank, hspace, htab, h.1.1]

/-- Without quotes a shell reads a token as it was. -/
theorem words_bare (h : safeBare false r = true) (hbare : Bare r) :
    words .unquoted word (r ++ tail) = words .unquoted (word ++ r) tail := by
  induction r generalizing word with
  | nil => simp
  | cons c r ih =>
    have hbackslash : c ≠ '\\' := by
      rintro rfl
      simp [safeBare] at h
    obtain ⟨hstep, hr⟩ := words_bare_cons (r ++ tail) hbare hbackslash h
    rw [List.cons_append, hstep, ih hr hbare.cons.2, List.append_assoc]
    rfl

/-- The last token may end in a backslash. -/
theorem words_bare_last (h : safeBare true r = true) (hbare : Bare r) :
    words .unquoted word r = some [word ++ r] := by
  induction r generalizing word with
  | nil => simp [words, ShellWords.finish]
  | cons c r ih =>
    by_cases hbackslash : c = '\\'
    · obtain rfl : r = [] := by simpa [safeBare, hbackslash] using h
      simp [hbackslash, words, ShellWords.step, ShellWords.finish, quote]
    · obtain ⟨hstep, hr⟩ := words_bare_cons r hbare hbackslash h
      rw [hstep, ih hr hbare.cons.2, List.append_assoc]
      rfl

/-- Behind a word a shell goes on with the other tokens. -/
theorem words_behind :
    words .unquoted word (behind tokens) =
      (words .delimiter [] (joinTokens tokens)).map (word :: ·) := by
  rw [behind]
  split_ifs with h
  · subst h
    rfl
  · rfl

/-- A shell reads a safe token as it was and goes on behind it. -/
theorem words_quoteToken (h : safeUnixToken tokens.isEmpty token = true) :
    words .delimiter [] (quoteToken token ++ behind tokens) =
      (words .delimiter [] (joinTokens tokens)).map (token :: ·) := by
  rw [safeUnixToken] at h
  rw [quoteToken]
  split_ifs at h ⊢ with hempty hquotes
  · subst hempty
    exact words_behind
  · have hopen : words .delimiter [] ('"' :: escapeQuotes token ++ ['"'] ++ behind tokens) =
        words .doubleQuoted [] (escapeQuotes token ++ '"' :: behind tokens) := by
      simp [words, ShellWords.step, quote]
    rw [hopen, words_escapeQuotes h, List.nil_append, words_behind]
  · cases token with
    | nil => exact absurd rfl hempty
    | cons c r =>
      have hbare := bare_of_needsQuotes (Bool.eq_false_of_not_eq_true hquotes)
      obtain ⟨⟨hspace, htab, hdouble⟩, -⟩ := hbare.cons
      simp only [List.head?_cons, Bool.and_eq_true, decide_eq_true_eq, ne_eq,
        Option.some.injEq] at h
      obtain ⟨hhash, hsafe⟩ := h
      by_cases hbackslash : c = '\\'
      · -- A backslash alone, at the end of the line.
        simp only [safeBare, hbackslash, if_true, Bool.and_eq_true, List.isEmpty_iff] at hsafe
        obtain ⟨rfl, rfl⟩ := hsafe
        subst hbackslash
        rfl
      · have hblank : ShellWords.isBlank c = false := by
          simp only [safeBare, hbackslash, if_false, Bool.and_eq_true, decide_eq_true_eq] at hsafe
          simp [ShellWords.isBlank, hspace, htab, hsafe.1.1]
        rw [List.cons_append, words_delimiter hblank hhash hbackslash, ← List.cons_append]
        cases tokens with
        | nil =>
          rw [behind, if_pos rfl, List.append_nil, words_bare_last hsafe hbare]
          rfl
        | cons token' tokens => rw [words_bare hsafe hbare, List.nil_append, words_behind]

/-- A shell reads the tokens that are safe. -/
theorem words_joinTokens (h : safeUnix tokens = true) :
    words .delimiter [] (joinTokens tokens) = some tokens := by
  induction tokens with
  | nil => rfl
  | cons token tokens ih =>
    obtain ⟨htoken, htokens⟩ := Bool.and_eq_true_iff.mp h
    rw [joinTokens_cons, words_quoteToken htoken, ih htokens]
    rfl

/-! ### Nothing else survives a shell -/

/-- When the tokens come back, the shell loses nothing of their line. -/
theorem lossless_joinTokens (h : words .delimiter [] (joinTokens tokens) = some tokens) :
    Lossless .delimiter [] (joinTokens tokens) tokens := by
  obtain ⟨hplain, hmarks⟩ := countP_joinTokens tokens
  refine ⟨h, rfl, ?_, ?_⟩
  · rw [KeepsPlain, hplain, List.countP_nil, Nat.zero_add]
  · rw [hmarks, List.countP_nil]
    simp [State.pending]

/-- Where nothing is lost, a backslash in no quotes is before a double quote or at the end. -/
theorem eq_nil_of_backslash {st : State} (hst : st = .delimiter ∨ st = .unquoted)
    (h : Lossless st word ('\\' :: cs) ws) (hcs : cs.head? ≠ some '"') : cs = [] := by
  match cs with
  | [] => rfl
  | d :: cs =>
    exfalso
    have hd : d ≠ '"' := by simpa using hcs
    have hmark : [d].countP isMark = [d].countP (· = '\\') := by simp [isMark, hd]
    obtain rfl | rfl := hst
    · have hbackslash : ShellWords.step .delimiter '\\' = (.backslash, .push []) := rfl
      obtain ⟨hnext, -, -⟩ := h.push hbackslash
      by_cases hnewline : d = '\n'
      · have hstep : ShellWords.step .backslash d = (.delimiter, .push []) := by
          simp [ShellWords.step, hnewline]
        have hplain := (hnext.push hstep).2.1
        simp [hnewline, isPlain] at hplain
      · have hstep : ShellWords.step .backslash d = (.unquoted, .push [d]) := by
          simp [ShellWords.step, hnewline]
        have hmarks := (hnext.push hstep).2.2
        simp only [State.pending] at hmarks
        omega
    · have hbackslash : ShellWords.step .unquoted '\\' = (.unquotedBackslash, .push []) := by
        simp [ShellWords.step, quote]
      obtain ⟨hnext, -, -⟩ := h.push hbackslash
      by_cases hnewline : d = '\n'
      · have hstep : ShellWords.step .unquotedBackslash d = (.unquoted, .push []) := by
          simp [ShellWords.step, hnewline]
        have hplain := (hnext.push hstep).2.1
        simp [hnewline, isPlain] at hplain
      · have hstep : ShellWords.step .unquotedBackslash d = (.unquoted, .push [d]) := by
          simp [ShellWords.step, hnewline]
        have hmarks := (hnext.push hstep).2.2
        simp only [State.pending] at hmarks
        omega

theorem head?_append_behind (hbare : Bare r) : (r ++ behind tokens).head? ≠ some '"' := by
  match r with
  | [] =>
    rw [behind]
    split_ifs <;> simp
  | d :: r => simpa using hbare.cons.1.2.2

/-- Where nothing is lost, a bare token has nothing special in it. -/
theorem safeBare_of_lossless (h : Lossless .unquoted word (r ++ behind tokens) ws)
    (hbare : Bare r) : safeBare tokens.isEmpty r = true := by
  induction r generalizing word with
  | nil => rfl
  | cons c r ih =>
    obtain ⟨⟨hspace, htab, hdouble⟩, hr⟩ := hbare.cons
    rw [List.cons_append] at h
    by_cases hbackslash : c = '\\'
    · rw [hbackslash] at h
      obtain ⟨rfl, hbehind⟩ := List.append_eq_nil_iff.mp
        (eq_nil_of_backslash (.inr rfl) h (head?_append_behind hr))
      have htokens : tokens = [] := by
        by_contra hne
        simp [behind, hne] at hbehind
      simp [safeBare, hbackslash, htokens]
    · have hquote : c ≠ quote := by
        rintro rfl
        have hstep : ShellWords.step .unquoted quote = (.singleQuoted, .push []) := rfl
        have hplain := (h.push hstep).2.1
        simp [isPlain, quote] at hplain
      have hnewline : c ≠ '\n' := by
        rintro rfl
        exact h.not_endWord rfl (by simp [ShellWords.step, quote, ShellWords.isBlank])
      have hstep : ShellWords.step .unquoted c = (.unquoted, .push [c]) := by
        simp [ShellWords.step, hquote, hdouble, hbackslash, ShellWords.isBlank, hspace, htab,
          hnewline]
      simp [safeBare, hbackslash, hnewline, hquote, ih (h.push hstep).1 hr]

/-- Where nothing is lost and the word comes back, a backslash between double quotes is before no
special character. -/
theorem headD_notMem_of_lossless
    (h : Lossless .doubleQuoted word ('\\' :: (escapeQuotes r ++ '"' :: tail))
      ((word ++ '\\' :: r) :: ws)) :
    r.headD '"' ∉ unixSpecials := by
  intro hmem
  have hbackslash : ShellWords.step .doubleQuoted '\\' = (.doubleQuotedBackslash, .push []) := rfl
  have hnext := (h.push hbackslash).1
  rw [List.append_nil] at hnext
  match r with
  | [] =>
    -- The closing quote is read as a character of the word.
    have hstep : ShellWords.step .doubleQuotedBackslash '"' = (.doubleQuoted, .push ['"']) := rfl
    have hbegin := ShellWords.prefix_of_words rfl (hnext.push hstep).1.reads
    rw [List.prefix_append_right_inj] at hbegin
    simp at hbegin
  | d :: r =>
    rw [escapeQuotes_cons] at hnext
    by_cases hquote : d = '"'
    · -- The first of two backslashes is lost.
      rw [if_pos hquote] at hnext
      have hstep : ShellWords.step .doubleQuotedBackslash '\\' =
          (.doubleQuoted, .push ['\\']) := rfl
      have hmarks := (hnext.push hstep).2.2
      simp [State.pending, isMark] at hmarks
    · rw [if_neg hquote] at hnext
      by_cases hnewline : d = '\n'
      · have hstep : ShellWords.step .doubleQuotedBackslash d = (.doubleQuoted, .push []) := by
          simp [ShellWords.step, hnewline]
        have hplain := (hnext.push hstep).2.1
        simp [hnewline, isPlain] at hplain
      · have hescapable : d ∈ ShellWords.escapable := by
          simpa [unixSpecials, hnewline] using hmem
        have hstep : ShellWords.step .doubleQuotedBackslash d = (.doubleQuoted, .push [d]) := by
          simp [ShellWords.step, hnewline, hescapable]
        have hmarks := (hnext.push hstep).2.2
        simp [State.pending, isMark, hquote] at hmarks

/-- Nothing is lost behind a backslash that stays between double quotes. -/
theorem lossless_backslash (hd : d ∉ unixSpecials)
    (h : Lossless .doubleQuoted word ('\\' :: d :: cs) ws) :
    Lossless .doubleQuoted (word ++ ['\\']) (d :: cs) ws := by
  refine ⟨words_backslash hd ▸ h.reads, rfl, ?_, ?_⟩
  · have hplain := h.plain
    rw [KeepsPlain, List.countP_cons] at hplain
    rw [KeepsPlain, List.countP_append, hplain]
    rfl
  · have hmarks := h.marks
    rw [List.countP_cons] at hmarks
    rw [List.countP_append, hmarks]
    simp [State.pending, isMark]
    omega

/-- Where nothing is lost and the word comes back, a token between double quotes is safe. -/
theorem safeQuoted_of_lossless
    (h : Lossless .doubleQuoted word (escapeQuotes r ++ '"' :: tail) ((word ++ r) :: ws)) :
    safeQuoted unixSpecials r = true := by
  induction r generalizing word with
  | nil => rfl
  | cons c r ih =>
    rw [escapeQuotes_cons, List.append_assoc] at h
    by_cases hbackslash : c = '\\'
    · subst hbackslash
      have hnext := headD_notMem_of_lossless h
      obtain ⟨d, hd, cs, hcs⟩ := exists_escapeQuotes ('"' :: tail) hnext
      have hrest : Lossless .doubleQuoted word ('\\' :: d :: cs) ((word ++ '\\' :: r) :: ws) :=
        hcs ▸ h
      have hr := lossless_backslash hd hrest
      have hword : word ++ '\\' :: r = word ++ ['\\'] ++ r := List.append_cons word _ r
      rw [← hcs, hword] at hr
      rw [safeQuoted, ih hr, Bool.and_true]
      simpa using hnext
    · rw [List.append_cons word] at h
      have hrest : Lossless .doubleQuoted (word ++ [c]) (escapeQuotes r ++ '"' :: tail)
          ((word ++ [c] ++ r) :: ws) := by
        by_cases hquote : c = '"'
        · subst hquote
          rw [if_pos rfl, List.cons_append, List.cons_append, List.nil_append] at h
          have hescape : ShellWords.step .doubleQuoted '\\' =
            (.doubleQuotedBackslash, .push []) := rfl
          have hstep : ShellWords.step .doubleQuotedBackslash '"' = (.doubleQuoted, .push ['"']) :=
            rfl
          have hpushed := ((h.push hescape).1.push hstep).1
          rwa [List.append_nil] at hpushed
        · rw [if_neg hquote] at h
          have hstep : ShellWords.step .doubleQuoted c = (.doubleQuoted, .push [c]) := by
            simp [ShellWords.step, hquote, hbackslash]
          exact (h.push hstep).1
      simp [safeQuoted, hbackslash, ih hrest]

/-- A token that comes back from a shell is safe. -/
theorem safeUnixToken_of_lossless
    (h : Lossless .delimiter [] (quoteToken token ++ behind tokens) (token :: ws)) :
    safeUnixToken tokens.isEmpty token = true := by
  rw [quoteToken] at h
  rw [safeUnixToken]
  split_ifs at h ⊢ with hempty hquotes
  · rfl
  · have hopen : ShellWords.step .delimiter '"' = (.doubleQuoted, .push []) := rfl
    rw [List.append_assoc, List.cons_append] at h
    exact safeQuoted_of_lossless (h.push hopen).1
  · cases token with
    | nil => exact absurd rfl hempty
    | cons c r =>
      have hbare := bare_of_needsQuotes (Bool.eq_false_of_not_eq_true hquotes)
      obtain ⟨⟨hspace, htab, hdouble⟩, hr⟩ := hbare.cons
      rw [List.cons_append] at h
      by_cases hbackslash : c = '\\'
      · rw [hbackslash] at h
        obtain ⟨rfl, hbehind⟩ := List.append_eq_nil_iff.mp
          (eq_nil_of_backslash (.inl rfl) h (head?_append_behind hr))
        have htokens : tokens = [] := by
          by_contra hne
          simp [behind, hne] at hbehind
        simp [safeBare, hbackslash, htokens]
      · have hhash : c ≠ '#' := by
          rintro rfl
          have hstep : ShellWords.step .delimiter '#' = (.comment, .push []) := rfl
          have hplain := (h.push hstep).2.1
          simp [isPlain] at hplain
        have hnewline : c ≠ '\n' := by
          rintro rfl
          have hstep : ShellWords.step .delimiter '\n' = (.delimiter, .push []) := rfl
          have hplain := (h.push hstep).2.1
          simp [isPlain] at hplain
        have hblank : ShellWords.isBlank c = false := by
          simp [ShellWords.isBlank, hspace, htab, hnewline]
        have hunquoted : Lossless .unquoted [] (c :: (r ++ behind tokens)) ((c :: r) :: ws) :=
          ⟨words_delimiter hblank hhash hbackslash ▸ h.reads, rfl, h.plain, h.marks⟩
        rw [← List.cons_append] at hunquoted
        simp [hhash, safeBare_of_lossless hunquoted hbare]

/-- The tokens that come back from a shell are the safe ones. -/
theorem words_joinTokens_iff :
    words .delimiter [] (joinTokens tokens) = some tokens ↔ safeUnix tokens = true := by
  refine ⟨fun h => ?_, words_joinTokens⟩
  induction tokens with
  | nil => rfl
  | cons token tokens ih =>
    have htoken : safeUnixToken tokens.isEmpty token = true :=
      safeUnixToken_of_lossless (joinTokens_cons ▸ lossless_joinTokens h)
    rw [joinTokens_cons, words_quoteToken htoken, Option.map_eq_some_iff] at h
    obtain ⟨ws, hws, heq⟩ := h
    obtain rfl := (List.cons.inj heq).2
    rw [safeUnix, htoken, ih hws]
    rfl

/-! ## Windows -/

variable {slashes : ℕ} {inQuotes : Bool} {current : List Char}

theorem endArg_of_ne_nil (h : current ≠ []) : endArg current = [current] := if_neg h

theorem flatten_endArg : (endArg current).flatten = current := by
  rw [endArg]
  split_ifs with h
  · exact h.symm
  · simp

/-- No argument is empty. -/
theorem ne_nil_of_mem_windowsArgs (h : w ∈ windowsArgs slashes inQuotes current cs) : w ≠ [] := by
  have hend : ∀ current, w ∈ endArg current → w ≠ [] := by
    rintro current hmem rfl
    rw [endArg] at hmem
    split_ifs at hmem with hne
    · exact List.not_mem_nil hmem
    · exact hne (List.mem_singleton.mp hmem).symm
  induction cs generalizing slashes inQuotes current with
  | nil => exact hend _ h
  | cons c cs ih =>
    rw [windowsArgs] at h
    split_ifs at h
    · exact ih h
    · exact ih h
    · exact ih h
    · obtain h | h := List.mem_append.mp h
      · exact hend _ h
      · exact ih h
    · exact ih h

/-- What was read of an argument stays at its start. -/
theorem prefix_of_windowsArgs (hne : current ≠ [])
    (h : windowsArgs slashes inQuotes current cs = w :: ws) : current <+: w := by
  induction cs generalizing slashes inQuotes current with
  | nil =>
    rw [windowsArgs, endArg_of_ne_nil (by simp [hne])] at h
    exact (List.cons.inj h).1 ▸ List.prefix_append current _
  | cons c cs ih =>
    rw [windowsArgs] at h
    split_ifs at h
    · exact ih hne h
    · rw [List.append_assoc] at h
      exact (List.prefix_append current _).trans (ih (by simp) h)
    · exact (List.prefix_append current _).trans (ih (by simp [hne]) h)
    · rw [endArg_of_ne_nil (by simp [hne])] at h
      exact (List.cons.inj h).1 ▸ List.prefix_append current _
    · rw [List.append_assoc] at h
      exact (List.prefix_append current _).trans (ih (by simp) h)

theorem countP_isMark_replicate : (List.replicate slashes '\\').countP isMark = slashes := by
  rw [List.countP_replicate]
  rfl

/-- Every backslash and double quote of the arguments comes from a backslash of its own. -/
theorem countP_isMark_windowsArgs :
    (windowsArgs slashes inQuotes current cs).flatten.countP isMark ≤
      current.countP isMark + slashes + cs.countP (· = '\\') := by
  induction cs generalizing slashes inQuotes current with
  | nil =>
    rw [windowsArgs, flatten_endArg, List.countP_append, countP_isMark_replicate]
    exact Nat.le_add_right _ _
  | cons c cs ih =>
    have hcons : (c :: cs).countP (· = '\\') = [c].countP (· = '\\') + cs.countP (· = '\\') := by
      rw [← List.countP_append, List.singleton_append]
    rw [windowsArgs, hcons]
    split_ifs with hbackslash hquote hodd hblank
    · refine ih.trans (le_of_eq ?_)
      simp [hbackslash]
      omega
    · refine ih.trans ?_
      have hone : ['"'].countP isMark = 1 := rfl
      rw [List.countP_append, List.countP_append, countP_isMark_replicate, hone]
      omega
    · refine ih.trans ?_
      rw [List.countP_append, countP_isMark_replicate]
      omega
    · have hrest : (windowsArgs 0 inQuotes [] cs).flatten.countP isMark ≤ _ := ih
      rw [List.flatten_append, List.countP_append, flatten_endArg, List.countP_append,
        countP_isMark_replicate]
      rw [List.countP_nil] at hrest
      omega
    · refine ih.trans ?_
      have hzero : [c].countP isMark = 0 := by simp [isMark, hbackslash, hquote]
      rw [List.countP_append, List.countP_append, countP_isMark_replicate, hzero]
      omega

theorem windowsArgs_backslash :
    windowsArgs slashes inQuotes current ('\\' :: cs) =
      windowsArgs (slashes + 1) inQuotes current cs := by
  simp [windowsArgs]

/-- A character that is no blank is read. -/
theorem windowsArgs_push (hbackslash : c ≠ '\\') (hquote : c ≠ '"')
    (hblank : inQuotes = true ∨ c ≠ ' ' ∧ c ≠ '\t') :
    windowsArgs slashes inQuotes current (c :: cs) =
      windowsArgs 0 inQuotes (current ++ .replicate slashes '\\' ++ [c]) cs := by
  rw [windowsArgs, if_neg hbackslash, if_neg hquote]
  obtain rfl | ⟨hspace, htab⟩ := hblank
  · simp
  · simp [hspace, htab]

/-- A token in quotes is safe behind some backslashes when the last of them is before no double
quote. -/
theorem safeQuoted_replicate :
    safeQuoted ['"'] (.replicate slashes '\\' ++ r) = true ↔
      (slashes ≠ 0 → r.headD '"' ≠ '"') ∧ safeQuoted ['"'] r = true := by
  induction slashes with
  | zero => simp
  | succ slashes ih =>
    rw [List.replicate_succ, List.cons_append, safeQuoted, Bool.and_eq_true, ih]
    cases slashes with
    | zero => simp
    | succ slashes => simp [List.replicate_succ]

theorem replicate_append_cons :
    List.replicate slashes '\\' ++ '\\' :: r = List.replicate (slashes + 1) '\\' ++ r := by
  rw [List.replicate_succ', List.append_assoc]
  rfl

/-- Between double quotes Windows reads an escaped token as it was. -/
theorem windowsArgs_escapeQuotes
    (h : safeQuoted ['"'] (.replicate slashes '\\' ++ r) = true) :
    windowsArgs slashes true current (escapeQuotes r ++ '"' :: tail) =
      windowsArgs 0 false (current ++ .replicate slashes '\\' ++ r) tail := by
  induction r generalizing slashes current with
  | nil =>
    obtain rfl : slashes = 0 := by
      by_contra hne
      exact (safeQuoted_replicate.mp h).1 hne rfl
    simp [escapeQuotes, windowsArgs]
  | cons c r ih =>
    rw [escapeQuotes_cons, List.append_assoc]
    by_cases hbackslash : c = '\\'
    · subst hbackslash
      rw [replicate_append_cons] at h
      rw [if_neg (by decide), List.singleton_append, windowsArgs_backslash, ih h,
        List.append_assoc, List.append_assoc, replicate_append_cons]
    · obtain ⟨hzero, hr⟩ := safeQuoted_replicate.mp h
      obtain ⟨-, hr⟩ := Bool.and_eq_true_iff.mp hr
      have hrest : windowsArgs 0 true (current ++ .replicate slashes '\\' ++ [c])
          (escapeQuotes r ++ '"' :: tail) = _ := ih hr
      by_cases hquote : c = '"'
      · obtain rfl : slashes = 0 := by
          by_contra hne
          exact hzero hne hquote
        subst hquote
        simpa [windowsArgs] using hrest
      · rw [if_neg hquote, List.singleton_append, windowsArgs_push hbackslash hquote (.inl rfl),
          hrest]
        simp

/-- Behind an argument Windows goes on with the other tokens. -/
theorem windowsArgs_behind :
    windowsArgs slashes false current (behind tokens) =
      endArg (current ++ .replicate slashes '\\') ++
      windowsArgs 0 false [] (joinTokens tokens) := by
  rw [behind]
  split_ifs with h
  · subst h
    simp [windowsArgs, joinTokens, endArg]
  · simp [windowsArgs]

/-- Without quotes Windows reads a token as it was. -/
theorem windowsArgs_bare (hbare : Bare r) :
    windowsArgs slashes false current (r ++ behind tokens) =
      endArg (current ++ .replicate slashes '\\' ++ r) ++
        windowsArgs 0 false [] (joinTokens tokens) := by
  induction r generalizing slashes current with
  | nil => rw [List.nil_append, List.append_nil, windowsArgs_behind]
  | cons c r ih =>
    obtain ⟨⟨hspace, htab, hquote⟩, hr⟩ := hbare.cons
    rw [List.cons_append]
    by_cases hbackslash : c = '\\'
    · rw [hbackslash, windowsArgs_backslash, ih hr, List.replicate_succ']
      simp
    · rw [windowsArgs_push hbackslash hquote (.inr ⟨hspace, htab⟩), ih hr]
      simp

/-- Windows reads a safe token as it was and goes on behind it. -/
theorem windowsArgs_quoteToken (h : safeWindowsToken token = true) :
    windowsArgs 0 false [] (quoteToken token ++ behind tokens) =
      token :: windowsArgs 0 false [] (joinTokens tokens) := by
  simp only [safeWindowsToken, Bool.and_eq_true, decide_eq_true_eq, Bool.or_eq_true] at h
  obtain ⟨hne, hsafe⟩ := h
  rw [quoteToken, if_neg hne]
  split_ifs with hquotes
  · have hquoted : safeQuoted ['"'] (List.replicate 0 '\\' ++ token) = true := by
      simpa [hquotes] using hsafe
    have hopen : windowsArgs 0 false [] ('"' :: escapeQuotes token ++ ['"'] ++ behind tokens) =
        windowsArgs 0 true [] (escapeQuotes token ++ '"' :: behind tokens) := by
      simp [windowsArgs]
    rw [hopen, windowsArgs_escapeQuotes hquoted, windowsArgs_behind]
    simp [endArg_of_ne_nil hne]
  · rw [windowsArgs_bare (bare_of_needsQuotes (Bool.eq_false_of_not_eq_true hquotes))]
    simp [endArg_of_ne_nil hne]

/-! ### Nothing else survives on Windows -/

/-- When no backslash is lost, there is at most one before a double quote, and it makes the quote a
character. -/
theorem windowsArgs_quote_cases (h : windowsArgs slashes inQuotes current ('"' :: cs) = ws)
    (hmarks : ws.flatten.countP isMark =
      current.countP isMark + slashes + cs.countP (· = '\\')) :
    slashes = 0 ∨ slashes = 1 ∧ windowsArgs 0 inQuotes (current ++ ['"']) cs = ws := by
  rw [windowsArgs, if_neg (by decide), if_pos rfl] at h
  have hle := congrArg (fun ws => ws.flatten.countP isMark) h
  split_ifs at h hle with hodd
  · have hone : ['"'].countP isMark = 1 := rfl
    have hcount : (windowsArgs 0 inQuotes (current ++ .replicate (slashes / 2) '\\' ++ ['"'])
      cs).flatten.countP isMark ≤ _ := countP_isMark_windowsArgs
    rw [h, List.countP_append, List.countP_append, countP_isMark_replicate, hone] at hcount
    obtain rfl : slashes = 1 := by omega
    exact .inr ⟨rfl, by simpa using h⟩
  · have hcount : (windowsArgs 0 (!inQuotes) (current ++ .replicate (slashes / 2) '\\')
      cs).flatten.countP isMark ≤ _ := countP_isMark_windowsArgs
    rw [h, List.countP_append, countP_isMark_replicate] at hcount
    exact .inl (by omega)

/-- When the argument comes back and no backslash is lost, the token in quotes is safe. -/
theorem safeQuoted_of_windowsArgs (htoken : token = current ++ .replicate slashes '\\' ++ r)
    (h : windowsArgs slashes true current (escapeQuotes r ++ '"' :: tail) = token :: ws)
    (hmarks : (token :: ws).flatten.countP isMark =
      current.countP isMark + slashes + (escapeQuotes r ++ '"' :: tail).countP (· = '\\')) :
    safeQuoted ['"'] (.replicate slashes '\\' ++ r) = true := by
  induction r generalizing slashes current with
  | nil =>
    have htail : (escapeQuotes [] ++ '"' :: tail).countP (· = '\\') = tail.countP (· = '\\') := rfl
    obtain rfl | ⟨rfl, hread⟩ := windowsArgs_quote_cases h (htail ▸ hmarks)
    · rfl
    · -- The closing quote is read as a character of the argument.
      have hbegin := prefix_of_windowsArgs (by simp) hread
      rw [htoken, List.append_nil, List.prefix_append_right_inj] at hbegin
      simp at hbegin
  | cons c r ih =>
    rw [escapeQuotes_cons, List.append_assoc] at h hmarks
    by_cases hbackslash : c = '\\'
    · subst hbackslash
      rw [if_neg (by decide), List.singleton_append] at h hmarks
      rw [windowsArgs_backslash] at h
      rw [replicate_append_cons]
      refine ih ?_ h ?_
      · rw [htoken, List.append_assoc, replicate_append_cons, List.append_assoc]
      · simp only [List.countP_cons, decide_true, if_true] at hmarks
        omega
    · by_cases hquote : c = '"'
      · subst hquote
        have hcount : (token :: ws).flatten.countP isMark = current.countP isMark + (slashes + 1) +
            (escapeQuotes r ++ '"' :: tail).countP (· = '\\') := by
          rw [if_pos rfl, List.cons_append, List.countP_cons] at hmarks
          rw [hmarks]
          simp
          omega
        rw [if_pos rfl, List.cons_append, windowsArgs_backslash] at h
        obtain hzero | ⟨hone, hread⟩ := windowsArgs_quote_cases h hcount
        · omega
        · obtain rfl : slashes = 0 := by omega
          have hgrown : (current ++ ['"']).countP isMark = current.countP isMark + 1 :=
            List.countP_append
          have hr : safeQuoted ['"'] (.replicate 0 '\\' ++ r) = true := by
            refine ih (by simp [htoken]) hread ?_
            rw [hcount, hgrown]
          exact safeQuoted_replicate.mpr ⟨fun hne => absurd rfl hne, hr⟩
      · rw [if_neg hquote, List.singleton_append] at h hmarks
        rw [windowsArgs_push hbackslash hquote (.inl rfl)] at h
        have hzero : [c].countP isMark = 0 := by simp [isMark, hbackslash, hquote]
        have hr : safeQuoted ['"'] (.replicate 0 '\\' ++ r) = true := by
          refine ih (by simp [htoken]) h ?_
          rw [hmarks, List.countP_append, List.countP_append, countP_isMark_replicate, hzero,
            List.countP_cons]
          simp [hbackslash]
        refine safeQuoted_replicate.mpr ⟨fun _ => hquote, ?_⟩
        rw [safeQuoted, Bool.and_eq_true]
        exact ⟨by simp [hbackslash], hr⟩

/-- An argument that comes back on Windows is safe. -/
theorem safeWindowsToken_of_windowsArgs
    (h : windowsArgs 0 false [] (joinTokens (token :: tokens)) = token :: tokens) :
    safeWindowsToken token = true := by
  have hne : token ≠ [] := ne_nil_of_mem_windowsArgs (h ▸ List.mem_cons_self)
  have hmarks := (countP_joinTokens (token :: tokens)).2
  rw [joinTokens_cons, quoteToken, if_neg hne] at h hmarks
  rw [safeWindowsToken, Bool.and_eq_true, Bool.or_eq_true]
  refine ⟨by simpa using hne, ?_⟩
  split_ifs at h hmarks with hquotes
  · refine .inr ?_
    have hread : windowsArgs 0 true [] (escapeQuotes token ++ '"' :: behind tokens) =
        token :: tokens := by
      rw [← h]
      simp [windowsArgs]
    have htoken : token = [] ++ List.replicate 0 '\\' ++ token := rfl
    have hsafe := safeQuoted_of_windowsArgs htoken hread (by rw [← hmarks]; simp)
    exact hsafe
  · exact .inl (by simpa using hquotes)

/-- The tokens that come back on Windows are the safe ones. -/
theorem windowsArgs_joinTokens_iff :
    windowsArgs 0 false [] (joinTokens tokens) = tokens ↔
      tokens.all safeWindowsToken = true := by
  induction tokens with
  | nil => exact ⟨fun _ => rfl, fun _ => rfl⟩
  | cons token tokens ih =>
    rw [List.all_cons, Bool.and_eq_true]
    constructor
    · intro h
      have htoken := safeWindowsToken_of_windowsArgs h
      rw [joinTokens_cons, windowsArgs_quoteToken htoken] at h
      exact ⟨htoken, ih.mp (List.cons.inj h).2⟩
    · rintro ⟨htoken, htokens⟩
      rw [joinTokens_cons, windowsArgs_quoteToken htoken, ih.mpr htokens]

/-! ## Both platforms -/

/-- The words of `shell_words` are those of a POSIX shell. -/
def FollowsPosix (shellWords : String → Except String (List String)) : Prop :=
  ∀ text, (shellWords text).toOption = ShellWords.split text

theorem map_ofList_eq_iff {words : List (List Char)} {tokens : List String} :
    words.map String.ofList = tokens ↔ words = tokens.map String.toList := by
  constructor
  · rintro rfl
    rw [List.map_map]
    exact (List.map_id'' (fun _ => String.toList_ofList) words).symm
  · rintro rfl
    rw [List.map_map]
    exact List.map_id'' (fun _ => String.ofList_toList) tokens

variable {shellWords : String → Except String (List String)}

theorem splitCommandLine_joinCommandTokens (hshell : FollowsPosix shellWords)
    (platform : Platform) (tokens : List String) :
    platform.splitCommandLine shellWords (joinCommandTokens tokens) = .ok tokens ↔
      platform.keepsTokens tokens = true := by
  match platform with
  | .unix =>
    rw [Platform.splitCommandLine, Platform.keepsTokens, ← words_joinTokens_iff,
      ← toList_joinCommandTokens]
    have hoption := hshell (joinCommandTokens tokens)
    rw [ShellWords.split] at hoption
    constructor
    · intro h
      rw [h] at hoption
      obtain ⟨ws, hws, heq⟩ := Option.map_eq_some_iff.mp hoption.symm
      rw [hws, map_ofList_eq_iff.mp heq]
    · intro h
      rw [h, Option.map_some, map_ofList_eq_iff.mpr rfl] at hoption
      cases hresult : shellWords (joinCommandTokens tokens) with
      | error e => simp [hresult, Except.toOption] at hoption
      | ok result =>
        rw [hresult] at hoption
        exact congrArg Except.ok (Option.some.inj hoption)
  | .windows =>
    rw [Platform.splitCommandLine, Platform.keepsTokens, ← windowsArgs_joinTokens_iff,
      ← toList_joinCommandTokens, Except.ok.injEq, map_ofList_eq_iff]

/-- The tokens of a command line are the command and its arguments. -/
theorem commandAndArgs_of_split {env : ResolveEnv} {vars : HashMap String String}
    {line command : String} {args : List String}
    (heval : env.evalNamed vars line "command" = .ok line)
    (hsplit : env.splitCommandLine line = .ok (command :: args)) :
    env.commandAndArgs vars line [] = .ok (command, args) := by
  have hline : env.eval vars line "command" = .ok line := by
    rw [ResolveEnv.eval, heval]
    rfl
  rw [ResolveEnv.commandAndArgs, hline]
  simp only [bind, Except.bind, List.isEmpty_nil, if_true, hsplit]
  rfl

/-- A command line is written without loss on either platform exactly for the tokens that survive.
So a translated command has the absolute path and the other tokens as they were exactly when these
tokens survive, and then the program is started with them. -/
theorem lossless_iff (hshell : FollowsPosix shellWords) (platform : Platform) :
    (∀ tokens, platform.splitCommandLine shellWords (joinCommandTokens tokens) = .ok tokens ↔
      platform.keepsTokens tokens = true) ∧
    ∀ (absolutize : String → String) (cmd line first : String) (rest : List String),
      platform.splitCommandLine shellWords cmd = .ok (first :: rest) →
      line = translateCommand (platform.splitCommandLine shellWords) absolutize cmd →
      (isPath first = false → line = cmd) ∧
      (isPath first = true →
        (platform.splitCommandLine shellWords line = .ok (absolutize first :: rest) ↔
          platform.keepsTokens (absolutize first :: rest) = true) ∧
        ∀ (env : ResolveEnv) (vars : HashMap String String),
          env.splitCommandLine = platform.splitCommandLine shellWords →
          env.evalNamed vars line "command" = .ok line →
          platform.keepsTokens (absolutize first :: rest) = true →
          env.commandAndArgs vars line [] = .ok (absolutize first, rest)) := by
  refine ⟨splitCommandLine_joinCommandTokens hshell platform, ?_⟩
  rintro absolutize cmd line first rest hcmd rfl
  rw [translateCommand, hcmd]
  refine ⟨fun hpath => by simp [hpath], fun hpath => ?_⟩
  have hsplit := splitCommandLine_joinCommandTokens hshell platform (absolutize first :: rest)
  simp only [hpath, if_true]
  refine ⟨hsplit, fun env vars henv heval hkeeps => commandAndArgs_of_split heval ?_⟩
  rw [henv]
  exact hsplit.mpr hkeeps

/-- A POSIX splitter. -/
def posixWords (text : String) : Except String (List String) :=
  match ShellWords.split text with
  | some tokens => .ok tokens
  | none => .error "missing closing quote"

theorem followsPosix_posixWords : FollowsPosix posixWords := by
  intro text
  rw [posixWords]
  cases ShellWords.split text <;> rfl

/-- Quoted blanks and double quotes survive. -/
theorem lossless_of_quoted :
    { ResolveEnv.plain with splitCommandLine := posixWords }.commandAndArgs ∅
      (translateCommand posixWords (fun _ => "/srv/run") "./run \"\" 'a \"b\" #c'") [] =
        .ok ("/srv/run", ["", "a \"b\" #c"]) :=
  (((lossless_iff followsPosix_posixWords .unix).2 (fun _ => "/srv/run")
    "./run \"\" 'a \"b\" #c'" _ "./run" ["", "a \"b\" #c"] (by decide) rfl).2
    (by decide)).2 _ ∅ rfl rfl (by decide)

/-- A single quote without blanks opens a quotation on Unix. A backslash at the end takes the
closing quote on Windows. -/
theorem exists_not_lossless :
    (∃ tokens, Platform.unix.splitCommandLine posixWords (joinCommandTokens tokens) ≠ .ok tokens) ∧
    ∃ tokens, Platform.windows.splitCommandLine posixWords (joinCommandTokens tokens) ≠
      .ok tokens := by
  refine ⟨⟨["./run", "it's"], ?_⟩, ⟨["run.exe", "C:\\My Files\\"], ?_⟩⟩
  · decide
  · decide

end CommandLine

end Rsupervisord
