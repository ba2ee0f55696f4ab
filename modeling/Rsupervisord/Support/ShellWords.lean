import Mathlib.Data.List.Infix
import Mathlib.Tactic.Common

/-!
# Words of a command line

The word splitting of a POSIX shell: quotes, backslashes and comments, without expansions. A state
machine reads one character after the other.

## Main results

* `prefix_of_words`: what was read of a word stays at its start.
* `countP_words_le`: characters other than the backslash are not multiplied.
* `countP_isMark_le`: when nothing plain is lost, every backslash and double quote of the words
  comes from a backslash of its own.
-/

namespace ShellWords

/-- Where the machine is. -/
inductive State
  | delimiter
  /-- Behind a backslash that begins a word. -/
  | backslash
  | unquoted
  | unquotedBackslash
  | singleQuoted
  | doubleQuoted
  | doubleQuotedBackslash
  | comment
  deriving DecidableEq, Repr

/-- What a character does to the word that is read. -/
inductive Emit
  | push (out : List Char)
  | endWord
  deriving DecidableEq, Repr

/-- A character that separates words. -/
def isBlank (c : Char) : Bool := c = ' ' || c = '\t' || c = '\n'

/-- The single quote. -/
def quote : Char := Char.ofNat 0x27

/-- The characters that a backslash escapes between double quotes: the dollar sign, the grave
accent, the double quote and the backslash. -/
def escapable : List Char := ['$', Char.ofNat 0x60, '"', '\\']

/-- Read one character. -/
def step : State → Char → State × Emit
  | .delimiter, c =>
      if c = quote then (.singleQuoted, .push [])
      else if c = '"' then (.doubleQuoted, .push [])
      else if c = '\\' then (.backslash, .push [])
      else if isBlank c then (.delimiter, .push [])
      else if c = '#' then (.comment, .push [])
      else (.unquoted, .push [c])
  | .backslash, c => if c = '\n' then (.delimiter, .push []) else (.unquoted, .push [c])
  | .unquoted, c =>
      if c = quote then (.singleQuoted, .push [])
      else if c = '"' then (.doubleQuoted, .push [])
      else if c = '\\' then (.unquotedBackslash, .push [])
      else if isBlank c then (.delimiter, .endWord)
      else (.unquoted, .push [c])
  | .unquotedBackslash, c => (.unquoted, .push (if c = '\n' then [] else [c]))
  | .singleQuoted, c =>
      if c = quote then (.unquoted, .push []) else (.singleQuoted, .push [c])
  | .doubleQuoted, c =>
      if c = '"' then (.unquoted, .push [])
      else if c = '\\' then (.doubleQuotedBackslash, .push [])
      else (.doubleQuoted, .push [c])
  | .doubleQuotedBackslash, c =>
      (.doubleQuoted, .push
        (if c = '\n' then [] else if c ∈ escapable then [c] else ['\\', c]))
  | .comment, c => (if c = '\n' then .delimiter else .comment, .push [])

/-- The words at the end of the text. An open quote is an error. -/
def finish (word : List Char) : State → Option (List (List Char))
  | .delimiter | .comment => some []
  | .backslash | .unquotedBackslash => some [word ++ ['\\']]
  | .unquoted => some [word]
  | .singleQuoted | .doubleQuoted | .doubleQuotedBackslash => none

/-- The words of a text, the first of which begins with what was read of it. -/
def words : State → List Char → List Char → Option (List (List Char))
  | st, word, [] => finish word st
  | st, word, c :: cs =>
      match step st c with
      | (st', .push out) => words st' (word ++ out) cs
      | (st', .endWord) => (words st' [] cs).map (word :: ·)

/-- The words of a command line, unless a quote is open at its end. -/
def split (s : String) : Option (List String) :=
  (words .delimiter [] s.toList).map fun ws => ws.map .ofList

/-! ## What is read of a word -/

/-- A word has begun. -/
def State.inWord : State → Bool
  | .delimiter | .backslash | .comment => false
  | _ => true

variable {st st' : State} {c : Char} {word out cs : List Char} {w : List Char}
  {ws : List (List Char)}

theorem words_cons_push (h : step st c = (st', .push out)) :
    words st word (c :: cs) = words st' (word ++ out) cs := by
  rw [words, h]

theorem words_cons_endWord (h : step st c = (st', .endWord)) :
    words st word (c :: cs) = (words st' [] cs).map (word :: ·) := by
  rw [words, h]

/-- A word is ended in no quotes. -/
theorem step_endWord (h : step st c = (st', .endWord)) : st = .unquoted ∧ st' = .delimiter := by
  match st with
  | .unquoted =>
    simp only [step] at h
    split_ifs at h <;> obtain ⟨rfl, hemit⟩ :=
    Prod.mk.inj h <;> first | exact ⟨rfl, rfl⟩ | cases hemit
  | .delimiter | .backslash | .singleQuoted | .doubleQuoted =>
    simp only [step] at h
    split_ifs at h <;> cases (Prod.mk.inj h).2
  | .unquotedBackslash | .doubleQuotedBackslash | .comment => cases (Prod.mk.inj h).2

/-- Within a word a character does not leave it without ending it. -/
theorem inWord_of_step (hst : st.inWord = true) (h : step st c = (st', .push out)) :
    st'.inWord = true := by
  match st with
  | .unquoted =>
    simp only [step] at h
    split_ifs at h <;> obtain ⟨rfl, hemit⟩ := Prod.mk.inj h <;> first | rfl | cases hemit
  | .singleQuoted | .doubleQuoted =>
    simp only [step] at h
    split_ifs at h <;> obtain ⟨rfl, -⟩ := Prod.mk.inj h <;> rfl
  | .unquotedBackslash | .doubleQuotedBackslash =>
    obtain ⟨rfl, -⟩ := Prod.mk.inj h
    rfl

/-- What was read of a word stays at its start. -/
theorem prefix_of_words (hst : st.inWord = true) (h : words st word cs = some (w :: ws)) :
    word <+: w := by
  induction cs generalizing st word with
  | nil =>
    match st with
    | .unquoted =>
      obtain ⟨rfl, -⟩ := List.cons.inj (Option.some.inj h)
      exact List.prefix_refl _
    | .unquotedBackslash =>
      obtain ⟨rfl, -⟩ := List.cons.inj (Option.some.inj h)
      exact List.prefix_append _ _
  | cons c cs ih =>
    match hstep : step st c with
    | (st', .push out) =>
      rw [words_cons_push hstep] at h
      exact (List.prefix_append word out).trans (ih (inWord_of_step hst hstep) h)
    | (st', .endWord) =>
      rw [words_cons_endWord hstep] at h
      obtain ⟨_, _, heq⟩ := Option.map_eq_some_iff.mp h
      obtain ⟨rfl, -⟩ := List.cons.inj heq
      exact List.prefix_refl _

/-- A character that is read is pushed at most once. -/
theorem countP_out_le {p : Char → Bool} (hp : p '\\' = false) (h : step st c = (st', .push out)) :
    out.countP p ≤ [c].countP p := by
  match st with
  | .delimiter | .backslash | .unquoted | .singleQuoted | .doubleQuoted | .comment =>
    simp only [step] at h
    split_ifs at h <;> obtain ⟨-, heq⟩ := Prod.mk.inj h <;> cases heq <;> simp
  | .unquotedBackslash =>
    simp only [step, Prod.mk.injEq, Emit.push.injEq] at h
    obtain ⟨-, rfl⟩ := h
    split_ifs <;> simp
  | .doubleQuotedBackslash =>
    simp only [step, Prod.mk.injEq, Emit.push.injEq] at h
    obtain ⟨-, rfl⟩ := h
    split_ifs <;> simp [List.countP_cons, hp]

/-- Characters other than the backslash are not multiplied. -/
theorem countP_words_le {p : Char → Bool} (hp : p '\\' = false)
    (h : words st word cs = some ws) : ws.flatten.countP p ≤ word.countP p + cs.countP p := by
  induction cs generalizing st word ws with
  | nil =>
    match st with
    | .delimiter | .comment | .unquoted | .backslash | .unquotedBackslash =>
      obtain rfl := Option.some.inj h
      simp [hp]
  | cons c cs ih =>
    rw [← List.singleton_append, List.countP_append]
    match hstep : step st c with
    | (st', .push out) =>
      rw [words_cons_push hstep] at h
      have hout := countP_out_le hp hstep
      have hrest := ih h
      rw [List.countP_append] at hrest
      omega
    | (st', .endWord) =>
      rw [words_cons_endWord hstep] at h
      obtain ⟨ws', hws', rfl⟩ := Option.map_eq_some_iff.mp h
      have hrest := ih hws'
      rw [List.flatten_cons, List.countP_append]
      rw [List.countP_nil] at hrest
      omega

/-! ## Texts that lose nothing -/

/-- A character other than the backslash, the double quote and the space. -/
def isPlain (c : Char) : Bool := c ≠ '\\' && c ≠ '"' && c ≠ ' '

/-- A backslash or a double quote. -/
def isMark (c : Char) : Bool := c = '\\' || c = '"'

/-- The backslash that the machine has read and not used yet. -/
def State.pending : State → ℕ
  | .backslash | .unquotedBackslash | .doubleQuotedBackslash => 1
  | _ => 0

/-- The plain characters of the words are all that were read and all that remain. -/
def KeepsPlain (word cs : List Char) (ws : List (List Char)) : Prop :=
  ws.flatten.countP isPlain = word.countP isPlain + cs.countP isPlain

/-- A plain character that is read where nothing is lost is pushed. -/
theorem KeepsPlain.push (hk : KeepsPlain word (c :: cs) ws) (hstep : step st c = (st', .push out))
    (h : words st word (c :: cs) = some ws) :
    out.countP isPlain = [c].countP isPlain ∧ KeepsPlain (word ++ out) cs ws := by
  rw [words_cons_push hstep] at h
  have hout := countP_out_le (p := isPlain) rfl hstep
  have hrest := countP_words_le (p := isPlain) rfl h
  rw [List.countP_append] at hrest
  rw [KeepsPlain, ← List.singleton_append, List.countP_append] at hk
  refine ⟨by omega, ?_⟩
  rw [KeepsPlain, List.countP_append]
  omega

/-- A word is ended by a character that is not plain where nothing is lost. -/
theorem KeepsPlain.endWord (hk : KeepsPlain word (c :: cs) (word :: ws))
    (h : words .delimiter [] cs = some ws) :
    [c].countP isPlain = 0 ∧ KeepsPlain [] cs ws := by
  have hrest := countP_words_le (p := isPlain) rfl h
  rw [List.countP_nil] at hrest
  rw [KeepsPlain, List.flatten_cons, List.countP_append,
    List.countP_cons, ← List.countP_singleton] at hk
  refine ⟨by omega, ?_⟩
  rw [KeepsPlain, List.countP_nil]
  omega

/-- The machine is neither between single quotes nor in a comment. -/
def State.readsMarks : State → Bool
  | .singleQuoted | .comment => false
  | _ => true

/-- A step that loses nothing plain pushes a backslash or a double quote only for a backslash. -/
theorem countP_isMark_step (hst : st.readsMarks = true) (hstep : step st c = (st', .push out))
    (hout : out.countP isPlain = [c].countP isPlain) :
    st'.readsMarks = true ∧
      out.countP isMark + st'.pending ≤ st.pending + [c].countP (· = '\\') := by
  match st with
  | .delimiter | .unquoted | .doubleQuoted =>
    simp only [step] at hstep
    split_ifs at hstep <;> obtain ⟨rfl, heq⟩ := Prod.mk.inj hstep <;> cases heq <;>
      simp_all [State.readsMarks, State.pending, isPlain, isMark, quote]
  | .backslash =>
    simp only [step] at hstep
    have hone := List.countP_le_length (p := isMark) (l := [c])
    split_ifs at hstep <;> obtain ⟨rfl, heq⟩ := Prod.mk.inj hstep <;> cases heq <;>
      simp_all [State.readsMarks, State.pending, isPlain]
    omega
  | .unquotedBackslash =>
    simp only [step, Prod.mk.injEq, Emit.push.injEq] at hstep
    obtain ⟨rfl, rfl⟩ := hstep
    have hone := List.countP_le_length (p := isMark) (l := [c])
    refine ⟨rfl, ?_⟩
    split_ifs <;> simp only [State.pending, List.countP_nil, List.length_singleton] at hone ⊢ <;>
      omega
  | .doubleQuotedBackslash =>
    simp only [step, Prod.mk.injEq, Emit.push.injEq] at hstep
    obtain ⟨rfl, rfl⟩ := hstep
    have hone := List.countP_le_length (p := isMark) (l := [c])
    refine ⟨rfl, ?_⟩
    split_ifs with hnewline hescapable
    · exact Nat.zero_le _
    · simp only [State.pending, List.length_singleton] at hone ⊢
      omega
    · -- The character that stays behind its backslash is no double quote and no backslash.
      have hmark : [c].countP isMark = 0 := by
        simp only [escapable, List.mem_cons, not_or] at hescapable
        simp [isMark, hescapable]
      rw [List.countP_cons, hmark]
      exact Nat.le_add_right 1 _

/-- When nothing plain is lost, every backslash and double quote of the words comes from a backslash
of its own. -/
theorem countP_isMark_le (hst : st.readsMarks = true) (hk : KeepsPlain word cs ws)
    (h : words st word cs = some ws) :
    ws.flatten.countP isMark ≤ word.countP isMark + st.pending + cs.countP (· = '\\') := by
  induction cs generalizing st word ws with
  | nil =>
    match st with
    | .delimiter =>
      obtain rfl := Option.some.inj h
      exact Nat.zero_le _
    | .unquoted =>
      obtain rfl := Option.some.inj h
      simp
    | .backslash | .unquotedBackslash =>
      obtain rfl := Option.some.inj h
      simp [State.pending, isMark]
  | cons c cs ih =>
    match hstep : step st c with
    | (st', .push out) =>
      obtain ⟨hout, hk'⟩ := hk.push hstep h
      obtain ⟨hst', hmarks⟩ := countP_isMark_step hst hstep hout
      rw [words_cons_push hstep] at h
      have hrest := ih hst' hk' h
      rw [List.countP_append] at hrest
      rw [← List.singleton_append, List.countP_append]
      omega
    | (st', .endWord) =>
      obtain ⟨rfl, rfl⟩ := step_endWord hstep
      rw [words_cons_endWord hstep] at h
      obtain ⟨ws', hws', rfl⟩ := Option.map_eq_some_iff.mp h
      have hrest := ih rfl (hk.endWord hws').2 hws'
      have hpending : State.delimiter.pending = 0 := rfl
      rw [List.countP_nil] at hrest
      rw [List.flatten_cons, List.countP_append, ← List.singleton_append, List.countP_append]
      omega

/-- The machine reads the words and loses nothing: every plain character that is left is one of
them, and so is a backslash or a double quote for every backslash. -/
structure Lossless (st : State) (word cs : List Char) (ws : List (List Char)) : Prop where
  reads : words st word cs = some ws
  readsMarks : st.readsMarks = true
  plain : KeepsPlain word cs ws
  marks : ws.flatten.countP isMark =
    word.countP isMark + st.pending + cs.countP (· = '\\')

/-- A step where nothing is lost loses nothing itself, and nothing is lost behind it. -/
theorem Lossless.push (h : Lossless st word (c :: cs) ws) (hstep : step st c = (st', .push out)) :
    Lossless st' (word ++ out) cs ws ∧ out.countP isPlain = [c].countP isPlain ∧
      out.countP isMark + st'.pending = st.pending + [c].countP (· = '\\') := by
  obtain ⟨hout, hplain⟩ := h.plain.push hstep h.reads
  obtain ⟨hst', hmarks⟩ := countP_isMark_step h.readsMarks hstep hout
  have hreads := words_cons_push hstep ▸ h.reads
  have hrest := countP_isMark_le hst' hplain hreads
  have hall := h.marks
  rw [← List.singleton_append, List.countP_append] at hall
  rw [List.countP_append] at hrest
  refine ⟨⟨hreads, hst', hplain, ?_⟩, hout, by omega⟩
  rw [List.countP_append]
  omega

/-- No plain character ends a word where nothing is lost. -/
theorem Lossless.not_endWord (h : Lossless st word (c :: cs) ws) (hc : isPlain c = true) :
    (step st c).2 ≠ .endWord := by
  intro hend
  have hstep : step st c = ((step st c).1, .endWord) := Prod.ext rfl hend
  have hreads := h.reads
  have hplain := h.plain
  rw [words_cons_endWord hstep] at hreads
  obtain ⟨ws', hws', rfl⟩ := Option.map_eq_some_iff.mp hreads
  rw [(step_endWord hstep).2] at hws'
  have hzero := (hplain.endWord hws').1
  simp [hc] at hzero

end ShellWords
