import Rsupervisord.Config.Schema
import Rsupervisord.Support.Except
import Rsupervisord.Support.ShellWords
import Rsupervisord.Support.TextSplit

/-!
# Environment values

`parse_environment` reads the environment of a section, `KEY="value"` pairs between commas,
character by character. An environment that is written with quoted values is read back.

## Main results

* `Environment.run_quoted`: a quoted value is read back, whatever is behind it.
* `Environment.parseEnvironment_encode`: an environment is read back, in any order of its pairs.
-/

namespace Rsupervisord

namespace Environment

/-- The locals of `parse_environment`. -/
structure State where
  env : HashMap String String := ∅
  curKey : List Char := []
  curVal : List Char := []
  inKey : Bool := true
  quoteChar : Option Char := none
  escape : Bool := false

/-- `flush_entry`: enter the pair that was read. -/
def flushEntry (st : State) : Except ProgramError State :=
  let key := Text.trim (.ofList st.curKey)
  if key.isEmpty then .ok { st with curKey := [], curVal := [], inKey := true }
  else if st.inKey then
    .error (.configError s!"Environment entry '{key}' missing '=' value delimiter")
  else .ok { st with
    env := st.env.insert key (.ofList st.curVal), curKey := [], curVal := [], inKey := true }

/-- What a backslash and the character behind it stand for between quotes. -/
def unescape (ch : Char) : List Char :=
  if ch = 'n' then ['\n']
  else if ch = 't' then ['\t']
  else if ch = 'r' then ['\r']
  else if ch = '"' || ch = ShellWords.quote || ch = '\\' then [ch]
  else ['\\', ch]

/-- The character belongs to the key or to the value. -/
def push (st : State) (ch : Char) : State :=
  if st.inKey then { st with curKey := st.curKey ++ [ch] }
  else { st with curVal := st.curVal ++ [ch] }

/-- The loop of `parse_environment`, for one character. -/
def step (st : State) (ch : Char) : Except ProgramError State :=
  if st.escape then
    if st.quoteChar.isSome then .ok { st with curVal := st.curVal ++ unescape ch, escape := false }
    else .ok { push st ch with escape := false }
  else if ch = '\\' then .ok { st with escape := true }
  else if st.quoteChar.isSome then
    if st.quoteChar = some ch then .ok { st with quoteChar := none }
    else .ok { st with curVal := st.curVal ++ [ch] }
  else if ch = ShellWords.quote || ch = '"' then .ok { st with quoteChar := some ch }
  else if ch = '=' && st.inKey then .ok { st with inKey := false }
  else if ch = ',' then flushEntry st
  else .ok (push st ch)

/-- The loop of `parse_environment`. -/
def run (st : State) (cs : List Char) : Except ProgramError State := cs.foldlM step st

/-- `parse_environment`. -/
def parseEnvironment (s : String) : Except ProgramError (HashMap String String) := do
  let st ← run {} s.toList
  if st.quoteChar.isSome then
    throw (.configError s!"Unclosed quote in environment string: '{s}'")
  let st ← flushEntry st
  return st.env

/-! ## Written environments -/

/-- One of the two quote characters. -/
inductive QuoteMark where
  | single
  | double
  deriving DecidableEq, Repr

/-- The quote character. -/
def QuoteMark.char : QuoteMark → Char
  | single => ShellWords.quote
  | double => '"'

/-- How a value is written: its quote character, and whether the other one is escaped, too. -/
structure Quoting where
  mark : QuoteMark
  escapesBoth : Bool
  deriving DecidableEq, Repr

/-- The character is escaped. -/
def Quoting.escapes (q : Quoting) (c : Char) : Bool :=
  c = '\\' || c = q.mark.char || q.escapesBoth && (c = '"' || c = ShellWords.quote)

/-- A character of a value as it is written. -/
def Quoting.encodeChar (q : Quoting) (c : Char) : List Char :=
  if q.escapes c then ['\\', c] else [c]

/-- A pair as it is written. -/
def encodePair (quoting : String → Quoting) (e : String × String) : List Char :=
  e.1.toList ++ '=' :: (quoting e.1).mark.char ::
    (e.2.toList.flatMap (quoting e.1).encodeChar ++ [(quoting e.1).mark.char])

/-- Pairs with commas between them. -/
def encode (quoting : String → Quoting) (es : List (String × String)) : String :=
  .ofList ([','].intercalate (es.map (encodePair quoting)))

/-- A key that needs no quotes. -/
structure IsKey (key : String) : Prop where
  nonempty : key ≠ ""
  trimmed : Text.trim key = key
  plain : ∀ c ∈ key.toList, c ≠ '\\' ∧ c ≠ ShellWords.quote ∧ c ≠ '"' ∧ c ≠ '=' ∧ c ≠ ','

theorem isWhitespace_of_isAlphanum {c : Char} (h : c.isAlphanum = true) :
    Text.isWhitespace c = false := by
  simp only [Char.isAlphanum, Char.isAlpha, Char.isUpper, Char.isLower, Char.isDigit,
    Bool.or_eq_true, Bool.and_eq_true, decide_eq_true_eq, ge_iff_le, UInt32.le_iff_toNat_le] at h
  change ((65 ≤ c.toNat ∧ c.toNat ≤ 90) ∨ 97 ≤ c.toNat ∧ c.toNat ≤ 122) ∨
    48 ≤ c.toNat ∧ c.toNat ≤ 57 at h
  simp only [Text.isWhitespace, Bool.or_eq_false_iff, Bool.and_eq_false_iff,
    decide_eq_false_iff_not]
  omega

/-- An identifier is such a key. -/
theorem isKey_of_identifier {key : String} (hne : key ≠ "")
    (h : ∀ c ∈ key.toList, c.isAlphanum = true ∨ c = '_') : IsKey key := by
  have hword : ∀ c : Char, c.isAlphanum = true ∨ c = '_' → Text.isWhitespace c = false ∧
      c ≠ '\\' ∧ c ≠ ShellWords.quote ∧ c ≠ '"' ∧ c ≠ '=' ∧ c ≠ ',' := by
    rintro c (hc | rfl)
    · refine ⟨isWhitespace_of_isAlphanum hc, ?_⟩
      refine ⟨?_, ?_, ?_, ?_, ?_⟩ <;> rintro rfl <;> cases hc
    · decide
  exact ⟨hne, Text.trim_eq_self fun c hc => (hword c (h c hc)).1, fun c hc => (hword c (h c hc)).2⟩

variable {m : HashMap String String} {q : Quoting} {key val : String} {curKey curVal : List Char}
  {es : List (String × String)} {quoting : String → Quoting}

/-! ## One pair -/

theorem run_cons {st st' : State} {c : Char} {cs : List Char} (h : step st c = .ok st') :
    run st (c :: cs) = run st' cs := by
  rw [run, List.foldlM_cons, h]
  rfl

theorem run_append {st st' : State} {cs ds : List Char} (h : run st cs = .ok st') :
    run st (cs ++ ds) = run st' ds := by
  rw [run] at h
  rw [run, List.foldlM_append, h]
  rfl

/-- The characters of a key are read as they are. -/
theorem run_key {cs : List Char} (hkey : ∀ c ∈ cs, c ≠ '\\' ∧ c ≠ ShellWords.quote ∧ c ≠ '"' ∧
    c ≠ '=' ∧ c ≠ ',') :
    run ⟨m, curKey, curVal, true, none, false⟩ cs =
      .ok ⟨m, curKey ++ cs, curVal, true, none, false⟩ := by
  induction cs generalizing curKey with
  | nil => rw [List.append_nil]; rfl
  | cons c cs ih =>
    obtain ⟨⟨hslash, hsingle, hdouble, heq, hcomma⟩, htail⟩ := List.forall_mem_cons.mp hkey
    have hstep : step ⟨m, curKey, curVal, true, none, false⟩ c =
        .ok ⟨m, curKey ++ [c], curVal, true, none, false⟩ := by
      simp [step, push, hslash, hsingle, hdouble, heq, hcomma]
    rw [run_cons hstep, ih htail, List.append_assoc, List.singleton_append]

/-- What is escaped stands for itself. -/
theorem unescape_of_escapes {c : Char} (h : q.escapes c = true) : unescape c = [c] := by
  obtain rfl | rfl | rfl : c = '\\' ∨ c = ShellWords.quote ∨ c = '"' := by
    rw [Quoting.escapes] at h
    cases hmark : q.mark with
    | single =>
      rw [hmark, QuoteMark.char] at h
      simp only [Bool.or_eq_true, Bool.and_eq_true, decide_eq_true_eq] at h
      tauto
    | double =>
      rw [hmark, QuoteMark.char] at h
      simp only [Bool.or_eq_true, Bool.and_eq_true, decide_eq_true_eq] at h
      tauto
  · decide
  · decide
  · decide

/-- A character between quotes is read back. -/
theorem run_encodeChar (c : Char) (cs : List Char) :
    run ⟨m, curKey, curVal, false, some q.mark.char, false⟩ (q.encodeChar c ++ cs) =
      run ⟨m, curKey, curVal ++ [c], false, some q.mark.char, false⟩ cs := by
  rw [Quoting.encodeChar]
  split_ifs with hescapes
  · have hslash : step ⟨m, curKey, curVal, false, some q.mark.char, false⟩ '\\' =
        .ok ⟨m, curKey, curVal, false, some q.mark.char, true⟩ := by
      simp [step]
    have hstep : step ⟨m, curKey, curVal, false, some q.mark.char, true⟩ c =
        .ok ⟨m, curKey, curVal ++ [c], false, some q.mark.char, false⟩ := by
      simp [step, unescape_of_escapes hescapes]
    rw [List.cons_append, run_cons hslash, List.singleton_append, run_cons hstep]
  · obtain ⟨⟨hslash, hmark⟩, -⟩ : (c ≠ '\\' ∧ c ≠ q.mark.char) ∧ _ := by
      simpa [Quoting.escapes] using hescapes
    have hstep : step ⟨m, curKey, curVal, false, some q.mark.char, false⟩ c =
        .ok ⟨m, curKey, curVal ++ [c], false, some q.mark.char, false⟩ := by
      simp [step, hslash, Ne.symm hmark]
    rw [List.singleton_append, run_cons hstep]

/-- A quoted value is read back up to its closing quote, whatever is behind it. -/
theorem run_quoted (cs rest : List Char) :
    run ⟨m, curKey, curVal, false, some q.mark.char, false⟩
        (cs.flatMap q.encodeChar ++ q.mark.char :: rest) =
      run ⟨m, curKey, curVal ++ cs, false, none, false⟩ rest := by
  induction cs generalizing curVal with
  | nil =>
    have hstep : step ⟨m, curKey, curVal, false, some q.mark.char, false⟩ q.mark.char =
        .ok ⟨m, curKey, curVal, false, none, false⟩ := by
      cases hmark : q.mark <;> simp [step, QuoteMark.char, ShellWords.quote]
    rw [List.flatMap_nil, List.nil_append, run_cons hstep, List.append_nil]
  | cons c cs ih =>
    rw [List.flatMap_cons, List.append_assoc, run_encodeChar, ih, List.append_assoc,
      List.singleton_append]

/-- A pair is read up to its closing quote. -/
theorem run_encodePair {e : String × String} (hkey : IsKey e.1) (rest : List Char) :
    run { env := m } (encodePair quoting e ++ rest) =
      run ⟨m, e.1.toList, e.2.toList, false, none, false⟩ rest := by
  have hdelimiter : step ⟨m, e.1.toList, [], true, none, false⟩ '=' =
      .ok ⟨m, e.1.toList, [], false, none, false⟩ := by
    simp [step, ShellWords.quote]
  have hopen : step ⟨m, e.1.toList, [], false, none, false⟩ (quoting e.1).mark.char =
      .ok ⟨m, e.1.toList, [], false, some (quoting e.1).mark.char, false⟩ := by
    cases (quoting e.1).mark <;> simp [step, QuoteMark.char, ShellWords.quote]
  rw [encodePair, List.append_assoc, run_append (run_key hkey.plain), List.nil_append,
    List.cons_append, run_cons hdelimiter, List.cons_append, run_cons hopen, List.append_assoc,
    List.singleton_append, run_quoted, List.nil_append]

/-- A pair is entered. -/
theorem flushEntry_pair {e : String × String} (hkey : IsKey e.1) :
    flushEntry ⟨m, e.1.toList, e.2.toList, false, none, false⟩ =
      .ok { env := m.insert e.1 e.2 } := by
  have hempty : e.1.isEmpty = false := by simpa using hkey.nonempty
  rw [flushEntry]
  simp only [String.ofList_toList, hkey.trimmed, hempty]
  rfl

/-! ## All pairs -/

/-- The pairs are entered one after the other. -/
theorem run_encode (hes : es ≠ []) (hkeys : ∀ e ∈ es, IsKey e.1) :
    ∃ st, run { env := m } ([','].intercalate (es.map (encodePair quoting))) = .ok st ∧
      st.quoteChar = none ∧ flushEntry st = .ok { env := m.extend es } := by
  induction es generalizing m with
  | nil => exact absurd rfl hes
  | cons e es ih =>
    obtain ⟨hhead, htail⟩ := List.forall_mem_cons.mp hkeys
    by_cases hnil : es = []
    · have hrun := @run_encodePair m quoting e hhead []
      rw [List.append_nil] at hrun
      have hone : [','].intercalate ([e].map (encodePair quoting)) = encodePair quoting e :=
        List.intercalate_singleton
      rw [hnil, hone]
      exact ⟨_, hrun, rfl, flushEntry_pair hhead⟩
    · obtain ⟨st, hrun, hquote, hflush⟩ := @ih (m.insert e.1 e.2) hnil htail
      refine ⟨st, ?_, hquote, hflush⟩
      have hcomma : step ⟨m, e.1.toList, e.2.toList, false, none, false⟩ ',' =
          .ok { env := m.insert e.1 e.2 } := by
        rw [← flushEntry_pair hhead]
        simp [step, ShellWords.quote]
      rw [List.map_cons, List.intercalate_cons_of_ne_nil (by simpa using hnil), List.append_assoc,
        run_encodePair hhead, List.singleton_append, run_cons hcomma, hrun]

/-- An environment with keys that need no quotes is read back, in any order of its pairs and with
either quote character. -/
theorem parseEnvironment_encode (hkeys : ∀ key ∈ m, IsKey key) (o : HashOrder String)
    (quoting : String → Quoting) :
    ∃ env, parseEnvironment (encode quoting (m.iter o)) = .ok env ∧
      ∀ key, env.lookup key = m.lookup key := by
  have hread : ∀ key, ((∅ : HashMap String String).extend (m.iter o)).lookup key =
      m.lookup key := by
    intro key
    apply Option.ext
    intro val
    rw [HashMap.lookup_extend_empty HashMap.nodup_map_fst_iter, HashMap.mem_iter]
  by_cases hnil : m.iter o = []
  · rw [hnil] at hread ⊢
    exact ⟨∅, rfl, hread⟩
  · have hkeys' : ∀ e ∈ m.iter o, IsKey e.1 := fun e he =>
      hkeys e.1 (HashMap.mem_iff_lookup.mpr ⟨e.2, HashMap.mem_iter.mp he⟩)
    obtain ⟨st, hrun, hquote, hflush⟩ := @run_encode ∅ _ quoting hnil hkeys'
    refine ⟨_, ?_, hread⟩
    rw [parseEnvironment, encode, String.toList_ofList, hrun]
    simp only [bind, Except.bind, hquote, hflush]
    rfl

/-- A value with commas, quotes, a backslash and two lines. -/
theorem parseEnvironment_encode_quotes :
    ∃ env, parseEnvironment (encode (fun _ => ⟨.single, true⟩)
        (HashMap.iter (AList.insert "A_1" "x=1, \"y\"" (AList.insert "B" "it's \\n\n" ∅))
          .stored)) =
          .ok env ∧
      ∀ key, env.lookup key =
        (AList.insert "A_1" "x=1, \"y\"" (AList.insert "B" "it's \\n\n" ∅) :
          HashMap String String).lookup key := by
  refine parseEnvironment_encode (fun key hkey => ?_) .stored _
  rw [AList.mem_insert, AList.mem_insert] at hkey
  obtain rfl | rfl | hempty := hkey
  · exact isKey_of_identifier (by decide)
      (@of_decide_eq_true _ (List.decidableBAll _ _) (by decide))
  · exact isKey_of_identifier (by decide)
      (@of_decide_eq_true _ (List.decidableBAll _ _) (by decide))
  · exact absurd hempty (AList.notMem_empty _)

end Environment

end Rsupervisord
