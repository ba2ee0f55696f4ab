import Mathlib.Data.List.Basic

/-!
# Buffered readers

A buffered reader over a byte stream that arrives in chunks. A read takes bytes from the buffer as
they come. It may stay unfinished for any number of chunks, and the bytes it has taken so far are
lost when it is dropped.

A finished or unfinished read neither loses nor reorders bytes: what is taken and buffered before
it is what it returns, followed by what is taken and buffered behind it.

## Main results

* `readLine_eq_some`, `readLine_eq_none`: the outcomes of reading a line before the end of the
  stream.
* `readExact_eq_ok`, `readExact_eq_none`: the outcomes of reading a number of bytes.
-/

/-- A buffered reader and the read in progress. -/
structure BufferedReader where
  /-- The bytes received and not taken by a read. -/
  buffered : List UInt8 := []
  /-- The bytes that the read in progress has taken. -/
  taken : List UInt8 := []
  /-- The end of the stream was reached. -/
  eof : Bool := false
  deriving DecidableEq, Repr

namespace BufferedReader

variable (r : BufferedReader)

/-- The bytes that were received and not yet returned by a read. -/
def unread : List UInt8 := r.taken ++ r.buffered

/-- The read in progress is dropped with what it has taken. -/
def dropRead : BufferedReader := { r with taken := [] }

/-- The read in progress takes everything. -/
def takeAll : BufferedReader := { r with buffered := [], taken := r.unread }

/-- Go on with reading a line. It ends behind the first newline or at the end of the stream. -/
def readLine : Option (List UInt8) × BufferedReader :=
  match r.buffered.dropWhile (· ≠ 10) with
  | newline :: rest =>
      (some (r.taken ++ r.buffered.takeWhile (· ≠ 10) ++ [newline]),
        { r with buffered := rest, taken := [] })
  | [] =>
      if r.eof then (some r.unread, { r with buffered := [], taken := [] })
      else (none, r.takeAll)

/-- Go on with reading `n` bytes. -/
def readExact (n : ℕ) : Option (Except String (List UInt8)) × BufferedReader :=
  if n - r.taken.length ≤ r.buffered.length then
    (some (.ok (r.taken ++ r.buffered.take (n - r.taken.length))),
      { r with buffered := r.buffered.drop (n - r.taken.length), taken := [] })
  else if r.eof then (some (.error "early eof"), { r with buffered := [], taken := [] })
  else (none, r.takeAll)

variable {r}

@[simp]
theorem unread_takeAll : r.takeAll.unread = r.unread :=
  List.append_nil r.unread

/-- Bytes are received behind those that were not read yet. -/
theorem unread_receive (h : r.buffered = []) (chunk : List UInt8) :
    ({ r with buffered := chunk } : BufferedReader).unread = r.unread ++ chunk := by
  unfold unread
  rw [h, List.append_nil]

/-- Reading a line does not end the stream. -/
theorem eof_readLine : r.readLine.2.eof = r.eof := by
  unfold readLine
  split
  next => rfl
  next =>
    split
    next => rfl
    next => rfl

/-- A finished line ends in its first newline that was still buffered. -/
theorem readLine_eq_some {line : List UInt8} (heof : r.eof = false)
    (h : r.readLine.1 = some line) :
    line.getLast? = some 10 ∧ r.unread = line ++ r.readLine.2.unread := by
  unfold readLine at h ⊢
  split at h
  next newline rest hdrop =>
    -- The scan stops at a newline.
    have hnewline : newline = 10 := by
      have hhead := List.head?_dropWhile_not (fun b : UInt8 => decide (b ≠ 10)) r.buffered
      rw [hdrop] at hhead
      simpa using hhead
    have hsplit := List.takeWhile_append_dropWhile (p := (· ≠ (10 : UInt8))) (l := r.buffered)
    obtain rfl := Option.some.inj h
    subst hnewline
    constructor
    · rw [List.getLast?_append, List.getLast?_singleton, Option.some_or]
    · show r.taken ++ r.buffered = _ ++ ([] ++ rest)
      rw [List.nil_append, List.append_assoc, List.append_assoc, List.singleton_append, ← hdrop,
        hsplit]
  next => simp [heof] at h

/-- An unfinished line takes all bytes. -/
theorem readLine_eq_none (h : r.readLine.1 = none) : r.readLine.2 = r.takeAll := by
  unfold readLine at h ⊢
  split at h
  next => cases h
  next =>
    split at h
    next => cases h
    next heof => rw [if_neg heof]

/-- A finished read of `n` bytes returns the first bytes. -/
theorem readExact_eq_ok {n : ℕ} {bytes : List UInt8} (h : (r.readExact n).1 = some (.ok bytes)) :
    r.unread = bytes ++ (r.readExact n).2.unread ∧ (r.readExact n).2.eof = r.eof := by
  unfold readExact at h ⊢
  split at h
  next hle =>
    obtain rfl := Except.ok.inj (Option.some.inj h)
    rw [if_pos hle]
    refine ⟨?_, rfl⟩
    show r.taken ++ r.buffered = _ ++ ([] ++ _)
    rw [List.nil_append, List.append_assoc, List.take_append_drop]
  next =>
    split at h
    next => cases h
    next => cases h

/-- An unfinished read of `n` bytes takes all bytes. -/
theorem readExact_eq_none {n : ℕ} (h : (r.readExact n).1 = none) :
    (r.readExact n).2 = r.takeAll := by
  unfold readExact at h ⊢
  split at h
  next => cases h
  next hle =>
    split at h
    next => cases h
    next heof => rw [if_neg hle, if_neg heof]

end BufferedReader
