import Rsupervisord.Logging.ContinuousRing

/-!
# The ring buffer refines an unbounded log

The abstract log is the list of all bytes written since the last clear. A ring buffer keeps its last
bytes.

* `Stores r xs`: the last `xs.length` bytes before the write offset are `xs`. The relation does not
  mention the start offset, so that it also describes a seeded buffer.
* `Stores.writeBytes`: what a write leaves.
* `LogOp`, `history`: the operations and the log they write.
* `run_refines`: after any operations the ring buffer shows the last bytes of the log, under the
  right offsets.

The log has fewer than `2 ^ 64` bytes, the bound of the offsets in the source.
-/

namespace Rsupervisord

open CircularStore

namespace ContinuousRingBuffer

variable (r : ContinuousRingBuffer)

/-! ## Windows -/

/-- `copy_range` reads a window of the retained bytes by at most two copies. -/
theorem copyRange_eq (start end_ : ℕ) (out : List UInt8)
    (hlen : min end_ r.cumulativeBytes - max start r.logStartOffset ≤ r.capacity) :
    r.copyRange start end_ out =
      out ++ readFrom r.buffer (max start r.logStartOffset)
        (min end_ r.cumulativeBytes - max start r.logStartOffset) := by
  have hpos := r.capacity_pos
  have hbuf := r.length_buffer
  simp only [copyRange]
  generalize max start r.logStartOffset = s at hlen ⊢
  generalize min end_ r.cumulativeBytes = e at hlen ⊢
  split
  next hge =>
    rw [Nat.sub_eq_zero_of_le hge]
    simp [readFrom, hbuf, (Nat.mod_lt s hpos).le]
  next hlt =>
    have hs := Nat.mod_lt s hpos
    obtain ⟨len, rfl⟩ : ∃ len, e = s + len := ⟨e - s, by omega⟩
    rw [Nat.add_sub_cancel_left] at hlen ⊢
    simp only [readFrom, hbuf]
    rcases lt_or_ge (s % r.capacity + len) r.capacity with hfit | hwrap
    · -- The window ends before the last cell.
      rw [add_mod_of_lt hfit, if_pos (by omega), if_pos hfit.le, Nat.add_sub_cancel_left]
    · -- The window reaches the last cell or passes it.
      rw [add_mod_of_le hwrap hlen hpos, if_neg (by omega)]
      have hend : s % r.capacity + len - r.capacity = len - (r.capacity - s % r.capacity) := by
        omega
      have htake : (if s % r.capacity = s % r.capacity + len - r.capacity ∧ len = r.capacity then
          out ++ r.buffer.drop (s % r.capacity) ++ r.buffer.take (s % r.capacity)
        else out ++ r.buffer.drop (s % r.capacity) ++
          r.buffer.take (s % r.capacity + len - r.capacity)) =
          out ++ (r.buffer.drop (s % r.capacity) ++
            r.buffer.take (len - (r.capacity - s % r.capacity))) := by
        split
        next heq => rw [List.append_assoc, ← hend, ← heq.1]
        next => rw [List.append_assoc, hend]
      rw [htake]
      split
      next hexact =>
        have hlast : len - (r.capacity - s % r.capacity) = 0 := by omega
        have hall : (r.buffer.drop (s % r.capacity)).length ≤ len := by
          rw [List.length_drop]
          omega
        rw [hlast, List.take_zero, List.append_nil, List.take_of_length_le hall]
      next => rfl

/-- The bytes of `xs` are the last ones before the write offset, and the cells hold them. -/
structure Stores (xs : List UInt8) : Prop where
  length_le_capacity : xs.length ≤ r.capacity
  length_le_cumulative : xs.length ≤ r.cumulativeBytes
  holds : Holds r.buffer (r.cumulativeBytes - xs.length) xs

variable {r} {xs : List UInt8}

/-- A buffer whose start offset is that of the stored bytes returns them for every range: the bytes
of the intersection of the range with their window. -/
theorem Stores.copyRange_eq (h : r.Stores xs)
    (hstart : r.logStartOffset = r.cumulativeBytes - xs.length) (start end_ : ℕ)
    (out : List UInt8) :
    r.copyRange start end_ out = out ++
      (xs.drop (start - r.logStartOffset)).take
        (min end_ r.cumulativeBytes - max start r.logStartOffset) := by
  have hle := h.length_le_cumulative
  have hcap := h.length_le_capacity
  have hbuf := r.length_buffer
  have hpos := r.capacity_pos
  rw [ContinuousRingBuffer.copyRange_eq r start end_ out (by omega)]
  rcases Nat.eq_zero_or_pos (min end_ r.cumulativeBytes - max start r.logStartOffset)
    with hzero | hwindow
  · rw [hzero, List.take_zero]
    simp [readFrom, hbuf, (Nat.mod_lt _ hpos).le]
  · rw [← h.holds.readFrom (by omega) (i := start - r.logStartOffset) (by omega) (by omega)]
    congr 2
    omega

/-- Such a buffer shows the stored bytes. -/
theorem Stores.snapshotBytes_eq (h : r.Stores xs)
    (hstart : r.logStartOffset = r.cumulativeBytes - xs.length) : r.snapshotBytes = xs := by
  have hle := h.length_le_cumulative
  rw [snapshotBytes, h.copyRange_eq hstart, Nat.min_self, Nat.max_self, Nat.sub_self,
    List.drop_zero, List.nil_append]
  exact List.take_of_length_le (by omega)

/-! ## Writes -/

/-- The bytes that `n` cells keep of `xs`: the last ones. -/
def lastBytes (n : ℕ) (xs : List UInt8) : List UInt8 := xs.drop (xs.length - n)

theorem length_lastBytes (n : ℕ) (xs : List UInt8) :
    (lastBytes n xs).length = min n xs.length := by
  rw [lastBytes, List.length_drop]
  omega

theorem lastBytes_of_length_le {n : ℕ} (h : xs.length ≤ n) : lastBytes n xs = xs := by
  rw [lastBytes, Nat.sub_eq_zero_of_le h, List.drop_zero]

/-- Of two blocks, only the kept bytes of the first one matter for what is kept of both. -/
theorem lastBytes_append (n : ℕ) (xs ys : List UInt8) :
    lastBytes n (lastBytes n xs ++ ys) = lastBytes n (xs ++ ys) := by
  simp only [lastBytes, List.length_append, List.length_drop, List.drop_append, List.drop_drop]
  congr 2 <;> omega

/-- A write keeps the bytes stored before it and its own, as many as there are cells. -/
theorem Stores.writeBytes (h : r.Stores xs) (data : List UInt8) :
    (r.writeBytes data).Stores (lastBytes r.capacity (xs ++ data)) := by
  have hcap := h.length_le_capacity
  have hle := h.length_le_cumulative
  have hbuf := r.length_buffer
  have hpos := r.capacity_pos
  simp only [ContinuousRingBuffer.writeBytes]
  split
  next hempty =>
    rw [List.isEmpty_iff] at hempty
    rw [hempty, List.append_nil, lastBytes_of_length_le hcap]
    exact h
  next =>
    have hlen := length_lastBytes r.capacity (xs ++ data)
    rw [List.length_append] at hlen
    refine ⟨?_, ?_, ?_⟩
    · show _ ≤ r.capacity
      omega
    · show _ ≤ r.cumulativeBytes + data.length
      omega
    show Holds (r.storeBytes data)
      (r.cumulativeBytes + data.length - (lastBytes r.capacity (xs ++ data)).length) _
    simp only [storeBytes]
    split
    next hlong =>
      -- Only the trailing bytes of the chunk are stored; nothing of `xs` is left.
      have hdrop : (data.drop (data.length - r.capacity)).length = r.capacity := by
        rw [List.length_drop]
        omega
      generalize hoff : r.cumulativeBytes + (data.length - r.capacity) = off
      have hwrites : Writes r.buffer off (data.drop (data.length - r.capacity))
          (overwriteWrapped r.buffer (off % r.buffer.length)
            (data.drop (data.length - r.capacity))) :=
        writes_overwriteWrapped (by omega) (by omega) (by omega)
      have hnil : Holds r.buffer off [] := .nil
      have hheld := hnil.append hwrites (by omega) (k := 0) (by simp; omega)
      rw [hbuf] at hheld
      have hlast : lastBytes r.capacity (xs ++ data) =
          ([] ++ data.drop (data.length - r.capacity)).drop 0 := by
        rw [lastBytes, List.length_append, List.drop_append, List.drop_of_length_le (by omega)]
        simp only [List.nil_append, List.drop_zero]
        congr 1
        omega
      rw [hlast]
      convert hheld using 1
      simp only [List.nil_append, List.drop_zero, hdrop]
      omega
    next hshort =>
      have hoff : r.cumulativeBytes - xs.length + xs.length = r.cumulativeBytes := by omega
      have hwrites : Writes r.buffer r.cumulativeBytes data
          (writeAt r.buffer r.cumulativeBytes data) :=
        writes_writeAt (by omega) (by omega)
      rw [← hoff] at hwrites
      have hheld := h.holds.append hwrites (by omega) (k := xs.length + data.length - r.capacity)
        (by omega)
      simp only [writeAt, hbuf, hoff] at hheld
      rw [lastBytes, List.length_append]
      convert hheld using 1
      rw [List.length_drop, List.length_append]
      omega

/-- The offsets after a write of at least one byte. -/
theorem writeBytes_offsets {data : List UInt8} (h : data ≠ []) :
    (r.writeBytes data).cumulativeBytes = r.cumulativeBytes + data.length ∧
      (r.writeBytes data).logStartOffset = r.cumulativeBytes + data.length - r.capacity := by
  have hne : data.isEmpty = false := by simpa using h
  simp only [ContinuousRingBuffer.writeBytes, hne]
  refine ⟨rfl, ?_⟩
  show (if _ then _ else _) = _
  split <;> omega

@[simp]
theorem writeBytes_nil : r.writeBytes [] = r := rfl

/-! ## The unbounded log -/

/-- Operations that change a ring buffer. -/
inductive LogOp
  | writeBytes (data : List UInt8)
  | writeLine (line : String)
  | clear
  deriving DecidableEq

/-- The ring buffer after an operation. -/
def apply (r : ContinuousRingBuffer) : LogOp → ContinuousRingBuffer
  | .writeBytes data => r.writeBytes data
  | .writeLine line => r.writeLine line
  | .clear => r.clear

/-- The bytes of a line with its newline. -/
def lineBytes (line : String) : List UInt8 :=
  let bytes := Text.utf8 line
  if bytes.getLast? = some newline then bytes else bytes ++ [newline]

/-- The log after an operation: it grows by what is written and starts anew with a clear. -/
def LogOp.extend (log : List UInt8) : LogOp → List UInt8
  | .writeBytes data => log ++ data
  | .writeLine line => log ++ lineBytes line
  | .clear => []

/-- All bytes written by the operations since the last clear among them. -/
def history (ops : List LogOp) : List UInt8 := ops.foldl LogOp.extend []

/-- The abstraction relation: the buffer stores the last bytes of the log under their offsets. -/
structure Represents (r : ContinuousRingBuffer) (log : List UInt8) : Prop where
  stores : r.Stores (lastBytes r.capacity log)
  cumulative : r.cumulativeBytes = log.length
  start : r.logStartOffset = log.length - r.capacity

variable {log : List UInt8}

/-- A buffer with both offsets at zero represents the empty log. -/
theorem Represents.nil (hcumulative : r.cumulativeBytes = 0) (hstart : r.logStartOffset = 0) :
    r.Represents [] := by
  have hlast : lastBytes r.capacity [] = [] := List.drop_nil
  refine ⟨?_, hcumulative, hstart.trans (Nat.zero_sub _).symm⟩
  rw [hlast]
  exact ⟨Nat.zero_le _, Nat.zero_le _, Holds.nil⟩

/-- A write extends the log. -/
theorem Represents.writeBytes (h : r.Represents log) (data : List UInt8) :
    (r.writeBytes data).Represents (log ++ data) := by
  rcases eq_or_ne data [] with rfl | hne
  · rwa [writeBytes_nil, List.append_nil]
  have hoffsets := writeBytes_offsets (r := r) hne
  refine ⟨?_, ?_, ?_⟩
  · have hstores := h.stores.writeBytes data
    rwa [lastBytes_append, ← r.writeBytes_capacity data] at hstores
  · rw [hoffsets.1, h.cumulative, List.length_append]
  · rw [hoffsets.2, h.cumulative, List.length_append, writeBytes_capacity]

/-- Each operation of the buffer is the operation of the same name on the log. -/
theorem Represents.apply (h : r.Represents log) (op : LogOp) :
    (r.apply op).Represents (LogOp.extend log op) := by
  cases op with
  | writeBytes data => exact h.writeBytes data
  | writeLine line =>
    simp only [ContinuousRingBuffer.apply, LogOp.extend, lineBytes, writeLine]
    split
    next => exact h.writeBytes _
    next =>
      rw [← List.append_assoc]
      exact (h.writeBytes _).writeBytes _
  | clear => exact .nil rfl rfl

@[simp]
theorem apply_capacity (op : LogOp) : (r.apply op).capacity = r.capacity := by
  cases op with
  | writeBytes data => exact r.writeBytes_capacity data
  | writeLine line => exact r.writeLine_capacity line
  | clear => rfl

/-- The run lemma: the relation holds along every sequence of operations. -/
theorem Represents.foldl (h : r.Represents log) (ops : List LogOp) :
    (ops.foldl ContinuousRingBuffer.apply r).Represents (ops.foldl LogOp.extend log) := by
  induction ops generalizing r log with
  | nil => exact h
  | cons op ops ih => exact ih (h.apply op)

theorem foldl_apply_capacity (ops : List LogOp) :
    (ops.foldl ContinuousRingBuffer.apply r).capacity = r.capacity := by
  induction ops generalizing r with
  | nil => rfl
  | cons op ops ih =>
    rw [List.foldl_cons, ih, apply_capacity]

/-- The bytes of the window of a buffer that represents a log, for every range of offsets. -/
theorem Represents.copyRange_eq (h : r.Represents log) (start end_ : ℕ) (out : List UInt8) :
    r.copyRange start end_ out = out ++
      (log.take (min end_ log.length)).drop (max start (log.length - r.capacity)) := by
  have hstart : r.logStartOffset = r.cumulativeBytes - (lastBytes r.capacity log).length := by
    rw [h.start, h.cumulative, length_lastBytes]
    omega
  have hoff : log.length - r.capacity + (start - (log.length - r.capacity)) =
      max start (log.length - r.capacity) := by omega
  rw [h.stores.copyRange_eq hstart, h.start, h.cumulative, lastBytes, List.drop_drop, hoff,
    List.drop_take]

/-- A ring buffer refines an unbounded log: after every sequence of operations it shows the last
bytes of the log, as many as it has cells, counts all of them and returns for every range of offsets
the bytes of the log that lie in the range and in the retained window. -/
theorem run_refines {capacity : ℕ} (hcapacity : 0 < capacity) {r₀ : ContinuousRingBuffer}
    (hr₀ : r₀ = new capacity ∨ ∃ maxLines, r₀ = withMaxLines capacity maxLines)
    (ops : List LogOp) :
    let r := ops.foldl ContinuousRingBuffer.apply r₀
    let log := history ops
    let retained := min capacity log.length
    r.snapshotBytes = log.drop (log.length - retained) ∧
      r.cumulativeBytes = log.length ∧
      r.logStartOffset = log.length - retained ∧
      ∀ start end_ out, r.copyRange start end_ out =
        out ++ (log.take (min end_ log.length)).drop (max start (log.length - retained)) := by
  intro r log retained
  have hfresh : r₀.Represents [] ∧ r₀.capacity = capacity := by
    have hmax : max capacity 1 = capacity := by omega
    rcases hr₀ with rfl | ⟨maxLines, rfl⟩
    · exact ⟨.nil rfl rfl, hmax⟩
    · exact ⟨.nil rfl rfl, hmax⟩
  have hrep : r.Represents log := hfresh.1.foldl ops
  have hcap : r.capacity = capacity := (foldl_apply_capacity ops).trans hfresh.2
  have hstart : r.logStartOffset = log.length - retained := by
    rw [hrep.start, hcap]
    omega
  refine ⟨?_, hrep.cumulative, hstart, fun start end_ out => ?_⟩
  · have hoff : r.logStartOffset =
        r.cumulativeBytes - (lastBytes r.capacity log).length := by
      rw [hrep.start, hrep.cumulative, length_lastBytes]
      omega
    rw [hrep.stores.snapshotBytes_eq hoff, lastBytes, hcap]
    congr 1
    omega
  · rw [hrep.copyRange_eq, ← hrep.start, hstart]

/-- `run_refines` for writes into four cells, one of which passes the last cell. -/
theorem run_refines_of_wrapped_write :
    ([.writeBytes [1, 2, 3], .writeLine "a", .writeBytes [7]].foldl ContinuousRingBuffer.apply
      (new 4)).snapshotBytes = [3, 97, 10, 7] :=
  (@run_refines 4 (by decide) (new 4) (.inl rfl)
    [.writeBytes [1, 2, 3], .writeLine "a", .writeBytes [7]]).1.trans (by decide)

end ContinuousRingBuffer

end Rsupervisord
