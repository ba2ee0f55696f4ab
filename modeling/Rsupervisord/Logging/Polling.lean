import Rsupervisord.Logging.RingRefinement

/-!
# Polling a ring buffer

A client reads a growing log by tails that go on from the offset returned last. Appends and polls
come in any order; nothing clears the buffer meanwhile. The log has fewer than `2 ^ 64` bytes, the
bound of the offsets in the source.

* `tailSelection`: the bytes that a tail selects, before they are decoded.
* `Poll`, `PollEvent`, `PollState.next`: a client beside a ring buffer.
* `tailSelection_spec`: what one poll returns.
* `polls_contiguous`: every poll of a run, and any stretch of polls that report no overflow.

The text of a poll is the decoded selection (`tailBytes_eq`), so that what is said of the bytes is
said of what the client gets.
-/

namespace Rsupervisord

namespace ContinuousRingBuffer

/-- `tail_bytes` before it decodes the selected bytes. -/
def tailSelection (r : ContinuousRingBuffer) (offset length : ℤ) : List UInt8 × ℤ × Bool :=
  let totalSz : ℤ := r.cumulativeBytes
  let retainedSz : ℤ := r.byteSize
  let oldest : ℤ := r.logStartOffset
  let len := max length 0
  if offset = 0 then
    let actualLen := if len = 0 then retainedSz else min len retainedSz
    let start := max (totalSz - actualLen) oldest
    (r.copyRange start.toNat totalSz.toNat [], totalSz, totalSz > actualLen)
  else
    let overflow : Bool := offset < oldest
    let off := max offset oldest
    if off ≥ totalSz then ([], totalSz, false)
    else
      let toRead := if len = 0 then totalSz - off else min len (totalSz - off)
      (r.copyRange off.toNat (off + toRead).toNat [], off + toRead, overflow)

/-- A tail is the decoded selection. -/
theorem tailBytes_eq (r : ContinuousRingBuffer) (offset length : ℤ) :
    r.tailBytes offset length =
      (Text.fromUtf8Lossy (r.tailSelection offset length).1,
        (r.tailSelection offset length).2) := by
  simp only [tailBytes, tailSelection]
  split
  · rfl
  · split <;> rfl

/-- The bytes of a log with offsets in `[start, end_)`. -/
def segment (log : List UInt8) (start end_ : ℤ) : List UInt8 :=
  (log.take end_.toNat).drop start.toNat

/-- The bytes that a buffer shows for a range behind its oldest byte are those of the log. -/
theorem Represents.copyRange_segment {r : ContinuousRingBuffer} {log : List UInt8}
    (h : r.Represents log) {start end_ : ℤ} (hstart : r.logStartOffset ≤ start)
    (hend : end_ ≤ log.length) :
    r.copyRange start.toNat end_.toNat [] = segment log start end_ := by
  have holdest := h.start
  have hmin : min end_.toNat log.length = end_.toNat := by omega
  have hmax : max start.toNat (log.length - r.capacity) = start.toNat := by omega
  rw [h.copyRange_eq, hmin, hmax, List.nil_append, segment]

/-- The poll lemma: a poll at an offset not beyond the end returns bytes up to its new offset, which
is not beyond the end either. They start at the offset unless the poll reports an overflow, and
not before it in any case. -/
theorem Represents.tailSelection_spec {r : ContinuousRingBuffer} {log : List UInt8}
    (h : r.Represents log) {offset length : ℤ} (hlength : 0 ≤ length)
    (hoffset : offset ≤ log.length) :
    let selection := r.tailSelection offset length
    offset ≤ selection.2.1 ∧ selection.2.1 ≤ log.length ∧
      ∃ start, offset ≤ start ∧ (selection.2.2 = false → start = offset) ∧
        selection.1 = segment log start selection.2.1 := by
  have hpos := r.capacity_pos
  have hcumulative := h.cumulative
  have hstart := h.start
  have hlen : max length 0 = length := by omega
  simp only [tailSelection, byteSize, hlen]
  split
  next hzero =>
    -- The last bytes; all of them when none was passed over.
    subst hzero
    generalize hactual : (if length = 0 then
      ((r.cumulativeBytes - r.logStartOffset : ℕ) : ℤ) else _) = actual
    have hbounds : 0 ≤ actual ∧ actual ≤ (r.cumulativeBytes - r.logStartOffset : ℕ) := by
      split at hactual <;> omega
    dsimp only
    refine ⟨by omega, by omega, max (r.cumulativeBytes - actual) r.logStartOffset, by omega, ?_, ?_⟩
    · intro hover
      have hall : ¬ (r.cumulativeBytes : ℤ) > actual := of_decide_eq_false hover
      omega
    · exact h.copyRange_segment (by omega) (by omega)
  next hne =>
    split
    next hend =>
      -- The offset is the end of the log, or the log is empty.
      dsimp only
      refine ⟨by omega, by omega, offset, le_rfl, fun _ => rfl, ?_⟩
      rw [segment, eq_comm, List.drop_eq_nil_iff, List.length_take]
      omega
    next hbefore =>
      generalize htoRead : (if length = 0 then _ else min length _) = toRead
      have hbounds : 0 ≤ toRead ∧
          toRead ≤ r.cumulativeBytes - max offset r.logStartOffset := by
        split at htoRead <;> omega
      dsimp only
      refine ⟨by omega, by omega, max offset r.logStartOffset, by omega, ?_, ?_⟩
      · intro hover
        have hretained : ¬ offset < (r.logStartOffset : ℤ) := of_decide_eq_false hover
        omega
      · exact h.copyRange_segment (by omega) (by omega)

/-! ## Runs -/

/-- What a poll was given, which bytes it selected, and what it returned. -/
structure Poll where
  offset : ℤ
  /-- The bytes before they are decoded. -/
  bytes : List UInt8
  text : String
  newOffset : ℤ
  overflow : Bool
  deriving DecidableEq

/-- What is written to the log. -/
inductive Append
  | writeBytes (data : List UInt8)
  | writeLine (line : String)
  deriving DecidableEq

/-- The operation on the buffer. -/
def Append.op : Append → LogOp
  | .writeBytes data => .writeBytes data
  | .writeLine line => .writeLine line

/-- What happens to a buffer and its client. -/
inductive PollEvent
  | append (a : Append)
  | poll (length : ℕ)
  deriving DecidableEq

/-- A ring buffer, the offset at which its client goes on, and the polls so far. -/
structure PollState where
  ring : ContinuousRingBuffer
  offset : ℤ
  polls : List Poll

/-- The state after an event. -/
def PollState.next (s : PollState) : PollEvent → PollState
  | .append a => { s with ring := s.ring.apply a.op }
  | .poll length =>
      let bytes := (s.ring.tailSelection s.offset length).1
      let (text, newOffset, overflow) := s.ring.tailBytes s.offset length
      { s with
        offset := newOffset
        polls := s.polls ++ [⟨s.offset, bytes, text, newOffset, overflow⟩] }

/-- The log after an event. -/
def PollEvent.extend (log : List UInt8) : PollEvent → List UInt8
  | .append a => a.op.extend log
  | .poll _ => log

/-- Polls that pass back the offset returned last: from `start`, and up to `end_`. -/
def Chained (start : ℤ) : List Poll → ℤ → Prop
  | [], end_ => start = end_
  | p :: polls, end_ => p.offset = start ∧ Chained p.newOffset polls end_

theorem Chained.concat {start end_ : ℤ} {polls : List Poll} (h : Chained start polls end_)
    {p : Poll} (hp : p.offset = end_) : Chained start (polls ++ [p]) p.newOffset := by
  induction polls generalizing start with
  | nil =>
    obtain rfl : start = end_ := h
    exact ⟨hp, rfl⟩
  | cons q polls ih => exact ⟨h.1, ih h.2⟩

/-- What a poll returned, seen from the log: the text of bytes up to its new offset, from its offset
on or from one behind it. -/
structure Poll.Selects (p : Poll) (log : List UInt8) : Prop where
  text_eq : p.text = Text.fromUtf8Lossy p.bytes
  le_newOffset : p.offset ≤ p.newOffset
  newOffset_le : p.newOffset ≤ log.length
  bytes_eq : ∃ start, p.offset ≤ start ∧ (p.overflow = false → start = p.offset) ∧
    p.bytes = segment log start p.newOffset

/-- Bytes that are appended do not change those before them. -/
theorem segment_append {log : List UInt8} {start end_ : ℤ} (hend : end_ ≤ log.length)
    (data : List UInt8) : segment (log ++ data) start end_ = segment log start end_ := by
  rw [segment, List.take_append_of_le_length (by omega), segment]

theorem segment_self (log : List UInt8) (start : ℤ) : segment log start start = [] := by
  rw [segment, List.drop_eq_nil_iff, List.length_take]
  exact min_le_left _ _

/-- Adjacent segments. -/
theorem segment_append_segment (log : List UInt8) {start mid end_ : ℤ} (hstart : start ≤ mid)
    (hend : mid ≤ end_) :
    segment log start mid ++ segment log mid end_ = segment log start end_ := by
  have hmid : log.drop mid.toNat =
      (log.drop start.toNat).drop (mid.toNat - start.toNat) := by
    rw [List.drop_drop]
    congr 1
    omega
  have hsum : end_.toNat - start.toNat =
      mid.toNat - start.toNat + (end_.toNat - mid.toNat) := by omega
  simp only [segment, List.drop_take]
  rw [hmid, hsum, List.take_add]

theorem Poll.Selects.append {p : Poll} {log : List UInt8} (h : p.Selects log)
    (data : List UInt8) : p.Selects (log ++ data) := by
  obtain ⟨start, hstart, hexact, hbytes⟩ := h.bytes_eq
  refine ⟨h.text_eq, h.le_newOffset, ?_, start, hstart, hexact, ?_⟩
  · have hle := h.newOffset_le
    rw [List.length_append]
    omega
  · rw [hbytes, segment_append h.newOffset_le]

/-- Polls without overflow return the bytes between the first and the last offset. -/
theorem flatMap_bytes_of_chained {log : List UInt8} {start end_ : ℤ} {polls : List Poll}
    (hchain : Chained start polls end_) (hselects : ∀ p ∈ polls, p.Selects log)
    (hexact : ∀ p ∈ polls, p.overflow = false) :
    start ≤ end_ ∧ polls.flatMap Poll.bytes = segment log start end_ := by
  induction polls generalizing start with
  | nil =>
    obtain rfl : start = end_ := hchain
    exact ⟨le_rfl, (segment_self log start).symm⟩
  | cons p polls ih =>
    obtain ⟨rfl, hchain⟩ := hchain
    have hp := hselects p List.mem_cons_self
    obtain ⟨first, -, hfirst, hbytes⟩ := hp.bytes_eq
    rw [hfirst (hexact p List.mem_cons_self)] at hbytes
    obtain ⟨hle, hrest⟩ := ih hchain (fun q hq => hselects q (List.mem_cons_of_mem _ hq))
      (fun q hq => hexact q (List.mem_cons_of_mem _ hq))
    have hstep := hp.le_newOffset
    refine ⟨by omega, ?_⟩
    rw [List.flatMap_cons, hbytes, hrest, segment_append_segment log hstep hle]

/-- What holds after any events: the log is that of the buffer, and the polls are those of a client
that started at `first`. -/
structure PollState.Invariant (s : PollState) (log : List UInt8) (first : ℤ) : Prop where
  represents : s.ring.Represents log
  offset_le : s.offset ≤ log.length
  selects : ∀ p ∈ s.polls, p.Selects log
  chained : Chained first s.polls s.offset

/-- What an append adds to the log. -/
theorem Append.exists_extend (a : Append) (log : List UInt8) :
    ∃ data, a.op.extend log = log ++ data := by
  cases a with
  | writeBytes data => exact ⟨data, rfl⟩
  | writeLine line => exact ⟨lineBytes line, rfl⟩

/-- The step lemma. -/
theorem PollState.Invariant.next {s : PollState} {log : List UInt8} {first : ℤ}
    (h : s.Invariant log first) (e : PollEvent) :
    (s.next e).Invariant (e.extend log) first := by
  cases e with
  | append a =>
    obtain ⟨data, hdata⟩ := a.exists_extend log
    have hrep := h.represents.apply a.op
    show PollState.Invariant _ (a.op.extend log) first
    rw [hdata] at hrep ⊢
    refine ⟨hrep, ?_, fun p hp => (h.selects p hp).append data, h.chained⟩
    have hle := h.offset_le
    rw [List.length_append]
    show s.offset ≤ _
    omega
  | poll length =>
    have hlength : 0 ≤ (length : ℤ) := by omega
    have hspec := h.represents.tailSelection_spec hlength h.offset_le
    obtain ⟨hle, hend, hbytes⟩ := hspec
    show PollState.Invariant _ log first
    simp only [PollState.next, tailBytes_eq]
    refine ⟨h.represents, hend, ?_, h.chained.concat rfl⟩
    intro p hp
    rcases List.mem_append.mp hp with hp | hp
    · exact h.selects p hp
    · obtain rfl := List.mem_singleton.mp hp
      exact ⟨rfl, hle, hend, hbytes⟩

/-- The run lemma. -/
theorem PollState.Invariant.foldl {s : PollState} {log : List UInt8} {first : ℤ}
    (h : s.Invariant log first) (events : List PollEvent) :
    (events.foldl PollState.next s).Invariant (events.foldl PollEvent.extend log) first := by
  induction events generalizing s log with
  | nil => exact h
  | cons e events ih => exact ih (h.next e)

/-- Polling delivers each byte once: the client of a ring buffer that is appended to but not cleared
passes back the offsets it gets, every poll returns the text of the bytes that it selects, each poll
that reports no overflow selects the bytes from its offset up to the new one, any poll selects none
before its offset, and consecutive polls without overflow select the log between the first and the
last offset. -/
theorem polls_contiguous {capacity : ℕ} {r₀ : ContinuousRingBuffer}
    (hr₀ : r₀ = new capacity ∨ ∃ maxLines, r₀ = withMaxLines capacity maxLines)
    (ops : List LogOp) {offset : ℤ} (hoffset : offset ≤ (history ops).length)
    (events : List PollEvent) :
    let s := events.foldl PollState.next ⟨ops.foldl ContinuousRingBuffer.apply r₀, offset, []⟩
    let log := events.foldl PollEvent.extend (history ops)
    s.ring.Represents log ∧ Chained offset s.polls s.offset ∧
      (∀ p ∈ s.polls, p.text = Text.fromUtf8Lossy p.bytes ∧
        p.offset ≤ p.newOffset ∧ p.newOffset ≤ log.length ∧
        (p.overflow = false → p.bytes = segment log p.offset p.newOffset) ∧
        ∃ start, p.offset ≤ start ∧ p.bytes = segment log start p.newOffset) ∧
      ∀ stretch start end_, stretch <:+: s.polls → (∀ p ∈ stretch, p.overflow = false) →
        Chained start stretch end_ → stretch.flatMap Poll.bytes = segment log start end_ := by
  intro s log
  have hfresh : r₀.Represents [] := by
    rcases hr₀ with rfl | ⟨maxLines, rfl⟩
    · exact .nil rfl rfl
    · exact .nil rfl rfl
  have hstart : PollState.Invariant ⟨ops.foldl ContinuousRingBuffer.apply r₀, offset, []⟩
      (history ops) offset := by
    refine ⟨hfresh.foldl ops, hoffset, ?_, rfl⟩
    intro p hp
    exact absurd hp List.not_mem_nil
  obtain ⟨hrep, -, hselects, hchained⟩ := hstart.foldl events
  refine ⟨hrep, hchained, fun p hp => ?_, ?_⟩
  · obtain ⟨htext, hle, hend, first, hfirst, hexact, hbytes⟩ := hselects p hp
    refine ⟨htext, hle, hend, fun hover => ?_, first, hfirst, hbytes⟩
    rw [hbytes, hexact hover]
  · intro stretch first last hsub hexact hchain
    have hmem : ∀ p ∈ stretch, p.Selects log := fun p hp => hselects p (hsub.subset hp)
    exact (flatMap_bytes_of_chained hchain hmem hexact).2

/-- `polls_contiguous` for a client that polls twice while three bytes are written. -/
theorem polls_contiguous_of_two_polls :
    ([.append (.writeBytes [1, 2]), .poll 0, .append (.writeBytes [3]), .poll 5].foldl
      PollState.next ⟨new 4, 0, []⟩).polls.flatMap Poll.bytes = [1, 2, 3] :=
  (@polls_contiguous 4 (new 4) (.inl rfl) [] 0 (by decide)
    [.append (.writeBytes [1, 2]), .poll 0, .append (.writeBytes [3]), .poll 5]).2.2.2 _ 0 3
    List.infix_rfl (by decide) ⟨rfl, rfl, rfl⟩

end ContinuousRingBuffer

end Rsupervisord
