import Rsupervisord.Logging.InMemoryRotator
import Rsupervisord.Support.LossyText

/-!
# Live log lines

What a subscriber of an in-memory log receives does not depend on how the bytes are cut into chunks:
the complete lines of the stream, decoded one by one.

* `InMemoryChannelRotator.splitLines_eq`: splitting off the complete lines is cutting at the
  newlines.
* `InMemoryChannelRotator.Follows`: what a rotator has broadcast of the stream so far.
* `InMemoryChannelRotator.liveLines`: the lines that a subscriber receives.
-/

namespace Rsupervisord

open Lines

namespace InMemoryChannelRotator

variable {c : InMemoryChannelRotator} {line seen data : List UInt8}

/-- Splitting off the complete lines is cutting at the newlines; a line loses the carriage return at
its end. -/
theorem splitLines_eq (h : (10 : UInt8) ∉ line) (bytes : List UInt8) :
    splitLines line bytes =
      ((cut 10 (line ++ bytes)).1.map (chop 13), (cut 10 (line ++ bytes)).2) := by
  induction bytes generalizing line with
  | nil => rw [splitLines, List.append_nil, cut_of_notMem h, List.map_nil]
  | cons b bytes ih =>
    by_cases hb : b = 10
    · subst hb
      rw [splitLines, if_pos (show (10 : UInt8) = ContinuousRingBuffer.newline from rfl),
        ih List.not_mem_nil, cut_line h]
      rfl
    · have hline : (10 : UInt8) ∉ line ++ [b] := by
        simp [h, Ne.symm hb]
      rw [splitLines, if_neg (show ¬ b = ContinuousRingBuffer.newline from hb), ih hline,
        List.append_assoc]
      rfl

/-- No line of the stream, with a carriage return at its end, is longer than the limit. -/
def ShortLines (bytes : List UInt8) : Prop :=
  (∀ line ∈ (cut 10 bytes).1, line.length ≤ maxLiveLogLineBytes) ∧
    (cut 10 bytes).2.length ≤ maxLiveLogLineBytes

instance (bytes : List UInt8) : Decidable (ShortLines bytes) := inferInstanceAs (Decidable (_ ∧ _))

/-- The beginning of a stream has no longer lines. -/
theorem ShortLines.of_append (h : ShortLines (seen ++ data)) : ShortLines seen := by
  obtain ⟨hlines, hrest⟩ := h
  rw [cut_append] at hlines hrest
  refine ⟨fun line hline => hlines line (List.mem_append_left _ hline), ?_⟩
  -- The line that is still open goes on in the first line of what follows.
  obtain ⟨line, hline, hbegin⟩ | hbegin := isPrefix_cut (notMem_cut 10 seen).2 data
  · exact hbegin.length_le.trans (hlines line (List.mem_append_right _ hline))
  · exact hbegin.length_le.trans hrest

/-- The rotator `c` has broadcast `start` and then the complete lines of the stream, and keeps the
line that is still open. -/
structure Follows (start : List String) (seen : List UInt8) (c : InMemoryChannelRotator) :
    Prop where
  hasReceivers : c.hasReceivers = true
  pendingLine : c.pendingLine = (cut 10 seen).2
  broadcast : c.broadcast = start ++ ((cut 10 seen).1.map (chop 13)).map Text.fromUtf8Lossy

variable {start : List String}

/-- A chunk. -/
theorem Follows.appendBytes (h : Follows start seen c) (hshort : ShortLines (seen ++ data)) :
    Follows start (seen ++ data) (c.appendBytes data) := by
  by_cases hdata : data = []
  · subst hdata
    rw [List.append_nil]
    exact h
  · have hbranch :
        ¬ (data.isEmpty = true ∨ c.hasReceivers = false ∧ c.pendingLine.isEmpty = true) := by
      simp [hdata, h.hasReceivers]
    have hsplit := splitLines_eq List.not_mem_nil ((cut 10 seen).2 ++ data)
    rw [List.nil_append] at hsplit
    -- The line that stays open is too short to be flushed.
    have hopen : ¬ (cut 10 ((cut 10 seen).2 ++ data)).2.length > maxLiveLogLineBytes := by
      have hrest := hshort.2
      rw [cut_append] at hrest
      exact not_lt.mpr hrest
    have hchunk : c.broadcastChunk data =
        { c with
          broadcast := c.broadcast ++
            ((cut 10 ((cut 10 seen).2 ++ data)).1.map (chop 13)).map Text.fromUtf8Lossy
          pendingLine := (cut 10 ((cut 10 seen).2 ++ data)).2 } := by
      rw [broadcastChunk, if_neg hbranch]
      simp only [h.pendingLine, hsplit, h.hasReceivers, if_true, if_neg hopen]
    have happend : c.appendBytes data =
        (c.broadcastChunk data).withRing ((c.broadcastChunk data).ring.writeBytes data)
          ((c.broadcastChunk data).ring.writeBytes_capacity data) := by
      rw [InMemoryChannelRotator.appendBytes, if_neg (by simpa using hdata)]
    rw [happend, hchunk]
    refine ⟨h.hasReceivers, ?_, ?_⟩
    · rw [cut_append 10 seen data]
      rfl
    · rw [cut_append 10 seen data, List.map_append,
        List.map_append, ← List.append_assoc, ← h.broadcast]
      rfl

/-- The chunks of a stream, one after the other. -/
theorem Follows.foldl (h : Follows start seen c) (chunks : List (List UInt8))
    (hshort : ShortLines (seen ++ chunks.flatten)) :
    Follows start (seen ++ chunks.flatten) (chunks.foldl InMemoryChannelRotator.appendBytes c) := by
  induction chunks generalizing seen c with
  | nil =>
    rw [List.flatten_nil, List.append_nil]
    exact h
  | cons data chunks ih =>
    rw [List.flatten_cons, ← List.append_assoc] at hshort ⊢
    exact ih (h.appendBytes hshort.of_append) hshort

/-- However a stream without overlong lines is cut into chunks, a subscriber receives the same
lines: the complete lines of the stream without their terminators, each decoded by itself. -/
theorem liveLines {c : InMemoryChannelRotator} (hreceivers : c.hasReceivers = true)
    (hpending : c.pendingLine = []) {bytes : List UInt8} (hshort : ShortLines bytes)
    {chunks chunks' : List (List UInt8)} (hchunks : chunks.flatten = bytes)
    (hchunks' : chunks'.flatten = bytes) :
    (chunks.foldl InMemoryChannelRotator.appendBytes c).broadcast =
        (chunks'.foldl InMemoryChannelRotator.appendBytes c).broadcast ∧
      (chunks.foldl InMemoryChannelRotator.appendBytes c).broadcast =
        c.broadcast ++ ((cut 10 bytes).1.map (chop 13)).map Text.fromUtf8Lossy := by
  have hstart : Follows c.broadcast [] c := ⟨hreceivers, hpending, (List.append_nil _).symm⟩
  have hall : ∀ chunks : List (List UInt8), chunks.flatten = bytes →
      (chunks.foldl InMemoryChannelRotator.appendBytes c).broadcast =
        c.broadcast ++ ((cut 10 bytes).1.map (chop 13)).map Text.fromUtf8Lossy := by
    rintro chunks rfl
    exact (hstart.foldl chunks hshort).broadcast
  exact ⟨(hall chunks hchunks).trans (hall chunks' hchunks').symm, hall chunks hchunks⟩

/-- The theorem at work: a character and the terminator are cut in two. -/
theorem liveLines_of_cut_character :
    let c : InMemoryChannelRotator := { new 20 2 with hasReceivers := true }
    ([[104, 195], [169, 13], [10]].foldl InMemoryChannelRotator.appendBytes c).broadcast =
        ([[104, 195, 169, 13, 10]].foldl InMemoryChannelRotator.appendBytes c).broadcast ∧
      ([[104, 195], [169, 13], [10]].foldl InMemoryChannelRotator.appendBytes c).broadcast =
        c.broadcast ++ ((cut 10 [104, 195, 169, 13, 10]).1.map (chop 13)).map Text.fromUtf8Lossy :=
  liveLines rfl rfl (by decide) rfl rfl

end InMemoryChannelRotator

end Rsupervisord
