import Rsupervisord.Logging.InMemoryRotator
import Rsupervisord.Logging.RingRefinement

/-!
# Seeding an in-memory log from a file

`seed_from_file` starts an in-memory log at the size of an existing file with the trailing bytes of
that file as its contents. When these bytes are fewer than the file has, a gap lies before them,
which plain writes never produce; the write path then computes the start offset from the total size
and the capacity alone.

* `Written`: what any sequence of writes leaves, whatever the start offset was before.
* `seed_spec`: the state behind a seed.
* `showsLog_iff`: after a seed and any writes the buffer shows seeded and written bytes exactly when
  the whole file was seeded, or the seeded and the written bytes fill the buffer, or there are none.

The file and the writes have fewer than `2 ^ 64` bytes together, the bound of the offsets in the
source.
-/

namespace Rsupervisord

open CircularStore

namespace ContinuousRingBuffer

variable {r s t : ContinuousRingBuffer}

/-! ## Sequences of writes -/

/-- `s` is `r` after the bytes `data` were written, in one or more chunks. -/
structure Written (r : ContinuousRingBuffer) (data : List UInt8) (s : ContinuousRingBuffer) :
    Prop where
  capacity : s.capacity = r.capacity
  cumulative : s.cumulativeBytes = r.cumulativeBytes + data.length
  /-- Any write recomputes the start offset. -/
  start : s.logStartOffset =
    if data = [] then r.logStartOffset else s.cumulativeBytes - r.capacity
  stores : ∀ xs, r.Stores xs → s.Stores (lastBytes r.capacity (xs ++ data))

theorem Written.nil : Written r [] r := by
  refine ⟨rfl, rfl, by simp, fun xs h => ?_⟩
  rw [List.append_nil, lastBytes_of_length_le h.length_le_capacity]
  exact h

theorem Written.writeBytes (data : List UInt8) : Written r data (r.writeBytes data) := by
  rcases eq_or_ne data [] with rfl | hne
  · exact .nil
  have hoffsets := writeBytes_offsets (r := r) hne
  refine ⟨r.writeBytes_capacity data, hoffsets.1, ?_, fun xs h => h.writeBytes data⟩
  rw [if_neg hne, hoffsets.1, hoffsets.2]

theorem Written.trans {xs ys : List UInt8} (h : Written r xs s) (h' : Written s ys t) :
    Written r (xs ++ ys) t := by
  refine ⟨h'.capacity.trans h.capacity, ?_, ?_, fun zs hzs => ?_⟩
  · rw [h'.cumulative, h.cumulative, List.length_append, Nat.add_assoc]
  · rw [h'.start, h.capacity]
    rcases eq_or_ne ys [] with rfl | hne
    · rw [if_pos rfl, List.append_nil, h.start, h'.cumulative, List.length_nil, Nat.add_zero]
    · rw [if_neg hne, if_neg (by simp [hne])]
  · have hstores := h'.stores _ (h.stores zs hzs)
    rwa [h.capacity, lastBytes_append, List.append_assoc] at hstores

theorem Written.writeLine (line : String) : Written r (lineBytes line) (r.writeLine line) := by
  unfold ContinuousRingBuffer.writeLine lineBytes
  dsimp only
  split
  · exact .writeBytes _
  · exact (Written.writeBytes _).trans (.writeBytes _)

/-! ## The state behind a seed -/

/-- A seed stores its bytes at the end of the file. The start offset is the end of the file when
there are no bytes, and otherwise what the write of the bytes has computed. -/
theorem seed_spec {bytes : List UInt8} {fileSize : ℕ} (hsize : bytes.length ≤ fileSize)
    (hcapacity : bytes.length ≤ r.capacity) :
    (r.seed bytes fileSize).Stores bytes ∧ (r.seed bytes fileSize).cumulativeBytes = fileSize ∧
      (r.seed bytes fileSize).logStartOffset =
        if bytes = [] then fileSize else fileSize - r.capacity := by
  rcases eq_or_ne bytes [] with rfl | hne
  · refine ⟨⟨Nat.zero_le _, Nat.zero_le _, Holds.nil⟩, ?_, ?_⟩ <;> simp [seed]
  have hlen : 0 < bytes.length := List.length_pos_iff.mpr hne
  have hcond : fileSize > 0 ∧ ¬ bytes.isEmpty = true := by
    refine ⟨by omega, ?_⟩
    simpa using hne
  -- The bytes are written behind the gap, so that they end where the file ends.
  let gap : ContinuousRingBuffer := { r.clear with
    cumulativeBytes := fileSize - bytes.length, currentLineStart := fileSize - bytes.length }
  have hwritten : Written gap bytes (gap.writeBytes bytes) := .writeBytes bytes
  have hcumulative : (gap.writeBytes bytes).cumulativeBytes = fileSize := by
    rw [hwritten.cumulative]
    show fileSize - bytes.length + bytes.length = fileSize
    omega
  have hseed : r.seed bytes fileSize = gap.writeBytes bytes := by
    unfold seed
    rw [if_pos hcond]
    show { gap.writeBytes bytes with cumulativeBytes := fileSize } = gap.writeBytes bytes
    rw [← hcumulative]
  rw [hseed]
  refine ⟨?_, hcumulative, ?_⟩
  · have hstores := hwritten.stores [] ⟨Nat.zero_le _, Nat.zero_le _, Holds.nil⟩
    rwa [List.nil_append, lastBytes_of_length_le (by exact hcapacity)] at hstores
  · rw [hwritten.start, hcumulative, if_neg hne, if_neg hne]
    rfl

/-! ## What a seeded buffer should show -/

/-- The buffer shows the bytes `seeded` of a file of the size `fileSize` and the bytes `written`
after them, as many as it has cells, under the offsets that count the whole file. -/
def ShowsLog (r : ContinuousRingBuffer) (fileSize : ℕ) (seeded written : List UInt8) : Prop :=
  let log := seeded ++ written
  let retained := min r.capacity log.length
  let base := fileSize - seeded.length
  r.snapshotBytes = log.drop (log.length - retained) ∧
    r.cumulativeBytes = fileSize + written.length ∧
    r.logStartOffset = r.cumulativeBytes - retained ∧
    ∀ start end_ out, r.copyRange start end_ out =
      out ++ (log.take (min end_ r.cumulativeBytes - base)).drop (max start r.logStartOffset - base)

/-- A buffer that stores the last bytes of the log shows it when its start offset is the right
one. -/
theorem showsLog_iff_start {fileSize : ℕ} {seeded written : List UInt8}
    (hsize : seeded.length ≤ fileSize)
    (hstores : r.Stores (lastBytes r.capacity (seeded ++ written)))
    (hcumulative : r.cumulativeBytes = fileSize + written.length) :
    r.ShowsLog fileSize seeded written ↔
      r.logStartOffset = r.cumulativeBytes - min r.capacity (seeded ++ written).length := by
  have hlen := length_lastBytes r.capacity (seeded ++ written)
  refine ⟨fun h => h.2.2.1, fun hstart => ⟨?_, hcumulative, hstart, fun start end_ out => ?_⟩⟩
  · rw [hstores.snapshotBytes_eq (by rw [hlen, hstart]), lastBytes]
    congr 1
    omega
  · rw [List.length_append] at hstart
    rw [hstores.copyRange_eq (by rw [hlen, hstart, List.length_append]), lastBytes, List.drop_drop,
      List.drop_take, List.length_append]
    congr 2
    · omega
    · congr 1
      omega

end ContinuousRingBuffer

namespace LogFileReader

/-- The bytes of the last `window` bytes of a file behind their first newline, all of them when
there is none. -/
def trimmedTail (window : ℕ) (file : List UInt8) : List UInt8 :=
  let tail := file.drop (file.length - window)
  match tail.dropWhile (· ≠ 10) with
  | [] => tail
  | _ :: rest => rest

/-- A file that fits into the window is seeded as a whole. -/
theorem seededBytes_of_length_le {file : List UInt8} {maxSeedBytes : ℕ}
    (h : file.length ≤ max maxSeedBytes 1) : seededBytes file maxSeedBytes = file := by
  unfold seededBytes
  split
  next =>
    dsimp only
    rw [if_neg (by omega), Nat.sub_eq_zero_of_le h, List.drop_zero]
  next hempty =>
    have hzero : file.length = 0 := by omega
    exact (List.length_eq_zero_iff.mp hzero).symm

/-- Dropping up to and with the first newline, by its index and by its predecessors. -/
theorem drop_findIdx_newline (l other : List UInt8) :
    (match l.findIdx? (· = 10) with
      | some pos => l.drop (pos + 1)
      | none => other) = match l.dropWhile (· ≠ 10) with
      | [] => other
      | _ :: rest => rest := by
  induction l with
  | nil => rfl
  | cons b l ih =>
    rcases eq_or_ne b 10 with rfl | hb
    · simp [List.findIdx?_cons]
    · have hdrop : (b :: l).dropWhile (fun b => decide (b ≠ 10)) =
          l.dropWhile (fun b => decide (b ≠ 10)) := by
        rw [List.dropWhile_cons, if_pos (by simpa using hb)]
      rw [hdrop, ← ih, List.findIdx?_cons, if_neg (by simpa using hb)]
      cases l.findIdx? (fun b => decide (b = 10)) <;> rfl

/-- Of a longer file the trimmed tail is seeded. -/
theorem seededBytes_of_lt_length {file : List UInt8} {maxSeedBytes : ℕ}
    (h : max maxSeedBytes 1 < file.length) :
    seededBytes file maxSeedBytes = trimmedTail (max maxSeedBytes 1) file := by
  unfold seededBytes trimmedTail
  dsimp only
  rw [if_pos (by omega), if_pos (by omega)]
  exact drop_findIdx_newline _ _

/-- A trimmed tail fits into its window. -/
theorem length_trimmedTail_le (window : ℕ) (file : List UInt8) :
    (trimmedTail window file).length ≤ min window file.length := by
  unfold trimmedTail
  have htail : (file.drop (file.length - window)).length = min window file.length := by
    rw [List.length_drop]
    omega
  dsimp only
  split
  next => exact htail.le
  next b rest hrest =>
    have hle := List.length_dropWhile_le (· ≠ (10 : UInt8)) (file.drop (file.length - window))
    rw [hrest, List.length_cons] at hle
    omega

/-- The seeded bytes fit into the window and come from the file. -/
theorem length_seededBytes_le (file : List UInt8) (maxSeedBytes : ℕ) :
    (seededBytes file maxSeedBytes).length ≤ min (max maxSeedBytes 1) file.length := by
  rcases le_or_gt file.length (max maxSeedBytes 1) with hle | hlt
  · rw [seededBytes_of_length_le hle]
    omega
  · rw [seededBytes_of_lt_length hlt]
    exact length_trimmedTail_le _ _

end LogFileReader

namespace InMemoryChannelRotator

variable {c : InMemoryChannelRotator}

/-- Writes to an in-memory log. -/
inductive LogWrite
  | bytes (data : List UInt8)
  | line (text : String)
  deriving DecidableEq

/-- The log after a write. -/
def write (c : InMemoryChannelRotator) : LogWrite → InMemoryChannelRotator
  | .bytes data => c.appendBytes data
  | .line text => c.appendLine text

/-- The bytes that some writes write. -/
def writtenBytes (ws : List LogWrite) : List UInt8 :=
  ws.flatMap fun
    | .bytes data => data
    | .line text => ContinuousRingBuffer.lineBytes text

/-- The ring buffer after some writes. -/
theorem written_foldl_write (ws : List LogWrite) :
    ContinuousRingBuffer.Written c.ring (writtenBytes ws) (ws.foldl write c).ring := by
  induction ws generalizing c with
  | nil => exact .nil
  | cons w ws ih =>
    have hstep : ContinuousRingBuffer.Written c.ring (writtenBytes [w]) (c.write w).ring := by
      cases w with
      | bytes data =>
        simp only [write, appendBytes, writtenBytes, List.flatMap_singleton]
        split
        next hempty =>
          rw [List.isEmpty_iff.mp hempty]
          exact .nil
        next =>
          show ContinuousRingBuffer.Written c.ring data
            ((c.broadcastChunk data).ring.writeBytes data)
          rw [broadcastChunk_ring]
          exact .writeBytes data
      | line text =>
        simp only [write, writtenBytes, List.flatMap_singleton]
        exact .writeLine text
    have hcons : writtenBytes (w :: ws) = writtenBytes [w] ++ writtenBytes ws := by
      simp [writtenBytes]
    rw [hcons]
    exact hstep.trans ih

/-- After `seed_from_file` on an existing file and any writes, the in-memory log shows the seeded
and the written bytes exactly when the file fits into the seed window, or the trimmed tail of the
file and the written bytes fill the buffer, or both are empty. -/
theorem showsLog_seedFromFile_iff {files : Files} {path : String} {file : List UInt8}
    (hfile : files path = some file) (maxSeedBytes : ℕ) (renamed : Bool) (ws : List LogWrite) :
    let window := max (min maxSeedBytes c.segmentBytes) 1
    let tail := LogFileReader.trimmedTail window file
    (ws.foldl write (c.seedFromFile files path maxSeedBytes renamed).2.1).ring.ShowsLog
        file.length (LogFileReader.seededBytes file (min maxSeedBytes c.segmentBytes))
        (writtenBytes ws) ↔
      file.length ≤ window ∨ c.ring.capacity ≤ tail.length + (writtenBytes ws).length ∨
        tail = [] ∧ writtenBytes ws = [] := by
  intro window tail
  generalize hseeded : LogFileReader.seededBytes file (min maxSeedBytes c.segmentBytes) = seeded
  have hlen : seeded.length ≤ min window file.length :=
    hseeded ▸ LogFileReader.length_seededBytes_le file _
  have hwindow : window ≤ c.ring.capacity := by
    have hseg := c.segmentBytes_le_capacity
    have hpos := c.ring.capacity_pos
    omega
  have hring : (c.seedFromFile files path maxSeedBytes renamed).2.1.ring =
      c.ring.seed seeded file.length := by
    unfold seedFromFile LogFileReader.seedAndArchive
    rw [hfile, ← hseeded]
    rfl
  obtain ⟨hstores, hcumulative, hstart⟩ :=
    @ContinuousRingBuffer.seed_spec c.ring seeded file.length (by omega) (by omega)
  have hwritten := written_foldl_write
    (c := (c.seedFromFile files path maxSeedBytes renamed).2.1) ws
  rw [hring] at hwritten
  generalize (ws.foldl write (c.seedFromFile files path maxSeedBytes renamed).2.1).ring = r
    at hwritten ⊢
  have hcapacity : r.capacity = c.ring.capacity :=
    hwritten.capacity.trans (c.ring.seed_capacity _ _)
  have hcumulative' : r.cumulativeBytes = file.length + (writtenBytes ws).length := by
    rw [hwritten.cumulative, hcumulative]
  have hstores' := hwritten.stores seeded hstores
  rw [c.ring.seed_capacity, ← hcapacity] at hstores'
  have hstart' := hwritten.start
  rw [hstart, c.ring.seed_capacity, hcumulative'] at hstart'
  rw [ContinuousRingBuffer.showsLog_iff_start (by omega) hstores' hcumulative', hstart',
    hcumulative', hcapacity, List.length_append]
  -- Only the lengths matter from here on.
  have hnil : writtenBytes ws = [] ↔ (writtenBytes ws).length = 0 := List.length_eq_zero_iff.symm
  have hnil' : seeded = [] ↔ seeded.length = 0 := List.length_eq_zero_iff.symm
  have hpos := c.ring.capacity_pos
  rcases le_or_gt file.length window with hfits | hlong
  · have hall : seeded = file := hseeded ▸ LogFileReader.seededBytes_of_length_le hfits
    rw [hall] at hlen ⊢
    simp only [hfits, true_or, iff_true, hnil, List.length_eq_zero_iff.symm]
    split
    · split <;> omega
    · omega
  · have htail : seeded = tail := hseeded ▸ LogFileReader.seededBytes_of_lt_length hlong
    rw [← htail]
    simp only [not_le.mpr hlong, false_or, hnil, hnil']
    split
    · split <;> omega
    · omega

/-- `showsLog_seedFromFile_iff` for a short file that fits into the seed window, and two writes. -/
theorem showsLog_of_short_file :
    ([LogWrite.bytes [98, 10], .line "c"].foldl write ((InMemoryChannelRotator.new 8 1).seedFromFile
      (fun _ => some [97, 10]) "app.log" 8 true).2.1).ring
      |>.ShowsLog 2 [97, 10] [98, 10, 99, 10] :=
  (@showsLog_seedFromFile_iff (.new 8 1) (fun _ => some [97, 10]) "app.log" _ rfl 8 true
    [.bytes [98, 10], .line "c"]).mpr (.inl (by decide))

/-- A file of twenty bytes of which six are seeded into ten cells: the log shows four bytes that
were never in the file's tail, and not what it should. -/
theorem exists_seeded_not_showsLog :
    let file : List UInt8 := List.replicate 13 97 ++ [10] ++ List.replicate 6 98
    let c := ((InMemoryChannelRotator.new 10 0).seedFromFile (fun _ =>
      some file) "app.log" 10 true).2.1
    c.ring.snapshotBytes = [0, 0, 0, 0, 98, 98, 98, 98, 98, 98] ∧
      ¬ c.ring.ShowsLog file.length (LogFileReader.seededBytes file 10) [] := by
  refine ⟨by decide, fun h => ?_⟩
  have hsnapshot := h.1
  revert hsnapshot
  decide

end InMemoryChannelRotator

end Rsupervisord
