import Rsupervisord.Logging.ContinuousRing
import Rsupervisord.Logging.Reader

/-!
# In-memory log rotator

`InMemoryChannelRotator`: the in-memory log of one channel, a ring buffer with the line that waits
for its end before it is broadcast, and `InMemoryLogRotator`, one of them for each channel.
-/

namespace Rsupervisord

/-- The standard streams of a program. -/
inductive LogChannel
  | stdout
  | stderr
  deriving DecidableEq, Repr

/-- `MAX_LIVE_LOG_LINE_BYTES`. -/
def maxLiveLogLineBytes : ℕ := 64 * 1024

/-- The in-memory log of one channel. -/
structure InMemoryChannelRotator where
  segmentBytes : ℕ
  backups : ℕ
  ring : ContinuousRingBuffer
  /-- The lines broadcast so far. -/
  broadcast : List String
  /-- Whether somebody has subscribed to the broadcast. -/
  hasReceivers : Bool
  /-- The bytes of the line that waits for its end. -/
  pendingLine : List UInt8
  segmentBytes_le_capacity : segmentBytes ≤ ring.capacity
  segmentBytes_pos : 0 < segmentBytes

namespace InMemoryChannelRotator

/-- A segment fits into the ring of a new rotator. -/
theorem segmentBytes_le_newCapacity (maxBytes backups : ℕ) :
    max maxBytes 1 ≤ (ContinuousRingBuffer.new (max maxBytes 1 * (backups + 1))).capacity := by
  show max maxBytes 1 ≤ max (max maxBytes 1 * (backups + 1)) 1
  exact le_trans (Nat.le_mul_of_pos_right _ (by omega)) (le_max_left _ _)

/-- A segment is not empty. -/
theorem segmentBytes_new_pos (maxBytes : ℕ) : 0 < max maxBytes 1 := by omega

/-- `InMemoryChannelRotator::new`. -/
def new (maxBytes backups : ℕ) : InMemoryChannelRotator where
  segmentBytes := max maxBytes 1
  backups := backups
  ring := .new (max maxBytes 1 * (backups + 1))
  broadcast := []
  hasReceivers := false
  pendingLine := []
  segmentBytes_le_capacity := segmentBytes_le_newCapacity maxBytes backups
  segmentBytes_pos := segmentBytes_new_pos maxBytes

/-- The total capacity that `with_total_capacity` makes of the requested one. -/
def safeCapacity (totalCapacity backups : ℕ) : ℕ :=
  max totalCapacity (max (backups + 1) 1 * 1024)

/-- `InMemoryChannelRotator::with_total_capacity`. -/
def withTotalCapacity (totalCapacity backups : ℕ) : InMemoryChannelRotator where
  segmentBytes := max (safeCapacity totalCapacity backups / max (backups + 1) 1) 1024
  backups := backups
  ring := .new (safeCapacity totalCapacity backups)
  broadcast := []
  hasReceivers := false
  pendingLine := []
  segmentBytes_le_capacity := by
    show max (safeCapacity totalCapacity backups / max (backups + 1) 1) 1024 ≤
      max (safeCapacity totalCapacity backups) 1
    have hdiv := Nat.div_le_self (safeCapacity totalCapacity backups) (max (backups + 1) 1)
    have hmin : 1024 ≤ safeCapacity totalCapacity backups := by
      simp only [safeCapacity]
      omega
    omega
  segmentBytes_pos := by omega

variable (c : InMemoryChannelRotator)

/-- Split off the complete lines: their contents without terminators, and the rest. -/
def splitLines : List UInt8 → List UInt8 → List (List UInt8) × List UInt8
  | line, [] => ([], line)
  | line, b :: bytes =>
      if b = ContinuousRingBuffer.newline then
        let content := if line.getLast? = some 13 then line.dropLast else line
        let (lines, rest) := splitLines [] bytes
        (content :: lines, rest)
      else splitLines (line ++ [b]) bytes

/-- `broadcast_chunk`. -/
def broadcastChunk (data : List UInt8) : InMemoryChannelRotator :=
  if data.isEmpty ∨ (c.hasReceivers = false ∧ c.pendingLine.isEmpty) then c
  else
    let (lines, rest) := splitLines [] (c.pendingLine ++ data)
    let sent := if c.hasReceivers then lines.map Text.fromUtf8Lossy else []
    -- An overlong line is sent without waiting for its end.
    let (sent, rest) :=
      if rest.length > maxLiveLogLineBytes then
        (sent ++ if c.hasReceivers then [Text.fromUtf8Lossy rest] else [], [])
      else (sent, rest)
    { c with broadcast := c.broadcast ++ sent, pendingLine := rest }

@[simp]
theorem broadcastChunk_ring (data : List UInt8) : (c.broadcastChunk data).ring = c.ring := by
  unfold broadcastChunk
  split <;> rfl

/-- The rotator with another ring buffer of the same capacity. -/
def withRing (ring : ContinuousRingBuffer) (h : ring.capacity = c.ring.capacity) :
    InMemoryChannelRotator :=
  { c with ring, segmentBytes_le_capacity := h ▸ c.segmentBytes_le_capacity }

/-- `append_bytes`. -/
def appendBytes (data : List UInt8) : InMemoryChannelRotator :=
  if data.isEmpty then c
  else
    let c := c.broadcastChunk data
    c.withRing (c.ring.writeBytes data) (c.ring.writeBytes_capacity data)

/-- `append_line`. -/
def appendLine (line : String) : InMemoryChannelRotator :=
  let c := { c with broadcast := c.broadcast ++ if c.hasReceivers then [line] else [] }
  c.withRing (c.ring.writeLine line) (c.ring.writeLine_capacity line)

/-- `clear`. -/
def clear : InMemoryChannelRotator :=
  { c.withRing c.ring.clear rfl with pendingLine := [] }

/-- `seed_from_file`: the ring buffer starts from the trailing bytes of the file, which is archived.
Returns the size of the file. -/
def seedFromFile (files : Files) (path : String) (maxSeedBytes : ℕ) (renamed : Bool) :
    ℕ × InMemoryChannelRotator × Files :=
  let boundedSeed := min maxSeedBytes c.segmentBytes
  match LogFileReader.seedAndArchive files path boundedSeed (some "1") renamed with
  | (some (bytes, fileSize), files) =>
      (fileSize, c.withRing (c.ring.seed bytes fileSize) (c.ring.seed_capacity bytes fileSize),
        files)
  | (none, files) => (0, c, files)

end InMemoryChannelRotator

/-- The in-memory logs of a program. -/
structure InMemoryLogRotator where
  stdout : InMemoryChannelRotator
  stderr : InMemoryChannelRotator

namespace InMemoryLogRotator

variable (m : InMemoryLogRotator)

/-- The log of a channel. -/
def channel : LogChannel → InMemoryChannelRotator
  | .stdout => m.stdout
  | .stderr => m.stderr

/-- `read_bytes` of a channel. -/
def readBytes (channel : LogChannel) (offset length : ℤ) : String × ℤ × Bool :=
  (m.channel channel).ring.readBytes offset length

/-- `tail_bytes` of a channel. -/
def tailBytes (channel : LogChannel) (offset length : ℤ) : String × ℤ × Bool :=
  (m.channel channel).ring.tailBytes offset length

end InMemoryLogRotator

end Rsupervisord
