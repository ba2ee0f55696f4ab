import Rsupervisord.Support.Text

/-!
# Log file reader

`LogFileReader`: reading, tailing and pre-reading log files. Files are known by their paths and hold
bytes; operations on existing files do not fail.
-/

namespace Rsupervisord

/-- The regular files by their paths. -/
abbrev Files := String → Option (List UInt8)

/-- Errors of log reads. -/
inductive LogReadError
  | noFile (path : String)
  | badArguments (message : String)
  | io (message : String)
  deriving DecidableEq, Repr

/-- The `Display` text of a log read error. -/
def LogReadError.display : LogReadError → String
  | noFile path => s!"Log file does not exist: {path}"
  | badArguments message => s!"Invalid log read arguments: {message}"
  | io message => s!"I/O error reading log: {message}"

/-- `MAX_LOG_READ_LIMIT`. -/
def maxLogReadLimit : ℕ := 16 * 1024 * 1024

/-- A number clamped to the signed 64-bit range, as the saturating operations do. -/
def clampI64 (n : ℤ) : ℤ := max (-2 ^ 63) (min n (2 ^ 63 - 1))

theorem clampI64_of_mem {n : ℤ} (hlow : -2 ^ 63 ≤ n) (hhigh : n < 2 ^ 63) : clampI64 n = n := by
  unfold clampI64
  omega

theorem clampI64_of_nonneg {n : ℤ} (hn : 0 ≤ n) :
    n < 2 ^ 63 ∧ clampI64 n = n ∨ 2 ^ 63 ≤ n ∧ clampI64 n = 2 ^ 63 - 1 := by
  unfold clampI64
  omega

namespace LogFileReader

/-- `compute_read_window`: start and length of what a read returns of `totalLen` bytes. -/
def computeReadWindow (totalLen offset length : ℤ) : Except LogReadError (ℤ × ℤ) :=
  if offset < 0 then
    if length ≠ 0 then .error (.badArguments "length must be 0 when offset is negative")
    else
      let maxRead := min (maxLogReadLimit : ℤ) (max totalLen 0)
      let absOffset := min (offset.natAbs : ℤ) maxRead
      let pos := max (totalLen - absOffset) 0
      .ok (pos, min (totalLen - pos) absOffset)
  else if length < 0 then .error (.badArguments "length cannot be negative")
  else
    let pos := max 0 (min offset (max totalLen 0))
    let remaining := totalLen - pos
    let toRead := if length = 0 then remaining else min length remaining
    .ok (pos, min toRead maxLogReadLimit)

/-- `compute_tail_window`: start and length of what a tail returns of `sz` bytes, and whether bytes
before it were passed over. -/
def computeTailWindow (sz offset length : ℤ) : ℤ × ℤ × Bool :=
  let off := max offset 0
  let len := max 0 (min length maxLogReadLimit)
  let overflow : Bool := sz > clampI64 (off + len)
  let off := if overflow then clampI64 (sz - 1) else off
  let (off, len) :=
    if clampI64 (off + len) > sz then
      let len := if off > clampI64 (sz - 1) then 0 else len
      let off := max (sz - len) 0
      (off, max (sz - off) 0)
    else (off, len)
  (max off 0, max len 0, overflow)

/-- `read_bytes_from_slice`. -/
def readBytesFromSlice (data : List UInt8) (offset length : ℤ) : Except LogReadError String := do
  let (pos, toRead) ← computeReadWindow data.length offset length
  if toRead = 0 then return ""
  else
    let end_ := (pos + toRead).toNat
    return Text.fromUtf8Lossy ((data.take (min end_ data.length)).drop pos.toNat)

/-- `tail_bytes_from_slice`. -/
def tailBytesFromSlice (data : List UInt8) (offset length : ℤ) : String × ℤ × Bool :=
  let sz : ℤ := data.length
  let (off, len, overflow) := computeTailWindow sz offset length
  let slice :=
    if len = 0 ∨ off ≥ sz then [] else (data.take (min (off + len) sz).toNat).drop off.toNat
  (Text.fromUtf8Lossy slice, sz, overflow)

/-- `read_bytes`. -/
def readBytes (files : Files) (path : String) (offset length : ℤ) : Except LogReadError String :=
  match files path with
  | none => .error (.noFile path)
  | some bytes => do
      let (pos, toRead) ← computeReadWindow bytes.length offset length
      if toRead = 0 then return ""
      else return Text.fromUtf8Lossy ((bytes.drop pos.toNat).take toRead.toNat)

/-- `tail_bytes`. -/
def tailBytes (files : Files) (path : String) (offset length : ℤ) : String × ℤ × Bool :=
  match files path with
  | none => ("", offset, false)
  | some bytes =>
      let (off, len, overflow) := computeTailWindow bytes.length offset length
      let data := if len = 0 then [] else (bytes.drop off.toNat).take len.toNat
      (Text.fromUtf8Lossy data, bytes.length, overflow)

/-- The bytes from which `seed_and_archive` starts: those of the last `maxSeedBytes` bytes of the
file, without a leading partial line when the file is longer than that. -/
def seededBytes (file : List UInt8) (maxSeedBytes : ℕ) : List UInt8 :=
  if file.length > 0 then
    let seedCap := max maxSeedBytes 1
    let startPos := file.length - seedCap
    let buf := file.drop startPos
    if startPos > 0 then
      match buf.findIdx? (· = 10) with
      | some pos => buf.drop (pos + 1)
      | none => buf
    else buf
  else []

/-- `seed_and_archive`: the seeded bytes and the size of the file, and the files after the archived
one was renamed; `renamed` tells whether that succeeded. -/
def seedAndArchive (files : Files) (path : String) (maxSeedBytes : ℕ)
    (archiveSuffix : Option String) (renamed : Bool) : Option (List UInt8 × ℕ) × Files :=
  match files path with
  | none => (none, files)
  | some file =>
      let files' := match archiveSuffix with
        | some suffix =>
            -- An existing archive is replaced.
            if renamed then fun p =>
              if p = s!"{path}.{suffix}" then some file else if p = path then none else files p
            else files
        | none => files
      (some (seededBytes file maxSeedBytes, file.length), files')

end LogFileReader

end Rsupervisord
