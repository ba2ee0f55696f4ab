import Rsupervisord.Support.Directory
import Rsupervisord.Support.LocalTime
import Rsupervisord.Support.SortedLists
import Mathlib.Data.String.Basic

/-!
# The log rotator under failures

`LogRotator` with both kinds of archive names, where every operation on files may fail. The log file
and its archives are entries of one directory.

* `FallibleRotator.rotateOnDisk`: the log file gets the name of an archive.
* `FallibleRotator.writeFallback`, `writeAll`, `flush`, `clear`: the operations of a rotator.

Warnings on stderr are left out, and so is the creation of the directory.
-/

namespace Rsupervisord

open FallibleState

/-- The errors of the operations. -/
inductive RotatorError
  /-- "file handle missing". -/
  | handleMissing
  /-- The error of an operation on files. -/
  | os (message : String)
  /-- A loop was given too few passes. -/
  | passes
  deriving DecidableEq, Repr

/-- `RotatorInner`. A handle is known by where it writes. -/
inductive RotatorMode
  | active (file : Option WriteMode) (currentSize : ℕ)
  | fallback (file : WriteMode) (writesSinceFallback : ℕ)
  deriving DecidableEq, Repr

/-- The settings of a rotator. -/
structure FallibleRotator where
  /-- The directory part of the path, empty for a bare file name. -/
  parent : String
  fileName : String
  maxBytes : ℕ
  backups : ℕ
  timestampSuffix : Bool

/-- The lock-protected state of a rotator, and the disk. -/
structure RotatorState where
  inner : RotatorMode
  disk : Disk LocalTime

/-- Computations on a disk. -/
abbrev DiskM (α : Type) := EStateM RotatorError (Disk LocalTime) α

/-- Computations of a rotator. -/
abbrev RotatorM (α : Type) := EStateM RotatorError RotatorState α

namespace FallibleRotator

variable (r : FallibleRotator)

/-! ## Names -/

/-- The name of a numbered archive. -/
def backupName (i : ℕ) : String := r.fileName ++ "." ++ toString i

/-- The name of an archive with a timestamp. -/
def timestampName (t : LocalTime) : String := r.fileName ++ "." ++ t.format

/-- The name of a further archive with the same timestamp. -/
def candidateName (t : LocalTime) (counter : ℕ) : String :=
  r.timestampName t ++ "-" ++ toString counter

/-- The name of the next archive: the first one with the timestamp that is not there. There are not
more candidates that are there than entries. -/
def archiveName (entries : Directory) (t : LocalTime) : String :=
  if entries.isThere (r.timestampName t) then
    (((List.range' 1 (entries.keys.length + 1)).map (r.candidateName t)).find? fun name =>
      !entries.isThere name).getD (r.timestampName t)
  else r.timestampName t

theorem append_ne_self (name : String) {suffix : String} (h : suffix ≠ "") :
    name ++ suffix ≠ name := by
  intro heq
  have hlen := congrArg String.length heq
  rw [String.length_append] at hlen
  exact h (String.length_eq_zero_iff.mp (by omega))

theorem append_dot_ne (name suffix : String) : name ++ "." ++ suffix ≠ name := by
  rw [String.append_assoc]
  refine append_ne_self name fun h => ?_
  have hlen := congrArg String.length h
  rw [String.length_append] at hlen
  exact absurd hlen (by simp)

theorem backupName_ne (i : ℕ) : r.backupName i ≠ r.fileName := append_dot_ne _ _

/-- The forms of the name. -/
theorem archiveName_eq (entries : Directory) (t : LocalTime) :
    r.archiveName entries t = r.timestampName t ∨
      ∃ n, 1 ≤ n ∧ r.archiveName entries t = r.candidateName t n := by
  unfold archiveName
  split
  next =>
    cases hfind : List.find? _ _ with
    | none => exact .inl rfl
    | some name =>
      obtain ⟨n, hn, rfl⟩ := List.mem_map.mp (List.mem_of_find?_eq_some hfind)
      exact .inr ⟨n, (List.mem_range'_1.mp hn).1, rfl⟩
  next => exact .inl rfl

theorem archiveName_ne (entries : Directory) (t : LocalTime) :
    r.archiveName entries t ≠ r.fileName := by
  rcases r.archiveName_eq entries t with h | ⟨n, -, h⟩ <;> rw [h]
  · exact append_dot_ne _ _
  · rw [candidateName, timestampName, String.append_assoc, String.append_assoc]
    exact append_dot_ne _ _

/-- The files that are taken for archives: the regular files whose names begin with that of the log
file and a dot. -/
def timestampFiles (entries : Directory) (order : HashOrder String) : List String :=
  ((entries.iter order).filter fun e =>
    e.2.isFile && (r.fileName ++ ".").toList.isPrefixOf e.1.toList && e.1 != r.fileName).map
    Prod.fst

/-! ## Operations on files -/

/-- `open` for writing. -/
def openFile (name : String) (truncate : Bool) : DiskM Unit :=
  Disk.syscall .os fun d => d.openFile name truncate

/-- `remove_file`. -/
def removeFile (name : String) : DiskM Unit := Disk.syscall .os fun d => d.removeFile name

/-- `rename`. -/
def rename (src dst : String) : DiskM Unit := Disk.syscall .os fun d => d.rename src dst

/-- `exists`. -/
def isThere (name : String) : DiskM Bool := do return (← get).entries.isThere name

theorem keeps_isThere {P : Disk LocalTime → Prop} (name : String) : Keeps P (isThere name) :=
  Triple.bind (.get fun _ hd => hd) fun _ => .pure fun _ hd => hd

/-- The size of the log file; zero when it cannot be found out. -/
def fileSize : DiskM ℕ := do
  let size ← attempt (Disk.query .os fun d =>
    (((d.entries.lookup r.fileName).bind FileNode.contents).getD []).length)
  return size.toOption.getD 0

/-- The files that are taken for archives, or nothing when the directory cannot be listed. A bare
file name has an empty directory part, which is not listed. -/
def listArchives : DiskM (List String) := do
  if r.parent = "" then return []
  else
    let names ← attempt (Disk.query .os fun d =>
      r.timestampFiles d.entries (d.env.order d.tick))
    return names.toOption.getD []

/-! ## Rotation -/

/-- Remove a file that is there. -/
def removeExisting (name : String) : DiskM Unit := do
  if ← isThere name then removeFile name

/-- Give a numbered archive the next number. -/
def shiftBackup (i : ℕ) : DiskM Unit := do
  if ← isThere (r.backupName i) then
    removeExisting (r.backupName (i + 1))
    rename (r.backupName i) (r.backupName (i + 1))

/-- `rotate_on_disk` with numbers. -/
def rotateNumbered : DiskM Unit := do
  removeExisting (r.backupName r.backups)
  forM (List.range' 1 (r.backups - 1)).reverse r.shiftBackup
  removeExisting (r.backupName 1)
  rename r.fileName (r.backupName 1)

/-- The archives above the limit are removed, those with the least names. -/
def prune : DiskM Unit := do
  let names ← r.listArchives
  forM (names.leastBut r.backups) fun name => do
    let _ ← attempt (removeFile name)

/-- `rotate_on_disk` with timestamps. -/
def rotateTimestamp : DiskM Unit := do
  let d ← get
  rename r.fileName (r.archiveName d.entries (d.env.clock d.tick))
  r.prune

/-- `rotate_on_disk`. -/
def rotateOnDisk : DiskM Unit := do
  if ← isThere r.fileName then
    if r.backups = 0 then
      let _ ← attempt (removeFile r.fileName)
    else if r.timestampSuffix then r.rotateTimestamp
    else r.rotateNumbered

/-- The part of `write_all` that makes room: the archive, and a new log file. -/
def rotate : DiskM Unit := do
  r.rotateOnDisk
  openFile r.fileName true

/-! ## The operations of a rotator -/

/-- Run a computation on the disk. -/
def onDisk {α : Type} (m : DiskM α) : RotatorM α :=
  onPart RotatorState.disk (fun s disk => { s with disk }) m

/-- Change the state under the lock. -/
def setInner (inner : RotatorMode) : RotatorM Unit := modify fun s => { s with inner }

/-- The size from which a rotator counts; it does not count when there is no limit. -/
def initialSize : DiskM ℕ := if r.maxBytes > 0 then r.fileSize else pure 0

/-- `build_inner`. -/
def buildInner : DiskM RotatorMode := do
  openFile r.fileName false
  let currentSize ← r.initialSize
  return .active (some .append) currentSize

/-- A write through a handle. -/
def tryWrite (file : WriteMode) (data : List UInt8) : RotatorM (WriteMode × Option RotatorError) :=
  onDisk (Disk.tryWrite .os r.fileName file data)

/-- `write_fallback`. -/
def writeFallback (data : List UInt8) : RotatorM Unit := do
  onDisk (openFile r.fileName false)
  let (file, error) ← r.tryWrite .append data
  match error with
  | none => setInner (.fallback file 0)
  | some e => throw e

/-- Write `data` through the handle of the active mode, or in the fallback mode when that fails. -/
def writeActive (file : Option WriteMode) (currentSize : ℕ) (data rest : List UInt8)
    (next : WriteMode → RotatorM Unit) : RotatorM Unit := do
  match file with
  | none => throw .handleMissing
  | some file =>
      let (file, error) ← r.tryWrite file data
      setInner (.active (some file) currentSize)
      match error with
      | some _ => r.writeFallback rest
      | none => next file

/-- The pass of the loop of `write_all` that closes the handle, archives the log file and creates it
anew. -/
def reopen (currentSize : ℕ) (data : List UInt8) (next : RotatorM Unit) : RotatorM Unit := do
  setInner (.active none currentSize)
  match ← attempt (onDisk r.rotate) with
  | .error _ => r.writeFallback data
  | .ok () => do
      setInner (.active (some (.seek 0)) 0)
      next

/-- The loop of `write_all` with at most `fuel` passes. -/
def writeLoop : ℕ → Option WriteMode → ℕ → List UInt8 → RotatorM Unit
  | 0, _, _, _ => throw .passes
  | fuel + 1, file, currentSize, data =>
      if data.isEmpty then pure ()
      else if currentSize + data.length > r.maxBytes then
        let bytesLeft := r.maxBytes - currentSize
        if bytesLeft > 0 then
          r.writeActive file currentSize (data.take bytesLeft) data fun _ =>
            r.reopen (currentSize + bytesLeft) (data.drop bytesLeft)
              (writeLoop fuel (some (.seek 0)) 0 (data.drop bytesLeft))
        else r.reopen currentSize data (writeLoop fuel (some (.seek 0)) 0 data)
      else
        r.writeActive file currentSize data data fun file =>
          setInner (.active (some file) (currentSize + data.length))

/-- The number of passes that the loop of `write_all` is given. Every second one at least writes. -/
def passes (data : List UInt8) : ℕ := 2 * data.length + 2

/-- The part of `write_all` that leaves the fallback mode after fifty writes. -/
def recover : RotatorM Unit := do
  match (← get).inner with
  | .active _ _ => pure ()
  | .fallback file n =>
      if n + 1 ≥ 50 then
        match ← attempt (onDisk r.buildInner) with
        | .ok recovered => setInner recovered
        | .error _ => setInner (.fallback file 0)
      else setInner (.fallback file (n + 1))

/-- `write_all`. -/
def writeAll (data : List UInt8) : RotatorM Unit := do
  r.recover
  match (← get).inner with
  | .active file currentSize =>
      if r.maxBytes = 0 then
        r.writeActive file currentSize data data fun file =>
          setInner (.active (some file) (currentSize + data.length))
      else r.writeLoop (passes data) file currentSize data
  | .fallback file n => do
      let (file, error) ← r.tryWrite file data
      setInner (.fallback file n)
      match error with
      | some _ => r.writeFallback data
      | none => pure ()

/-- `flush`. -/
def flush : RotatorM Unit := do
  match (← get).inner with
  | .active none _ => pure ()
  | .active (some _) _ | .fallback _ _ => onDisk (Disk.query .os fun _ => ())

/-- `clear`. -/
def clear : RotatorM Unit := do
  onDisk (openFile r.fileName true)
  match ← attempt (onDisk r.buildInner) with
  | .ok inner => setInner inner
  | .error _ => do
      onDisk (openFile r.fileName false)
      setInner (.fallback .append 0)

/-- The calls of a rotator. -/
inductive Call
  | writeAll (data : List UInt8)
  | flush
  | clear
  deriving DecidableEq, Repr

/-- What a call runs. -/
def call : Call → RotatorM Unit
  | .writeAll data => r.writeAll data
  | .flush => flush
  | .clear => r.clear

end FallibleRotator

end Rsupervisord
