import Rsupervisord.Logging.Reader
import Rsupervisord.Support.FileStore

/-!
# Log rotator

`LogRotator` with numbered backups: a log file of at most `max_bytes` bytes, and the files it was
before it was full.

Operations on files do not fail, and the files are regular files.
-/

namespace Rsupervisord

open FileStore

/-- `RotatorInner`. A handle is known by the path at which it was opened; no file is renamed while a
handle is open. -/
inductive RotatorInner
  | active (file : Option String) (currentSize : ℕ)
  | fallback (file : String) (writesSinceFallback : ℕ)
  deriving DecidableEq, Repr

/-- A rotator with numbered backups. -/
structure LogRotator where
  path : String
  maxBytes : ℕ
  backups : ℕ
  inner : RotatorInner
  deriving DecidableEq, Repr

namespace LogRotator

/-- The path of a backup. -/
def backupPath (path : String) (i : ℕ) : String := s!"{path}.{i}"

/-- Open a file for appending, creating an empty one when it is missing. -/
def openAppend (files : Files) (path : String) : Files := append files path []

/-- `build_inner`. -/
def buildInner (path : String) (maxBytes : ℕ) (files : Files) : RotatorInner × Files :=
  let files := openAppend files path
  let currentSize :=
    if maxBytes > 0 then
      match files path with
      | some bytes => bytes.length
      | none => 0
    else 0
  (.active (some path) currentSize, files)

/-- `new`. The directory of the file exists afterwards. -/
def new (path : String) (maxBytes backups : ℕ) (files : Files) : LogRotator × Files :=
  let (inner, files) := buildInner path maxBytes files
  ({ path, maxBytes, backups, inner }, files)

/-- `rotate_on_disk` without timestamps. -/
def rotateOnDisk (path : String) (backups : ℕ) (files : Files) : Files :=
  if (files path).isNone then files
  else if backups = 0 then remove files path
  else
    let oldest := backupPath path backups
    let files := if (files oldest).isSome then remove files oldest else files
    let files := (List.range' 1 (backups - 1)).reverse.foldl
      (fun files i => renameOver files (backupPath path i) (backupPath path (i + 1))) files
    let dst₁ := backupPath path 1
    let files := if (files dst₁).isSome then remove files dst₁ else files
    rename files path dst₁

/-- The loop of `write_all` with at most `fuel` passes, none when they do not suffice: the handle,
the current size and the files afterwards. -/
def writeLoop (path : String) (maxBytes backups : ℕ) :
    ℕ → Option String → ℕ → Files → List UInt8 → Option (Except String (Option String × ℕ × Files))
  | 0, _, _, _, _ => none
  | fuel + 1, file, currentSize, files, data =>
      if data.isEmpty then some (.ok (file, currentSize, files))
      else if currentSize + data.length > maxBytes then
        let bytesLeft := maxBytes - currentSize
        let filled : Except String (Files × List UInt8) :=
          if bytesLeft > 0 then
            match file with
            | some f => .ok (append files f (data.take bytesLeft), data.drop bytesLeft)
            | none => .error "file handle missing"
          else .ok (files, data)
        match filled with
        | .error e => some (.error e)
        | .ok (files, data) =>
            -- The file is created anew, or truncated.
            let files := put (rotateOnDisk path backups files) path []
            writeLoop path maxBytes backups fuel (some path) 0 files data
      else
        match file with
        | some f => some (.ok (file, currentSize + data.length, append files f data))
        | none => some (.error "file handle missing")

/-- The number of passes that the loop of `write_all` is given. Every second one at least writes. -/
def passes (data : List UInt8) : ℕ := 2 * data.length + 2

/-- `write_all`. -/
def writeAll (r : LogRotator) (files : Files) (data : List UInt8) :
    Option (Except String (LogRotator × Files)) :=
  -- After fifty writes in the fallback mode the rotator starts anew.
  let (inner, files) :=
    match r.inner with
    | .active file currentSize => (RotatorInner.active file currentSize, files)
    | .fallback file n =>
        if n + 1 ≥ 50 then buildInner r.path r.maxBytes files
        else (.fallback file (n + 1), files)
  match inner with
  | .active file currentSize =>
      if r.maxBytes = 0 then
        match file with
        | some f =>
            some (.ok ({ r with inner := .active file (currentSize + data.length) },
              append files f data))
        | none => some (.error "file handle missing")
      else
        (writeLoop r.path r.maxBytes r.backups (passes data) file currentSize files data).map
          fun result => result.map fun (file, currentSize, files) =>
            ({ r with inner := .active file currentSize }, files)
  | .fallback file n => some (.ok ({ r with inner := .fallback file n }, append files file data))

end LogRotator

end Rsupervisord
