import Rsupervisord.Support.FallibleState
import Rsupervisord.Support.HashMap

/-!
# Directories

The entries of a directory by their names, and the operations on them. Every operation asks the
environment first, which may let it fail.

* `Directory.openFile`, `removeFile`, `rename`: the operations as such.
* `Directory.contents`: what is read from an entry.
* `Disk`: a directory, its environment, and the bytes that the files showed right after they were
  written.
* `Disk.syscall`: an operation that may fail.
* `Disk.tryWrite`: a write, which may fail after a part of it.
-/

open FallibleState

/-- An entry of a directory. -/
inductive FileNode
  | file (bytes : List UInt8)
  | directory
  /-- A symbolic link out of the directory, with the contents of the file that it leads to. -/
  | link (target : Option (List UInt8))
  deriving DecidableEq

namespace FileNode

/-- `exists`: links are followed. -/
def isThere : FileNode → Bool
  | file _ => true
  | directory => true
  | link target => target.isSome

/-- `is_file` of an entry: links are not followed. -/
def isFile : FileNode → Bool
  | file _ => true
  | _ => false

/-- The contents that are read through an entry. -/
def contents : FileNode → Option (List UInt8)
  | file bytes => some bytes
  | directory => none
  | link target => target

/-- Contents are written through an entry. -/
def write (node : FileNode) (bytes : List UInt8) : FileNode :=
  match node with
  | file _ => file bytes
  | directory => directory
  | link _ => link (some bytes)

end FileNode

/-- The entries of a directory. -/
abbrev Directory := HashMap String FileNode

/-- Where the bytes of a write go. -/
inductive WriteMode
  | append
  /-- From a position on. -/
  | seek (pos : ℕ)
  deriving DecidableEq, Repr

namespace WriteMode

/-- The contents after a write. -/
def place (mode : WriteMode) (bytes data : List UInt8) : List UInt8 :=
  match mode with
  | append => bytes ++ data
  | seek pos =>
      if data.isEmpty then bytes
      else
        (bytes ++ List.replicate (pos - bytes.length) 0).take pos ++ data ++
          bytes.drop (pos + data.length)

/-- The position of a write to a file with these contents. -/
def start (mode : WriteMode) (bytes : List UInt8) : ℕ :=
  match mode with
  | append => bytes.length
  | seek pos => pos

/-- What is read back from where a write went. -/
theorem take_drop_place (mode : WriteMode) (bytes data : List UInt8) :
    ((mode.place bytes data).drop (mode.start bytes)).take data.length = data := by
  cases mode with
  | append => rw [place, start, List.drop_left, List.take_length]
  | seek pos =>
    simp only [place, start]
    split
    next hempty => rw [List.isEmpty_iff.mp hempty, List.length_nil, List.take_zero]
    next =>
      have hlen : ((bytes ++ List.replicate (pos - bytes.length) 0).take pos).length = pos := by
        rw [List.length_take, List.length_append, List.length_replicate]
        omega
      rw [List.append_assoc, List.drop_left' hlen, List.take_left]

/-- The contents after a write have the bytes in them. -/
theorem infix_place (mode : WriteMode) (bytes data : List UInt8) :
    data <:+: mode.place bytes data := by
  have hinfix := (List.take_prefix data.length ((mode.place bytes data).drop
    (mode.start bytes))).isInfix.trans (List.drop_suffix _ _).isInfix
  rwa [take_drop_place] at hinfix

/-- The mode of the next write. -/
def advance (mode : WriteMode) (n : ℕ) : WriteMode :=
  match mode with
  | append => append
  | seek pos => seek (pos + n)

end WriteMode

namespace Directory

variable (d : Directory)

/-- `exists`. -/
def isThere (name : String) : Bool := ((d.lookup name).map FileNode.isThere).getD false

/-- What is read from an entry. -/
def contents (name : String) : List UInt8 := ((d.lookup name).bind FileNode.contents).getD []

/-- Open a file for writing, and create it when it is missing. -/
def openFile (name : String) (truncate : Bool) : Except String Directory :=
  match d.lookup name with
  | none => .ok (d.insert name (.file []))
  | some .directory => .error "Is a directory"
  | some (.file bytes) => .ok (d.insert name (.file (if truncate then [] else bytes)))
  | some (.link target) =>
      .ok (d.insert name (.link (some (if truncate then [] else target.getD []))))

/-- `remove_file`. -/
def removeFile (name : String) : Except String Directory :=
  match d.lookup name with
  | none => .error "No such file or directory"
  | some .directory => .error "Is a directory"
  | some _ => .ok (d.erase name)

/-- `rename`. What has the new name is replaced, but no directory is, nor anything by one. -/
def rename (src dst : String) : Except String Directory :=
  match d.lookup src, d.lookup dst with
  | none, _ => .error "No such file or directory"
  | some _, some .directory => .error "Is a directory"
  | some .directory, some _ => .error "Not a directory"
  | some node, _ => .ok ((d.erase src).insert dst node)

/-- A write to an open file. -/
def write (name : String) (mode : WriteMode) (data : List UInt8) : Directory :=
  match d.lookup name with
  | none => d
  | some node => d.insert name (node.write (mode.place (node.contents.getD []) data))

/-- What an entry shows at the place of a write that was made when it had the contents `before`. -/
def readBack (name : String) (mode : WriteMode) (before : List UInt8) (n : ℕ) : List UInt8 :=
  ((d.contents name).drop (mode.start before)).take n

variable {d} {d' : Directory} {name src dst : String} {truncate : Bool}

/-- Opening changes no other entry, keeps the contents unless it empties the file, and fails for a
directory only. -/
theorem openFile_of_ne (h : d.lookup name ≠ some .directory) (truncate : Bool) :
    ∃ node, node ≠ .directory ∧
      node.contents = some (if truncate then [] else d.contents name) ∧
      d.openFile name truncate = .ok (d.insert name node) := by
  match hnode : d.lookup name with
  | none =>
    refine ⟨.file [], nofun, ?_, by rw [openFile, hnode]⟩
    rw [contents, hnode]
    exact congrArg some (ite_self _).symm
  | some .directory => exact absurd hnode h
  | some (.file bytes) =>
    exact ⟨.file _, nofun, by rw [contents, hnode]; rfl, by rw [openFile, hnode]; rfl⟩
  | some (.link target) =>
    exact ⟨.link _, nofun, by rw [contents, hnode]; rfl, by rw [openFile, hnode]; rfl⟩

theorem openFile_eq_ok (h : d.openFile name truncate = .ok d') :
    ∃ node, node ≠ .directory ∧ d' = d.insert name node := by
  by_cases hdir : d.lookup name = some .directory
  · unfold openFile at h
    rw [hdir] at h
    exact absurd h nofun
  · obtain ⟨node, hnode, -, hopen⟩ := openFile_of_ne hdir truncate
    exact ⟨node, hnode, (Except.ok.inj (hopen.symm.trans h)).symm⟩

theorem removeFile_eq_ok (h : d.removeFile name = .ok d') : d' = d.erase name := by
  unfold removeFile at h
  split at h
  next => exact absurd h nofun
  next => exact absurd h nofun
  next => exact (Except.ok.inj h).symm

theorem rename_eq_ok (h : d.rename src dst = .ok d') :
    ∃ node, d.lookup src = some node ∧ d' = (d.erase src).insert dst node := by
  unfold rename at h
  split at h
  next => exact absurd h nofun
  next => exact absurd h nofun
  next => exact absurd h nofun
  next node hsrc _ _ => exact ⟨node, hsrc, (Except.ok.inj h).symm⟩

/-- A renaming leaves the other entries. -/
theorem lookup_rename {n : String} (h : d.rename src dst = .ok d') (hsrc : n ≠ src)
    (hdst : n ≠ dst) :
    d'.lookup n = d.lookup n := by
  obtain ⟨node, -, rfl⟩ := rename_eq_ok h
  rw [AList.lookup_insert_ne hdst, AList.lookup_erase_ne hsrc]

theorem lookup_rename_dst (h : d.rename src dst = .ok d') : d'.lookup dst = d.lookup src := by
  obtain ⟨node, hnode, rfl⟩ := rename_eq_ok h
  rw [AList.lookup_insert, hnode]

/-- A write changes the contents of its file. -/
theorem lookup_write (mode : WriteMode) (data : List UInt8) (n : String) :
    (d.write name mode data).lookup n =
      if n = name then (d.lookup n).map fun node =>
        node.write (mode.place (node.contents.getD []) data)
      else d.lookup n := by
  unfold write
  split
  next hnone =>
    split
    next hn => rw [hn, hnone, Option.map_none]
    next => rfl
  next node hnode =>
    split
    next hn => rw [hn, AList.lookup_insert, hnode, Option.map_some]
    next hn => rw [AList.lookup_insert_ne hn]

end Directory

namespace FileNode

variable {node : FileNode}

theorem write_ne_directory (h : node ≠ .directory) (bytes : List UInt8) :
    node.write bytes ≠ .directory := by
  cases node with
  | file => exact nofun
  | directory => exact absurd rfl h
  | link => exact nofun

theorem contents_write (h : node ≠ .directory) (bytes : List UInt8) :
    (node.write bytes).contents = some bytes := by
  cases node with
  | file => rfl
  | directory => exact absurd rfl h
  | link => rfl

end FileNode

namespace Directory

variable {d : Directory} {name : String}

/-- The contents after a write to a file that is there. -/
theorem contents_write (hsome : (d.lookup name).isSome) (hdir : d.lookup name ≠ some .directory)
    (mode : WriteMode) (data : List UInt8) :
    (d.write name mode data).contents name = mode.place (d.contents name) data := by
  obtain ⟨node, hnode⟩ := Option.isSome_iff_exists.mp hsome
  have hnotdir : node ≠ .directory := fun h => hdir (by rw [hnode, h])
  simp only [contents, lookup_write, if_true, hnode, Option.map_some, Option.bind_some,
    FileNode.contents_write hnotdir, Option.getD_some]

/-- What is read back after a write is what was written. -/
theorem readBack_write (hsome : (d.lookup name).isSome) (hdir : d.lookup name ≠ some .directory)
    (mode : WriteMode) (data : List UInt8) :
    (d.write name mode data).readBack name mode (d.contents name) data.length = data := by
  rw [readBack, contents_write hsome hdir, WriteMode.take_drop_place]

end Directory

/-- A failure: its message, and how many bytes were written when it is that of a write. -/
structure DiskFault where
  message : String
  written : ℕ
  deriving DecidableEq, Repr

/-- What the environment answers to each operation. -/
structure DiskEnv (Time : Type) where
  /-- The operations that fail. -/
  fault : ℕ → Option DiskFault
  /-- The time. -/
  clock : ℕ → Time
  /-- The order in which a directory is listed. -/
  order : ℕ → HashOrder String

/-- A directory in its environment. -/
structure Disk (Time : Type) where
  env : DiskEnv Time
  /-- The number of the next operation. -/
  tick : ℕ
  entries : Directory
  /-- What the files of the directory showed at the place of each write right after it, in the order
  of the writes. -/
  out : List UInt8

namespace Disk

variable {Time ε : Type}

/-- An operation on the entries that may fail. -/
def syscall (fail : String → ε) (act : Directory → Except String Directory) :
    EStateM ε (Disk Time) Unit := fun d =>
  let d' := { d with tick := d.tick + 1 }
  match d.env.fault d.tick with
  | some f => .error (fail f.message) d'
  | none =>
      match act d.entries with
      | .ok entries => .ok () { d' with entries }
      | .error message => .error (fail message) d'

/-- A query that may fail. -/
def query {α : Type} (fail : String → ε) (ask : Disk Time → α) : EStateM ε (Disk Time) α := fun d =>
  let d' := { d with tick := d.tick + 1 }
  match d.env.fault d.tick with
  | some f => .error (fail f.message) d'
  | none => .ok (ask d) d'

/-- `write_all` to an open file: the mode of the next write, and the error if it failed. What `out`
gets is read from the entry after the write. -/
def tryWrite (fail : String → ε) (name : String) (mode : WriteMode) (data : List UInt8) :
    EStateM ε (Disk Time) (WriteMode × Option ε) := fun d =>
  let fault := d.env.fault d.tick
  let part := match fault with
    | some f => data.take f.written
    | none => data
  let entries := d.entries.write name mode part
  .ok (mode.advance part.length, fault.map fun f => fail f.message)
    { d with
      tick := d.tick + 1
      entries
      out := d.out ++ entries.readBack name mode (d.entries.contents name) part.length }

/-- An operation keeps what its effect on the entries keeps. -/
theorem keeps_syscall {I : Directory → Prop} {fail : String → ε}
    {act : Directory → Except String Directory}
    (hact : ∀ entries entries', I entries → act entries = .ok entries' → I entries') :
    Keeps (fun d : Disk Time => I d.entries) (syscall fail act) := by
  intro d hd
  unfold syscall
  match d.env.fault d.tick with
  | some f => exact hd
  | none =>
    match hresult : act d.entries with
    | .error message => exact hd
    | .ok entries => exact hact _ _ hd hresult

/-- No operation fails any more. -/
def Quiet (d : Disk Time) : Prop := ∀ n, d.tick ≤ n → d.env.fault n = none

end Disk
