import Rsupervisord.Logging.FallibleRotator
import Rsupervisord.Support.TransitionSystem

/-!
# The log rotator recovers

A failure can leave a rotator in the active mode without an open file, but only when the log file is
full, so that the next write archives it and opens it anew.

* `FallibleRotator.lastPiece`: the bytes of a write behind the last rotation that it makes.
* `FallibleRotator.Calm`, `At`: what holds of the disk, and between the calls.
* `FallibleRotator.writeAll_spec`: what a write leaves, also when an operation fails.
* `FallibleRotator.recovers`: in every state that calls lead to, a write to a disk without failures
  is found in the log file.
-/

namespace Rsupervisord

open FallibleState

/-- The error of an operation on files. -/
def RotatorError.IsOs (e : RotatorError) : Prop := ∃ message, e = .os message

namespace RotatorMode

/-- There is an open file. -/
def IsOpen : RotatorMode → Prop
  | .active file _ => file.isSome
  | .fallback _ _ => True

end RotatorMode

namespace FallibleRotator

variable (r : FallibleRotator)

/-- The contents of the log file. -/
def logBytes (d : Disk LocalTime) : List UInt8 := d.entries.contents r.fileName

/-- The bytes of a write behind the last rotation that it makes, from a log file with a counted
`size` on: all of them when they fit or there is no limit. -/
def lastPiece (size : ℕ) (data : List UInt8) : List UInt8 :=
  if r.maxBytes = 0 ∨ size + data.length ≤ r.maxBytes then data
  else
    let rest := data.drop (r.maxBytes - size)
    rest.drop ((rest.length - 1) / r.maxBytes * r.maxBytes)

theorem lastPiece_of_fits {size : ℕ} {data : List UInt8}
    (h : r.maxBytes = 0 ∨ size + data.length ≤ r.maxBytes) : r.lastPiece size data = data :=
  if_pos h

theorem lastPiece_suffix (size : ℕ) (data : List UInt8) : r.lastPiece size data <:+ data := by
  unfold lastPiece
  split
  next => exact List.suffix_rfl
  next => exact (List.drop_suffix _ _).trans (List.drop_suffix _ _)

/-- A write that makes a rotation goes on with a new log file. -/
theorem lastPiece_of_over {size : ℕ} {data : List UInt8} (hpos : 0 < r.maxBytes)
    (hover : r.maxBytes < size + data.length) :
    r.lastPiece size data = r.lastPiece 0 (data.drop (r.maxBytes - size)) := by
  rw [lastPiece, if_neg (by omega)]
  simp only
  generalize data.drop (r.maxBytes - size) = rest
  unfold lastPiece
  split
  next hfits => rw [Nat.div_eq_of_lt (by omega), Nat.zero_mul, List.drop_zero]
  next hmore =>
    have hfull : (rest.length - 1) / r.maxBytes =
        (rest.length - r.maxBytes - 1) / r.maxBytes + 1 := by
      rw [← Nat.add_div_right _ hpos]
      congr 1
      omega
    simp only [List.length_drop, List.drop_drop, Nat.sub_zero]
    rw [hfull, Nat.add_mul, Nat.one_mul, Nat.add_comm]

/-- A write leaves some of its bytes in the log file. -/
theorem lastPiece_ne_nil (size : ℕ) {data : List UInt8} (hdata : data ≠ []) :
    r.lastPiece size data ≠ [] := by
  unfold lastPiece
  split
  next => exact hdata
  next hover =>
    have hlen := List.length_pos_iff.mpr hdata
    have hquot := Nat.div_mul_le_self ((data.drop (r.maxBytes - size)).length - 1) r.maxBytes
    refine List.length_pos_iff.mp ?_
    simp only [List.length_drop] at hquot ⊢
    omega

/-- The bytes of a write that the log file has afterwards, by the mode in which it is made. -/
def pieceIn : RotatorMode → List UInt8 → List UInt8
  | .active _ size, data => r.lastPiece size data
  | .fallback _ _, data => data

theorem pieceIn_ne_nil (inner : RotatorMode) {data : List UInt8} (hdata : data ≠ []) :
    r.pieceIn inner data ≠ [] := by
  cases inner with
  | active file size => exact r.lastPiece_ne_nil size hdata
  | fallback file n => exact hdata

/-- The log file is no directory, and it is there if `present`; when no operation fails any more
(`quiet`), the bytes `out` were written so far, and the log file has `held` in it. -/
structure Calm (quiet : Prop) (out held : List UInt8) (present : Prop) (d : Disk LocalTime) :
    Prop where
  notDirectory : d.entries.lookup r.fileName ≠ some .directory
  quiet : quiet → d.Quiet ∧ d.out = out ∧ held <:+: r.logBytes d
  present : present → (d.entries.lookup r.fileName).isSome

/-- What a failed operation leaves. -/
def Failed (quiet : Prop) (out held : List UInt8) (present : Prop) (e : RotatorError)
    (d : Disk LocalTime) : Prop :=
  e.IsOs ∧ ¬ quiet ∧ r.Calm quiet out held present d

variable {r} {quiet present : Prop} {out held : List UInt8}

theorem Calm.weaken {d : Disk LocalTime} (h : r.Calm quiet out held present d) {present' : Prop}
    (himp : present' → present) : r.Calm quiet out held present' d :=
  ⟨h.notDirectory, h.quiet, fun hp => h.present (himp hp)⟩

/-- Less is asked of the contents. -/
theorem Calm.hold {d : Disk LocalTime} (h : r.Calm quiet out held present d)
    {held' : List UInt8} (hpart : held' <:+: held) : r.Calm quiet out held' present d := by
  refine ⟨h.notDirectory, fun hq => ?_, h.present⟩
  obtain ⟨hquiet, hout, hheld⟩ := h.quiet hq
  exact ⟨hquiet, hout, hpart.trans hheld⟩

/-- The log file may be taken away. -/
theorem Calm.forget {d : Disk LocalTime} (h : r.Calm quiet out held present d) :
    r.Calm quiet out [] False d :=
  (h.weaken False.elim).hold List.nil_infix

/-- The next operation. -/
theorem Calm.tick {d : Disk LocalTime} (h : r.Calm quiet out held present d) :
    r.Calm quiet out held present { d with tick := d.tick + 1 } := by
  refine ⟨h.notDirectory, fun hq => ?_, h.present⟩
  obtain ⟨hquiet, hout⟩ := h.quiet hq
  exact ⟨fun n hn => hquiet n (Nat.le_of_succ_le hn), hout⟩

theorem Calm.failed {d : Disk LocalTime} (h : r.Calm quiet out held present d) {f : DiskFault}
    (hfault : d.env.fault d.tick = some f) : ¬ quiet := fun hq => by
  have hnone := (h.quiet hq).1 d.tick le_rfl
  rw [hfault] at hnone
  exact absurd hnone nofun

/-- An operation that leaves the log file alone or takes it away. -/
theorem keeps_syscall {act : Directory → Except String Directory}
    (hact : ∀ entries entries', entries.lookup r.fileName ≠ some .directory →
      act entries = .ok entries' → entries'.lookup r.fileName ≠ some .directory) :
    Keeps (r.Calm quiet out [] False) (Disk.syscall RotatorError.os act) := by
  intro d hd
  have htick := hd.tick
  unfold Disk.syscall
  cases hfault : d.env.fault d.tick with
  | some f => exact htick
  | none =>
    cases hresult : act d.entries with
    | error message => exact htick
    | ok entries =>
      refine ⟨hact _ _ hd.notDirectory hresult, fun hq => ?_, False.elim⟩
      obtain ⟨hquiet, hout, -⟩ := htick.quiet hq
      exact ⟨hquiet, hout, List.nil_infix⟩

/-- The log file is opened, and emptied only when nothing is asked of its contents. -/
theorem openFile_spec (truncate : Bool) (hheld : truncate = true → held = []) :
    Triple (r.Calm quiet out held present) (openFile r.fileName truncate)
      (fun _ => r.Calm quiet out held True) (r.Failed quiet out held present) := by
  intro d hd
  have htick := hd.tick
  unfold openFile Disk.syscall
  cases hfault : d.env.fault d.tick with
  | some f => exact ⟨⟨_, rfl⟩, hd.failed hfault, htick⟩
  | none =>
    obtain ⟨node, hnode, hcontents, hopen⟩ := Directory.openFile_of_ne hd.notDirectory truncate
    simp only [hopen]
    refine ⟨?_, fun hq => ?_, fun _ => ?_⟩
    · simpa using hnode
    · obtain ⟨hquiet, hout, hpart⟩ := htick.quiet hq
      refine ⟨hquiet, hout, ?_⟩
      simp only [logBytes, Directory.contents, AList.lookup_insert, Option.bind_some, hcontents,
        Option.getD_some]
      split
      next htruncate =>
        obtain rfl := hheld htruncate
        exact List.nil_infix
      next => exact hpart
    · simp

/-- A write to the log file. -/
theorem tryWrite_spec (r : FallibleRotator) (quiet : Prop) (out held : List UInt8)
    (file : WriteMode) (data : List UInt8) :
    Triple (r.Calm quiet out held True) (Disk.tryWrite RotatorError.os r.fileName file data)
      (fun result d => match result.2 with
        | none => r.Calm quiet (out ++ data) data True d
        | some e => r.Failed quiet out held True e d)
      fun _ _ => False := by
  intro d hd
  have htick := hd.tick
  have hpresent := hd.present trivial
  have hwrite : ∀ part, (d.entries.write r.fileName file part).lookup r.fileName =
      (d.entries.lookup r.fileName).map fun node =>
        node.write (file.place (node.contents.getD []) part) := fun part => by
    rw [Directory.lookup_write, if_pos rfl]
  have hdirectory : ∀ part, (d.entries.write r.fileName file part).lookup r.fileName ≠
      some .directory := fun part => by
    rw [hwrite]
    intro hdir
    obtain ⟨node, hnode, hdir⟩ := Option.map_eq_some_iff.mp hdir
    refine FileNode.write_ne_directory (fun h => ?_) _ hdir
    rw [h] at hnode
    exact hd.notDirectory hnode
  have hsome : ∀ part, ((d.entries.write r.fileName file part).lookup r.fileName).isSome :=
    fun part => by
      rw [hwrite, Option.isSome_map]
      exact hpresent
  unfold Disk.tryWrite
  cases hfault : d.env.fault d.tick with
  | some f =>
    exact ⟨⟨_, rfl⟩, hd.failed hfault, hdirectory _,
      fun hq => absurd hq (hd.failed hfault), fun _ => hsome _⟩
  | none =>
    refine ⟨hdirectory _, fun hq => ?_, fun _ => hsome _⟩
    obtain ⟨hquiet, hout, -⟩ := htick.quiet hq
    refine ⟨hquiet, ?_, ?_⟩
    · rw [Directory.readBack_write hpresent hd.notDirectory, ← hout]
    · rw [logBytes, Directory.contents_write hpresent hd.notDirectory]
      exact WriteMode.infix_place _ _ _

/-! ## Rotation -/

theorem keeps_removeFile (name : String) : Keeps (r.Calm quiet out [] False) (removeFile name) := by
  refine keeps_syscall fun entries entries' hdir h => ?_
  rw [Directory.removeFile_eq_ok h]
  by_cases hname : r.fileName = name
  · rw [hname, AList.lookup_erase]
    exact nofun
  · rwa [AList.lookup_erase_ne hname]

theorem keeps_rename {src dst : String} (hdst : dst ≠ r.fileName) :
    Keeps (r.Calm quiet out [] False) (rename src dst) := by
  refine keeps_syscall fun entries entries' hdir h => ?_
  obtain ⟨node, -, rfl⟩ := Directory.rename_eq_ok h
  rw [AList.lookup_insert_ne hdst.symm]
  by_cases hname : r.fileName = src
  · rw [hname, AList.lookup_erase]
    exact nofun
  · rwa [AList.lookup_erase_ne hname]

theorem query_spec {α : Type} (ask : Disk LocalTime → α) :
    Triple (r.Calm quiet out held present) (Disk.query RotatorError.os ask)
      (fun _ => r.Calm quiet out held present) (r.Failed quiet out held present) := by
  intro d hd
  unfold Disk.query
  cases hfault : d.env.fault d.tick with
  | some f => exact ⟨⟨_, rfl⟩, hd.failed hfault, hd.tick⟩
  | none => exact hd.tick

theorem keeps_query {α : Type} (ask : Disk LocalTime → α) :
    Keeps (r.Calm quiet out held present) (Disk.query RotatorError.os ask) :=
  (query_spec ask).weaken (fun _ hd => hd) (fun _ _ hd => hd) fun _ _ hd => hd.2.2

theorem keeps_removeExisting (name : String) :
    Keeps (r.Calm quiet out [] False) (removeExisting name) := by
  refine (keeps_isThere name).bind fun there => ?_
  cases there with
  | true => exact keeps_removeFile name
  | false => exact .pure fun _ hd => hd

theorem keeps_shiftBackup (i : ℕ) : Keeps (r.Calm quiet out [] False) (r.shiftBackup i) := by
  refine (keeps_isThere _).bind fun there => ?_
  cases there with
  | true =>
    refine (keeps_removeExisting _).bind fun _ => ?_
    exact keeps_rename (r.backupName_ne (i + 1))
  | false => exact .pure fun _ hd => hd

theorem keeps_rotateNumbered : Keeps (r.Calm quiet out [] False) r.rotateNumbered := by
  refine (keeps_removeExisting _).bind fun _ => ?_
  refine (Keeps.forM fun i _ => keeps_shiftBackup i).bind fun _ => ?_
  refine (keeps_removeExisting _).bind fun _ => ?_
  exact keeps_rename (r.backupName_ne 1)

theorem keeps_listArchives : Keeps (r.Calm quiet out held present) r.listArchives := by
  unfold listArchives
  split
  next => exact .pure fun _ hd => hd
  next => exact (keeps_query _).attempt.bind fun _ => .pure fun _ hd => hd

theorem keeps_prune : Keeps (r.Calm quiet out [] False) r.prune := by
  refine keeps_listArchives.bind fun names => ?_
  refine Keeps.forM fun name _ => ?_
  exact (keeps_removeFile name).attempt.bind fun _ => .pure fun _ hd => hd

theorem keeps_rotateTimestamp : Keeps (r.Calm quiet out [] False) r.rotateTimestamp := by
  refine Triple.bind (.get fun _ hd => hd) fun d => ?_
  refine Keeps.bind (keeps_rename (r.archiveName_ne d.entries (d.env.clock d.tick))) fun _ => ?_
  exact keeps_prune

theorem keeps_rotateOnDisk : Keeps (r.Calm quiet out [] False) r.rotateOnDisk := by
  refine (keeps_isThere _).bind fun there => ?_
  cases there with
  | false => exact .pure fun _ hd => hd
  | true =>
    simp only [if_true]
    split_ifs
    · exact (keeps_removeFile _).attempt.bind fun _ => .pure fun _ hd => hd
    · exact keeps_rotateTimestamp
    · exact keeps_rotateNumbered

/-- A rotation leaves a log file that is there, when it succeeds. -/
theorem rotate_spec :
    Triple (r.Calm quiet out [] False) r.rotate (fun _ => r.Calm quiet out [] True)
      fun _ => r.Calm quiet out [] False := by
  refine Triple.bind keeps_rotateOnDisk fun _ => ?_
  exact (openFile_spec true fun _ => rfl).weaken (fun _ hd => hd) (fun _ _ hd => hd)
    fun _ _ hd => hd.2.2

/-! ## The operations of a rotator -/

/-- What holds between the calls: an active rotator without an open file has a full log file, and an
open file is there. -/
structure At (r : FallibleRotator) (quiet : Prop) (out held : List UInt8) (s : RotatorState) :
    Prop where
  full : ∀ size, s.inner = .active none size → r.maxBytes ≤ size ∧ 0 < r.maxBytes
  calm : r.Calm quiet out held s.inner.IsOpen s.disk

/-- What a failed call leaves. -/
def AtFailed (r : FallibleRotator) (quiet : Prop) (e : RotatorError) (s : RotatorState) : Prop :=
  e.IsOs ∧ ¬ quiet ∧ ∀ out held, r.At quiet out held s

variable {inner : RotatorMode}

theorem Calm.of_not_quiet {d : Disk LocalTime} (h : r.Calm quiet out held present d) (hq : ¬ quiet)
    (out' held' : List UInt8) : r.Calm quiet out' held' present d :=
  ⟨h.notDirectory, fun hq' => absurd hq' hq, h.present⟩

theorem At.of_open {s : RotatorState} (hopen : s.inner.IsOpen)
    (h : r.Calm quiet out held True s.disk) : r.At quiet out held s := by
  refine ⟨fun size hsize => ?_, h.weaken fun _ => trivial⟩
  rw [hsize] at hopen
  exact absurd hopen Bool.false_ne_true

theorem At.hold {s : RotatorState} (h : r.At quiet out held s) {held' : List UInt8}
    (hpart : held' <:+: held) : r.At quiet out held' s :=
  ⟨h.full, h.calm.hold hpart⟩

/-- A computation on the disk leaves the state under the lock. -/
theorem onDisk_spec (inner : RotatorMode) {α : Type} {m : DiskM α} {C : Disk LocalTime → Prop}
    {Q : α → Disk LocalTime → Prop} {E : RotatorError → Disk LocalTime → Prop}
    (hm : Triple C m Q E) :
    Triple (fun s => s.inner = inner ∧ C s.disk) (onDisk m) (fun a s => s.inner = inner ∧
      Q a s.disk)
      fun e s => s.inner = inner ∧ E e s.disk := by
  refine Triple.onPart fun s hs => ?_
  refine hm.weaken ?_ (fun a d hd => ⟨hs.1, hd⟩) fun e d hd => ⟨hs.1, hd⟩
  rintro d rfl
  exact hs.2

theorem setInner_spec {C : Disk LocalTime → Prop} (inner' : RotatorMode)
    {E : RotatorError → RotatorState → Prop} :
    Triple (fun s => s.inner = inner ∧ C s.disk) (setInner inner')
      (fun _ s => s.inner = inner' ∧ C s.disk) E :=
  Triple.modify fun _ hs => ⟨rfl, hs.2⟩

/-- A fallback opens the log file and writes to it, and leaves the state as it is when it fails. -/
theorem writeFallback_spec (data : List UInt8) :
    Triple (fun s => s.inner = inner ∧ r.Calm quiet out held present s.disk) (r.writeFallback data)
      (fun _ s => (∃ file, s.inner = .fallback file 0) ∧
        r.Calm quiet (out ++ data) data True s.disk)
      fun e s => s.inner = inner ∧ r.Failed quiet out held present e s.disk := by
  refine Triple.bind (onDisk_spec _ (openFile_spec false nofun)) fun _ => ?_
  have hwrite := onDisk_spec inner (tryWrite_spec r quiet out held .append data)
  refine Triple.bind (hwrite.weaken (fun _ hs => hs) (fun _ _ hs => hs)
    fun _ _ hs => hs.2.elim) fun result => ?_
  obtain ⟨file, error⟩ := result
  cases error with
  | none => exact Triple.modify fun s hs => ⟨⟨file, rfl⟩, hs.2⟩
  | some e =>
    refine Triple.throw fun s hs => ?_
    obtain ⟨hinner, hos, hq, hcalm⟩ := hs
    exact ⟨hinner, hos, hq, hcalm.weaken fun _ => trivial⟩

/-- A fallback, from a state in which a write or a rotation has failed. -/
theorem writeFallback_at (quiet present : Prop) (out held : List UInt8)
    (hfull : ∀ size, inner = .active none size → r.maxBytes ≤ size ∧ 0 < r.maxBytes)
    (hpresent : inner.IsOpen → present) (data : List UInt8) :
    Triple (fun s => s.inner = inner ∧ r.Calm quiet out held present s.disk) (r.writeFallback data)
      (fun _ s => r.At quiet (out ++ data) data s) fun e s => AtFailed r quiet e s := by
  refine (writeFallback_spec data).weaken (fun _ hs => hs) (fun _ s hs => ?_) fun e s hs => ?_
  · obtain ⟨⟨file, hfile⟩, hcalm⟩ := hs
    refine .of_open ?_ hcalm
    rw [hfile]
    trivial
  · obtain ⟨rfl, hos, hq, hcalm⟩ := hs
    exact ⟨hos, hq, fun out' held' => ⟨hfull, (hcalm.of_not_quiet hq out' held').weaken hpresent⟩⟩

/-- A write in the active mode. When it fails, the fallback writes `rest`. -/
theorem writeActive_spec (file : WriteMode) (size : ℕ) (out held out' held' : List UInt8)
    {data rest : List UInt8} {next : WriteMode → RotatorM Unit}
    (hnext : ∀ file, Triple
      (fun s => s.inner = .active (some file) size ∧ r.Calm quiet (out ++ data) data True s.disk)
      (next file) (fun _ => r.At quiet out' held') (AtFailed r quiet)) :
    Triple (fun s => s.inner = .active (some file) size ∧ r.Calm quiet out held True s.disk)
      (r.writeActive (some file) size data rest next) (fun _ => r.At quiet out' held')
      (AtFailed r quiet) := by
  have hwrite := onDisk_spec (.active (some file) size) (tryWrite_spec r quiet out held file data)
  refine Triple.bind (hwrite.weaken (fun _ hs => hs) (fun _ _ hs => hs)
    fun _ _ hs => hs.2.elim) fun result => ?_
  obtain ⟨file, error⟩ := result
  cases error with
  | none =>
    exact Triple.bind (setInner_spec (C := r.Calm quiet (out ++ data) data True) _)
      fun _ => hnext file
  | some e =>
    refine Triple.bind (setInner_spec (C := r.Failed quiet out held True e) _) fun _ => ?_
    refine Triple.of_forall_eq fun s hs => ?_
    obtain ⟨hinner, hos, hq, hcalm⟩ := hs
    have hfallback := @writeFallback_at r (.active (some file) size) quiet True out held nofun
      (fun _ => trivial) rest
    refine hfallback.weaken ?_ (fun _ s hs => ?_) fun _ _ hs => hs
    · rintro t rfl
      exact ⟨hinner, hcalm⟩
    · exact ⟨hs.full, hs.calm.of_not_quiet hq out' held'⟩

/-- The log file is archived; when that fails, the fallback writes `data`. -/
theorem reopen_spec {size : ℕ} {data piece : List UInt8} {next : RotatorM Unit}
    (hfull : r.maxBytes ≤ size) (hpos : 0 < r.maxBytes) (hpiece : piece <:+ data)
    (hnext : Triple
      (fun s => s.inner = .active (some (.seek 0)) 0 ∧ r.Calm quiet out [] True s.disk)
      next (fun _ => r.At quiet (out ++ data) piece) (AtFailed r quiet)) :
    Triple (fun s => r.Calm quiet out [] False s.disk) (r.reopen size data next)
      (fun _ => r.At quiet (out ++ data) piece) (AtFailed r quiet) := by
  refine Triple.bind
    (R := fun _ s => s.inner = .active none size ∧ r.Calm quiet out [] False s.disk)
    (.modify fun _ hs => ⟨rfl, hs⟩) fun _ => ?_
  refine Triple.bind (Triple.attempt (Q := fun result s => s.inner = .active none size ∧
    match result with
    | .ok _ => r.Calm quiet out [] True s.disk
    | .error _ => r.Calm quiet out [] False s.disk) (onDisk_spec _ rotate_spec)) fun result => ?_
  match result with
  | .ok () => exact Triple.bind (setInner_spec (.active (some (.seek 0)) 0)) fun _ => hnext
  | .error e =>
    refine (writeFallback_at quiet False out [] (fun size' h => ?_) (fun h => ?_) data).weaken
      (fun _ hs => hs) (fun _ s hs => ⟨hs.full, hs.calm.hold hpiece.isInfix⟩) fun _ _ hs => hs
    · obtain ⟨-, rfl⟩ := RotatorMode.active.inj h
      exact ⟨hfull, hpos⟩
    · exact absurd h Bool.false_ne_true

/-- The loop of `write_all` terminates. -/
theorem writeLoop_spec (hpos : 0 < r.maxBytes) {fuel : ℕ} {file : Option WriteMode} {size : ℕ}
    {data : List UInt8}
    (hfuel : 2 * data.length + (if r.maxBytes ≤ size then 1 else 0) < fuel) :
    Triple (fun s => s.inner = .active file size ∧ r.At quiet out [] s)
      (r.writeLoop fuel file size data)
      (fun _ => r.At quiet (out ++ data) (r.lastPiece size data)) (AtFailed r quiet) := by
  induction fuel generalizing file size data out with
  | zero => omega
  | succ fuel ih =>
    -- The state is that of the loop, and there is an open file unless the log file is full.
    refine Triple.of_forall_eq fun s hs => ?_
    obtain ⟨hinner, hat⟩ := hs
    have hopened : size < r.maxBytes → ∃ f, file = some f := by
      intro hlt
      match file with
      | some f => exact ⟨f, rfl⟩
      | none => exact absurd (hat.full size hinner).1 (by omega)
    have hfresh : ∀ data : List UInt8, 2 * data.length < fuel → ∀ out,
        Triple (fun s => s.inner = .active (some (.seek 0)) 0 ∧ r.Calm quiet out [] True s.disk)
          (r.writeLoop fuel (some (.seek 0)) 0 data)
          (fun _ => r.At quiet (out ++ data) (r.lastPiece 0 data))
          (AtFailed r quiet) := fun data hdata out => by
      refine (ih (by rw [if_neg (by omega)]; exact hdata)).weaken (fun s hs => ?_)
        (fun _ _ hs => hs) fun _ _ hs => hs
      refine ⟨hs.1, .of_open ?_ hs.2⟩
      rw [hs.1]
      rfl
    rw [writeLoop]
    split
    next hempty =>
      rw [List.isEmpty_iff] at hempty
      subst hempty
      rw [List.append_nil]
      refine Triple.pure ?_
      rintro t rfl
      exact hat.hold (r.lastPiece_suffix size []).isInfix
    next hdata =>
      have hlen : 0 < data.length := List.length_pos_iff.mpr fun h => hdata (by rw [h]; rfl)
      split
      next hover =>
        rw [r.lastPiece_of_over hpos hover]
        simp only
        split
        next hleft =>
          -- The rest of the room is filled first.
          rw [if_neg (by omega)] at hfuel
          obtain ⟨f, rfl⟩ := hopened (by omega)
          have hsplit : out ++ data.take (r.maxBytes - size) ++ data.drop (r.maxBytes - size) =
              out ++ data := by rw [List.append_assoc, List.take_append_drop]
          refine Triple.weaken (writeActive_spec f size out [] (out ++ data) _ fun file => ?_) ?_
            (fun _ _ hs => hs) fun _ _ hs => hs
          · have hrest := hfresh (data.drop (r.maxBytes - size))
              (by rw [List.length_drop]; omega) (out ++ data.take (r.maxBytes - size))
            rw [← hsplit]
            exact (reopen_spec (by omega) hpos (r.lastPiece_suffix 0 _) hrest).weaken
              (fun _ hs => hs.2.forget) (fun _ _ hs => hs) fun _ _ hs => hs
          · rintro t rfl
            refine ⟨hinner, hat.calm.weaken fun _ => ?_⟩
            rw [hinner]
            rfl
        next hnone =>
          have hroom : r.maxBytes - size = 0 := by omega
          rw [if_pos (by omega)] at hfuel
          rw [hroom, List.drop_zero]
          refine (reopen_spec (by omega) hpos (r.lastPiece_suffix 0 data)
            (hfresh data (by omega) out)).weaken ?_ (fun _ _ hs => hs) fun _ _ hs => hs
          rintro t rfl
          exact hat.calm.forget
      next hfits =>
        obtain ⟨f, rfl⟩ := hopened (by omega)
        rw [r.lastPiece_of_fits (.inr (by omega))]
        refine Triple.weaken (writeActive_spec f size out [] (out ++ data) data fun file => ?_) ?_
          (fun _ _ hs => hs) fun _ _ hs => hs
        · refine Triple.modify fun s hs => .of_open rfl hs.2
        · rintro t rfl
          refine ⟨hinner, hat.calm.weaken fun _ => ?_⟩
          rw [hinner]
          rfl

theorem keeps_fileSize : Triple (r.Calm quiet out held present) r.fileSize
    (fun _ => r.Calm quiet out held present) fun _ _ => False :=
  Triple.bind (Triple.attempt (Q := fun _ => r.Calm quiet out held present) (keeps_query _))
    fun _ => .pure fun _ hd => hd

/-- A rotator starts in the active mode with an open file. -/
theorem buildInner_spec : Triple (r.Calm quiet out held present) r.buildInner
    (fun inner d => (∃ size, inner = .active (some .append) size) ∧ r.Calm quiet out held True d)
    (r.Failed quiet out held present) := by
  refine Triple.bind (openFile_spec false nofun) fun _ => ?_
  refine Triple.bind (R := fun _ => r.Calm quiet out held True) ?_
    fun size => .pure fun d hd => ⟨⟨size, rfl⟩, hd⟩
  unfold initialSize
  split
  · exact keeps_fileSize.weaken (fun _ hd => hd) (fun _ _ hd => hd) fun _ _ hd => hd.elim
  · exact .pure fun d hd => hd

/-- A new state of the rotator is built on the disk. -/
theorem attempt_buildInner_spec (r : FallibleRotator) (quiet present : Prop)
    (out held : List UInt8) (inner : RotatorMode) :
    Triple (fun s => s.inner = inner ∧ r.Calm quiet out held present s.disk)
      (attempt (onDisk r.buildInner))
      (fun result s => match result with
        | .ok inner =>
          (∃ size, inner = .active (some .append) size) ∧ r.Calm quiet out held True s.disk
        | .error _ => s.inner = inner ∧ ¬ quiet ∧ r.Calm quiet out held present s.disk)
      fun _ _ => False :=
  Triple.attempt ((onDisk_spec _ buildInner_spec).weaken (fun _ hs => hs) (fun _ _ hs => hs.2)
    fun _ _ hs => ⟨hs.1, hs.2.2⟩)

/-- What `recover` leaves of the mode. -/
def AfterRecover (before after : RotatorMode) : Prop :=
  match before with
  | .active _ _ => after = before
  | .fallback file n => n + 1 < 50 → after = .fallback file (n + 1)

theorem recover_spec {s : RotatorState} (hs : r.At quiet out held s) :
    Triple (fun t => t = s) r.recover
      (fun _ t => AfterRecover s.inner t.inner ∧ r.At quiet out held t) fun _ _ => False := by
  refine Triple.bind (.get (Q := fun t s' => t = s ∧ s' = s) fun t ht => ⟨ht, ht⟩) fun t => ?_
  refine Triple.of_forall_eq fun s' hs' => ?_
  obtain ⟨rfl, rfl⟩ := hs'
  cases hinner : s'.inner with
  | active file size =>
    refine Triple.pure ?_
    rintro _ rfl
    exact ⟨hinner, hs⟩
  | fallback file n =>
    have hopen : ∀ (n : ℕ) (t : RotatorState), t = s' →
        r.At quiet out held { t with inner := .fallback file n } := by
      rintro n t rfl
      refine .of_open trivial (hs.calm.weaken fun _ => ?_)
      rw [hinner]
      trivial
    simp only
    split
    next hmany =>
      have hagain : ∀ inner, AfterRecover (.fallback file n) inner := fun inner hfew => by omega
      have hbuild := attempt_buildInner_spec r quiet True out held (.fallback file n)
      refine Triple.bind (hbuild.weaken ?_ (fun _ _ hs => hs) fun _ _ hs => hs) fun result => ?_
      · rintro _ rfl
        exact ⟨hinner, hs.calm.weaken fun _ => by rw [hinner]; trivial⟩
      · cases result with
        | ok recovered =>
          refine Triple.modify fun s' hs' => ?_
          obtain ⟨⟨size, rfl⟩, hcalm⟩ := hs'
          exact ⟨hagain _, .of_open rfl hcalm⟩
        | error e => exact Triple.modify fun s' hs' => ⟨hagain _, .of_open trivial hs'.2.2⟩
    next => exact Triple.modify fun t ht => ⟨fun _ => rfl, hopen (n + 1) t ht⟩

/-- `write_all` succeeds when no operation fails any more; then all bytes are written, and the log
file has those behind the last rotation. Otherwise its error is that of an operation. -/
theorem writeAll_spec {s : RotatorState} (hs : r.At quiet out [] s) (data : List UInt8) :
    Triple (fun t => t = s) (r.writeAll data)
      (fun _ t => ∃ inner, AfterRecover s.inner inner ∧
        r.At quiet (out ++ data) (r.pieceIn inner data) t)
      (AtFailed r quiet) := by
  refine Triple.bind ((recover_spec hs).weaken (fun _ hs => hs) (fun _ _ hs => hs)
    fun _ _ hs => hs.elim) fun _ => ?_
  refine Triple.of_forall_eq fun s hs => ?_
  obtain ⟨hafter, hs⟩ := hs
  refine Triple.bind (.get (Q := fun t s' => t = s ∧ s' = s) fun t ht => ⟨ht, ht⟩) fun t => ?_
  refine Triple.of_forall_eq fun s' hs' => ?_
  obtain ⟨rfl, rfl⟩ := hs'
  refine Triple.weaken (Q := fun _ t => r.At quiet (out ++ data) (r.pieceIn s'.inner data) t) ?_
    (fun _ hs => hs) (fun _ t ht => ⟨s'.inner, hafter, ht⟩) fun _ _ ht => ht
  cases hinner : s'.inner with
  | active file size =>
    simp only
    split
    next hzero =>
      obtain ⟨f, rfl⟩ : ∃ f, file = some f := by
        match file with
        | some f => exact ⟨f, rfl⟩
        | none => exact absurd (hs.full size hinner).2 (by omega)
      rw [pieceIn, r.lastPiece_of_fits (.inl hzero)]
      refine Triple.weaken (writeActive_spec f size out [] (out ++ data) data fun file =>
        Triple.modify fun s hs => .of_open rfl hs.2) ?_ (fun _ _ hs => hs) fun _ _ hs => hs
      rintro _ rfl
      exact ⟨hinner, hs.calm.weaken fun _ => by rw [hinner]; rfl⟩
    next hpos =>
      have hfuel : 2 * data.length + (if r.maxBytes ≤ size then 1 else 0) < passes data := by
        unfold passes
        split <;> omega
      refine (writeLoop_spec (by omega) hfuel).weaken ?_ (fun _ _ hs => hs) fun _ _ hs => hs
      rintro _ rfl
      exact ⟨hinner, hs⟩
  | fallback file n =>
    have hwrite := onDisk_spec (.fallback file n) (tryWrite_spec r quiet out [] file data)
    refine Triple.bind (hwrite.weaken ?_ (fun _ _ hs => hs) fun _ _ hs => hs.2.elim)
      fun result => ?_
    · rintro _ rfl
      exact ⟨hinner, hs.calm.weaken fun _ => by rw [hinner]; trivial⟩
    · obtain ⟨file', error⟩ := result
      cases error with
      | none =>
        refine Triple.bind (setInner_spec (C := r.Calm quiet (out ++ data) data True) _) fun _ => ?_
        refine Triple.pure fun s hs => .of_open ?_ hs.2
        rw [hs.1]
        trivial
      | some e =>
        refine Triple.bind (setInner_spec (C := r.Failed quiet out [] True e) _) fun _ => ?_
        refine Triple.of_forall_eq fun s hs => ?_
        obtain ⟨hinner, -, hq, hcalm⟩ := hs
        have hfallback := @writeFallback_at r (.fallback file' n) quiet True out [] nofun
          (fun _ => trivial) data
        refine hfallback.weaken ?_ (fun _ s hs => ?_) fun _ _ hs => hs
        · rintro _ rfl
          exact ⟨hinner, hcalm⟩
        · exact ⟨hs.full, hs.calm.of_not_quiet hq _ _⟩

/-- A computation on the disk alone, between the calls. -/
theorem onDisk_at {α : Type} {m : DiskM α} {s : RotatorState} {present' : Prop}
    (hs : r.At quiet out held s)
    (hm : Triple (r.Calm quiet out held s.inner.IsOpen) m (fun _ => r.Calm quiet out held present')
      (r.Failed quiet out held s.inner.IsOpen)) :
    Triple (fun t => t = s) (onDisk m)
      (fun _ t => t.inner = s.inner ∧ r.Calm quiet out held present' t.disk)
      (AtFailed r quiet) := by
  refine (onDisk_spec s.inner hm).weaken ?_ (fun _ _ ht => ht) fun e t ht => ?_
  · rintro _ rfl
    exact ⟨rfl, hs.calm⟩
  · obtain ⟨hinner, hos, hq, hcalm⟩ := ht
    refine ⟨hos, hq, fun out' held' => ⟨?_, ?_⟩⟩ <;> rw [hinner]
    · exact hs.full
    · exact hcalm.of_not_quiet hq out' held'

/-- `flush` leaves the state. -/
theorem flush_spec :
    Triple (r.At quiet out held) flush (fun _ => r.At quiet out held) (AtFailed r quiet) := by
  refine Triple.of_forall_eq fun s hs => ?_
  refine Triple.bind (.get (Q := fun t s' => t = s ∧ s' = s) fun t ht => ⟨ht, ht⟩) fun t => ?_
  refine Triple.of_forall_eq fun s' hs' => ?_
  obtain ⟨rfl, rfl⟩ := hs'
  have hquery : Triple (fun t => t = s') (onDisk (Disk.query RotatorError.os fun _ => ()))
      (fun _ => r.At quiet out held) (AtFailed r quiet) := by
    refine (onDisk_at hs (query_spec fun _ => ())).weaken (fun _ ht => ht) (fun _ t ht => ?_)
      fun _ _ ht => ht
    obtain ⟨hinner, hcalm⟩ := ht
    refine ⟨?_, ?_⟩ <;> rw [hinner]
    · exact hs.full
    · exact hcalm
  split
  · refine Triple.pure ?_
    rintro _ rfl
    exact hs
  · exact hquery
  · exact hquery

/-- `clear` empties the log file. -/
theorem clear_spec :
    Triple (r.At quiet out []) r.clear (fun _ => r.At quiet out []) (AtFailed r quiet) := by
  refine Triple.of_forall_eq fun s hs => ?_
  refine Triple.bind (onDisk_at hs (openFile_spec true fun _ => rfl)) fun _ => ?_
  have hbuild := attempt_buildInner_spec r quiet True out [] s.inner
  refine Triple.bind (hbuild.weaken (fun _ ht => ht) (fun _ _ ht => ht) fun _ _ ht => ht.elim)
    fun result => ?_
  cases result with
  | ok inner =>
    refine Triple.modify fun t ht => ?_
    obtain ⟨⟨size, rfl⟩, hcalm⟩ := ht
    exact .of_open rfl hcalm
  | error e =>
    refine Triple.of_forall_eq fun t ht => ?_
    obtain ⟨hinner, hq, hcalm⟩ := ht
    have hat : r.At quiet out [] t := by
      refine ⟨?_, hcalm.weaken fun _ => trivial⟩
      rw [hinner]
      exact hs.full
    exact Triple.bind (onDisk_at hat (openFile_spec false nofun)) fun _ =>
      .modify fun _ hu => .of_open trivial hu.2

/-- Every call keeps what holds between the calls, and fails with the error of an operation only. -/
theorem call_spec (c : Call) :
    Triple (r.At False [] []) (r.call c) (fun _ => r.At False [] []) fun e s =>
    e.IsOs ∧ r.At False [] [] s := by
  have hany : ∀ {out held s}, r.At False out held s → r.At False [] [] s := fun hs =>
    ⟨hs.full, hs.calm.of_not_quiet id [] []⟩
  cases c with
  | writeAll data =>
    refine Triple.of_forall_eq fun s hs => ?_
    exact (writeAll_spec hs data).weaken (fun _ hs => hs)
      (fun _ _ ⟨_, _, hs⟩ => hany hs) fun _ _ hs => ⟨hs.1, hs.2.2 [] []⟩
  | flush =>
    exact flush_spec.weaken (fun _ hs => hs) (fun _ _ hs => hs) fun _ _ hs => ⟨hs.1, hs.2.2 [] []⟩
  | clear =>
    exact clear_spec.weaken (fun _ hs => hs) (fun _ _ hs => hs) fun _ _ hs => ⟨hs.1, hs.2.2 [] []⟩

/-! ## Runs -/

/-- A rotator that was built, and its calls. -/
def system (r : FallibleRotator) : TransitionSystem RotatorState Call where
  init s := ∃ d, r.buildInner d = .ok s.inner s.disk
  step s c s' := s' = finalState (r.call c s)

/-- A rotator that was built has a log file. -/
theorem at_of_buildInner {d : Disk LocalTime} {s : RotatorState}
    (h : r.buildInner d = .ok s.inner s.disk) : r.At False [] [] s := by
  have hdirectory : d.entries.lookup r.fileName ≠ some .directory := by
    intro hdir
    have herror : r.buildInner d = .error (.os ((d.env.fault d.tick).elim "Is a directory"
        DiskFault.message)) { d with tick := d.tick + 1 } := by
      simp only [buildInner, openFile, Disk.syscall, bind, EStateM.bind, Directory.openFile, hdir]
      cases d.env.fault d.tick with
      | none => rfl
      | some f => rfl
    rw [herror] at h
    cases h
  have hspec := @buildInner_spec r False False [] [] d ⟨hdirectory, False.elim, False.elim⟩
  rw [h] at hspec
  obtain ⟨⟨size, hinner⟩, hcalm⟩ := hspec
  refine .of_open ?_ hcalm
  rw [hinner]
  rfl

theorem at_of_reachable {s : RotatorState} (hs : r.system.Reachable s) : r.At False [] [] s := by
  refine hs.invariant (fun s hinit => ?_) fun s c t _ hs _ hstep => ?_
  · obtain ⟨d, hd⟩ := hinit
    exact at_of_buildInner hd
  · obtain rfl : t = finalState (r.call c s) := hstep
    have hkeeps : Keeps (r.At False [] []) (r.call c) :=
      (call_spec c).weaken (fun _ hs => hs) (fun _ _ hs => hs) fun _ _ hs => hs.2
    exact hkeeps.finalState hs

/-- Without an open file the next write goes to the rotation, and then on with the new file. -/
theorem writeAll_of_closed {s : RotatorState} {size : ℕ} {data : List UInt8}
    (hinner : s.inner = .active none size) (hfull : r.maxBytes ≤ size) (hpos : 0 < r.maxBytes)
    (hdata : data ≠ []) :
    r.writeAll data s =
      r.reopen size data (r.writeLoop (2 * data.length + 1) (some (.seek 0)) 0 data) s := by
  have hrecover : r.recover s = .ok () s := by
    simp only [recover, bind, EStateM.bind, FallibleState.get_apply, hinner]
    rfl
  have hlen := List.length_pos_iff.mpr hdata
  have hempty : data.isEmpty = false := List.isEmpty_eq_false_iff.mpr hdata
  simp only [writeAll, bind, EStateM.bind, hrecover, FallibleState.get_apply,
    hinner, if_neg hpos.ne', passes]
  rw [writeLoop, hempty, if_neg Bool.false_ne_true, if_pos (by omega), if_neg (by omega)]

/-- A rotator recovers from any failures: in every state that calls lead to, an active rotator
without an open file has a full log file, so that the next write goes to the rotation; every call
succeeds or has the error of an operation on files; and when no operation fails any more, a write
succeeds, each of its bytes is found in the file right after it was written, and the log file has
those behind the last rotation in it, which are some of them. These are all bytes when there is no
limit or they fit, or when the write is made in the fallback mode. -/
theorem recovers {s : RotatorState} (hs : r.system.Reachable s) :
    (∀ size, s.inner = .active none size → r.maxBytes ≤ size ∧ 0 < r.maxBytes ∧
      ∀ data ≠ [], r.writeAll data s =
        r.reopen size data (r.writeLoop (2 * data.length + 1) (some (.seek 0)) 0 data) s) ∧
    (∀ c, (∃ s', r.call c s = .ok () s') ∨ ∃ message s', r.call c s = .error (.os message) s') ∧
    (s.disk.Quiet → ∀ data, ∃ s' inner, r.writeAll data s = .ok () s' ∧
      s'.disk.out = s.disk.out ++ data ∧ AfterRecover s.inner inner ∧
      r.pieceIn inner data <:+: s'.disk.entries.contents r.fileName ∧
      (data ≠ [] → r.pieceIn inner data ≠ [])) := by
  have hat := at_of_reachable hs
  refine ⟨fun size hinner => ?_, fun c => ?_, fun hquiet data => ?_⟩
  · obtain ⟨hfull, hpos⟩ := hat.full size hinner
    exact ⟨hfull, hpos, fun data hdata => writeAll_of_closed hinner hfull hpos hdata⟩
  · have hcall := call_spec c s hat
    generalize r.call c s = result at hcall
    match result with
    | .ok () s' => exact .inl ⟨s', rfl⟩
    | .error e s' =>
      obtain ⟨⟨message, rfl⟩, -⟩ := hcall
      exact .inr ⟨message, s', rfl⟩
  · have hcalm : r.At True s.disk.out [] s :=
      ⟨hat.full, hat.calm.notDirectory, fun _ => ⟨hquiet, rfl, List.nil_infix⟩, hat.calm.present⟩
    have hwrite := writeAll_spec hcalm data s rfl
    generalize r.writeAll data s = result at hwrite
    match result with
    | .ok () s' =>
      obtain ⟨inner, hafter, hwritten⟩ := hwrite
      obtain ⟨-, hout, hheld⟩ := hwritten.calm.quiet trivial
      exact ⟨s', inner, rfl, hout, hafter, hheld, r.pieceIn_ne_nil inner⟩
    | .error e s' => exact absurd trivial hwrite.2.1

/-- `recovers` for a disk that is full when the log file is created anew and when the fallback opens
it: the next write is in the file. -/
theorem recovers_of_full_disk :
    let r : FallibleRotator := ⟨"/var/log", "app.log", 1, 0, false⟩
    let env : DiskEnv LocalTime :=
      ⟨fun n => if n = 4 ∨ n = 5 then some ⟨"No space left", 0⟩ else none,
      fun _ => default, fun _ => .stored⟩
    let d : Disk LocalTime := ⟨env, 2, (∅ : Directory).insert "app.log" (.file []), []⟩
    let s : RotatorState := finalState (r.call (.writeAll [1, 2]) ⟨.active (some .append) 0, d⟩)
    s.inner = .active none 1 ∧ ∃ s', r.writeAll [3] s = .ok () s' ∧ s'.disk.out = [1] ++ [3] ∧
      [3] <:+: s'.disk.entries.contents "app.log" := by
  intro r env d s
  have hinit : r.system.Reachable ⟨.active (some .append) 0, d⟩ := .init ⟨⟨env, 0, ∅, []⟩, rfl⟩
  have hs : r.system.Reachable s := hinit.step trivial rfl
  have hquiet : s.disk.Quiet := fun n hn => by
    have htick : s.disk.tick = 6 := rfl
    rw [htick] at hn
    exact if_neg (by omega)
  obtain ⟨s', inner, hwrite, hout, hafter, hpiece, -⟩ := (recovers hs).2.2 hquiet [3]
  obtain rfl : inner = .active none 1 := hafter
  have hall : r.pieceIn (.active none 1) [3] = [3] := by decide
  rw [hall] at hpiece
  exact ⟨rfl, s', hwrite, hout, hpiece⟩

end FallibleRotator

end Rsupervisord
