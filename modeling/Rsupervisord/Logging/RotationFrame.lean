import Rsupervisord.Logging.Archives

/-!
# The files that a rotation leaves alone

A rotation with numbers leaves the files of other programs alone. One with timestamps removes
whatever has too many greater names behind it among the files that begin with the name of the log
file.
-/

namespace Rsupervisord

open FallibleState

namespace FallibleRotator

variable (r : FallibleRotator)

/-- The names that a rotator gives: the log file and its archives. -/
def OwnName (name : String) : Prop :=
  name = r.fileName ∨
    if r.timestampSuffix then
      (∃ t, name = r.timestampName t) ∨ ∃ t n, 1 ≤ n ∧ name = r.candidateName t n
    else ∃ i, 1 ≤ i ∧ i ≤ r.backups ∧ name = r.backupName i

/-- The files with other names are those of `entries`. -/
def LeavesOthers (entries : Directory) (d : Disk LocalTime) : Prop :=
  ∀ name, ¬ r.OwnName name → d.entries.lookup name = entries.lookup name

/-- When a rotation with timestamps removes files, each file with another name that begins with that
of the log file and a dot has fewer than `backups` such files behind it in the order of the
names. -/
def OthersLast (entries : Directory) (now : LocalTime) : Prop :=
  r.timestampSuffix = true → 0 < r.backups → r.parent ≠ "" → entries.isThere r.fileName = true →
    ∀ e, entries.rename r.fileName (r.archiveName entries now) = .ok e →
      ∀ name ∈ r.timestampFiles e .stored, ¬ r.OwnName name →
        (r.timestampFiles e .stored).countP (name < ·) < r.backups

variable {r} {entries : Directory} {now : LocalTime} {name src dst : String}

theorem ownName_fileName : r.OwnName r.fileName := .inl rfl

theorem ownName_backupName {i : ℕ} (hmode : r.timestampSuffix = false) (hpos : 1 ≤ i)
    (hle : i ≤ r.backups) : r.OwnName (r.backupName i) := by
  refine .inr ?_
  rw [hmode, if_neg Bool.false_ne_true]
  exact ⟨i, hpos, hle, rfl⟩

theorem ownName_archiveName (hmode : r.timestampSuffix = true) (e : Directory) (t : LocalTime) :
    r.OwnName (r.archiveName e t) := by
  refine .inr ?_
  rw [hmode, if_pos rfl]
  obtain h | ⟨n, hn, h⟩ := r.archiveName_eq e t
  · exact .inl ⟨t, h⟩
  · exact .inr ⟨t, n, hn, h⟩

/-! ## Operations on own files -/

theorem leavesOthers_syscall {act : Directory → Except String Directory}
    (hact : ∀ e e', act e = .ok e' → ∀ name, ¬ r.OwnName name → e'.lookup name = e.lookup name) :
    Keeps (r.LeavesOthers entries) (Disk.syscall RotatorError.os act) := by
  refine Disk.keeps_syscall (I := fun e => ∀ name, ¬ r.OwnName name →
    e.lookup name = entries.lookup name) fun e e' he hresult name hname => ?_
  rw [hact e e' hresult name hname]
  exact he name hname

theorem leavesOthers_openFile (h : r.OwnName name) (truncate : Bool) :
    Keeps (r.LeavesOthers entries) (openFile name truncate) := by
  refine leavesOthers_syscall fun e e' hopen n hn => ?_
  obtain ⟨node, -, rfl⟩ := Directory.openFile_eq_ok hopen
  exact AList.lookup_insert_ne fun hname => hn (hname ▸ h)

theorem leavesOthers_removeFile (h : r.OwnName name) :
    Keeps (r.LeavesOthers entries) (removeFile name) := by
  refine leavesOthers_syscall fun e e' hremove n hn => ?_
  rw [Directory.removeFile_eq_ok hremove]
  exact AList.lookup_erase_ne fun hname => hn (hname ▸ h)

theorem leavesOthers_rename (hsrc : r.OwnName src) (hdst : r.OwnName dst) :
    Keeps (r.LeavesOthers entries) (rename src dst) :=
  leavesOthers_syscall fun _ _ hrename _ hn =>
    Directory.lookup_rename hrename (fun h => hn (h ▸ hsrc)) fun h => hn (h ▸ hdst)

theorem leavesOthers_removeExisting (h : r.OwnName name) :
    Keeps (r.LeavesOthers entries) (removeExisting name) := by
  refine (keeps_isThere name).bind fun there => ?_
  match there with
  | true => exact leavesOthers_removeFile h
  | false => exact .pure fun _ hd => hd

/-- Removing own files, whether it succeeds or not. -/
theorem leavesOthers_removeFiles {l : List String} (h : ∀ name ∈ l, r.OwnName name) :
    Keeps (r.LeavesOthers entries)
      (forM l fun name => do
        let _ ← attempt (removeFile name)) := by
  refine Keeps.forM fun name hname => ?_
  exact (leavesOthers_removeFile (h name hname)).attempt.bind fun _ => .pure fun _ hd => hd

/-! ## Rotations -/

theorem leavesOthers_rotateNumbered (hmode : r.timestampSuffix = false) (hpos : 0 < r.backups) :
    Keeps (r.LeavesOthers entries) r.rotateNumbered := by
  have hown : ∀ i, 1 ≤ i → i ≤ r.backups → r.OwnName (r.backupName i) :=
    fun i hi hle => ownName_backupName hmode hi hle
  refine (leavesOthers_removeExisting (hown _ hpos le_rfl)).bind fun _ => ?_
  refine (Keeps.forM fun i hi => ?_).bind fun _ => ?_
  · rw [List.mem_reverse, List.mem_range'_1] at hi
    refine (keeps_isThere _).bind fun there => ?_
    match there with
    | true =>
      refine (leavesOthers_removeExisting (hown (i + 1) (by omega) (by omega))).bind fun _ => ?_
      exact leavesOthers_rename (hown i hi.1 (by omega)) (hown (i + 1) (by omega) (by omega))
    | false => exact .pure fun _ hd => hd
  · refine (leavesOthers_removeExisting (hown 1 le_rfl hpos)).bind fun _ => ?_
    exact leavesOthers_rename ownName_fileName (hown 1 le_rfl hpos)

/-- What is listed are files that are taken for archives, or nothing. -/
theorem listArchives_spec (e : Directory) :
    Triple (fun d => d.entries = e) r.listArchives
      (fun names d => d.entries = e ∧
        (names = [] ∨ r.parent ≠ "" ∧ ∃ o, names = r.timestampFiles e o))
      fun _ _ => False := by
  unfold listArchives
  split
  next => exact .pure fun _ hd => ⟨hd, .inl rfl⟩
  next hparent =>
    refine Triple.bind (R := fun names d => d.entries = e ∧
      (names.toOption.getD [] = [] ∨ ∃ o, names.toOption.getD [] = r.timestampFiles e o))
      (Triple.attempt ?_) fun names => .pure fun _ hd =>
      ⟨hd.1, hd.2.imp_right fun ho => ⟨hparent, ho⟩⟩
    rintro d rfl
    unfold Disk.query
    match d.env.fault d.tick with
    | some f => exact ⟨rfl, .inl rfl⟩
    | none => exact ⟨rfl, .inr ⟨d.env.order d.tick, rfl⟩⟩

/-- Files that are last in the order of the names are not removed. -/
theorem leavesOthers_prune {e : Directory}
    (he : ∀ name, ¬ r.OwnName name → e.lookup name = entries.lookup name)
    (hlast : r.parent ≠ "" → ∀ name ∈ r.timestampFiles e .stored, ¬ r.OwnName name →
      (r.timestampFiles e .stored).countP (name < ·) < r.backups) :
    Triple (fun d => d.entries = e) r.prune (fun _ => r.LeavesOthers entries)
      fun _ => r.LeavesOthers entries := by
  refine (listArchives_spec e).weaken (fun _ hd => hd) (fun _ _ hd => hd) (fun _ _ hd => hd.elim)
    |>.bind fun names => ?_
  refine Triple.of_forall_eq fun d hd => ?_
  obtain ⟨rfl, hnames⟩ := hd
  refine (leavesOthers_removeFiles fun name hname => ?_).weaken ?_ (fun _ _ hd => hd) fun _ _
    hd => hd
  · obtain rfl | ⟨hparent, o, rfl⟩ := hnames
    · exact absurd hname (by simp [List.leastBut])
    · rw [mem_leastBut_timestampFiles hparent fun _ => rfl, mem_pruned] at hname
      by_contra hother
      exact absurd (hlast hparent name hname.2.1 hother) (not_lt.mpr hname.2.2)
  · rintro _ rfl
    exact he

theorem leavesOthers_rotateTimestamp (hmode : r.timestampSuffix = true) (hpos : 0 < r.backups)
    (hthere : entries.isThere r.fileName = true) (h : r.OthersLast entries now) :
    Triple (fun d => d.entries = entries ∧ d.env.clock d.tick = now) r.rotateTimestamp
      (fun _ => r.LeavesOthers entries) fun _ => r.LeavesOthers entries := by
  rintro d ⟨rfl, rfl⟩
  have hsame : r.LeavesOthers d.entries d := fun _ _ => rfl
  simp only [rotateTimestamp, bind, EStateM.bind, FallibleState.get_apply, rename,
    Disk.syscall]
  cases d.env.fault d.tick with
  | some f => exact hsame
  | none =>
    cases hrename : d.entries.rename r.fileName (r.archiveName d.entries (d.env.clock d.tick)) with
    | error message => exact hsame
    | ok e =>
      refine leavesOthers_prune (fun name hname => ?_) (fun hparent => ?_) _ rfl
      · refine Directory.lookup_rename hrename (fun hn => ?_) fun hn => ?_
        · exact hname (hn ▸ ownName_fileName)
        · exact hname (hn ▸ ownName_archiveName hmode _ _)
      · exact h hmode hpos hparent hthere e hrename

theorem leavesOthers_rotateOnDisk (h : r.OthersLast entries now) :
    Triple (fun d => d.entries = entries ∧ d.env.clock d.tick = now) r.rotateOnDisk
      (fun _ => r.LeavesOthers entries) fun _ => r.LeavesOthers entries := by
  have hsame : ∀ d : Disk LocalTime, d.entries = entries ∧ d.env.clock d.tick = now →
      r.LeavesOthers entries d := by
    rintro d ⟨rfl, -⟩ _ _
    rfl
  refine Triple.bind (R := fun there d => there = entries.isThere r.fileName ∧
    d.entries = entries ∧ d.env.clock d.tick = now) ?_ fun there => ?_
  · rintro d ⟨rfl, hnow⟩
    exact ⟨rfl, rfl, hnow⟩
  · refine Triple.of_forall_eq fun d hd => ?_
    obtain ⟨rfl, hd⟩ := hd
    split_ifs with hthere hbackups hmode
    · refine Triple.weaken (P := r.LeavesOthers entries) ?_ ?_ (fun _ _ hd => hd) fun _ _ hd => hd
      · exact (leavesOthers_removeFile ownName_fileName).attempt.bind fun _ => .pure fun _ hd => hd
      · rintro _ rfl
        exact hsame _ hd
    · refine (leavesOthers_rotateTimestamp hmode (Nat.pos_of_ne_zero hbackups) hthere h).weaken ?_
        (fun _ _ hd => hd) fun _ _ hd => hd
      rintro _ rfl
      exact hd
    · refine Triple.weaken (P := r.LeavesOthers entries)
        (leavesOthers_rotateNumbered (Bool.eq_false_iff.mpr hmode) (Nat.pos_of_ne_zero hbackups)) ?_
        (fun _ _ hd => hd) fun _ _ hd => hd
      rintro _ rfl
      exact hsame _ hd
    · refine Triple.pure ?_
      rintro _ rfl
      exact hsame _ hd

theorem leavesOthers_rotate (h : r.OthersLast entries now) :
    Triple (fun d => d.entries = entries ∧ d.env.clock d.tick = now) r.rotate
      (fun _ => r.LeavesOthers entries) fun _ => r.LeavesOthers entries :=
  (leavesOthers_rotateOnDisk h).bind fun _ => leavesOthers_openFile ownName_fileName true

/-! ## Rotations that remove other files -/

/-- Without failures a rotation removes each file that has enough greater names behind it. -/
theorem lookup_rotate_of_mem_pruned {d : Disk LocalTime} {e : Directory} (hquiet : d.Quiet)
    (hmode : r.timestampSuffix = true) (hpos : 0 < r.backups)
    (hthere : d.entries.isThere r.fileName = true)
    (hrename : d.entries.rename r.fileName (r.archiveName d.entries (d.env.clock d.tick)) = .ok e)
    (hname : name ∈ r.pruned e) (hne : name ≠ r.fileName) :
    (finalState (r.rotate d)).entries.lookup name = none := by
  obtain ⟨d', hrun, hquiet', hentries⟩ := rotateTimestamp_quiet hquiet hrename
  have hgone : d'.entries.lookup name = none := by
    rw [hentries, without, if_pos hname]
  have hrotate := rotateOnDisk_timestamp hmode hpos hthere
  rw [hrun] at hrotate
  have hopen : r.rotate d = openFile r.fileName true d' := by
    simp only [rotate, bind, EStateM.bind, hrotate]
  have hkeeps : Keeps (fun d : Disk LocalTime => d.entries.lookup name = none)
      (openFile r.fileName true) := by
    refine Disk.keeps_syscall (I := fun e => e.lookup name = none) fun e e' he hopen => ?_
    obtain ⟨node, -, rfl⟩ := Directory.openFile_eq_ok hopen
    exact (AList.lookup_insert_ne hne).trans he
  rw [hopen]
  exact hkeeps.finalState hgone

/-- A rotation leaves the files of other programs alone, whichever of its operations fail and in
whichever order the directory is listed, exactly when it removes none of them for having too many
greater names behind it. -/
theorem leavesOthers_iff (r : FallibleRotator) (entries : Directory) (now : LocalTime) :
    (∀ d : Disk LocalTime, d.entries = entries → d.env.clock d.tick = now →
      r.LeavesOthers entries (finalState (r.rotate d))) ↔ r.OthersLast entries now := by
  constructor
  · intro hleaves hmode hpos hparent hthere e hrename name hname hother
    by_contra hcount
    have hpruned : name ∈ r.pruned e := mem_pruned.mpr ⟨hparent, hname, not_lt.mp hcount⟩
    obtain ⟨⟨bytes, hbytes⟩, hbegin⟩ := mem_timestampFiles.mp hname
    -- The disk on which nothing fails.
    have hgone := lookup_rotate_of_mem_pruned
      (d := ⟨⟨fun _ => none, fun _ => now, fun _ => .stored⟩, 0, entries, []⟩)
      (fun _ _ => rfl) hmode hpos hthere hrename hpruned hbegin.ne
    rw [hleaves _ rfl rfl name hother, ← Directory.lookup_rename hrename hbegin.ne, hbytes] at hgone
    · exact absurd hgone nofun
    · exact fun hn => hother (hn ▸ ownName_archiveName hmode _ _)
  · intro h d hentries hnow
    have hrun := leavesOthers_rotate h d ⟨hentries, hnow⟩
    generalize r.rotate d = result at hrun ⊢
    match result with
    | .ok () d' => exact hrun
    | .error _ d' => exact hrun

/-- A rotation removes the compressed log of another program. -/
theorem exists_not_leavesOthers :
    ∃ (r : FallibleRotator) (d : Disk LocalTime) (name : String),
      d.Quiet ∧ ¬ r.OwnName name ∧ d.entries.lookup name = some (.file [2]) ∧
        (finalState (r.rotate d)).entries.lookup name = none := by
  refine ⟨⟨"/var/log", "app.log", 100, 1, true⟩,
    ⟨⟨fun _ => none, fun _ => default, fun _ => .stored⟩, 0,
      ((∅ : Directory).insert "app.log" (.file [1])).insert "app.log.1.gz" (.file [2]), []⟩,
    "app.log.1.gz", fun _ _ => rfl, ?_, rfl, rfl⟩
  -- The names of archives are longer.
  have hlength : ∀ t : LocalTime, ∀ suffix : String,
      "app.log.1.gz" ≠ "app.log" ++ "." ++ t.format ++ suffix := by
    intro t suffix h
    have hlen := congrArg (fun s : String => s.toList.length) h
    have hname : "app.log.1.gz".toList.length = 12 := rfl
    simp only [String.toList_append, List.length_append, t.length_toList_format] at hlen
    omega
  rintro (h | h)
  · exact absurd h (by decide)
  · obtain ⟨t, h⟩ | ⟨t, n, -, h⟩ := h
    · refine hlength t "" ?_
      rw [String.append_empty]
      exact h
    · refine hlength t ("-" ++ toString n) ?_
      rw [← String.append_assoc]
      exact h

end FallibleRotator

end Rsupervisord
