import Rsupervisord.Logging.FallibleRotator
import Rsupervisord.Support.Text

/-!
# Archives with timestamps

A rotation with timestamps on a disk whose operations do not fail: the log file gets the name of the
next archive, and of the files that are then taken for archives all but those with the greatest
names are removed.

* `FallibleRotator.isThere_archiveName`: the name of the next archive is free.
* `FallibleRotator.mem_timestampFiles`: the files that are taken for archives.
* `FallibleRotator.rotateTimestamp_quiet`: a rotation.
-/

namespace Rsupervisord

open FallibleState

namespace FallibleRotator

variable {r : FallibleRotator} {e e' : Directory} {o o' : HashOrder String} {name : String}

/-! ## The name of the next archive -/

theorem candidateName_injective (r : FallibleRotator) (t : LocalTime) :
    Function.Injective (r.candidateName t) := by
  intro m n h
  have htail : toString m = toString n := (String.append_right_inj _).mp h
  have hvalue := Text.digitsValue_toString m
  rw [htail, Text.digitsValue_toString] at hvalue
  exact (Option.some.inj hvalue).symm

theorem mem_of_isThere (h : e.isThere name = true) : name ∈ e.keys := by
  unfold Directory.isThere at h
  match hname : e.lookup name with
  | none =>
    rw [hname] at h
    exact absurd h Bool.false_ne_true
  | some _ => exact HashMap.mem_iff_lookup.mpr ⟨_, hname⟩

/-- The name of the next archive is free: of more candidates than entries one is not there. -/
theorem isThere_archiveName (r : FallibleRotator) (e : Directory) (t : LocalTime) :
    e.isThere (r.archiveName e t) = false := by
  unfold archiveName
  split_ifs with hthere
  · match hfind : List.find? _ _ with
    | some name =>
      have hfree := List.find?_some hfind
      simpa using hfree
    | none =>
      have hall := List.find?_eq_none.mp hfind
      have hsubset : (List.range' 1 (e.keys.length + 1)).map (r.candidateName t) ⊆ e.keys := by
        intro name hname
        exact mem_of_isThere (by simpa using hall name hname)
      have hnodup : ((List.range' 1 (e.keys.length + 1)).map (r.candidateName t)).Nodup :=
        (List.nodup_range' 1).map (candidateName_injective r t)
      have hlength := (hnodup.subperm hsubset).length_le
      rw [List.length_map, List.length_range'] at hlength
      exact absurd hlength (Nat.not_succ_le_self _)
  · exact Bool.eq_false_iff.mpr hthere

/-! ## The files that are taken for archives -/

/-- The name begins with that of the log file and a dot. -/
def HasPrefix (r : FallibleRotator) (name : String) : Prop :=
  (r.fileName ++ ".").toList <+: name.toList

theorem HasPrefix.ne (h : r.HasPrefix name) : name ≠ r.fileName := by
  rintro rfl
  have hlen := h.length_le
  rw [String.toList_append, List.length_append] at hlen
  exact absurd hlen (by simp)

/-- They are the regular files with the prefix. -/
theorem mem_timestampFiles :
    name ∈ r.timestampFiles e o ↔
      (∃ bytes, e.lookup name = some (.file bytes)) ∧ r.HasPrefix name := by
  simp only [timestampFiles, List.mem_map, List.mem_filter, Prod.exists, Bool.and_eq_true,
    List.isPrefixOf_iff_prefix, bne_iff_ne]
  constructor
  · rintro ⟨_, node, ⟨hmem, ⟨hfile, hbegin⟩, -⟩, rfl⟩
    refine ⟨?_, hbegin⟩
    match node with
    | .file bytes => exact ⟨bytes, HashMap.mem_iter.mp hmem⟩
    | .directory => exact absurd hfile Bool.false_ne_true
    | .link _ => exact absurd hfile Bool.false_ne_true
  · rintro ⟨⟨bytes, hbytes⟩, hbegin⟩
    exact ⟨name, .file bytes, ⟨HashMap.mem_iter.mpr hbytes, ⟨rfl, hbegin⟩, hbegin.ne⟩, rfl⟩

theorem nodup_timestampFiles (r : FallibleRotator) (e : Directory) (o : HashOrder String) :
    (r.timestampFiles e o).Nodup :=
  HashMap.nodup_map_fst_iter.sublist (List.filter_sublist.map _)

/-- The order in which the directory is listed makes no difference. -/
theorem timestampFiles_perm (r : FallibleRotator) (h : ∀ n, e.lookup n = e'.lookup n) :
    (r.timestampFiles e o).Perm (r.timestampFiles e' o') := by
  refine (List.perm_ext_iff_of_nodup (nodup_timestampFiles r e o)
    (nodup_timestampFiles r e' o')).mpr fun name => ?_
  rw [mem_timestampFiles, mem_timestampFiles, h]

/-- The names that a rotation removes; none of a bare file name, whose directory is not listed. -/
def pruned (r : FallibleRotator) (e : Directory) : List String :=
  if r.parent = "" then [] else (r.timestampFiles e .stored).leastBut r.backups

/-- They have too many greater names behind them. -/
theorem mem_pruned :
    name ∈ r.pruned e ↔ r.parent ≠ "" ∧ name ∈ r.timestampFiles e .stored ∧
      r.backups ≤ (r.timestampFiles e .stored).countP (name < ·) := by
  unfold pruned
  split_ifs with hparent
  · exact iff_of_false List.not_mem_nil fun h => h.1 hparent
  · rw [List.mem_leastBut (nodup_timestampFiles r e .stored)]
    exact (and_iff_right hparent).symm

/-- What is removed of the files in another order. -/
theorem mem_leastBut_timestampFiles (hparent : r.parent ≠ "")
    (h : ∀ n, e'.lookup n = e.lookup n) :
    name ∈ (r.timestampFiles e' o).leastBut r.backups ↔ name ∈ r.pruned e := by
  rw [pruned, if_neg hparent]
  exact List.mem_leastBut_of_perm (timestampFiles_perm r h) (nodup_timestampFiles r e' o)

/-! ## A rotation -/

/-- The entries are those of `f`, and no operation fails any more. -/
def Holds (f : String → Option FileNode) (d : Disk LocalTime) : Prop :=
  d.Quiet ∧ ∀ n, d.entries.lookup n = f n

theorem Holds.tick {f : String → Option FileNode} {d : Disk LocalTime} (h : Holds f d) :
    Holds f { d with tick := d.tick + 1 } :=
  ⟨fun n hn => h.1 n (Nat.le_of_succ_le hn), h.2⟩

/-- The entries `f` without those of some names. -/
def without (names : List String) (f : String → Option FileNode) (n : String) : Option FileNode :=
  if n ∈ names then none else f n

theorem without_cons (name : String) (l : List String) (f : String → Option FileNode) :
    without l (without [name] f) = without (name :: l) f := by
  ext n : 1
  by_cases hn : n = name <;> by_cases hl : n ∈ l <;> simp [without, hn, hl]

/-- A file is removed if it is there. -/
theorem removeFile_quiet {f : String → Option FileNode} (hdir : f name ≠ some .directory) :
    Triple (Holds f)
      (do let _ ← attempt (removeFile name))
      (fun _ => Holds (without [name] f)) fun _ _ => False := by
  refine (Triple.attempt (Q := fun _ => Holds (without [name] f)) fun d hd => ?_).bind
    fun _ => .pure fun _ hd => hd
  obtain ⟨hquiet, hlookup⟩ := hd.tick
  have hfault : d.env.fault d.tick = none := hd.1 d.tick le_rfl
  rw [← hd.2 name] at hdir
  simp only [removeFile, Disk.syscall, hfault, Directory.removeFile]
  match hname : d.entries.lookup name with
  | none =>
    refine ⟨hquiet, fun n => ?_⟩
    simp only [hlookup n, without, List.mem_singleton]
    split_ifs with hn
    · rw [hn, ← hname, hd.2]
    · rfl
  | some .directory => exact absurd hname hdir
  | some (.file _) | some (.link _) =>
    refine ⟨hquiet, fun n => ?_⟩
    rw [HashMap.lookup_erase, hd.2 n, without]
    simp only [List.mem_singleton]

theorem removeFiles_quiet {f : String → Option FileNode} {l : List String}
    (hdir : ∀ name ∈ l, f name ≠ some .directory) :
    Triple (Holds f)
      (forM l fun name => do
        let _ ← attempt (removeFile name))
      (fun _ => Holds (without l f)) fun _ _ => False := by
  induction l generalizing f with
  | nil =>
    refine Triple.pure fun d hd => ⟨hd.1, fun n => ?_⟩
    rw [hd.2, without, if_neg List.not_mem_nil]
  | cons name l ih =>
    rw [List.forM_cons]
    refine (removeFile_quiet (hdir name List.mem_cons_self)).bind fun _ => ?_
    rw [← without_cons name l f]
    refine ih fun name' hname' => ?_
    unfold without
    split_ifs
    · exact nofun
    · exact hdir name' (List.mem_cons_of_mem _ hname')

/-- What is listed, if anything is. -/
theorem listArchives_quiet {f : String → Option FileNode} :
    Triple (Holds f) r.listArchives
      (fun names d => Holds f d ∧ if r.parent = "" then names = [] else
        ∃ (e : Directory) (o : HashOrder String), (∀ n, e.lookup n = f n) ∧
          names = r.timestampFiles e o)
      fun _ _ => False := by
  unfold listArchives
  split_ifs
  · exact .pure fun _ hd => ⟨hd, rfl⟩
  · intro d hd
    have hfault : d.env.fault d.tick = none := hd.1 d.tick le_rfl
    simp only [attempt, Disk.query, bind, EStateM.bind, hfault]
    exact ⟨hd.tick, d.entries, d.env.order d.tick, hd.2, rfl⟩

theorem prune_quiet (r : FallibleRotator) (e : Directory) :
    Triple (Holds fun n => e.lookup n) r.prune
      (fun _ => Holds (without (r.pruned e) fun n => e.lookup n)) fun _ _ => False := by
  refine listArchives_quiet.bind fun names => ?_
  refine Triple.of_forall_eq fun d hd => ?_
  obtain ⟨hholds, hnames⟩ := hd
  have hmem : ∀ n, n ∈ names.leastBut r.backups ↔ n ∈ r.pruned e := by
    split_ifs at hnames with hparent
    · intro n
      rw [hnames, pruned, if_pos hparent]
      simp [List.leastBut]
    · obtain ⟨e', o, hlookup, rfl⟩ := hnames
      exact fun n => mem_leastBut_timestampFiles hparent hlookup
  have hfiles : ∀ n ∈ names.leastBut r.backups, e.lookup n ≠ some .directory := by
    intro n hn
    obtain ⟨-, hn, -⟩ := mem_pruned.mp ((hmem n).mp hn)
    obtain ⟨⟨bytes, hbytes⟩, -⟩ := mem_timestampFiles.mp hn
    rw [hbytes]
    exact nofun
  refine (removeFiles_quiet (f := fun n => e.lookup n) hfiles).weaken ?_ (fun _ d hd => ?_)
    fun _ _ hd => hd
  · rintro _ rfl
    exact hholds
  · refine ⟨hd.1, fun n => (hd.2 n).trans ?_⟩
    simp only [without, hmem]

/-- A rotation with timestamps: of what the directory is after the renaming, the least names that
are too many are removed. -/
theorem rotateTimestamp_quiet {d : Disk LocalTime} (hquiet : d.Quiet)
    (hrename : d.entries.rename r.fileName (r.archiveName d.entries (d.env.clock d.tick)) = .ok e) :
    ∃ d', r.rotateTimestamp d = .ok () d' ∧
    Holds (without (r.pruned e) fun n => e.lookup n) d' := by
  have hfault : d.env.fault d.tick = none := hquiet d.tick le_rfl
  have hrun : r.rotateTimestamp d = r.prune { d with tick := d.tick + 1, entries := e } := by
    simp only [rotateTimestamp, bind, EStateM.bind, FallibleState.get_apply, rename,
      Disk.syscall, hfault, hrename]
  have hprune := prune_quiet r e { d with tick := d.tick + 1, entries := e }
    ⟨fun n hn => hquiet n (Nat.le_of_succ_le hn), fun _ => rfl⟩
  rw [hrun]
  generalize r.prune { d with tick := d.tick + 1, entries := e } = result at hprune
  cases result with
  | ok _ d' => exact ⟨d', rfl, hprune⟩
  | error e d' => exact hprune.elim

theorem rotateTimestamp_of_error {d : Disk LocalTime} (hquiet : d.Quiet) {message : String}
    (hrename : d.entries.rename r.fileName (r.archiveName d.entries (d.env.clock d.tick)) =
      .error message) :
    r.rotateTimestamp d = .error (.os message) { d with tick := d.tick + 1 } := by
  have hfault : d.env.fault d.tick = none := hquiet d.tick le_rfl
  simp only [rotateTimestamp, bind, EStateM.bind, FallibleState.get_apply, rename,
    Disk.syscall, hfault, hrename]

/-- A log file that is not there is not archived. -/
theorem rotateOnDisk_of_not_there {d : Disk LocalTime}
    (hthere : d.entries.isThere r.fileName = false) : r.rotateOnDisk d = .ok () d := by
  simp only [rotateOnDisk, isThere, bind, EStateM.bind, FallibleState.get_apply,
    pure, EStateM.pure, hthere, Bool.false_eq_true, if_false]

theorem rotateOnDisk_timestamp {d : Disk LocalTime} (hmode : r.timestampSuffix = true)
    (hpos : 0 < r.backups) (hthere : d.entries.isThere r.fileName = true) :
    r.rotateOnDisk d = r.rotateTimestamp d := by
  simp only [rotateOnDisk, isThere, bind, EStateM.bind, FallibleState.get_apply,
    pure, EStateM.pure, hthere, if_true, if_neg hpos.ne', if_pos hmode]

/-- Without archives only the log file is removed. -/
theorem lookup_rotateOnDisk_of_zero (hzero : r.backups = 0) (d : Disk LocalTime)
    (hne : name ≠ r.fileName) :
    (finalState (r.rotateOnDisk d)).entries.lookup name = d.entries.lookup name := by
  have hkeeps : Keeps (fun d' : Disk LocalTime => d'.entries.lookup name = d.entries.lookup name)
      r.rotateOnDisk := by
    refine (keeps_isThere r.fileName).bind fun there => ?_
    split_ifs
    · refine Keeps.bind (Keeps.attempt ?_) fun _ => .pure fun _ hd => hd
      refine Disk.keeps_syscall (I := fun e => e.lookup name = d.entries.lookup name)
        fun e e' he hremove => ?_
      rw [Directory.removeFile_eq_ok hremove, AList.lookup_erase_ne hne, he]
    · exact .pure fun _ hd => hd
  exact hkeeps.finalState rfl

end FallibleRotator

end Rsupervisord
