import Rsupervisord.Logging.Archives
import Rsupervisord.Support.TransitionSystem
import Mathlib.Data.List.DropRight

/-!
# Retention of archives with timestamps

The archives of a rotator, in the order in which it made them, over any sequence of rotations. The
newest ones are kept as long as the order of their names is that of the rotations.
-/

namespace Rsupervisord

open FallibleState

/-- A directory, and the archives that a rotator has made in it, the last one at the end. -/
structure RotationHistory where
  entries : Directory
  archives : List (String × FileNode)
  /-- The time of the last event. -/
  now : LocalTime

/-- What happens to the directory. -/
inductive RotationEvent
  /-- A rotation in its environment. -/
  | rotate (env : DiskEnv LocalTime)
  /-- A change of other entries than the archives, such as a write to the log file. -/
  | change (entries : Directory)

namespace FallibleRotator

variable (r : FallibleRotator)

/-- The archives that are to be kept: the last `backups` ones, or all when there are fewer. -/
def recent (s : RotationHistory) : List (String × FileNode) := s.archives.rtake r.backups

/-- The disk that a rotation finds. -/
def disk (s : RotationHistory) (env : DiskEnv LocalTime) : Disk LocalTime := ⟨env, 0, s.entries, []⟩

/-- The archive that a rotation makes of a log file that is there, unless it fails or there are to
be no archives. -/
def newArchive (s : RotationHistory) (env : DiskEnv LocalTime) : List (String × FileNode) :=
  if s.entries.isThere r.fileName ∧ 0 < r.backups then
    match r.rotateOnDisk (disk s env), s.entries.lookup r.fileName with
    | .ok _ _, some node => [(r.archiveName s.entries (env.clock 0), node)]
    | _, _ => []
  else []

/-- A rotation. -/
def rotated (s : RotationHistory) (env : DiskEnv LocalTime) : RotationHistory where
  entries := (finalState (r.rotateOnDisk (disk s env))).entries
  archives := s.archives ++ r.newArchive s env
  now := env.clock 0

/-- A rotator without archives, then rotations and other changes at times that do not decrease. -/
def rotations : TransitionSystem RotationHistory RotationEvent where
  init s := s.archives = []
  step s l s' := match l with
    | .rotate env => s.now ≤ env.clock 0 ∧ s' = r.rotated s env
    | .change entries => (∀ a ∈ s.archives, entries.lookup a.1 = s.entries.lookup a.1) ∧
        s' = { s with entries }

/-- The archives that remain are the newest ones, with different names. -/
structure NewestKept (s : RotationHistory) : Prop where
  nodup : ((r.recent s).map Prod.fst).Nodup
  kept : ∀ a ∈ r.recent s, s.entries.lookup a.1 = some a.2
  removed : ∀ a ∈ s.archives, a.1 ∉ (r.recent s).map Prod.fst → s.entries.lookup a.1 = none

/-- The path has a directory part, and the name is one of a regular file that has `backups` such
files behind it in the order of the names. -/
def Outnumbered (e : Directory) (name : String) : Prop :=
  r.parent ≠ "" ∧ name ∈ r.timestampFiles e .stored ∧
    r.backups ≤ (r.timestampFiles e .stored).countP (name < ·)

instance (e : Directory) (name : String) : Decidable (r.Outnumbered e name) :=
  inferInstanceAs (Decidable (_ ∧ _ ∧ _))

/-- When the log file gets the name of an archive, the archives with too many files behind them in
the order of the names are those with too many archives behind them in the order of the
rotations. -/
def NamesInOrder (s : RotationHistory) (t : LocalTime) : Prop :=
  s.entries.isThere r.fileName = true → 0 < r.backups →
    ∀ e, s.entries.rename r.fileName (r.archiveName s.entries t) = .ok e →
      let names := (r.recent s).map Prod.fst ++ [r.archiveName s.entries t]
      (∀ name ∈ names.rtake r.backups, ¬ r.Outnumbered e name) ∧
        ∀ name ∈ names.rdrop r.backups, r.Outnumbered e name

instance (s : RotationHistory) (t : LocalTime) : Decidable (r.NamesInOrder s t) :=
  let names := (r.recent s).map Prod.fst ++ [r.archiveName s.entries t]
  match h : s.entries.rename r.fileName (r.archiveName s.entries t) with
  | .error _ => isTrue fun _ _ _ he => absurd (h.symm.trans he) nofun
  | .ok e => decidable_of_iff (s.entries.isThere r.fileName = true → 0 < r.backups →
      (∀ name ∈ names.rtake r.backups, ¬ r.Outnumbered e name) ∧
        ∀ name ∈ names.rdrop r.backups, r.Outnumbered e name)
      ⟨fun hnames hthere hpos _ he => Except.ok.inj (h.symm.trans he) ▸ hnames hthere hpos,
        fun hnames hthere hpos => hnames hthere hpos e h⟩

/-- No operation of a rotation fails, and the names of the archives are in the order of the
rotations. -/
def Orderly (s : RotationHistory) (l : RotationEvent) : Prop :=
  match l with
  | .rotate env => (∀ n, env.fault n = none) ∧ r.NamesInOrder s (env.clock 0)
  | .change _ => True

variable {r} {s s' : RotationHistory} {env : DiskEnv LocalTime} {e : Directory}

/-! ## The newest archives -/

theorem map_rtake {α β : Type} (f : α → β) (l : List α) (n : ℕ) :
    (l.rtake n).map f = (l.map f).rtake n := by
  rw [List.rtake, List.rtake, List.map_drop, List.length_map]

/-- Of the last elements and one more, the last ones. -/
theorem rtake_concat {α : Type} (l : List α) (x : α) (n : ℕ) :
    (l ++ [x]).rtake n = (l.rtake n ++ [x]).rtake n := by
  match n with
  | 0 => rw [List.rtake_zero, List.rtake_zero]
  | n + 1 =>
    have hrtake : (l.rtake (n + 1)).rtake n = l.rtake n := by
      simp only [List.rtake, List.drop_drop, List.length_drop]
      congr 1
      omega
    rw [List.rtake_concat_succ, List.rtake_concat_succ, hrtake]

theorem rdrop_append_rtake {α : Type} (l : List α) (n : ℕ) : l.rdrop n ++ l.rtake n = l :=
  List.take_append_drop _ l

theorem mem_of_mem_recent {a : String × FileNode} (ha : a ∈ r.recent s) : a ∈ s.archives :=
  List.mem_of_mem_drop ha

/-- The names of the newest archives after a rotation. -/
theorem recent_names {t : LocalTime} {node : FileNode}
    (harchives : s'.archives = s.archives ++ [(r.archiveName s.entries t, node)]) :
    (r.recent s').map Prod.fst =
      ((r.recent s).map Prod.fst ++ [r.archiveName s.entries t]).rtake r.backups := by
  rw [recent, recent, harchives, map_rtake, map_rtake, List.map_append, List.map_singleton,
    ← rtake_concat]

/-! ## A rotation -/

/-- What a rotation without failures does: nothing to other entries than the log file, or a new
archive is made and others are removed. -/
theorem rotated_quiet (hmode : r.timestampSuffix = true) (hquiet : ∀ n, env.fault n = none)
    (s : RotationHistory) :
    ((r.rotated s env).archives = s.archives ∧
        ∀ n ≠ r.fileName, (r.rotated s env).entries.lookup n = s.entries.lookup n) ∨
      s.entries.isThere r.fileName = true ∧ 0 < r.backups ∧ ∃ e node,
        s.entries.rename r.fileName (r.archiveName s.entries (env.clock 0)) = .ok e ∧
        s.entries.lookup r.fileName = some node ∧
        (r.rotated s env).archives =
          s.archives ++ [(r.archiveName s.entries (env.clock 0), node)] ∧
        ∀ n, (r.rotated s env).entries.lookup n = without (r.pruned e) (fun n => e.lookup n) n := by
  have hquiet' : (disk s env).Quiet := fun n _ => hquiet n
  have hnone : r.newArchive s env = [] → (r.rotated s env).archives = s.archives := fun h => by
    rw [rotated, h, List.append_nil]
  by_cases hpos : 0 < r.backups
  · match hthere : s.entries.isThere r.fileName with
    | false =>
      left
      refine ⟨hnone ?_, fun n _ => ?_⟩
      · rw [newArchive, hthere, if_neg fun h => absurd h.1 Bool.false_ne_true]
      · simp only [rotated, rotateOnDisk_of_not_there (d := disk s env) hthere]
        rfl
    | true =>
      have hrun := rotateOnDisk_timestamp (d := disk s env) hmode hpos hthere
      match hrename : s.entries.rename r.fileName (r.archiveName s.entries (env.clock 0)) with
      | .error message =>
        left
        have herror := rotateTimestamp_of_error hquiet' hrename
        refine ⟨hnone ?_, fun n _ => ?_⟩
        · simp only [newArchive, hrun, herror, ite_self]
        · simp only [rotated, hrun, herror]
          rfl
      | .ok e =>
        right
        obtain ⟨d', hrotate, hholds⟩ := rotateTimestamp_quiet hquiet' hrename
        obtain ⟨node, hnode, -⟩ := Directory.rename_eq_ok hrename
        refine ⟨rfl, hpos, e, node, rfl, hnode, ?_, fun n => ?_⟩
        · simp only [rotated, newArchive, hrun, hrotate, hnode, if_pos (And.intro hthere hpos)]
        · simp only [rotated, hrun, hrotate]
          exact hholds.2 n
  · left
    have hzero : r.backups = 0 := Nat.eq_zero_of_not_pos hpos
    refine ⟨hnone ?_, fun n hn => lookup_rotateOnDisk_of_zero hzero (disk s env) hn⟩
    rw [newArchive, if_neg fun h => hpos h.2]

/-! ## Steps -/

/-- What holds at all times: the newest archives are kept, and they were log files that were
there. -/
structure Retained (r : FallibleRotator) (s : RotationHistory) : Prop extends r.NewestKept s where
  name_ne : ∀ a ∈ s.archives, a.1 ≠ r.fileName
  isThere : ∀ a ∈ s.archives, a.2.isThere = true

/-- A change that leaves the archives alone. -/
theorem Retained.of_lookup_eq (h : r.Retained s) (harchives : s'.archives = s.archives)
    (hlookup : ∀ a ∈ s.archives, s'.entries.lookup a.1 = s.entries.lookup a.1) : r.Retained s' := by
  have hrecent : r.recent s' = r.recent s := by rw [recent, recent, harchives]
  refine ⟨⟨?_, fun a ha => ?_, fun a ha hold => ?_⟩, ?_, ?_⟩
  · rw [hrecent]
    exact h.nodup
  · rw [hrecent] at ha
    rw [hlookup a (mem_of_mem_recent ha)]
    exact h.kept a ha
  · rw [harchives] at ha
    rw [hrecent] at hold
    rw [hlookup a ha]
    exact h.removed a ha hold
  · rw [harchives]
    exact h.name_ne
  · rw [harchives]
    exact h.isThere

/-- The name of the next archive is not that of an archive that is kept. -/
theorem Retained.archiveName_notMem (h : r.Retained s) (t : LocalTime) :
    r.archiveName s.entries t ∉ (r.recent s).map Prod.fst := by
  intro hmem
  obtain ⟨a, ha, hname⟩ := List.mem_map.mp hmem
  have hfree := isThere_archiveName r s.entries t
  rw [Directory.isThere, ← hname, h.kept a ha, Option.map_some, Option.getD_some,
    h.isThere a (mem_of_mem_recent ha)] at hfree
  exact absurd hfree nofun

variable {t : LocalTime} {node : FileNode}

/-- When the log file becomes an archive, the newest archives are kept exactly when their names are
in order. -/
theorem Retained.newestKept_iff (h : r.Retained s) (hpos : 0 < r.backups)
    (hrename : s.entries.rename r.fileName (r.archiveName s.entries t) = .ok e)
    (hnode : s.entries.lookup r.fileName = some node)
    (harchives : s'.archives = s.archives ++ [(r.archiveName s.entries t, node)])
    (hlookup : ∀ n, s'.entries.lookup n = without (r.pruned e) (fun n => e.lookup n) n) :
    r.NewestKept s' ↔
      (∀ name ∈ ((r.recent s).map Prod.fst ++ [r.archiveName s.entries t]).rtake r.backups,
          ¬ r.Outnumbered e name) ∧
        ∀ name ∈ ((r.recent s).map Prod.fst ++ [r.archiveName s.entries t]).rdrop r.backups,
          r.Outnumbered e name := by
  have hrecent := recent_names (r := r) harchives
  have hnodup : ((r.recent s).map Prod.fst ++ [r.archiveName s.entries t]).Nodup := by
    refine h.nodup.append (List.nodup_singleton _) ?_
    rw [List.disjoint_singleton]
    exact h.archiveName_notMem t
  have hlast : r.archiveName s.entries t ∈
      ((r.recent s).map Prod.fst ++ [r.archiveName s.entries t]).rtake r.backups := by
    obtain ⟨k, hk⟩ := Nat.exists_eq_succ_of_ne_zero hpos.ne'
    rw [hk, List.rtake_concat_succ]
    exact List.mem_append_right _ (List.mem_singleton_self _)
  have hsame : ∀ a ∈ s.archives, a.1 ≠ r.archiveName s.entries t →
      e.lookup a.1 = s.entries.lookup a.1 :=
    fun a ha hne => Directory.lookup_rename hrename (h.name_ne a ha) hne
  have hbefore : ∀ a ∈ r.recent s, e.lookup a.1 = some a.2 := by
    intro a ha
    rw [hsame a (mem_of_mem_recent ha), h.kept a ha]
    exact fun hname => h.archiveName_notMem t (hname ▸ List.mem_map_of_mem ha)
  have hafter : ∀ a ∈ r.recent s', e.lookup a.1 = some a.2 := by
    intro a ha
    rw [recent, harchives, rtake_concat] at ha
    obtain ha | ha := List.mem_append.mp (List.mem_of_mem_drop ha)
    · exact hbefore a ha
    · rw [List.mem_singleton.mp ha]
      exact (Directory.lookup_rename_dst hrename).trans hnode
  generalize hnames : (r.recent s).map Prod.fst ++ [r.archiveName s.entries t] = names at *
  have hsplit := rdrop_append_rtake names r.backups
  have hdisjoint : ∀ name ∈ names.rdrop r.backups, name ∉ names.rtake r.backups := by
    rw [← hsplit] at hnodup
    exact fun name hname => List.disjoint_of_nodup_append hnodup hname
  constructor
  · intro hkept
    refine ⟨fun name hname hout => ?_, fun name hname => ?_⟩
    · rw [← hrecent] at hname
      obtain ⟨a, ha, rfl⟩ := List.mem_map.mp hname
      have hthere := hkept.kept a ha
      rw [hlookup, without, if_pos (mem_pruned.mpr hout)] at hthere
      cases hthere
    · have hdropped := hdisjoint name hname
      have hmem : name ∈ names := hsplit ▸ List.mem_append_left _ hname
      rw [← hnames, List.mem_append, List.mem_singleton] at hmem
      obtain hmem | rfl := hmem
      · obtain ⟨a, ha, rfl⟩ := List.mem_map.mp hmem
        have hgone := hkept.removed a (harchives ▸ List.mem_append_left _ (mem_of_mem_recent ha))
          (hrecent ▸ hdropped)
        rw [hlookup, without] at hgone
        split_ifs at hgone with hpruned
        · exact mem_pruned.mp hpruned
        · rw [hbefore a ha] at hgone
          cases hgone
      · exact absurd hlast hdropped
  · rintro ⟨hkeep, hdrop⟩
    refine ⟨?_, fun a ha => ?_, fun a ha hold => ?_⟩
    · rw [hrecent]
      exact hnodup.sublist (List.drop_sublist _ _)
    · have hname : a.1 ∈ names.rtake r.backups := hrecent ▸ List.mem_map_of_mem ha
      rw [hlookup, without, if_neg fun hpruned => hkeep a.1 hname (mem_pruned.mp hpruned)]
      exact hafter a ha
    · rw [hrecent] at hold
      rw [harchives, List.mem_append, List.mem_singleton] at ha
      rw [hlookup, without]
      split_ifs with hpruned
      · rfl
      · obtain ha | rfl := ha
        · have hold' : a.1 ∉ (r.recent s).map Prod.fst := by
            intro hmem
            have hin : a.1 ∈ names.rdrop r.backups ++ names.rtake r.backups := by
              rw [hsplit, ← hnames]
              exact List.mem_append_left _ hmem
            obtain hin | hin := List.mem_append.mp hin
            · exact hpruned (mem_pruned.mpr (hdrop a.1 hin))
            · exact hold hin
          rw [hsame a ha fun hname => hold (hname ▸ hlast)]
          exact h.removed a ha hold'
        · exact absurd hlast hold

/-- A rotation with names in order. -/
theorem Retained.rotated (h : r.Retained s) (hmode : r.timestampSuffix = true)
    (horderly : r.Orderly s (.rotate env)) : r.Retained (r.rotated s env) := by
  obtain ⟨hquiet, hnames⟩ := horderly
  obtain ⟨harchives, hlookup⟩ | ⟨hthere, hpos, e, node, hrename, hnode, harchives, hlookup⟩ :=
    rotated_quiet hmode hquiet s
  · exact h.of_lookup_eq harchives fun a ha => hlookup a.1 (h.name_ne a ha)
  · refine ⟨(h.newestKept_iff hpos hrename hnode harchives hlookup).mpr
      (hnames hthere hpos e hrename), fun a ha => ?_, fun a ha => ?_⟩
    all_goals
      rw [harchives, List.mem_append, List.mem_singleton] at ha
      obtain ha | rfl := ha
    · exact h.name_ne a ha
    · exact r.archiveName_ne _ _
    · exact h.isThere a ha
    · rw [Directory.isThere, hnode] at hthere
      exact hthere

theorem retained_of_reachableWhile (hmode : r.timestampSuffix = true)
    (hs : r.rotations.ReachableWhile r.Orderly s) : r.Retained s := by
  refine hs.invariant (fun s hinit => ?_) fun s l s' _ h horderly hstep => ?_
  · have harchives : s.archives = [] := hinit
    have hrecent : r.recent s = [] := by rw [recent, harchives, List.rtake_nil]
    refine ⟨⟨?_, ?_, ?_⟩, ?_, ?_⟩
    · rw [hrecent]
      exact List.nodup_nil
    · rw [hrecent]
      exact fun _ ha => absurd ha List.not_mem_nil
    all_goals
      rw [harchives]
      exact fun _ ha => absurd ha List.not_mem_nil
  · match l with
    | .rotate env =>
      obtain ⟨-, rfl⟩ := hstep
      exact h.rotated hmode horderly
    | .change entries =>
      obtain ⟨hsame, rfl⟩ := hstep
      exact h.of_lookup_eq rfl hsame

/-- As long as the names of the archives are in the order of the rotations and no operation fails,
exactly the newest archives remain, and the next archive gets a name that is free. -/
theorem newestKept (hmode : r.timestampSuffix = true)
    (hs : r.rotations.ReachableWhile r.Orderly s) :
    r.NewestKept s ∧ ∀ t, s.entries.isThere (r.archiveName s.entries t) = false :=
  ⟨(retained_of_reachableWhile hmode hs).toNewestKept, isThere_archiveName r s.entries⟩

/-- `newestKept` for two rotations within a second. -/
theorem newestKept_of_two_rotations :
    let r : FallibleRotator := ⟨"/var/log", "app.log", 100, 1, true⟩
    let env : DiskEnv LocalTime := ⟨fun _ => none, fun _ => default, fun _ => .stored⟩
    let log (bytes : List UInt8) (s : RotationHistory) : RotationHistory :=
      { s with entries := s.entries.insert "app.log" (.file bytes) }
    let s := r.rotated (log [2] (r.rotated (log [1] ⟨∅, [], default⟩) env)) env
    s.archives = [("app.log.1970-01-01T00-00-00", .file [1]),
        ("app.log.1970-01-01T00-00-00-1", .file [2])] ∧
      r.NewestKept s := by
  intro r env log s
  have h₀ : r.rotations.ReachableWhile r.Orderly ⟨∅, [], default⟩ := .init rfl
  have h₁ : r.rotations.ReachableWhile r.Orderly (log [1] ⟨∅, [], default⟩) :=
    .step (l := .change _) h₀ trivial ⟨by decide, rfl⟩
  have h₂ : r.rotations.ReachableWhile r.Orderly (r.rotated (log [1] ⟨∅, [], default⟩) env) :=
    .step (l := .rotate env) h₁ ⟨fun _ => rfl, by decide +kernel⟩ ⟨LocalTime.le_refl _, rfl⟩
  have h₃ : r.rotations.ReachableWhile r.Orderly
      (log [2] (r.rotated (log [1] ⟨∅, [], default⟩) env)) :=
    .step (l := .change _) h₂ trivial ⟨by decide +kernel, rfl⟩
  have h₄ : r.rotations.ReachableWhile r.Orderly s :=
    .step (l := .rotate env) h₃ ⟨fun _ => rfl, by decide +kernel⟩ ⟨LocalTime.le_refl _, rfl⟩
  exact ⟨by decide +kernel, (newestKept rfl h₄).1⟩

/-- The third rotation within a second removes the archive that it has made, although no operation
fails. -/
theorem not_newestKept_of_three_rotations :
    let r : FallibleRotator := ⟨"/var/log", "app.log", 100, 1, true⟩
    let env : DiskEnv LocalTime := ⟨fun _ => none, fun _ => default, fun _ => .stored⟩
    let log (bytes : List UInt8) (s : RotationHistory) : RotationHistory :=
      { s with entries := s.entries.insert "app.log" (.file bytes) }
    let s := r.rotated (log [3] (r.rotated (log [2]
      (r.rotated (log [1] ⟨∅, [], default⟩) env)) env)) env
    r.rotations.ReachableWhile (fun _ l => ∀ env, l = .rotate env → ∀ n, env.fault n = none) s ∧
      s.archives = [("app.log.1970-01-01T00-00-00", .file [1]),
        ("app.log.1970-01-01T00-00-00-1", .file [2]), ("app.log.1970-01-01T00-00-00", .file [3])] ∧
      ¬ r.NewestKept s := by
  intro r env log s
  have hlog : ∀ {bytes s}, (∀ a ∈ s.archives, a.1 ≠ "app.log") →
      r.rotations.ReachableWhile (fun _ l => ∀ env, l = .rotate env → ∀ n, env.fault n = none) s →
      r.rotations.ReachableWhile (fun _ l => ∀ env, l = .rotate env → ∀ n, env.fault n = none)
        (log bytes s) :=
    fun hne hs => .step (l := .change _) hs (fun _ h => by cases h)
      ⟨fun a ha => AList.lookup_insert_ne (hne a ha), rfl⟩
  have hrotate : ∀ {s}, s.now ≤ default →
      r.rotations.ReachableWhile (fun _ l => ∀ env, l = .rotate env → ∀ n, env.fault n = none) s →
      r.rotations.ReachableWhile (fun _ l => ∀ env, l = .rotate env → ∀ n, env.fault n = none)
        (r.rotated s env) :=
    fun hnow hs => .step (l := .rotate env) hs (fun _ h n => RotationEvent.rotate.inj h ▸ rfl)
      ⟨hnow, rfl⟩
  refine ⟨?_, by decide +kernel, fun h => ?_⟩
  · refine hrotate (LocalTime.le_refl _) (hlog (by decide +kernel) ?_)
    refine hrotate (LocalTime.le_refl _) (hlog (by decide +kernel) ?_)
    exact hrotate (LocalTime.le_refl _) (hlog (by decide +kernel) (.init rfl))
  · have hkept := h.kept ("app.log.1970-01-01T00-00-00", .file [3]) (by decide +kernel)
    exact absurd hkept (by decide +kernel)

end FallibleRotator

end Rsupervisord
