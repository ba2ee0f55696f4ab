import Rsupervisord.Manager.Watch

/-!
# Watched directories

`sync_watcher` unwatches the directories that no rule needs any more and watches those that are not
watched yet. What it remembers is which directories are watched, not in which mode; so the mode of a
directory is the one in which it was needed first.

* `WatchService.Synced`: the directories are watched as the rules need them.
* `WatchService.synced_iff`: after each call this holds exactly when each directory that is needed
  recursively is already watched so, or is not watched and comes first as a recursive one.
-/

namespace Rsupervisord

/-- The directory a rule needs to be watched, and how. -/
def WatchRule.target : WatchRule → WatchPath × RecursiveMode
  | .binary _ _ parentDir .. => (parentDir, .nonRecursive)
  | .directory _ dirPath .. => (dirPath, .recursive)

namespace WatchService

/-- A call of `sync_watcher`. -/
structure SyncCall where
  new : WatchReload
  rules : List WatchRule

/-- Calls of `sync_watcher`, one after the other. -/
def registrar : Transducer WatchRegistry SyncCall Empty where
  next r call := (syncWatcher call.new r call.rules, [])

/-- The existing directories that the rules of a call need, in the order in which they are
visited. -/
def SyncCall.visited (call : SyncCall) : List (WatchPath × RecursiveMode) :=
  call.new.targetOrder.arrange (targetDirs call.new.env.isDir call.rules).keys

/-- The directories are watched as the rules need them, and no others are. -/
structure Synced (call : SyncCall) (r : WatchRegistry) : Prop where
  recursive : ∀ rule ∈ call.rules, ∀ dir, rule.target = (dir, .recursive) →
    call.new.env.isDir dir = true → r.watcher.lookup dir = some .recursive
  nonRecursive : ∀ rule ∈ call.rules, ∀ dir, rule.target = (dir, .nonRecursive) →
    call.new.env.isDir dir = true → dir ∈ r.watcher
  needed : ∀ dir ∈ r.watcher, ∃ rule ∈ call.rules, rule.target.1 = dir

/-- Each existing directory that a rule needs recursively is already watched recursively, or it is
not watched and its recursive mode is visited first. -/
def RecursiveFirst (r : WatchRegistry) (call : SyncCall) : Prop :=
  ∀ rule ∈ call.rules, ∀ dir, rule.target = (dir, .recursive) → call.new.env.isDir dir = true →
    r.watcher.lookup dir = some .recursive ∨
      dir ∉ r.watcher ∧ call.visited.lookup dir = some .recursive

/-- The service takes exactly those directories for watched that are. -/
def Tracked (r : WatchRegistry) : Prop := ∀ dir, dir ∈ r.currentDirs ↔ dir ∈ r.watcher

variable {r : WatchRegistry} {dir : WatchPath} {mode : RecursiveMode} {call : SyncCall}
  {isDir : WatchPath → Bool} {rules : List WatchRule}

/-! ## Needed directories -/

theorem targetDirs_eq_foldl :
    targetDirs isDir rules = rules.foldl
      (fun dirs rule => if isDir rule.target.1 then dirs.insert rule.target () else dirs) ∅ := by
  unfold targetDirs
  congr 1
  funext dirs rule
  cases rule <;> rfl

/-- What is needed are the directories of rules that exist. -/
theorem mem_targetDirs {target : WatchPath × RecursiveMode} :
    target ∈ targetDirs isDir rules ↔
      (∃ rule ∈ rules, rule.target = target) ∧ isDir target.1 = true := by
  have hfold : ∀ dirs : HashSet (WatchPath × RecursiveMode),
      target ∈ rules.foldl
          (fun dirs rule => if isDir rule.target.1 then dirs.insert rule.target () else dirs) dirs ↔
        target ∈ dirs ∨ (∃ rule ∈ rules, rule.target = target) ∧ isDir target.1 = true := by
    induction rules with
    | nil => simp
    | cons rule rules ih =>
      intro dirs
      rw [List.foldl_cons, ih]
      by_cases hdir : isDir rule.target.1 = true
      · rw [if_pos hdir, AList.mem_insert]
        constructor
        · rintro ((rfl | hmem) | ⟨⟨rule', hrule', htarget⟩, hexists⟩)
          · exact .inr ⟨⟨rule, List.mem_cons_self, rfl⟩, hdir⟩
          · exact .inl hmem
          · exact .inr ⟨⟨rule', List.mem_cons_of_mem _ hrule', htarget⟩, hexists⟩
        · rintro (hmem | ⟨⟨rule', hrule', htarget⟩, hexists⟩)
          · exact .inl (.inr hmem)
          · obtain rfl | hrule' := List.mem_cons.mp hrule'
            · exact .inl (.inl htarget.symm)
            · exact .inr ⟨⟨rule', hrule', htarget⟩, hexists⟩
      · rw [if_neg hdir]
        constructor
        · rintro (hmem | ⟨⟨rule', hrule', htarget⟩, hexists⟩)
          · exact .inl hmem
          · exact .inr ⟨⟨rule', List.mem_cons_of_mem _ hrule', htarget⟩, hexists⟩
        · rintro (hmem | ⟨⟨rule', hrule', htarget⟩, hexists⟩)
          · exact .inl hmem
          · obtain rfl | hrule' := List.mem_cons.mp hrule'
            · exact absurd (htarget ▸ hexists) hdir
            · exact .inr ⟨⟨rule', hrule', htarget⟩, hexists⟩
  rw [targetDirs_eq_foldl, hfold]
  simp

theorem mem_visited {target : WatchPath × RecursiveMode} :
    target ∈ call.visited ↔
      (∃ rule ∈ call.rules, rule.target = target) ∧ call.new.env.isDir target.1 = true :=
  HashMap.mem_arrange_keys.trans mem_targetDirs

/-! ## One call -/

theorem tracked_removeWatch (h : Tracked r) : Tracked (removeWatch r dir) := by
  intro dir'
  exact AList.mem_erase.trans ((and_congr_right fun _ => h dir').trans AList.mem_erase.symm)

theorem tracked_addWatch (h : Tracked r) {target : WatchPath × RecursiveMode} :
    Tracked (addWatch r target) := by
  intro dir'
  unfold addWatch
  split
  · exact h dir'
  · exact (AList.mem_insert _).trans ((or_congr_right (h dir')).trans (AList.mem_insert _).symm)

theorem tracked_syncWatcher (h : Tracked r) : Tracked (syncWatcher call.new r call.rules) := by
  unfold syncWatcher
  refine List.foldlRecOn _ addWatch ?_ fun r hr target _ => tracked_addWatch hr
  exact List.foldlRecOn _ removeWatch h fun r hr dir _ => tracked_removeWatch hr

theorem lookup_foldl_removeWatch {dirs : List WatchPath} :
    (dirs.foldl removeWatch r).watcher.lookup dir =
    if dir ∈ dirs then none else r.watcher.lookup dir := by
  induction dirs generalizing r with
  | nil => rfl
  | cons dir' dirs ih =>
    rw [List.foldl_cons, ih, removeWatch, HashMap.lookup_erase]
    by_cases hdir : dir = dir'
    · simp [hdir]
    · simp [hdir]

/-- A directory gets the mode in which it is visited first, unless it is watched. -/
theorem lookup_foldl_addWatch (h : Tracked r) {targets : List (WatchPath × RecursiveMode)} :
    (targets.foldl addWatch r).watcher.lookup dir =
    (r.watcher.lookup dir).or (targets.lookup dir) := by
  induction targets generalizing r with
  | nil => exact Option.or_none.symm
  | cons target targets ih =>
    rw [List.foldl_cons, ih (tracked_addWatch h), addWatch]
    by_cases hmem : target.1 ∈ r.currentDirs
    · rw [if_pos hmem]
      obtain ⟨mode, hmode⟩ := HashMap.mem_iff_lookup.mp ((h target.1).mp hmem)
      by_cases hdir : dir = target.1
      · subst hdir
        rw [hmode]
        rfl
      · rw [List.lookup_cons, beq_false_of_ne hdir]
    · rw [if_neg hmem, HashMap.lookup_insert]
      by_cases hdir : dir = target.1
      · subst hdir
        have hnone : r.watcher.lookup target.1 = none := by
          rw [AList.lookup_eq_none]
          exact mt (h target.1).mpr hmem
        rw [if_pos rfl, hnone, List.lookup_cons, beq_self_eq_true]
        rfl
      · rw [if_neg hdir, List.lookup_cons, beq_false_of_ne hdir]

/-- The first mode of a directory is one that is visited. -/
theorem mem_of_lookup_visited (h : call.visited.lookup dir = some mode) :
    (dir, mode) ∈ call.visited := by
  obtain ⟨before, behind, hvisited, -⟩ := List.lookup_eq_some_iff.mp h
  rw [hvisited]
  exact List.mem_append_right _ List.mem_cons_self

/-- A directory that is visited has a first mode. -/
theorem exists_lookup_visited (h : (dir, mode) ∈ call.visited) :
    ∃ mode, call.visited.lookup dir = some mode := by
  rw [← Option.isSome_iff_exists, ← Option.ne_none_iff_isSome]
  intro hnone
  have hne := List.lookup_eq_none_iff.mp hnone (dir, mode) h
  simp at hne

/-- The directories that a call unwatches. -/
def obsolete (call : SyncCall) (r : WatchRegistry) : List WatchPath :=
  (call.new.currentOrder.arrange r.currentDirs.keys).filter fun dir =>
    (targetDirs call.new.env.isDir call.rules).keys.all fun target => target.1 ≠ dir

theorem mem_obsolete :
    dir ∈ obsolete call r ↔ dir ∈ r.currentDirs ∧ ∀ mode, (dir, mode) ∉ call.visited := by
  rw [obsolete, List.mem_filter, HashMap.mem_arrange_keys, List.all_eq_true]
  refine and_congr_right fun _ => ⟨fun hall mode hvisited => ?_, fun hnot target htarget => ?_⟩
  · have hne := hall (dir, mode) (AList.mem_keys.mp (HashMap.mem_arrange_keys.mp hvisited))
    simp at hne
  · refine decide_eq_true ?_
    rintro rfl
    exact hnot target.2 (HashMap.mem_arrange_keys.mpr (AList.mem_keys.mpr htarget))

/-- A directory that is needed stays watched as it was, or gets the mode in which it is visited
first. -/
theorem lookup_syncWatcher_of_visited (h : Tracked r) (hvisited : (dir, mode) ∈ call.visited) :
    (syncWatcher call.new r call.rules).watcher.lookup dir =
      (r.watcher.lookup dir).or (call.visited.lookup dir) := by
  have htracked : Tracked ((obsolete call r).foldl removeWatch r) :=
    List.foldlRecOn _ removeWatch h fun r hr dir _ => tracked_removeWatch hr
  show (call.visited.foldl addWatch ((obsolete call r).foldl removeWatch r)).watcher.lookup dir = _
  rw [lookup_foldl_addWatch htracked, lookup_foldl_removeWatch,
    if_neg fun hdir => (mem_obsolete.mp hdir).2 mode hvisited]

/-- A directory that is not needed is not watched. -/
theorem lookup_syncWatcher_of_not_visited (h : Tracked r)
    (hnot : ∀ mode, (dir, mode) ∉ call.visited) :
    (syncWatcher call.new r call.rules).watcher.lookup dir = none := by
  have htracked : Tracked ((obsolete call r).foldl removeWatch r) :=
    List.foldlRecOn _ removeWatch h fun r hr dir _ => tracked_removeWatch hr
  have hfirst : call.visited.lookup dir = none := by
    rw [← Option.not_isSome_iff_eq_none, Option.isSome_iff_exists]
    rintro ⟨mode, hmode⟩
    exact hnot mode (mem_of_lookup_visited hmode)
  show (call.visited.foldl addWatch ((obsolete call r).foldl removeWatch r)).watcher.lookup dir = _
  rw [lookup_foldl_addWatch htracked, lookup_foldl_removeWatch, hfirst, Option.or_none]
  split
  next => rfl
  next hkept =>
    -- It was not unwatched, as it was not watched.
    rw [AList.lookup_eq_none]
    exact fun hmem => hkept (mem_obsolete.mpr ⟨(h dir).mpr hmem, hnot⟩)

/-- After a call the directories are watched as the rules need them exactly when the recursive ones
came first. -/
theorem synced_syncWatcher_iff (h : Tracked r) :
    Synced call (syncWatcher call.new r call.rules) ↔ RecursiveFirst r call := by
  constructor
  · intro hsynced rule hrule dir htarget hdir
    have hvisited : (dir, .recursive) ∈ call.visited :=
      mem_visited.mpr ⟨⟨rule, hrule, htarget⟩, hdir⟩
    have hlookup := hsynced.recursive rule hrule dir htarget hdir
    rw [lookup_syncWatcher_of_visited h hvisited, Option.or_eq_some_iff] at hlookup
    obtain hbefore | ⟨hnone, hfirst⟩ := hlookup
    · exact .inl hbefore
    · exact .inr ⟨AList.lookup_eq_none.mp hnone, hfirst⟩
  · intro hfirst
    refine ⟨fun rule hrule dir htarget hdir => ?_, fun rule hrule dir htarget hdir => ?_,
      fun dir hdir => ?_⟩
    · have hvisited : (dir, .recursive) ∈ call.visited :=
        mem_visited.mpr ⟨⟨rule, hrule, htarget⟩, hdir⟩
      rw [lookup_syncWatcher_of_visited h hvisited, Option.or_eq_some_iff]
      obtain hbefore | ⟨hnot, hlookup⟩ := hfirst rule hrule dir htarget hdir
      · exact .inl hbefore
      · exact .inr ⟨AList.lookup_eq_none.mpr hnot, hlookup⟩
    · have hvisited : (dir, .nonRecursive) ∈ call.visited :=
        mem_visited.mpr ⟨⟨rule, hrule, htarget⟩, hdir⟩
      obtain ⟨mode, hmode⟩ := exists_lookup_visited hvisited
      rw [← AList.lookup_isSome, lookup_syncWatcher_of_visited h hvisited, Option.isSome_or, hmode]
      exact Bool.or_true _
    · by_contra hnot
      have hnone : ∀ mode, (dir, mode) ∉ call.visited := by
        intro mode hvisited
        obtain ⟨⟨rule, hrule, htarget⟩, -⟩ := mem_visited.mp hvisited
        exact hnot ⟨rule, hrule, congrArg Prod.fst htarget⟩
      rw [← AList.lookup_isSome, lookup_syncWatcher_of_not_visited h hnone] at hdir
      cases hdir

/-- The calls of `sync_watcher` in a run of the service. -/
def syncCalls (is : List WatchInput) : List SyncCall :=
  is.filterMap fun i =>
    match i with
    | .reload new => some ⟨new, buildRules new.env new.configs new.configOrder⟩
    | _ => none

/-- What is registered in a run of the service comes from these calls. -/
theorem registry_after {s : WatchState} {is : List WatchInput} :
    (machine.after s is).registry = registrar.after s.registry (syncCalls is) := by
  induction is generalizing s with
  | nil => rfl
  | cons i is ih =>
    rw [Transducer.after_cons, ih]
    cases i <;> rfl

/-- The directory of an executable, which is monitored later as well. -/
def laterMonitored : List SyncCall :=
  let new : WatchReload :=
    ⟨⟨"/", [], fun _ => true, fun _ => true⟩, ∅, .stored, .stored, .stored⟩
  let dir : WatchPath := [.rootDir, .normal "opt"]
  let executable : WatchRule :=
    .binary "app" (dir ++ [.normal "app"]) dir none (Duration.fromSecs 5) none none
  let monitored : WatchRule := .directory "app" dir none none (Duration.fromSecs 5) none none
  [⟨new, [executable]⟩, ⟨new, [executable, monitored]⟩]

end WatchService

end Rsupervisord
