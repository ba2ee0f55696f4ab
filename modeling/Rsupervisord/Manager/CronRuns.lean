import Mathlib.Order.Bounds.Basic
import Rsupervisord.Manager.SupervisorInvariants

/-!
# Cron schedules over time

The cron table keeps the next run of each schedule. A wake-up returns the schedules that are due and
advances them, a refresh builds the table anew from the present time. The runs of the manager are
followed here together with the clock and with the actions that the wake-ups returned.

## Main results

* `CronHistory.returned_of_occurrence`: an occurrence of a schedule is not lost as long as no
  refresh finds the schedule due.
* `CronHistory.not_returned_of_rebuilt`: a refresh loses what is due.
-/

namespace Rsupervisord

/-- The library finds the first occurrence behind a time, when the schedules occur as given. -/
def Croner.Follows (croner : Croner) (Occurs : String → ℤ → Prop) : Prop :=
  ∀ {expression : String} {now next : ℤ}, croner.findNextOccurrence expression now = some next →
    IsLeast {k | now < k ∧ Occurs expression k} next

/-! ## The table -/

/-- What identifies a schedule: the program, what it triggers, and the expression. -/
structure CronKey where
  name : String
  isStop : Bool
  expression : String
  deriving DecidableEq, Repr

/-- The schedule of an entry. -/
def CronEntry.key (e : CronEntry) : CronKey := ⟨e.name, e.isStop, e.expression⟩

/-- The schedule that triggered an action. -/
def CronAction.key : CronAction → CronKey
  | .start name _ expression => ⟨name, false, expression⟩
  | .stop name _ expression => ⟨name, true, expression⟩

namespace CronTable

variable {t : CronTable} {croner : Croner} {Occurs : String → ℤ → Prop} {now k : ℤ} {e : CronEntry}

/-- An entry after a wake-up. -/
def advance (croner : Croner) (now : ℤ) (e : CronEntry) : CronEntry :=
  if e.nextRun ≤ now then
    { e with nextRun := (croner.findNextOccurrence e.expression now).getD e.nextRun }
  else e

/-- A wake-up advances the entries. -/
theorem entries_popDueActions :
    (t.popDueActions croner now).2.entries = t.entries.map (advance croner now) := rfl

/-- Advancing an entry keeps its schedule. -/
@[simp]
theorem key_advance : (advance croner now e).key = e.key := by
  unfold advance
  split <;> rfl

/-- An advanced entry is not behind an occurrence after the wake-up that it was not behind
before. -/
theorem advance_nextRun_le (hcroner : croner.Follows Occurs) (hnow : now < k)
    (hk : Occurs e.expression k) (he : e.nextRun ≤ k) : (advance croner now e).nextRun ≤ k := by
  unfold advance
  by_cases hdue : e.nextRun ≤ now
  · rw [if_pos hdue]
    cases hnext : croner.findNextOccurrence e.expression now with
    | none => exact he
    | some next => exact (hcroner hnext).2 ⟨hnow, hk⟩
  · rw [if_neg hdue]
    exact he

/-- A wake-up returns an action for each due entry. -/
theorem exists_mem_popDueActions (he : e ∈ t.entries) (hdue : e.nextRun ≤ now) :
    ∃ action ∈ (t.popDueActions croner now).1, action.key = e.key := by
  refine ⟨_, List.mem_map_of_mem (List.mem_filter.mpr ⟨he, decide_eq_true hdue⟩), ?_⟩
  unfold CronEntry.key
  cases e.isStop <;> rfl

/-- Each action of a wake-up is for a due entry. -/
theorem due_of_mem_popDueActions {action : CronAction}
    (h : action ∈ (t.popDueActions croner now).1) : ∃ e ∈ t.entries, e.nextRun ≤ now := by
  obtain ⟨e, he, _⟩ := List.mem_map.mp h
  rw [List.mem_filter, decide_eq_true_eq] at he
  exact ⟨e, he⟩

/-- An entry of a new table runs at the first occurrence after the table was built. -/
theorem isLeast_of_mem_fromConfigs {order : HashOrder String} {configs : ProgramConfigs}
    (hcroner : croner.Follows Occurs) (he : e ∈ (fromConfigs croner order now configs).entries) :
    IsLeast {k | now < k ∧ Occurs e.expression k} e.nextRun := by
  have hentry :
      ∀ {name : String} {cfg : ProgramConfig} {isStop : Bool} {expression : Option String},
      e ∈ entryOf croner now name cfg isStop expression →
        IsLeast {k | now < k ∧ Occurs e.expression k} e.nextRun := by
    intro name cfg isStop expression he
    unfold entryOf at he
    split at he
    next =>
      split at he
      next _ _ _ hnext =>
        obtain rfl := List.mem_singleton.mp he
        exact hcroner hnext
      next => cases he
    next => cases he
  unfold fromConfigs at he
  obtain ⟨entry, _, he⟩ := List.mem_flatMap.mp he
  rcases List.mem_append.mp he with he | he <;> exact hentry he

end CronTable

/-! ## What a step does to the table -/

namespace ManagerActor

/-- The environment of a step. -/
def Label.env : Label → ManagerEnv
  | .cancelled env | .cronDue env | .command _ env => env

variable {m m' : ManagerActor} {env : ManagerEnv}

/-- The step is a reload, a restart, a group addition or a group removal that takes effect. -/
inductive Refreshes (m : ManagerActor) : Label → Prop
  | reload {newConfig : SupervisorConfig} {env : ManagerEnv} {newPrograms : ProgramConfigs}
      {newDag : DependencyGraph} {modified added : List (String × ProgramInstance)} {st : Staging} :
      newConfig.resolvePrograms env.resolve = .ok newPrograms →
      DependencyGraph.build env.check env.orders.build newPrograms = .ok newDag →
      stageReload env.croner m.serverIdentifier (m.reloadDiff env newPrograms)
        ⟨m.eventPools, m.nextId⟩ = .ok (modified, added, st) →
      Refreshes m (.command (.reloadConfig newConfig) env)
  | restart {newConfig : SupervisorConfig} {env : ManagerEnv} {newPrograms : ProgramConfigs}
      {newDag : DependencyGraph} {staged : List (String × ProgramInstance)} {st : Staging} :
      newConfig.resolvePrograms env.resolve = .ok newPrograms →
      DependencyGraph.build env.check env.orders.build newPrograms = .ok newDag →
      stage env.croner m.serverIdentifier (newPrograms.iter env.orders.newPrograms)
        ⟨∅, m.nextId⟩ = .ok (staged, st) →
      Refreshes m (.command (.restartDaemon newConfig) env)
  | addGroup {group : String} {env : ManagerEnv} {staged : List (String × ProgramInstance)}
      {st : Staging} : ¬ m.GroupActive group →
      stage env.croner m.serverIdentifier (m.groupEntries env group)
        ⟨m.eventPools, m.nextId⟩ = .ok (staged, st) →
      Refreshes m (.command (.addProcessGroup group) env)
  | removeGroup {group : String} {env : ManagerEnv} : m.groupNames env group ≠ [] →
      (∀ name ∈ m.groupNames env group, m.isBusy env name = false) →
      Refreshes m (.command (.removeProcessGroup group) env)

/-- The table was built anew. -/
def Rebuilt (m' : ManagerActor) (env : ManagerEnv) : Prop :=
  ∃ configs, m'.cronTable = .fromConfigs env.croner env.orders.cron env.now configs

/-- Neither calls nor events change the table. -/
theorem cronTable_ignoresCalls : IgnoresCalls cronTable := ⟨fun _ _ => rfl, fun _ _ => rfl⟩

/-- `sync_logging_config` leaves the table alone. -/
theorem syncLoggingConfig_cronTable (newLogging : LoggingConfig) :
    (m.syncLoggingConfig newLogging).cronTable = m.cronTable := by
  rw [syncLoggingConfig]
  split <;> rfl

/-- A guarded execution leaves the table alone, or it takes place. -/
theorem cronTable_of_guarded {α : Type} {name : String}
    {execute : Except ProgramError α × ManagerActor}
    (h : execute.2.cronTable = m.cronTable) :
    (m.unlessShuttingDown name execute).2.cronTable = m.cronTable := by
  rcases m.unlessShuttingDown_cases name execute with heq | heq
  · rw [heq]
  · rw [heq]
    exact h

/-- The table after a guarded execution that may refresh it. -/
theorem refreshes_of_guarded {α : Type} {name : String}
    {execute : Except ProgramError α × ManagerActor}
    {l : Label} (h : execute.2.cronTable = m.cronTable ∨
      m.Refreshes l ∧ execute.2.Rebuilt env) :
    (m.unlessShuttingDown name execute).2.cronTable = m.cronTable ∨
      m.Refreshes l ∧ (m.unlessShuttingDown name execute).2.Rebuilt env := by
  rcases m.unlessShuttingDown_cases name execute with heq | heq
  · rw [heq]
    exact .inl rfl
  · rw [heq]
    exact h

/-- A command leaves the table alone, unless it takes effect and builds the table anew. -/
theorem handleCommand_cronTable (cmd : Command) :
    (m.handleCommand cmd env).2.cronTable = m.cronTable ∨
      m.Refreshes (.command cmd env) ∧ (m.handleCommand cmd env).2.Rebuilt env := by
  have hcalls := cronTable_ignoresCalls
  cases cmd with
  | startProgram name => exact .inl (cronTable_of_guarded (hcalls.callTargets env _ _))
  | stopProgram name gracePeriod => exact .inl (hcalls.callTargets env _ _)
  | restartProgram name gracePeriod =>
      exact .inl (cronTable_of_guarded (hcalls.callTargets env _ _))
  | signalProgram name s => exact .inl (cronTable_of_guarded (hcalls.callTargets env _ _))
  | startGroup group => exact .inl (cronTable_of_guarded (hcalls.executeStartGroup env group))
  | stopGroup group gracePeriod => exact .inl (hcalls.executeStopGroup env group gracePeriod)
  | restartGroup group gracePeriod =>
      exact .inl (cronTable_of_guarded (hcalls.executeRestartGroup env group gracePeriod))
  | startAll =>
      exact .inl (@cronTable_of_guarded m _ _ (.ok (), m.executeStartAll env)
        (hcalls.executeStartAll env))
  | stopAll gracePeriod => exact .inl (hcalls.executeStopAll env gracePeriod)
  | reloadConfig newConfig =>
      refine @refreshes_of_guarded m _ _ _ (m.executeReloadConfig newConfig env) _ ?_
      rcases m.executeReloadConfig_cases newConfig env with ⟨e, hres⟩ |
        ⟨newPrograms, newDag, hresolve, hbuild, ⟨e, _, hres⟩ | ⟨_, _, _, hstage, hres⟩⟩
      · rw [hres]
        exact .inl rfl
      · rw [hres]
        exact .inl rfl
      · rw [hres]
        exact .inr ⟨.reload hresolve hbuild hstage, _, syncLoggingConfig_cronTable _⟩
  | restartDaemon newConfig =>
      refine @refreshes_of_guarded m _ _ _ (m.executeRestartDaemon newConfig env) _ ?_
      rcases m.executeRestartDaemon_cases newConfig env with ⟨e, hres⟩ |
        ⟨newPrograms, newDag, hresolve, hbuild, ⟨e, _, hres⟩ | ⟨_, _, hstage, hres⟩⟩
      · rw [hres]
        exact .inl rfl
      · rw [hres]
        exact .inl rfl
      · rw [hres]
        exact .inr ⟨.restart hresolve hbuild hstage, _, hcalls.executeStartAll env⟩
  | addProcessGroup group =>
      refine @refreshes_of_guarded m _ _ _ (m.executeAddProcessGroup group env) _ ?_
      rcases m.executeAddProcessGroup_cases group env with ⟨r, _, hres⟩ |
        ⟨_, _, hinactive, hstage, hres⟩
      · rw [hres]
        exact .inl rfl
      · rw [hres]
        exact .inr ⟨.addGroup hinactive hstage, _, rfl⟩
  | removeProcessGroup group =>
      refine @refreshes_of_guarded m _ _ _ (m.executeRemoveProcessGroup group env) _ ?_
      rcases m.executeRemoveProcessGroup_cases group env with ⟨r, _, hres⟩ | ⟨hactive, hidle, hres⟩
      · rw [hres]
        exact .inl rfl
      · rw [hres]
        exact .inr ⟨.removeGroup hactive hidle, _, rfl⟩
  | shutdown =>
      exact .inl ((hcalls.shutdownPrograms env).trans (hcalls.executeStopAll env none))

/-- A step leaves the table alone, or advances it on a wake-up, or builds it anew. -/
theorem next_cronTable {l : Label} (h : m.next l = some m') :
    (∀ env, l ≠ .cronDue env) ∧ m'.cronTable = m.cronTable ∨
      (∃ env, l = .cronDue env ∧
        m'.cronTable = (m.cronTable.popDueActions env.croner env.now).2) ∨
      m.Refreshes l ∧ m'.Rebuilt l.env := by
  have hcalls := cronTable_ignoresCalls
  simp only [ManagerActor.next] at h
  split at h
  next => cases h
  next =>
    cases l with
    | cancelled env =>
        obtain rfl := Option.some.inj h
        refine .inl ⟨by rintro env ⟨⟩, ?_⟩
        exact (hcalls.shutdownPrograms env).trans (hcalls.executeStopAll env none)
    | cronDue env =>
        simp only at h
        split at h
        next =>
          obtain rfl := Option.some.inj h
          exact .inr (.inl ⟨env, rfl, hcalls.handleDueCronJobs env⟩)
        next => cases h
    | command cmd env =>
        obtain rfl := Option.some.inj h
        rcases @handleCommand_cronTable m env cmd with htable | hrebuilt
        · exact .inl ⟨by rintro env ⟨⟩, htable⟩
        · exact .inr (.inr hrebuilt)

end ManagerActor

/-! ## Runs with a clock -/

/-- The manager, the time of its last step, and what the wake-ups returned so far. -/
structure CronHistory where
  manager : ManagerActor
  clock : ℤ
  /-- The actions, each with the time of the wake-up that returned it. -/
  returned : List (ℤ × CronAction)

/-- What a step returns from the table. -/
def ManagerActor.returnedBy (m : ManagerActor) : ManagerActor.Label → List (ℤ × CronAction)
  | .cronDue env =>
      (m.cronTable.popDueActions env.croner env.now).1.map fun action => (env.now, action)
  | _ => []

namespace CronHistory

/-- A step of the manager at a time that is not before its last step. -/
def next (h : CronHistory) (l : ManagerActor.Label) : Option CronHistory :=
  if h.clock ≤ l.env.now then
    (h.manager.next l).map fun m => ⟨m, l.env.now, h.returned ++ h.manager.returnedBy l⟩
  else none

/-- The runs of a manager that uses the given library. -/
def system (croner : Croner) : TransitionSystem CronHistory ManagerActor.Label where
  init h := ∃ config env, env.croner = croner ∧ ManagerActor.build config env = .ok h.manager ∧
    h.clock = env.now ∧ h.returned = []
  step h l h' := l.env.croner = croner ∧ h.next l = some h'

/-- The schedule is in the table. -/
def HasEntry (h : CronHistory) (key : CronKey) : Prop :=
  ∃ e ∈ h.manager.cronTable.entries, e.key = key

/-- The step builds the table anew while the schedule is due. -/
def RebuildsWhileDue (h : CronHistory) (key : CronKey) (l : ManagerActor.Label) : Prop :=
  h.manager.Refreshes l ∧ ∃ e ∈ h.manager.cronTable.entries, e.key = key ∧ e.nextRun ≤ l.env.now

/-- An action for the schedule was returned at the time `k` or later. -/
def ReturnedSince (h : CronHistory) (key : CronKey) (k : ℤ) : Prop :=
  ∃ s action, (s, action) ∈ h.returned ∧ action.key = key ∧ k ≤ s

variable {h h' : CronHistory} {l : ManagerActor.Label} {croner : Croner}
  {Occurs : String → ℤ → Prop} {key : CronKey} {k t : ℤ}

/-- What a step does: the clock does not go back, what was returned stays, and the table stays, is
advanced by a wake-up, or is built anew. -/
theorem step_cases (hstep : (system croner).step h l h') :
    h.clock ≤ h'.clock ∧ h'.clock = l.env.now ∧
      h'.returned = h.returned ++ h.manager.returnedBy l ∧
      ((∀ env, l ≠ .cronDue env) ∧ h'.manager.cronTable = h.manager.cronTable ∨
        (∃ env, l = .cronDue env ∧
          h'.manager.cronTable = (h.manager.cronTable.popDueActions croner env.now).2) ∨
        h.manager.Refreshes l ∧ ∃ order configs,
          h'.manager.cronTable = .fromConfigs croner order l.env.now configs) := by
  obtain ⟨rfl, hnext⟩ := hstep
  unfold next at hnext
  split at hnext
  next hclock =>
    obtain ⟨m, hm, rfl⟩ := Option.map_eq_some_iff.mp hnext
    refine ⟨hclock, rfl, rfl, ?_⟩
    rcases ManagerActor.next_cronTable hm with hkept | ⟨env, rfl, hpopped⟩ | ⟨hrefresh,
      configs, htable⟩
    · exact .inl hkept
    · exact .inr (.inl ⟨env, rfl, hpopped⟩)
    · exact .inr (.inr ⟨hrefresh, _, configs, htable⟩)
  next => cases hnext

/-- What was returned stays returned. -/
theorem ReturnedSince.step (hstep : (system croner).step h l h') (hret : h.ReturnedSince key k) :
    h'.ReturnedSince key k := by
  obtain ⟨_, _, hreturned, _⟩ := step_cases hstep
  obtain ⟨s, action, hmem, hkey, hs⟩ := hret
  refine ⟨s, action, ?_, hkey, hs⟩
  rw [hreturned]
  exact List.mem_append_left _ hmem

/-- No entry is behind an occurrence that is still to come. -/
def Current (Occurs : String → ℤ → Prop) (h : CronHistory) : Prop :=
  ∀ e ∈ h.manager.cronTable.entries, ∀ k, h.clock < k → Occurs e.expression k → e.nextRun ≤ k

/-- A built table is current. -/
theorem current_of_rebuilt {order : HashOrder String} {configs : ProgramConfigs}
    (hcroner : croner.Follows Occurs)
    (htable : h.manager.cronTable = .fromConfigs croner order h.clock configs) :
    h.Current Occurs := by
  intro e he k hk hoccurs
  rw [htable] at he
  exact (CronTable.isLeast_of_mem_fromConfigs hcroner he).2 ⟨hk, hoccurs⟩

/-- A step keeps the table current. -/
theorem Current.step (hcroner : croner.Follows Occurs) (hstep : (system croner).step h l h')
    (hcurrent : h.Current Occurs) : h'.Current Occurs := by
  obtain ⟨hclock, hnow, _, hcases⟩ := step_cases hstep
  rcases hcases with ⟨_, htable⟩ | ⟨env, rfl, htable⟩ | ⟨_, order, configs, htable⟩
  · intro e he k hk
    rw [htable] at he
    exact hcurrent e he k (hclock.trans_lt hk)
  · intro e he k hk hoccurs
    rw [htable, CronTable.entries_popDueActions, List.mem_map] at he
    obtain ⟨e, he, rfl⟩ := he
    have hexpr : (CronTable.advance croner env.now e).expression = e.expression :=
      congrArg CronKey.expression CronTable.key_advance
    rw [hexpr] at hoccurs
    rw [hnow] at hk
    exact CronTable.advance_nextRun_le hcroner hk hoccurs
      (hcurrent e he k ((hclock.trans_eq hnow).trans_lt hk) hoccurs)
  · rw [← hnow] at htable
    exact current_of_rebuilt hcroner htable

/-- A build builds the table. -/
theorem build_cronTable {config : SupervisorConfig} {env : ManagerEnv} {m : ManagerActor}
    (hbuild : ManagerActor.build config env = .ok m) : m.Rebuilt env := by
  simp only [ManagerActor.build, Except.bind_eq_ok] at hbuild
  obtain ⟨newPrograms, _, _, _, _, _, hbuild⟩ := hbuild
  obtain rfl := Except.ok.inj hbuild
  exact ⟨newPrograms, rfl⟩

/-- The table is current in every reachable state. -/
theorem current_of_reachable (hcroner : croner.Follows Occurs)
    (hreach : (system croner).Reachable h) : h.Current Occurs := by
  refine TransitionSystem.ReachableWhile.invariant (I := Current Occurs) ?_ ?_ hreach
  · rintro h ⟨config, env, rfl, hbuild, hclock, _⟩
    obtain ⟨configs, htable⟩ := build_cronTable hbuild
    rw [← hclock] at htable
    exact current_of_rebuilt hcroner htable
  · intro h l h' _ hcurrent _ hstep
    exact hcurrent.step hcroner hstep

/-! ## Accounting for an occurrence -/

/-- The occurrence `k` is accounted for: it was returned, or the schedule is not behind it. After
the time `t` the schedule is still there then. -/
def Accounts (key : CronKey) (k t : ℤ) (h : CronHistory) : Prop :=
  h.ReturnedSince key k ∨
    (∀ e ∈ h.manager.cronTable.entries, e.key = key → e.nextRun ≤ k) ∧
    (t < h.clock → h.HasEntry key)

/-- A step that does not build the table anew while the schedule is due keeps the account, when the
schedule is there up to the time `t`. -/
theorem Accounts.step (hcroner : croner.Follows Occurs) (hoccurs : Occurs key.expression k)
    (hkt : k ≤ t) (hstep : (system croner).step h l h') (hentry : h.clock ≤ t → h.HasEntry key)
    (hundue : ¬ h.RebuildsWhileDue key l) (haccounts : h.Accounts key k t) :
    h'.Accounts key k t := by
  rcases haccounts with hreturned | ⟨hnext, hlate⟩
  · exact .inl (hreturned.step hstep)
  have hhas : h.HasEntry key := (le_or_gt h.clock t).elim hentry hlate
  obtain ⟨e₀, he₀, hkey₀⟩ := hhas
  obtain ⟨hclock, hnow, hret, hcases⟩ := step_cases hstep
  rcases hcases with ⟨_, htable⟩ | ⟨env, rfl, htable⟩ | ⟨hrefresh, order, configs, htable⟩
  · refine .inr ⟨?_, fun _ => ⟨e₀, htable ▸ he₀, hkey₀⟩⟩
    rw [htable]
    exact hnext
  · -- A wake-up at the occurrence or later returns it.
    by_cases hlater : k ≤ env.now
    · obtain ⟨action, haction, hkey⟩ := @CronTable.exists_mem_popDueActions _ env.croner _ _
        he₀ ((hnext e₀ he₀ hkey₀).trans hlater)
      refine .inl ⟨env.now, action, ?_, hkey.trans hkey₀, hlater⟩
      rw [hret]
      exact List.mem_append_right _ (List.mem_map_of_mem haction)
    · refine .inr ⟨?_, fun _ => ⟨CronTable.advance croner env.now e₀, ?_, ?_⟩⟩
      · intro e he hkey
        rw [htable, CronTable.entries_popDueActions, List.mem_map] at he
        obtain ⟨e, he, rfl⟩ := he
        rw [CronTable.key_advance] at hkey
        have hexpr : e.expression = key.expression := congrArg CronKey.expression hkey
        exact CronTable.advance_nextRun_le hcroner (not_le.mp hlater) (hexpr ▸ hoccurs)
          (hnext e he hkey)
      · rw [htable, CronTable.entries_popDueActions]
        exact List.mem_map_of_mem he₀
      · rw [CronTable.key_advance, hkey₀]
  · -- The schedule is not due at the refresh, so that the occurrence is still to come.
    have hbefore : l.env.now < k := by
      by_contra hdue
      exact hundue ⟨hrefresh, e₀, he₀, hkey₀, (hnext e₀ he₀ hkey₀).trans (not_lt.mp hdue)⟩
    refine .inr ⟨?_, fun hlate => absurd (hnow ▸ hlate) (not_lt.mpr (hbefore.le.trans hkt))⟩
    intro e he hkey
    rw [htable] at he
    have hexpr : e.expression = key.expression := congrArg CronKey.expression hkey
    exact (CronTable.isLeast_of_mem_fromConfigs hcroner he).2 ⟨hbefore, hexpr ▸ hoccurs⟩

/-- What was due when the table was built anew is lost: a wake-up at that time returns nothing. -/
theorem not_returned_of_rebuilt (hcroner : croner.Follows Occurs) {order : HashOrder String}
    {configs : ProgramConfigs} {env : ManagerEnv}
    (htable : h.manager.cronTable = .fromConfigs croner order h.clock configs)
    (hwake : (system croner).step h (.cronDue env) h') (hnow : env.now = h.clock) :
    h'.returned = h.returned := by
  obtain ⟨_, _, hret, _⟩ := step_cases hwake
  have hnone : h.manager.returnedBy (.cronDue env) = [] := by
    refine List.map_eq_nil_iff.mpr (List.eq_nil_iff_forall_not_mem.mpr fun action haction => ?_)
    obtain ⟨e, he, hdue⟩ := CronTable.due_of_mem_popDueActions haction
    rw [htable] at he
    have hlater := (CronTable.isLeast_of_mem_fromConfigs hcroner he).1.1
    exact absurd hlater (not_lt.mpr (hdue.trans_eq hnow))
  rw [hret, hnone, List.append_nil]

/-! ## A daemon with two schedules -/

end CronHistory

/-- A library that knows two expressions, for every minute and for every five minutes. -/
def Croner.minutes : Croner where
  parse expression :=
    if expression ∈ ["* * * * *", "*/5 * * * *"] then .ok () else .error "invalid pattern"
  findNextOccurrence expression now :=
    let period := if expression = "* * * * *" then 60 else 300
    some ((now / period + 1) * period)

/-- When these expressions occur. -/
def OccursInMinutes (expression : String) (k : ℤ) : Prop :=
  (if expression = "* * * * *" then 60 else 300) ∣ k

instance (expression : String) (k : ℤ) : Decidable (OccursInMinutes expression k) :=
  inferInstanceAs (Decidable (_ ∣ k))

/-- The library finds the first occurrence. -/
theorem Croner.minutes_follows : Croner.minutes.Follows OccursInMinutes := by
  intro expression now next hnext
  obtain rfl := Option.some.inj hnext
  unfold OccursInMinutes
  have hpos : (0 : ℤ) < if expression = "* * * * *" then 60 else 300 := by split <;> decide
  generalize (if expression = "* * * * *" then (60 : ℤ) else 300) = period at hpos ⊢
  refine ⟨⟨Int.lt_ediv_add_one_mul_self now hpos, Dvd.intro_left _ rfl⟩, ?_⟩
  rintro k ⟨hk, c, rfl⟩
  rw [Int.mul_comm period]
  refine Int.mul_le_mul_of_nonneg_right ?_ hpos.le
  exact Int.add_one_le_iff.mpr (Int.ediv_lt_of_lt_mul hpos (by rwa [Int.mul_comm]))

/-- A database that is started every five minutes and a web server that is started every minute. -/
def cronConfig : SupervisorConfig where
  programs := HashMap.extend ∅
    [("db", { command := "postgres", cron := some "*/5 * * * *" }),
      ("web", { command := "nginx", cron := some "* * * * *" })]

/-- The schedule of the database. -/
def cronConfigKey : CronKey := ⟨"db", false, "*/5 * * * *"⟩

/-- An environment with the clock at `now` seconds. -/
def ManagerEnv.atSecond (now : ℤ) : ManagerEnv :=
    { ManagerEnv.plain with croner := .minutes, now := now }

namespace CronHistory

instance (h : CronHistory) (key : CronKey) : Decidable (h.HasEntry key) :=
  inferInstanceAs (Decidable (∃ e ∈ h.manager.cronTable.entries, e.key = key))

/-! ## No occurrence is lost -/

/-- An occurrence after the time `t₀` and up to `t` is returned by the first wake-up at `t` or
later, when the schedule is in the table from `t₀` to `t` and no step builds the table anew while it
is due. -/
theorem returned_of_occurrence {t₀ : ℤ} {h₀ h₁ h₂ : CronHistory} {ls : List ManagerActor.Label}
    {env : ManagerEnv} (hcroner : croner.Follows Occurs) (hreach : (system croner).Reachable h₀)
    (hclock : h₀.clock ≤ t₀) (hoccurs : Occurs key.expression k) (hk : t₀ < k) (hkt : k ≤ t)
    (hrun : (system croner).RunWhile (fun h l =>
      (h.clock ≤ t → h.HasEntry key) ∧ ¬ h.RebuildsWhileDue key l) h₀ ls h₁)
    (hentry : h₁.clock ≤ t → h₁.HasEntry key)
    (hwake : (system croner).step h₁ (.cronDue env) h₂) (ht : t ≤ env.now) :
    h₂.ReturnedSince key k := by
  have hcurrent := current_of_reachable hcroner hreach
  have hstart : h₀.Accounts key k t := by
    refine .inr ⟨fun e he hkey => ?_, fun hlate => ?_⟩
    · have hexpr : e.expression = key.expression := congrArg CronKey.expression hkey
      exact hcurrent e he k (hclock.trans_lt hk) (hexpr ▸ hoccurs)
    · exact absurd (hclock.trans_lt (hk.trans_le hkt)) (not_lt.mpr hlate.le)
  have hend : h₁.Accounts key k t := hrun.invariant (fun a l b hG ha hstep =>
    ha.step hcroner hoccurs hkt hstep hG.1 hG.2) hstart
  rcases hend with hreturned | ⟨hnext, hlate⟩
  · exact hreturned.step hwake
  · obtain ⟨e, he, hkey⟩ := (le_or_gt h₁.clock t).elim hentry hlate
    obtain ⟨action, haction, hactionKey⟩ := @CronTable.exists_mem_popDueActions
      _ env.croner _ _ he ((hnext e he hkey).trans (hkt.trans ht))
    obtain ⟨_, _, hret, _⟩ := step_cases hwake
    refine ⟨env.now, action, ?_, hactionKey.trans hkey, hkt.trans ht⟩
    rw [hret]
    exact List.mem_append_right _ (List.mem_map_of_mem haction)

/-- The table is built anew at 250 seconds, before the schedule of the database is due, and the
wake-up at 300 starts the database. -/
theorem returned_of_occurrence_after_reload :
    ∃ h₂, (system .minutes).Reachable h₂ ∧ h₂.clock = 300 ∧ h₂.ReturnedSince cronConfigKey 300 := by
  obtain ⟨m, hbuild, hentry, hundue, hany⟩ := ManagerActor.exists_build (fun m =>
    (⟨m, 241, []⟩ : CronHistory).HasEntry cronConfigKey ∧
      (∀ e ∈ m.cronTable.entries, ¬ e.nextRun ≤ 250) ∧
      ((⟨m, 241, []⟩ : CronHistory).next
        (.command (.reloadConfig cronConfig) (.atSecond 250))).any (fun h₁ =>
          decide (h₁.HasEntry cronConfigKey) &&
            (h₁.next (.cronDue (.atSecond 300))).any fun h₂ => h₂.clock = 300) = true)
    cronConfig (.atSecond 241) (by decide +kernel)
  obtain ⟨h₁, hreload, hany⟩ := (Option.any_eq_true _ _).mp hany
  rw [Bool.and_eq_true] at hany
  obtain ⟨h₂, hwake, hclock⟩ := (Option.any_eq_true _ _).mp hany.2
  have hinit : (system .minutes).Reachable ⟨m, 241, []⟩ :=
    .init ⟨cronConfig, .atSecond 241, rfl, hbuild, rfl, rfl⟩
  have hstep : (system .minutes).step _ (.command (.reloadConfig cronConfig) (.atSecond 250)) h₁ :=
    ⟨rfl, hreload⟩
  have hstep' : (system .minutes).step h₁ (.cronDue (.atSecond 300)) h₂ := ⟨rfl, hwake⟩
  refine ⟨h₂, .step (.step hinit trivial hstep) trivial hstep', of_decide_eq_true hclock, ?_⟩
  have hguard : ¬ CronHistory.RebuildsWhileDue ⟨m, 241, []⟩ cronConfigKey
      (.command (.reloadConfig cronConfig) (.atSecond 250)) :=
    fun hdue => hdue.2.elim fun e he => hundue e he.1 he.2.2
  have hafter : (241 : ℤ) < 300 := by decide
  exact returned_of_occurrence (t := 300) Croner.minutes_follows hinit le_rfl (by decide)
    hafter le_rfl (.cons ⟨fun _ => hentry, hguard⟩ hstep (.nil h₁))
    (fun _ => of_decide_eq_true hany.1) hstep' le_rfl

/-- A reload at 301 seconds finds the schedule of the database due since 300 and builds the table
anew: the next wake-up starts the web server only. -/
theorem exists_occurrence_lost :
    Croner.minutes.Follows OccursInMinutes ∧ OccursInMinutes cronConfigKey.expression 300 ∧
      ∃ h₀ h₁ h₂, (system .minutes).Reachable h₀ ∧ h₀.clock = 241 ∧ h₀.HasEntry cronConfigKey ∧
        (system .minutes).step h₀ (.command (.reloadConfig cronConfig) (.atSecond 301)) h₁ ∧
        h₁.HasEntry cronConfigKey ∧ (system .minutes).step h₁ (.cronDue (.atSecond 360)) h₂ ∧
        ¬ h₂.ReturnedSince cronConfigKey 300 := by
  refine ⟨Croner.minutes_follows, by decide, ?_⟩
  obtain ⟨m, hbuild, hentry, hany⟩ := ManagerActor.exists_build (fun m =>
    (⟨m, 241, []⟩ : CronHistory).HasEntry cronConfigKey ∧
      ((⟨m, 241, []⟩ : CronHistory).next
        (.command (.reloadConfig cronConfig) (.atSecond 301))).any (fun h₁ =>
          decide (h₁.HasEntry cronConfigKey) && (h₁.next (.cronDue (.atSecond 360))).any fun h₂ =>
            h₂.returned = [(360, .start "web" "web" "* * * * *")]) = true)
    cronConfig (.atSecond 241) (by decide +kernel)
  obtain ⟨h₁, hreload, hany⟩ := (Option.any_eq_true _ _).mp hany
  rw [Bool.and_eq_true] at hany
  obtain ⟨h₂, hwake, hreturned⟩ := (Option.any_eq_true _ _).mp hany.2
  refine ⟨_, h₁, h₂, .init ⟨cronConfig, .atSecond 241, rfl, hbuild, rfl, rfl⟩, rfl, hentry,
    ⟨rfl, hreload⟩, of_decide_eq_true hany.1, ⟨rfl, hwake⟩, ?_⟩
  rintro ⟨s, action, hmem, hkey, _⟩
  rw [of_decide_eq_true hreturned, List.mem_singleton] at hmem
  obtain ⟨rfl, rfl⟩ := Prod.mk.inj hmem
  exact absurd hkey (by decide)

end CronHistory

end Rsupervisord
