import Rsupervisord.Manager.Staging

/-!
# What the manager's operations change

Four operations change the managed programs: a reload, a restart, a group addition and a group
removal. For each of them one lemma lists the outcomes, and one says what a successful call does to
the managed part of the state. All other operations leave that part alone. `Effect` collects what
one step of the loop may do, so that later proofs do not look into the operations again.

## Main results

* `executeReloadConfig_cases` and its siblings: the outcomes of an operation.
* `next_effect`: what one step of the loop does to the managed part.
-/

namespace Rsupervisord

namespace ManagerActor

variable {m m' : ManagerActor} {env : ManagerEnv} {newConfig : SupervisorConfig}

/-! ## Operations -/

/-- The graph after a refresh: a graph that cannot be built leaves the old one in place. -/
def refreshedDag (env : ManagerEnv) (dag : DependencyGraph) (configs : ProgramConfigs) :
    DependencyGraph :=
  match DependencyGraph.build env.check env.orders.refresh configs with
  | .ok dag => dag
  | .error _ => dag

/-- A refresh changes the graph, and publishes the configurations. -/
theorem refreshDerivedState_managed :
    (m.refreshDerivedState env).managed = { m.managed with
      dag := refreshedDag env m.dag m.configs
      sharedConfigs := m.configs } := by
  rw [refreshDerivedState, refreshedDag]
  cases DependencyGraph.build env.check env.orders.refresh m.configs <;> rfl

/-- The diff that a reload computes. -/
def reloadDiff (m : ManagerActor) (env : ManagerEnv) (newPrograms : ProgramConfigs) : ConfigDiff :=
  ConfigDiff.compute env.orders.configs env.orders.newPrograms m.configs newPrograms

/-- The entries that a reload instantiates. -/
def reloadEntries (m : ManagerActor) (env : ManagerEnv) (newPrograms : ProgramConfigs) :
    List (String × ProgramConfig) :=
  ((m.reloadDiff env newPrograms).modified ++ (m.reloadDiff env newPrograms).added).map
    fun c => (c.name, c)

/-- The summary that a reload returns. -/
def reloadSummary (diff : ConfigDiff) : ReloadSummary where
  added := diff.added.map (·.name)
  removed := diff.removed
  modified := diff.modified.map (·.name)
  unchanged := diff.unchanged

/-- The staging of a reload is one staging of the modified and the added programs. -/
theorem stageReload_eq {croner : Croner} {serverIdentifier : String} {diff : ConfigDiff}
    {st st' : Staging} {modified added : List (String × ProgramInstance)}
    (h : stageReload croner serverIdentifier diff st = .ok (modified, added, st')) :
    stage croner serverIdentifier ((diff.modified ++ diff.added).map fun c => (c.name, c)) st =
        .ok (modified ++ added, st') ∧
      configsOf modified = diff.modified.map fun c => (c.name, c) := by
  simp only [stageReload, Except.bind_eq_ok] at h
  obtain ⟨⟨modified', st₁⟩, hmodified, ⟨added', st₂⟩, hadded, h⟩ := h
  obtain ⟨rfl, rfl, rfl⟩ : modified' = modified ∧ added' = added ∧ st₂ = st' := by
    simpa using Except.ok.inj h
  rw [List.map_append]
  exact ⟨stage_append hmodified hadded, (stage_staged hmodified).entries_eq⟩

/-- The steps of a reload after the programs were changed. -/
def finishReload (m : ManagerActor) (newConfig : SupervisorConfig) (env : ManagerEnv)
    (newDag : DependencyGraph) (diff : ConfigDiff) : ManagerActor :=
  let m := { m with
    dag := newDag
    cronTable := .fromConfigs env.croner env.orders.cron env.now m.configs
    watchConfigs := m.configs }
  let m := m.syncLoggingConfig newConfig.logging
  let m := { m with sharedConfigs := m.configs }
  m.publishSystem (.configReloaded (diff.added.map (·.name)) diff.removed
    (diff.modified.map (·.name)) diff.unchanged)

/-- The state after the commit of a reload. -/
def commitReload (m : ManagerActor) (newConfig : SupervisorConfig) (env : ManagerEnv)
    (newPrograms : ProgramConfigs) (newDag : DependencyGraph)
    (modified added : List (String × ProgramInstance)) (st : Staging) : ManagerActor :=
  let diff := m.reloadDiff env newPrograms
  let m := { m.setPending newPrograms with eventPools := st.eventPools, nextId := st.nextId }
  let m := diff.removed.foldl removeProgram m
  let m := modified.foldl replaceProgram m
  let m := added.foldl addProgram m
  m.finishReload newConfig env newDag diff

/-- The outcomes of a reload. -/
theorem executeReloadConfig_cases (m : ManagerActor) (newConfig : SupervisorConfig)
    (env : ManagerEnv) :
    (∃ e, m.executeReloadConfig newConfig env = (.error e, m)) ∨
    ∃ newPrograms newDag, newConfig.resolvePrograms env.resolve = .ok newPrograms ∧
      DependencyGraph.build env.check env.orders.build newPrograms = .ok newDag ∧
      ((∃ e, stageReload env.croner m.serverIdentifier (m.reloadDiff env newPrograms)
            ⟨m.eventPools, m.nextId⟩ = .error e ∧
          m.executeReloadConfig newConfig env = (.error e, m.setPending newPrograms)) ∨
        ∃ modified added st, stageReload env.croner m.serverIdentifier
            (m.reloadDiff env newPrograms) ⟨m.eventPools, m.nextId⟩ = .ok (modified, added, st) ∧
          m.executeReloadConfig newConfig env =
            (.ok (reloadSummary (m.reloadDiff env newPrograms)),
              m.commitReload newConfig env newPrograms newDag modified added st)) := by
  cases hresolve : newConfig.resolvePrograms env.resolve with
  | error e => exact .inl ⟨e, by simp only [executeReloadConfig, hresolve]⟩
  | ok newPrograms =>
      cases hbuild : DependencyGraph.build env.check env.orders.build newPrograms with
      | error e => exact .inl ⟨e, by simp only [executeReloadConfig, hresolve, hbuild]⟩
      | ok newDag =>
          refine .inr ⟨newPrograms, newDag, rfl, hbuild, ?_⟩
          cases hstage : stageReload env.croner m.serverIdentifier (m.reloadDiff env newPrograms)
              ⟨m.eventPools, m.nextId⟩ with
          | error e =>
              refine .inl ⟨e, rfl, ?_⟩
              rw [reloadDiff] at hstage
              simp only [executeReloadConfig, hresolve, hbuild, setPending, hstage]
          | ok r =>
              obtain ⟨modified, added, st⟩ := r
              refine .inr ⟨modified, added, st, rfl, ?_⟩
              rw [reloadDiff] at hstage
              simp only [executeReloadConfig, hresolve, hbuild, setPending, hstage]
              rfl

/-- The state after the commit of a restart. -/
def commitRestart (m : ManagerActor) (newConfig : SupervisorConfig) (env : ManagerEnv)
    (newPrograms : ProgramConfigs) (staged : List (String × ProgramInstance)) (st : Staging) :
    ManagerActor :=
  let m := (m.setPending newPrograms).executeStopAll env none
  let m := m.shutdownPrograms env
  let m := { m with
    programs := HashMap.extend ∅ staged
    configs := HashMap.extend ∅ (configsOf staged)
    eventPools := st.eventPools
    nextId := st.nextId }
  let m := m.syncLoggingConfig newConfig.logging
  let m := m.refreshDerivedState env
  let m := m.executeStartAll env
  m.publishSystem (.daemonLifecycle "restarted" env.timestampSecs)

/-- The outcomes of a restart. -/
theorem executeRestartDaemon_cases (m : ManagerActor) (newConfig : SupervisorConfig)
    (env : ManagerEnv) :
    (∃ e, m.executeRestartDaemon newConfig env = (.error e, m)) ∨
    ∃ newPrograms newDag, newConfig.resolvePrograms env.resolve = .ok newPrograms ∧
      DependencyGraph.build env.check env.orders.build newPrograms = .ok newDag ∧
      ((∃ e, stage env.croner m.serverIdentifier (newPrograms.iter env.orders.newPrograms)
            ⟨∅, m.nextId⟩ = .error e ∧
          m.executeRestartDaemon newConfig env = (.error e, m.setPending newPrograms)) ∨
        ∃ staged st, stage env.croner m.serverIdentifier
            (newPrograms.iter env.orders.newPrograms) ⟨∅, m.nextId⟩ = .ok (staged, st) ∧
          m.executeRestartDaemon newConfig env =
            (.ok (), m.commitRestart newConfig env newPrograms staged st)) := by
  cases hresolve : newConfig.resolvePrograms env.resolve with
  | error e => exact .inl ⟨e, by simp only [executeRestartDaemon, hresolve]⟩
  | ok newPrograms =>
      cases hbuild : DependencyGraph.build env.check env.orders.build newPrograms with
      | error e => exact .inl ⟨e, by simp only [executeRestartDaemon, hresolve, hbuild]⟩
      | ok newDag =>
          refine .inr ⟨newPrograms, newDag, rfl, hbuild, ?_⟩
          cases hstage : stage env.croner m.serverIdentifier
              (newPrograms.iter env.orders.newPrograms) ⟨∅, m.nextId⟩ with
          | error e =>
              exact .inl ⟨e, rfl, by
                simp only [executeRestartDaemon, hresolve, hbuild, setPending, hstage]⟩
          | ok r =>
              obtain ⟨staged, st⟩ := r
              refine .inr ⟨staged, st, rfl, ?_⟩
              simp only [executeRestartDaemon, hresolve, hbuild, setPending, hstage]
              rfl

/-- The entries that a group addition instantiates. -/
def groupEntries (m : ManagerActor) (env : ManagerEnv) (group : String) :
    List (String × ProgramConfig) :=
  (membersOf m.pendingConfigs env.orders.pendingConfigs group).map fun cfg => (cfg.name, cfg)

/-- The state after the commit of a group addition. -/
def commitGroup (m : ManagerActor) (env : ManagerEnv) (group : String)
    (staged : List (String × ProgramInstance)) (st : Staging) : ManagerActor :=
  let m := { m with eventPools := st.eventPools, nextId := st.nextId }
  let m := staged.foldl addProgram m
  let m := m.refreshDerivedState env
  m.publishSystem (.processGroupAdded group)

/-- A program of the group is managed. -/
def GroupActive (m : ManagerActor) (group : String) : Prop :=
  ∃ name cfg, m.configs.lookup name = some cfg ∧ cfg.group = group

/-- The test of a group addition for an active group. -/
theorem any_group_iff {order : HashOrder String} {group : String} :
    ((m.configs.values order).any fun cfg => cfg.group = group) = true ↔ m.GroupActive group := by
  simp only [List.any_eq_true, HashMap.mem_values, decide_eq_true_eq, GroupActive]
  constructor
  · rintro ⟨cfg, ⟨name, hcfg⟩, hgroup⟩
    exact ⟨name, cfg, hcfg, hgroup⟩
  · rintro ⟨name, cfg, hcfg, hgroup⟩
    exact ⟨cfg, ⟨name, hcfg⟩, hgroup⟩

/-- The members of a group in a map of configurations. -/
theorem mem_membersOf {configs : ProgramConfigs} {order : HashOrder String} {group : String}
    {cfg : ProgramConfig} :
    cfg ∈ membersOf configs order group ↔
      (∃ name, configs.lookup name = some cfg) ∧ cfg.group = group := by
  simp only [membersOf, List.mem_filter, HashMap.mem_values, decide_eq_true_eq]

/-- The outcomes of a group addition. -/
theorem executeAddProcessGroup_cases (m : ManagerActor) (group : String) (env : ManagerEnv) :
    (∃ r, (r = .ok false ∨ ∃ e, r = .error e) ∧
      m.executeAddProcessGroup group env = (r, m)) ∨
    ∃ staged st, ¬ m.GroupActive group ∧
      stage env.croner m.serverIdentifier (m.groupEntries env group)
        ⟨m.eventPools, m.nextId⟩ = .ok (staged, st) ∧
      m.executeAddProcessGroup group env = (.ok true, m.commitGroup env group staged st) := by
  by_cases hactive :
      ((m.configs.values env.orders.configs).any fun cfg => cfg.group = group) = true
  · exact .inl ⟨_, .inl rfl, by rw [executeAddProcessGroup, if_pos hactive]⟩
  · by_cases hempty : (membersOf m.pendingConfigs env.orders.pendingConfigs group).isEmpty = true
    · refine .inl ⟨.error (.notFound group), .inr ⟨_, rfl⟩, ?_⟩
      rw [executeAddProcessGroup, if_neg hactive]
      simp only [hempty, if_true]
    · cases hstage : stage env.croner m.serverIdentifier (m.groupEntries env group)
          ⟨m.eventPools, m.nextId⟩ with
      | error e =>
          refine .inl ⟨.error e, .inr ⟨e, rfl⟩, ?_⟩
          rw [groupEntries] at hstage
          rw [executeAddProcessGroup, if_neg hactive]
          simp only [if_neg hempty, hstage]
      | ok r =>
          obtain ⟨staged, st⟩ := r
          refine .inr ⟨staged, st, mt any_group_iff.mpr hactive, rfl, ?_⟩
          rw [groupEntries] at hstage
          rw [executeAddProcessGroup, if_neg hactive]
          simp only [if_neg hempty, hstage]
          rfl

/-- The names of the managed programs of a group. -/
def groupNames (m : ManagerActor) (env : ManagerEnv) (group : String) : List String :=
  (membersOf m.configs env.orders.configs group).map (·.name)

/-- The state after the commit of a group removal. -/
def commitRemoval (m : ManagerActor) (env : ManagerEnv) (group : String) : ManagerActor :=
  let m := (m.groupNames env group).foldl removeProgram m
  let m := m.refreshDerivedState env
  m.publishSystem (.processGroupRemoved group)

/-- The outcomes of a group removal. -/
theorem executeRemoveProcessGroup_cases (m : ManagerActor) (group : String) (env : ManagerEnv) :
    (∃ r, (r = .ok false ∨ ∃ e, r = .error e) ∧
      m.executeRemoveProcessGroup group env = (r, m)) ∨
    (m.groupNames env group ≠ [] ∧ (∀ name ∈ m.groupNames env group, m.isBusy env name = false) ∧
      m.executeRemoveProcessGroup group env = (.ok true, m.commitRemoval env group)) := by
  by_cases hempty : (m.groupNames env group).isEmpty = true
  · refine .inl ⟨.error (.notFound group), .inr ⟨_, rfl⟩, ?_⟩
    rw [groupNames] at hempty
    simp only [executeRemoveProcessGroup, hempty, if_true]
  · by_cases hbusy : (m.groupNames env group).any (m.isBusy env) = true
    · refine .inl ⟨.ok false, .inl rfl, ?_⟩
      rw [groupNames] at hempty hbusy
      simp only [executeRemoveProcessGroup, if_neg hempty, if_pos hbusy]
    · refine .inr ⟨by simpa using hempty, by simpa using hbusy, ?_⟩
      rw [groupNames] at hempty hbusy
      simp only [executeRemoveProcessGroup, if_neg hempty, if_neg hbusy]
      rfl

/-! ## Managed part after a commit -/

/-- The last steps of a reload take over the graph and publish the configurations. -/
theorem finishReload_managed {newDag : DependencyGraph} {diff : ConfigDiff} :
    (m.finishReload newConfig env newDag diff).managed =
      { m.managed with dag := newDag, sharedConfigs := m.managed.configs } := by
  have hsync := syncLoggingConfig_managed (m := { m with
    dag := newDag
    cronTable := .fromConfigs env.croner env.orders.cron env.now m.configs
    watchConfigs := m.configs }) newConfig.logging
  rw [finishReload]
  simp only
  generalize syncLoggingConfig _ _ = m₁ at hsync ⊢
  change { m₁.managed with sharedConfigs := m₁.managed.configs } = _
  rw [hsync]
  rfl

/-- A reload removes, replaces and adds programs, and takes over the new graph, the staged pools and
the pending configurations. -/
theorem commitReload_managed {newPrograms : ProgramConfigs} {newDag : DependencyGraph}
    {modified added : List (String × ProgramInstance)} {st : Staging} :
    (m.commitReload newConfig env newPrograms newDag modified added st).managed =
      { m.managed.commit (m.reloadDiff env newPrograms).removed (modified ++ added) with
        sharedConfigs := (m.managed.commit (m.reloadDiff env newPrograms).removed
          (modified ++ added)).configs
        pendingConfigs := newPrograms
        sharedPendingConfigs := newPrograms
        dag := newDag
        eventPools := st.eventPools
        nextId := st.nextId } := by
  rw [commitReload]
  simp only
  rw [finishReload_managed, commit_managed, Managed.commit_eq, Managed.commit_eq]
  rfl

/-- A restart drops every program, registers the staged ones, and takes over the staged pools and
the pending configurations. The graph is rebuilt from the configurations. -/
theorem commitRestart_managed {newPrograms : ProgramConfigs}
    {staged : List (String × ProgramInstance)} {st : Staging} :
    (m.commitRestart newConfig env newPrograms staged st).managed =
      { m.managed with
        programs := HashMap.extend ∅ staged
        configs := HashMap.extend ∅ (configsOf staged)
        sharedConfigs := HashMap.extend ∅ (configsOf staged)
        pendingConfigs := newPrograms
        sharedPendingConfigs := newPrograms
        dag := refreshedDag env m.dag (HashMap.extend ∅ (configsOf staged))
        eventPools := st.eventPools
        nextId := st.nextId } := by
  rw [commitRestart]
  simp only
  have hstop := (managed_ignoresCalls.shutdownPrograms
    (m := (m.setPending newPrograms).executeStopAll env none) env).trans
    (managed_ignoresCalls.executeStopAll env none)
  generalize shutdownPrograms env _ = m₁ at hstop ⊢
  change (executeStartAll env _).managed = _
  rw [managed_ignoresCalls.executeStartAll, refreshDerivedState_managed]
  have hsync := syncLoggingConfig_managed (m := { m₁ with
    programs := HashMap.extend ∅ staged
    configs := HashMap.extend ∅ (configsOf staged)
    eventPools := st.eventPools
    nextId := st.nextId }) newConfig.logging
  generalize syncLoggingConfig _ _ = m₂ at hsync ⊢
  change { m₂.managed with
    dag := refreshedDag env m₂.managed.dag m₂.managed.configs
    sharedConfigs := m₂.managed.configs } = _
  rw [hsync]
  change { m₁.managed with
    programs := HashMap.extend ∅ staged
    configs := HashMap.extend ∅ (configsOf staged)
    eventPools := st.eventPools
    nextId := st.nextId
    dag := refreshedDag env m₁.managed.dag (HashMap.extend ∅ (configsOf staged))
    sharedConfigs := HashMap.extend ∅ (configsOf staged) } = _
  rw [hstop]
  rfl

/-- A group addition registers the staged instances and takes over the staged pools. -/
theorem commitGroup_managed {group : String} {staged : List (String × ProgramInstance)}
    {st : Staging} :
    (m.commitGroup env group staged st).managed =
      { m.managed.commit [] staged with
        sharedConfigs := (m.managed.commit [] staged).configs
        dag := refreshedDag env m.dag (m.managed.commit [] staged).configs
        eventPools := st.eventPools
        nextId := st.nextId } := by
  rw [commitGroup]
  simp only
  have hcommit := commit_managed (m := { m with eventPools := st.eventPools, nextId := st.nextId })
    [] [] staged
  rw [List.foldl_nil, List.foldl_nil, List.nil_append] at hcommit
  generalize List.foldl addProgram _ staged = m₁ at hcommit ⊢
  change (refreshDerivedState env m₁).managed = _
  rw [refreshDerivedState_managed]
  change { m₁.managed with
    dag := refreshedDag env m₁.managed.dag m₁.managed.configs
    sharedConfigs := m₁.managed.configs } = _
  rw [hcommit, Managed.commit_eq, Managed.commit_eq]
  rfl

/-- A group removal unregisters the programs of the group. -/
theorem commitRemoval_managed {group : String} :
    (m.commitRemoval env group).managed =
      { m.managed.commit (m.groupNames env group) [] with
        sharedConfigs := (m.managed.commit (m.groupNames env group) []).configs
        dag := refreshedDag env m.dag (m.managed.commit (m.groupNames env group) []).configs } := by
  rw [commitRemoval]
  simp only
  have hcommit := commit_managed (m := m) (m.groupNames env group) [] []
  rw [List.foldl_nil, List.foldl_nil, List.nil_append] at hcommit
  generalize List.foldl removeProgram _ (m.groupNames env group) = m₁ at hcommit ⊢
  change (refreshDerivedState env m₁).managed = _
  rw [refreshDerivedState_managed]
  change { m₁.managed with
    dag := refreshedDag env m₁.managed.dag m₁.managed.configs
    sharedConfigs := m₁.managed.configs } = _
  rw [hcommit, Managed.commit_eq]
  rfl

/-! ## One step of the loop -/

/-- What a step does to the managed part: nothing, or new pending configurations, or the commit of
one of the four operations that change the managed programs. -/
inductive Effect (m : ManagerActor) : Label → ManagerActor → Prop
  | calls {l : Label} {m' : ManagerActor} (hmanaged : m'.managed = m.managed) : Effect m l m'
  | pending {l : Label} {newConfig : SupervisorConfig} {env : ManagerEnv}
      {newPrograms : ProgramConfigs} {newDag : DependencyGraph}
      (hresolve : newConfig.resolvePrograms env.resolve = .ok newPrograms)
      (hbuild : DependencyGraph.build env.check env.orders.build newPrograms = .ok newDag) :
      Effect m l (m.setPending newPrograms)
  | reloaded {newConfig : SupervisorConfig} {env : ManagerEnv} {newPrograms : ProgramConfigs}
      {newDag : DependencyGraph} {modified added : List (String × ProgramInstance)} {st : Staging}
      (hresolve : newConfig.resolvePrograms env.resolve = .ok newPrograms)
      (hbuild : DependencyGraph.build env.check env.orders.build newPrograms = .ok newDag)
      (hstage : stageReload env.croner m.serverIdentifier (m.reloadDiff env newPrograms)
        ⟨m.eventPools, m.nextId⟩ = .ok (modified, added, st)) :
      Effect m (.command (.reloadConfig newConfig) env)
        (m.commitReload newConfig env newPrograms newDag modified added st)
  | restarted {newConfig : SupervisorConfig} {env : ManagerEnv} {newPrograms : ProgramConfigs}
      {newDag : DependencyGraph} {staged : List (String × ProgramInstance)} {st : Staging}
      (hresolve : newConfig.resolvePrograms env.resolve = .ok newPrograms)
      (hbuild : DependencyGraph.build env.check env.orders.build newPrograms = .ok newDag)
      (hstage : stage env.croner m.serverIdentifier (newPrograms.iter env.orders.newPrograms)
        ⟨∅, m.nextId⟩ = .ok (staged, st)) :
      Effect m (.command (.restartDaemon newConfig) env)
        (m.commitRestart newConfig env newPrograms staged st)
  | groupAdded {group : String} {env : ManagerEnv} {staged : List (String × ProgramInstance)}
      {st : Staging} (hinactive : ¬ m.GroupActive group)
      (hstage : stage env.croner m.serverIdentifier (m.groupEntries env group)
        ⟨m.eventPools, m.nextId⟩ = .ok (staged, st)) :
      Effect m (.command (.addProcessGroup group) env) (m.commitGroup env group staged st)
  | groupRemoved {group : String} {env : ManagerEnv}
      (hactive : m.groupNames env group ≠ [])
      (hidle : ∀ name ∈ m.groupNames env group, m.isBusy env name = false) :
      Effect m (.command (.removeProcessGroup group) env) (m.commitRemoval env group)

/-- A guarded execution is refused or takes place. -/
theorem unlessShuttingDown_cases {α : Type} (m : ManagerActor) (name : String)
    (execute : Except ProgramError α × ManagerActor) :
    m.unlessShuttingDown name execute = (.error (.shuttingDown name), m) ∨
      m.unlessShuttingDown name execute = execute := by
  rw [unlessShuttingDown]
  split
  · exact .inl rfl
  · exact .inr rfl

/-- A guarded call leaves the managed part alone. -/
theorem effect_of_guarded {α : Type} {l : Label} {name : String}
    (execute : Except ProgramError α × ManagerActor) (h : execute.2.managed = m.managed) :
    m.Effect l (m.unlessShuttingDown name execute).2 := by
  rcases m.unlessShuttingDown_cases name execute with heq | heq
  · rw [heq]
    exact .calls rfl
  · rw [heq]
    exact .calls h

/-- Every command has one of the effects. -/
theorem handleCommand_effect (cmd : Command) :
    m.Effect (.command cmd env) (m.handleCommand cmd env).2 := by
  cases cmd with
  | startProgram name => exact effect_of_guarded _ (managed_ignoresCalls.callTargets env _ _)
  | stopProgram name gracePeriod => exact .calls (managed_ignoresCalls.callTargets env _ _)
  | restartProgram name gracePeriod =>
      exact effect_of_guarded _ (managed_ignoresCalls.callTargets env _ _)
  | signalProgram name s => exact effect_of_guarded _ (managed_ignoresCalls.callTargets env _ _)
  | startGroup group => exact effect_of_guarded _ (managed_ignoresCalls.executeStartGroup env group)
  | stopGroup group gracePeriod =>
      exact .calls (managed_ignoresCalls.executeStopGroup env group gracePeriod)
  | restartGroup group gracePeriod =>
      exact effect_of_guarded _ (managed_ignoresCalls.executeRestartGroup env group gracePeriod)
  | startAll =>
      exact effect_of_guarded (.ok (),
        m.executeStartAll env) (managed_ignoresCalls.executeStartAll env)
  | stopAll gracePeriod => exact .calls (managed_ignoresCalls.executeStopAll env gracePeriod)
  | reloadConfig newConfig =>
      change m.Effect _ (m.unlessShuttingDown "manager" (m.executeReloadConfig newConfig env)).2
      rcases m.unlessShuttingDown_cases "manager" (m.executeReloadConfig newConfig env)
        with heq | heq
      · rw [heq]
        exact .calls rfl
      · rw [heq]
        rcases m.executeReloadConfig_cases newConfig env with ⟨e, hres⟩ |
          ⟨newPrograms, newDag, hresolve, hbuild, ⟨e, _, hres⟩ | ⟨_, _, _, hstage, hres⟩⟩
        · rw [hres]
          exact .calls rfl
        · rw [hres]
          exact .pending hresolve hbuild
        · rw [hres]
          exact .reloaded hresolve hbuild hstage
  | restartDaemon newConfig =>
      change m.Effect _ (m.unlessShuttingDown "manager" (m.executeRestartDaemon newConfig env)).2
      rcases m.unlessShuttingDown_cases "manager" (m.executeRestartDaemon newConfig env)
        with heq | heq
      · rw [heq]
        exact .calls rfl
      · rw [heq]
        rcases m.executeRestartDaemon_cases newConfig env with ⟨e, hres⟩ |
          ⟨newPrograms, newDag, hresolve, hbuild, ⟨e, _, hres⟩ | ⟨_, _, hstage, hres⟩⟩
        · rw [hres]
          exact .calls rfl
        · rw [hres]
          exact .pending hresolve hbuild
        · rw [hres]
          exact .restarted hresolve hbuild hstage
  | addProcessGroup group =>
      change m.Effect _ (m.unlessShuttingDown group (m.executeAddProcessGroup group env)).2
      rcases m.unlessShuttingDown_cases group (m.executeAddProcessGroup group env) with heq | heq
      · rw [heq]
        exact .calls rfl
      · rw [heq]
        rcases m.executeAddProcessGroup_cases group env with ⟨r, _, hres⟩ |
          ⟨_, _, hinactive, hstage, hres⟩
        · rw [hres]
          exact .calls rfl
        · rw [hres]
          exact .groupAdded hinactive hstage
  | removeProcessGroup group =>
      change m.Effect _ (m.unlessShuttingDown group (m.executeRemoveProcessGroup group env)).2
      rcases m.unlessShuttingDown_cases group (m.executeRemoveProcessGroup group env) with heq | heq
      · rw [heq]
        exact .calls rfl
      · rw [heq]
        rcases m.executeRemoveProcessGroup_cases group env with ⟨r, _, hres⟩ |
          ⟨hactive, hidle, hres⟩
        · rw [hres]
          exact .calls rfl
        · rw [hres]
          exact .groupRemoved hactive hidle
  | shutdown =>
      exact .calls ((managed_ignoresCalls.shutdownPrograms env).trans
        (managed_ignoresCalls.executeStopAll env none))

/-- Every step has one of the effects. -/
theorem next_effect {l : Label} (h : m.next l = some m') : m.Effect l m' := by
  simp only [ManagerActor.next] at h
  split at h
  next => cases h
  next =>
    cases l with
    | cancelled env =>
        obtain rfl := Option.some.inj h
        exact .calls ((managed_ignoresCalls.shutdownPrograms env).trans
          (managed_ignoresCalls.executeStopAll env none))
    | cronDue env =>
        simp only at h
        split at h
        next =>
          obtain rfl := Option.some.inj h
          exact .calls (managed_ignoresCalls.handleDueCronJobs env)
        next => cases h
    | command cmd env =>
        obtain rfl := Option.some.inj h
        exact handleCommand_effect cmd

end ManagerActor

end Rsupervisord
