import Rsupervisord.Manager.DagCorrectness
import Rsupervisord.Manager.SupervisorInvariants

/-!
# The pools of the managed listeners

An event listener is attached to the pool that is registered under its pool name when the listener
is staged. A registered pool is taken as it is, with the events and the buffer size it was created
with, and no operation but a restart unregisters a pool. The pools therefore agree with the managed
listeners as long as each registered pool fits the configurations that an operation leads to.

## Main results

* `Change.poolsAgree_iff`: after a change the pools agree with the listeners exactly when the pools
  it started from fit the new configurations.
* `poolsAgree_of_reachable`: in runs whose operations keep the pools fitting, every listener is
  attached to the registered pool of its name, which has its settings, and every pool is used.
-/

namespace Rsupervisord

/-- A listener of the map uses the pool name. -/
def ProgramConfigs.Uses (configs : ProgramConfigs) (name poolName : String)
    (el : EventListenerConfig) : Prop :=
  ∃ cfg, configs.lookup name = some cfg ∧ cfg.eventListener = some el ∧ el.poolName = poolName

/-- A pool has the events and the buffer size of a listener. -/
def EventListenerPool.Suits (pool : EventListenerPool) (el : EventListenerConfig) : Prop :=
  pool.inner.events = el.events ∧ pool.inner.bufferSize = el.bufferSize

/-- Every pool is used by a listener of the map, and has its settings. -/
def PoolsFit (eventPools : HashMap String EventListenerPool) (configs : ProgramConfigs) : Prop :=
  ∀ poolName pool, eventPools.lookup poolName = some pool →
    ∃ name el, configs.Uses name poolName el ∧ pool.Suits el

namespace Managed

variable {s s' : Managed} {removed : List String} {entries : List (String × ProgramConfig)}
  {eventPools : HashMap String EventListenerPool} {progs : List (String × ProgramInstance)}

/-- The listener is attached to the pool that the map `eventPools` registers under its pool name. -/
def Attached (s : Managed) (eventPools : HashMap String EventListenerPool) (name : String)
    (el : EventListenerConfig) (pool : EventListenerPool) : Prop :=
  ∃ prog, s.programs.lookup name = some prog ∧ prog.pool = some pool ∧
    eventPools.lookup el.poolName = some pool

/-- Every managed listener is attached to the pool that is registered under its pool name, and the
pool has the events and the buffer size of the listener's configuration. Every registered pool is
used by a managed listener. -/
structure PoolsAgree (s : Managed) : Prop where
  attached : ∀ {name poolName el}, s.configs.Uses name poolName el →
    ∃ pool, s.Attached s.eventPools name el pool ∧ pool.Suits el
  used : ∀ {poolName pool}, s.eventPools.lookup poolName = some pool →
    ∃ name el, s.configs.Uses name poolName el

/-- Agreeing pools fit the configurations. -/
theorem PoolsAgree.fit (h : s.PoolsAgree) : PoolsFit s.eventPools s.configs := by
  intro poolName pool hpool
  obtain ⟨name, el, huses⟩ := h.used hpool
  obtain ⟨pool', ⟨prog, _, _, hpool'⟩, hsuits⟩ := h.attached huses
  obtain ⟨cfg, _, _, rfl⟩ := id huses
  rw [hpool] at hpool'
  exact ⟨name, el, huses, Option.some.inj hpool' ▸ hsuits⟩

/-- The listeners of one pool have the same settings. -/
theorem eq_of_uses {configs : ProgramConfigs} (hconfigs : configs.WellFormed)
    {name₁ name₂ poolName : String} {el₁ el₂ : EventListenerConfig}
    (h₁ : configs.Uses name₁ poolName el₁) (h₂ : configs.Uses name₂ poolName el₂) : el₁ = el₂ := by
  obtain ⟨cfg₁, hlookup₁, hel₁, hname₁⟩ := h₁
  obtain ⟨cfg₂, hlookup₂, hel₂, hname₂⟩ := h₂
  exact hconfigs.pool_eq hlookup₁ hlookup₂ hel₁ hel₂ (hname₁.trans hname₂.symm)

/-- When the pools that a change starts from fit the new configurations, so do all pools after
it. -/
theorem Change.fit (h : s.Change removed entries eventPools progs s')
    (hconfigs : s'.configs.WellFormed) (hfit : PoolsFit eventPools s'.configs) :
    PoolsFit s'.eventPools s'.configs := by
  intro poolName pool hpool
  rcases h.staged.pool_new hpool with hold | ⟨_, e, he, el, hel, rfl, hinner⟩
  · exact hfit poolName pool hold
  · -- A new pool has the settings of a staged listener.
    have hlookup : s'.configs.lookup e.1 = some e.2 := h.lookup_configs_iff.mpr (.inl he)
    refine ⟨e.1, el, ⟨e.2, hlookup, hel, rfl⟩, ?_⟩
    rw [EventListenerPool.Suits, hinner]
    exact ⟨rfl, max_eq_left (hconfigs.bufferSize_pos hlookup hel)⟩

/-- After a change the pools agree with the listeners exactly when the pools that it started from
fit the new configurations. -/
theorem Change.poolsAgree_iff (h : s.Change removed entries eventPools progs s')
    (hconfigs : s'.configs.WellFormed)
    (hattached : ∀ {name poolName el}, name ∉ removed → s.configs.Uses name poolName el →
      ∃ pool, s.Attached eventPools name el pool) :
    s'.PoolsAgree ↔ PoolsFit eventPools s'.configs := by
  constructor
  · intro hagrees poolName pool hpool
    exact hagrees.fit poolName pool (h.staged.pool_kept hpool)
  intro hfit
  have hfit' := h.fit hconfigs hfit
  refine ⟨fun {name poolName el} huses => ?_, fun hpool => ?_⟩
  · -- Whatever the listener is attached to has its settings, as all listeners of a pool agree.
    have hsuits : ∀ pool, s'.eventPools.lookup poolName = some pool → pool.Suits el := by
      intro pool hpool
      obtain ⟨name', el', huses', hsuits⟩ := hfit' poolName pool hpool
      exact eq_of_uses hconfigs huses' huses ▸ hsuits
    obtain ⟨cfg, hlookup, hel, rfl⟩ := id huses
    rcases h.lookup_configs_iff.mp hlookup with he | ⟨hremoved, hname, hold⟩
    · obtain ⟨prog, hprog, hcfg⟩ := (mem_of_configsOf h.staged.entries_eq).mp he
      obtain ⟨pool, hpool, hregistered⟩ := h.staged.attached _ hprog el (by rw [hcfg]; exact hel)
      exact ⟨pool, ⟨prog, (h.replaces.registered _ hprog).1, hpool, hregistered⟩,
        hsuits pool hregistered⟩
    · obtain ⟨pool, prog, hprog, hpool, hregistered⟩ :=
        hattached hremoved ⟨cfg, hold, hel, rfl⟩
      rw [← map_fst_of_configsOf h.staged.entries_eq] at hname
      have hregistered' := h.staged.pool_kept hregistered
      exact ⟨pool, ⟨prog, ((h.replaces.kept name hremoved hname).1).trans hprog, hpool,
        hregistered'⟩, hsuits pool hregistered'⟩
  · obtain ⟨name, el, huses, _⟩ := hfit' _ _ hpool
    exact ⟨name, el, huses⟩

end Managed

namespace ManagerActor

variable {m m' : ManagerActor} {env : ManagerEnv} {group : String}

/-! ## The condition on the operations -/

/-- Each registered pool has a managed listener that no pending member of the group displaces. -/
def GroupSparesPools (m : ManagerActor) (group : String) : Prop :=
  ∀ poolName pool, m.eventPools.lookup poolName = some pool →
    ∃ name el, m.configs.Uses name poolName el ∧ m.pendingMember group name = none

/-- No program of the group is an event listener. -/
def GroupHasNoListener (m : ManagerActor) (group : String) : Prop :=
  ∀ name cfg, m.configs.lookup name = some cfg → cfg.group = group → cfg.eventListener = none

/-- The registered pools fit the configurations that the operation leads to, when it takes effect.
A reload takes effect when its programs resolve and have a graph, and the new ones can be
instantiated. -/
def KeepsPools (m : ManagerActor) : Label → Prop
  | .command (.reloadConfig newConfig) env =>
      ∀ newPrograms, newConfig.resolvePrograms env.resolve = .ok newPrograms →
        DependencyGraph.Resolvable newPrograms →
        (∀ name cfg, newPrograms.lookup name = some cfg → m.configs.lookup name ≠ some cfg →
          cfg.Instantiable env.croner) →
        PoolsFit m.eventPools newPrograms
  | .command (.addProcessGroup group) env => m.GroupAddable env group → m.GroupSparesPools group
  | .command (.removeProcessGroup group) env =>
      m.GroupRemovable env group → m.GroupHasNoListener group
  | _ => True

/-- Maps with the same entries fit the same pools. -/
theorem poolsFit_congr {eventPools : HashMap String EventListenerPool}
    {configs configs' : ProgramConfigs} (h : ∀ name, configs.lookup name = configs'.lookup name) :
    PoolsFit eventPools configs ↔ PoolsFit eventPools configs' := by
  simp only [PoolsFit, ProgramConfigs.Uses, h]

/-- A reload keeps the agreement exactly when each registered pool is used by a listener of the new
configuration, and has its settings. -/
theorem poolsAgree_reloaded_iff {newConfig : SupervisorConfig} {newPrograms : ProgramConfigs}
    {newDag : DependencyGraph} {modified added : List (String × ProgramInstance)} {st : Staging}
    (hagrees : m.managed.PoolsAgree) (hnew : newPrograms.WellFormed)
    (hstage : stageReload env.croner m.serverIdentifier (m.reloadDiff env newPrograms)
      ⟨m.eventPools, m.nextId⟩ = .ok (modified, added, st)) :
    (m.commitReload newConfig env newPrograms newDag modified added st).managed.PoolsAgree ↔
      PoolsFit m.eventPools newPrograms := by
  have hchange := commitReload_change newConfig newDag hnew hstage
  have hlookup := lookup_configs_of_reload hnew hchange
  rw [hchange.poolsAgree_iff (hnew.mono fun name cfg h => hlookup name ▸ h)
    fun _ huses => (hagrees.attached huses).imp fun _ h => h.1, poolsFit_congr hlookup]

/-- A group addition keeps the agreement exactly when it displaces no last listener of a pool. -/
theorem poolsAgree_groupAdded_iff {progs : List (String × ProgramInstance)} {st : Staging}
    (hinv : m.managed.Invariant) (hagrees : m.managed.PoolsAgree)
    (hinactive : ¬ m.GroupActive group)
    (hstage : stage env.croner m.serverIdentifier (m.groupEntries env group)
      ⟨m.eventPools, m.nextId⟩ = .ok (progs, st)) :
    (m.commitGroup env group progs st).managed.PoolsAgree ↔ m.GroupSparesPools group := by
  have hchange := commitGroup_change hinv.pending_wellFormed hstage
  have hconfigs := wellFormed_of_groupAdded hinv hinactive hchange
  have hlookup := lookup_configs_of_groupAdded hinv.pending_wellFormed hchange
  rw [hchange.poolsAgree_iff hconfigs
    fun _ huses => (hagrees.attached huses).imp fun _ h => h.1]
  refine forall₃_congr fun poolName pool hpool => ?_
  constructor
  · rintro ⟨name, el, ⟨cfg, hcfg, hel, rfl⟩, _⟩
    cases hmember : m.pendingMember group name with
    | none =>
        rw [hlookup, hmember] at hcfg
        exact ⟨name, el, ⟨cfg, hcfg, hel, rfl⟩, hmember⟩
    | some cfg' =>
        -- The pool would be that of the group, and its listener a managed program of the group.
        have hgroup : cfg'.group = group := by
          rw [pendingMember, Option.filter_eq_some_iff, decide_eq_true_eq] at hmember
          exact hmember.2
        have hcfg' := hcfg
        rw [hlookup, hmember] at hcfg'
        obtain rfl := Option.some.inj hcfg'
        obtain ⟨name', el', cfg', hcfg', hel', hname'⟩ := hagrees.used hpool
        refine absurd ⟨name', cfg', hcfg', ?_⟩ hinactive
        rw [hinv.configs_wellFormed.group_eq hcfg' hel', hname', ← hconfigs.group_eq hcfg hel,
          hgroup]
  · rintro ⟨name, el, huses, hmember⟩
    obtain ⟨pool', ⟨prog, _, _, hpool'⟩, hsuits⟩ := hagrees.attached huses
    obtain ⟨cfg, hcfg, hel, rfl⟩ := huses
    change m.eventPools.lookup el.poolName = some pool' at hpool'
    rw [hpool] at hpool'
    refine ⟨name, el, ⟨cfg, ?_, hel, rfl⟩, Option.some.inj hpool' ▸ hsuits⟩
    rw [hlookup, hmember]
    exact hcfg

/-- A group removal keeps the agreement exactly when the group has no listener. -/
theorem poolsAgree_groupRemoved_iff (env : ManagerEnv) (group : String)
    (hinv : m.managed.Invariant) (hagrees : m.managed.PoolsAgree) :
    (m.commitRemoval env group).managed.PoolsAgree ↔ m.GroupHasNoListener group := by
  have hchange := m.commitRemoval_change env group
  have hlookup := lookup_configs_of_groupRemoved hinv.configs_wellFormed hchange
  rw [hchange.poolsAgree_iff (groupRemoved_invariant env group hinv).configs_wellFormed
    fun _ huses => (hagrees.attached huses).imp fun _ h => h.1]
  constructor
  · intro hfit name cfg hcfg hgroup
    by_contra hlistener
    obtain ⟨el, hel⟩ := Option.ne_none_iff_exists'.mp hlistener
    -- The pool of the listener stays registered, and only listeners of the group use it.
    obtain ⟨pool, ⟨prog, _, _, hpool⟩, _⟩ := hagrees.attached ⟨cfg, hcfg, hel, rfl⟩
    obtain ⟨name', el', ⟨cfg', hcfg', hel', hname'⟩, _⟩ := hfit el.poolName pool hpool
    obtain ⟨hold, hgroup'⟩ := (hlookup name' cfg').mp hcfg'
    refine hgroup' ?_
    rw [hinv.configs_wellFormed.group_eq hold hel', hname',
      ← hinv.configs_wellFormed.group_eq hcfg hel, hgroup]
  · intro hnone poolName pool hpool
    obtain ⟨name, el, ⟨cfg, hcfg, hel, hname⟩, hsuits⟩ := hagrees.fit poolName pool hpool
    refine ⟨name, el, ⟨cfg, (hlookup name cfg).mpr ⟨hcfg, fun hgroup => ?_⟩, hel, hname⟩, hsuits⟩
    rw [hnone name cfg hcfg hgroup] at hel
    cases hel

/-! ## The invariant -/

/-- A map without pools fits. -/
theorem poolsFit_empty (configs : ProgramConfigs) : PoolsFit ∅ configs := by
  intro poolName pool hpool
  rw [AList.lookup_empty] at hpool
  cases hpool

/-- A step that keeps the pools fitting keeps the agreement. -/
theorem next_poolsAgree {l : Label} (hinv : m.managed.Invariant) (hagrees : m.managed.PoolsAgree)
    (hkeeps : m.KeepsPools l) (h : m.next l = some m') : m'.managed.PoolsAgree := by
  have hinv' := next_invariant hinv h
  cases next_effect h with
  | calls hmanaged => exact hmanaged ▸ hagrees
  | pending hresolve hbuild => exact ⟨hagrees.attached, hagrees.used⟩
  | @reloaded newConfig env newPrograms newDag modified added st hresolve hbuild hstage =>
      have hnew := SupervisorConfig.resolvePrograms_wellFormed hresolve
      refine (poolsAgree_reloaded_iff hagrees hnew hstage).mpr (hkeeps newPrograms hresolve
        (DependencyGraph.build_isOk_iff.mp ⟨newDag, hbuild⟩) fun name cfg hcfg hne => ?_)
      exact stage_isOk_iff.mp ⟨_, (stageReload_eq hstage).1⟩ (name, cfg)
        ((mem_reloadEntries hnew).mpr ⟨hcfg, hne⟩)
  | @restarted newConfig env newPrograms newDag progs st hresolve hbuild hstage =>
      have hchange := commitRestart_change newConfig hinv hstage
      refine (hchange.poolsAgree_iff hinv'.configs_wellFormed fun hremoved huses => ?_).mpr
        (poolsFit_empty _)
      obtain ⟨cfg, hcfg, _⟩ := huses
      exact absurd (AList.mem_keys.mp (HashMap.mem_iff_lookup.mpr ⟨cfg, hcfg⟩)) hremoved
  | @groupAdded group env progs st hinactive hstage =>
      exact (poolsAgree_groupAdded_iff hinv hagrees hinactive hstage).mpr
        (hkeeps (groupAddable_of_stage hinv hinactive hstage))
  | @groupRemoved group env hactive hidle =>
      exact (poolsAgree_groupRemoved_iff env group hinv hagrees).mpr
        (hkeeps (groupRemovable_of_idle hinv hidle))

/-- In a run whose operations keep the pools fitting, every managed listener is attached to the pool
that is registered under its pool name, the pool has the events and the buffer size of the
listener's current configuration, and every registered pool is used by a managed listener. -/
theorem poolsAgree_of_reachable (h : system.ReachableWhile KeepsPools m) :
    (∀ name, (m.programs.lookup name).map (·.config) = m.configs.lookup name) ∧
      m.managed.PoolsAgree := by
  refine ⟨(invariant_of_reachable h).config_eq, ?_⟩
  refine TransitionSystem.ReachableWhile.invariant (I := fun m => m.managed.PoolsAgree) ?_ ?_ h
  · rintro m ⟨config, env, hbuild⟩
    obtain ⟨newPrograms, progs, _, _, _, _, _, hchange⟩ := build_change hbuild
    refine (hchange.poolsAgree_iff (build_invariant hbuild).configs_wellFormed
      fun _ huses => ?_).mpr (poolsFit_empty _)
    obtain ⟨cfg, hcfg, _⟩ := huses
    change (∅ : ProgramConfigs).lookup _ = some cfg at hcfg
    rw [AList.lookup_empty] at hcfg
    cases hcfg
  · intro m l m' hreach hagrees hkeeps hstep
    exact next_poolsAgree (invariant_of_reachable hreach) hagrees hkeeps hstep

instance (pool : EventListenerPool) (el : EventListenerConfig) : Decidable (pool.Suits el) :=
  inferInstanceAs (Decidable (_ ∧ _))

instance (eventPools : HashMap String EventListenerPool) (configs : ProgramConfigs) :
    Decidable (PoolsFit eventPools configs) :=
  decidable_of_iff (∀ e ∈ eventPools.iter .stored, ∃ c ∈ configs.iter .stored,
      ∃ el ∈ c.2.eventListener, el.poolName = e.1 ∧ e.2.Suits el) <| by
    simp only [Prod.forall, Prod.exists, HashMap.mem_iter, Option.mem_def, PoolsFit,
      ProgramConfigs.Uses]
    refine forall₃_congr fun poolName pool _ => exists_congr fun name => ?_
    constructor
    · rintro ⟨cfg, hcfg, el, hel, hname, hsuits⟩
      exact ⟨el, ⟨cfg, hcfg, hel, hname⟩, hsuits⟩
    · rintro ⟨el, ⟨cfg, hcfg, hel, hname⟩, hsuits⟩
      exact ⟨cfg, hcfg, el, hel, hname, hsuits⟩

/-- A listener for the given events, and other programs. -/
def mailerConfig (events : List String) (programs : List (String × ProgramConfigRaw)) :
    SupervisorConfig where
  programs := HashMap.extend ∅ programs
  eventListeners := HashMap.extend ∅ [("mailer", { command := "sendmail", events := events })]

/-- A reload adds a program and leaves the listener as it is. -/
theorem poolsAgree_after_added_program :
    ∃ m, system.ReachableWhile KeepsPools m ∧ m.programs.keys = ["web", "mailer"] ∧
      (∀ name, (m.programs.lookup name).map (·.config) = m.configs.lookup name) ∧
      m.managed.PoolsAgree := by
  obtain ⟨m, hinit, hfit, hnext⟩ := exists_reachableWhile (G := fun _ _ => False)
    (fun m =>
      ((mailerConfig ["TICK_5"] [("web", { command := "nginx" })]).resolvePrograms
        .plain).toOption.all (fun newPrograms => PoolsFit m.eventPools newPrograms) = true ∧
      (m.next (.command (.reloadConfig (mailerConfig ["TICK_5"] [("web", { command := "nginx" })]))
        .plain)).any (fun m' => decide (m'.programs.keys = ["web", "mailer"])) = true)
    (mailerConfig ["TICK_5"] []) .plain [] (by decide +kernel)
  obtain ⟨m', hstep, hkeys⟩ := (Option.any_eq_true _ _).mp hnext
  have hkeeps : m.KeepsPools (.command (.reloadConfig
      (mailerConfig ["TICK_5"] [("web", { command := "nginx" })])) .plain) := by
    intro newPrograms hresolve _ _
    change SupervisorConfig.resolvePrograms _ .plain = _ at hresolve
    rw [hresolve] at hfit
    exact of_decide_eq_true hfit
  have hreach : system.ReachableWhile KeepsPools m' :=
    .step (hinit.mono fun _ _ h => h.elim) hkeeps hstep
  exact ⟨m', hreach, of_decide_eq_true hkeys, poolsAgree_of_reachable hreach⟩

/-- A reload changes the events of a listener: the new instance is attached to the old pool, which
keeps the old events. -/
theorem exists_not_poolsAgree : ∃ m, system.Reachable m ∧ ¬ m.managed.PoolsAgree := by
  obtain ⟨m, hreach, hpool, hlistener⟩ := exists_reachableWhile (G := fun _ _ => True)
    (fun m => ((m.eventPools.lookup "mailer").map (·.inner.events)) = some ["TICK_5"] ∧
      ((m.configs.lookup "mailer").bind (·.eventListener)) =
        some ⟨"mailer", ["TICK_60"], 10, "supervisor.dispatchers:default_handler"⟩)
    (mailerConfig ["TICK_5"] []) .plain
    [.command (.reloadConfig (mailerConfig ["TICK_60"] [])) .plain] (by decide +kernel)
  refine ⟨m, hreach, fun hagrees => ?_⟩
  obtain ⟨cfg, hcfg, hel⟩ := Option.bind_eq_some_iff.mp hlistener
  obtain ⟨pool, ⟨prog, _, _, hregistered⟩, hevents, _⟩ :=
    hagrees.attached ⟨cfg, hcfg, hel, rfl⟩
  change m.eventPools.lookup "mailer" = some pool at hregistered
  rw [hregistered, Option.map_some, hevents] at hpool
  exact absurd (Option.some.inj hpool) (by decide)

end ManagerActor

end Rsupervisord
