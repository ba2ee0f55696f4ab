import Rsupervisord.Manager.Effects

/-!
# The invariant of the manager

A successful build and the four operations that change the managed programs have one form: some
programs are removed, and one new instance is registered for each of some configurations. `Change`
is this form. It keeps the instances distinct and in agreement with the configuration map, so that
`Managed.Invariant` holds in every reachable state.

## Main results

* `commitReload_change` and its siblings: each operation is a change.
* `Change.invariant`: a change keeps the invariant.
* `invariant_of_reachable`: in every reachable state the instances and the configurations agree.
-/

namespace Rsupervisord

/-! ## Changes -/

namespace Managed

/-- What an operation does that removes the programs `removed` and registers the new instances
`progs`, one for each of the configurations `entries`. The staging starts from the pools
`eventPools`. -/
structure Change (s : Managed) (removed : List String) (entries : List (String × ProgramConfig))
    (eventPools : HashMap String EventListenerPool) (progs : List (String × ProgramInstance))
    (s' : Managed) : Prop where
  staged : Staged s.serverIdentifier entries ⟨eventPools, s.nextId⟩ progs
    ⟨s'.eventPools, s'.nextId⟩
  replaces : s.Replaces removed progs s'
  shared_eq : s'.sharedConfigs = s'.configs

variable {s s' : Managed} {removed : List String} {entries : List (String × ProgramConfig)}
  {eventPools : HashMap String EventListenerPool} {progs : List (String × ProgramInstance)}
  {name : String}

/-- A staged name is the name of its entry. -/
theorem map_fst_of_configsOf (h : configsOf progs = entries) :
    progs.map Prod.fst = entries.map Prod.fst := by
  rw [← h, configsOf, List.map_map]
  rfl

/-- A staged instance for each entry. -/
theorem mem_of_configsOf (h : configsOf progs = entries) {e : String × ProgramConfig} :
    e ∈ entries ↔ ∃ prog, (e.1, prog) ∈ progs ∧ prog.config = e.2 := by
  rw [← h, configsOf, List.mem_map]
  constructor
  · rintro ⟨⟨name, prog⟩, hprog, rfl⟩
    exact ⟨prog, hprog, rfl⟩
  · rintro ⟨prog, hprog, hcfg⟩
    exact ⟨_, hprog, Prod.ext rfl hcfg⟩

/-- A program after a change is a registered instance or a kept one. -/
theorem Change.of_lookup (h : s.Change removed entries eventPools progs s')
    {prog : ProgramInstance} (hlookup : s'.programs.lookup name = some prog) :
    (name, prog) ∈ progs ∨
      name ∉ removed ∧ name ∉ entries.map Prod.fst ∧ s.programs.lookup name = some prog := by
  rw [← map_fst_of_configsOf h.staged.entries_eq]
  by_cases hname : name ∈ progs.map Prod.fst
  · obtain ⟨e, he, rfl⟩ := List.mem_map.mp hname
    rw [(h.replaces.registered e he).1] at hlookup
    obtain rfl := Option.some.inj hlookup
    exact .inl he
  · by_cases hremoved : name ∈ removed
    · rw [(h.replaces.gone name hremoved hname).1] at hlookup
      cases hlookup
    · rw [(h.replaces.kept name hremoved hname).1] at hlookup
      exact .inr ⟨hremoved, hname, hlookup⟩

/-- The configurations after a change are the entries and the kept ones. -/
theorem Change.lookup_configs_iff (h : s.Change removed entries eventPools progs s')
    {cfg : ProgramConfig} : s'.configs.lookup name = some cfg ↔
      (name, cfg) ∈ entries ∨
        name ∉ removed ∧ name ∉ entries.map Prod.fst ∧ s.configs.lookup name = some cfg := by
  have hentries := mem_of_configsOf h.staged.entries_eq (e := (name, cfg))
  rw [hentries, ← map_fst_of_configsOf h.staged.entries_eq]
  constructor
  · intro hlookup
    by_cases hname : name ∈ progs.map Prod.fst
    · obtain ⟨e, he, rfl⟩ := List.mem_map.mp hname
      rw [(h.replaces.registered e he).2] at hlookup
      exact .inl ⟨e.2, he, Option.some.inj hlookup⟩
    · by_cases hremoved : name ∈ removed
      · rw [(h.replaces.gone name hremoved hname).2] at hlookup
        cases hlookup
      · rw [(h.replaces.kept name hremoved hname).2] at hlookup
        exact .inr ⟨hremoved, hname, hlookup⟩
  · rintro (⟨prog, hprog, rfl⟩ | ⟨hremoved, hname, hlookup⟩)
    · exact (h.replaces.registered _ hprog).2
    · rw [(h.replaces.kept name hremoved hname).2, hlookup]

/-- A program is managed when it has a configuration. -/
theorem mem_configs_iff (hconfig : ∀ name, (s.programs.lookup name).map (·.config) =
    s.configs.lookup name) : name ∈ s.configs ↔ name ∈ s.programs := by
  rw [HashMap.mem_iff_lookup, HashMap.mem_iff_lookup, ← hconfig]
  simp only [Option.map_eq_some_iff]
  exact ⟨fun ⟨_, prog, hprog, _⟩ => ⟨prog, hprog⟩, fun ⟨prog, hprog⟩ => ⟨_, prog, hprog, rfl⟩⟩

/-! ## The invariant -/

/-- The managed part as every operation leaves it. -/
structure Invariant (s : Managed) : Prop where
  configs_wellFormed : s.configs.WellFormed
  pending_wellFormed : s.pendingConfigs.WellFormed
  /-- Each managed program has the configuration that is stored under its name. -/
  config_eq : ∀ name, (s.programs.lookup name).map (·.config) = s.configs.lookup name
  /-- The identities of the instances were given out. -/
  id_lt : ∀ {name prog}, s.programs.lookup name = some prog → prog.id < s.nextId
  /-- The instances are distinct. -/
  id_inj : ∀ {name₁ name₂ prog₁ prog₂}, s.programs.lookup name₁ = some prog₁ →
    s.programs.lookup name₂ = some prog₂ → prog₁.id = prog₂.id → name₁ = name₂
  shared_eq : s.sharedConfigs = s.configs
  sharedPending_eq : s.sharedPendingConfigs = s.pendingConfigs

/-- A change keeps the configurations of instances and map in agreement. -/
theorem Change.config_eq (h : s.Change removed entries eventPools progs s')
    (hconfig : ∀ name, (s.programs.lookup name).map (·.config) = s.configs.lookup name)
    (name : String) : (s'.programs.lookup name).map (·.config) = s'.configs.lookup name := by
  by_cases hname : name ∈ progs.map Prod.fst
  · obtain ⟨e, he, rfl⟩ := List.mem_map.mp hname
    rw [(h.replaces.registered e he).1, (h.replaces.registered e he).2, Option.map_some]
  · by_cases hremoved : name ∈ removed
    · obtain ⟨hprograms, hconfigs⟩ := h.replaces.gone name hremoved hname
      rw [hprograms, hconfigs, Option.map_none]
    · obtain ⟨hprograms, hconfigs⟩ := h.replaces.kept name hremoved hname
      rw [hprograms, hconfigs, hconfig]

/-- A change keeps the invariant when it leads to well-formed configurations. -/
theorem Change.invariant (h : s.Change removed entries eventPools progs s') (hinv : s.Invariant)
    (hconfigs : s'.configs.WellFormed) (hpending : s'.pendingConfigs.WellFormed)
    (hshared : s'.sharedPendingConfigs = s'.pendingConfigs) : s'.Invariant where
  configs_wellFormed := hconfigs
  pending_wellFormed := hpending
  config_eq := h.config_eq hinv.config_eq
  id_lt {name prog} hlookup := by
    rcases h.of_lookup hlookup with he | ⟨_, _, hold⟩
    · exact (h.staged.id_range _ he).2
    · exact (hinv.id_lt hold).trans_le h.staged.nextId_le
  id_inj {name₁ name₂ prog₁ prog₂} hlookup₁ hlookup₂ hid := by
    -- A kept instance has a smaller identity than a staged one.
    have hfresh : ∀ {e : String × ProgramInstance} {name prog}, e ∈ progs →
        s.programs.lookup name = some prog → e.2.id ≠ prog.id := fun he hold =>
      ((hinv.id_lt hold).trans_le (h.staged.id_range _ he).1).ne'
    rcases h.of_lookup hlookup₁ with he₁ | ⟨_, _, hold₁⟩ <;>
      rcases h.of_lookup hlookup₂ with he₂ | ⟨_, _, hold₂⟩
    · exact congrArg Prod.fst (h.staged.id_inj _ he₁ _ he₂ hid)
    · exact absurd hid (hfresh he₁ hold₂)
    · exact absurd hid.symm (hfresh he₂ hold₁)
    · exact hinv.id_inj hold₁ hold₂ hid
  shared_eq := h.shared_eq
  sharedPending_eq := hshared

/-- Instances are registered for all configurations of a map, and nothing else is left. -/
theorem Change.lookup_configs_of_all {newPrograms : ProgramConfigs} {o : HashOrder String}
    (h : s.Change removed (newPrograms.iter o) eventPools progs s')
    (hall : ∀ name ∈ s.configs, name ∈ removed) (name : String) :
    s'.configs.lookup name = newPrograms.lookup name := by
  refine Option.ext fun cfg => ?_
  rw [h.lookup_configs_iff, HashMap.mem_iter]
  refine or_iff_left fun ⟨hremoved, _, hlookup⟩ => ?_
  exact hremoved (hall name (HashMap.mem_iff_lookup.mpr ⟨cfg, hlookup⟩))

end Managed

/-! ## The operations as changes -/

namespace ManagerActor

variable {m m' : ManagerActor} {env : ManagerEnv} {config newConfig : SupervisorConfig}
  {newPrograms : ProgramConfigs} {progs : List (String × ProgramInstance)} {st : Staging}
  {group : String}

/-- The manager before its build. -/
def unbuilt (config : SupervisorConfig) : Managed where
  programs := ∅
  configs := ∅
  sharedConfigs := ∅
  pendingConfigs := ∅
  sharedPendingConfigs := ∅
  dag := ⟨[], []⟩
  eventPools := ∅
  serverIdentifier := config.identifier.getD "rsupervisord-compat"
  nextId := 0

/-- The invariant holds before the build. -/
theorem unbuilt_invariant : (unbuilt config).Invariant := by
  have hempty : ∀ {name : String} {cfg : ProgramConfig},
      (∅ : ProgramConfigs).lookup name ≠ some cfg := by simp
  have hprograms : ∀ {name : String} {prog : ProgramInstance},
      (∅ : HashMap String ProgramInstance).lookup name ≠ some prog := by simp
  have hwf : (∅ : ProgramConfigs).WellFormed :=
    ⟨fun h => absurd h hempty, fun h => absurd h hempty, fun h => absurd h hempty,
      fun h => absurd h hempty⟩
  exact ⟨hwf, hwf, fun _ => rfl, fun h => absurd h hprograms, fun h => absurd h hprograms, rfl,
    rfl⟩

/-- A build registers an instance for each resolved program. -/
theorem build_change (h : build config env = .ok m) :
    ∃ newPrograms progs, config.resolvePrograms env.resolve = .ok newPrograms ∧
      DependencyGraph.build env.check env.orders.build newPrograms = .ok m.dag ∧
      m.pendingConfigs = newPrograms ∧ m.sharedPendingConfigs = newPrograms ∧
      (∀ name, m.configs.lookup name = newPrograms.lookup name) ∧
      (unbuilt config).Change [] (newPrograms.iter env.orders.newPrograms) ∅ progs m.managed := by
  simp only [build, Except.bind_eq_ok] at h
  obtain ⟨newPrograms, hresolve, dag, hbuild, ⟨progs, st⟩, hstage, h⟩ := h
  obtain rfl := Except.ok.inj h
  have hst := stage_staged hstage
  have hnames := Managed.map_fst_of_configsOf hst.entries_eq
  have hnodup : (progs.map Prod.fst).Nodup := hnames ▸ HashMap.nodup_map_fst_iter
  refine ⟨newPrograms, progs, hresolve, hbuild, rfl, rfl, fun _ => rfl, hst,
    ⟨fun e he => ⟨HashMap.lookup_extend_of_mem hnodup he, ?_⟩, fun _ h => absurd h List.not_mem_nil,
      fun name _ hname => ⟨HashMap.lookup_extend_of_notMem hname, ?_⟩⟩, rfl⟩
  · exact HashMap.mem_iter.mp
      ((Managed.mem_of_configsOf hst.entries_eq (e := (e.1, e.2.config))).mpr ⟨e.2, he, rfl⟩)
  · -- A name that was not staged is not a name of the resolved map.
    rw [hnames, HashMap.map_fst_iter, HashMap.mem_arrange_keys] at hname
    exact AList.lookup_eq_none.mpr hname

/-- The entries of a reload have distinct names. -/
theorem nodup_reloadEntries (hnew : newPrograms.WellFormed) :
    ((m.reloadEntries env newPrograms).map Prod.fst).Nodup := by
  rw [reloadEntries, List.map_map]
  exact ConfigDiff.nodup_changed hnew

/-- The entries of a reload are those of the new configuration that the old one does not have. -/
theorem mem_reloadEntries (hnew : newPrograms.WellFormed) {e : String × ProgramConfig} :
    e ∈ m.reloadEntries env newPrograms ↔
      newPrograms.lookup e.1 = some e.2 ∧ m.configs.lookup e.1 ≠ some e.2 := by
  obtain ⟨name, cfg⟩ := e
  simp only [reloadEntries, List.mem_map, List.mem_append, reloadDiff, Prod.mk.injEq]
  constructor
  · rintro ⟨c, hc, rfl, rfl⟩
    rcases hc with hc | hc
    · obtain ⟨name, hlookup, oldCfg, hold, hne⟩ := ConfigDiff.mem_modified.mp hc
      rw [hnew.name_eq hlookup, hold]
      exact ⟨hlookup, by simpa using hne⟩
    · obtain ⟨name, hlookup, hnot⟩ := ConfigDiff.mem_added.mp hc
      rw [hnew.name_eq hlookup, AList.lookup_eq_none.mpr hnot]
      exact ⟨hlookup, by simp⟩
  · rintro ⟨hlookup, hne⟩
    refine ⟨cfg, ?_, hnew.name_eq hlookup, rfl⟩
    cases hold : m.configs.lookup name with
    | none => exact .inr (ConfigDiff.mem_added.mpr ⟨name, hlookup, AList.lookup_eq_none.mp hold⟩)
    | some oldCfg =>
        refine .inl (ConfigDiff.mem_modified.mpr ⟨name, hlookup, oldCfg, hold, ?_⟩)
        rintro rfl
        exact hne hold

/-- A reload removes the programs that the new configuration lacks and registers an instance for
each entry that the old one does not have. -/
theorem commitReload_change (newConfig : SupervisorConfig) (newDag : DependencyGraph)
    {modified added : List (String × ProgramInstance)} (hnew : newPrograms.WellFormed)
    (hstage : stageReload env.croner m.serverIdentifier (m.reloadDiff env newPrograms)
      ⟨m.eventPools, m.nextId⟩ = .ok (modified, added, st)) :
    m.managed.Change (m.reloadDiff env newPrograms).removed (m.reloadEntries env newPrograms)
      m.eventPools (modified ++ added)
      (m.commitReload newConfig env newPrograms newDag modified added st).managed := by
  have hst : Staged m.serverIdentifier (m.reloadEntries env newPrograms)
      ⟨m.eventPools, m.nextId⟩ (modified ++ added) st := stage_staged (stageReload_eq hstage).1
  have hnames := Managed.map_fst_of_configsOf hst.entries_eq
  have hrep := m.managed.commit_replaces (m.reloadDiff env newPrograms).removed
    (hnames ▸ nodup_reloadEntries hnew)
  rw [commitReload_managed]
  exact ⟨hst, ⟨hrep.registered, hrep.gone, hrep.kept⟩, rfl⟩

/-- A reload leads to the new configurations. -/
theorem lookup_configs_of_reload {s' : Managed} {eventPools : HashMap String EventListenerPool}
    (hnew : newPrograms.WellFormed)
    (h : m.managed.Change (m.reloadDiff env newPrograms).removed (m.reloadEntries env newPrograms)
      eventPools progs s') (name : String) :
    s'.configs.lookup name = newPrograms.lookup name := by
  refine Option.ext fun cfg => ?_
  rw [h.lookup_configs_iff, mem_reloadEntries hnew]
  change _ ∨ _ ∧ _ ∧ m.configs.lookup name = some cfg ↔ _
  constructor
  · rintro (⟨hlookup, _⟩ | ⟨hremoved, hname, hold⟩)
    · exact hlookup
    · -- A name that is neither staged nor removed has the same configuration in both maps.
      rw [reloadDiff, ConfigDiff.mem_removed, not_and_not_right] at hremoved
      obtain ⟨newCfg, hlookup⟩ := HashMap.mem_iff_lookup.mp
        (hremoved (HashMap.mem_iff_lookup.mpr ⟨cfg, hold⟩))
      by_contra hne
      refine hname (List.mem_map.mpr ⟨(name, newCfg), (mem_reloadEntries hnew).mpr
        ⟨hlookup, ?_⟩, rfl⟩)
      rintro hsame
      exact hne (hlookup.trans (hsame.symm.trans hold))
  · intro hlookup
    by_cases hold : m.configs.lookup name = some cfg
    · refine .inr ⟨?_, ?_, hold⟩
      · rw [reloadDiff, ConfigDiff.mem_removed, not_and_not_right]
        exact fun _ => HashMap.mem_iff_lookup.mpr ⟨cfg, hlookup⟩
      · rintro hname
        obtain ⟨⟨_, newCfg⟩, he, rfl⟩ := List.mem_map.mp hname
        obtain ⟨hlookup', hne⟩ := (mem_reloadEntries hnew).mp he
        exact hne (hold.trans (hlookup.symm.trans hlookup'))
    · exact .inl ⟨hlookup, hold⟩

/-- A restart removes every program and registers an instance for each new one. -/
theorem commitRestart_change (newConfig : SupervisorConfig) (hinv : m.managed.Invariant)
    (hstage : stage env.croner m.serverIdentifier (newPrograms.iter env.orders.newPrograms)
      ⟨∅, m.nextId⟩ = .ok (progs, st)) :
    m.managed.Change m.configs.keys (newPrograms.iter env.orders.newPrograms) ∅ progs
      (m.commitRestart newConfig env newPrograms progs st).managed := by
  have hst := stage_staged hstage
  have hnames := Managed.map_fst_of_configsOf hst.entries_eq
  have hnodup : (progs.map Prod.fst).Nodup := hnames ▸ HashMap.nodup_map_fst_iter
  have hfst : (configsOf progs).map Prod.fst = progs.map Prod.fst := by
    rw [configsOf, List.map_map]
    rfl
  rw [commitRestart_managed]
  refine ⟨hst, ⟨fun e he => ⟨HashMap.lookup_extend_of_mem hnodup he, ?_⟩,
    fun name _ hname => ⟨HashMap.lookup_extend_of_notMem hname, ?_⟩,
    fun name hremoved hname => ⟨(HashMap.lookup_extend_of_notMem hname).trans ?_,
      (HashMap.lookup_extend_of_notMem (hfst ▸ hname)).trans ?_⟩⟩, rfl⟩
  · exact HashMap.lookup_extend_of_mem (hfst ▸ hnodup) (List.mem_map.mpr ⟨e, he, rfl⟩)
  · exact HashMap.lookup_extend_of_notMem (hfst ▸ hname)
  · -- A name without a configuration has no instance.
    rw [eq_comm]
    exact AList.lookup_eq_none.mpr
      (mt (Managed.mem_configs_iff hinv.config_eq).mpr (mt AList.mem_keys.mpr hremoved))
  · rw [eq_comm]
    exact AList.lookup_eq_none.mpr (mt AList.mem_keys.mpr hremoved)

/-- The pending configuration of a program, when it belongs to the group. -/
def pendingMember (m : ManagerActor) (group name : String) : Option ProgramConfig :=
  (m.pendingConfigs.lookup name).filter fun cfg => cfg.group = group

/-- The entries of a group addition are the pending members of the group. -/
theorem mem_groupEntries (hpending : m.pendingConfigs.WellFormed) {name : String}
    {cfg : ProgramConfig} :
    (name, cfg) ∈ m.groupEntries env group ↔ m.pendingMember group name = some cfg := by
  rw [pendingMember, Option.filter_eq_some_iff, decide_eq_true_eq]
  simp only [groupEntries, List.mem_map, mem_membersOf, Prod.mk.injEq]
  constructor
  · rintro ⟨c, ⟨⟨name, hlookup⟩, hgroup⟩, rfl, rfl⟩
    rw [hpending.name_eq hlookup]
    exact ⟨hlookup, hgroup⟩
  · rintro ⟨hlookup, hgroup⟩
    exact ⟨cfg, ⟨⟨name, hlookup⟩, hgroup⟩, hpending.name_eq hlookup, rfl⟩

/-- The names of selected configurations of a map are distinct. -/
theorem nodup_names_membersOf {configs : ProgramConfigs} (hconfigs : configs.WellFormed)
    (order : HashOrder String) (group : String) :
    ((membersOf configs order group).map (·.name)).Nodup := by
  have hnames : (configs.values order).map (·.name) = (configs.iter order).map Prod.fst := by
    rw [HashMap.values, List.map_map]
    exact List.map_congr_left fun e he => hconfigs.name_eq (HashMap.mem_iter.mp he)
  have hnodup : ((configs.values order).map (·.name)).Nodup :=
    hnames ▸ HashMap.nodup_map_fst_iter
  exact hnodup.sublist (List.filter_sublist.map _)

/-- A group addition registers an instance for each pending member of the group. -/
theorem commitGroup_change (hpending : m.pendingConfigs.WellFormed)
    (hstage : stage env.croner m.serverIdentifier (m.groupEntries env group)
      ⟨m.eventPools, m.nextId⟩ = .ok (progs, st)) :
    m.managed.Change [] (m.groupEntries env group) m.eventPools progs
      (m.commitGroup env group progs st).managed := by
  have hst := stage_staged hstage
  have hnodup : (progs.map Prod.fst).Nodup := by
    rw [Managed.map_fst_of_configsOf hst.entries_eq, groupEntries, List.map_map]
    exact nodup_names_membersOf hpending _ _
  have hrep := m.managed.commit_replaces [] hnodup
  rw [commitGroup_managed]
  exact ⟨hst, ⟨hrep.registered, hrep.gone, hrep.kept⟩, rfl⟩

/-- The configurations after a group addition. -/
theorem lookup_configs_of_groupAdded {progs : List (String × ProgramInstance)} {s' : Managed}
    (hpending : m.pendingConfigs.WellFormed)
    (h : m.managed.Change [] (m.groupEntries env group) m.eventPools progs s') (name : String) :
    s'.configs.lookup name = (m.pendingMember group name <|> m.configs.lookup name) := by
  refine Option.ext fun cfg => ?_
  rw [h.lookup_configs_iff, mem_groupEntries hpending]
  cases hmember : m.pendingMember group name with
  | none =>
      refine ⟨?_, fun hlookup => .inr ⟨List.not_mem_nil, ?_, hlookup⟩⟩
      · rintro (h | ⟨_, _, hlookup⟩)
        · cases h
        · exact hlookup
      · intro hname
        obtain ⟨e, he, rfl⟩ := List.mem_map.mp hname
        rw [(mem_groupEntries hpending).mp he] at hmember
        cases hmember
  | some cfg' =>
      refine ⟨?_, .inl⟩
      rintro (h | ⟨_, hname, _⟩)
      · exact h
      · exact absurd (List.mem_map_of_mem ((mem_groupEntries hpending).mpr hmember)) hname

/-- The names that a group removal takes away. -/
theorem mem_groupNames (hconfigs : m.configs.WellFormed) {name : String} :
    name ∈ m.groupNames env group ↔ ∃ cfg, m.configs.lookup name = some cfg ∧
      cfg.group = group := by
  simp only [groupNames, List.mem_map, mem_membersOf]
  constructor
  · rintro ⟨cfg, ⟨⟨name, hlookup⟩, hgroup⟩, rfl⟩
    rw [hconfigs.name_eq hlookup]
    exact ⟨cfg, hlookup, hgroup⟩
  · rintro ⟨cfg, hlookup, hgroup⟩
    exact ⟨cfg, ⟨⟨name, hlookup⟩, hgroup⟩, hconfigs.name_eq hlookup⟩

/-- A group removal removes the programs of the group. -/
theorem commitRemoval_change (m : ManagerActor) (env : ManagerEnv) (group : String) :
    m.managed.Change (m.groupNames env group) [] m.eventPools []
      (m.commitRemoval env group).managed := by
  have hrep : m.managed.Replaces (m.groupNames env group) [] _ :=
    m.managed.commit_replaces (m.groupNames env group) List.nodup_nil
  have hstage : stage env.croner m.serverIdentifier [] ⟨m.eventPools, m.nextId⟩ =
      .ok ([], ⟨m.eventPools, m.nextId⟩) := rfl
  have hst := stage_staged hstage
  rw [commitRemoval_managed]
  rw [Managed.commit_eq] at hrep ⊢
  exact ⟨hst, ⟨hrep.registered, hrep.gone, hrep.kept⟩, rfl⟩

/-- The configurations after a group removal. -/
theorem lookup_configs_of_groupRemoved {s' : Managed} (hconfigs : m.configs.WellFormed)
    (h : m.managed.Change (m.groupNames env group) [] m.eventPools [] s') (name : String)
    (cfg : ProgramConfig) :
    s'.configs.lookup name = some cfg ↔ m.configs.lookup name = some cfg ∧ cfg.group ≠ group := by
  rw [h.lookup_configs_iff, mem_groupNames hconfigs]
  change _ ∨ _ ∧ _ ∧ m.configs.lookup name = some cfg ↔ _
  constructor
  · rintro (he | ⟨hremoved, _, hlookup⟩)
    · cases he
    · exact ⟨hlookup, fun hgroup => hremoved ⟨cfg, hlookup, hgroup⟩⟩
  · rintro ⟨hlookup, hgroup⟩
    refine .inr ⟨?_, List.not_mem_nil, hlookup⟩
    rintro ⟨cfg', hlookup', hgroup'⟩
    rw [hlookup] at hlookup'
    exact hgroup (Option.some.inj hlookup' ▸ hgroup')

/-- A group addition keeps the configurations well formed, as no other listener uses the pools of
the group. -/
theorem wellFormed_of_groupAdded {s' : Managed} {eventPools : HashMap String EventListenerPool}
    (hinv : m.managed.Invariant) (hinactive : ¬ m.GroupActive group)
    (h : m.managed.Change [] (m.groupEntries env group) eventPools progs s') :
    s'.configs.WellFormed := by
  have hcases : ∀ {name cfg}, s'.configs.lookup name = some cfg →
      m.pendingConfigs.lookup name = some cfg ∧ cfg.group = group ∨
        m.configs.lookup name = some cfg ∧ cfg.group ≠ group := by
    intro name cfg hlookup
    rcases h.lookup_configs_iff.mp hlookup with he | ⟨_, _, hold⟩
    · rw [mem_groupEntries hinv.pending_wellFormed, pendingMember, Option.filter_eq_some_iff,
        decide_eq_true_eq] at he
      exact .inl he
    · exact .inr ⟨hold, fun hgroup => hinactive ⟨name, cfg, hold, hgroup⟩⟩
  have hpending := hinv.pending_wellFormed
  have hconfigs := hinv.configs_wellFormed
  refine ⟨fun hlookup => ?_, fun hlookup hel => ?_, fun hlookup hel => ?_,
    fun {name₁ name₂ cfg₁ cfg₂ el₁ el₂} hlookup₁ hlookup₂ hel₁ hel₂ hpool => ?_⟩
  · exact (hcases hlookup).elim (fun h => hpending.name_eq h.1) fun h => hconfigs.name_eq h.1
  · exact (hcases hlookup).elim (fun h => hpending.group_eq h.1 hel)
      fun h => hconfigs.group_eq h.1 hel
  · exact (hcases hlookup).elim (fun h => hpending.bufferSize_pos h.1 hel)
      fun h => hconfigs.bufferSize_pos h.1 hel
  · rcases hcases hlookup₁ with ⟨h₁, hgroup₁⟩ | ⟨h₁, hgroup₁⟩ <;>
      rcases hcases hlookup₂ with ⟨h₂, hgroup₂⟩ | ⟨h₂, hgroup₂⟩
    · exact hpending.pool_eq h₁ h₂ hel₁ hel₂ hpool
    -- A pool of the group has the name of the group, and so has every listener attached to it.
    · rw [hpending.group_eq h₁ hel₁, hpool, ← hconfigs.group_eq h₂ hel₂] at hgroup₁
      exact absurd hgroup₁ hgroup₂
    · rw [hpending.group_eq h₂ hel₂, ← hpool, ← hconfigs.group_eq h₁ hel₁] at hgroup₂
      exact absurd hgroup₂ hgroup₁
    · exact hconfigs.pool_eq h₁ h₂ hel₁ hel₂ hpool

/-- A build establishes the invariant. -/
theorem build_invariant (h : build config env = .ok m) : m.managed.Invariant := by
  obtain ⟨newPrograms, progs, hresolve, _, hpending, hshared, hconfigs, hchange⟩ := build_change h
  have hnew := SupervisorConfig.resolvePrograms_wellFormed hresolve
  refine hchange.invariant unbuilt_invariant (hnew.mono fun name cfg hlookup => ?_) ?_ ?_
  · rw [← hconfigs name]
    exact hlookup
  · change m.pendingConfigs.WellFormed
    rw [hpending]
    exact hnew
  · exact hshared.trans hpending.symm

/-- A group addition keeps the invariant. -/
theorem groupAdded_invariant (hinv : m.managed.Invariant) (hinactive : ¬ m.GroupActive group)
    (hstage : stage env.croner m.serverIdentifier (m.groupEntries env group)
      ⟨m.eventPools, m.nextId⟩ = .ok (progs, st)) :
    (m.commitGroup env group progs st).managed.Invariant := by
  have hchange := commitGroup_change hinv.pending_wellFormed hstage
  refine hchange.invariant hinv (wellFormed_of_groupAdded hinv hinactive hchange) ?_ ?_
  · rw [commitGroup_managed, Managed.commit_eq]
    exact hinv.pending_wellFormed
  · rw [commitGroup_managed, Managed.commit_eq]
    exact hinv.sharedPending_eq

/-- A group removal keeps the invariant. -/
theorem groupRemoved_invariant (env : ManagerEnv) (group : String) (hinv : m.managed.Invariant) :
    (m.commitRemoval env group).managed.Invariant := by
  have hchange := m.commitRemoval_change env group
  refine hchange.invariant hinv (hinv.configs_wellFormed.mono fun name cfg h => ?_) ?_ ?_
  · rcases hchange.lookup_configs_iff.mp h with he | ⟨_, _, hold⟩
    · cases he
    · exact hold
  · rw [commitRemoval_managed, Managed.commit_eq]
    exact hinv.pending_wellFormed
  · rw [commitRemoval_managed, Managed.commit_eq]
    exact hinv.sharedPending_eq

/-- Every step keeps the invariant. -/
theorem next_invariant {l : Label} (hinv : m.managed.Invariant) (h : m.next l = some m') :
    m'.managed.Invariant := by
  cases next_effect h with
  | calls hmanaged => exact hmanaged ▸ hinv
  | pending hresolve hbuild =>
      exact { hinv with
        pending_wellFormed := SupervisorConfig.resolvePrograms_wellFormed hresolve
        sharedPending_eq := rfl }
  | @reloaded newConfig env newPrograms newDag modified added st hresolve hbuild hstage =>
      have hnew := SupervisorConfig.resolvePrograms_wellFormed hresolve
      have hchange := commitReload_change newConfig newDag hnew hstage
      have hlookup := lookup_configs_of_reload hnew hchange
      refine hchange.invariant hinv (hnew.mono fun name cfg h => hlookup name ▸ h) ?_ ?_
      · rw [commitReload_managed]
        exact hnew
      · rw [commitReload_managed]
  | @restarted newConfig env newPrograms newDag progs st hresolve hbuild hstage =>
      have hnew := SupervisorConfig.resolvePrograms_wellFormed hresolve
      have hchange := commitRestart_change newConfig hinv hstage
      have hlookup := hchange.lookup_configs_of_all fun name h => AList.mem_keys.mp h
      refine hchange.invariant hinv (hnew.mono fun name cfg h => hlookup name ▸ h) ?_ ?_
      · rw [commitRestart_managed]
        exact hnew
      · rw [commitRestart_managed]
  | groupAdded hinactive hstage => exact groupAdded_invariant hinv hinactive hstage
  | groupRemoved hactive hidle => exact groupRemoved_invariant _ _ hinv

/-- The invariant holds in every reachable state. -/
theorem invariant_of_reachable {G : ManagerActor → Label → Prop}
    (h : system.ReachableWhile G m) : m.managed.Invariant := by
  refine TransitionSystem.ReachableWhile.invariant (I := fun m => m.managed.Invariant) ?_ ?_ h
  · rintro m ⟨config, env, hbuild⟩
    exact build_invariant hbuild
  · intro m l m' _ hinv _ hstep
    exact next_invariant hinv hstep

/-- A step keeps what every resolved configuration has. -/
theorem next_eachEntry {P : String → ProgramConfig → Prop} {l : Label}
    (hP : ∀ (config : SupervisorConfig) env newPrograms,
      config.resolvePrograms env = .ok newPrograms → newPrograms.EachEntry P)
    (hinv : m.managed.Invariant) (hconfigs : m.configs.EachEntry P)
    (hpending : m.pendingConfigs.EachEntry P) (h : m.next l = some m') :
    m'.configs.EachEntry P ∧ m'.pendingConfigs.EachEntry P := by
  cases next_effect h with
  | calls hmanaged =>
      have hc : m'.configs = m.configs := congrArg Managed.configs hmanaged
      have hp : m'.pendingConfigs = m.pendingConfigs := congrArg Managed.pendingConfigs hmanaged
      rw [hc, hp]
      exact ⟨hconfigs, hpending⟩
  | pending hresolve hbuild => exact ⟨hconfigs, hP _ _ _ hresolve⟩
  | @reloaded newConfig env newPrograms newDag modified added st hresolve hbuild hstage =>
      have hchange := commitReload_change newConfig newDag
        (SupervisorConfig.resolvePrograms_wellFormed hresolve) hstage
      have hlookup := lookup_configs_of_reload
        (SupervisorConfig.resolvePrograms_wellFormed hresolve) hchange
      have hnew := hP _ _ _ hresolve
      refine ⟨fun name cfg hcfg => hnew name cfg (hlookup name ▸ hcfg), ?_⟩
      have hp : (m.commitReload newConfig env newPrograms newDag modified added st).pendingConfigs =
          newPrograms := congrArg Managed.pendingConfigs commitReload_managed
      exact hp.symm ▸ hnew
  | @restarted newConfig env newPrograms newDag progs st hresolve hbuild hstage =>
      have hchange := commitRestart_change newConfig hinv hstage
      have hlookup := hchange.lookup_configs_of_all fun name h => AList.mem_keys.mp h
      have hnew := hP _ _ _ hresolve
      refine ⟨fun name cfg hcfg => hnew name cfg (hlookup name ▸ hcfg), ?_⟩
      have hp : (m.commitRestart newConfig env newPrograms progs st).pendingConfigs = newPrograms :=
        congrArg Managed.pendingConfigs commitRestart_managed
      exact hp.symm ▸ hnew
  | @groupAdded group env progs st hinactive hstage =>
      have hchange := commitGroup_change hinv.pending_wellFormed hstage
      have hlookup := lookup_configs_of_groupAdded hinv.pending_wellFormed hchange
      have hp : (m.commitGroup env group progs st).pendingConfigs = m.pendingConfigs := by
        have hmanaged := congrArg Managed.pendingConfigs (@commitGroup_managed m env group progs st)
        rw [Managed.commit_eq] at hmanaged
        exact hmanaged
      refine ⟨fun name cfg hcfg => ?_, hp.symm ▸ hpending⟩
      have hcfg' := (hlookup name).symm.trans hcfg
      rcases hmember : m.pendingMember group name with _ | cfg'
      · rw [hmember] at hcfg'
        exact hconfigs name cfg hcfg'
      · rw [hmember] at hcfg'
        rw [pendingMember, Option.filter_eq_some_iff] at hmember
        exact hpending name cfg (Option.some.inj hcfg' ▸ hmember.1)
  | @groupRemoved group env hactive hidle =>
      have hchange := m.commitRemoval_change env group
      have hp : (m.commitRemoval env group).pendingConfigs = m.pendingConfigs := by
        have hmanaged := congrArg Managed.pendingConfigs (@commitRemoval_managed m env group)
        rw [Managed.commit_eq] at hmanaged
        exact hmanaged
      refine ⟨fun name cfg hcfg => ?_, hp.symm ▸ hpending⟩
      have hold := (lookup_configs_of_groupRemoved hinv.configs_wellFormed hchange name cfg).mp hcfg
      exact hconfigs name cfg hold.1

/-- The managed configurations have what every resolved configuration has. -/
theorem configs_eachEntry_of_reachable {P : String → ProgramConfig → Prop}
    {G : ManagerActor → Label → Prop}
    (hP : ∀ (config : SupervisorConfig) env newPrograms,
      config.resolvePrograms env = .ok newPrograms → newPrograms.EachEntry P)
    (h : system.ReachableWhile G m) : m.configs.EachEntry P := by
  suffices hall : m.managed.Invariant ∧ m.configs.EachEntry P ∧ m.pendingConfigs.EachEntry P from
    hall.2.1
  refine TransitionSystem.ReachableWhile.invariant (I := fun m =>
    m.managed.Invariant ∧ m.configs.EachEntry P ∧ m.pendingConfigs.EachEntry P) ?_ ?_ h
  · rintro m ⟨config, env, hbuild⟩
    obtain ⟨newPrograms, _, hresolve, _, hpending, _, hconfigs, _⟩ := build_change hbuild
    have hnew := hP _ _ _ hresolve
    exact ⟨build_invariant hbuild, fun name cfg hcfg => hnew name cfg (hconfigs name ▸ hcfg),
      hpending.symm ▸ hnew⟩
  · rintro m l m' _ ⟨hinv, hconfigs, hpending⟩ _ hstep
    exact ⟨next_invariant hinv hstep, next_eachEntry hP hinv hconfigs hpending hstep⟩

/-! ## Operations that take effect -/

/-- The pending members of the group can be added: the group is not active, and each of them can be
instantiated. -/
def GroupAddable (m : ManagerActor) (env : ManagerEnv) (group : String) : Prop :=
  ¬ m.GroupActive group ∧
    ∀ name cfg, m.pendingMember group name = some cfg → cfg.Instantiable env.croner

/-- No program of the group is busy. -/
def GroupRemovable (m : ManagerActor) (env : ManagerEnv) (group : String) : Prop :=
  ∀ name cfg, m.configs.lookup name = some cfg → cfg.group = group → m.isBusy env name = false

/-- A group addition that stages its programs takes effect. -/
theorem groupAddable_of_stage (hinv : m.managed.Invariant) (hinactive : ¬ m.GroupActive group)
    (hstage : stage env.croner m.serverIdentifier (m.groupEntries env group)
      ⟨m.eventPools, m.nextId⟩ = .ok (progs, st)) : m.GroupAddable env group :=
  ⟨hinactive, fun name cfg hmember => stage_isOk_iff.mp ⟨_, hstage⟩ (name, cfg)
    ((mem_groupEntries hinv.pending_wellFormed).mpr hmember)⟩

/-- A group removal that finds no busy program takes effect. -/
theorem groupRemovable_of_idle (hinv : m.managed.Invariant)
    (hidle : ∀ name ∈ m.groupNames env group, m.isBusy env name = false) :
    m.GroupRemovable env group := fun name cfg hcfg hgroup =>
  hidle name ((mem_groupNames hinv.configs_wellFormed).mpr ⟨cfg, hcfg, hgroup⟩)

end ManagerActor

end Rsupervisord
