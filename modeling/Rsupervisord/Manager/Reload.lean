import Rsupervisord.Manager.SupervisorInvariants

/-!
# Failed operations and reloads

An operation that fails leaves the state as it was, with one exception that the source makes on
purpose: the configuration of a reload or a restart becomes pending before its programs are staged.
A successful reload leads to the new configuration and leaves the unchanged programs alone.

## Main results

* `error_leaves_state`: a failed reload, restart or group addition changes at most the pending
  configurations.
* `reload_partitions`: the effect of a successful reload on names, configurations and instances.
-/

namespace Rsupervisord

/-! ## Failed operations -/

namespace ManagerActor

/-- The operations that take a new configuration or add a group. -/
def Command.changesPrograms : Command → Bool
  | .reloadConfig _ | .restartDaemon _ | .addProcessGroup _ => true
  | _ => false

/-- A reload or a restart with a configuration that resolves to `newPrograms` and has a dependency
graph, but one of whose programs cannot be instantiated. -/
structure Command.FailsToStage (cmd : Command) (env : ManagerEnv) (newPrograms : ProgramConfigs) :
    Prop where
  resolves : ∃ newConfig, (cmd = .reloadConfig newConfig ∨ cmd = .restartDaemon newConfig) ∧
    newConfig.resolvePrograms env.resolve = .ok newPrograms
  builds : ∃ newDag, DependencyGraph.build env.check env.orders.build newPrograms = .ok newDag
  fails : ∃ name cfg, newPrograms.lookup name = some cfg ∧ ¬ cfg.Instantiable env.croner

variable {m m' : ManagerActor} {env : ManagerEnv} {newConfig : SupervisorConfig}
  {newPrograms : ProgramConfigs}

/-- A reload stages its programs when each of them can be instantiated. -/
theorem stageReload_isOk {croner : Croner} {serverIdentifier : String} {diff : ConfigDiff}
    {st : Staging} (h : ∀ cfg ∈ diff.modified ++ diff.added, cfg.Instantiable croner) :
    ∃ r, stageReload croner serverIdentifier diff st = .ok r := by
  have hstage : ∀ (l : List ProgramConfig) (st : Staging), l ⊆ diff.modified ++ diff.added →
      ∃ r, stage croner serverIdentifier (l.map fun c => (c.name, c)) st = .ok r := by
    intro l st hl
    rw [stage_isOk_iff]
    intro e he
    obtain ⟨cfg, hcfg, rfl⟩ := List.mem_map.mp he
    exact h cfg (hl hcfg)
  obtain ⟨⟨modified, st₁⟩, hmodified⟩ := hstage diff.modified st (List.subset_append_left _ _)
  obtain ⟨⟨added, st₂⟩, hadded⟩ := hstage diff.added st₁ (List.subset_append_right _ _)
  exact ⟨(modified, added, st₂), by
    simp only [stageReload, Except.bind_eq_ok]
    exact ⟨_, hmodified, _, hadded, rfl⟩⟩

/-- A reload stages its programs when every new program that the old configuration does not have
can be instantiated. -/
theorem stageReload_isOk_of_entries (m : ManagerActor) (st : Staging)
    (hnew : newPrograms.WellFormed)
    (h : ∀ name cfg, newPrograms.lookup name = some cfg → m.configs.lookup name ≠ some cfg →
      cfg.Instantiable env.croner) :
    ∃ r, stageReload env.croner m.serverIdentifier (m.reloadDiff env newPrograms) st = .ok r := by
  refine stageReload_isOk fun cfg hcfg => ?_
  have hentry : (cfg.name, cfg) ∈ m.reloadEntries env newPrograms :=
    List.mem_map.mpr ⟨cfg, hcfg, rfl⟩
  obtain ⟨hlookup, hne⟩ := (mem_reloadEntries hnew).mp hentry
  exact h _ cfg hlookup hne

/-- A failed reload, restart or group addition leaves every component of the state as it was. Only
a reload or a restart that fails while it stages its programs has already made the resolved
programs pending. -/
theorem error_leaves_state {cmd : Command} {e : ProgramError} (hcmd : cmd.changesPrograms = true)
    (h : m.handleCommand cmd env = (.error e, m')) :
    m' = m ∨ ∃ newPrograms, cmd.FailsToStage env newPrograms ∧ m' = m.setPending newPrograms := by
  have hstate := congrArg Prod.snd h
  have herror := congrArg Prod.fst h
  cases cmd with
  | reloadConfig newConfig =>
      simp only [handleCommand, reply] at hstate herror
      rcases m.unlessShuttingDown_cases "manager" (m.executeReloadConfig newConfig env)
        with heq | heq <;> rw [heq] at hstate herror
      · exact .inl hstate.symm
      rcases m.executeReloadConfig_cases newConfig env with ⟨e', hres⟩ |
        ⟨newPrograms, newDag, hresolve, hbuild, ⟨e', hstage, hres⟩ | ⟨_, _, _, _, hres⟩⟩
      · rw [hres] at hstate
        exact .inl hstate.symm
      · rw [hres] at hstate
        refine .inr ⟨newPrograms, ⟨⟨newConfig, .inl rfl, hresolve⟩, ⟨newDag, hbuild⟩, ?_⟩,
          hstate.symm⟩
        -- The staging failed at some program of the new configuration.
        by_contra hall
        push Not at hall
        obtain ⟨r, hok⟩ := m.stageReload_isOk_of_entries ⟨m.eventPools, m.nextId⟩
          (SupervisorConfig.resolvePrograms_wellFormed hresolve)
          fun name cfg hlookup _ => hall name cfg hlookup
        rw [hstage] at hok
        cases hok
      · rw [hres] at herror
        cases herror
  | restartDaemon newConfig =>
      simp only [handleCommand, reply] at hstate herror
      rcases m.unlessShuttingDown_cases "manager" (m.executeRestartDaemon newConfig env)
        with heq | heq <;> rw [heq] at hstate herror
      · exact .inl hstate.symm
      rcases m.executeRestartDaemon_cases newConfig env with ⟨e', hres⟩ |
        ⟨newPrograms, newDag, hresolve, hbuild, ⟨e', hstage, hres⟩ | ⟨_, _, _, hres⟩⟩
      · rw [hres] at hstate
        exact .inl hstate.symm
      · rw [hres] at hstate
        refine .inr ⟨newPrograms, ⟨⟨newConfig, .inr rfl, hresolve⟩, ⟨newDag, hbuild⟩, ?_⟩,
          hstate.symm⟩
        by_contra hall
        push Not at hall
        obtain ⟨r, hok⟩ : ∃ r, stage env.croner m.serverIdentifier
            (newPrograms.iter env.orders.newPrograms) ⟨∅, m.nextId⟩ = .ok r :=
          stage_isOk_iff.mpr fun e he => hall e.1 e.2 (HashMap.mem_iter.mp he)
        rw [hstage] at hok
        cases hok
      · rw [hres] at herror
        cases herror
  | addProcessGroup group =>
      simp only [handleCommand, reply] at hstate herror
      rcases m.unlessShuttingDown_cases group (m.executeAddProcessGroup group env)
        with heq | heq <;> rw [heq] at hstate herror
      · exact .inl hstate.symm
      rcases m.executeAddProcessGroup_cases group env with ⟨_, _, hres⟩ | ⟨_, _, _, _, hres⟩
      · rw [hres] at hstate
        exact .inl hstate.symm
      · rw [hres] at herror
        cases herror
  | _ => cases hcmd

/-- A reload with an unknown dependency fails. -/
theorem error_leaves_state_of_unknown_dependency :
    ∃ m e m', system.Reachable m ∧
      m.handleCommand (.reloadConfig (siteConfig "nginx" "cache")) .plain = (.error e, m') ∧
      (m' = m ∨ ∃ newPrograms,
        (Command.reloadConfig (siteConfig "nginx" "cache")).FailsToStage .plain newPrograms ∧
          m' = m.setPending newPrograms) := by
  obtain ⟨m, hreach, herror⟩ := exists_reachableWhile (G := fun _ _ => True)
    (fun m => (m.handleCommand (.reloadConfig (siteConfig "nginx" "cache")) .plain).1.isOk = false)
    (siteConfig "nginx" "db") .plain [] (by decide +kernel)
  cases hres : m.handleCommand (.reloadConfig (siteConfig "nginx" "cache")) .plain with
  | mk r m' =>
      rw [hres] at herror
      cases r with
      | ok reply => cases herror
      | error e => exact ⟨m, e, m', hreach, hres, error_leaves_state rfl hres⟩

/-- A reload that fails can change the pending configurations: the command of the web server is
split into one empty word, which no instance accepts. -/
theorem exists_error_changes_pending :
    ∃ m cmd e m', system.Reachable m ∧ Command.changesPrograms cmd = true ∧
      m.handleCommand cmd .plain = (.error e, m') ∧ m'.pendingConfigs ≠ m.pendingConfigs := by
  obtain ⟨m, hreach, herror, hpending⟩ := exists_reachableWhile (G := fun _ _ => True)
    (fun m =>
      let r := m.handleCommand (.reloadConfig (siteConfig "\"\"" "db")) .plain
      r.1.isOk = false ∧ r.2.pendingConfigs.lookup "web" ≠ m.pendingConfigs.lookup "web")
    (siteConfig "nginx" "db") .plain [] (by decide +kernel)
  cases hres : m.handleCommand (.reloadConfig (siteConfig "\"\"" "db")) .plain with
  | mk r m' =>
      rw [hres] at herror hpending
      cases r with
      | ok reply => cases herror
      | error e =>
          refine ⟨m, _, e, m', hreach, rfl, hres, fun hsame => hpending ?_⟩
          exact congrArg (AList.lookup "web") hsame

/-! ## Unchanged programs -/

/-- No instance with one of the identities `ids` is managed under a name outside `names`. -/
def HoldsOnly (ids : ℕ → Prop) (names : List String) (m : ManagerActor) : Prop :=
  ∀ name prog, m.programs.lookup name = some prog → ids prog.id → name ∈ names

/-- Between two states no call goes to an instance with one of the identities `ids`, and these are
still managed under the names `names` only. -/
structure Spares (ids : ℕ → Prop) (names : List String) (m m' : ManagerActor) : Prop where
  requests : ∃ issued, m'.requests = m.requests ++ issued ∧ ∀ r ∈ issued, ¬ ids r.target
  holds : HoldsOnly ids names m'

variable {ids : ℕ → Prop} {names : List String} {m₁ m₂ : ManagerActor}

/-- Nothing was issued. -/
theorem Spares.refl (h : HoldsOnly ids names m) : Spares ids names m m :=
  ⟨⟨[], (List.append_nil _).symm, by simp⟩, h⟩

/-- Two parts of an operation. -/
theorem Spares.trans (h₁ : Spares ids names m m₁) (h₂ : Spares ids names m₁ m₂) :
    Spares ids names m m₂ := by
  obtain ⟨issued₁, heq₁, hids₁⟩ := h₁.requests
  obtain ⟨issued₂, heq₂, hids₂⟩ := h₂.requests
  refine ⟨⟨issued₁ ++ issued₂, by rw [heq₂, heq₁, List.append_assoc], fun r hr => ?_⟩, h₂.holds⟩
  exact (List.mem_append.mp hr).elim (hids₁ r) (hids₂ r)

/-- A fold whose steps spare the instances spares them. -/
theorem foldl_spares {α : Type} {f : ManagerActor → α → ManagerActor} {l : List α}
    (hstep : ∀ m, ∀ a ∈ l, HoldsOnly ids names m → Spares ids names m (f m a))
    (h : HoldsOnly ids names m) : Spares ids names m (l.foldl f m) := by
  induction l generalizing m with
  | nil => exact .refl h
  | cons a l ih =>
      have hhead := hstep m a List.mem_cons_self h
      exact hhead.trans (ih (fun m a ha => hstep m a (List.mem_cons_of_mem _ ha)) hhead.holds)

/-- A step that changes the program under one other name, and calls its old and its new instance
only. -/
theorem spares_of_requests {name : String} (issued : List Request) (hname : name ∉ names)
    (hrequests : m'.requests = m.requests ++ issued)
    (hissued : ∀ r ∈ issued, (∃ prog, m.programs.lookup name = some prog ∧ r.target = prog.id) ∨
      ¬ ids r.target)
    (hprograms : ∀ name' prog, m'.programs.lookup name' = some prog → ids prog.id →
      m.programs.lookup name' = some prog)
    (h : HoldsOnly ids names m) : Spares ids names m m' := by
  refine ⟨⟨issued, hrequests, fun r hr hid => ?_⟩, fun name' prog hlookup hid =>
    h name' prog (hprograms name' prog hlookup hid) hid⟩
  rcases hissued r hr with ⟨prog, hlookup, htarget⟩ | hother
  · exact hname (h name prog hlookup (htarget ▸ hid))
  · exact hother hid

/-- Removing another program. -/
theorem removeProgram_spares {name : String} (hname : name ∉ names) (h : HoldsOnly ids names m) :
    Spares ids names m (m.removeProgram name) := by
  rw [removeProgram]
  cases hlookup : m.programs.lookup name with
  | none =>
      exact spares_of_requests [] hname (List.append_nil _).symm (by simp) (fun _ _ h _ => h) h
  | some prog =>
      refine spares_of_requests [⟨prog.id, .stop defaultStopWait⟩, ⟨prog.id, .shutdown⟩] hname
        (List.append_assoc _ _ _) ?_ ?_ h
      · intro r hr
        refine .inl ⟨prog, hlookup, ?_⟩
        rcases List.mem_pair.mp hr with rfl | rfl <;> rfl
      · intro name' prog' hlookup' _
        change (m.programs.erase name).lookup name' = some prog' at hlookup'
        rw [HashMap.lookup_erase] at hlookup'
        split at hlookup'
        next => cases hlookup'
        next => exact hlookup'

/-- Registering a new instance under another name. -/
theorem addProgram_spares {e : String × ProgramInstance} (hname : e.1 ∉ names)
    (hid : ¬ ids e.2.id) (h : HoldsOnly ids names m) : Spares ids names m (m.addProgram e) := by
  have hprograms : ∀ name prog, (m.programs.insert e.1 e.2).lookup name = some prog →
      ids prog.id → m.programs.lookup name = some prog := by
    intro name prog hlookup hids
    rw [HashMap.lookup_insert] at hlookup
    split at hlookup
    next =>
      obtain rfl := Option.some.inj hlookup
      exact absurd hids hid
    next => exact hlookup
  rw [addProgram]
  by_cases hstart : e.2.config.autostart
  · simp only [hstart, if_true]
    refine spares_of_requests [⟨e.2.id, .start⟩] hname rfl ?_ hprograms h
    intro r hr
    exact .inr (List.mem_singleton.mp hr ▸ hid)
  · simp only [hstart]
    exact spares_of_requests [] hname (List.append_nil _).symm (by simp) hprograms h

/-- Replacing an instance under another name. -/
theorem replaceProgram_spares {e : String × ProgramInstance} (hname : e.1 ∉ names)
    (hid : ¬ ids e.2.id) (h : HoldsOnly ids names m) :
    Spares ids names m (m.replaceProgram e) := by
  rw [replaceProgram]
  cases hlookup : m.programs.lookup e.1 with
  | none => exact addProgram_spares hname hid h
  | some prog =>
      have hstop : Spares ids names m
          ((m.issue prog (.stop e.2.config.stopWaitSecs)).issue prog .shutdown) := by
        refine spares_of_requests
          [⟨prog.id, .stop e.2.config.stopWaitSecs⟩, ⟨prog.id, .shutdown⟩] hname
          (List.append_assoc _ _ _) ?_ (fun _ _ h _ => h) h
        intro r hr
        refine .inl ⟨prog, hlookup, ?_⟩
        rcases List.mem_pair.mp hr with rfl | rfl <;> rfl
      exact hstop.trans (addProgram_spares hname hid hstop.holds)

/-- The last steps of a reload change neither the programs nor the calls. -/
theorem finishReload_requests (m : ManagerActor) (newConfig : SupervisorConfig) (env : ManagerEnv)
    (newDag : DependencyGraph) (diff : ConfigDiff) :
    (m.finishReload newConfig env newDag diff).requests = m.requests ∧
      (m.finishReload newConfig env newDag diff).programs = m.programs := by
  rw [finishReload, syncLoggingConfig]
  simp only
  split <;> exact ⟨rfl, rfl⟩

/-- A reload spares the instances of the unchanged programs. -/
theorem commitReload_spares {newDag : DependencyGraph} {st : Staging}
    {modified added : List (String × ProgramInstance)}
    (hnames : ∀ e ∈ modified ++ added, e.1 ∉ names) (hids : ∀ e ∈ modified ++ added, ¬ ids e.2.id)
    (hremoved : ∀ name ∈ (m.reloadDiff env newPrograms).removed, name ∉ names)
    (h : HoldsOnly ids names m) :
    Spares ids names m (m.commitReload newConfig env newPrograms newDag modified added st) := by
  rw [commitReload]
  simp only
  have hstart : Spares ids names m
      { m.setPending newPrograms with eventPools := st.eventPools, nextId := st.nextId } :=
    ⟨⟨[], (List.append_nil _).symm, by simp⟩, h⟩
  have hremove := hstart.trans (foldl_spares
    (fun m name hname => removeProgram_spares (hremoved name hname)) hstart.holds)
  have hmodify := hremove.trans (foldl_spares
    (fun m e he => replaceProgram_spares (hnames e (List.mem_append_left _ he))
      (hids e (List.mem_append_left _ he))) hremove.holds)
  have hadd := hmodify.trans (foldl_spares
    (fun m e he => addProgram_spares (hnames e (List.mem_append_right _ he))
      (hids e (List.mem_append_right _ he))) hmodify.holds)
  obtain ⟨hrequests, hprograms⟩ := finishReload_requests
    (added.foldl addProgram (modified.foldl replaceProgram
      ((m.reloadDiff env newPrograms).removed.foldl removeProgram
        { m.setPending newPrograms with eventPools := st.eventPools, nextId := st.nextId })))
    newConfig env newDag (m.reloadDiff env newPrograms)
  obtain ⟨issued, heq, hissued⟩ := hadd.requests
  refine ⟨⟨issued, hrequests.trans heq, hissued⟩, fun name prog hlookup => hadd.holds name prog ?_⟩
  rw [← hprograms]
  exact hlookup

/-! ## Reloads -/

/-- The four lists of a summary have no duplicates and partition the names of the old and the new
configurations. -/
structure Partitions (summary : ReloadSummary) (oldPrograms newPrograms : ProgramConfigs) :
    Prop where
  nodup : (summary.added ++ summary.removed ++ summary.modified ++ summary.unchanged).Nodup
  mem_iff : ∀ name,
    name ∈ summary.added ++ summary.removed ++ summary.modified ++ summary.unchanged ↔
      name ∈ oldPrograms ∨ name ∈ newPrograms
  added_iff : ∀ name, name ∈ summary.added ↔ name ∈ newPrograms ∧ name ∉ oldPrograms
  removed_iff : ∀ name, name ∈ summary.removed ↔ name ∈ oldPrograms ∧ name ∉ newPrograms
  modified_iff : ∀ name, name ∈ summary.modified ↔ ∃ cfg, newPrograms.lookup name = some cfg ∧
    ∃ oldCfg, oldPrograms.lookup name = some oldCfg ∧ oldCfg ≠ cfg
  unchanged_iff : ∀ name, name ∈ summary.unchanged ↔
    ∃ cfg, newPrograms.lookup name = some cfg ∧ oldPrograms.lookup name = some cfg

/-- The summary of a reload partitions the names. -/
theorem reloadSummary_partitions (m : ManagerActor) (env : ManagerEnv)
    (hnew : newPrograms.WellFormed) :
    Partitions (reloadSummary (m.reloadDiff env newPrograms)) m.configs newPrograms where
  nodup := ConfigDiff.nodup_all hnew
  mem_iff _ := ConfigDiff.mem_all hnew
  added_iff _ := ConfigDiff.mem_names_added hnew
  removed_iff name := by
    change name ∈ (m.reloadDiff env newPrograms).removed ↔ _
    rw [reloadDiff, ConfigDiff.mem_removed]
  modified_iff _ := ConfigDiff.mem_names_modified hnew
  unchanged_iff name := by
    change name ∈ (m.reloadDiff env newPrograms).unchanged ↔ _
    rw [reloadDiff, ConfigDiff.mem_unchanged]

/-- A successful reload reports a partition of the old and the new names. Afterwards exactly the
programs of the new configuration are managed, each with its new configuration, and the shared copy
equals the configuration map. Every unchanged program keeps its instance, and no call of the reload
goes to it. -/
theorem reload_partitions {summary : ReloadSummary} (hreach : system.Reachable m)
    (h : m.executeReloadConfig newConfig env = (.ok summary, m')) :
    ∃ newPrograms, newConfig.resolvePrograms env.resolve = .ok newPrograms ∧
      Partitions summary m.configs newPrograms ∧
      (∀ name, (m'.programs.lookup name).map (·.config) = newPrograms.lookup name) ∧
      (∀ name, m'.configs.lookup name = newPrograms.lookup name) ∧
      m'.sharedConfigs = m'.configs ∧
      ∃ issued, m'.requests = m.requests ++ issued ∧
        ∀ name ∈ summary.unchanged, ∃ prog, m.programs.lookup name = some prog ∧
          m'.programs.lookup name = some prog ∧ ∀ r ∈ issued, r.target ≠ prog.id := by
  have hinv := invariant_of_reachable hreach
  rcases m.executeReloadConfig_cases newConfig env with ⟨_, hres⟩ |
    ⟨newPrograms, newDag, hresolve, hbuild, ⟨_, _, hres⟩ | ⟨modified, added, st, hstage, hres⟩⟩
  · rw [hres] at h
    cases h
  · rw [hres] at h
    cases h
  rw [hres] at h
  obtain ⟨rfl, rfl⟩ : reloadSummary _ = summary ∧ commitReload _ _ _ _ _ _ _ _ = m' :=
    ⟨Except.ok.inj (Prod.mk.inj h).1, (Prod.mk.inj h).2⟩
  have hnew := SupervisorConfig.resolvePrograms_wellFormed hresolve
  have hchange := commitReload_change newConfig newDag hnew hstage
  have hlookup := lookup_configs_of_reload hnew hchange
  have hpart := m.reloadSummary_partitions env hnew
  -- A name of a staged instance is not unchanged, and its identity is new.
  have hentries : ∀ e ∈ modified ++ added, newPrograms.lookup e.1 = some e.2.config ∧
      m.configs.lookup e.1 ≠ some e.2.config := fun e he =>
    (mem_reloadEntries hnew (e := (e.1, e.2.config))).mp
      ((Managed.mem_of_configsOf hchange.staged.entries_eq).mpr ⟨e.2, he, rfl⟩)
  have hnames : ∀ e ∈ modified ++ added,
      e.1 ∉ (reloadSummary (m.reloadDiff env newPrograms)).unchanged := by
    intro e he hunchanged
    obtain ⟨cfg, hcfg, hold⟩ := (hpart.unchanged_iff e.1).mp hunchanged
    obtain ⟨hcfg', hne⟩ := hentries e he
    exact hne (hold.trans (hcfg.symm.trans hcfg'))
  have hspares : Spares
      (fun id => ∃ name ∈ (reloadSummary (m.reloadDiff env newPrograms)).unchanged,
        ∃ prog, m.programs.lookup name = some prog ∧ prog.id = id)
      (reloadSummary (m.reloadDiff env newPrograms)).unchanged m
      (m.commitReload newConfig env newPrograms newDag modified added st) := by
    refine commitReload_spares hnames ?_ ?_ ?_
    · rintro e he ⟨name, _, prog, hprog, hid⟩
      have hge := (hchange.staged.id_range e he).1
      have hlt := hinv.id_lt hprog
      change m.nextId ≤ e.2.id at hge
      change prog.id < m.nextId at hlt
      omega
    · intro name hremoved hname
      obtain ⟨cfg, hcfg, _⟩ := (hpart.unchanged_iff name).mp hname
      exact ((hpart.removed_iff name).mp hremoved).2 (HashMap.mem_iff_lookup.mpr ⟨cfg, hcfg⟩)
    · rintro name prog hprog ⟨name', hname', prog', hprog', hid⟩
      exact hinv.id_inj hprog' hprog hid ▸ hname'
  obtain ⟨issued, hissued, hother⟩ := hspares.requests
  refine ⟨newPrograms, hresolve, hpart, fun name => ?_, hlookup, hchange.shared_eq, issued,
    hissued, fun name hname => ?_⟩
  · rw [← hlookup name]
    exact hchange.config_eq hinv.config_eq name
  · obtain ⟨cfg, hcfg, hold⟩ := (hpart.unchanged_iff name).mp hname
    have hmanaged : (m.programs.lookup name).map (·.config) = some cfg :=
      (hinv.config_eq name).trans hold
    obtain ⟨prog, hprog, _⟩ := Option.map_eq_some_iff.mp hmanaged
    refine ⟨prog, hprog, ?_, fun r hr htarget => hother r hr ⟨name, hname, prog, hprog,
      htarget.symm⟩⟩
    refine ((hchange.replaces.kept name ?_ fun hstaged => ?_).1).trans hprog
    · rw [reloadDiff, ConfigDiff.mem_removed, not_and_not_right]
      exact fun _ => HashMap.mem_iff_lookup.mpr ⟨_, hcfg⟩
    · obtain ⟨e, he, rfl⟩ := List.mem_map.mp hstaged
      exact hnames e he hname

/-- A reload that changes the command of the web server. -/
theorem reload_partitions_of_new_command :
    ∃ m m' summary newPrograms, system.Reachable m ∧
      m.executeReloadConfig (siteConfig "caddy" "db") .plain = (.ok summary, m') ∧
      summary.modified = ["web"] ∧ summary.unchanged = ["db"] ∧
      Partitions summary m.configs newPrograms ∧
      (∀ name, (m'.programs.lookup name).map (·.config) = newPrograms.lookup name) ∧
      (∀ name, m'.configs.lookup name = newPrograms.lookup name) ∧
      m'.sharedConfigs = m'.configs ∧
      ∃ issued, m'.requests = m.requests ++ issued ∧
        ∀ name ∈ summary.unchanged, ∃ prog, m.programs.lookup name = some prog ∧
          m'.programs.lookup name = some prog ∧ ∀ r ∈ issued, r.target ≠ prog.id := by
  obtain ⟨m, hreach, hok⟩ := exists_reachableWhile (G := fun _ _ => True)
    (fun m => (m.executeReloadConfig (siteConfig "caddy" "db") .plain).1.toOption.any
      (fun summary => summary.modified = ["web"] ∧ summary.unchanged = ["db"]) = true)
    (siteConfig "nginx" "db") .plain [] (by decide +kernel)
  cases hres : m.executeReloadConfig (siteConfig "caddy" "db") .plain with
  | mk r m' =>
      rw [hres] at hok
      cases r with
      | error e => cases hok
      | ok summary =>
          obtain ⟨hmodified, hunchanged⟩ := of_decide_eq_true hok
          obtain ⟨newPrograms, _, hrest⟩ := reload_partitions hreach hres
          exact ⟨m, m', summary, newPrograms, hreach, hres, hmodified, hunchanged, hrest⟩

end ManagerActor

end Rsupervisord
