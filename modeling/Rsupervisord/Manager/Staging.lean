import Rsupervisord.Manager.Supervisor
import Rsupervisord.Support.Except

/-!
# Staging and committing program instances

Every operation that changes the managed programs first stages new instances, which may fail and
changes nothing, and then commits them. `Staged` says what a successful staging yields: one fresh
instance for each configuration, the pools that were there before, and a new pool for each new pool
name. `Replaces` says what a commit does to the managed programs.

## Main results

* `stage_isOk_iff`: a staging succeeds exactly when each configuration can be instantiated.
* `stage_staged`: what a successful staging yields.
* `commit_replaces`: removing programs and registering staged instances.
-/

namespace Rsupervisord

/-! ## Staging -/

/-- A configuration that `instantiate_program` accepts. -/
def ProgramConfig.Instantiable (croner : Croner) (cfg : ProgramConfig) : Prop :=
  cfg.eventListener = none → cfg.validate croner = .ok ()

instance (croner : Croner) (cfg : ProgramConfig) : Decidable (cfg.Instantiable croner) :=
  decidable_of_iff (cfg.eventListener = none → (cfg.validate croner).isOk = true) <| by
    refine imp_congr_right fun _ => ?_
    cases cfg.validate croner <;> simp [Except.isOk, Except.toBool]

variable {croner : Croner} {serverIdentifier : String} {st st' : Staging}
  {entries : List (String × ProgramConfig)} {progs : List (String × ProgramInstance)}

/-- What a successful staging of `entries` yields. -/
structure Staged (serverIdentifier : String) (entries : List (String × ProgramConfig))
    (st : Staging) (progs : List (String × ProgramInstance)) (st' : Staging) : Prop where
  /-- There is one instance for each entry, in order. -/
  entries_eq : configsOf progs = entries
  /-- The identities increase. -/
  nextId_le : st.nextId ≤ st'.nextId
  /-- The instances are new. -/
  id_range : ∀ e ∈ progs, st.nextId ≤ e.2.id ∧ e.2.id < st'.nextId
  /-- The instances are distinct. -/
  id_inj : ∀ e₁ ∈ progs, ∀ e₂ ∈ progs, e₁.2.id = e₂.2.id → e₁ = e₂
  /-- A registered pool stays. -/
  pool_kept : ∀ {name pool}, st.eventPools.lookup name = some pool →
    st'.eventPools.lookup name = some pool
  /-- A new pool has the settings of a staged listener. -/
  pool_new : ∀ {name pool}, st'.eventPools.lookup name = some pool →
    st.eventPools.lookup name = some pool ∨ st.eventPools.lookup name = none ∧
      ∃ e ∈ entries, ∃ el, e.2.eventListener = some el ∧ el.poolName = name ∧
        pool.inner = .new name serverIdentifier el.events el.bufferSize
  /-- A staged listener is attached to the pool that is registered under its pool name. -/
  attached : ∀ e ∈ progs, ∀ el, e.2.config.eventListener = some el →
    ∃ pool, e.2.pool = some pool ∧ st'.eventPools.lookup el.poolName = some pool

/-- The pool of a listener is registered afterwards; it is the one that was there, or a new one
with the listener's settings. -/
theorem Staging.pool_spec (st : Staging) (el : EventListenerConfig) (serverIdentifier : String) :
    st.nextId ≤ (st.pool el serverIdentifier).2.nextId ∧
      (st.pool el serverIdentifier).2.eventPools.lookup el.poolName =
        some (st.pool el serverIdentifier).1 ∧
      (∀ {name pool}, st.eventPools.lookup name = some pool →
        (st.pool el serverIdentifier).2.eventPools.lookup name = some pool) ∧
      ∀ {name pool}, (st.pool el serverIdentifier).2.eventPools.lookup name = some pool →
        st.eventPools.lookup name = some pool ∨ st.eventPools.lookup name = none ∧
          el.poolName = name ∧ pool.inner = .new name serverIdentifier el.events el.bufferSize := by
  rw [Staging.pool]
  cases hlookup : st.eventPools.lookup el.poolName with
  | some pool => exact ⟨le_rfl, hlookup, id, .inl⟩
  | none =>
      refine ⟨Nat.le_succ _, AList.lookup_insert _, fun {name pool} h => ?_,
        fun {name pool} h => ?_⟩
      · have hne : name ≠ el.poolName := by
          rintro rfl
          rw [hlookup] at h
          cases h
        exact (AList.lookup_insert_ne hne).trans h
      · rw [HashMap.lookup_insert] at h
        by_cases hname : name = el.poolName
        · subst hname
          rw [if_pos rfl] at h
          obtain rfl := Option.some.inj h
          exact .inr ⟨hlookup, rfl, rfl⟩
        · rw [if_neg hname] at h
          exact .inl h

/-- Instantiating one program. -/
theorem instantiateProgram_spec {cfg : ProgramConfig} {prog : ProgramInstance}
    (h : instantiateProgram croner serverIdentifier cfg st = .ok (prog, st')) :
    prog.config = cfg ∧ st.nextId ≤ prog.id ∧ st'.nextId = prog.id + 1 ∧
      (∀ {name pool}, st.eventPools.lookup name = some pool →
        st'.eventPools.lookup name = some pool) ∧
      (∀ {name pool}, st'.eventPools.lookup name = some pool →
        st.eventPools.lookup name = some pool ∨ st.eventPools.lookup name = none ∧
          ∃ el, cfg.eventListener = some el ∧ el.poolName = name ∧
            pool.inner = .new name serverIdentifier el.events el.bufferSize) ∧
      ∀ el, cfg.eventListener = some el →
        ∃ pool, prog.pool = some pool ∧ st'.eventPools.lookup el.poolName = some pool := by
  rw [instantiateProgram] at h
  cases hel : cfg.eventListener with
  | some el =>
      rw [hel] at h
      obtain ⟨rfl, rfl⟩ := Prod.mk.inj (Except.ok.inj h)
      obtain ⟨hle, hlookup, hkept, hnew⟩ := st.pool_spec el serverIdentifier
      refine ⟨rfl, hle, rfl, hkept, fun h => ?_, fun el' hel' => ?_⟩
      · exact (hnew h).imp_right fun ⟨hnone, hname, hinner⟩ => ⟨hnone, el, rfl, hname, hinner⟩
      · obtain rfl := Option.some.inj hel'
        exact ⟨_, rfl, hlookup⟩
  | none =>
      rw [hel] at h
      obtain ⟨_, _, h⟩ := Except.bind_eq_ok.mp h
      obtain ⟨rfl, rfl⟩ := Prod.mk.inj (Except.ok.inj h)
      exact ⟨rfl, le_rfl, rfl, id, .inl, fun el hel' => nomatch hel'⟩

/-- What a successful staging yields. -/
theorem stage_staged (h : stage croner serverIdentifier entries st = .ok (progs, st')) :
    Staged serverIdentifier entries st progs st' := by
  induction entries generalizing st progs with
  | nil =>
      obtain ⟨rfl, rfl⟩ := Prod.mk.inj (Except.ok.inj h)
      exact ⟨rfl, le_rfl, by simp, by simp, id, .inl, by simp⟩
  | cons e entries ih =>
      obtain ⟨name, cfg⟩ := e
      simp only [stage, Except.bind_eq_ok] at h
      obtain ⟨⟨prog, st₁⟩, hprog, ⟨progs', st₂⟩, hrest, h⟩ := h
      obtain ⟨rfl, rfl⟩ : (name, prog) :: progs' = progs ∧ st₂ = st' :=
        Prod.mk.inj (Except.ok.inj h)
      obtain ⟨hcfg, hle, hnext, hkept, hnew, hattached⟩ := instantiateProgram_spec hprog
      have hst : Staged serverIdentifier entries st₁ progs' st₂ := ih hrest
      have hle₂ := hst.nextId_le
      refine ⟨?_, ?_, ?_, ?_, fun h => hst.pool_kept (hkept h), fun h => ?_, ?_⟩
      · change (name, prog.config) :: configsOf progs' = _
        rw [hst.entries_eq, hcfg]
      · omega
      · rintro e he
        rcases List.mem_cons.mp he with rfl | he
        · exact ⟨hle, by simp only; omega⟩
        · have hrange := hst.id_range e he
          omega
      · -- The head has the smallest identity.
        have hhead : ∀ e ∈ progs', prog.id < e.2.id := fun e he => by
          have hrange := (hst.id_range e he).1
          omega
        intro e₁ he₁ e₂ he₂ hid
        rcases List.mem_cons.mp he₁ with rfl | he₁ <;> rcases List.mem_cons.mp he₂ with rfl | he₂
        · rfl
        · exact absurd hid (hhead e₂ he₂).ne
        · exact absurd hid (hhead e₁ he₁).ne'
        · exact hst.id_inj e₁ he₁ e₂ he₂ hid
      · rcases hst.pool_new h with h₁ | ⟨hnone, e, he, el, hel, hname, hinner⟩
        · refine (hnew h₁).imp_right fun ⟨hnone, el, hel, hname, hinner⟩ => ?_
          exact ⟨hnone, _, List.mem_cons_self, el, hel, hname, hinner⟩
        · refine .inr ⟨?_, e, List.mem_cons_of_mem _ he, el, hel, hname, hinner⟩
          rw [Option.eq_none_iff_forall_ne_some]
          intro pool hpool
          rw [hkept hpool] at hnone
          cases hnone
      · rintro e he el hel
        rcases List.mem_cons.mp he with rfl | he
        · obtain ⟨pool, hpool, hlookup⟩ := hattached el (hcfg ▸ hel)
          exact ⟨pool, hpool, hst.pool_kept hlookup⟩
        · exact hst.attached e he el hel

/-- A program is instantiated exactly when its configuration is accepted. -/
theorem instantiateProgram_isOk_iff {cfg : ProgramConfig} :
    (∃ r, instantiateProgram croner serverIdentifier cfg st = .ok r) ↔
      cfg.Instantiable croner := by
  rw [instantiateProgram, ProgramConfig.Instantiable]
  cases cfg.eventListener with
  | some el => exact iff_of_true ⟨_, rfl⟩ fun h => nomatch h
  | none =>
      cases cfg.validate croner with
      | ok u => exact iff_of_true ⟨_, rfl⟩ fun _ => rfl
      | error e => exact iff_of_false (by rintro ⟨_, ⟨⟩⟩) fun h => nomatch h rfl

/-- A staging succeeds exactly when each configuration can be instantiated. -/
theorem stage_isOk_iff :
    (∃ r, stage croner serverIdentifier entries st = .ok r) ↔
      ∀ e ∈ entries, e.2.Instantiable croner := by
  induction entries generalizing st with
  | nil => exact iff_of_true ⟨_, rfl⟩ (by simp)
  | cons e entries ih =>
      rw [List.forall_mem_cons]
      simp only [stage, Except.bind_eq_ok]
      constructor
      · rintro ⟨r, ⟨prog, st₁⟩, hprog, r', hrest, -⟩
        exact ⟨instantiateProgram_isOk_iff.mp ⟨_, hprog⟩, ih.mp ⟨r', hrest⟩⟩
      · rintro ⟨hhead, hrest⟩
        obtain ⟨⟨prog, st₁⟩, hprog⟩ := instantiateProgram_isOk_iff.mpr hhead
        obtain ⟨⟨progs, st₂⟩, hrest⟩ :
            ∃ r, stage croner serverIdentifier entries st₁ = .ok r := ih.mpr hrest
        exact ⟨_, (prog, st₁), hprog, (progs, st₂), hrest, rfl⟩

/-- Two stagings one after the other are one staging. -/
theorem stage_append {entries' : List (String × ProgramConfig)}
    {progs' : List (String × ProgramInstance)} {st₁ : Staging}
    (h : stage croner serverIdentifier entries st = .ok (progs, st₁))
    (h' : stage croner serverIdentifier entries' st₁ = .ok (progs', st')) :
    stage croner serverIdentifier (entries ++ entries') st = .ok (progs ++ progs', st') := by
  induction entries generalizing st progs with
  | nil =>
      obtain ⟨rfl, rfl⟩ := Prod.mk.inj (Except.ok.inj h)
      exact h'
  | cons e entries ih =>
      simp only [stage, Except.bind_eq_ok] at h
      obtain ⟨⟨prog, st₂⟩, hprog, ⟨progs₂, st₃⟩, hrest, h⟩ := h
      obtain ⟨rfl, rfl⟩ := Prod.mk.inj (Except.ok.inj h)
      rw [List.cons_append]
      simp only [stage, Except.bind_eq_ok]
      exact ⟨(prog, st₂), hprog, (progs₂ ++ progs', st'), ih hrest, rfl⟩

/-! ## Commit -/

/-- What the manager manages, without the calls and events it has issued and what it derives from
the configurations for other services. -/
structure Managed where
  programs : HashMap String ProgramInstance
  configs : ProgramConfigs
  sharedConfigs : ProgramConfigs
  pendingConfigs : ProgramConfigs
  sharedPendingConfigs : ProgramConfigs
  dag : DependencyGraph
  eventPools : HashMap String EventListenerPool
  serverIdentifier : String
  nextId : ℕ

namespace Managed

/-- Unregister a program. -/
def remove (s : Managed) (name : String) : Managed :=
  { s with programs := s.programs.erase name, configs := s.configs.erase name }

/-- Register a program instance. -/
def add (s : Managed) (e : String × ProgramInstance) : Managed :=
  { s with
    programs := s.programs.insert e.1 e.2
    configs := s.configs.insert e.1 e.2.config }

/-- Unregister the programs `removed` and register the instances `progs`. -/
def commit (s : Managed) (removed : List String) (progs : List (String × ProgramInstance)) :
    Managed :=
  progs.foldl add (removed.foldl remove s)

variable {s : Managed} {removed : List String} {progs : List (String × ProgramInstance)}

/-- A commit changes the programs and their configurations. -/
theorem commit_eq : s.commit removed progs = { s with
    programs := HashMap.extend (HashMap.eraseAll s.programs removed) progs
    configs := HashMap.extend (HashMap.eraseAll s.configs removed) (configsOf progs) } := by
  have hadd : ∀ s : Managed, progs.foldl add s = { s with
      programs := HashMap.extend s.programs progs
      configs := HashMap.extend s.configs (configsOf progs) } := by
    induction progs with
    | nil => exact fun s => rfl
    | cons e progs ih => exact fun s => ih (s.add e)
  have hremove : removed.foldl remove s = { s with
      programs := HashMap.eraseAll s.programs removed
      configs := HashMap.eraseAll s.configs removed } := by
    induction removed generalizing s with
    | nil => rfl
    | cons name removed ih => exact ih (s := s.remove name)
  rw [commit, hadd, hremove]

/-- What a commit does to the managed programs: a registered instance is found under its name, a
removed program is gone, and every other program keeps its instance and its configuration. -/
structure Replaces (s : Managed) (removed : List String)
    (progs : List (String × ProgramInstance)) (s' : Managed) : Prop where
  registered : ∀ e ∈ progs, s'.programs.lookup e.1 = some e.2 ∧
    s'.configs.lookup e.1 = some e.2.config
  gone : ∀ name ∈ removed, name ∉ progs.map Prod.fst →
    s'.programs.lookup name = none ∧ s'.configs.lookup name = none
  kept : ∀ name, name ∉ removed → name ∉ progs.map Prod.fst →
    s'.programs.lookup name = s.programs.lookup name ∧
      s'.configs.lookup name = s.configs.lookup name

/-- A commit of instances with distinct names replaces. -/
theorem commit_replaces (s : Managed) (removed : List String)
    (hnodup : (progs.map Prod.fst).Nodup) :
    s.Replaces removed progs (s.commit removed progs) := by
  have hnames : (configsOf progs).map Prod.fst = progs.map Prod.fst := by
    rw [configsOf, List.map_map]
    rfl
  rw [commit_eq]
  refine ⟨fun e he => ⟨?_, ?_⟩, fun name hremoved hname => ⟨?_, ?_⟩,
    fun name hremoved hname => ⟨?_, ?_⟩⟩
  · exact HashMap.lookup_extend_of_mem hnodup he
  · refine HashMap.lookup_extend_of_mem (hnames ▸ hnodup) ?_
    exact List.mem_map.mpr ⟨e, he, rfl⟩
  · change (HashMap.extend _ progs).lookup name = none
    rw [HashMap.lookup_extend_of_notMem hname, HashMap.lookup_eraseAll, if_pos hremoved]
  · change (HashMap.extend _ (configsOf progs)).lookup name = none
    rw [HashMap.lookup_extend_of_notMem (hnames ▸ hname), HashMap.lookup_eraseAll,
      if_pos hremoved]
  · change (HashMap.extend _ progs).lookup name = _
    rw [HashMap.lookup_extend_of_notMem hname, HashMap.lookup_eraseAll, if_neg hremoved]
  · change (HashMap.extend _ (configsOf progs)).lookup name = _
    rw [HashMap.lookup_extend_of_notMem (hnames ▸ hname), HashMap.lookup_eraseAll,
      if_neg hremoved]

end Managed

namespace ManagerActor

/-- The managed part of the state. -/
def managed (m : ManagerActor) : Managed where
  programs := m.programs
  configs := m.configs
  sharedConfigs := m.sharedConfigs
  pendingConfigs := m.pendingConfigs
  sharedPendingConfigs := m.sharedPendingConfigs
  dag := m.dag
  eventPools := m.eventPools
  serverIdentifier := m.serverIdentifier
  nextId := m.nextId

variable {m : ManagerActor} {env : ManagerEnv}

/-- Registering a staged instance. -/
theorem addProgram_managed (m : ManagerActor) (e : String × ProgramInstance) :
    (m.addProgram e).managed = m.managed.add e := by
  rw [addProgram]
  split <;> rfl

/-- Replacing an instance registers the new one. -/
theorem replaceProgram_managed (m : ManagerActor) (e : String × ProgramInstance) :
    (m.replaceProgram e).managed = m.managed.add e := by
  rw [replaceProgram, addProgram_managed]
  split <;> rfl

/-- Unregistering a program. -/
theorem removeProgram_managed (m : ManagerActor) (name : String) :
    (m.removeProgram name).managed = m.managed.remove name := by
  rw [removeProgram]
  split
  next => rfl
  next hnone =>
    have herase : m.programs.erase name = m.programs :=
      AList.ext (List.kerase_of_notMem_keys (AList.lookup_eq_none.mp hnone))
    change ({ m.managed with configs := m.configs.erase name } : Managed) =
      { m.managed with programs := m.programs.erase name, configs := m.configs.erase name }
    rw [herase]
    rfl

/-- Removing programs and registering instances, in the order of a reload. -/
theorem commit_managed (removed : List String) (modified added : List (String × ProgramInstance)) :
    (added.foldl addProgram
      (modified.foldl replaceProgram (removed.foldl removeProgram m))).managed =
      m.managed.commit removed (modified ++ added) := by
  rw [Managed.commit, List.foldl_append,
    List.foldl_hom managed fun m name => (removeProgram_managed m name).symm,
    List.foldl_hom managed fun m e => (replaceProgram_managed m e).symm,
    List.foldl_hom managed fun m e => (addProgram_managed m e).symm]

/-! ## Operations that only issue calls and publish events -/

/-- A part of the state that neither calls nor events change. -/
structure IgnoresCalls {α : Type} (f : ManagerActor → α) : Prop where
  requests : ∀ m r, f { m with requests := r } = f m
  events : ∀ m e, f { m with events := e } = f m

/-- The managed part is such a part. -/
theorem managed_ignoresCalls : IgnoresCalls managed := ⟨fun _ _ => rfl, fun _ _ => rfl⟩

/-- A fold of steps that leave a part of the state alone is one. -/
theorem foldl_eq {α β : Type} {f : ManagerActor → α} {g : ManagerActor → β → ManagerActor}
    (h : ∀ m b, f (g m b) = f m) (l : List β) : f (l.foldl g m) = f m := by
  induction l generalizing m with
  | nil => rfl
  | cons b l ih => exact ih.trans (h m b)

namespace IgnoresCalls

variable {α : Type} {f : ManagerActor → α} (hf : IgnoresCalls f) (env)

include hf

/-- A call. -/
theorem issue (prog : ProgramInstance) (call : ProgramCall) : f (m.issue prog call) = f m :=
  hf.requests _ _

/-- Calls one after the other. -/
theorem callEach (call : String → ProgramCall) (l : List String) :
    f (m.callEach env call l).2 = f m := by
  induction l generalizing m with
  | nil => rfl
  | cons target l ih =>
      rw [ManagerActor.callEach]
      split
      next => exact ih
      next prog _ =>
        have hissue : f (m.issue prog (call target)) = f m := hf.issue prog (call target)
        simp only
        split
        next => exact ih.trans hissue
        next => exact hissue

/-- Calls to resolved targets. -/
theorem callTargets (call : String → ProgramCall)
    (targets : Except ProgramError (List String)) :
    f (m.callTargets env call targets).2 = f m := by
  cases targets with
  | error e => rfl
  | ok targets => exact hf.callEach env call targets

/-- `execute_start_group`. -/
theorem executeStartGroup (group : String) : f (m.executeStartGroup env group).2 = f m := by
  rw [ManagerActor.executeStartGroup]
  split
  next => rfl
  next targets _ =>
    have h := hf.callEach (m := m) env (fun _ => .start) targets
    split <;> (next heq => rw [heq] at h; exact h)

/-- `execute_stop_group`. -/
theorem executeStopGroup (group : String) (gracePeriod : Option Duration) :
    f (m.executeStopGroup env group gracePeriod).2 = f m := by
  rw [ManagerActor.executeStopGroup]
  split
  next => rfl
  next targets _ =>
    have h := hf.callEach (m := m) env
      (fun name => .stop (gracePeriod.getD (m.stopWaitOf name))) targets.reverse
    simp only
    split <;> (next heq => rw [heq] at h; exact h)

/-- `execute_restart_group`. -/
theorem executeRestartGroup (group : String) (gracePeriod : Option Duration) :
    f (m.executeRestartGroup env group gracePeriod).2 = f m := by
  rw [ManagerActor.executeRestartGroup]
  have hstop := hf.executeStopGroup (m := m) env group gracePeriod
  split
  next heq =>
    rw [heq] at hstop
    exact hstop
  next stopped m₁ heq =>
    rw [heq] at hstop
    have hstart := hf.executeStartGroup (m := m₁) env group
    split <;> (next heq' => rw [heq'] at hstart; exact hstart.trans hstop)

/-- `execute_start_all`. -/
theorem executeStartAll : f (m.executeStartAll env) = f m := by
  rw [ManagerActor.executeStartAll]
  refine foldl_eq (fun m layer => ?_) _
  rw [startLayer]
  exact foldl_eq (fun m prog => hf.issue prog .start) _

/-- `execute_stop_all`. -/
theorem executeStopAll (gracePeriod : Option Duration) :
    f (m.executeStopAll env gracePeriod) = f m := by
  rw [ManagerActor.executeStopAll]
  refine foldl_eq (fun m layer => ?_) _
  rw [stopLayer]
  exact foldl_eq (fun m (e : ProgramInstance × Duration) => hf.issue e.1 (.stop e.2)) _

/-- Shutting the instances down. -/
theorem shutdownPrograms : f (m.shutdownPrograms env) = f m := by
  rw [ManagerActor.shutdownPrograms]
  exact foldl_eq (fun m prog => hf.issue prog .shutdown) _

/-- One due cron action. -/
theorem handleCronAction (action : CronAction) : f (m.handleCronAction env action) = f m := by
  cases action with
  | start name group expression =>
      rw [ManagerActor.handleCronAction]
      split
      next =>
        split
        · rfl
        · exact (hf.callTargets env _ _).trans (hf.events _ _)
      next => rfl
  | stop name group expression =>
      rw [ManagerActor.handleCronAction]
      split
      next =>
        split
        · exact (hf.callTargets env _ _).trans (hf.events _ _)
        · rfl
      next => rfl

/-- Due cron jobs, apart from the cron table. -/
theorem handleDueCronJobs : f (m.handleDueCronJobs env) =
    f { m with cronTable := (m.cronTable.popDueActions env.croner env.now).2 } :=
  foldl_eq (fun _ action => hf.handleCronAction env action) _

end IgnoresCalls

/-- `sync_logging_config` leaves the managed part alone. -/
theorem syncLoggingConfig_managed (newLogging : LoggingConfig) :
    (m.syncLoggingConfig newLogging).managed = m.managed := by
  rw [syncLoggingConfig]
  split <;> rfl

end ManagerActor

end Rsupervisord
