import Rsupervisord.Config.ResolveOrder

/-!
# Instances of a resolved configuration

A section stands for a process of each of its process numbers. The resolution names the processes
in a first phase and resolves them in a second one.

## Main definitions

* `SupervisorConfig.Named`: the name of a process.
* `SupervisorConfig.Resolves`: the configuration of a process.

## Main results

* `SupervisorConfig.resolvePrograms_instances`: the entries of a resolved map are the processes, one
  each, and a dependency on a program is one on all its processes.
-/

namespace Rsupervisord

/-- A section that stands for processes. -/
inductive SectionName where
  | program (baseName : String)
  | eventListener (listenerName : String)
  deriving DecidableEq, Repr

/-- A process of a section. -/
structure ProcessId where
  owner : SectionName
  processNum : ℕ
  deriving DecidableEq, Repr

/-- What the names of the processes of a section are made of. -/
structure NamingSection where
  baseName : String
  groupName : String
  numprocs : ℕ
  numprocsStart : ℕ
  processNameTemplate : Option String
  deriving DecidableEq, Repr

/-- A process number of the section. -/
def NamingSection.HasNum (s : NamingSection) (processNum : ℕ) : Prop :=
  s.numprocsStart ≤ processNum ∧ processNum < s.numprocsStart + s.numprocs

namespace SupervisorConfig

variable {c : SupervisorConfig} {env : ResolveEnv}

/-- The first process number of a program section. -/
def numprocsStartOf (c : SupervisorConfig) (raw : ProgramConfigRaw) : ℕ :=
  (raw.numprocsStart <|> c.programDefaults.numprocsStart).getD 0

/-- The priority of a program section. -/
def priorityOf (c : SupervisorConfig) (raw : ProgramConfigRaw) : ℕ :=
  (raw.priority <|> c.programDefaults.priority).getD defaultPriority

/-- What the names of the processes of a program section are made of. -/
def programNaming (c : SupervisorConfig) (env : ResolveEnv) (baseName : String)
    (raw : ProgramConfigRaw) : NamingSection where
  baseName := baseName
  groupName := c.groupOf env baseName raw
  numprocs := c.numprocsOf raw
  numprocsStart := c.numprocsStartOf raw
  processNameTemplate := raw.processName <|> c.programDefaults.processName

/-- What the names of the processes of an event listener section are made of. -/
def listenerNaming (listenerName : String) (raw : EventListenerConfigRaw) : NamingSection where
  baseName := listenerName
  groupName := listenerName
  numprocs := raw.numprocs.getD 1
  numprocsStart := raw.numprocsStart.getD 0
  processNameTemplate := raw.processName

/-- What the names of the processes of a section are made of, when the configuration has the
section. -/
def naming (c : SupervisorConfig) (env : ResolveEnv) : SectionName → Option NamingSection
  | .program baseName => (c.programs.lookup baseName).map (c.programNaming env baseName)
  | .eventListener listenerName =>
      (c.eventListeners.lookup listenerName).map (listenerNaming listenerName)

/-- The name of one process of a section. -/
def processName (c : SupervisorConfig) (env : ResolveEnv) (s : NamingSection) (processNum : ℕ) :
    Except ProgramError String :=
  if s.numprocs = 1 ∧ s.processNameTemplate.isNone then .ok s.baseName
  else
    match s.processNameTemplate with
    | some template =>
        env.eval (c.programContext env s.baseName s.groupName processNum s.numprocs) template
          "process_name"
    | none => .ok s!"{s.baseName}:{processNum}"

/-- The configuration has the process. -/
def HasProcess (c : SupervisorConfig) (env : ResolveEnv) (p : ProcessId) : Prop :=
  ∃ s, c.naming env p.owner = some s ∧ s.HasNum p.processNum

/-- The configuration has the process, under the name. -/
def Named (c : SupervisorConfig) (env : ResolveEnv) (p : ProcessId) (name : String) : Prop :=
  ∃ s, c.naming env p.owner = some s ∧ s.HasNum p.processNum ∧
    c.processName env s p.processNum = .ok name

/-- A dependency of a program section stands for the name: that of a process of the program that it
names, or its own where it names no program. -/
def StandsFor (c : SupervisorConfig) (env : ResolveEnv) (dep name : String) : Prop :=
  if dep ∈ c.programs then ∃ processNum, c.Named env ⟨.program dep, processNum⟩ name else name = dep

/-- The configuration of a process, resolved from its section with its process number. -/
inductive Resolves (c : SupervisorConfig) (env : ResolveEnv) :
    ProcessId → String → ProgramConfig → Prop
  | program {baseName : String} {raw : ProgramConfigRaw} {dependsOn : List String} {name : String}
      {processNum : ℕ} {cfg : ProgramConfig} (hraw : c.programs.lookup baseName = some raw)
      (hcfg : c.resolveInstance env baseName raw (c.groupOf env baseName raw) (c.priorityOf raw)
        dependsOn name processNum (c.numprocsOf raw) = .ok cfg)
      (hdependsOn : ∀ name', name' ∈ dependsOn ↔ ∃ dep ∈ raw.dependsOn, c.StandsFor env dep name') :
      Resolves c env ⟨.program baseName, processNum⟩ name cfg
  | eventListener {listenerName : String} {raw : EventListenerConfigRaw} {name : String}
      {processNum : ℕ} {cfg : ProgramConfig}
      (hraw : c.eventListeners.lookup listenerName = some raw)
      (hcfg : c.resolveListenerInstance env listenerName raw name processNum
        (raw.numprocs.getD 1) = .ok cfg) :
      Resolves c env ⟨.eventListener listenerName, processNum⟩ name cfg

/-- The processes of a section, in the order of their numbers. -/
def ownProcesses (owner : SectionName) (s : NamingSection) : List ProcessId :=
  (List.range s.numprocs).map fun idx => ⟨owner, s.numprocsStart + idx⟩

/-- The processes of a configuration, in the orders of its maps. -/
def processes (c : SupervisorConfig) (env : ResolveEnv) : List ProcessId :=
  ((c.programs.iter env.orders.programs).flatMap fun e =>
      ownProcesses (.program e.1) (c.programNaming env e.1 e.2)) ++
    (c.eventListeners.iter env.orders.eventListeners).flatMap fun e =>
      ownProcesses (.eventListener e.1) (listenerNaming e.1 e.2)

/-! ## Names -/

/-- A process has one name. -/
theorem Named.unique {p : ProcessId} {name name' : String} (h : c.Named env p name)
    (h' : c.Named env p name') : name = name' := by
  obtain ⟨s, hs, -, hname⟩ := h
  obtain ⟨s', hs', -, hname'⟩ := h'
  obtain rfl := Option.some.inj (hs.symm.trans hs')
  exact Except.ok.inj (hname.symm.trans hname')

/-- The names of a section are those of its processes, in the order of the numbers. -/
theorem instanceNames_eq (s : NamingSection) :
    c.instanceNames env s.baseName s.groupName s.numprocs s.numprocsStart s.processNameTemplate =
      (List.range s.numprocs).mapM fun idx => c.processName env s (s.numprocsStart + idx) := by
  unfold instanceNames processName
  by_cases hone : s.numprocs = 1 ∧ s.processNameTemplate.isNone
  · simp only [if_pos hone]
    rw [hone.1]
    rfl
  · simp only [if_neg hone]
    rfl

/-- The names of a section are those of its processes. -/
theorem mem_instanceNames {s : NamingSection} {names : List String}
    (h : c.instanceNames env s.baseName s.groupName s.numprocs s.numprocsStart
      s.processNameTemplate = .ok names) {name : String} :
    name ∈ names ↔
      ∃ processNum, s.HasNum processNum ∧ c.processName env s processNum = .ok name := by
  rw [instanceNames_eq] at h
  rw [Except.mem_iff_of_mapM h]
  constructor
  · rintro ⟨idx, hidx, hname⟩
    exact ⟨_, ⟨Nat.le_add_right _ _, Nat.add_lt_add_left (List.mem_range.mp hidx) _⟩, hname⟩
  · rintro ⟨processNum, ⟨hfrom, hto⟩, hname⟩
    refine ⟨processNum - s.numprocsStart, List.mem_range.mpr (by omega), ?_⟩
    rw [Nat.add_sub_cancel' hfrom]
    exact hname

/-- Instances that are resolved by number, from names that are made by number. -/
theorem forall₂_range {s : NamingSection} {names : List String}
    {es : List (String × ProgramConfig)} {f : String × ℕ → Except ProgramError ProgramConfig}
    (hnames : c.instanceNames env s.baseName s.groupName s.numprocs s.numprocsStart
      s.processNameTemplate = .ok names)
    (hes : (names.zipIdx.mapM fun e => do
      let prog ← f e
      return (e.1, prog)) = .ok es) :
    List.Forall₂ (fun idx e => s.HasNum (s.numprocsStart + idx) ∧
      c.processName env s (s.numprocsStart + idx) = .ok e.1 ∧
      f (e.1, idx) = .ok e.2) (List.range s.numprocs) es := by
  rw [instanceNames_eq, Except.mapM_eq_ok_iff, List.forall₂_iff_get] at hnames
  rw [Except.mapM_eq_ok_iff, List.forall₂_iff_get] at hes
  obtain ⟨hlength, hnames⟩ := hnames
  obtain ⟨hlength', hes⟩ := hes
  rw [List.length_zipIdx] at hlength'
  refine List.forall₂_iff_get.mpr ⟨hlength.trans hlength', fun i hi hi' => ?_⟩
  have hname := hnames i hi (hlength ▸ hi)
  have hentry := hes i (by rw [List.length_zipIdx, hlength']; exact hi') hi'
  obtain ⟨prog, hprog, heq⟩ := Except.bind_eq_ok.mp hentry
  rw [List.length_range] at hi
  simp only [List.get_eq_getElem, List.getElem_zipIdx, List.getElem_range, Nat.zero_add] at *
  rw [← Except.ok.inj heq]
  exact ⟨⟨Nat.le_add_right _ _, Nat.add_lt_add_left hi _⟩, hname, hprog⟩

/-! ## Phases -/

theorem mem_ownProcesses {owner : SectionName} {s : NamingSection} {p : ProcessId} :
    p ∈ ownProcesses owner s ↔ p.owner = owner ∧ s.HasNum p.processNum := by
  rw [ownProcesses, List.mem_map]
  constructor
  · rintro ⟨idx, hidx, rfl⟩
    exact ⟨rfl, Nat.le_add_right _ _, Nat.add_lt_add_left (List.mem_range.mp hidx) _⟩
  · rintro ⟨rfl, hfrom, hto⟩
    refine ⟨p.processNum - s.numprocsStart, List.mem_range.mpr (by omega), ?_⟩
    rw [Nat.add_sub_cancel' hfrom]

/-- The processes that are listed are those that the configuration has. -/
theorem mem_processes {p : ProcessId} : p ∈ c.processes env ↔ c.HasProcess env p := by
  obtain ⟨owner, processNum⟩ := p
  simp only [processes, HasProcess, List.mem_append, List.mem_flatMap, mem_ownProcesses]
  constructor
  · rintro (⟨⟨name, raw⟩, he, rfl, hnum⟩ | ⟨⟨name, raw⟩, he, rfl, hnum⟩)
    · exact ⟨_, Option.map_eq_some_iff.mpr ⟨raw, HashMap.mem_iter.mp he, rfl⟩, hnum⟩
    · exact ⟨_, Option.map_eq_some_iff.mpr ⟨raw, HashMap.mem_iter.mp he, rfl⟩, hnum⟩
  · rintro ⟨s, hs, hnum⟩
    cases owner with
    | program baseName =>
      obtain ⟨raw, hraw, rfl⟩ := Option.map_eq_some_iff.mp hs
      exact .inl ⟨(baseName, raw), HashMap.mem_iter.mpr hraw, rfl, hnum⟩
    | eventListener listenerName =>
      obtain ⟨raw, hraw, rfl⟩ := Option.map_eq_some_iff.mp hs
      exact .inr ⟨(listenerName, raw), HashMap.mem_iter.mpr hraw, rfl, hnum⟩

/-- The names of the first phase are those of the program sections. -/
theorem lookup_names {names : List (String × List String)}
    (hnames : (c.programs.iter env.orders.programs).mapM (c.sectionNames env) = .ok names)
    {baseName : String} {raw : ProgramConfigRaw} (hraw : c.programs.lookup baseName = some raw) :
    ∃ instances, (HashMap.extend ∅ names).lookup baseName = some instances ∧
      c.instanceNames env baseName (c.groupOf env baseName raw) (c.numprocsOf raw)
        (c.numprocsStartOf raw) (raw.processName <|> c.programDefaults.processName) =
          .ok instances := by
  have hnodup : (names.map Prod.fst).Nodup := by
    rw [Except.map_eq_of_mapM (fun _ _ _ => sectionNames_fst) hnames]
    exact HashMap.nodup_map_fst_iter
  obtain ⟨b, hb, hsection⟩ := Except.exists_mem_of_mapM hnames (HashMap.mem_iter.mpr hraw)
  obtain ⟨instances, hinstances, heq⟩ := Except.bind_eq_ok.mp hsection
  obtain rfl := Except.ok.inj heq
  exact ⟨instances, (HashMap.lookup_extend_empty hnodup).mpr hb, hinstances⟩

/-- The dependencies of a program are replaced by what they stand for. -/
theorem mem_expandDependsOn {names : List (String × List String)}
    (hnames : (c.programs.iter env.orders.programs).mapM (c.sectionNames env) = .ok names)
    {dependsOn : List String} {name : String} :
    name ∈ expandDependsOn (HashMap.extend ∅ names) dependsOn ↔
      ∃ dep ∈ dependsOn, c.StandsFor env dep name := by
  rw [expandDependsOn, List.mem_flatMap]
  refine exists_congr fun dep => and_congr_right fun _ => ?_
  unfold StandsFor
  by_cases hdep : dep ∈ c.programs
  · obtain ⟨raw, hraw⟩ := HashMap.mem_iff_lookup.mp hdep
    have hnaming : c.naming env (.program dep) = some (c.programNaming env dep raw) :=
      Option.map_eq_some_iff.mpr ⟨raw, hraw, rfl⟩
    obtain ⟨instances, hlookup, hinstances⟩ := lookup_names hnames hraw
    have hmem := @mem_instanceNames c env (c.programNaming env dep raw) instances hinstances name
    rw [hlookup, Option.getD_some, if_pos hdep, hmem]
    refine exists_congr fun processNum => ?_
    constructor
    · exact fun h => ⟨_, hnaming, h⟩
    · rintro ⟨s, hs, h⟩
      obtain rfl := Option.some.inj (hnaming.symm.trans hs)
      exact h
  · have hnone : (HashMap.extend ∅ names).lookup dep = none := by
      rw [HashMap.lookup_extend_of_notMem, AList.lookup_empty]
      rw [Except.map_eq_of_mapM (fun _ _ _ => sectionNames_fst) hnames]
      intro hmem
      obtain ⟨⟨_, raw⟩, he, rfl⟩ := List.mem_map.mp hmem
      exact hdep (HashMap.mem_iff_lookup.mpr ⟨raw, HashMap.mem_iter.mp he⟩)
    rw [hnone, Option.getD_none, if_neg hdep, List.mem_singleton]

/-- The entries of a program section are those of its processes. -/
theorem forall₂_programEntries {names : List (String × List String)}
    (hnames : (c.programs.iter env.orders.programs).mapM (c.sectionNames env) = .ok names)
    {e : String × ProgramConfigRaw} (he : e ∈ c.programs.iter env.orders.programs)
    {es : List (String × ProgramConfig)}
    (hes : c.programEntries env (HashMap.extend ∅ names) e = .ok es) :
    List.Forall₂ (fun p e => c.Named env p e.1 ∧ c.Resolves env p e.1 e.2)
      (ownProcesses (.program e.1) (c.programNaming env e.1 e.2)) es := by
  obtain ⟨baseName, raw⟩ := e
  have hraw : c.programs.lookup baseName = some raw := HashMap.mem_iter.mp he
  have hnaming : c.naming env (.program baseName) = some (c.programNaming env baseName raw) :=
    Option.map_eq_some_iff.mpr ⟨raw, hraw, rfl⟩
  obtain ⟨instances, hlookup, hinstances⟩ := lookup_names hnames hraw
  simp only [programEntries, hlookup, Option.getD_some] at hes
  split at hes
  next => contradiction
  next =>
    rw [ownProcesses, List.forall₂_map_left_iff]
    refine (forall₂_range (s := c.programNaming env baseName raw) hinstances hes).imp ?_
    rintro idx e ⟨hnum, hname, hcfg⟩
    exact ⟨⟨_, hnaming, hnum, hname⟩, .program hraw hcfg fun _ => mem_expandDependsOn hnames⟩

/-- The entries of an event listener section are those of its processes. -/
theorem forall₂_listenerEntries {e : String × EventListenerConfigRaw}
    (he : e ∈ c.eventListeners.iter env.orders.eventListeners)
    {es : List (String × ProgramConfig)} (hes : c.listenerEntries env e = .ok es) :
    List.Forall₂ (fun p e => c.Named env p e.1 ∧ c.Resolves env p e.1 e.2)
      (ownProcesses (.eventListener e.1) (listenerNaming e.1 e.2)) es := by
  obtain ⟨listenerName, raw⟩ := e
  have hraw : c.eventListeners.lookup listenerName = some raw := HashMap.mem_iter.mp he
  have hnaming : c.naming env (.eventListener listenerName) =
      some (listenerNaming listenerName raw) := Option.map_eq_some_iff.mpr ⟨raw, hraw, rfl⟩
  obtain ⟨instances, hinstances, hes⟩ := Except.bind_eq_ok.mp hes
  rw [ownProcesses, List.forall₂_map_left_iff]
  refine (forall₂_range (s := listenerNaming listenerName raw) hinstances hes).imp ?_
  rintro idx e ⟨hnum, hname, hcfg⟩
  exact ⟨⟨_, hnaming, hnum, hname⟩, .eventListener hraw hcfg⟩

/-- The entries of a configuration are those of its processes. -/
theorem forall₂_instances {es : List (String × ProgramConfig)} (hes : c.instances env = .ok es) :
    List.Forall₂ (fun p e => c.Named env p e.1 ∧ c.Resolves env p e.1 e.2) (c.processes env)
      es := by
  simp only [instances, Except.bind_eq_ok] at hes
  obtain ⟨names, hnames, ps, hps, ls, hls, heq⟩ := hes
  obtain rfl := Except.ok.inj heq
  refine List.rel_append ?_ ?_
  · exact Except.forall₂_flatten_of_mapM (fun _ he _ h => forall₂_programEntries hnames he h) hps
  · exact Except.forall₂_flatten_of_mapM (fun _ he _ h => forall₂_listenerEntries he h) hls

/-! ## Resolved maps -/

/-- A program instance depends on what its section resolves to. -/
theorem resolveInstance_dependsOn {baseName : String} {raw : ProgramConfigRaw} {group : String}
    {priority : ℕ} {dependsOn : List String} {name : String} {processNum numprocs : ℕ}
    {cfg : ProgramConfig} (h : c.resolveInstance env baseName raw group priority dependsOn name
      processNum numprocs = .ok cfg) : cfg.dependsOn = dependsOn := by
  simp only [resolveInstance, Except.bind_eq_ok] at h
  obtain ⟨_, -, _, -, _, -, _, -, _, -, _, -, _, -, _, -, _, -, _, -, h⟩ := h
  split at h
  next => contradiction
  next =>
    obtain rfl := Except.ok.inj h
    rfl

/-- The names of distinct entries are those of distinct processes. -/
theorem process_unique {ps : List ProcessId} {es : List (String × ProgramConfig)}
    (hentries : List.Forall₂ (fun p e => c.Named env p e.1 ∧ c.Resolves env p e.1 e.2) ps es)
    (hnodup : (es.map Prod.fst).Nodup) {p p' : ProcessId} (hp : p ∈ ps) (hp' : p' ∈ ps)
    {name : String} (hname : c.Named env p name) (hname' : c.Named env p' name) : p = p' := by
  obtain ⟨i, hi, rfl⟩ := List.getElem_of_mem hp
  obtain ⟨j, hj, rfl⟩ := List.getElem_of_mem hp'
  obtain ⟨hlength, hget⟩ := List.forall₂_iff_get.mp hentries
  have hkey : ∀ k (hk : k < ps.length) {key}, c.Named env ps[k] key →
      (es.map Prod.fst)[k]? = some key := by
    intro k hk key hkey
    rw [List.getElem?_map, List.getElem?_eq_getElem (hlength ▸ hk)]
    exact congrArg some ((hget k hk (hlength ▸ hk)).1.unique hkey)
  have hsame : i = j := by
    refine (List.getElem?_inj ?_ hnodup).mp ((hkey i hi hname).trans (hkey j hj hname').symm)
    rw [List.length_map, ← hlength]
    exact hi
  subst hsame
  rfl

/-- Each process has an entry, under its name and with its configuration. Each entry has its name
and is that of one process only. A program instance depends on all processes of the programs that
its section names, on the other names of its section, and on nothing else. -/
theorem resolvePrograms_instances {resolved : ProgramConfigs}
    (h : c.resolvePrograms env = .ok resolved) :
    (∀ p, c.HasProcess env p → ∃ name cfg, c.Named env p name ∧ resolved.lookup name = some cfg ∧
        c.Resolves env p name cfg) ∧
      (∀ name cfg, resolved.lookup name = some cfg → cfg.name = name ∧ ∃! p, c.Named env p name) ∧
      ∀ baseName raw processNum name cfg, c.programs.lookup baseName = some raw →
        c.Named env ⟨.program baseName, processNum⟩ name → resolved.lookup name = some cfg →
        ∀ name', name' ∈ cfg.dependsOn ↔ ∃ dep ∈ raw.dependsOn, c.StandsFor env dep name' := by
  obtain ⟨es, hes, hnodup, rfl, -⟩ := resolvePrograms_eq_ok_iff.mp h
  have hentries := forall₂_instances hes
  have hprocess : ∀ p, c.HasProcess env p → ∃ name cfg, c.Named env p name ∧
      (HashMap.extend ∅ es).lookup name = some cfg ∧ c.Resolves env p name cfg := by
    intro p hp
    obtain ⟨⟨name, cfg⟩, he, hnamed, hresolves⟩ :=
      (Except.exists_related hentries).1 p (mem_processes.mpr hp)
    exact ⟨name, cfg, hnamed, (HashMap.lookup_extend_empty hnodup).mpr he, hresolves⟩
  have hhas : ∀ {p name}, c.Named env p name → c.HasProcess env p := by
    rintro p name ⟨s, hs, hnum, -⟩
    exact ⟨s, hs, hnum⟩
  refine ⟨hprocess, ?_, ?_⟩
  · intro name cfg hcfg
    refine ⟨(resolvePrograms_wellFormed h).name_eq hcfg, ?_⟩
    obtain ⟨p, hp, hnamed, -⟩ :=
      (Except.exists_related hentries).2 _ ((HashMap.lookup_extend_empty hnodup).mp hcfg)
    exact ⟨p, hnamed, fun p' hp' =>
      process_unique hentries hnodup (mem_processes.mpr (hhas hp')) hp hp' hnamed⟩
  · intro baseName raw processNum name cfg hraw hnamed hcfg
    obtain ⟨name', cfg', hnamed', hcfg', hresolves⟩ := hprocess _ (hhas hnamed)
    obtain rfl := hnamed.unique hnamed'
    obtain rfl := Option.some.inj (hcfg.symm.trans hcfg')
    cases hresolves with
    | program hraw' hinstance hdependsOn =>
      obtain rfl := Option.some.inj (hraw.symm.trans hraw')
      rw [resolveInstance_dependsOn hinstance]
      exact hdependsOn

/-- A web server that depends on two processes of a database, and an event listener. -/
def replicatedConfig : SupervisorConfig where
  programs := HashMap.extend ∅
    [("db", { command := "postgres", numprocs := some 2, numprocsStart := some 5 }),
      ("web", { command := "nginx", dependsOn := ["db"] })]
  eventListeners := HashMap.extend ∅ [("mailer", { command := "sendmail", events := ["TICK_5"] })]

/-- The processes of the web server, the database and the event listener. -/
theorem resolvePrograms_instances_replicated :
    ∃ resolved, replicatedConfig.resolvePrograms .plain = .ok resolved ∧
      resolved.keys.Perm ["db:5", "db:6", "web", "mailer"] ∧
      (∀ p, replicatedConfig.HasProcess .plain p → ∃ name cfg,
        replicatedConfig.Named .plain p name ∧ resolved.lookup name = some cfg ∧
          replicatedConfig.Resolves .plain p name cfg) ∧
      (∀ name cfg, resolved.lookup name = some cfg →
        cfg.name = name ∧ ∃! p, replicatedConfig.Named .plain p name) ∧
      ∀ baseName raw processNum name cfg, replicatedConfig.programs.lookup baseName = some raw →
        replicatedConfig.Named .plain ⟨.program baseName, processNum⟩ name →
        resolved.lookup name = some cfg →
        ∀ name', name' ∈ cfg.dependsOn ↔
          ∃ dep ∈ raw.dependsOn, replicatedConfig.StandsFor .plain dep name' := by
  obtain ⟨resolved, hresolve, hkeys⟩ := Except.exists_eq_ok_of_any
    (x := replicatedConfig.resolvePrograms .plain)
    (p := fun resolved => decide (resolved.keys.Perm ["db:5", "db:6", "web", "mailer"]))
    (by decide +kernel)
  exact ⟨resolved, hresolve, of_decide_eq_true hkeys, resolvePrograms_instances hresolve⟩

end SupervisorConfig

end Rsupervisord
