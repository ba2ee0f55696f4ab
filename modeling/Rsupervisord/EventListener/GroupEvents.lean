import Rsupervisord.EventListener.Events
import Rsupervisord.EventListener.PoolRuns
import Rsupervisord.Manager.Reload

/-!
# Group events of a reload

A reload announces the names of the programs it added and removed, and a pool makes group events of
them: each name goes into the payload as the name of a group.

* `ManagerActor.groupsReported_iff`: the reported groups are those that appeared and disappeared
  exactly when these are named as the added and the removed programs.
-/

namespace Rsupervisord

/-- The name of the group in the payload of a group event. -/
def groupNameOf (payload : String) : Option String :=
  (Text.stripPrefix "groupname:" payload).bind (Text.stripSuffix "\n")

/-- The names and payloads of the events that a pool accepts for an event on the system channel. The
global serials make no difference. -/
def EventListenerPoolInner.acceptedFor (p : EventListenerPoolInner) (globalSerial : ℕ)
    (event : SystemEvent) : List (String × String) :=
  (((PoolUsers.machine Unit).outputs ⟨p, fun _ => none⟩
    (event.announcements.map fun a => .accept globalSerial a.1 a.2)).filterMap
      PoolUsers.acceptedOf).map fun e => (e.eventName, e.payload)

/-- The groups in the events of a name. -/
def reportedGroups (eventName : String) (accepted : List (String × String)) :
    List (Option String) :=
  (accepted.filter (·.1 = eventName)).map fun a => groupNameOf a.2

/-- Some program of the configuration is a member of the group. -/
def ProgramConfigs.HasGroup (configs : ProgramConfigs) (group : String) : Prop :=
  ∃ name cfg, configs.lookup name = some cfg ∧ cfg.group = group

/-- The events of a name report the groups of one configuration that the other does not have, each
once, and nothing else. -/
def ReportsGroups (eventName : String) (accepted : List (String × String))
    (having lacking : ProgramConfigs) : Prop :=
  (reportedGroups eventName accepted).Nodup ∧
    ∀ reported, reported ∈ reportedGroups eventName accepted ↔
      ∃ group, reported = some group ∧ having.HasGroup group ∧ ¬ lacking.HasGroup group

/-- The programs that only one of the configurations has are named as the groups that only this one
has. -/
def NamedAsGroups (having lacking : ProgramConfigs) : Prop :=
  ∀ name, name ∈ having ∧ name ∉ lacking ↔ having.HasGroup name ∧ ¬ lacking.HasGroup name

/-! ## Payloads -/

theorem groupNameOf_payload (group : String) : groupNameOf s!"groupname:{group}\n" =
    some group := by
  have hpayload : (s!"groupname:{group}\n").toList = "groupname:".toList ++
      (group.toList ++ "\n".toList) := by
    have hstr : ∀ s : String, toString s = s := fun _ => rfl
    simp only [String.toList_append, hstr, List.append_assoc]
  rw [groupNameOf, Text.stripPrefix_eq_some hpayload, Option.bind_some,
    Text.stripSuffix_eq_some (String.toList_ofList), String.ofList_toList]

/-! ## What a pool accepts -/

/-- An acceptance leaves the subscription of the pool and takes an event that it is subscribed
to. -/
theorem step_accept {s : PoolUsers Unit} {globalSerial : ℕ} {eventName payload : String} :
    ((PoolUsers.machine Unit).next s (.accept globalSerial eventName payload)).1.pool.events =
    s.pool.events ∧
      (((PoolUsers.machine Unit).next s (.accept globalSerial eventName payload)).2.filterMap
          PoolUsers.acceptedOf).map (fun e => (e.eventName, e.payload)) =
        if eventMatchesSubscription eventName
        s.pool.events then [(eventName, payload)] else [] := by
  show (s.step _).1.pool.events = _ ∧ ((s.step _).2.filterMap _).map _ = _
  by_cases hmatch : eventMatchesSubscription eventName s.pool.events = true
  · rw [PoolUsers.step, if_pos hmatch, if_pos hmatch]
    refine ⟨?_, ?_⟩
    · simp only [EventListenerPoolInner.insertAccepted]
      split <;> rfl
    · simp only [EventListenerPoolInner.insertAccepted]
      split
      · cases (s.pool.number globalSerial eventName payload).2.buffer.head? <;> rfl
      · rfl
  · rw [PoolUsers.step, if_neg hmatch, if_neg hmatch]
    exact ⟨rfl, rfl⟩

/-- A pool accepts what it is subscribed to. -/
theorem acceptedFor_eq {p : EventListenerPoolInner} {globalSerial : ℕ} {event : SystemEvent} :
    p.acceptedFor globalSerial event =
      event.announcements.filter fun a => eventMatchesSubscription a.1 p.events := by
  unfold EventListenerPoolInner.acceptedFor
  generalize event.announcements = announced
  -- Accepting events leaves the subscription of the pool.
  have hrun : ∀ s : PoolUsers Unit, s.pool.events = p.events →
      (((PoolUsers.machine Unit).outputs s
        (announced.map fun a => .accept globalSerial a.1 a.2)).filterMap PoolUsers.acceptedOf).map
          (fun e => (e.eventName, e.payload)) =
        announced.filter fun a => eventMatchesSubscription a.1 p.events := by
    induction announced with
    | nil => exact fun _ _ => rfl
    | cons a announced ih =>
      intro s hevents
      rw [List.map_cons, Transducer.outputs_cons, List.filterMap_append, List.map_append,
        List.filter_cons]
      obtain ⟨hsame, hnotes⟩ := @step_accept s globalSerial a.1 a.2
      rw [ih _ (hsame.trans hevents), hnotes, hevents]
      split <;> rfl
  exact hrun _ rfl

/-- Events of the name that a pool is subscribed to are all accepted, and each reports its group. -/
theorem reportedGroups_same {subscribed : List String} {eventName : String} (groups : List String)
    (h : eventMatchesSubscription eventName subscribed = true) :
    reportedGroups eventName
      ((groups.map fun g => (eventName, s!"groupname:{g}\n")).filter
        fun a => eventMatchesSubscription a.1 subscribed) = groups.map some := by
  induction groups with
  | nil => rfl
  | cons group groups ih =>
    unfold reportedGroups at ih ⊢
    rw [List.map_cons, List.filter_cons, if_pos h, List.filter_cons, if_pos (decide_eq_true rfl),
      List.map_cons, List.map_cons, ih, groupNameOf_payload]

/-- Events of another name report no group. -/
theorem reportedGroups_other {subscribed : List String} {eventName otherName : String}
    (groups : List String) (hne : otherName ≠ eventName) :
    reportedGroups eventName
      ((groups.map fun g => (otherName, s!"groupname:{g}\n")).filter
        fun a => eventMatchesSubscription a.1 subscribed) = [] := by
  refine List.map_eq_nil_iff.mpr (List.filter_eq_nil_iff.mpr fun a ha => ?_)
  obtain ⟨g, -, rfl⟩ := List.mem_map.mp (List.mem_filter.mp ha).1
  simpa using hne

theorem reportedGroups_append {eventName : String} {accepted accepted' : List (String × String)} :
    reportedGroups eventName (accepted ++ accepted') =
      reportedGroups eventName accepted ++ reportedGroups eventName accepted' := by
  unfold reportedGroups
  rw [List.filter_append, List.map_append]

/-- The reported groups of a reload: the names of the added and of the removed programs. -/
theorem reportedGroups_configReloaded {p : EventListenerPoolInner} {globalSerial : ℕ}
    {added removed modified unchanged : List String} :
    (eventMatchesSubscription "PROCESS_GROUP_ADDED" p.events = true →
      reportedGroups "PROCESS_GROUP_ADDED"
          (p.acceptedFor globalSerial (.configReloaded added removed modified unchanged)) =
        added.map some) ∧
      (eventMatchesSubscription "PROCESS_GROUP_REMOVED" p.events = true →
        reportedGroups "PROCESS_GROUP_REMOVED"
            (p.acceptedFor globalSerial (.configReloaded added removed modified unchanged)) =
          removed.map some) := by
  rw [acceptedFor_eq, SystemEvent.announcements, List.filter_append]
  refine ⟨fun h => ?_, fun h => ?_⟩
  · rw [reportedGroups_append, reportedGroups_same added h,
      reportedGroups_other removed (by decide),
      List.append_nil]
  · rw [reportedGroups_append, reportedGroups_same removed h,
      reportedGroups_other added (by decide),
      List.nil_append]

/-- Names that are reported as groups report the groups exactly when they are their names. -/
theorem reportsGroups_iff {eventName : String} {accepted : List (String × String)}
    {names : List String}
    {having lacking : ProgramConfigs} (hreported : reportedGroups eventName accepted =
      names.map some)
    (hnodup : names.Nodup) (hnames : ∀ name, name ∈ names ↔ name ∈ having ∧ name ∉ lacking) :
    ReportsGroups eventName accepted having lacking ↔ NamedAsGroups having lacking := by
  unfold ReportsGroups NamedAsGroups
  rw [hreported]
  have hmem : ∀ name, some name ∈ names.map some ↔ name ∈ having ∧ name ∉ lacking := fun name =>
    (List.mem_map_of_injective (Option.some_injective _)).trans (hnames name)
  constructor
  · rintro ⟨-, hgroups⟩ name
    rw [← hmem, hgroups]
    constructor
    · rintro ⟨group, hgroup, hhas⟩
      exact Option.some.inj hgroup ▸ hhas
    · exact fun hhas => ⟨name, rfl, hhas⟩
  · intro hnamed
    refine ⟨hnodup.map (Option.some_injective _), fun reported => ?_⟩
    constructor
    · intro h
      obtain ⟨name, -, rfl⟩ := List.mem_map.mp h
      exact ⟨name, rfl, (hnamed name).mp ((hmem name).mp h)⟩
    · rintro ⟨group, rfl, hhas⟩
      exact (hmem group).mpr ((hnamed group).mpr hhas)

/-- Where each program is in the group of its own name, the programs are named as the groups. -/
theorem namedAsGroups_of_ownGroups {having lacking : ProgramConfigs}
    (hhaving : ∀ name cfg, having.lookup name = some cfg → cfg.group = name)
    (hlacking : ∀ name cfg, lacking.lookup name = some cfg → cfg.group = name) :
    NamedAsGroups having lacking := by
  have hgroups : ∀ configs : ProgramConfigs,
      (∀ name cfg, configs.lookup name = some cfg → cfg.group = name) →
        ∀ name, name ∈ configs ↔ configs.HasGroup name := by
    intro configs hown name
    rw [HashMap.mem_iff_lookup]
    constructor
    · rintro ⟨cfg, hcfg⟩
      exact ⟨name, cfg, hcfg, hown name cfg hcfg⟩
    · rintro ⟨name', cfg, hcfg, hgroup⟩
      rw [← hgroup, hown name' cfg hcfg]
      exact ⟨cfg, hcfg⟩
  intro name
  rw [hgroups having hhaving, hgroups lacking hlacking]

/-! ## Reloads -/

namespace ManagerActor

variable {m m' : ManagerActor} {env : ManagerEnv} {newConfig : SupervisorConfig}
  {summary : ReloadSummary}

theorem events_finishReload {newDag : DependencyGraph} {diff : ConfigDiff} :
    (m.finishReload newConfig env newDag diff).events =
      m.events ++ [.configReloaded (diff.added.map (·.name)) diff.removed
        (diff.modified.map (·.name)) diff.unchanged] := by
  rw [finishReload, publishSystem, syncLoggingConfig]
  simp only
  split <;> rfl

/-- A fold whose steps publish nothing publishes nothing. -/
theorem events_foldl {α : Type} {f : ManagerActor → α → ManagerActor} (l : List α)
    (hstep : ∀ m a, (f m a).events = m.events) : (l.foldl f m).events = m.events := by
  induction l generalizing m with
  | nil => rfl
  | cons a l ih => rw [List.foldl_cons, ih, hstep]

theorem events_removeProgram (m : ManagerActor) (name : String) :
    (m.removeProgram name).events = m.events := by
  rw [removeProgram]
  cases m.programs.lookup name <;> rfl

theorem events_addProgram (m : ManagerActor) (e : String × ProgramInstance) :
    (m.addProgram e).events = m.events := by
  rw [addProgram]
  cases e.2.config.autostart <;> rfl

theorem events_replaceProgram (m : ManagerActor) (e : String × ProgramInstance) :
    (m.replaceProgram e).events = m.events := by
  rw [replaceProgram, events_addProgram]
  cases m.programs.lookup e.1 <;> rfl

/-- The changes of a reload publish nothing before the event at its end. -/
theorem events_commitReload {newPrograms : ProgramConfigs} {newDag : DependencyGraph}
    {modified added : List (String × ProgramInstance)} {st : Staging} :
    (m.commitReload newConfig env newPrograms newDag modified added st).events =
      m.events ++ [.configReloaded ((m.reloadDiff env newPrograms).added.map (·.name))
        (m.reloadDiff env newPrograms).removed
        ((m.reloadDiff env newPrograms).modified.map (·.name))
        (m.reloadDiff env newPrograms).unchanged] := by
  rw [commitReload, events_finishReload, events_foldl _ events_addProgram,
    events_foldl _ events_replaceProgram, events_foldl _ events_removeProgram]
  rfl

/-- A successful reload publishes one event, with the names of its summary. -/
theorem executeReloadConfig_published
    (h : m.executeReloadConfig newConfig env = (.ok summary, m')) :
    ∃ newPrograms, newConfig.resolvePrograms env.resolve = .ok newPrograms ∧
      m'.events = m.events ++ [.configReloaded summary.added summary.removed summary.modified
        summary.unchanged] ∧
      Partitions summary m.configs newPrograms := by
  rcases m.executeReloadConfig_cases newConfig env with ⟨_, hres⟩ |
    ⟨newPrograms, newDag, hresolve, hbuild, ⟨_, _, hres⟩ | ⟨modified, added, st, hstage, hres⟩⟩
  · rw [hres] at h
    cases h
  · rw [hres] at h
    cases h
  · rw [hres] at h
    obtain ⟨rfl, rfl⟩ : reloadSummary _ = summary ∧ commitReload _ _ _ _ _ _ _ _ = m' :=
      ⟨Except.ok.inj (Prod.mk.inj h).1, (Prod.mk.inj h).2⟩
    exact ⟨newPrograms, hresolve, events_commitReload,
      m.reloadSummary_partitions env (SupervisorConfig.resolvePrograms_wellFormed hresolve)⟩

/-- A successful reload publishes one event. A subscribed pool makes group events of it that report
the groups which appeared exactly when these are named as the added programs, and the groups which
disappeared exactly when these are named as the removed programs. -/
theorem groupsReported_iff (h : m.executeReloadConfig newConfig env = (.ok summary, m')) :
    ∃ newPrograms event, newConfig.resolvePrograms env.resolve = .ok newPrograms ∧
      m'.events = m.events ++ [event] ∧
      ∀ (p : EventListenerPoolInner) (globalSerial : ℕ),
        (eventMatchesSubscription "PROCESS_GROUP_ADDED" p.events = true →
          (ReportsGroups "PROCESS_GROUP_ADDED" (p.acceptedFor globalSerial event) newPrograms
              m.configs ↔
            NamedAsGroups newPrograms m.configs)) ∧
          (eventMatchesSubscription "PROCESS_GROUP_REMOVED" p.events = true →
            (ReportsGroups "PROCESS_GROUP_REMOVED" (p.acceptedFor globalSerial event) m.configs
                newPrograms ↔
              NamedAsGroups m.configs newPrograms)) := by
  obtain ⟨newPrograms, hresolve, hevents, hpart⟩ := executeReloadConfig_published h
  have hnodup := hpart.nodup
  rw [List.append_assoc, List.append_assoc] at hnodup
  refine ⟨newPrograms, _, hresolve, hevents, fun p globalSerial => ?_⟩
  obtain ⟨hadded, hremoved⟩ := @reportedGroups_configReloaded p globalSerial summary.added
    summary.removed summary.modified summary.unchanged
  exact ⟨fun hsub => reportsGroups_iff (hadded hsub) hnodup.of_append_left hpart.added_iff,
    fun hsub => reportsGroups_iff (hremoved hsub) hnodup.of_append_right.of_append_left
      hpart.removed_iff⟩

/-- A database, and what is added to it. -/
def databaseAnd (added : List (String × ProgramConfigRaw)) : SupervisorConfig where
  programs := HashMap.extend ∅ (("db", { command := "postgres" }) :: added)

/-- A web server is added in the group of its own name. -/
theorem groupsReported_of_ownGroup :
    ∃ (m m' : ManagerActor) (summary : ReloadSummary) (newPrograms : ProgramConfigs)
        (event : SystemEvent),
      m.executeReloadConfig (databaseAnd [("web", { command := "nginx" })]) .plain =
        (.ok summary, m') ∧
      (databaseAnd [("web", { command := "nginx" })]).resolvePrograms ManagerEnv.plain.resolve =
        .ok newPrograms ∧
      NamedAsGroups newPrograms m.configs ∧ m'.events = m.events ++ [event] ∧
      ∀ (p : EventListenerPoolInner) (globalSerial : ℕ),
        (eventMatchesSubscription "PROCESS_GROUP_ADDED" p.events = true →
          (ReportsGroups "PROCESS_GROUP_ADDED" (p.acceptedFor globalSerial event) newPrograms
              m.configs ↔
            NamedAsGroups newPrograms m.configs)) ∧
          (eventMatchesSubscription "PROCESS_GROUP_REMOVED" p.events = true →
            (ReportsGroups "PROCESS_GROUP_REMOVED" (p.acceptedFor globalSerial event) m.configs
                newPrograms ↔
              NamedAsGroups m.configs newPrograms)) := by
  obtain ⟨m, -, hok, hown⟩ := exists_build
    (fun m => (m.executeReloadConfig (databaseAnd [("web", { command := "nginx" })])
      .plain).1.isOk ∧
      (m.configs.EachEntry fun name cfg => cfg.group = name) ∧
      ((databaseAnd [("web", { command := "nginx" })]).resolvePrograms
        ManagerEnv.plain.resolve).toOption.all
          (fun newPrograms => newPrograms.EachEntry fun name cfg => cfg.group = name) = true)
    (databaseAnd []) .plain (by decide +kernel)
  cases hres : m.executeReloadConfig (databaseAnd [("web", { command := "nginx" })]) .plain with
  | mk r m' =>
    rw [hres] at hok
    cases r with
    | error e => cases hok
    | ok summary =>
      obtain ⟨newPrograms, event, hresolve, hevents, hreports⟩ := groupsReported_iff hres
      rw [hresolve] at hown
      have hgroups : newPrograms.EachEntry fun name cfg => cfg.group = name :=
        of_decide_eq_true hown.2
      exact ⟨m, m', summary, newPrograms, event, hres, hresolve,
        namedAsGroups_of_ownGroups hgroups hown.1, hevents, hreports⟩

/-- A web server is added in another group: the program is reported as a group, and its group is
not. -/
theorem exists_not_reportsGroups :
    ∃ (m m' : ManagerActor) (summary : ReloadSummary) (newPrograms : ProgramConfigs)
        (event : SystemEvent), system.Reachable m ∧
      m.executeReloadConfig (databaseAnd [("web", { command := "nginx", group := some "site" })])
        .plain = (.ok summary, m') ∧
      (databaseAnd [("web", { command := "nginx", group := some "site" })]).resolvePrograms
        ManagerEnv.plain.resolve = .ok newPrograms ∧
      m'.events = m.events ++ [event] ∧
      ¬ ReportsGroups "PROCESS_GROUP_ADDED"
        ((EventListenerPoolInner.new "mailer" "supervisor" ["PROCESS_GROUP"] 10).acceptedFor 0
          event) newPrograms m.configs := by
  obtain ⟨m, hbuild, hok, hgroups⟩ := exists_build
    (fun m => (m.executeReloadConfig
        (databaseAnd [("web", { command := "nginx", group := some "site" })]) .plain).1.isOk ∧
      ((databaseAnd [("web", { command := "nginx", group := some "site" })]).resolvePrograms
        ManagerEnv.plain.resolve).toOption.all
          (fun newPrograms => "web" ∈ newPrograms ∧ "web" ∉ m.configs ∧
            newPrograms.EachEntry fun _ cfg => cfg.group ≠ "web") = true)
    (databaseAnd []) .plain (by decide +kernel)
  cases hres : m.executeReloadConfig
      (databaseAnd [("web", { command := "nginx", group := some "site" })]) .plain with
  | mk r m' =>
    rw [hres] at hok
    cases r with
    | error e => cases hok
    | ok summary =>
      obtain ⟨newPrograms, hresolve, hevents, hpart⟩ := executeReloadConfig_published hres
      rw [hresolve] at hgroups
      obtain ⟨hnew, hold, hnone⟩ := of_decide_eq_true hgroups
      refine ⟨m, m', summary, newPrograms, _, .init ⟨_, _, hbuild⟩, hres, hresolve, hevents, ?_⟩
      rintro ⟨-, hreported⟩
      rw [(reportedGroups_configReloaded).1 (by decide)] at hreported
      obtain ⟨group, hgroup, ⟨name, cfg, hlookup, hcfg⟩, -⟩ := (hreported (some "web")).mp
        (List.mem_map_of_mem ((hpart.added_iff "web").mpr ⟨hnew, hold⟩))
      exact hnone name cfg hlookup (hcfg.trans (Option.some.inj hgroup).symm)

end ManagerActor

end Rsupervisord
