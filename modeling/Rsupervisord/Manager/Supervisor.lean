import Rsupervisord.Config.Diff
import Rsupervisord.EventListener.Pool
import Rsupervisord.Manager.Cron
import Rsupervisord.Manager.Dag
import Rsupervisord.Manager.Event
import Rsupervisord.Support.Except
import Rsupervisord.Support.TransitionSystem

/-!
# Manager

The manager actor: it owns the program instances, their configurations and the structures derived
from them, and executes one command after the other. A program instance is an actor of its own, so
that the manager sees it through the calls that it issues and the states that it reads. The calls
are recorded in a log; the results of the calls and the states are supplied by the environment.

Commands that only read the state are left out.
-/

namespace Rsupervisord

/-- A handle to a shared event listener pool. -/
structure EventListenerPool where
  /-- Identity of the shared state. -/
  id : ℕ
  /-- The shared state as it was created; the events and the buffer size are fixed from then on. -/
  inner : EventListenerPoolInner
  deriving DecidableEq

/-- A managed program instance, an ordinary process or an event listener. -/
structure ProgramInstance where
  /-- Identity of the instance. -/
  id : ℕ
  config : ProgramConfig
  /-- The pool an event listener is attached to. -/
  pool : Option EventListenerPool
  deriving DecidableEq

/-- A call to a program instance. -/
inductive ProgramCall
  | start
  | stop (gracePeriod : Duration)
  | restart (gracePeriod : Duration)
  | signal (s : StopSignal)
  | shutdown
  deriving DecidableEq, Repr

/-- A call that was issued, with the instance it went to. -/
structure Request where
  target : ℕ
  call : ProgramCall
  deriving DecidableEq, Repr

/-- Outcome of a reload. -/
structure ReloadSummary where
  added : List String
  removed : List String
  modified : List String
  unchanged : List String
  deriving DecidableEq, Repr

/-- The iteration orders of the hash maps of one operation. -/
structure ManagerOrders where
  /-- Order of the resolved map of a new configuration. -/
  newPrograms : HashOrder String
  configs : HashOrder String
  pendingConfigs : HashOrder String
  programs : HashOrder String
  cron : HashOrder String
  /-- Orders of the graph built from a new configuration. -/
  build : DependencyGraph.BuildOrders
  /-- Orders of the graph rebuilt after a change. -/
  refresh : DependencyGraph.BuildOrders

/-- What one operation of the manager reads from outside. -/
structure ManagerEnv where
  resolve : ResolveEnv
  check : CycleCheck String
  croner : Croner
  /-- The wall-clock time. -/
  now : ℤ
  /-- The wall-clock time in seconds since the epoch. -/
  timestampSecs : ℕ
  orders : ManagerOrders
  /-- The state that an instance reports, given the calls issued so far. -/
  state : List Request → ℕ → ProgramState
  /-- The result of the last of the calls issued so far. -/
  result : List Request → Except ProgramError Unit

/-- The state of the manager actor. -/
structure ManagerActor where
  programs : HashMap String ProgramInstance
  configs : ProgramConfigs
  sharedConfigs : ProgramConfigs
  pendingConfigs : ProgramConfigs
  sharedPendingConfigs : ProgramConfigs
  dag : DependencyGraph
  cronTable : CronTable
  /-- The configurations last sent to the watch service. -/
  watchConfigs : ProgramConfigs
  isShuttingDown : Bool
  eventPools : HashMap String EventListenerPool
  serverIdentifier : String
  configLogging : LoggingConfig
  /-- The events published so far. -/
  events : List SystemEvent
  /-- The calls issued so far. -/
  requests : List Request
  /-- The next identity of an instance or a pool. -/
  nextId : ℕ
  /-- The loop of the actor was left. -/
  finished : Bool

/-! ## Instances -/

/-- The pools and identities while new instances are staged. -/
structure Staging where
  eventPools : HashMap String EventListenerPool
  nextId : ℕ

/-- `event_pools.entry(..).or_insert_with(..)`: the pool of a listener, created when its name is not
registered yet. -/
def Staging.pool (st : Staging) (el : EventListenerConfig) (serverIdentifier : String) :
    EventListenerPool × Staging :=
  match st.eventPools.lookup el.poolName with
  | some pool => (pool, st)
  | none =>
      let pool := ⟨st.nextId, .new el.poolName serverIdentifier el.events el.bufferSize⟩
      (pool, { eventPools := st.eventPools.insert el.poolName pool, nextId := st.nextId + 1 })

/-- `instantiate_program`. An event listener is not validated. -/
def instantiateProgram (croner : Croner) (serverIdentifier : String) (cfg : ProgramConfig)
    (st : Staging) : Except ProgramError (ProgramInstance × Staging) :=
  match cfg.eventListener with
  | some el =>
      let (pool, st) := st.pool el serverIdentifier
      .ok (⟨st.nextId, cfg, some pool⟩, { st with nextId := st.nextId + 1 })
  | none => do
      cfg.validate croner
      return (⟨st.nextId, cfg, none⟩, { st with nextId := st.nextId + 1 })

/-- Instantiate the listed programs in order; the first failure ends the staging. -/
def stage (croner : Croner) (serverIdentifier : String) :
    List (String × ProgramConfig) → Staging →
      Except ProgramError (List (String × ProgramInstance) × Staging)
  | [], st => .ok ([], st)
  | (name, cfg) :: rest, st => do
      let (prog, st) ← instantiateProgram croner serverIdentifier cfg st
      let (progs, st) ← stage croner serverIdentifier rest st
      return ((name, prog) :: progs, st)

/-- The configurations of staged instances. -/
def configsOf (staged : List (String × ProgramInstance)) : List (String × ProgramConfig) :=
  staged.map fun e => (e.1, e.2.config)

namespace ManagerActor

/-- Issue a call to an instance. -/
def issue (m : ManagerActor) (prog : ProgramInstance) (call : ProgramCall) : ManagerActor :=
  { m with requests := m.requests ++ [⟨prog.id, call⟩] }

/-- Publish an event. -/
def publishSystem (m : ManagerActor) (event : SystemEvent) : ManagerActor :=
  { m with events := m.events ++ [event] }

/-- `sync_logging_config`: a switch to or from in-memory logging keeps the active mode. -/
def syncLoggingConfig (m : ManagerActor) (newLogging : LoggingConfig) : ManagerActor :=
  let activeInMem := m.configLogging.enabled == .inMemoryOnly
  let targetInMem := newLogging.enabled == .inMemoryOnly
  if activeInMem != targetInMem then
    { m with configLogging := { newLogging with enabled := m.configLogging.enabled } }
  else { m with configLogging := newLogging }

/-- `SupervisorManagerBuilder::build`. -/
def build (config : SupervisorConfig) (env : ManagerEnv) : Except ProgramError ManagerActor := do
  let programsMap ← config.resolvePrograms env.resolve
  let dag ← DependencyGraph.build env.check env.orders.build programsMap
  let serverIdentifier := config.identifier.getD "rsupervisord-compat"
  let (progs, st) ← stage env.croner serverIdentifier (programsMap.iter env.orders.newPrograms)
    { eventPools := ∅, nextId := 0 }
  return {
    programs := HashMap.extend ∅ progs
    configs := programsMap
    sharedConfigs := programsMap
    pendingConfigs := programsMap
    sharedPendingConfigs := programsMap
    dag := dag
    cronTable := .fromConfigs env.croner env.orders.cron env.now programsMap
    watchConfigs := programsMap
    isShuttingDown := false
    eventPools := st.eventPools
    serverIdentifier := serverIdentifier
    configLogging := config.logging
    events := []
    requests := []
    nextId := st.nextId
    finished := false }

/-! ## Starting and stopping -/

section Calls

variable (env : ManagerEnv)

/-- `find_match`: the programs that a pattern names. -/
def findMatch (m : ManagerActor) (pattern : String) : List String :=
  let trimmed := Text.trim pattern
  if trimmed ∈ m.programs then [trimmed]
  else
    let entries := m.configs.iter env.orders.configs
    let inGroup : List (String × ProgramConfig) :=
      match Text.splitOnce ':' trimmed with
      | some (groupPart, progPart) =>
          entries.filter fun e => e.2.group = groupPart ∧
            (progPart = "*" ∨ progPart = e.1 ∨
              Text.stripPrefix (groupPart ++ ":") e.1 = some progPart)
      | none => []
    if !inGroup.isEmpty then inGroup.map Prod.fst
    else
      ((entries.filter fun e => e.2.group = trimmed).map Prod.fst).insertionSort (· ≤ ·)

/-- Call the listed programs one after the other; the first failure ends the sequence. -/
def callEach (call : String → ProgramCall) :
    List String → ManagerActor → Except ProgramError Unit × ManagerActor
  | [], m => (.ok (), m)
  | target :: rest, m =>
      match m.programs.lookup target with
      | none => callEach call rest m
      | some prog =>
          let m := m.issue prog (call target)
          match env.result m.requests with
          | .ok () => callEach call rest m
          | .error e => (.error e, m)

/-- The stop wait of a program, the default one for an unknown name. -/
def stopWaitOf (m : ManagerActor) (name : String) : Duration :=
  ((m.configs.lookup name).map (·.stopWaitSecs)).getD defaultStopWait

/-- The members of a group by priority, or what else the name matches. -/
def groupTargets (m : ManagerActor) (group : String) : Except ProgramError (List String) :=
  let targets := m.findMatch env (group ++ ":*")
  let targets := if targets.isEmpty then m.findMatch env group else targets
  if targets.isEmpty then .error (.notFound s!"group '{group}'")
  else .ok (targets.insertionSort fun a b =>
    DependencyGraph.priorityOf m.configs a ≤ DependencyGraph.priorityOf m.configs b)

/-- `execute_start_group`. -/
def executeStartGroup (m : ManagerActor) (group : String) :
    Except ProgramError (List String) × ManagerActor :=
  match m.groupTargets env group with
  | .error e => (.error e, m)
  | .ok targets =>
      match m.callEach env (fun _ => .start) targets with
      | (.ok (), m) => (.ok targets, m)
      | (.error e, m) => (.error e, m)

/-- `execute_stop_group`: in reverse order. -/
def executeStopGroup (m : ManagerActor) (group : String) (gracePeriod : Option Duration) :
    Except ProgramError (List String) × ManagerActor :=
  match m.groupTargets env group with
  | .error e => (.error e, m)
  | .ok targets =>
      let call name := ProgramCall.stop (gracePeriod.getD (m.stopWaitOf name))
      match m.callEach env call targets.reverse with
      | (.ok (), m) => (.ok targets, m)
      | (.error e, m) => (.error e, m)

/-- `execute_restart_group`. -/
def executeRestartGroup (m : ManagerActor) (group : String) (gracePeriod : Option Duration) :
    Except ProgramError (List String) × ManagerActor :=
  match m.executeStopGroup env group gracePeriod with
  | (.error e, m) => (.error e, m)
  | (.ok stopped, m) =>
      match m.executeStartGroup env group with
      | (.error e, m) => (.error e, m)
      | (.ok _, m) => (.ok stopped, m)

/-- The programs a name matches; none is an error. -/
def programTargets (m : ManagerActor) (name : String) : Except ProgramError (List String) :=
  let targets := m.findMatch env name
  if targets.isEmpty then .error (.notFound name) else .ok targets

/-- Call the listed programs, unless there is an error already. -/
def callTargets (m : ManagerActor) (call : String → ProgramCall)
    (targets : Except ProgramError (List String)) : Except ProgramError Unit × ManagerActor :=
  match targets with
  | .error e => (.error e, m)
  | .ok targets => m.callEach env call targets

/-- `execute_start_program`. -/
def executeStartProgram (m : ManagerActor) (name : String) :
    Except ProgramError Unit × ManagerActor :=
  m.callTargets env (fun _ => .start) (m.programTargets env name)

/-- `execute_stop_program`: in reverse order. -/
def executeStopProgram (m : ManagerActor) (name : String) (gracePeriod : Option Duration) :
    Except ProgramError Unit × ManagerActor :=
  m.callTargets env (fun name => .stop (gracePeriod.getD (m.stopWaitOf name)))
    ((m.programTargets env name).map List.reverse)

/-- `execute_restart_program`: in reverse order. -/
def executeRestartProgram (m : ManagerActor) (name : String) (gracePeriod : Option Duration) :
    Except ProgramError Unit × ManagerActor :=
  m.callTargets env (fun name => .restart (gracePeriod.getD (m.stopWaitOf name)))
    ((m.programTargets env name).map List.reverse)

/-- The `SignalProgram` command: an exact name goes first. -/
def executeSignalProgram (m : ManagerActor) (name : String) (s : StopSignal) :
    Except ProgramError Unit × ManagerActor :=
  let targets := if name ∈ m.programs then .ok [name] else m.programTargets env name
  m.callTargets env (fun _ => .signal s) targets

/-- Start the programs of one layer that are configured to and are not active. -/
def startLayer (m : ManagerActor) (layer : List String) : ManagerActor :=
  let ready := layer.filterMap fun name =>
    if ((m.configs.lookup name).map (·.autostart)).getD false then
      (m.programs.lookup name).filter fun prog =>
        (env.state m.requests prog.id).isStoppedOrFatal
    else none
  ready.foldl (fun m prog => m.issue prog .start) m

/-- `execute_start_all`. -/
def executeStartAll (m : ManagerActor) : ManagerActor :=
  m.dag.startLayers.foldl (startLayer env) m

/-- Stop the programs of one layer that are not stopped. -/
def stopLayer (gracePeriod : Option Duration) (m : ManagerActor) (layer : List String) :
    ManagerActor :=
  let active := layer.filterMap fun name =>
    ((m.programs.lookup name).filter fun prog =>
      env.state m.requests prog.id ≠ .stopped).map fun prog =>
        (prog, gracePeriod.getD (m.stopWaitOf name))
  active.foldl (fun m e => m.issue e.1 (.stop e.2)) m

/-- `execute_stop_all`. -/
def executeStopAll (m : ManagerActor) (gracePeriod : Option Duration) : ManagerActor :=
  m.dag.stopLayers.foldl (stopLayer env gracePeriod) m

/-- Shut every managed instance down. -/
def shutdownPrograms (m : ManagerActor) : ManagerActor :=
  (m.programs.values env.orders.programs).foldl (fun m prog => m.issue prog .shutdown) m

/-! ## Changing the managed programs -/

/-- `refresh_derived_state`: a graph that cannot be built leaves the old one in place. -/
def refreshDerivedState (m : ManagerActor) : ManagerActor :=
  let m :=
    match DependencyGraph.build env.check env.orders.refresh m.configs with
    | .ok dag => { m with dag := dag }
    | .error _ => m
  { m with
    cronTable := .fromConfigs env.croner env.orders.cron env.now m.configs
    watchConfigs := m.configs
    sharedConfigs := m.configs }

end Calls

/-- Set the pending configurations and their shared copy. -/
def setPending (m : ManagerActor) (newPrograms : ProgramConfigs) : ManagerActor :=
  { m with pendingConfigs := newPrograms, sharedPendingConfigs := newPrograms }

/-- Stop an instance, shut it down and unregister the program. -/
def removeProgram (m : ManagerActor) (name : String) : ManagerActor :=
  let m :=
    match m.programs.lookup name with
    | some prog =>
        { (m.issue prog (.stop defaultStopWait)).issue prog .shutdown with
          programs := m.programs.erase name }
    | none => m
  { m with configs := m.configs.erase name }

/-- Start a staged instance if it is configured to, and register it. -/
def addProgram (m : ManagerActor) (e : String × ProgramInstance) : ManagerActor :=
  let m := if e.2.config.autostart then m.issue e.2 .start else m
  { m with
    programs := m.programs.insert e.1 e.2
    configs := m.configs.insert e.1 e.2.config }

/-- Stop the old instance of a program, shut it down and put the staged instance in its place. -/
def replaceProgram (m : ManagerActor) (e : String × ProgramInstance) : ManagerActor :=
  let m :=
    match m.programs.lookup e.1 with
    | some prog => (m.issue prog (.stop e.2.config.stopWaitSecs)).issue prog .shutdown
    | none => m
  m.addProgram e

/-- Stage the modified and then the added programs of a reload. -/
def stageReload (croner : Croner) (serverIdentifier : String) (diff : ConfigDiff) (st : Staging) :
    Except ProgramError
      (List (String × ProgramInstance) × List (String × ProgramInstance) × Staging) := do
  let (modified, st) ← stage croner serverIdentifier (diff.modified.map fun c => (c.name, c)) st
  let (added, st) ← stage croner serverIdentifier (diff.added.map fun c => (c.name, c)) st
  return (modified, added, st)

/-- `execute_reload_config`. -/
def executeReloadConfig (m : ManagerActor) (newConfig : SupervisorConfig) (env : ManagerEnv) :
    Except ProgramError ReloadSummary × ManagerActor :=
  match newConfig.resolvePrograms env.resolve with
  | .error e => (.error e, m)
  | .ok newPrograms =>
  match DependencyGraph.build env.check env.orders.build newPrograms with
  | .error e => (.error e, m)
  | .ok newDag =>
      let m := m.setPending newPrograms
      let diff := ConfigDiff.compute env.orders.configs env.orders.newPrograms m.configs
        newPrograms
      let summary : ReloadSummary := {
        added := diff.added.map (·.name)
        removed := diff.removed
        modified := diff.modified.map (·.name)
        unchanged := diff.unchanged }
      match stageReload env.croner m.serverIdentifier diff ⟨m.eventPools, m.nextId⟩ with
      | .error e => (.error e, m)
      | .ok (modified, added, st) =>
          let m := { m with eventPools := st.eventPools, nextId := st.nextId }
          let m := diff.removed.foldl removeProgram m
          let m := modified.foldl replaceProgram m
          let m := added.foldl addProgram m
          let m := { m with
            dag := newDag
            cronTable := .fromConfigs env.croner env.orders.cron env.now m.configs
            watchConfigs := m.configs }
          let m := m.syncLoggingConfig newConfig.logging
          let m := { m with sharedConfigs := m.configs }
          let m := m.publishSystem
            (.configReloaded summary.added summary.removed summary.modified summary.unchanged)
          (.ok summary, m)

/-- `execute_restart_daemon`. -/
def executeRestartDaemon (m : ManagerActor) (newConfig : SupervisorConfig) (env : ManagerEnv) :
    Except ProgramError Unit × ManagerActor :=
  match newConfig.resolvePrograms env.resolve with
  | .error e => (.error e, m)
  | .ok newPrograms =>
  match DependencyGraph.build env.check env.orders.build newPrograms with
  | .error e => (.error e, m)
  | .ok _ =>
      let m := m.setPending newPrograms
      match stage env.croner m.serverIdentifier (newPrograms.iter env.orders.newPrograms)
        ⟨∅, m.nextId⟩ with
      | .error e => (.error e, m)
      | .ok (staged, st) =>
          let m := m.executeStopAll env none
          let m := m.shutdownPrograms env
          let m := { m with
            programs := HashMap.extend ∅ staged
            configs := HashMap.extend ∅ (configsOf staged)
            eventPools := st.eventPools
            nextId := st.nextId }
          let m := m.syncLoggingConfig newConfig.logging
          let m := m.refreshDerivedState env
          let m := m.executeStartAll env
          (.ok (), m.publishSystem (.daemonLifecycle "restarted" env.timestampSecs))

/-- The configurations of a map that belong to a group. -/
def membersOf (configs : ProgramConfigs) (order : HashOrder String) (group : String) :
    List ProgramConfig :=
  (configs.values order).filter fun cfg => cfg.group = group

/-- `execute_add_process_group`. -/
def executeAddProcessGroup (m : ManagerActor) (group : String) (env : ManagerEnv) :
    Except ProgramError Bool × ManagerActor :=
  if (m.configs.values env.orders.configs).any fun cfg => cfg.group = group then (.ok false, m)
  else
    let candidates := membersOf m.pendingConfigs env.orders.pendingConfigs group
    if candidates.isEmpty then (.error (.notFound group), m)
    else
      match stage env.croner m.serverIdentifier (candidates.map fun cfg => (cfg.name, cfg))
        ⟨m.eventPools, m.nextId⟩ with
      | .error e => (.error e, m)
      | .ok (staged, st) =>
          let m := { m with eventPools := st.eventPools, nextId := st.nextId }
          let m := staged.foldl addProgram m
          let m := m.refreshDerivedState env
          (.ok true, m.publishSystem (.processGroupAdded group))

/-- A member of a group that keeps it from being removed. -/
def isBusy (m : ManagerActor) (env : ManagerEnv) (name : String) : Bool :=
  match m.programs.lookup name with
  | some prog =>
      let state := env.state m.requests prog.id
      state.isActive || state == .backoff
  | none => false

/-- `execute_remove_process_group`. -/
def executeRemoveProcessGroup (m : ManagerActor) (group : String) (env : ManagerEnv) :
    Except ProgramError Bool × ManagerActor :=
  let active := (membersOf m.configs env.orders.configs group).map (·.name)
  if active.isEmpty then (.error (.notFound group), m)
  else if active.any (m.isBusy env) then (.ok false, m)
  else
    let m := active.foldl removeProgram m
    let m := m.refreshDerivedState env
    (.ok true, m.publishSystem (.processGroupRemoved group))

/-! ## The loop -/

/-- One due cron action. -/
def handleCronAction (env : ManagerEnv) (m : ManagerActor) (action : CronAction) : ManagerActor :=
  match action with
  | .start name group expression =>
      match m.programs.lookup name with
      | some prog =>
          if (env.state m.requests prog.id).isActive then m
          else
            let m := m.publishSystem (.cronTriggered name group "start" expression)
            (m.executeStartProgram env name).2
      | none => m
  | .stop name group expression =>
      match m.programs.lookup name with
      | some prog =>
          if (env.state m.requests prog.id).isActive then
            let m := m.publishSystem (.cronTriggered name group "stop" expression)
            (m.executeStopProgram env name none).2
          else m
      | none => m

/-- `handle_due_cron_jobs`. -/
def handleDueCronJobs (m : ManagerActor) (env : ManagerEnv) : ManagerActor :=
  let (actions, cronTable) := m.cronTable.popDueActions env.croner env.now
  actions.foldl (handleCronAction env) { m with cronTable := cronTable }

/-- The commands that change the state. -/
inductive Command
  | startProgram (name : String)
  | stopProgram (name : String) (gracePeriod : Option Duration)
  | restartProgram (name : String) (gracePeriod : Option Duration)
  | signalProgram (name : String) (s : StopSignal)
  | startGroup (group : String)
  | stopGroup (group : String) (gracePeriod : Option Duration)
  | restartGroup (group : String) (gracePeriod : Option Duration)
  | startAll
  | stopAll (gracePeriod : Option Duration)
  | reloadConfig (newConfig : SupervisorConfig)
  | restartDaemon (newConfig : SupervisorConfig)
  | addProcessGroup (name : String)
  | removeProcessGroup (name : String)
  | shutdown

/-- The value of a successful reply. -/
inductive Reply
  | done
  | names (names : List String)
  | summary (summary : ReloadSummary)
  | changed (changed : Bool)

/-- Refuse a command while the manager shuts down. -/
def unlessShuttingDown {α : Type} (m : ManagerActor) (name : String)
    (execute : Except ProgramError α × ManagerActor) : Except ProgramError α × ManagerActor :=
  if m.isShuttingDown then (.error (.shuttingDown name), m) else execute

/-- Turn the value of a result into a reply. -/
def reply {α : Type} (f : α → Reply) (r : Except ProgramError α × ManagerActor) :
    Except ProgramError Reply × ManagerActor :=
  (r.1.map f, r.2)

/-- The arm of `run` that executes a received command. -/
def handleCommand (m : ManagerActor) (cmd : Command) (env : ManagerEnv) :
    Except ProgramError Reply × ManagerActor :=
  match cmd with
  | .startProgram name =>
      reply (fun _ => .done) (m.unlessShuttingDown name (m.executeStartProgram env name))
  | .stopProgram name gracePeriod =>
      reply (fun _ => .done) (m.executeStopProgram env name gracePeriod)
  | .restartProgram name gracePeriod =>
      reply (fun _ => .done)
        (m.unlessShuttingDown name (m.executeRestartProgram env name gracePeriod))
  | .signalProgram name s =>
      reply (fun _ => .done) (m.unlessShuttingDown name (m.executeSignalProgram env name s))
  | .startGroup group =>
      reply .names (m.unlessShuttingDown s!"group '{group}'" (m.executeStartGroup env group))
  | .stopGroup group gracePeriod => reply .names (m.executeStopGroup env group gracePeriod)
  | .restartGroup group gracePeriod =>
      reply .names (m.unlessShuttingDown s!"group '{group}'"
        (m.executeRestartGroup env group gracePeriod))
  | .startAll =>
      reply (fun _ => .done) (m.unlessShuttingDown "manager" (.ok (), m.executeStartAll env))
  | .stopAll gracePeriod => (.ok .done, m.executeStopAll env gracePeriod)
  | .reloadConfig newConfig =>
      reply .summary (m.unlessShuttingDown "manager" (m.executeReloadConfig newConfig env))
  | .restartDaemon newConfig =>
      reply (fun _ => .done)
        (m.unlessShuttingDown "manager" (m.executeRestartDaemon newConfig env))
  | .addProcessGroup name =>
      reply .changed (m.unlessShuttingDown name (m.executeAddProcessGroup name env))
  | .removeProcessGroup name =>
      reply .changed (m.unlessShuttingDown name (m.executeRemoveProcessGroup name env))
  | .shutdown =>
      let m := { m with isShuttingDown := true }
      let m := m.publishSystem (.daemonLifecycle "shutting_down" env.timestampSecs)
      let m := m.executeStopAll env none
      (.ok .done, { m.shutdownPrograms env with finished := true })

/-- The steps of the actor loop. -/
inductive Label
  /-- The cancellation token was triggered. -/
  | cancelled (env : ManagerEnv)
  /-- The cron deadline has passed. -/
  | cronDue (env : ManagerEnv)
  /-- A command was received. -/
  | command (cmd : Command) (env : ManagerEnv)

/-- One iteration of `run`. After a cancellation or a shutdown command the loop is left and every
instance is shut down. -/
def next (m : ManagerActor) (l : Label) : Option ManagerActor :=
  if m.finished then none
  else
    match l with
    | .cancelled env =>
        let m := { m with isShuttingDown := true }
        let m := m.executeStopAll env none
        some { m.shutdownPrograms env with finished := true }
    | .cronDue env =>
        if m.cronTable.earliestNextRun.isSome && !m.isShuttingDown then
          some (m.handleDueCronJobs env)
        else none
    | .command cmd env => some (m.handleCommand cmd env).2

/-- The manager as a transition system: it starts with a successful build. -/
def system : TransitionSystem ManagerActor Label where
  init m := ∃ config env, build config env = .ok m
  step m l m' := m.next l = some m'

/-- A build that succeeds with a manager that has the decidable property `P`. -/
theorem exists_build (P : ManagerActor → Prop) [DecidablePred P] (config : SupervisorConfig)
    (env : ManagerEnv)
    (h : (build config env).toOption.any (fun m => decide (P m)) = true) :
    ∃ m, build config env = .ok m ∧ P m := by
  obtain ⟨m, hbuild, hP⟩ := Except.exists_eq_ok_of_any h
  exact ⟨m, hbuild, of_decide_eq_true hP⟩

/-- A guarded replay from a built manager that ends in a state with the decidable property `P`
reaches such a state by guarded steps. -/
theorem exists_reachableWhile {G : ManagerActor → Label → Prop} [∀ m l, Decidable (G m l)]
    (P : ManagerActor → Prop) [DecidablePred P] (config : SupervisorConfig) (env : ManagerEnv)
    (ls : List Label)
    (h : ((build config env).toOption.bind fun m => TransitionSystem.replayWhile G next m ls).any
      (fun m => decide (P m)) = true) :
    ∃ m, system.ReachableWhile G m ∧ P m := by
  obtain ⟨m, hreplay, hP⟩ := (Option.any_eq_true _ _).mp h
  obtain ⟨i, hbuild, hreplay⟩ := Option.bind_eq_some_iff.mp hreplay
  have hinit : system.init i := by
    cases hres : build config env with
    | error e =>
        rw [hres] at hbuild
        cases hbuild
    | ok i' =>
        rw [hres] at hbuild
        obtain rfl := Option.some.inj hbuild
        exact ⟨config, env, hres⟩
  exact ⟨m, .of_replayWhile (fun _ _ _ hstep => hstep) (.init hinit) hreplay, of_decide_eq_true hP⟩

end ManagerActor

/-- An environment for plain configurations in which every program is stopped and every call
succeeds. -/
def ManagerEnv.plain : ManagerEnv where
  resolve := .plain
  check := .byPruning
  croner := ⟨fun _ => .ok (), fun _ _ => none⟩
  now := 0
  timestampSecs := 0
  orders := {
    newPrograms := .stored
    configs := .stored
    pendingConfigs := .stored
    programs := .stored
    cron := .stored
    build := ⟨.stored, .stored⟩
    refresh := ⟨.stored, .stored⟩ }
  state _ _ := .stopped
  result _ := .ok ()

end Rsupervisord
