import Rsupervisord.Config.Schema
import Rsupervisord.Support.UnixPath

/-!
# Resolving programs

`resolve_programs`: the raw program and event listener sections become one resolved configuration
per instance. The phases are those of the source: instance names, programs, event listeners, and
the check that no rotating log file is shared.

What the resolution reads from outside is a `ResolveEnv`: the expansion of string expressions, the
splitting of command lines, the default log path, the parsing of log destinations, and the
iteration orders of the hash maps.
-/

namespace Rsupervisord

/-- The iteration orders of the hash maps of one resolution. -/
structure ResolveOrders where
  programs : HashOrder String
  groups : HashOrder String
  environment : HashOrder String
  /-- Order of the environment of a program section. -/
  programEnvironment : String → HashOrder String
  eventListeners : HashOrder String
  /-- Order of the environment of an event listener section. -/
  listenerEnvironment : String → HashOrder String
  resolved : HashOrder String
  fileStreams : HashOrder (List UnixPath.Component)

/-- What `resolve_programs` reads from the process and the platform. -/
structure ResolveEnv where
  orders : ResolveOrders
  /-- `StringExpression::with_defaults`: the variables of a new expression context. -/
  defaultVars : HashMap String String
  /-- `StringExpression::eval_named`: the variables, the text and the name of its field. -/
  evalNamed : HashMap String String → String → String → Except String String
  /-- `split_command_line` of the platform. -/
  splitCommandLine : String → Except String (List String)
  /-- `default_program_log_path`, from the configuration directory and the instance name. -/
  defaultProgramLogPath : Option String → String → String
  /-- The files of a log destination; `none` when it does not parse. -/
  destinationFiles : String → Option (List String)
  /-- The default stop signal of the platform. -/
  defaultStopSignal : StopSignal
  /-- The `Debug` text of a list of names. -/
  debugNames : List String → String

namespace ResolveEnv

variable (env : ResolveEnv)

/-- Evaluate a string expression; a failure is a configuration error. -/
def eval (vars : HashMap String String) (text contextName : String) :
    Except ProgramError String :=
  (env.evalNamed vars text contextName).mapError .configError

/-- Evaluate an optional string expression. -/
def evalOption (vars : HashMap String String) (text : Option String) (contextName : String) :
    Except ProgramError (Option String) :=
  match text with
  | some text => do
      let text ← env.eval vars text contextName
      return some text
  | none => return none

/-- The command and the arguments of an instance. Without explicit arguments the evaluated command
is split as a command line. -/
def commandAndArgs (vars : HashMap String String) (command : String) (args : List String) :
    Except ProgramError (String × List String) := do
  let rawCmd ← env.eval vars command "command"
  if args.isEmpty then
    match env.splitCommandLine rawCmd with
    | .ok (cmd :: parts) => return (cmd, parts)
    | _ => return (rawCmd, [])
  else
    let args ← args.mapM fun a => env.eval vars a "args"
    return (rawCmd, args)

/-- Evaluate the entries of an environment. -/
def evalEnvironment (vars : HashMap String String) (contextName : String → String)
    (entries : List (String × String)) :
    Except ProgramError (Finmap fun _ : String => String) :=
  entries.foldlM (fun m e => do
    let v ← env.eval vars e.2 (contextName e.1)
    return m.insert e.1 v) ∅

end ResolveEnv

namespace SupervisorConfig

variable (c : SupervisorConfig) (env : ResolveEnv)

/-- The expression context of an instance: the default variables, the configuration directory and
the variables of `with_program_context`. -/
def programContext (programName groupName : String) (processNum numprocs : ℕ) :
    HashMap String String :=
  let vars := env.defaultVars.insert "here" (c.configDir.getD ".")
  let vars := AList.insert "program_name" programName vars
  let vars := AList.insert "group_name" groupName vars
  let vars := AList.insert "process_num" (toString processNum) vars
  AList.insert "numprocs" (toString numprocs) vars

/-- Add environment entries to an expression context under their `ENV_` names. -/
def seedEnvironment (vars : HashMap String String) (entries : List (String × String)) :
    HashMap String String :=
  entries.foldl (fun vars e => vars.insert ("ENV_" ++ e.1) e.2) vars

/-- The names of the instances of a section. The process numbers have no bound here; in the source
`numprocs_start + idx` is a `usize`. -/
def instanceNames (baseName groupName : String) (numprocs numprocsStart : ℕ)
    (processNameTemplate : Option String) : Except ProgramError (List String) :=
  if numprocs = 1 ∧ processNameTemplate.isNone then return [baseName]
  else (List.range numprocs).mapM fun idx =>
    let processNum := numprocsStart + idx
    match processNameTemplate with
    | some template =>
        env.eval (c.programContext env baseName groupName processNum numprocs) template
          "process_name"
    | none => return s!"{baseName}:{processNum}"

/-- Store a resolved instance; a name that is taken is an error. -/
def insertInstance (resolved : ProgramConfigs) (instanceName : String) (prog : ProgramConfig)
    (message : String) : Except ProgramError ProgramConfigs :=
  if instanceName ∈ resolved then throw (.configError message)
  else return resolved.insert instanceName prog

/-- The group of a program: its own, else the first group that lists it, else its own name. -/
def groupOf (baseName : String) (raw : ProgramConfigRaw) : String :=
  match raw.group with
  | some g => g
  | none =>
      let found := (c.groups.iter env.orders.groups).find? fun e => e.2.programs.contains baseName
      (found.map Prod.fst).getD baseName

/-! ## Programs -/

/-- Phase 1: the instance names of one program section. -/
def addInstances (programInstances : HashMap String (List String))
    (e : String × ProgramConfigRaw) : Except ProgramError (HashMap String (List String)) := do
  let (baseName, raw) := e
  let numprocs := (raw.numprocs <|> c.programDefaults.numprocs).getD 1
  let numprocsStart := (raw.numprocsStart <|> c.programDefaults.numprocsStart).getD 0
  let processNameTemplate := raw.processName <|> c.programDefaults.processName
  let group := c.groupOf env baseName raw
  let instances ← c.instanceNames env baseName group numprocs numprocsStart processNameTemplate
  return programInstances.insert baseName instances

/-- The log settings of a program instance. -/
def resolveLogs (vars : HashMap String String) (instanceName : String) (raw : ProgramConfigRaw) :
    Except ProgramError ProgramLogsConfig := do
  let inherited {α : Type} (field : ProgramLogsConfigRaw → Option α) : Option α :=
    (raw.logs.bind field) <|> (c.programDefaults.logs.bind field)
  let enabled := (inherited (·.enabled)).getD .on
  let stdout ←
    match inherited (·.stdout) with
    | some rawStdout => env.evalOption vars (some rawStdout) "stdout_logfile"
    | none =>
        if enabled = .on then pure (some (env.defaultProgramLogPath c.configDir instanceName))
        else pure none
  let stderr ← env.evalOption vars (inherited (·.stderr)) "stderr_logfile"
  return {
    enabled := enabled
    stdout := stdout
    stderr := stderr
    bufferSize := inherited (·.bufferSize)
    maxBytes := inherited (·.maxBytes)
    backups := inherited (·.backups)
    stdoutMaxBytes := inherited (·.stdoutMaxBytes)
    stderrMaxBytes := inherited (·.stderrMaxBytes)
    stdoutBackups := inherited (·.stdoutBackups)
    stderrBackups := inherited (·.stderrBackups)
    stdoutTimestampSuffix := (inherited (·.stdoutTimestampSuffix)).getD false
    stderrTimestampSuffix := (inherited (·.stderrTimestampSuffix)).getD false
    stdoutSyslog := (inherited (·.stdoutSyslog)).getD false
    stderrSyslog := (inherited (·.stderrSyslog)).getD false
    syslogFacility := inherited (·.syslogFacility)
    syslogTag := inherited (·.syslogTag)
    syslogStdoutPriority := inherited (·.syslogStdoutPriority)
    syslogStderrPriority := inherited (·.syslogStderrPriority)
    redirectStderr := (inherited (·.redirectStderr)).getD false
    -- The event switches fall back to the program section, not to the defaults.
    stdoutEventsEnabled :=
      ((raw.logs.bind (·.stdoutEventsEnabled)) <|> raw.stdoutEventsEnabled).getD false
    stderrEventsEnabled :=
      ((raw.logs.bind (·.stderrEventsEnabled)) <|> raw.stderrEventsEnabled).getD false }

/-- The health check of a program instance. -/
def resolveHealthCheck (vars : HashMap String String) (raw : ProgramConfigRaw) :
    Except ProgramError (Option HealthCheckConfig) :=
  match raw.healthCheck <|> c.programDefaults.healthCheck with
  | none => return none
  | some hc =>
      match hc.checkType with
      | .http url expectedStatus => do
          let url ← env.eval vars url "health_check.http.url"
          return some { hc with checkType := .http url expectedStatus }
      | .tcp endpoint => do
          let endpoint ← env.eval vars endpoint "health_check.tcp.endpoint"
          return some { hc with checkType := .tcp endpoint }
      | .exec command => do
          let command ← env.eval vars command "health_check.exec.command"
          return some { hc with checkType := .exec command }

/-- Phase 2, for one instance: its resolved configuration. -/
def resolveInstance (baseName : String) (raw : ProgramConfigRaw) (group : String)
    (priority : ℕ) (dependsOn : List String) (instanceName : String)
    (processNum numprocs : ℕ) : Except ProgramError ProgramConfig := do
  let defaults := c.programDefaults
  let vars := c.programContext env baseName group processNum numprocs
  let vars := seedEnvironment vars (c.environment.iter env.orders.environment)
  let vars := seedEnvironment vars
    (raw.environment.iter (env.orders.programEnvironment baseName))
  let (command, args) ← env.commandAndArgs vars raw.command raw.args
  let directory ← env.evalOption vars raw.directory "directory"
  let environment ← env.evalEnvironment vars (fun _ => "environment")
    (raw.environment.iter (env.orders.programEnvironment baseName))
  let logs ← c.resolveLogs env vars instanceName raw
  let healthCheck ← c.resolveHealthCheck env vars raw
  let preStart ← env.evalOption vars (raw.preStart <|> defaults.preStart) "pre_start"
  let preStop ← env.evalOption vars (raw.preStop <|> defaults.preStop) "pre_stop"
  let restartCmdWhenBinaryChanged ← env.evalOption vars
    (raw.restartCmdWhenBinaryChanged <|> defaults.restartCmdWhenBinaryChanged)
    "restart_cmd_when_binary_changed"
  let restartDirectoryMonitor ← env.evalOption vars
    (raw.restartDirectoryMonitor <|> defaults.restartDirectoryMonitor)
    "restart_directory_monitor"
  let restartCmdWhenFileChanged ← env.evalOption vars
    (raw.restartCmdWhenFileChanged <|> defaults.restartCmdWhenFileChanged)
    "restart_cmd_when_file_changed"
  let stopAsGroup := (raw.stopAsGroup <|> defaults.stopAsGroup).getD false
  let killAsGroup := (raw.killAsGroup <|> defaults.killAsGroup).getD stopAsGroup
  if stopAsGroup && !killAsGroup then
    throw (.configError
      s!"Program '{baseName}' cannot set stop_as_group=true and kill_as_group=false")
  return {
    name := instanceName
    command := command
    args := args
    directory := directory
    user := raw.user
    environment := environment
    priority := priority
    dependsOn := dependsOn
    autostart := (raw.autostart <|> defaults.autostart).getD raw.cron.isNone
    autorestart := (raw.autorestart <|> defaults.autorestart).getD .unexpected
    startSecs := (raw.startSecs <|> defaults.startSecs).getD defaultStart
    startRetries := (raw.startRetries <|> defaults.startRetries).getD defaultStartRetries
    restartPauseSecs :=
      (raw.restartPauseSecs <|> defaults.restartPauseSecs).getD defaultRestartPause
    stopSignal := (raw.stopSignal <|> defaults.stopSignal).getD env.defaultStopSignal
    stopWaitSecs := (raw.stopWaitSecs <|> defaults.stopWaitSecs).getD defaultStopWait
    exitCodes := raw.exitCodes.getD defaultExitCodes
    umask := raw.umask
    logs := logs
    healthCheck := healthCheck
    group := group
    groupPriority := ((c.groups.lookup group).bind (·.priority)).getD defaultGroupPriority
    cron := raw.cron
    cronStop := raw.cronStop
    preStart := preStart
    preStop := preStop
    preStartIgnoreFailure :=
      (raw.preStartIgnoreFailure <|> defaults.preStartIgnoreFailure).getD false
    hookTimeoutSecs :=
      (raw.hookTimeoutSecs <|> defaults.hookTimeoutSecs).getD defaultHookTimeout
    restartWhenBinaryChanged :=
      (raw.restartWhenBinaryChanged <|> defaults.restartWhenBinaryChanged).getD false
    restartSignalWhenBinaryChanged :=
      raw.restartSignalWhenBinaryChanged <|> defaults.restartSignalWhenBinaryChanged
    restartCmdWhenBinaryChanged := restartCmdWhenBinaryChanged
    restartDirectoryMonitor := restartDirectoryMonitor
    restartFilePattern := raw.restartFilePattern <|> defaults.restartFilePattern
    restartSignalWhenFileChanged :=
      raw.restartSignalWhenFileChanged <|> defaults.restartSignalWhenFileChanged
    restartCmdWhenFileChanged := restartCmdWhenFileChanged
    restartDebounceSecs :=
      (raw.restartDebounceSecs <|> defaults.restartDebounceSecs).getD defaultRestartDebounce
    envFiles := (raw.envFiles <|> defaults.envFiles).getD []
    killWaitSecs := (raw.killWaitSecs <|> defaults.killWaitSecs).getD defaultKillWait
    stopAsGroup := stopAsGroup
    killAsGroup := killAsGroup
    eventListener := none }

/-- The dependencies of a program: a name with several instances stands for all of them. -/
def expandDependsOn (programInstances : HashMap String (List String)) (dependsOn : List String) :
    List String :=
  dependsOn.flatMap fun dep => (programInstances.lookup dep).getD [dep]

/-- Phase 2: the instances of one program section. -/
def resolveProgram (programInstances : HashMap String (List String)) (resolved : ProgramConfigs)
    (e : String × ProgramConfigRaw) : Except ProgramError ProgramConfigs := do
  let (baseName, raw) := e
  let numprocs := (raw.numprocs <|> c.programDefaults.numprocs).getD 1
  let numprocsStart := (raw.numprocsStart <|> c.programDefaults.numprocsStart).getD 0
  let priority := (raw.priority <|> c.programDefaults.priority).getD defaultPriority
  if priority > maxPriority then
    throw (.configError
      s!"Program '{baseName}' priority {priority} must be in range [0, 999]")
  let group := c.groupOf env baseName raw
  let dependsOn := expandDependsOn programInstances raw.dependsOn
  let instances := (programInstances.lookup baseName).getD []
  instances.zipIdx.foldlM (fun resolved e => do
    let (instanceName, idx) := e
    let prog ← c.resolveInstance env baseName raw group priority dependsOn instanceName
      (numprocsStart + idx) numprocs
    insertInstance resolved instanceName prog
      s!"Duplicate program instance name '{instanceName}' produced during expansion") resolved

/-! ## Event listeners -/

/-- Phase 3, for one instance: its resolved configuration. The listener is its own group and
pool. -/
def resolveListenerInstance (listenerName : String) (raw : EventListenerConfigRaw)
    (instanceName : String) (processNum numprocs : ℕ) : Except ProgramError ProgramConfig := do
  let group := listenerName
  let vars := c.programContext env listenerName group processNum numprocs
  let vars := seedEnvironment vars (c.environment.iter env.orders.environment)
  let vars := seedEnvironment vars
    (raw.environment.iter (env.orders.listenerEnvironment listenerName))
  let (command, args) ← env.commandAndArgs vars raw.command raw.args
  let directory ← env.evalOption vars raw.directory "directory"
  let environment ← env.evalEnvironment vars (fun k => s!"environment.{k}")
    (raw.environment.iter (env.orders.listenerEnvironment listenerName))
  let stderr ← env.evalOption vars raw.stderrLogfile "stderr_logfile"
  let stopAsGroup := raw.stopAsGroup.getD false
  let killAsGroup := raw.killAsGroup.getD stopAsGroup
  if stopAsGroup && !killAsGroup then
    throw (.configError
      s!"Event listener '{listenerName}' cannot set stop_as_group=true and kill_as_group=false")
  return {
    name := instanceName
    command := command
    args := args
    directory := directory
    user := raw.user
    environment := environment
    priority := raw.priority.toNat
    dependsOn := []
    autostart := raw.autostart.getD true
    autorestart := raw.autorestart.getD .unexpected
    startSecs := raw.startSecs.getD defaultStart
    startRetries := raw.startRetries.getD defaultStartRetries
    stopSignal := raw.stopSignal.getD env.defaultStopSignal
    stopWaitSecs := raw.stopWaitSecs.getD defaultStopWait
    umask := raw.umask
    logs := { stderr := stderr }
    group := group
    groupPriority := 0
    envFiles := raw.envFiles.getD []
    stopAsGroup := stopAsGroup
    killAsGroup := killAsGroup
    eventListener := some (.new listenerName raw.events raw.bufferSize raw.resultHandler) }

/-- Phase 3: the instances of one event listener section. -/
def resolveEventListener (resolved : ProgramConfigs) (e : String × EventListenerConfigRaw) :
    Except ProgramError ProgramConfigs := do
  let (listenerName, raw) := e
  let numprocs := raw.numprocs.getD 1
  let numprocsStart := raw.numprocsStart.getD 0
  let instances ← c.instanceNames env listenerName listenerName numprocs numprocsStart
    raw.processName
  instances.zipIdx.foldlM (fun resolved e => do
    let (instanceName, idx) := e
    let prog ← c.resolveListenerInstance env listenerName raw instanceName
      (numprocsStart + idx) numprocs
    insertInstance resolved instanceName prog
      s!"Duplicate program/eventlistener instance name '{instanceName}'") resolved

/-! ## Log files -/

/-- A stream that writes to a file. -/
structure FileStream where
  /-- The path as its destination has it. -/
  path : String
  stream : String
  isRotating : Bool
  deriving DecidableEq, Repr

/-- The streams by file. Paths with the same components are the same key. -/
abbrev FileStreams := HashMap (List UnixPath.Component) (List FileStream)

/-- Register a stream under the files of its destination. -/
def addStream (streams : FileStreams) (destination : Option String) (stream : String)
    (isRotating : Bool) : FileStreams :=
  let files := (destination.bind env.destinationFiles).getD []
  files.foldl
    (fun streams file => streams.push (UnixPath.components file) ⟨file, stream, isRotating⟩) streams

/-- Register the streams of a resolved program. -/
def addProgramStreams (streams : FileStreams) (e : String × ProgramConfig) : FileStreams :=
  let (progName, prog) := e
  if prog.logs.isEnabled then
    let streams := addStream env streams prog.logs.stdout s!"{progName}:stdout"
      (decide (prog.logs.effectiveStdoutMaxBytes > 0))
    if prog.logs.redirectStderr then streams
    else addStream env streams prog.logs.stderr s!"{progName}:stderr"
      (decide (prog.logs.effectiveStderrMaxBytes > 0))
  else streams

/-- The streams of the daemon and of the resolved programs, by file. -/
def fileStreams (resolved : ProgramConfigs) : FileStreams :=
  let streams := addStream env ∅ c.logging.file "daemon:main"
    (decide (c.logging.maxBytes.getD defaultLogMaxBytes > 0))
  (resolved.iter env.orders.resolved).foldl (addProgramStreams env) streams

/-- Phase 4: a file with several streams, one of which rotates, is an error. -/
def checkLogFiles (resolved : ProgramConfigs) : Except ProgramError Unit :=
  let streams := (c.fileStreams env resolved).iter env.orders.fileStreams
  match streams.find? fun e => decide (e.2.length > 1) && e.2.any FileStream.isRotating with
  | some (_, streams) =>
      -- The map keeps the key that was inserted first.
      let path := (streams.head?.map FileStream.path).getD ""
      let names := env.debugNames (streams.map FileStream.stream)
      .error (.configError (s!"Duplicate log file path '{path}' configured for multiple streams " ++
        s!"({names}) with rotation enabled. " ++
        "Set 'redirect_stderr: true' to combine stdout and stderr, or configure distinct " ++
        "log paths to avoid competing rotators."))
  | none => .ok ()

/-- `resolve_programs`. -/
def resolvePrograms : Except ProgramError ProgramConfigs := do
  let programInstances ← (c.programs.iter env.orders.programs).foldlM (c.addInstances env) ∅
  let resolved ← (c.programs.iter env.orders.programs).foldlM
    (c.resolveProgram env programInstances) ∅
  let resolved ← (c.eventListeners.iter env.orders.eventListeners).foldlM
    (c.resolveEventListener env) resolved
  c.checkLogFiles env resolved
  return resolved

end SupervisorConfig

/-! ## Plain configurations -/

/-- The iteration orders in which the maps are stored. -/
def ResolveOrders.stored : ResolveOrders where
  programs := .stored
  groups := .stored
  environment := .stored
  programEnvironment _ := .stored
  eventListeners := .stored
  listenerEnvironment _ := .stored
  resolved := .stored
  fileStreams := .stored

/-- An environment for plain configurations: no text contains an expression, a command line is one
word that may be quoted, and a log destination is one file. -/
def ResolveEnv.plain : ResolveEnv where
  orders := .stored
  defaultVars := ∅
  evalNamed _ text _ := .ok text
  splitCommandLine text := .ok [.ofList (text.toList.filter (· ≠ '"'))]
  defaultProgramLogPath _ name := "logs/" ++ name ++ ".log"
  destinationFiles path := some [path]
  defaultStopSignal := .term
  debugNames names := toString names

/-- A database and a web server with one dependency. -/
def siteConfig (webCommand dependency : String) : SupervisorConfig where
  programs := HashMap.extend ∅
    [("db", { command := "postgres" }),
      ("web", { command := webCommand, dependsOn := [dependency] })]

end Rsupervisord
