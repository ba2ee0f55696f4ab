import Rsupervisord.Config.Resolve
import Rsupervisord.Config.Transform

/-!
# Translating a configuration

`translate_paths`: every string of a configuration that is loaded is expanded leniently, and with
path translation its paths and commands are made absolute. The source walks over the serialized
configuration and classifies a string by the section and the key that it is found under; here each
section has its own pass, with the kind of each of its strings.

The way to JSON and back, which changes no other value, is left out, and so are the strings of
enumerations, which have no macros, and the keys of the maps, which are not expanded.
-/

namespace Rsupervisord

/-- What the strings of a configuration are translated with. -/
structure Translation where
  /-- `split_command_line` of the platform. -/
  split : String → Except String (List String)
  /-- The variables of the process environment. -/
  osEnv : String → Option String
  /-- The variables of the string expressions. -/
  vars : HashMap String String
  ctx : Transform.Ctx

namespace Translation

variable (t : Translation)

/-- `translate_string`. -/
def string (kind : Transform.Kind) (s : String) : String :=
  Transform.translateString t.split t.osEnv t.vars t.ctx kind s

/-- The strings of a map whose strings are no paths, except for one under the key `pidfile`. -/
def environment (m : HashMap String String) : HashMap String String :=
  m.mapValues fun key value => t.string (if key = "pidfile" then .path else .default) value

/-- The log settings of a program. -/
def logs (logs : ProgramLogsConfigRaw) : ProgramLogsConfigRaw :=
  { logs with
    stdout := logs.stdout.map (t.string .path)
    stderr := logs.stderr.map (t.string .path)
    syslogFacility := logs.syslogFacility.map (t.string .default)
    syslogTag := logs.syslogTag.map (t.string .default)
    syslogStdoutPriority := logs.syslogStdoutPriority.map (t.string .default)
    syslogStderrPriority := logs.syslogStderrPriority.map (t.string .default) }

/-- A health check, which is in a program section: its command is one. -/
def checkType : HealthCheckType → HealthCheckType
  | .http url expectedStatus => .http (t.string .default url) expectedStatus
  | .tcp endpoint => .tcp (t.string .default endpoint)
  | .exec command => .exec (t.string .command command)

/-- The settings of a health check. -/
def healthCheck (check : HealthCheckConfig) : HealthCheckConfig :=
  { check with checkType := t.checkType check.checkType }

/-- The section `program_defaults`. -/
def programDefaults (defaults : ProgramDefaults) : ProgramDefaults :=
  { defaults with
    logs := defaults.logs.map t.logs
    healthCheck := defaults.healthCheck.map t.healthCheck
    preStart := defaults.preStart.map (t.string .default)
    preStop := defaults.preStop.map (t.string .default)
    processName := defaults.processName.map (t.string .default)
    restartCmdWhenBinaryChanged := defaults.restartCmdWhenBinaryChanged.map (t.string .default)
    restartDirectoryMonitor := defaults.restartDirectoryMonitor.map (t.string .path)
    restartFilePattern := defaults.restartFilePattern.map (t.string .default)
    restartCmdWhenFileChanged := defaults.restartCmdWhenFileChanged.map (t.string .default)
    envFiles := defaults.envFiles.map (List.map (t.string .path)) }

/-- A section of `programs`. -/
def program (raw : ProgramConfigRaw) : ProgramConfigRaw :=
  { raw with
    command := t.string .command raw.command
    args := raw.args.map (t.string .default)
    directory := raw.directory.map (t.string .path)
    user := raw.user.map (t.string .default)
    environment := t.environment raw.environment
    dependsOn := raw.dependsOn.map (t.string .default)
    logs := raw.logs.map t.logs
    healthCheck := raw.healthCheck.map t.healthCheck
    group := raw.group.map (t.string .default)
    cron := raw.cron.map (t.string .default)
    cronStop := raw.cronStop.map (t.string .default)
    preStart := raw.preStart.map (t.string .default)
    preStop := raw.preStop.map (t.string .default)
    processName := raw.processName.map (t.string .default)
    restartCmdWhenBinaryChanged := raw.restartCmdWhenBinaryChanged.map (t.string .default)
    restartDirectoryMonitor := raw.restartDirectoryMonitor.map (t.string .path)
    restartFilePattern := raw.restartFilePattern.map (t.string .default)
    restartCmdWhenFileChanged := raw.restartCmdWhenFileChanged.map (t.string .default)
    envFiles := raw.envFiles.map (List.map (t.string .path)) }

/-- A section of `event_listeners`. -/
def eventListener (raw : EventListenerConfigRaw) : EventListenerConfigRaw :=
  { raw with
    command := t.string .command raw.command
    args := raw.args.map (t.string .default)
    events := raw.events.map (t.string .default)
    resultHandler := t.string .default raw.resultHandler
    processName := raw.processName.map (t.string .default)
    directory := raw.directory.map (t.string .path)
    user := raw.user.map (t.string .default)
    environment := t.environment raw.environment
    stderrLogfile := raw.stderrLogfile.map (t.string .path)
    envFiles := raw.envFiles.map (List.map (t.string .path)) }

/-- A section of `groups`. -/
def group (raw : GroupConfigRaw) : GroupConfigRaw :=
  { raw with programs := raw.programs.map (t.string .default) }

/-- The section `logging`. -/
def logging (logging : LoggingConfig) : LoggingConfig :=
  { logging with
    file := logging.file.map (t.string .path)
    level := t.string .default logging.level }

end Translation

/-- What the loading of a configuration reads from the process and the server section. -/
structure LoadEnv where
  /-- The variables of the process environment. -/
  osEnv : String → Option String
  /-- `server.path_translation`. -/
  pathTranslation : Bool

namespace SupervisorConfig

variable (c : SupervisorConfig) (env : ResolveEnv) (load : LoadEnv)

/-- The variables of the string expressions of a configuration that is loaded: `with_config_dir`, or
`with_defaults` without a directory. -/
def loadVars : HashMap String String :=
  match c.configDir with
  | some dir => env.defaultVars.insert "here" dir
  | none => env.defaultVars

/-- The context of `transform`. -/
def translation : Translation where
  split := env.splitCommandLine
  osEnv := load.osEnv
  vars := c.loadVars env
  ctx := ⟨c.configDir, load.pathTranslation⟩

/-- `translate_paths`. -/
def translatePaths : SupervisorConfig :=
  let t := c.translation env load
  { c with
    identifier := c.identifier.map (t.string .default)
    logging := t.logging c.logging
    programDefaults := t.programDefaults c.programDefaults
    groups := c.groups.mapValues fun _ => t.group
    programs := c.programs.mapValues fun _ => t.program
    eventListeners := c.eventListeners.mapValues fun _ => t.eventListener
    environment := t.environment c.environment }

variable {c env load}

/-- The sections of the programs are translated. -/
theorem lookup_translatePaths (baseName : String) :
    (c.translatePaths env load).programs.lookup baseName =
      (c.programs.lookup baseName).map (c.translation env load).program :=
  HashMap.lookup_mapValues _

end SupervisorConfig

end Rsupervisord
