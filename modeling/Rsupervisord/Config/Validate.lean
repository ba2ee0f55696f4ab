import Rsupervisord.Logging.Destination
import Rsupervisord.Manager.Cron
import Rsupervisord.Program.Timeouts

/-!
# Checking a configuration

`SupervisorConfig::validate`, the check that a parsed configuration passes before it is used. The
check of the socket mode, which never fails, is left out, and so are the checks that only a build
for Windows makes.
-/

namespace Rsupervisord

/-- What the check reads from outside. -/
structure ValidateEnv where
  croner : Croner
  /-- `str::to_uppercase`. -/
  toUppercase : String → String
  /-- The iteration orders of the hash maps. -/
  programs : HashOrder String
  groups : HashOrder String
  eventListeners : HashOrder String

/-! ## Names -/

/-- `KNOWN_EVENT_TYPES`. -/
def knownEventTypes : List String :=
  ["EVENT", "PROCESS_STATE", "PROCESS_STATE_STARTING", "PROCESS_STATE_RUNNING",
    "PROCESS_STATE_BACKOFF", "PROCESS_STATE_STOPPING", "PROCESS_STATE_EXITED",
    "PROCESS_STATE_STOPPED", "PROCESS_STATE_FATAL", "PROCESS_STATE_UNKNOWN", "PROCESS_LOG",
    "PROCESS_LOG_STDOUT", "PROCESS_LOG_STDERR", "PROCESS_COMMUNICATION",
    "PROCESS_COMMUNICATION_STDOUT", "PROCESS_COMMUNICATION_STDERR", "REMOTE_COMMUNICATION", "TICK",
    "TICK_5", "TICK_60", "TICK_3600", "PROCESS_GROUP", "PROCESS_GROUP_ADDED",
    "PROCESS_GROUP_REMOVED", "SUPERVISOR_STATE_CHANGE", "SUPERVISOR_STATE_CHANGE_RUNNING",
    "SUPERVISOR_STATE_CHANGE_STOPPING"]

/-- `is_valid_event_type`: a known name in any letter case. -/
def isValidEventType (name : String) : Bool :=
  knownEventTypes.any fun known => Text.toAsciiLowercase known == Text.toAsciiLowercase name

/-- `validate_event_list`. -/
def validateEventList (events : List String) : Except ProgramError Unit := do
  if events.isEmpty then
    throw (.configError
      "Event listener must declare at least one event subscription in 'events'")
  events.forM fun event => do
    let clean := Text.toAsciiUppercase (Text.trim event)
    if clean.isEmpty || !isValidEventType clean then
      throw (.configError s!"Unknown supervisor event type '{event}'")

/-- The names of syslog facilities. -/
def syslogFacilities : List String :=
  ["KERN", "USER", "MAIL", "DAEMON", "AUTH", "SYSLOG", "LPR", "NEWS", "UUCP", "CRON", "AUTHPRIV",
    "FTP", "LOCAL0", "LOCAL1", "LOCAL2", "LOCAL3", "LOCAL4", "LOCAL5", "LOCAL6", "LOCAL7"]

/-- The names of syslog severities. -/
def syslogSeverities : List String :=
  ["EMERG", "EMERGENCY", "ALERT", "CRIT", "CRITICAL", "ERR", "ERROR", "WARN", "WARNING", "NOTICE",
    "INFO", "DEBUG"]

/-- `SyslogFacility::from_str` and `SyslogSeverity::from_str`, of which only the outcome is used:
one of the names, in any letter case and with or without the prefix of the C constants. -/
def parseSyslogName (toUppercase : String → String) (names : List String) (message : String)
    (s : String) : Except ProgramError Unit :=
  let clean := toUppercase (Text.trim s)
  if ((Text.stripPrefix "LOG_" clean).getD clean) ∈ names then .ok ()
  else .error (.configError message)

/-- `SyslogFacility::from_str`. -/
def parseSyslogFacility (toUppercase : String → String) (s : String) : Except ProgramError Unit :=
  parseSyslogName toUppercase syslogFacilities
    (s!"Invalid syslog facility '{s}'. Supported: KERN, USER, MAIL, DAEMON, AUTH, SYSLOG, LPR, " ++
      "NEWS, UUCP, CRON, AUTHPRIV, FTP, LOCAL0..LOCAL7") s

/-- `SyslogSeverity::from_str`. -/
def parseSyslogSeverity (toUppercase : String → String) (s : String) : Except ProgramError Unit :=
  parseSyslogName toUppercase syslogSeverities
    (s!"Invalid syslog severity '{s}'. Supported: EMERG, ALERT, CRIT, ERR, WARNING, NOTICE, " ++
      "INFO, DEBUG") s

namespace SupervisorConfig

variable (c : SupervisorConfig) (env : ValidateEnv)

/-! ## Sections -/

/-- Check an optional value; a failure is reported for the program. -/
def checkLogSetting (name : String) (parse : String → Except ProgramError Unit)
    (value : Option String) : Except ProgramError Unit :=
  match value with
  | some value => (parse value).mapError fun e => .configError s!"Program '{name}': {e.display}"
  | none => .ok ()

/-- `validate_dest`: the destination of one stream. -/
def checkDestination (name stream : String) (path : Option String) : Except ProgramError Unit :=
  match path with
  | some path =>
      match LogDestination.parse path with
      | .ok _ => .ok ()
      | .error e => .error (.configError
          s!"Program '{name}' invalid {stream} log destination '{path}': {e.display}")
  | none => .ok ()

/-- The log settings of a program section. -/
def validateLogs (name : String) (raw : ProgramConfigRaw) : Except ProgramError Unit := do
  let inherited (field : ProgramLogsConfigRaw → Option String) : Option String :=
    (raw.logs.bind field) <|> (c.programDefaults.logs.bind field)
  checkLogSetting name (parseSyslogFacility env.toUppercase) (inherited (·.syslogFacility))
  checkLogSetting name (parseSyslogSeverity env.toUppercase) (inherited (·.syslogStdoutPriority))
  checkLogSetting name (parseSyslogSeverity env.toUppercase) (inherited (·.syslogStderrPriority))
  checkDestination name "stdout" (inherited (·.stdout))
  checkDestination name "stderr" (inherited (·.stderr))

/-- One program section. -/
def validateProgram (e : String × ProgramConfigRaw) : Except ProgramError Unit := do
  let (name, raw) := e
  if (Text.trim raw.command).isEmpty then
    throw (.configError s!"Program '{name}' command cannot be empty")
  let priority := (raw.priority <|> c.programDefaults.priority).getD defaultPriority
  if priority > maxPriority then
    throw (.configError s!"Program '{name}' priority {priority} must be in range [0, 999]")
  let stopWait := (raw.stopWaitSecs <|> c.programDefaults.stopWaitSecs).getD defaultStopWait
  if stopWait > maxTimeout then
    throw (.configError
      s!"Program '{name}' stop_wait_secs {stopWait.asSecs} exceeds maximum 86400")
  validateCron env.croner name raw.cron
  validateCron env.croner name raw.cronStop
  let numprocs := (raw.numprocs <|> c.programDefaults.numprocs).getD 1
  if numprocs = 0 then
    throw (.configError s!"Program '{name}' numprocs must be greater than 0")
  if numprocs > 1 then
    match raw.processName <|> c.programDefaults.processName with
    | some template =>
        if ¬ "process_num".toList <:+: template.toList then
          throw (.configError (s!"Program '{name}' with numprocs > 1 specifies process_name " ++
            s!"'{template}' which does not contain 'process_num'"))
    | none => pure ()
  c.validateLogs env name raw

/-- The log destination of the daemon. -/
def validateDaemonLog : Except ProgramError Unit :=
  match c.logging.file with
  | some file =>
      match LogDestination.parse file with
      | .ok _ => .ok ()
      | .error e => .error (.configError
          s!"Invalid daemon log destination '{file}': {e.display}")
  | none => .ok ()

/-- One group section. -/
def validateGroup (e : String × GroupConfigRaw) : Except ProgramError Unit := do
  let (groupName, group) := e
  if group.priority.any (· > maxPriority) then
    let p := group.priority.getD 0
    throw (.configError s!"Group '{groupName}' priority {p} must be in range [0, 999]")
  group.programs.forM fun prog => do
    if prog ∉ c.programs then
      throw (.configError s!"Group '{groupName}' references unknown program '{prog}'")

/-- One event listener section. -/
def validateEventListener (e : String × EventListenerConfigRaw) : Except ProgramError Unit := do
  let (listenerName, listener) := e
  if (Text.trim listener.command).isEmpty then
    throw (.configError s!"EventListener '{listenerName}' command cannot be empty")
  validateEventList listener.events
  if listener.bufferSize < 1 then
    throw (.configError s!"EventListener '{listenerName}' buffer_size must be >= 1")
  if listener.redirectStderr = some true then
    throw (.configError (s!"EventListener '{listenerName}' redirect_stderr cannot be true " ++
      "(violates wire protocol)"))

/-- `validate`. -/
def validate : Except ProgramError Unit := do
  (c.programs.iter env.programs).forM (c.validateProgram env)
  c.validateDaemonLog
  (c.groups.iter env.groups).forM c.validateGroup
  (c.eventListeners.iter env.eventListeners).forM validateEventListener

end SupervisorConfig

/-- An environment in which every cron expression parses and only ASCII letters have two cases. -/
def ValidateEnv.plain : ValidateEnv where
  croner := ⟨fun _ => .ok (), fun _ _ => none⟩
  toUppercase := Text.toAsciiUppercase
  programs := .stored
  groups := .stored
  eventListeners := .stored

end Rsupervisord
