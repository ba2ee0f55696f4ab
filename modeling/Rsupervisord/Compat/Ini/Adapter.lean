import Rsupervisord.Compat.Ini.Parser
import Rsupervisord.Compat.Ini.Values
import Rsupervisord.Config.SerdeUtil
import Rsupervisord.Config.Validate
import Rsupervisord.Support.Json
import Rsupervisord.Support.UnixPath

/-!
# From INI sections to a configuration tree

`adapt_ini_to_config` turns a parsed INI file into the JSON tree that the configuration is read
from. Tables say which key of a section is entered where in the tree and how its text is converted.
What comes after the tree, reading it as a configuration and the checks, is not part of this module,
nor are the warnings about unknown keys.

## Main definitions

* `Transform.apply`: the conversion of a text.
* `applyMappings`: enter the settings of a section into a tree by a table.
* `programTree`, `groupTree`, `eventListenerTree`: the trees of the sections with a name.
* `adaptIniTree`: the tree of a file.
-/

namespace Rsupervisord

namespace Ini

/-- What the conversions read from outside. -/
structure AdapterEnv where
  numbers : TextNumbers
  /-- The working directory. -/
  cwd : String
  /-- `StopSignal::to_string`. -/
  signalName : StopSignal → String

/-! ## Names of settings -/

/-- The names that `StopSignal::from_str` knows. -/
def stopSignalNames : StopSignal → List String
  | .term => ["TERM", "SIGTERM", "sigterm", "term"]
  | .int => ["INT", "SIGINT", "sigint", "int"]
  | .quit => ["QUIT", "SIGQUIT", "sigquit", "quit"]
  | .kill => ["KILL", "SIGKILL", "sigkill", "kill"]
  | .hup => ["HUP", "SIGHUP", "sighup", "hup"]
  | .ctrlBreak => ["CTRL_BREAK", "ctrl_break", "ctrlbreak", "CTRLBREAK"]
  | .ctrlC => ["CTRL_C", "ctrl_c", "ctrlc", "CTRLC"]

/-- `parse_stop_signal`. -/
def parseStopSignal (s : String) : Except ProgramError StopSignal :=
  let trimmed := Text.trim s
  let signals : List StopSignal := [.term, .int, .quit, .kill, .hup, .ctrlBreak, .ctrlC]
  match signals.find? fun signal => trimmed ∈ stopSignalNames signal with
  | some signal => .ok signal
  | none => .error (.configError s!"Invalid stop signal '{trimmed}'")

/-- `parse_autorestart`. The names that `AutoRestartPolicy::from_str` knows are among those that are
looked for before. -/
def parseAutorestart (s : String) : Except ProgramError AutoRestartPolicy :=
  let trimmed := Text.trim s
  if ["false", "no", "never", "0"].any (Text.eqIgnoreAsciiCase trimmed) then .ok .never
  else if ["true", "yes", "always", "1"].any (Text.eqIgnoreAsciiCase trimmed) then .ok .always
  else if Text.eqIgnoreAsciiCase trimmed "unexpected" then .ok .unexpected
  else .error (.configError s!"Invalid autorestart policy '{trimmed}'")

/-- The name of a policy in the tree. -/
def autoRestartName : AutoRestartPolicy → String
  | .always => "always"
  | .unexpected => "unexpected"
  | .never => "never"

/-- The texts for a log that is kept in memory. -/
def memoryLogSpecs : List String := ["memory", "in_memory", "in_memory_only"]

/-- `is_in_memory_log_spec`. -/
def isInMemoryLogSpec (val : String) : Bool := memoryLogSpecs.any (Text.eqIgnoreAsciiCase val)

/-- `parse_log_path`. -/
def parseLogPath (s : String) : Option String :=
  let trimmed := Text.trim s
  if trimmed = "" ∨ Text.eqIgnoreAsciiCase trimmed "AUTO" ∨ isInMemoryLogSpec trimmed then none
  else if ["NONE", "OFF", "NULL"].any (Text.eqIgnoreAsciiCase trimmed) ∨ trimmed = "/dev/null" then
    some "/dev/null"
  else some trimmed

/-- `resolve_env_files`, for one file. -/
def resolveEnvFile (env : AdapterEnv) (configDir : Option String) (p : String) : String :=
  if UnixPath.isAbsolute p then p
  else
    match configDir with
    | some dir => UnixPath.absNorm env.cwd (UnixPath.join dir p)
    | none => UnixPath.absNorm env.cwd p

/-- The events of a listener as they are written, in capital letters. -/
def eventNames (raw : String) : List String :=
  ((raw.toList.splitOnP fun c => c = ',' || c = ' ' || c = '\t').map fun item =>
    Text.toAsciiUppercase (Text.trim (.ofList item))).filter (· ≠ "")

/-! ## Conversions -/

/-- How the text of a key is converted. -/
inductive Transform
  | identity
  | lowercase
  | bool
  | usize
  | u32
  | i32
  | durationSecs
  | byteSize
  | chmod
  | umask
  | stringList
  | eventList
  | i32List
  | environment
  | logPath
  | stopSignal
  | autoRestart
  | envFiles
  | httpBind
  deriving DecidableEq, Repr

/-- `transform_value!`: a failure is reported with the key. -/
def transformValue (context key : String) (value : Except String Json) :
    Except ProgramError (Option Json) :=
  match value with
  | .ok json => .ok (some json)
  | .error e => .error (.configError s!"{context} {key}: {e}")

/-- A result with the text of its error. -/
def displayed {α : Type} (value : Except ProgramError α) : Except String α :=
  value.mapError ProgramError.display

/-- A list of texts as JSON. -/
def strings (items : List String) : Json := .arr (items.map .str)

/-- `Transform::apply`. -/
def Transform.apply (env : AdapterEnv) (t : Transform) (raw key context : String)
    (configDir : Option String) : Except ProgramError (Option Json) :=
  let value := transformValue context key
  match t with
  | .identity => .ok (some (.str raw))
  | .lowercase => .ok (some (.str (Text.toAsciiLowercase (Text.trim raw))))
  | .bool => value ((displayed (stringToBool raw)).map .bool)
  | .usize => value ((Text.parseRadix 10 usizeBound (Text.trim raw)).map fun n => .num n)
  | .u32 => value ((Text.parseRadix 10 (2 ^ 32) (Text.trim raw)).map fun n => .num n)
  | .i32 => value ((Text.parseSigned (-2 ^ 31) (2 ^ 31 - 1) (Text.trim raw)).map .num)
  | .durationSecs => value ((displayed (stringToDuration raw)).map fun n => .num n)
  | .byteSize => value ((displayed (stringToBytes env.numbers raw)).map fun n => .num n)
  | .chmod => value ((displayed (stringToChmod raw)).map fun n => .num n)
  | .umask => value ((displayed (stringToUmask raw)).map fun n => .num n)
  | .stringList => .ok (some (strings (stringToStrList raw)))
  | .eventList => do
      validateEventList (eventNames raw)
      return some (strings (eventNames raw))
  | .i32List => value ((displayed (stringToI32List raw)).map fun codes => .arr (codes.map .num))
  | .environment =>
      (Environment.parseEnvironment raw).map fun vars =>
        some (.obj (vars.entries.map fun e => (e.1, .str e.2)))
  | .logPath => .ok ((parseLogPath raw).map .str)
  | .stopSignal => value ((displayed (parseStopSignal raw)).map fun s => .str (env.signalName s))
  | .autoRestart => value ((displayed (parseAutorestart raw)).map fun p => .str (autoRestartName p))
  | .envFiles =>
      .ok (some (strings ((stringToStrList raw).map (resolveEnvFile env configDir))))
  | .httpBind => .ok (some (.str (normalizeHttpBind raw)))

/-- A section: the values by key. -/
abbrev Section := HashMap String String

/-- The keys of a setting, its place in the tree and its conversion. -/
structure FieldMapping where
  srcKeys : List String
  dstPath : String
  transform : Transform
  deriving DecidableEq, Repr

/-- A setting whose place has the name of its key. -/
def FieldMapping.same (key : String) (transform : Transform) : FieldMapping :=
  ⟨[key], key, transform⟩

/-- The names on the way to the place of a setting. -/
def FieldMapping.path (m : FieldMapping) : List String := Text.split '.' m.dstPath

/-- What an object that `set_json_path` makes begins with. -/
def freshObject (part : String) : Json.Fields :=
  if part = "logs" then [("enabled", .bool true)] else []

/-- `set_json_path`. The root of a tree is an object. -/
def setJsonPath (root : Json.Fields) (path : String) (val : Json) : Json.Fields :=
  Json.setPath freshObject val (Text.split '.' path) root

/-- The setting that the first of its keys in the section gives. -/
def FieldMapping.value (env : AdapterEnv) (sec : Section) (context : String)
    (configDir : Option String) (m : FieldMapping) : Except ProgramError (Option Json) :=
  match m.srcKeys.findSome? fun k => (sec.lookup k).map fun raw => (k, raw) with
  | some (k, raw) => m.transform.apply env raw k context configDir
  | none => .ok none

/-- `apply_mappings`. -/
def applyMappings (env : AdapterEnv) (sec : Section) (mappings : List FieldMapping)
    (target : Json.Fields) (context : String) (configDir : Option String) :
    Except ProgramError Json.Fields :=
  mappings.foldlM (fun target m => do
    match ← m.value env sec context configDir with
    | some val => return setJsonPath target m.dstPath val
    | none => return target) target

/-- `map_section`. -/
def mapSection (env : AdapterEnv) (sec : Section) (mappingGroups : List (List FieldMapping))
    (context : String) (configDir : Option String) : Except ProgramError Json.Fields :=
  mappingGroups.foldlM (fun target mappings =>
    applyMappings env sec mappings target context configDir) []

/-- `require_key`. -/
def requireKey (sec : Section) (key entity name : String) : Except ProgramError Unit :=
  if key ∈ sec then .ok ()
  else .error (.configError s!"{entity} '{name}' missing required '{key}' field")

/-! ## Liveness checks -/

/-- A duration of a liveness check. -/
def livenessDuration (sec : Section) (key context : String) (default : Duration) :
    Except ProgramError Duration :=
  match sec.lookup key with
  | some s =>
      match stringToDuration s with
      | .ok secs => .ok (.fromSecs secs)
      | .error e => .error (.configError s!"{context}: invalid {key}: {e.display}")
  | none => .ok default

/-- `parse_liveness_check`. -/
def parseLivenessCheck (sec : Section) (context : String) :
    Except ProgramError (Option HealthCheckConfig) := do
  if !sec.keys.any fun k => "liveness_check".toList.isPrefixOf k.toList then return none
  match (sec.lookup "liveness_check_script").map Text.trim |>.filter (· ≠ "") with
  | none =>
      throw (.configError
        s!"{context}: liveness_check_* keys require non-empty 'liveness_check_script'")
  | some script =>
      let interval ← livenessDuration sec "liveness_check_period" context (.fromSecs 60)
      let timeout ← livenessDuration sec "liveness_check_timeout" context (.fromSecs 30)
      let initialDelay ←
        livenessDuration sec "liveness_check_initial_delay" context (.fromSecs 60)
      let failureThreshold ← match sec.lookup "liveness_check_failure_threshold" with
        | some s =>
            (Text.parseRadix 10 (2 ^ 32) s).mapError fun e =>
              .configError s!"{context}: invalid liveness_check_failure_threshold: {e}"
        | none => pure 3
      return some {
        checkType := .exec script
        intervalSecs := interval
        timeoutSecs := timeout
        failureThreshold := failureThreshold
        initialDelaySecs := initialDelay }

/-- A health check as JSON. -/
def healthCheckJson (hc : HealthCheckConfig) : Json :=
  .obj ((match hc.checkType with
    | .http url expectedStatus =>
        [("type", .str "http"), ("url", .str url), ("expected_status", .num expectedStatus)]
    | .tcp endpoint => [("type", .str "tcp"), ("endpoint", .str endpoint)]
    | .exec command => [("type", .str "exec"), ("command", .str command)]) ++
    [("interval_secs", .num hc.intervalSecs.asSecs), ("timeout_secs", .num hc.timeoutSecs.asSecs),
      ("failure_threshold", .num hc.failureThreshold),
      ("initial_delay_secs", .num hc.initialDelaySecs.asSecs)])

/-- `attach_liveness_check`. -/
def attachLivenessCheck (sec : Section) (target : Json.Fields) (context : String) :
    Except ProgramError Json.Fields := do
  match ← parseLivenessCheck sec context with
  | some hc => return Json.set "health_check" (healthCheckJson hc) target
  | none => return target

/-! ## Tables -/

/-- `SERVER_UNIX_MAPPINGS`. -/
def serverUnixMappings : List FieldMapping :=
  [⟨["file"], "server.uds_path", .identity⟩, ⟨["chmod"], "server.uds_chmod", .chmod⟩,
    ⟨["username"], "server.uds_username", .identity⟩,
    ⟨["password"], "server.uds_password", .identity⟩]

/-- `SERVER_INET_MAPPINGS`. -/
def serverInetMappings : List FieldMapping :=
  [⟨["port"], "server.http_bind", .httpBind⟩, ⟨["username"], "server.username", .identity⟩,
    ⟨["password"], "server.password", .identity⟩]

/-- `SUPERVISORD_MAPPINGS`. -/
def supervisordMappings : List FieldMapping :=
  [⟨["logfile_maxbytes"], "logging.max_bytes", .byteSize⟩,
    ⟨["logfile_backups"], "logging.backups", .usize⟩,
    ⟨["logfile_timestamp_suffix"], "logging.timestamp_suffix", .bool⟩,
    ⟨["logfile_buffer_size", "buffer_size"], "logging.buffer_size", .byteSize⟩,
    ⟨["loglevel"], "logging.level", .lowercase⟩, ⟨["silent"], "logging.silent", .bool⟩,
    ⟨["identifier"], "server.identifier", .identity⟩, .same "nodaemon" .bool,
    .same "no_color" .bool, .same "environment" .environment, .same "pidfile" .identity,
    .same "minfds" .u32, .same "minprocs" .u32]

/-- `CTL_MAPPINGS`. -/
def ctlMappings : List FieldMapping :=
  [.same "serverurl" .identity, .same "username" .identity, .same "password" .identity,
    .same "auth_token" .identity, .same "no_color" .bool]

/-- `GROUP_MAPPINGS`. -/
def groupMappings : List FieldMapping :=
  [.same "programs" .stringList, .same "priority" .u32]

/-- `PROGRAM_SHARED_MAPPINGS`. -/
def programSharedMappings : List FieldMapping :=
  [.same "autostart" .bool, .same "autorestart" .autoRestart,
    ⟨["startsecs", "start_secs"], "start_secs", .durationSecs⟩,
    ⟨["startretries", "start_retries"], "start_retries", .u32⟩,
    ⟨["restartpause", "restart_pause", "restart_pause_secs"], "restart_pause_secs", .durationSecs⟩,
    ⟨["stopsignal", "stop_signal"], "stop_signal", .stopSignal⟩,
    ⟨["stopwaitsecs", "stop_wait_secs"], "stop_wait_secs", .durationSecs⟩, .same "priority" .u32,
    .same "numprocs" .usize, .same "numprocs_start" .usize, .same "process_name" .identity,
    ⟨["logging", "log_mode"], "logs.enabled", .identity⟩,
    ⟨["buffer_size", "log_buffer_size"], "logs.buffer_size", .byteSize⟩,
    ⟨["stdout_logfile"], "logs.stdout", .logPath⟩, ⟨["stderr_logfile"], "logs.stderr", .logPath⟩,
    ⟨["stdout_logfile_maxbytes", "stdout_logfile_bytes"], "logs.stdout_max_bytes", .byteSize⟩,
    ⟨["stderr_logfile_maxbytes", "stderr_logfile_bytes"], "logs.stderr_max_bytes", .byteSize⟩,
    ⟨["stdout_logfile_backups"], "logs.stdout_backups", .usize⟩,
    ⟨["stderr_logfile_backups"], "logs.stderr_backups", .usize⟩,
    ⟨["stdout_logfile_timestamp_suffix"], "logs.stdout_timestamp_suffix", .bool⟩,
    ⟨["stderr_logfile_timestamp_suffix"], "logs.stderr_timestamp_suffix", .bool⟩,
    ⟨["stdout_syslog"], "logs.stdout_syslog", .bool⟩,
    ⟨["stderr_syslog"], "logs.stderr_syslog", .bool⟩,
    ⟨["syslog_facility"], "logs.syslog_facility", .identity⟩,
    ⟨["syslog_tag"], "logs.syslog_tag", .identity⟩,
    ⟨["syslog_stdout_priority"], "logs.syslog_stdout_priority", .identity⟩,
    ⟨["syslog_stderr_priority"], "logs.syslog_stderr_priority", .identity⟩,
    ⟨["redirect_stderr"], "logs.redirect_stderr", .bool⟩,
    ⟨["stdout_events_enabled"], "logs.stdout_events_enabled", .bool⟩,
    ⟨["stderr_events_enabled"], "logs.stderr_events_enabled", .bool⟩,
    ⟨["pre_start", "pre_start_hook"], "pre_start", .identity⟩,
    ⟨["pre_stop", "pre_stop_hook"], "pre_stop", .identity⟩, .same "pre_start_ignore_failure" .bool,
    .same "hook_timeout_secs" .durationSecs, .same "restart_when_binary_changed" .bool,
    .same "restart_signal_when_binary_changed" .stopSignal,
    .same "restart_cmd_when_binary_changed" .identity, .same "restart_directory_monitor" .identity,
    .same "restart_file_pattern" .identity, .same "restart_signal_when_file_changed" .stopSignal,
    .same "restart_cmd_when_file_changed" .identity, .same "restart_debounce_secs" .durationSecs,
    ⟨["envfiles", "env_files"], "env_files", .envFiles⟩,
    ⟨["killwaitsecs", "kill_wait_secs"], "kill_wait_secs", .durationSecs⟩,
    ⟨["stopasgroup", "stop_as_group"], "stop_as_group", .bool⟩,
    ⟨["killasgroup", "kill_as_group"], "kill_as_group", .bool⟩]

/-- `PROGRAM_ONLY_MAPPINGS`. -/
def programOnlyMappings : List FieldMapping :=
  [.same "command" .identity, ⟨["exitcodes", "exit_codes"], "exit_codes", .i32List⟩,
    .same "directory" .identity, .same "user" .identity, .same "umask" .umask,
    .same "environment" .environment, .same "depends_on" .stringList, .same "cron" .identity,
    ⟨["cron_stop", "stop_cron"], "cron_stop", .identity⟩]

/-- `EVENT_LISTENER_MAPPINGS`. -/
def eventListenerMappings : List FieldMapping :=
  [.same "command" .identity, .same "events" .eventList,
    ⟨["buffer_size", "buffersize"], "buffer_size", .usize⟩, .same "result_handler" .identity,
    .same "priority" .i32, .same "autostart" .bool, .same "autorestart" .autoRestart,
    ⟨["startsecs", "start_secs"], "start_secs", .durationSecs⟩,
    ⟨["startretries", "start_retries"], "start_retries", .u32⟩,
    ⟨["stopsignal", "stop_signal"], "stop_signal", .stopSignal⟩,
    ⟨["stopwaitsecs", "stop_wait_secs"], "stop_wait_secs", .durationSecs⟩,
    .same "directory" .identity, .same "user" .identity, .same "umask" .umask,
    .same "environment" .environment, .same "stdout_logfile" .logPath,
    .same "stderr_logfile" .logPath, .same "redirect_stderr" .bool, .same "numprocs" .usize,
    .same "numprocs_start" .usize, .same "process_name" .identity,
    ⟨["envfiles", "env_files"], "env_files", .envFiles⟩,
    ⟨["stopasgroup", "stop_as_group"], "stop_as_group", .bool⟩,
    ⟨["killasgroup", "kill_as_group"], "kill_as_group", .bool⟩]

/-! ## The tree of a file -/

/-- What a log kept in memory means for the logs of a program. -/
def overrideMemoryLog (sec : Section) (target : Json.Fields) : Json.Fields :=
  if (sec.lookup "stdout_logfile").any isInMemoryLogSpec then
    setJsonPath (setJsonPath target "logs.enabled" (.str "in_memory_only")) "logs.stdout" .null
  else target

/-- `[program-default]`. -/
def programDefaultTree (env : AdapterEnv) (configDir : Option String) (sec : Section) :
    Except ProgramError Json.Fields := do
  let defs ← mapSection env sec [programSharedMappings] "Invalid default" configDir
  attachLivenessCheck sec (overrideMemoryLog sec defs) "[program-default]"

/-- `[program:x]`. -/
def programTree (env : AdapterEnv) (configDir : Option String) (progName : String)
    (sec : Section) : Except ProgramError Json.Fields := do
  requireKey sec "command" "Program" progName
  let prog ← mapSection env sec [programSharedMappings, programOnlyMappings]
    s!"Program '{progName}' invalid" configDir
  attachLivenessCheck sec (overrideMemoryLog sec prog) s!"Program '{progName}'"

/-- `[group:x]`. -/
def groupTree (env : AdapterEnv) (configDir : Option String) (_groupName : String)
    (sec : Section) : Except ProgramError Json.Fields :=
  mapSection env sec [groupMappings] "Invalid group" configDir

/-- `[eventlistener:x]`. -/
def eventListenerTree (env : AdapterEnv) (configDir : Option String) (poolName : String)
    (sec : Section) : Except ProgramError Json.Fields := do
  requireKey sec "command" "EventListener" poolName
  requireKey sec "events" "EventListener" poolName
  let el ← mapSection env sec [eventListenerMappings]
    s!"EventListener '{poolName}' invalid" configDir
  if let some (.bool true) := el.lookup "redirect_stderr" then
    throw (.configError
      s!"EventListener '{poolName}' redirect_stderr cannot be true (violates wire protocol)")
  if let some (.num n) := el.lookup "buffer_size" then
    if n < 1 then throw (.configError s!"EventListener '{poolName}' buffer_size must be >= 1")
  return el

/-- The kinds of sections that have a name. -/
inductive NamedKind
  | program
  | group
  | eventListener
  deriving DecidableEq, Repr

namespace NamedKind

/-- What the header of a section begins with. -/
def header : NamedKind → String
  | program => "program:"
  | group => "group:"
  | eventListener => "eventlistener:"

/-- The field of the root that the sections are entered into. -/
def field : NamedKind → String
  | program => "programs"
  | group => "groups"
  | eventListener => "event_listeners"

/-- The tree of a section. -/
def tree (env : AdapterEnv) (configDir : Option String) :
    NamedKind → String → Section → Except ProgramError Json.Fields
  | program => programTree env configDir
  | group => groupTree env configDir
  | eventListener => eventListenerTree env configDir

end NamedKind

/-- The kind and the name of a section, if it has a name. -/
def namedSection (sectionName : String) : Option (NamedKind × String) :=
  [NamedKind.program, .group, .eventListener].findSome? fun kind =>
    (Text.stripPrefix kind.header sectionName).map fun name => (kind, name)

/-- The loop over the sections, for one of them. -/
def adaptSection (env : AdapterEnv) (ini : ParsedIni) (configDir : Option String)
    (root : Json.Fields) (sectionName : String) : Except ProgramError Json.Fields :=
  match namedSection sectionName, ini.sections.lookup sectionName with
  | some (kind, name), some sec => do
      let tree ← kind.tree env configDir name sec
      return Json.setPath (fun _ => []) (.obj tree) [kind.field, name] root
  | _, _ => return root

/-- The tree before the sections. -/
def emptyRoot : Json.Fields :=
  [("server", .obj [("path_translation", .bool false), ("allow_unelevated", .bool true),
      ("ctl_defaults", .bool false)]),
    ("programs", .obj []), ("groups", .obj []), ("event_listeners", .obj []),
    ("program_defaults", .obj [])]

/-- What `logfile` means for the log of the daemon. -/
def applyLogfile (sec : Section) (root : Json.Fields) : Json.Fields :=
  match sec.lookup "logfile" with
  | some logfile =>
      if Text.eqIgnoreAsciiCase logfile "NONE" then
        setJsonPath (setJsonPath root "logging.enabled" (.bool false)) "logging.file" .null
      else if isInMemoryLogSpec logfile then
        setJsonPath (setJsonPath root "logging.enabled" (.str "in_memory_only")) "logging.file"
          .null
      else
        setJsonPath (setJsonPath root "logging.enabled" (.bool true)) "logging.file" (.str logfile)
  | none => root

/-- Enter a section without a name, if there is one. -/
def applySection (ini : ParsedIni) (name : String) (root : Json.Fields)
    (apply : Section → Json.Fields → Except ProgramError Json.Fields) :
    Except ProgramError Json.Fields :=
  match ini.sections.lookup name with
  | some sec => apply sec root
  | none => .ok root

/-- `adapt_ini_to_config`, up to the tree that the configuration is read from. -/
def adaptIniTree (env : AdapterEnv) (ini : ParsedIni) (configDir : Option String) :
    Except ProgramError Json.Fields := do
  let root ← applySection ini "unix_http_server" emptyRoot fun sec root =>
    applyMappings env sec serverUnixMappings root "[unix_http_server]" configDir
  let root ← applySection ini "inet_http_server" root fun sec root =>
    applyMappings env sec serverInetMappings root "[inet_http_server]" configDir
  let root ← applySection ini "supervisord" root fun sec root =>
    applyMappings env sec supervisordMappings (applyLogfile sec root) "[supervisord]" configDir
  let root ← applySection ini "supervisorctl" root fun sec root => do
    let ctl ← mapSection env sec [ctlMappings] "[supervisorctl]" configDir
    return Json.set "ctl" (.obj ctl) root
  let root ← applySection ini "program-default" root fun sec root => do
    let defs ← programDefaultTree env configDir sec
    return Json.set "program_defaults" (.obj defs) root
  ini.sectionOrder.foldlM (adaptSection env ini configDir) root

end Ini

end Rsupervisord
