import Rsupervisord.Program.Config
import Rsupervisord.Support.HashMap

/-!
# Raw configuration

The configuration as it is parsed from a file, before the programs are resolved: the sections that
`resolve_programs` and the manager read. Paths are strings.
-/

namespace Rsupervisord

/-- The resolved program configurations by instance name. -/
abbrev ProgramConfigs := HashMap String ProgramConfig

/-- Daemon log settings. -/
structure LoggingConfig where
  enabled : LogMode := .on
  file : Option String := none
  level : String := "info"
  bufferSize : Option ℕ := none
  maxBytes : Option ℕ := some defaultLogMaxBytes
  backups : ℕ := 10
  timestampSuffix : Bool := false
  silent : Bool := false
  noColor : Option Bool := none
  deriving DecidableEq, Repr

/-- Log settings of a program with optional entries for inheritance. -/
structure ProgramLogsConfigRaw where
  enabled : Option LogMode := none
  stdout : Option String := none
  stderr : Option String := none
  bufferSize : Option ℕ := none
  maxBytes : Option ℕ := none
  backups : Option ℕ := none
  stdoutMaxBytes : Option ℕ := none
  stderrMaxBytes : Option ℕ := none
  stdoutBackups : Option ℕ := none
  stderrBackups : Option ℕ := none
  stdoutTimestampSuffix : Option Bool := none
  stderrTimestampSuffix : Option Bool := none
  stdoutSyslog : Option Bool := none
  stderrSyslog : Option Bool := none
  syslogFacility : Option String := none
  syslogTag : Option String := none
  syslogStdoutPriority : Option String := none
  syslogStderrPriority : Option String := none
  redirectStderr : Option Bool := none
  stdoutEventsEnabled : Option Bool := none
  stderrEventsEnabled : Option Bool := none
  deriving DecidableEq, Repr

/-- Defaults that every program inherits. -/
structure ProgramDefaults where
  autostart : Option Bool := none
  autorestart : Option AutoRestartPolicy := none
  startSecs : Option Duration := none
  startRetries : Option ℕ := none
  restartPauseSecs : Option Duration := none
  stopSignal : Option StopSignal := none
  stopWaitSecs : Option Duration := none
  priority : Option ℕ := none
  logs : Option ProgramLogsConfigRaw := none
  healthCheck : Option HealthCheckConfig := none
  preStart : Option String := none
  preStop : Option String := none
  preStartIgnoreFailure : Option Bool := none
  hookTimeoutSecs : Option Duration := none
  numprocs : Option ℕ := none
  numprocsStart : Option ℕ := none
  processName : Option String := none
  restartWhenBinaryChanged : Option Bool := none
  restartSignalWhenBinaryChanged : Option StopSignal := none
  restartCmdWhenBinaryChanged : Option String := none
  restartDirectoryMonitor : Option String := none
  restartFilePattern : Option String := none
  restartSignalWhenFileChanged : Option StopSignal := none
  restartCmdWhenFileChanged : Option String := none
  restartDebounceSecs : Option Duration := none
  envFiles : Option (List String) := none
  killWaitSecs : Option Duration := none
  stopAsGroup : Option Bool := none
  killAsGroup : Option Bool := none

/-- A program section. -/
structure ProgramConfigRaw where
  command : String
  args : List String := []
  directory : Option String := none
  user : Option String := none
  environment : HashMap String String := ∅
  priority : Option ℕ := none
  dependsOn : List String := []
  autostart : Option Bool := none
  autorestart : Option AutoRestartPolicy := none
  startSecs : Option Duration := none
  startRetries : Option ℕ := none
  restartPauseSecs : Option Duration := none
  stopSignal : Option StopSignal := none
  stopWaitSecs : Option Duration := none
  exitCodes : Option (List ℤ) := none
  umask : Option ℕ := none
  logs : Option ProgramLogsConfigRaw := none
  healthCheck : Option HealthCheckConfig := none
  group : Option String := none
  cron : Option String := none
  cronStop : Option String := none
  preStart : Option String := none
  preStop : Option String := none
  preStartIgnoreFailure : Option Bool := none
  hookTimeoutSecs : Option Duration := none
  numprocs : Option ℕ := none
  numprocsStart : Option ℕ := none
  processName : Option String := none
  restartWhenBinaryChanged : Option Bool := none
  restartSignalWhenBinaryChanged : Option StopSignal := none
  restartCmdWhenBinaryChanged : Option String := none
  restartDirectoryMonitor : Option String := none
  restartFilePattern : Option String := none
  restartSignalWhenFileChanged : Option StopSignal := none
  restartCmdWhenFileChanged : Option String := none
  restartDebounceSecs : Option Duration := none
  stdoutEventsEnabled : Option Bool := none
  stderrEventsEnabled : Option Bool := none
  envFiles : Option (List String) := none
  killWaitSecs : Option Duration := none
  stopAsGroup : Option Bool := none
  killAsGroup : Option Bool := none

/-- A group section. -/
structure GroupConfigRaw where
  programs : List String := []
  priority : Option ℕ := none

/-- An event listener section. -/
structure EventListenerConfigRaw where
  command : String
  args : List String := []
  events : List String := []
  bufferSize : ℕ := 10
  resultHandler : String := "supervisor.dispatchers:default_handler"
  priority : ℤ := -1
  numprocs : Option ℕ := none
  numprocsStart : Option ℕ := none
  processName : Option String := none
  autostart : Option Bool := none
  autorestart : Option AutoRestartPolicy := none
  startSecs : Option Duration := none
  startRetries : Option ℕ := none
  stopSignal : Option StopSignal := none
  stopWaitSecs : Option Duration := none
  directory : Option String := none
  user : Option String := none
  environment : HashMap String String := ∅
  umask : Option ℕ := none
  stderrLogfile : Option String := none
  redirectStderr : Option Bool := none
  envFiles : Option (List String) := none
  stopAsGroup : Option Bool := none
  killAsGroup : Option Bool := none

/-- The configuration of the daemon. -/
structure SupervisorConfig where
  /-- The configured server identifier. -/
  identifier : Option String := none
  logging : LoggingConfig := {}
  programDefaults : ProgramDefaults := {}
  groups : HashMap String GroupConfigRaw := ∅
  programs : HashMap String ProgramConfigRaw := ∅
  eventListeners : HashMap String EventListenerConfigRaw := ∅
  /-- Daemon-level environment. -/
  environment : HashMap String String := ∅
  configDir : Option String := none

end Rsupervisord
