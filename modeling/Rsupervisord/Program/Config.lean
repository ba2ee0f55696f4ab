import Rsupervisord.Program.State

/-!
# Resolved program configuration

The configuration record of one program instance as `resolve_programs` produces it, with the
defaults of `consts.rs`. The environment is a finite map without an order, so that configurations
are equal when all their values are. Paths are strings, and two spellings of a path are different;
the source compares the components of its paths, for which `a//b` is the path `a/b`.
-/

namespace Rsupervisord

/-- Fallback priority of a program. -/
def defaultPriority : ℕ := 50

/-- Fallback priority of a group. -/
def defaultGroupPriority : ℕ := 999

/-- Largest accepted priority. -/
def maxPriority : ℕ := 999

/-- Default graceful-stop wait. -/
def defaultStopWait : Duration := Duration.fromSecs 10

/-- Default start-up success window. -/
def defaultStart : Duration := Duration.fromSecs 1

/-- Default number of start-up retries. -/
def defaultStartRetries : ℕ := 3

/-- Default flat delay before a start-up retry: off. -/
def defaultRestartPause : Duration := Duration.fromSecs 0

/-- Largest exponent of the start-failure backoff. -/
def backoffMaxExponent : ℕ := 5

/-- Default timeout of a hook. -/
def defaultHookTimeout : Duration := Duration.fromSecs 15

/-- Default debounce of file-change restarts. -/
def defaultRestartDebounce : Duration := Duration.fromSecs 5

/-- Default wait after a kill. -/
def defaultKillWait : Duration := Duration.fromSecs 2

/-- Default size at which a log rotates. -/
def defaultLogMaxBytes : ℕ := 50 * 1024 * 1024

/-- Default number of rotated logs that are kept. -/
def defaultLogBackups : ℕ := 10

/-- Default list of expected exit codes. -/
def defaultExitCodes : List ℤ := [0]

/-- When an exited program is started again. -/
inductive AutoRestartPolicy
  | always
  | unexpected
  | never
  deriving DecidableEq, Repr

/-- Whether a process restarts, given its exit code and the expected codes. -/
def AutoRestartPolicy.shouldRestart (p : AutoRestartPolicy) (exitCode : ℤ)
    (expectedCodes : List ℤ) : Bool :=
  match p with
  | always => true
  | never => false
  | unexpected => !expectedCodes.contains exitCode

/-- Signals a program can be stopped with. -/
inductive StopSignal
  | term
  | int
  | quit
  | kill
  | hup
  | ctrlBreak
  | ctrlC
  deriving DecidableEq, Repr

/-- Capture mode of the standard streams. -/
inductive LogMode
  | on
  | off
  | inMemoryOnly
  deriving DecidableEq, Repr

/-- Log settings of a program instance. -/
structure ProgramLogsConfig where
  enabled : LogMode := .on
  stdout : Option String := none
  stderr : Option String := none
  bufferSize : Option ℕ := none
  maxBytes : Option ℕ := none
  backups : Option ℕ := none
  stdoutMaxBytes : Option ℕ := none
  stderrMaxBytes : Option ℕ := none
  stdoutBackups : Option ℕ := none
  stderrBackups : Option ℕ := none
  stdoutTimestampSuffix : Bool := false
  stderrTimestampSuffix : Bool := false
  stdoutSyslog : Bool := false
  stderrSyslog : Bool := false
  syslogFacility : Option String := none
  syslogTag : Option String := none
  syslogStdoutPriority : Option String := none
  syslogStderrPriority : Option String := none
  redirectStderr : Bool := false
  stdoutEventsEnabled : Bool := false
  stderrEventsEnabled : Bool := false
  deriving DecidableEq, Repr

namespace ProgramLogsConfig

/-- Capture is not switched off. -/
def isEnabled (l : ProgramLogsConfig) : Bool := l.enabled != .off

/-- Rotation size of the stdout log. -/
def effectiveStdoutMaxBytes (l : ProgramLogsConfig) : ℕ :=
  (l.stdoutMaxBytes <|> l.maxBytes).getD defaultLogMaxBytes

/-- Rotation size of the stderr log. -/
def effectiveStderrMaxBytes (l : ProgramLogsConfig) : ℕ :=
  (l.stderrMaxBytes <|> l.maxBytes).getD defaultLogMaxBytes

/-- Number of rotated stdout logs that are kept. -/
def effectiveStdoutBackups (l : ProgramLogsConfig) : ℕ :=
  (l.stdoutBackups <|> l.backups).getD defaultLogBackups

/-- Number of rotated stderr logs that are kept. -/
def effectiveStderrBackups (l : ProgramLogsConfig) : ℕ :=
  (l.stderrBackups <|> l.backups).getD defaultLogBackups

/-- The streams are captured in memory only. -/
def isInMemoryOnly (l : ProgramLogsConfig) : Bool := l.enabled == .inMemoryOnly

end ProgramLogsConfig

/-- What a health probe does. -/
inductive HealthCheckType
  | http (url : String) (expectedStatus : ℕ)
  | tcp (endpoint : String)
  | exec (command : String)
  deriving DecidableEq, Repr

/-- Health probe settings. -/
structure HealthCheckConfig where
  checkType : HealthCheckType
  intervalSecs : Duration
  timeoutSecs : Duration
  failureThreshold : ℕ
  initialDelaySecs : Duration
  deriving DecidableEq, Repr

/-- Event listener settings attached to a program. -/
structure EventListenerConfig where
  poolName : String
  events : List String
  bufferSize : ℕ
  resultHandler : String
  deriving DecidableEq, Repr

/-- `EventListenerConfig::new`: the buffer holds at least one event. -/
def EventListenerConfig.new (poolName : String) (events : List String) (bufferSize : ℕ)
    (resultHandler : String) : EventListenerConfig where
  poolName := poolName
  events := events
  bufferSize := max bufferSize 1
  resultHandler := resultHandler

/-- Configuration of one program instance. -/
structure ProgramConfig where
  name : String
  command : String
  args : List String := []
  directory : Option String := none
  user : Option String := none
  environment : Finmap (fun _ : String => String) := ∅
  priority : ℕ := defaultPriority
  dependsOn : List String := []
  autostart : Bool := true
  autorestart : AutoRestartPolicy := .unexpected
  startSecs : Duration := defaultStart
  startRetries : ℕ := defaultStartRetries
  restartPauseSecs : Duration := defaultRestartPause
  stopSignal : StopSignal := .term
  stopWaitSecs : Duration := defaultStopWait
  exitCodes : List ℤ := defaultExitCodes
  umask : Option ℕ := none
  logs : ProgramLogsConfig := {}
  healthCheck : Option HealthCheckConfig := none
  group : String := ""
  groupPriority : ℕ := defaultGroupPriority
  cron : Option String := none
  cronStop : Option String := none
  preStart : Option String := none
  preStop : Option String := none
  preStartIgnoreFailure : Bool := false
  hookTimeoutSecs : Duration := defaultHookTimeout
  restartWhenBinaryChanged : Bool := false
  restartSignalWhenBinaryChanged : Option StopSignal := none
  restartCmdWhenBinaryChanged : Option String := none
  restartDirectoryMonitor : Option String := none
  restartFilePattern : Option String := none
  restartSignalWhenFileChanged : Option StopSignal := none
  restartCmdWhenFileChanged : Option String := none
  restartDebounceSecs : Duration := defaultRestartDebounce
  envFiles : List String := []
  killWaitSecs : Duration := defaultKillWait
  stopAsGroup : Bool := false
  killAsGroup : Bool := false
  eventListener : Option EventListenerConfig := none
  deriving DecidableEq

/-- `ProgramConfig::new`: a program in the group of its own name, all else at its default. -/
def ProgramConfig.new (name command : String) : ProgramConfig where
  group := name
  name := name
  command := command

end Rsupervisord
