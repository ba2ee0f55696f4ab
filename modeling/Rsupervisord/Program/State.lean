import Mathlib.Data.Finmap

/-!
# Program states, status records and errors

The observable part of a supervised program: its life-cycle state, the status record that the
program publishes, and the errors its operations return with their message texts.

Durations and instants are natural numbers of nanoseconds; an instant counts from an arbitrary
origin of the monotonic clock. Operating system errors are represented by their text.
-/

namespace Rsupervisord

/-- A span of time in nanoseconds. -/
abbrev Duration := ℕ

/-- A reading of the monotonic clock in nanoseconds. -/
abbrev Instant := ℕ

/-- `Duration::from_secs`. -/
def Duration.fromSecs (secs : ℕ) : Duration := secs * 1000000000

/-- `Duration::as_secs`: the whole seconds of a duration. -/
def Duration.asSecs (d : Duration) : ℕ := d / 1000000000

/-- Result of the active health probe, as published. -/
inductive HealthStatus
  | none
  | starting
  | healthy
  | unhealthy
  deriving DecidableEq, Repr

/-- Life-cycle state of a program. -/
inductive ProgramState
  | stopped
  | starting
  | running
  | backoff
  | stopping
  | exited
  | fatal
  deriving DecidableEq, Repr

namespace ProgramState

/-- The program is in an active life-cycle state. -/
def isActive : ProgramState → Bool
  | starting | running | stopping => true
  | _ => false

/-- The program is in a non-running terminal or stopped state. -/
def isStoppedOrFatal : ProgramState → Bool
  | stopped | exited | fatal => true
  | _ => false

/-- The `Debug` text of a state. -/
def debug : ProgramState → String
  | stopped => "Stopped"
  | starting => "Starting"
  | running => "Running"
  | backoff => "Backoff"
  | stopping => "Stopping"
  | exited => "Exited"
  | fatal => "Fatal"

end ProgramState

/-- Resource use of a child. The CPU share, a floating-point number that no modelled function
reads, is left out. -/
structure ProcessMetrics where
  /-- Resident set size. -/
  memoryRssBytes : ℕ
  deriving DecidableEq, Repr

/-- The status record a program publishes. The `cron` and `next_cron_run` fields, which only the
manager's replies fill in, are left out. -/
structure ProgramStatus where
  /-- Program name. -/
  name : String
  /-- Group name, the program's own name when it has no group. -/
  group : String
  /-- Life-cycle state. -/
  state : ProgramState
  /-- Process id of the running child. -/
  pid : Option ℕ
  /-- Seconds since the child was started. -/
  uptimeSecs : Option ℕ
  /-- Normalized code of the last exit. -/
  exitCode : Option ℤ
  /-- Whether the program counts as healthy. -/
  isHealthy : Bool
  /-- Result of the health probe. -/
  health : HealthStatus
  /-- Last resource metrics. -/
  metrics : Option ProcessMetrics
  /-- Text shown to the user. -/
  description : String
  deriving DecidableEq, Repr

/-- `ProgramStatus::new_stopped_with_group`. -/
def ProgramStatus.newStoppedWithGroup (name group : String) : ProgramStatus where
  group := if group = "" then name else group
  name := name
  state := .stopped
  pid := none
  uptimeSecs := none
  exitCode := none
  isHealthy := false
  health := .none
  metrics := none
  description := "Stopped"

/-- Errors of program life-cycle operations. -/
inductive ProgramError
  | startFailed (name source : String)
  | stopFailed (name source : String)
  | alreadyRunning (name : String) (pid : ℕ)
  | notRunning (name : String)
  | invalidState (name : String) (state : ProgramState)
  | channelClosed (name : String)
  | timeout (name : String) (timeoutSecs : ℕ)
  | notFound (name : String)
  | platformError (message : String)
  | configError (message : String)
  | shuttingDown (name : String)
  | preStartHookFailed (name reason : String)
  | invalidCronExpression (name expression reason : String)
  | stdinWriteTimeout (name : String) (timeoutSecs : ℕ)
  | stdinWriteFailed (name error : String)
  | readLogFailed (name error : String)
  deriving DecidableEq, Repr

/-- The `Display` text of an error. -/
def ProgramError.display : ProgramError → String
  | startFailed name source => s!"Program '{name}' failed to start: {source}"
  | stopFailed name source => s!"Program '{name}' failed to stop gracefully: {source}"
  | alreadyRunning name pid => s!"Program '{name}' is already running with PID {pid}"
  | notRunning name => s!"Program '{name}' is not running"
  | invalidState name state =>
      s!"Program '{name}' is in an invalid state for this operation: {state.debug}"
  | channelClosed name => s!"Command channel closed unexpectedly for program '{name}'"
  | timeout name secs => s!"Operation on program '{name}' timed out after {secs}s"
  | notFound name => s!"Program '{name}' is not registered"
  | platformError message => s!"Platform-specific error: {message}"
  | configError message => s!"Configuration error: {message}"
  | shuttingDown name => s!"Entity '{name}' is currently shutting down"
  | preStartHookFailed name reason => s!"Program '{name}' pre_start hook failed: {reason}"
  | invalidCronExpression name expression reason =>
      s!"Invalid cron expression for program '{name}': '{expression}' ({reason})"
  | stdinWriteTimeout name secs =>
      s!"Writing to stdin of program '{name}' timed out after {secs}s"
  | stdinWriteFailed name error => s!"Failed to write to stdin of program '{name}': {error}"
  | readLogFailed name error => s!"Failed to read log for '{name}': {error}"

end Rsupervisord
