import Rsupervisord.Program.Config

/-!
# Time limits of program operations

The arithmetic of durations that the daemon uses, the limits of `consts.rs`, and the handle of an
ordinary program: how long `ProcessProgram::start`, `stop`, `restart` and `shutdown` wait for the
actor of the program.

The plain operators on durations panic when the result is out of range. The model returns nothing
then.
-/

namespace Rsupervisord

/-! ## Durations -/

/-- `Duration::MAX`. -/
def durationMax : Duration := 2 ^ 64 * 1000000000 - 1

namespace Duration

/-- `checked_add`. -/
def checkedAdd (a b : Duration) : Option Duration :=
  if a + b ≤ durationMax then some (a + b) else none

/-- `saturating_add`. -/
def saturatingAdd (a b : Duration) : Duration := min (a + b) durationMax

/-- `saturating_mul`. -/
def saturatingMul (a : Duration) (k : ℕ) : Duration := min (a * k) durationMax

/-- The operator `+`. -/
def plus (a b : Duration) : Option Duration :=
  if a + b ≤ durationMax then some (a + b) else none

/-- The operator `*`. -/
def times (a : Duration) (k : ℕ) : Option Duration :=
  if a * k ≤ durationMax then some (a * k) else none

end Duration

/-! ## Limits -/

/-- `AWAIT_ACTION`: a single-program action. -/
def awaitAction : Duration := .fromSecs 30

/-- `AWAIT_GROUP`: a group-scoped action. -/
def awaitGroup : Duration := .fromSecs 60

/-- `AWAIT_BULK`: a daemon-wide action. -/
def awaitBulk : Duration := .fromSecs 120

/-- `AWAIT_QUERY`: a read-only query. -/
def awaitQuery : Duration := .fromSecs 10

/-- `STOP_GRACE_EXTRA`: headroom of the manager for a stop. -/
def stopGraceExtra : Duration := .fromSecs 15

/-- `RESTART_GRACE_EXTRA`: headroom of the manager for a restart. -/
def restartGraceExtra : Duration := .fromSecs 25

/-- `PROCESS_STOP_GRACE_EXTRA`: headroom of the program for a stop. -/
def processStopGraceExtra : Duration := .fromSecs 5

/-- `PROCESS_RESTART_GRACE_EXTRA`: headroom of the program for a restart. -/
def processRestartGraceExtra : Duration := .fromSecs 10

/-- `MAX_TIMEOUT`: the upper bound of a computed timeout. -/
def maxTimeout : Duration := .fromSecs 86400

/-- `DRAIN_TIMEOUT`: the wait for the log pumps. -/
def drainTimeout : Duration := .fromSecs 2

/-- `checked_add(..).unwrap_or(MAX_TIMEOUT)`. -/
def addOrMaxTimeout (a b : Duration) : Duration := (a.checkedAdd b).getD maxTimeout

/-! ## The handle of a program -/

/-- What becomes of a command to the actor of a program. -/
inductive Answer
  /-- The actor is gone. -/
  | refused
  /-- The actor drops the command. -/
  | dropped
  /-- The time is over before the actor replies. -/
  | late
  | replied (result : Except ProgramError Unit)

namespace ProcessProgram

/-- The result of an operation that waits for the reply; a panic while the time limit is computed
ends it. The limit is computed after the command was sent. -/
def awaitReply (name : String) (timeoutDur : Option Duration) (answer : Answer) :
    Option (Except ProgramError Unit) :=
  match answer with
  | .refused => some (.error (.channelClosed name))
  | .dropped => timeoutDur.map fun _ => .error (.channelClosed name)
  | .late => timeoutDur.map fun d => .error (.timeout name d.asSecs)
  | .replied result => timeoutDur.map fun _ => result

variable (config : ProgramConfig)

/-- The time limit of `start`. -/
def startTimeout : Option Duration := config.hookTimeoutSecs.plus awaitQuery

/-- The time limit of `stop`. -/
def stopTimeout (gracePeriod : Duration) : Duration :=
  addOrMaxTimeout (addOrMaxTimeout (addOrMaxTimeout gracePeriod config.hookTimeoutSecs)
    config.killWaitSecs) processStopGraceExtra

/-- The time limit of `restart`. -/
def restartTimeout (gracePeriod : Duration) : Option Duration :=
  (config.hookTimeoutSecs.times 2).map fun hooks =>
    addOrMaxTimeout (addOrMaxTimeout (addOrMaxTimeout gracePeriod hooks) config.killWaitSecs)
      processRestartGraceExtra

/-- The time limit of `shutdown`. -/
def shutdownTimeout : Duration :=
  addOrMaxTimeout (addOrMaxTimeout (addOrMaxTimeout config.stopWaitSecs config.hookTimeoutSecs)
    config.killWaitSecs) processStopGraceExtra

/-- `start`. -/
def start (answer : Answer) : Option (Except ProgramError Unit) :=
  awaitReply config.name (startTimeout config) answer

/-- `stop`. -/
def stop (gracePeriod : Duration) (answer : Answer) : Option (Except ProgramError Unit) :=
  awaitReply config.name (some (stopTimeout config gracePeriod)) answer

/-- `restart`. -/
def restart (gracePeriod : Duration) (answer : Answer) : Option (Except ProgramError Unit) :=
  awaitReply config.name (restartTimeout config gracePeriod) answer

/-- `shutdown`. It succeeds however the wait ends. -/
def shutdown (answer : Answer) : Option (Except ProgramError Unit) :=
  (awaitReply config.name (some (shutdownTimeout config)) answer).map fun _ => .ok ()

end ProcessProgram

end Rsupervisord
