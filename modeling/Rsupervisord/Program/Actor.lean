import Rsupervisord.Manager.Event
import Rsupervisord.Manager.Health
import Rsupervisord.Support.TransitionSystem

/-!
# Program actor

The task that owns the child process of one program (`ProgramActor` of `program/process.rs`).
The state collects the fields of the actor, the `start_deadline` local of `run`, the health
channel and the health probe tasks it has started. What the operating system and the clock answer
inside one iteration of the loop is an argument, so that every outcome of every fallible step is
covered.

* `updateStatus`, `spawnChild`, `stopCurrentChild`, `handleChildExit` and `handleCommand` follow
  the methods of the same names.
* `Branch` lists the arms of the `select!` of `run`; `select` is the body of an arm and
  `Branch.enabled` its precondition.
* `next` adds the steps of the other tasks: cancellation from outside and the health probes.

Two counters have no counterpart in the source and are read by no function of it: `spawned`
counts the processes the operating system has created for the actor, and `incarnation` numbers
the children that were installed (`spawn_seq` without its wrap at 64 bits). Each health message is
tagged with the incarnation whose probe sent it.

Instants and durations are natural numbers, so that a deadline always exists. In the source
`Instant::now() + delay` panics when the sum is out of range, and the loop of the actor ends there.
-/

namespace Rsupervisord

/-- Outcome of a child process as the operating system reports it. -/
inductive ExitStatus
  | code (c : ℤ)
  | signal (sig : ℤ)
  | unknown
  deriving DecidableEq, Repr

/-- `normalize_exit_status`: death by a signal counts as the negated signal number. -/
def normalizeExitStatus : ExitStatus → Option ℤ
  | .code c => some c
  | .signal sig => some (-sig)
  | .unknown => none

/-- The `Debug` text of an exit code. -/
def debugExitCode : Option ℤ → String
  | some code => s!"Some({code})"
  | none => "None"

/-- Commands the actor accepts. -/
inductive ProgramCommand
  | start
  | stop (gracePeriod : Duration)
  | restart (gracePeriod : Duration)
  | signal (signal : StopSignal)
  | shutdown
  deriving DecidableEq, Repr

/-- A health event with the incarnation whose probe sent it. -/
structure HealthMsg where
  incarnation : ℕ
  event : HealthEvent
  deriving DecidableEq, Repr

/-- A health probe task. -/
structure ProbeTask where
  /-- The child it was started for. -/
  incarnation : ℕ
  /-- Local state of its loop. -/
  runner : HealthProbeRunner
  /-- The task is inside the body of its timer arm, past the cancellation check. -/
  probing : Bool
  /-- The token of its child is cancelled or the task was aborted. -/
  cancelled : Bool
  deriving DecidableEq

/-- The child an actor owns. -/
structure RunningChild where
  pid : ℕ
  /-- The start-up window is over. -/
  markedRunning : Bool
  incarnation : ℕ
  deriving DecidableEq, Repr

/-- State of a program actor. -/
structure ProgramActor where
  config : ProgramConfig
  /-- Messages queued in the health channel, oldest first. -/
  healthRx : List HealthMsg
  statusSnapshot : ProgramStatus
  startedAt : Option Instant
  /-- The incarnation whose standard input writer is published. -/
  stdinTx : Option ℕ
  /-- Events published so far, oldest first. -/
  eventHub : List SystemEvent
  /-- The cancellation token is triggered. -/
  cancelToken : Bool
  currentChild : Option RunningChild
  retryCount : ℕ
  manualStop : Bool
  isShuttingDown : Bool
  backoffDeadline : Option Instant
  spawnSeq : ℕ
  /-- The `start_deadline` local of `run`. -/
  startDeadline : Option Instant
  /-- `run` has not left its loop. -/
  looping : Bool
  /-- Health probe tasks that have not ended. -/
  probes : List ProbeTask
  /-- Processes created by the operating system so far. -/
  spawned : ℕ
  /-- Children installed so far. -/
  incarnation : ℕ
  deriving DecidableEq

/-- Outcome of the shell command of a hook. -/
inductive HookOutcome
  | configureFailed (e : ProgramError)
  | exited (success : Bool) (code : Option ℤ)
  | spawnFailed (e : String)
  | timedOut
  deriving DecidableEq, Repr

/-- What the tasks of a child do while `drain_pumps` waits for them. -/
structure DrainEnv where
  /-- The hard deadline passed and the health task, then aborted, was in the middle of a poll. -/
  healthLingers : Bool
  deriving DecidableEq, Repr

/-- Answers of the environment to the steps of one `spawn_child`. -/
structure SpawnEnv where
  /-- `try_wait` on the child owned before the call. -/
  tryWait : Except String (Option ExitStatus)
  /-- Drain of that child. -/
  drain : DrainEnv
  /-- The `pre_start` hook. -/
  hook : HookOutcome
  /-- `create_process_log_transport`. -/
  createTransport : Except ProgramError Unit
  /-- `take_child_stdio`. -/
  takeChildStdio : Except ProgramError Unit
  /-- `configure_command`. -/
  configureCommand : Except ProgramError Unit
  /-- `cmd.spawn()`. -/
  spawn : Except String Unit
  /-- The process id of the new process. -/
  childId : Option ℕ
  /-- Whether the new process has a standard input pipe. -/
  stdin : Bool
  /-- `into_streams`. -/
  intoStreams : Except ProgramError Unit
  /-- `attach_child`. -/
  attachChild : Except ProgramError Unit
  /-- The clock when the child is installed. -/
  now : Instant
  deriving DecidableEq

/-- Answers of the environment to the steps of one `stop_current_child`. -/
structure StopEnv where
  /-- The `pre_stop` hook. -/
  hook : HookOutcome
  /-- The wait for a graceful exit; `none` when the grace period ran out. -/
  waitExit : Option (Except String ExitStatus)
  /-- The wait after a kill; `none` when it ran out. -/
  postKillWait : Option (Except String ExitStatus)
  /-- Drain of the stopped child. -/
  drain : DrainEnv
  deriving DecidableEq

/-- Answers of the environment to one command. -/
structure CommandEnv where
  stop : StopEnv
  spawn : SpawnEnv
  /-- `send_stop_signal`. -/
  sendSignal : Except ProgramError Unit
  deriving DecidableEq

/-- `run_hook`: the failure text of a hook, or success. -/
def runHook (timeoutDur : Duration) : HookOutcome → Except String Unit
  | .configureFailed e => .error s!"Failed to configure hook command: {e.display}"
  | .exited true _ => .ok ()
  | .exited false (some code) => .error s!"Hook exited with failure status {code}"
  | .exited false none => .error "Hook exited with failure status signal"
  | .spawnFailed e => .error s!"Hook spawn failed: {e}"
  | .timedOut => .error s!"Hook timed out after {timeoutDur.asSecs}s"

/-- The locked section of `update_status`. -/
def ProgramStatus.update (s : ProgramStatus) (state : ProgramState) (pid : Option ℕ)
    (exitCode : Option ℤ) (description : String) : ProgramStatus :=
  let s := { s with state, pid, exitCode, description }
  -- Health and metrics describe a live child only.
  if state ≠ .running ∧ state ≠ .starting then
    { s with health := .none, isHealthy := false, metrics := none, uptimeSecs := none }
  else s

namespace SpawnEnv

/-- The fallible steps of `spawn_child` up to and including `cmd.spawn()`. -/
def create (env : SpawnEnv) (name : String) : Except ProgramError Unit := do
  env.createTransport
  env.takeChildStdio
  env.configureCommand
  env.spawn.mapError (.startFailed name)

/-- The fallible steps of `spawn_child` after `cmd.spawn()`. A failure here kills the new
process again. -/
def attach (env : SpawnEnv) : Except ProgramError ℕ := do
  let pid ← match env.childId with
    | some pid => .ok pid
    | none => .error (.platformError "Process spawned without PID")
  env.intoStreams
  env.attachChild
  return pid

/-- The fallible steps of `spawn_child` between the hook and the status update. -/
def launch (env : SpawnEnv) (name : String) : Except ProgramError ℕ := do
  env.create name
  env.attach

end SpawnEnv

namespace ProgramActor

/-- The actor before its first iteration. -/
def new (config : ProgramConfig) : ProgramActor where
  config := config
  healthRx := []
  statusSnapshot := .newStoppedWithGroup config.name config.group
  startedAt := none
  stdinTx := none
  eventHub := []
  cancelToken := false
  currentChild := none
  retryCount := 0
  manualStop := false
  isShuttingDown := false
  backoffDeadline := none
  spawnSeq := 0
  startDeadline := none
  looping := true
  probes := []
  spawned := 0
  incarnation := 0

/-- Publish an event on the hub. -/
def publishSystem (a : ProgramActor) (e : SystemEvent) : ProgramActor :=
  { a with eventHub := a.eventHub ++ [e] }

/-- `update_status`: the snapshot is rewritten, and a `StateChanged` event is published when the
state differs or an exit code is known. -/
def updateStatus (a : ProgramActor) (state : ProgramState) (pid : Option ℕ)
    (exitCode : Option ℤ) (description : String) : ProgramActor :=
  let oldState := a.statusSnapshot.state
  let shouldEmit : Bool := oldState ≠ state || exitCode.isSome
  { a with
    statusSnapshot := a.statusSnapshot.update state pid exitCode description
    eventHub :=
      if shouldEmit then
        a.eventHub ++ [.stateChanged a.config.name a.config.group oldState state pid exitCode
          a.retryCount description]
      else a.eventHub }

/-- `drain_pumps` of the child `c`: its tasks are cancelled and have ended, except for a health
task that was aborted while it was being polled. -/
def drainPumps (a : ProgramActor) (c : RunningChild) (env : DrainEnv) : ProgramActor :=
  { a with
    probes :=
      -- A task in the middle of a poll outlives the abort; its token is cancelled.
      if env.healthLingers then
        (a.probes.filter fun t => t.incarnation ≠ c.incarnation || t.probing).map fun t =>
          if t.incarnation = c.incarnation then { t with cancelled := true } else t
      else a.probes.filter fun t => t.incarnation ≠ c.incarnation }

/-- The start of `spawn_child`: a child that has already exited is cleaned up, one that still
runs makes the call fail. -/
def reapExited (a : ProgramActor) (env : SpawnEnv) : Except ProgramError ProgramActor :=
  match a.currentChild with
  | none => .ok a
  | some child =>
      match env.tryWait with
      -- The exit was not handled yet: this call cleans up in the place of the exit arm.
      | .ok (some _) => .ok { a.drainPumps child env.drain with currentChild := none }
      | _ => .error (.alreadyRunning a.config.name child.pid)

/-- The `pre_start` hook in `spawn_child`. -/
def runPreStart (a : ProgramActor) (env : SpawnEnv) : Except ProgramError Unit × ProgramActor :=
  match a.config.preStart with
  | none => (.ok (), a)
  | some hook =>
      let a := a.publishSystem (.processPreStart a.config.name a.config.group hook)
      match runHook a.config.hookTimeoutSecs env.hook with
      | .ok () => (.ok (), a)
      | .error err =>
          let a := a.publishSystem (.processPreStartFailed a.config.name a.config.group err)
          if a.config.preStartIgnoreFailure then (.ok (), a)
          else
            (.error (.preStartHookFailed a.config.name err),
              a.updateStatus .fatal none none s!"pre_start hook failed: {err}")

/-- The end of `spawn_child`: publish the new child's status, start its health probe and own it. -/
def installChild (a : ProgramActor) (env : SpawnEnv) (pid : ℕ) : ProgramActor :=
  let inc := a.incarnation + 1
  let a := { a with
    startedAt := some env.now
    stdinTx := if env.stdin then some inc else none
    probes :=
      match a.config.healthCheck with
      | some hcfg => a.probes ++ [(⟨inc, .new hcfg, false, false⟩ : ProbeTask)]
      | none => a.probes }
  let initialHealth : HealthStatus := if a.config.healthCheck.isSome then .starting else .none
  let markedRunning : Bool := a.config.startSecs = 0
  let initialState : ProgramState := bif markedRunning then .running else .starting
  let a := a.updateStatus initialState (some pid) none initialState.debug
  { a with
    -- `update_status` has just reset these entries for a child in `starting`.
    statusSnapshot := { a.statusSnapshot with
      health := initialHealth
      isHealthy := initialHealth = .healthy || (initialHealth = .none && markedRunning)
      uptimeSecs := some 0 }
    currentChild := some ⟨pid, markedRunning, inc⟩
    spawnSeq := (a.spawnSeq + 1) % 2 ^ 64
    incarnation := inc }

/-- `spawn_child`. -/
def spawnChild (a : ProgramActor) (env : SpawnEnv) : Except ProgramError Unit × ProgramActor :=
  if a.isShuttingDown then (.error (.shuttingDown a.config.name), a)
  else
    match a.reapExited env with
    | .error e => (.error e, a)
    | .ok a =>
        -- The stop flag is cleared before the hook runs, also when the hook fails.
        let a := { a with manualStop := false }
        match a.runPreStart env with
        | (.error e, a) => (.error e, a)
        | (.ok (), a) =>
            -- No failure behind the hook updates the status; that is left to the callers.
            match env.create a.config.name with
            | .error e => (.error e, a)
            | .ok () =>
                -- From here on the process exists, also when it cannot be attached.
                let a := { a with spawned := a.spawned + 1 }
                match env.attach with
                | .error e => (.error e, a)
                | .ok pid => (.ok (), a.installChild env pid)

/-- The `pre_stop` hook in `stop_current_child`; its failure does not stop the termination. -/
def runPreStop (a : ProgramActor) (env : StopEnv) : ProgramActor :=
  match a.config.preStop with
  | none => a
  | some hook =>
      let a := a.publishSystem (.processPreStop a.config.name a.config.group hook)
      match runHook a.config.hookTimeoutSecs env.hook with
      | .ok () => a
      | .error err => a.publishSystem (.processPreStopFailed a.config.name a.config.group err)

/-- The exit code of a stopped child and whether it had to be killed. -/
def StopEnv.finalCode (env : StopEnv) : Option ℤ × Bool :=
  match env.waitExit with
  | some (.ok status) => (normalizeExitStatus status, false)
  | _ =>
      -- The grace period ran out or the wait failed: the process is killed.
      match env.postKillWait with
      | some (.ok status) => (normalizeExitStatus status, true)
      | _ => (none, true)

/-- `stop_current_child`. The grace period bounds the wait whose outcome `env` holds. -/
def stopCurrentChild (a : ProgramActor) (_gracePeriod : Duration) (env : StopEnv) :
    ProgramActor :=
  let a := { a with startedAt := none, stdinTx := none }
  match a.currentChild with
  | some childInfo =>
      -- The child is taken out first, so that no other arm sees it any more.
      let a := { a with currentChild := none }
      let a := a.updateStatus .stopping (some childInfo.pid) none "Stopping"
      let a := a.runPreStop env
      let (finalCode, isForceKilled) := StopEnv.finalCode env
      let a := a.drainPumps childInfo env.drain
      let desc :=
        if isForceKilled then "Force killed (SIGKILL)"
        else match finalCode with
          | some code => s!"Stopped with exit code {code}"
          | none => "Stopped"
      a.updateStatus .stopped none finalCode desc
  | none => a.updateStatus .stopped none none "Stopped"

/-- Delay before the next start-up retry. -/
def backoffDelay (a : ProgramActor) : Duration :=
  if a.config.restartPauseSecs ≠ 0 then a.config.restartPauseSecs
  else Duration.fromSecs (2 ^ min a.retryCount backoffMaxExponent)

/-- The exit code of a child whose wait returned `exitRes`. -/
def exitCodeOf : Except String ExitStatus → Option ℤ
  | .ok status => normalizeExitStatus status
  | .error _ => none

/-- The start of `handle_child_exit`: the child is given up and its tasks end. -/
def releaseChild (a : ProgramActor) (drain : DrainEnv) : ProgramActor :=
  let childInfo := a.currentChild
  let a := { a with startedAt := none, stdinTx := none, currentChild := none }
  match childInfo with
  | some c => a.drainPumps c drain
  | none => a

/-- The automatic restart in `handle_child_exit`. -/
def autorestartChild (a : ProgramActor) (exitCode : Option ℤ) (spawn : SpawnEnv) :
    Bool × ProgramActor :=
  let desc := match a.config.autorestart with
    | .always => "Autorestarting (policy: always)"
    | _ => s!"Unexpected exit with code {debugExitCode exitCode}, autorestarting"
  let a := a.updateStatus .starting none exitCode desc
  match a.spawnChild spawn with
  | (.error e, a) =>
      (false, a.updateStatus .fatal none exitCode s!"Autorestart spawn failed: {e.display}")
  | (.ok (), a) => (true, a)

/-- `handle_child_exit`. Returns whether a new child was started. -/
def handleChildExit (a : ProgramActor) (exitRes : Except String ExitStatus) (drain : DrainEnv)
    (spawn : SpawnEnv) : Bool × ProgramActor :=
  let markedRunning : Bool := (a.currentChild.map (·.markedRunning)).getD false
  let exitCode := exitCodeOf exitRes
  let a := a.releaseChild drain
  -- The exit ends a stop that was asked for.
  if a.isShuttingDown ∨ a.manualStop then
    let a := { a with backoffDeadline := none }
    let desc := match exitCode with
      | some code => s!"Stopped with code {code}"
      | none => "Stopped"
    (false, a.updateStatus .stopped none exitCode desc)
  else
    let isExpected : Bool := match exitCode with
      | some code => a.config.exitCodes.contains code
      | none => false
    -- An exit inside the start-up window is a failed start and may be retried.
    if ¬ markedRunning then
      -- `+=` on a `u32`, which wraps when overflow checks are off, as in the release profile.
      let a := { a with retryCount := (a.retryCount + 1) % 2 ^ 32 }
      if a.retryCount ≤ a.config.startRetries then
        let a := a.updateStatus .backoff none exitCode
          s!"Crashed during startup, retry {a.retryCount}/{a.config.startRetries}"
        (false, { a with backoffDeadline := some (spawn.now + a.backoffDelay) })
      else
        (false, a.updateStatus .fatal none exitCode
          s!"Exited during startup with code {debugExitCode exitCode}, max retries exceeded")
    else if a.config.autorestart.shouldRestart (exitCode.getD (-1)) a.config.exitCodes then
      a.autorestartChild exitCode spawn
    else
      let desc :=
        if isExpected then s!"Exited normally with code {debugExitCode exitCode}"
        else s!"Exited with code {debugExitCode exitCode}"
      (false, a.updateStatus .exited none exitCode desc)

/-- `handle_command`. Returns the reply sent to the caller. -/
def handleCommand (a : ProgramActor) (cmd : ProgramCommand) (env : CommandEnv) :
    Except ProgramError Unit × ProgramActor :=
  match cmd with
  | .start =>
      if a.isShuttingDown then (.error (.shuttingDown a.config.name), a)
      else
        let a := { a with manualStop := false, retryCount := 0, backoffDeadline := none }
        -- A failure goes to the caller; no status is published for it.
        a.spawnChild env.spawn
  | .stop gracePeriod =>
      let a := { a with manualStop := true, backoffDeadline := none }
      (.ok (), a.stopCurrentChild gracePeriod env.stop)
  | .restart gracePeriod =>
      if a.isShuttingDown then (.error (.shuttingDown a.config.name), a)
      else
        -- While the flag is set, the exit of the old child restarts nothing.
        let a := { a with manualStop := true, retryCount := 0, backoffDeadline := none }
        let a := a.stopCurrentChild gracePeriod env.stop
        let a := { a with manualStop := false }
        a.spawnChild env.spawn
  | .shutdown =>
      let a := { a with isShuttingDown := true, manualStop := true, backoffDeadline := none }
      let a := a.stopCurrentChild a.config.stopWaitSecs env.stop
      (.ok (), { a with cancelToken := true })
  | .signal _ =>
      match a.currentChild with
      | some _ => (env.sendSignal, a)
      | none => (.error (.notRunning a.config.name), a)

/-- The arms of the `select!` in `run`, each with what the environment answers to its body. -/
inductive Branch
  | cancelled (stop : StopEnv)
  | command (cmd : ProgramCommand) (env : CommandEnv)
  | health (stop : StopEnv) (spawn : SpawnEnv)
  | backoff (spawn : SpawnEnv)
  | metricsTick (metricsActive : Bool) (metrics : Except ProgramError ProcessMetrics)
  | activityNotified (metricsActive trackerEnabled : Bool)
      (metrics : Except ProgramError ProcessMetrics)
  | childExit (exitRes : Except String ExitStatus) (drain : DrainEnv) (spawn : SpawnEnv)
  | startDeadline (tryWait : Except String (Option ExitStatus))
  deriving DecidableEq

/-- When an arm can be taken. The arms are polled in their order, which the model does not use:
it lets any arm win whose precondition holds. -/
def Branch.enabled (a : ProgramActor) : Branch → Bool
  | .cancelled _ => a.cancelToken
  | .command _ _ => true
  | .health _ _ => a.currentChild.isSome && a.config.healthCheck.isSome && !a.healthRx.isEmpty
  | .backoff _ => a.backoffDeadline.isSome && !a.isShuttingDown && !a.manualStop
  | .metricsTick active _ => a.currentChild.isSome && active
  | .activityNotified active enabled _ => a.currentChild.isSome && !active && enabled
  | .childExit _ _ _ => a.currentChild.isSome
  | .startDeadline _ => a.startDeadline.isSome

/-- The arm of the health channel for the event `event`. -/
def handleHealthEvent (a : ProgramActor) (event : HealthEvent) (stop : StopEnv)
    (spawn : SpawnEnv) : ProgramActor :=
  let old := a.statusSnapshot.health
  match event with
  | .healthy =>
      let a := { a with
        statusSnapshot := { a.statusSnapshot with health := .healthy, isHealthy := true } }
      if old ≠ .healthy then
        a.publishSystem (.healthChanged a.config.name true .healthy none)
      else a
  | .unhealthy =>
      let a := { a with
        statusSnapshot := { a.statusSnapshot with health := .unhealthy, isHealthy := false } }
      let a :=
        if old ≠ .unhealthy then
          a.publishSystem (.healthChanged a.config.name false .unhealthy
            (some "Health check probe failed consecutively"))
        else a
      -- The event is taken to be about the current child.
      if a.config.autorestart ≠ .never then
        let a := a.stopCurrentChild a.config.stopWaitSecs stop
        match a.spawnChild spawn with
        | (.error e, a) =>
            { a with startDeadline := none }.updateStatus .fatal none none
              s!"Health check restart failed: {e.display}"
        | (.ok (), a) =>
            if a.config.startSecs ≠ 0 then
              { a with startDeadline := some (spawn.now + a.config.startSecs) }
            else { a with startDeadline := none }
      else a

/-- The arm of the backoff timer. -/
def handleBackoff (a : ProgramActor) (spawn : SpawnEnv) : ProgramActor :=
  let a := { a with backoffDeadline := none }
  if a.isShuttingDown ∨ a.manualStop then a
  else
    match a.spawnChild spawn with
    | (.error e, a) =>
        a.updateStatus .fatal none none s!"Spawn failed after backoff: {e.display}"
    | (.ok (), a) =>
        if a.config.startSecs ≠ 0 then
          { a with startDeadline := some (spawn.now + a.config.startSecs) }
        else a

/-- The body of both metrics arms. -/
def queryMetrics (a : ProgramActor) (metrics : Except ProgramError ProcessMetrics) :
    ProgramActor :=
  match a.currentChild, metrics with
  | some _, .ok m => { a with statusSnapshot := { a.statusSnapshot with metrics := some m } }
  | _, _ => a

/-- The arm of the start deadline. -/
def handleStartDeadline (a : ProgramActor) (tryWait : Except String (Option ExitStatus)) :
    ProgramActor :=
  let a := { a with startDeadline := none }
  match a.currentChild with
  | none => a
  | some child =>
      match tryWait with
      -- The child has exited meanwhile; its exit arm decides what happens.
      | .ok (some _) => a
      | _ =>
          let a := { a with
            currentChild := some { child with markedRunning := true }
            retryCount := 0 }
          a.updateStatus .running (some child.pid) none "Running"

/-- The body of an arm of the `select!`, with the status update behind the loop for the arm that
leaves it. -/
def select (a : ProgramActor) : Branch → ProgramActor
  | .cancelled stop =>
      let a := { a with isShuttingDown := true, manualStop := true, backoffDeadline := none }
      let a := a.stopCurrentChild a.config.stopWaitSecs stop
      { a with looping := false }.updateStatus .stopped none none "Stopped"
  | .command cmd env =>
      -- A changed sequence number tells that the command has started a child.
      let seqBefore := a.spawnSeq
      let (_, a) := a.handleCommand cmd env
      if a.spawnSeq ≠ seqBefore then
        if a.currentChild.isSome ∧ a.config.startSecs ≠ 0 then
          { a with startDeadline := some (env.spawn.now + a.config.startSecs) }
        else { a with startDeadline := none }
      else if a.currentChild.isNone then { a with startDeadline := none }
      else a
  | .health stop spawn =>
      match a.healthRx with
      | [] => a
      | msg :: rest => { a with healthRx := rest }.handleHealthEvent msg.event stop spawn
  | .backoff spawn => a.handleBackoff spawn
  | .metricsTick _ metrics => a.queryMetrics metrics
  | .activityNotified _ _ metrics => a.queryMetrics metrics
  | .childExit exitRes drain spawn =>
      -- The deadline was that of the child that is gone.
      let a := { a with startDeadline := none }
      let (restarted, a) := a.handleChildExit exitRes drain spawn
      if restarted ∧ a.config.startSecs ≠ 0 then
        { a with startDeadline := some (spawn.now + a.config.startSecs) }
      else a
  | .startDeadline tryWait => a.handleStartDeadline tryWait

/-- Capacity of the health channel. -/
def healthChannelCapacity : ℕ := 16

/-- Steps of the actor and of the tasks around it. -/
inductive Label
  /-- One iteration of the loop of `run`. -/
  | iterate (b : Branch)
  /-- The token is cancelled by the owner of the program. -/
  | cancel
  /-- The probe task of an incarnation leaves its timer and starts to probe. -/
  | probeBegin (incarnation : ℕ)
  /-- The probe task of an incarnation finishes a probe and sends what it has to report. -/
  | probeResult (incarnation : ℕ) (isOk : Bool)
  deriving DecidableEq

/-- The probe task `t` finishes a probe: its loop state advances, an event it reports is queued
for the actor, and a cancelled task ends. -/
def probeResult (a : ProgramActor) (t : ProbeTask) (isOk : Bool) : ProgramActor :=
  let (runner, event) := t.runner.onProbe isOk
  { a with
    -- The message does not say which child it is about; the tag is not in the source.
    healthRx := a.healthRx ++ (event.map fun e => ⟨t.incarnation, e⟩).toList
    probes :=
      if t.cancelled then a.probes.filter fun u => u.incarnation ≠ t.incarnation
      else a.probes.map fun u =>
        if u.incarnation = t.incarnation then { u with runner, probing := false } else u }

/-- One step, when its precondition holds. A probe that has an event to report waits for room in
the health channel. -/
def next (a : ProgramActor) : Label → Option ProgramActor
  | .iterate b => if a.looping && b.enabled a then some (a.select b) else none
  | .cancel => some { a with cancelToken := true }
  | .probeBegin inc =>
      match a.probes.find? fun t => t.incarnation = inc with
      | some t =>
          if t.probing ∨ t.cancelled then none
          else
            some { a with
              probes := a.probes.map fun u =>
                if u.incarnation = inc then { u with probing := true } else u }
      | none => none
  | .probeResult inc isOk =>
      match a.probes.find? fun t => t.incarnation = inc with
      | some t =>
          if t.probing ∧ a.healthRx.length < healthChannelCapacity then
            some (a.probeResult t isOk)
          else none
      | none => none

/-- The actor of a program with the configuration `config`, together with its probe tasks. -/
def system (config : ProgramConfig) : TransitionSystem ProgramActor Label :=
  .ofNext (new config) next

end ProgramActor

end Rsupervisord
