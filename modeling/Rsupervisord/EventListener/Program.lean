import Mathlib.Data.Int.ModEq
import Rsupervisord.Program.Actor

/-!
# Event listener program

The task that owns the process of one event listener (`EventListenerActor` of
`eventlistener/program.rs`). It has a life cycle of its own: the child is the local `child_process`
of `run`, and the status is published by `set_state` alone. As for the program actor, the answers of
the operating system inside one iteration of the loop are arguments.
-/

namespace Rsupervisord

/-- Commands an event listener accepts. -/
inductive ListenerCommand
  | start
  | stop (gracePeriod : Duration)
  | restart (gracePeriod : Duration)
  | signal (signal : StopSignal)
  deriving DecidableEq, Repr

/-- The process of an event listener. -/
structure EventListenerChild where
  pid : UInt32
  /-- The token of its reader task and its wire task is triggered. -/
  cancelToken : Bool
  deriving DecidableEq, Repr

/-- Answers of the environment to the steps of one `spawn_child`. -/
structure ListenerSpawnEnv where
  /-- `configure_command`. -/
  configureCommand : Except ProgramError Unit
  /-- `cmd.spawn()`. -/
  spawn : Except String Unit
  /-- The process id of the new process. -/
  childId : Option UInt32
  /-- `attach_child`. -/
  attachChild : Except ProgramError Unit
  /-- Whether the pipes of the new process can be taken. -/
  stdin : Bool
  stdout : Bool
  stderr : Bool
  /-- The clock when the child is installed. -/
  now : Instant
  deriving DecidableEq

/-- The fallible steps of `spawn_child`, which all lie before its first change of the status. -/
def ListenerSpawnEnv.launch (env : ListenerSpawnEnv) (name : String) :
    Except ProgramError UInt32 := do
  env.configureCommand
  env.spawn.mapError (.startFailed name)
  let pid ← match env.childId with
    | some pid => .ok pid
    | none => .error (.platformError "Process spawned without PID")
  env.attachChild
  if env.stdin then .ok () else .error (.platformError "Failed to capture child stdin")
  if env.stdout then .ok () else .error (.platformError "Failed to capture child stdout")
  if env.stderr then .ok () else .error (.platformError "Failed to capture child stderr")
  return pid

/-- Answers of the environment to one command. -/
structure ListenerCommandEnv where
  spawn : ListenerSpawnEnv
  /-- `send_stop_signal` of a `signal` command. -/
  sendSignal : Except ProgramError Unit
  deriving DecidableEq

/-- State of an event listener actor. -/
structure EventListenerActor where
  config : ProgramConfig
  statusSnapshot : ProgramStatus
  startedAt : Option Instant
  /-- The cancellation token is triggered. -/
  cancelToken : Bool
  /-- The `child_process` local of `run`. -/
  childProcess : Option EventListenerChild
  /-- Children that were given up, the last one first. -/
  dropped : List EventListenerChild
  /-- `run` has not left its loop. -/
  looping : Bool
  deriving DecidableEq

namespace EventListenerActor

/-- The actor before its first iteration (`EventListenerProgram::new`). -/
def new (config : ProgramConfig) : EventListenerActor where
  config := config
  statusSnapshot := {
    name := config.name
    group := config.group
    state := .stopped
    description := "Stopped"
    pid := none
    exitCode := none
    isHealthy := false
    health := .none
    uptimeSecs := none
    metrics := none }
  startedAt := none
  cancelToken := false
  childProcess := none
  dropped := []
  looping := true

/-- `pid as i32`. -/
def pidAsI32 (pid : UInt32) : ℤ := (pid.toNat : ℤ).bmod (2 ^ 32)

/-- `p as u32`. -/
def i32AsU32 (p : ℤ) : ℕ := (p % 2 ^ 32).toNat

/-- `set_state`. The number is the process id of a running child and an exit code otherwise. -/
def setState (a : EventListenerActor) (state : ProgramState) (pidOrCode : Option ℤ)
    (desc : String) : EventListenerActor :=
  let snap := { a.statusSnapshot with state, description := desc }
  if state = .running then
    { a with statusSnapshot := { snap with pid := pidOrCode.map i32AsU32, exitCode := none } }
  else { a with statusSnapshot := { snap with pid := none, exitCode := pidOrCode } }

/-- `spawn_child`. -/
def spawnChild (a : EventListenerActor) (env : ListenerSpawnEnv) :
    Except ProgramError EventListenerChild × EventListenerActor :=
  match env.launch a.config.name with
  | .error e => (.error e, a)
  | .ok pid =>
      let a := { a with startedAt := some env.now }
      let a := a.setState .running (some (pidAsI32 pid)) s!"pid {pid}, uptime 0:00:00"
      (.ok ⟨pid, false⟩, a)

/-- `child_process.take()` of a child whose token is cancelled, by `stop_child` or by the exit arm,
and which is then dropped. Neither `stop_child` nor the drop touches the status. -/
def takeChild (a : EventListenerActor) : EventListenerActor :=
  match a.childProcess with
  | some c =>
      { a with childProcess := none, dropped := { c with cancelToken := true } :: a.dropped }
  | none => a

/-- The arms of `handle_command` in `run`. Returns the reply sent to the caller. -/
def handleCommand (a : EventListenerActor) (cmd : ListenerCommand) (env : ListenerCommandEnv) :
    Except ProgramError Unit × EventListenerActor :=
  match cmd with
  | .start =>
      if a.childProcess.isSome then (.ok (), a)
      else
        match a.spawnChild env.spawn with
        | (.ok c, a) => (.ok (), { a with childProcess := some c })
        | (.error e, a) => (.error e, a)
  | .stop _ =>
      if a.childProcess.isSome then
        (.ok (), a.takeChild.setState .stopped none "Stopped by user")
      else (.ok (), a)
  | .restart _ =>
      -- The old child is gone from here on, but the status still shows it.
      let a := a.takeChild
      match a.spawnChild env.spawn with
      | (.ok c, a) => (.ok (), { a with childProcess := some c })
      | (.error e, a) => (.error e, a)
  | .signal _ =>
      match a.childProcess with
      | some _ => (env.sendSignal, a)
      | none => (.error (.notRunning a.config.name), a)

/-- The arm of the child's exit. -/
def handleExit (a : EventListenerActor) (status : Except String ExitStatus)
    (spawn : ListenerSpawnEnv) : EventListenerActor :=
  let exitCode := ProgramActor.exitCodeOf status
  let a := a.takeChild
  let a := a.setState .exited exitCode "Process exited"
  if a.config.autorestart.shouldRestart (exitCode.getD (-1)) a.config.exitCodes then
    match a.spawnChild spawn with
    | (.ok c, a) => { a with childProcess := some c }
    | (.error _, a) => a
  else a

/-- The arms of the `select!` in `run`, each with what the environment answers to its body. -/
inductive Branch
  | cancelled
  | command (cmd : ListenerCommand) (env : ListenerCommandEnv)
  /-- The command channel is closed. -/
  | channelClosed
  | childExit (status : Except String ExitStatus) (spawn : ListenerSpawnEnv)
  deriving DecidableEq

/-- When an arm can be taken. -/
def Branch.enabled (a : EventListenerActor) : Branch → Bool
  | .cancelled => a.cancelToken
  | .command _ _ => true
  | .channelClosed => true
  | .childExit _ _ => a.childProcess.isSome

/-- The body of an arm. The two arms that leave the loop give up the child and publish nothing. -/
def select (a : EventListenerActor) : Branch → EventListenerActor
  | .cancelled => { a.takeChild with looping := false }
  | .command cmd env => (a.handleCommand cmd env).2
  | .channelClosed => { a.takeChild with looping := false }
  | .childExit status spawn => a.handleExit status spawn

/-- Steps of the actor and of its owner. -/
inductive Label
  /-- One iteration of the loop of `run`. -/
  | iterate (b : Branch)
  /-- The token is cancelled by the owner of the program. -/
  | cancel
  deriving DecidableEq

/-- One step, when its precondition holds. -/
def next (a : EventListenerActor) : Label → Option EventListenerActor
  | .iterate b => if a.looping && b.enabled a then some (a.select b) else none
  | .cancel => some { a with cancelToken := true }

/-- The actor of an event listener with the configuration `config`. -/
def system (config : ProgramConfig) : TransitionSystem EventListenerActor Label :=
  .ofNext (new config) next

end EventListenerActor

end Rsupervisord
