import Rsupervisord.Program.LifecycleInvariants

/-!
# Start-up of a program actor

The start-up view of a program actor keeps what decides how a child gets out of its start-up
window: the owned child, the pending retry, the retry counter, the `start_deadline` local of `run`
and the two counters that tell one child from the next. `Startup.Step` says, once and for all arms
of the loop, what a step can do to this view, and `next_startup` proves that the actor refines it.
-/

namespace Rsupervisord

/-- The step processes the exit of the child. -/
def ProgramActor.Label.isExit : ProgramActor.Label → Bool
  | .iterate (.childExit _ _ _) => true
  | _ => false

/-- The part of a program actor that the start-up of its child is about. -/
@[ext]
structure Startup where
  state : ProgramState
  child : Option RunningChild
  backoff : Option Instant
  retryCount : ℕ
  startDeadline : Option Instant
  spawnSeq : ℕ
  incarnation : ℕ
  looping : Bool

namespace Startup

/-- Give up the child and publish `stopped`. -/
def stop (s : Startup) : Startup :=
  { s with child := none, state := .stopped }

/-- Arm the start deadline of a child spawned at `now`, when there is a start-up window. -/
def arm (config : ProgramConfig) (now : Instant) (s : Startup) : Startup :=
  if config.startSecs ≠ 0 then { s with startDeadline := some (now + config.startSecs) } else s

/-- The start deadline after a command, from the sequence number before it. -/
def afterCommand (config : ProgramConfig) (seqBefore : ℕ) (now : Instant) (s : Startup) :
    Startup :=
  if s.spawnSeq ≠ seqBefore then
    if s.child.isSome ∧ config.startSecs ≠ 0 then
      { s with startDeadline := some (now + config.startSecs) }
    else { s with startDeadline := none }
  else if s.child.isNone then { s with startDeadline := none }
  else s

/-- The adjustment touches nothing but the deadline. -/
theorem exists_afterCommand (config : ProgramConfig) (seqBefore : ℕ) (now : Instant)
    (s : Startup) :
    ∃ deadline, s.afterCommand config seqBefore now = { s with startDeadline := deadline } := by
  rw [afterCommand]
  split
  · split <;> exact ⟨_, rfl⟩
  · split <;> exact ⟨_, rfl⟩

/-- Outcomes of a spawn: whether it succeeds and the view it leaves. -/
inductive Spawn (config : ProgramConfig) (s : Startup) : Bool → Startup → Prop
  /-- The spawn is refused. -/
  | refused : Spawn config s false s
  /-- The hook or a step behind it fails. -/
  | failed (state : ProgramState) : Spawn config s false { s with child := none, state }
  /-- A child is installed. Its start-up window is over at once when it has no length. -/
  | started (c : RunningChild) (hmarked : c.markedRunning = decide (config.startSecs = 0))
      (hfresh : c.incarnation = s.incarnation + 1) :
      Spawn config s true
        { s with
          child := some c
          state := bif c.markedRunning then .running else .starting
          spawnSeq := (s.spawnSeq + 1) % 2 ^ 64
          incarnation := s.incarnation + 1 }

/-- A spawn made by the loop itself: the deadline of a new child is armed, and a failure is
published as `fatal`. -/
inductive Respawn (config : ProgramConfig) (now : Instant) (s : Startup) : Startup → Prop
  | started {t : Startup} (hspawn : Spawn config s true t) :
      Respawn config now s (t.arm config now)
  | failed {t : Startup} (hspawn : Spawn config s false t) :
      Respawn config now s { t with state := .fatal }

/-- A spawn leaves the start deadline alone. -/
theorem Spawn.withDeadline {config : ProgramConfig} {s t : Startup} {ok : Bool}
    (h : Spawn config s ok t) (deadline : Option Instant) :
    Spawn config { s with startDeadline := deadline } ok { t with startDeadline := deadline } := by
  match h with
  | .refused => exact .refused
  | .failed state => exact .failed state
  | .started c hmarked hfresh => exact .started c hmarked hfresh

/-- What a command can do, before the start deadline is adjusted to it. -/
inductive Command (config : ProgramConfig) (s : Startup) : ProgramCommand → Startup → Prop
  /-- A signal, and a start or a restart that is refused. -/
  | idle (cmd : ProgramCommand) : Command config s cmd s
  | start {ok : Bool} {t : Startup}
      (hspawn : Spawn config { s with retryCount := 0, backoff := none } ok t) :
      Command config s .start t
  | stop (gracePeriod : Duration) :
      Command config s (.stop gracePeriod) { s.stop with backoff := none }
  | restart (gracePeriod : Duration) {ok : Bool} {t : Startup}
      (hspawn : Spawn config { s.stop with retryCount := 0, backoff := none } ok t) :
      Command config s (.restart gracePeriod) t
  | shutdown : Command config s .shutdown { s.stop with backoff := none }

/-- What a step of the actor or of a task around it can do to the view. `due` tells that the next
health message demands a restart, `stopping` that a stop or a shutdown has been asked for. -/
inductive Step (config : ProgramConfig) (due stopping : Bool) (s : Startup) :
    ProgramActor.Label → Startup → Prop
  /-- The step does not touch the view. An exit always does. -/
  | idle (l : ProgramActor.Label) (hl : l.isExit = false) : Step config due stopping s l s
  | cancelled (env : StopEnv) :
      Step config due stopping s (.iterate (.cancelled env))
        { s.stop with backoff := none, looping := false }
  | command (cmd : ProgramCommand) (env : CommandEnv) {t : Startup}
      (hcommand : Command config s cmd t) :
      Step config due stopping s (.iterate (.command cmd env))
        (t.afterCommand config s.spawnSeq env.spawn.now)
  | healthRestart (stop : StopEnv) (spawn : SpawnEnv) {t : Startup} (hdue : due = true)
      (hchild : s.child.isSome = true)
      (hspawn : Respawn config spawn.now { s.stop with startDeadline := none } t) :
      Step config due stopping s (.iterate (.health stop spawn)) t
  | backoff (spawn : SpawnEnv) {t : Startup} (hdeadline : s.backoff.isSome = true)
      (hspawn : Respawn config spawn.now { s with backoff := none } t) :
      Step config due stopping s (.iterate (.backoff spawn)) t
  | exitStopped (exitRes : Except String ExitStatus) (drain : DrainEnv) (spawn : SpawnEnv)
      (hchild : s.child.isSome = true) (hstopping : stopping = true) :
      Step config due stopping s (.iterate (.childExit exitRes drain spawn))
        { s.stop with backoff := none, startDeadline := none }
  | exitBackoff (exitRes : Except String ExitStatus) (drain : DrainEnv) (spawn : SpawnEnv)
      (c : RunningChild) (hchild : s.child = some c) (hmarked : c.markedRunning = false)
      (hretry : (s.retryCount + 1) % 2 ^ 32 ≤ config.startRetries) (deadline : Instant) :
      Step config due stopping s (.iterate (.childExit exitRes drain spawn))
        { s with
          child := none
          state := .backoff
          retryCount := (s.retryCount + 1) % 2 ^ 32
          backoff := some deadline
          startDeadline := none }
  | exitFatal (exitRes : Except String ExitStatus) (drain : DrainEnv) (spawn : SpawnEnv)
      (c : RunningChild) (hchild : s.child = some c) (hmarked : c.markedRunning = false)
      (hretry : ¬ (s.retryCount + 1) % 2 ^ 32 ≤ config.startRetries) :
      Step config due stopping s (.iterate (.childExit exitRes drain spawn))
        { s with
          child := none
          state := .fatal
          retryCount := (s.retryCount + 1) % 2 ^ 32
          startDeadline := none }
  | exitExited (exitRes : Except String ExitStatus) (drain : DrainEnv) (spawn : SpawnEnv)
      (c : RunningChild) (hchild : s.child = some c) (hmarked : c.markedRunning = true) :
      Step config due stopping s (.iterate (.childExit exitRes drain spawn))
        { s with child := none, state := .exited, startDeadline := none }
  | exitRestart (exitRes : Except String ExitStatus) (drain : DrainEnv) (spawn : SpawnEnv)
      {t : Startup} (c : RunningChild) (hchild : s.child = some c)
      (hmarked : c.markedRunning = true)
      (hspawn : Respawn config spawn.now
        { s with child := none, state := .starting, startDeadline := none } t) :
      Step config due stopping s (.iterate (.childExit exitRes drain spawn)) t
  /-- The deadline of a child that is gone, or that is seen to have exited. -/
  | expired (tryWait : Except String (Option ExitStatus))
      (hexited : ∀ c, s.child = some c → ∃ status, tryWait = .ok (some status)) :
      Step config due stopping s (.iterate (.startDeadline tryWait))
      { s with startDeadline := none }
  | startedUp (tryWait : Except String (Option ExitStatus)) (c : RunningChild)
      (hchild : s.child = some c) (hrunning : ∀ status, tryWait ≠ .ok (some status)) :
      Step config due stopping s (.iterate (.startDeadline tryWait))
        { s with
          child := some { c with markedRunning := true }
          state := .running
          retryCount := 0
          startDeadline := none }

/-- A step to a view that is known. -/
theorem Step.of_eq {config : ProgramConfig} {due stopping : Bool} {s t t' : Startup}
    {l : ProgramActor.Label} (ht : t = t') (h : Step config due stopping s l t') :
    Step config due stopping s l t :=
  ht ▸ h

end Startup

namespace ProgramActor

variable (a : ProgramActor)

/-- The start-up view of an actor. -/
def startup : Startup where
  state := a.statusSnapshot.state
  child := a.currentChild
  backoff := a.backoffDeadline
  retryCount := a.retryCount
  startDeadline := a.startDeadline
  spawnSeq := a.spawnSeq
  incarnation := a.incarnation
  looping := a.looping

/-- The next message of the health channel makes the actor restart its child. -/
def healthRestartDue : Bool :=
  a.healthRx.head?.any (·.event = .unhealthy) && a.config.autorestart ≠ .never

/-! ## The methods on the start-up view -/

@[simp]
theorem updateStatus_startup (state : ProgramState) (pid : Option ℕ) (exitCode : Option ℤ)
    (description : String) :
    (a.updateStatus state pid exitCode description).startup = { a.startup with state } := by
  ext : 1
  · exact ProgramStatus.update_state _ _ _ _ _
  all_goals rfl

@[simp]
theorem publishSystem_startup (e : SystemEvent) : (a.publishSystem e).startup = a.startup := rfl

@[simp]
theorem drainPumps_startup (c : RunningChild) (env : DrainEnv) :
    (a.drainPumps c env).startup = a.startup := rfl

@[simp]
theorem runPreStop_startup (env : StopEnv) : (a.runPreStop env).startup = a.startup := by
  simp only [runPreStop]
  split
  · rfl
  · split <;> rfl

/-- Stopping gives up the child and publishes `stopped`; the start deadline is left to the arm. -/
@[simp]
theorem stopCurrentChild_startup (gracePeriod : Duration) (env : StopEnv) :
    (a.stopCurrentChild gracePeriod env).startup = a.startup.stop := by
  simp only [stopCurrentChild]
  split
  · simp only [updateStatus_startup, drainPumps_startup, runPreStop_startup]
    rfl
  next hchild =>
    rw [updateStatus_startup]
    ext : 1
    case child => exact hchild
    all_goals rfl

@[simp]
theorem releaseChild_startup (drain : DrainEnv) :
    (a.releaseChild drain).startup = { a.startup with child := none } := by
  simp only [releaseChild]
  split <;> rfl

variable {a}

/-- Past `reapExited` the actor owns no child. -/
theorem reapExited_startup {env : SpawnEnv} {b : ProgramActor} (h : a.reapExited env = .ok b) :
    b.startup = { a.startup with child := none } := by
  simp only [reapExited] at h
  split at h
  next hchild =>
    simp only [Except.ok.injEq] at h
    subst h
    ext : 1
    case child => exact hchild
    all_goals rfl
  · split at h
    · simp only [Except.ok.injEq] at h
      subst h
      rfl
    · contradiction

/-- The `pre_start` hook touches the published state only, and only when it fails. -/
theorem runPreStart_startup {env : SpawnEnv} {r : Except ProgramError Unit} {b : ProgramActor}
    (h : a.runPreStart env = (r, b)) :
    ∃ state, b.startup = { a.startup with state } ∧ (r = .ok () → b.startup = a.startup) := by
  simp only [runPreStart] at h
  split at h
  · obtain ⟨rfl, rfl⟩ := Prod.mk.inj h
    exact ⟨_, rfl, fun _ => rfl⟩
  · split at h
    · obtain ⟨rfl, rfl⟩ := Prod.mk.inj h
      exact ⟨_, rfl, fun _ => rfl⟩
    · split at h
      · obtain ⟨rfl, rfl⟩ := Prod.mk.inj h
        exact ⟨_, rfl, fun _ => rfl⟩
      · obtain ⟨rfl, rfl⟩ := Prod.mk.inj h
        refine ⟨.fatal, updateStatus_startup _ _ _ _ _, ?_⟩
        intro hok
        contradiction

/-- An installed child is published in the state of its start-up window. -/
theorem installChild_startup (env : SpawnEnv) (pid : ℕ) :
    (a.installChild env pid).startup =
      { a.startup with
        child := some ⟨pid, decide (a.config.startSecs = 0), a.startup.incarnation + 1⟩
        state := bif decide (a.config.startSecs = 0) then .running else .starting
        spawnSeq := (a.startup.spawnSeq + 1) % 2 ^ 64
        incarnation := a.startup.incarnation + 1 } := by
  ext : 1
  case state => exact ProgramStatus.update_state _ _ _ _ _
  all_goals rfl

/-- The outcome of `spawn_child` on the start-up view. -/
theorem spawnChild_startup {env : SpawnEnv} {r : Except ProgramError Unit} {b : ProgramActor}
    (h : a.spawnChild env = (r, b)) :
    Startup.Spawn a.config a.startup r.isOk b.startup := by
  have hconfig : b.config = a.config := (a.spawnChild_lifecycle h).1
  simp only [spawnChild] at h
  split at h
  · obtain ⟨rfl, rfl⟩ := Prod.mk.inj h
    exact .refused
  split at h
  · obtain ⟨rfl, rfl⟩ := Prod.mk.inj h
    exact .refused
  next a₁ hreap =>
    have hstart₁ := reapExited_startup hreap
    generalize ha₁ : { a₁ with manualStop := false } = a₁' at h
    have hstart₁' : a₁'.startup = { a.startup with child := none } := by
      rw [← ha₁]
      exact hstart₁
    split at h
    next e a₂ hhook =>
      obtain ⟨state, hstart₂, -⟩ := runPreStart_startup hhook
      obtain ⟨rfl, rfl⟩ := Prod.mk.inj h
      rw [hstart₂, hstart₁']
      exact .failed state
    next a₂ hhook =>
      obtain ⟨-, -, hstart₂⟩ := runPreStart_startup hhook
      have hstart := (hstart₂ rfl).trans hstart₁'
      split at h
      · obtain ⟨rfl, rfl⟩ := Prod.mk.inj h
        rw [hstart]
        exact .failed _
      split at h
      · obtain ⟨rfl, rfl⟩ := Prod.mk.inj h
        -- The process was created and killed again; the view does not count it.
        rw [show ProgramActor.startup { a₂ with
          spawned := a₂.spawned + 1 } = a₂.startup from rfl, hstart]
        exact .failed _
      next pid _ =>
        obtain ⟨rfl, rfl⟩ := Prod.mk.inj h
        have hconfig₂ : a₂.config = a.config := hconfig
        rw [installChild_startup, show ProgramActor.startup { a₂ with
          spawned := a₂.spawned + 1 } = a₂.startup from rfl, hstart, hconfig₂]
        exact Startup.Spawn.started
          ⟨pid, decide (a.config.startSecs = 0), a.startup.incarnation + 1⟩ rfl rfl

/-- `spawnChild_startup` for an actor whose view is known. -/
theorem spawnChild_spawns {config : ProgramConfig} {s : Startup} {env : SpawnEnv}
    {r : Except ProgramError Unit} {b : ProgramActor} (h : a.spawnChild env = (r, b))
    (hconfig : a.config = config) (hstart : a.startup = s) :
    Startup.Spawn config s r.isOk b.startup := by
  subst hconfig hstart
  exact spawnChild_startup h

/-! ## The arms of the loop -/

/-- `handle_command` on the start-up view. -/
theorem handleCommand_startup (cmd : ProgramCommand) (env : CommandEnv) :
    Startup.Command a.config a.startup cmd (a.handleCommand cmd env).2.startup := by
  match cmd with
  | .start =>
    simp only [handleCommand]
    split
    · exact .idle _
    · exact .start (spawnChild_spawns rfl rfl rfl)
  | .stop gracePeriod =>
    simp only [handleCommand, stopCurrentChild_startup]
    exact .stop gracePeriod
  | .restart gracePeriod =>
    simp only [handleCommand]
    split
    · exact .idle _
    · refine .restart gracePeriod (spawnChild_spawns rfl ?_ ?_)
      · exact stopCurrentChild_config _ _ _
      · exact stopCurrentChild_startup _ _ _
  | .signal _ =>
    simp only [handleCommand]
    split <;> exact .idle _
  | .shutdown =>
    simp only [handleCommand]
    have hstop := stopCurrentChild_startup
      { a with isShuttingDown := true, manualStop := true, backoffDeadline := none }
      a.config.stopWaitSecs env.stop
    exact hstop ▸ .shutdown

/-- The arm of the command channel adjusts the start deadline to what the command did. -/
theorem select_command_startup (cmd : ProgramCommand) (env : CommandEnv) :
    (a.select (.command cmd env)).startup =
      (a.handleCommand cmd env).2.startup.afterCommand (a.handleCommand cmd env).2.config
        a.startup.spawnSeq env.spawn.now := by
  simp only [select, Startup.afterCommand]
  generalize (a.handleCommand cmd env).2 = b
  have hseq : b.startup.spawnSeq = b.spawnSeq := rfl
  have hchild : b.startup.child = b.currentChild := rfl
  rw [hseq, hchild, show a.startup.spawnSeq = a.spawnSeq from rfl]
  split
  · split <;> rfl
  · split <;> rfl

/-- What the loop does after a successful spawn. -/
theorem arm_startup (b : ProgramActor) (now : Instant) :
    (if b.config.startSecs ≠ 0 then
      { b with startDeadline := some (now + b.config.startSecs) }
    else b).startup = b.startup.arm b.config now := by
  simp only [Startup.arm]
  split <;> rfl

/-- The arm of the health channel on the start-up view. -/
theorem handleHealthEvent_startup (event : HealthEvent) (stop : StopEnv) (spawn : SpawnEnv) :
    (a.handleHealthEvent event stop spawn).startup = a.startup ∨
      (event = .unhealthy ∧ a.config.autorestart ≠ .never ∧
        Startup.Respawn a.config spawn.now { a.startup.stop with startDeadline := none }
          (a.handleHealthEvent event stop spawn).startup) := by
  match event with
  | .healthy =>
    left
    simp only [handleHealthEvent]
    split <;> rfl
  | .unhealthy =>
    simp only [handleHealthEvent]
    generalize hb : (if a.statusSnapshot.health ≠ .unhealthy then _ else _ : ProgramActor) = b
    have hconfig : b.config = a.config := by
      rw [← hb]
      split <;> rfl
    have hstart : b.startup = a.startup := by
      rw [← hb]
      split <;> rfl
    split
    next hpolicy =>
      right
      refine ⟨trivial, hconfig ▸ hpolicy, ?_⟩
      have hconfig₁ := (b.stopCurrentChild_config b.config.stopWaitSecs stop).trans hconfig
      have hstart₁ := b.stopCurrentChild_startup b.config.stopWaitSecs stop
      rw [hstart] at hstart₁
      generalize b.stopCurrentChild b.config.stopWaitSecs stop = b₁ at hconfig₁ hstart₁ ⊢
      -- The arm rewrites the start deadline whatever the spawn does.
      split
      next e b₂ hspawn =>
        have hout := (spawnChild_spawns hspawn hconfig₁ hstart₁).withDeadline none
        rw [updateStatus_startup]
        exact .failed hout
      next b₂ hspawn =>
        have hout := (spawnChild_spawns hspawn hconfig₁ hstart₁).withDeadline none
        have hconfig₂ : b₂.config = a.config :=
          (spawnChild_spawn _ hspawn hconfig₁ rfl).1
        have harm := arm_startup { b₂ with startDeadline := none } spawn.now
        rw [show ProgramActor.config { b₂ with startDeadline := none } = a.config from hconfig₂]
          at harm
        rw [hconfig₂, harm]
        exact .started hout
    next => exact .inl hstart

/-- The arm of the backoff timer on the start-up view. -/
theorem handleBackoff_startup (spawn : SpawnEnv)
    (h : (Branch.backoff spawn).enabled a = true) :
    Startup.Respawn a.config spawn.now { a.startup with backoff := none }
      (a.handleBackoff spawn).startup := by
  simp only [Branch.enabled, Bool.and_eq_true, Bool.not_eq_true'] at h
  have hflags : ¬ (a.isShuttingDown = true ∨ a.manualStop = true) := by
    simp [h.1.2, h.2]
  simp only [handleBackoff, if_neg hflags]
  split
  next e b hspawn =>
    rw [updateStatus_startup]
    exact .failed (spawnChild_spawns hspawn rfl rfl)
  next b hspawn =>
    rw [arm_startup, (spawnChild_spawn _ hspawn rfl rfl).1]
    exact .started (spawnChild_spawns hspawn rfl rfl)

/-- The automatic restart on the start-up view, with the deadline its caller arms. -/
theorem autorestartChild_startup {config : ProgramConfig} {s : Startup} {exitCode : Option ℤ}
    {spawn : SpawnEnv} {restarted : Bool} {b : ProgramActor}
    (h : a.autorestartChild exitCode spawn = (restarted, b)) (hconfig : a.config = config)
    (hstart : a.startup = s) :
    Startup.Respawn config spawn.now { s with state := .starting }
      (if restarted = true ∧ b.config.startSecs ≠ 0 then
        { b with startDeadline := some (spawn.now + b.config.startSecs) }
      else b).startup := by
  subst hconfig hstart
  simp only [autorestartChild] at h
  split at h
  next e b₁ hspawn =>
    obtain ⟨rfl, rfl⟩ := Prod.mk.inj h
    simp only [Bool.false_eq_true, false_and, if_false, updateStatus_startup]
    exact .failed (spawnChild_spawns hspawn rfl (updateStatus_startup _ _ _ _ _))
  next b₁ hspawn =>
    obtain ⟨rfl, rfl⟩ := Prod.mk.inj h
    simp only [true_and]
    rw [arm_startup, (spawnChild_spawn _ hspawn rfl rfl).1]
    exact .started (spawnChild_spawns hspawn rfl (updateStatus_startup _ _ _ _ _))

/-- The arm of the child's exit on the start-up view. -/
theorem select_childExit_startup (due : Bool) (exitRes : Except String ExitStatus)
    (drain : DrainEnv) (spawn : SpawnEnv) (hchild : a.currentChild.isSome = true) :
    Startup.Step a.config due (a.isShuttingDown || a.manualStop) a.startup
      (.iterate (.childExit exitRes drain spawn))
      (a.select (.childExit exitRes drain spawn)).startup := by
  obtain ⟨c, hc⟩ := Option.isSome_iff_exists.mp hchild
  have hview : a.startup.child = some c := hc
  simp only [select, handleChildExit, hc, Option.map_some, Option.getD_some]
  generalize hr : ProgramActor.releaseChild _ drain = r
  have hconfig : r.config = a.config := by
    rw [← hr, releaseChild_config]
  have hstart : r.startup = { a.startup with child := none, startDeadline := none } := by
    rw [← hr, releaseChild_startup]
    rfl
  have hlife : r.lifecycle = { a.lifecycle with child := none } := by
    rw [← hr, releaseChild_lifecycle]
    rfl
  have hdown : r.isShuttingDown = a.isShuttingDown := congrArg Lifecycle.isShuttingDown hlife
  have hstop : r.manualStop = a.manualStop := congrArg Lifecycle.manualStop hlife
  by_cases hflags : r.isShuttingDown = true ∨ r.manualStop = true
  · -- The exit ends a stop.
    rw [if_pos hflags]
    simp only [Bool.false_eq_true, false_and, if_false, updateStatus_startup]
    have hbackoff := congrArg (fun s : Startup => { s with backoff := none, state := .stopped })
      hstart
    have hstopping : (a.isShuttingDown || a.manualStop) = true := by
      rw [Bool.or_eq_true, ← hdown, ← hstop]
      exact hflags
    exact .of_eq hbackoff (.exitStopped exitRes drain spawn hchild hstopping)
  rw [if_neg hflags]
  have hretry : r.retryCount = a.startup.retryCount := congrArg Startup.retryCount hstart
  by_cases hmarked : c.markedRunning = true
  · rw [if_neg (not_not.mpr hmarked)]
    split
    · generalize hrestart : r.autorestartChild (exitCodeOf exitRes) spawn = out
      obtain ⟨restarted, b⟩ := out
      exact .exitRestart exitRes drain spawn c hview hmarked
        (autorestartChild_startup hrestart hconfig hstart)
    · simp only [Bool.false_eq_true, false_and, if_false, updateStatus_startup, hstart]
      exact .exitExited exitRes drain spawn c hview hmarked
  · -- A failed start: the counter decides between a retry and the end.
    rw [if_pos hmarked]
    rw [Bool.not_eq_true] at hmarked
    split
    next hle =>
      rw [hretry, hconfig] at hle
      simp only [Bool.false_eq_true, false_and, if_false]
      generalize spawn.now + backoffDelay _ = deadline
      have hview' := congrArg (fun s : Startup =>
        { s with
          state := .backoff
          retryCount := (s.retryCount + 1) % 2 ^ 32
          backoff := some deadline }) hstart
      have hpub := fun exitCode desc => congrArg
        (fun s : Startup => { s with backoff := some deadline })
        (updateStatus_startup { r with retryCount := (r.retryCount + 1) % 2 ^ 32 } .backoff none
          exitCode desc)
      exact .of_eq ((hpub _ _).trans hview')
        (.exitBackoff exitRes drain spawn c hview hmarked hle deadline)
    next hgt =>
      rw [hretry, hconfig] at hgt
      simp only [Bool.false_eq_true, false_and, if_false, updateStatus_startup]
      have hview' := congrArg (fun s : Startup =>
        { s with state := .fatal, retryCount := (s.retryCount + 1) % 2 ^ 32 }) hstart
      exact hview' ▸ .exitFatal exitRes drain spawn c hview hmarked hgt

/-- The arm of the start deadline on the start-up view. -/
theorem handleStartDeadline_startup (due stopping : Bool)
    (tryWait : Except String (Option ExitStatus)) :
    Startup.Step a.config due stopping a.startup (.iterate (.startDeadline tryWait))
      (a.handleStartDeadline tryWait).startup := by
  simp only [handleStartDeadline]
  split
  next hnone =>
    refine .expired tryWait ?_
    intro c hc
    rw [show a.startup.child = none from hnone] at hc
    contradiction
  next c hc =>
    split
    next status =>
      exact .expired _ fun _ _ => ⟨status, rfl⟩
    next hrunning =>
      rw [updateStatus_startup]
      exact .startedUp tryWait c hc hrunning

@[simp]
theorem queryMetrics_startup (metrics : Except ProgramError ProcessMetrics) :
    (a.queryMetrics metrics).startup = a.startup := by
  simp only [queryMetrics]
  split <;> rfl

/-- Every arm of the loop makes a start-up step. -/
theorem select_startup {b : Branch} (h : b.enabled a = true) :
    Startup.Step a.config a.healthRestartDue (a.isShuttingDown || a.manualStop) a.startup
      (.iterate b) (a.select b).startup := by
  match b with
  | .cancelled stop =>
    simp only [select, updateStatus_startup]
    have hstop := stopCurrentChild_startup
      { a with isShuttingDown := true, manualStop := true, backoffDeadline := none }
      a.config.stopWaitSecs stop
    have hview := congrArg (fun s : Startup => { s with looping := false, state := .stopped }) hstop
    exact hview ▸ .cancelled stop
  | .command cmd env =>
    have hconfig : (a.handleCommand cmd env).2.config = a.config :=
      (handleCommand_refines cmd env rfl).1
    rw [select_command_startup, hconfig]
    exact .command cmd env (handleCommand_startup cmd env)
  | .health stop spawn =>
    simp only [select]
    split
    next => exact .idle _ rfl
    next msg rest hrx =>
      obtain hsame | ⟨hevent, hpolicy, hspawn⟩ := handleHealthEvent_startup
        (a := { a with healthRx := rest }) msg.event stop spawn
      · rw [hsame]
        exact .idle _ rfl
      · simp only [Branch.enabled, Bool.and_eq_true] at h
        refine .healthRestart stop spawn ?_ h.1.1 hspawn
        simpa [healthRestartDue, hrx, hevent] using hpolicy
  | .backoff spawn =>
    have hdeadline : a.backoffDeadline.isSome = true := by
      simp only [Branch.enabled, Bool.and_eq_true] at h
      exact h.1.1
    exact .backoff spawn hdeadline (handleBackoff_startup spawn h)
  | .metricsTick _ metrics =>
    simp only [select, queryMetrics_startup]
    exact .idle _ rfl
  | .activityNotified _ _ metrics =>
    simp only [select, queryMetrics_startup]
    exact .idle _ rfl
  | .childExit exitRes drain spawn => exact select_childExit_startup _ exitRes drain spawn h
  | .startDeadline tryWait => exact handleStartDeadline_startup _ _ tryWait

/-- The actor refines its start-up: every step of the actor or of a task around it is a start-up
step under the same label. -/
theorem next_startup {l : Label} {b : ProgramActor} (h : a.next l = some b) :
    Startup.Step a.config a.healthRestartDue (a.isShuttingDown || a.manualStop) a.startup l
      b.startup := by
  match l with
  | .iterate br =>
    simp only [next, Option.ite_none_right_eq_some, Option.some.injEq, Bool.and_eq_true] at h
    obtain ⟨⟨-, hen⟩, rfl⟩ := h
    exact select_startup hen
  | .cancel =>
    obtain rfl := Option.some.inj h
    exact .idle _ rfl
  | .probeBegin inc =>
    simp only [next] at h
    split at h
    · split at h
      · contradiction
      · obtain rfl := Option.some.inj h
        exact .idle _ rfl
    · contradiction
  | .probeResult inc isOk =>
    simp only [next] at h
    split at h
    · split at h
      · obtain rfl := Option.some.inj h
        exact .idle _ rfl
      · contradiction
    · contradiction

end ProgramActor

end Rsupervisord
