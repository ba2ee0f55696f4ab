import Rsupervisord.Program.Actor

/-!
# Life cycle of a program actor

The life-cycle view of a program actor forgets everything except the published state and process
id, the owned child, the pending retry, the two stop flags and the number of processes created.
`Lifecycle.Step` says, once and for all arms of the loop, what a step can do to this view, and
`step_lifecycle` proves that the actor refines it: every step of the actor is a life-cycle step
under the same label.

The relation `Lifecycle.Spawn` lists the outcomes of a spawn. A spawn is refused, or it fails in
the hook, or it fails at one of the steps behind the hook, or it installs a child. Only the third
outcome leaves the published status as it was although a child that had exited was given up.
-/

namespace Rsupervisord

namespace ProgramActor.Label

/-- The step processes a start or a restart. -/
def startsOrRestarts : Label → Bool
  | .iterate (.command .start _) => true
  | .iterate (.command (.restart _) _) => true
  | _ => false

/-- The step processes a stop. -/
def stops : Label → Bool
  | .iterate (.command (.stop _) _) => true
  | _ => false

/-- The step processes a shutdown or the cancellation of the actor. -/
def shutsDown : Label → Bool
  | .iterate (.command .shutdown _) => true
  | .iterate (.cancelled _) => true
  | _ => false

end ProgramActor.Label

/-- The part of a program actor that its life cycle is about. -/
structure Lifecycle where
  state : ProgramState
  pid : Option ℕ
  child : Option RunningChild
  backoff : Option Instant
  manualStop : Bool
  isShuttingDown : Bool
  spawned : ℕ

namespace Lifecycle

/-- Publish a state and a process id. -/
def publish (s : Lifecycle) (state : ProgramState) (pid : Option ℕ) : Lifecycle :=
  { s with state, pid }

/-- Give up the child and publish `stopped`. -/
def stop (s : Lifecycle) : Lifecycle :=
  { s with child := none }.publish .stopped none

end Lifecycle

/-- The child owned before a spawn is seen to have exited. -/
def SpawnEnv.childExited (env : SpawnEnv) : Bool :=
  match env.tryWait with
  | .ok (some _) => true
  | _ => false

/-- The `pre_start` hook is absent, succeeds, or its failure is ignored. -/
def SpawnEnv.hookPasses (env : SpawnEnv) (config : ProgramConfig) : Prop :=
  config.preStart = none ∨ runHook config.hookTimeoutSecs env.hook = .ok () ∨
    config.preStartIgnoreFailure = true

instance (env : SpawnEnv) (config : ProgramConfig) : Decidable (env.hookPasses config) :=
  inferInstanceAs (Decidable (_ ∨ _ ∨ _))

/-- A spawn passes the hook and then fails at a step before the status update. -/
def SpawnEnv.failsAfterHook (env : SpawnEnv) (config : ProgramConfig) : Prop :=
  env.hookPasses config ∧ (env.launch config.name).isOk = false

instance (env : SpawnEnv) (config : ProgramConfig) : Decidable (env.failsAfterHook config) :=
  inferInstanceAs (Decidable (_ ∧ _))

/-- Every step of a spawn that is not refused succeeds. -/
def SpawnEnv.succeeds (env : SpawnEnv) (config : ProgramConfig) : Prop :=
  env.hookPasses config ∧ (env.launch config.name).isOk = true

instance (env : SpawnEnv) (config : ProgramConfig) : Decidable (env.succeeds config) :=
  inferInstanceAs (Decidable (_ ∧ _))

namespace Lifecycle

/-- Outcomes of a spawn: whether it succeeds and the life cycle it leaves. -/
inductive Spawn (config : ProgramConfig) (env : SpawnEnv) (s : Lifecycle) :
    Bool → Lifecycle → Prop
  /-- The actor is shutting down or its child still runs. -/
  | refused (h : s.isShuttingDown = true ∨ s.child.isSome = true ∧ env.childExited = false) :
      Spawn config env s false s
  /-- The hook fails. -/
  | hookFailed (hdown : s.isShuttingDown = false)
      (hchild : s.child = none ∨ env.childExited = true) (hhook : ¬ env.hookPasses config) :
      Spawn config env s false
        ({ s with child := none, manualStop := false }.publish .fatal none)
  /-- A step behind the hook fails; the process may have been created and killed again. -/
  | launchFailed (hdown : s.isShuttingDown = false)
      (hchild : s.child = none ∨ env.childExited = true) (hfail : env.failsAfterHook config)
      (n : ℕ) :
      Spawn config env s false
        { s with child := none, manualStop := false, spawned := s.spawned + n }
  /-- A child is installed. -/
  | started (hdown : s.isShuttingDown = false)
      (hchild : s.child = none ∨ env.childExited = true)
      (hsucceeds : env.succeeds config) (c : RunningChild) (state : ProgramState)
      (hstate : state = .starting ∨ state = .running) :
      Spawn config env s true
        ({ s with child := some c, manualStop := false, spawned := s.spawned + 1 }.publish
          state (some c.pid))

/-- A spawn whose failure the caller publishes as `fatal`. -/
def SpawnOrFatal (config : ProgramConfig) (env : SpawnEnv) (s t : Lifecycle) : Prop :=
  Spawn config env s true t ∨ ∃ u, Spawn config env s false u ∧ t = u.publish .fatal none

/-- What a step of the actor or of a task around it can do to the life cycle. -/
inductive Step (config : ProgramConfig) (s : Lifecycle) :
    ProgramActor.Label → Lifecycle → Prop
  /-- The step does not touch the life cycle. A stop and a shutdown always do. -/
  | idle (l : ProgramActor.Label) (hl : (l.stops || l.shutsDown) = false) : Step config s l s
  | cancelled (env : StopEnv) :
      Step config s (.iterate (.cancelled env))
        { s with isShuttingDown := true, manualStop := true, backoff := none }.stop
  | start (env : CommandEnv) (ok : Bool) (t : Lifecycle) (hdown : s.isShuttingDown = false)
      (hspawn : Spawn config env.spawn { s with manualStop := false, backoff := none } ok t) :
      Step config s (.iterate (.command .start env)) t
  | stop (gracePeriod : Duration) (env : CommandEnv) :
      Step config s (.iterate (.command (.stop gracePeriod) env))
        { s with manualStop := true, backoff := none }.stop
  | restart (gracePeriod : Duration) (env : CommandEnv) (ok : Bool) (t : Lifecycle)
      (hdown : s.isShuttingDown = false)
      (hspawn : Spawn config env.spawn
        { s.stop with manualStop := false, backoff := none } ok t) :
      Step config s (.iterate (.command (.restart gracePeriod) env)) t
  | shutdown (env : CommandEnv) :
      Step config s (.iterate (.command .shutdown env))
        { s with isShuttingDown := true, manualStop := true, backoff := none }.stop
  | healthRestart (stop : StopEnv) (spawn : SpawnEnv) (t : Lifecycle)
      (hchild : s.child.isSome = true) (hspawn : SpawnOrFatal config spawn s.stop t) :
      Step config s (.iterate (.health stop spawn)) t
  | backoff (spawn : SpawnEnv) (t : Lifecycle) (hdeadline : s.backoff.isSome = true)
      (hdown : s.isShuttingDown = false) (hstop : s.manualStop = false)
      (hspawn : SpawnOrFatal config spawn { s with backoff := none } t) :
      Step config s (.iterate (.backoff spawn)) t
  | exitStopped (exitRes : Except String ExitStatus) (drain : DrainEnv) (spawn : SpawnEnv)
      (hchild : s.child.isSome = true)
      (hstop : s.isShuttingDown = true ∨ s.manualStop = true) :
      Step config s (.iterate (.childExit exitRes drain spawn)) { s with backoff := none }.stop
  | exitBackoff (exitRes : Except String ExitStatus) (drain : DrainEnv) (spawn : SpawnEnv)
      (c : RunningChild) (hchild : s.child = some c) (hrunning : c.markedRunning = false)
      (hdown : s.isShuttingDown = false) (hstop : s.manualStop = false) (deadline : Instant) :
      Step config s (.iterate (.childExit exitRes drain spawn))
        ({ s with child := none, backoff := some deadline }.publish .backoff none)
  | exitFatal (exitRes : Except String ExitStatus) (drain : DrainEnv) (spawn : SpawnEnv)
      (c : RunningChild) (hchild : s.child = some c) (hrunning : c.markedRunning = false)
      (hdown : s.isShuttingDown = false) (hstop : s.manualStop = false) :
      Step config s (.iterate (.childExit exitRes drain spawn))
        ({ s with child := none }.publish .fatal none)
  | exitExited (exitRes : Except String ExitStatus) (drain : DrainEnv) (spawn : SpawnEnv)
      (c : RunningChild) (hchild : s.child = some c) (hrunning : c.markedRunning = true)
      (hdown : s.isShuttingDown = false) (hstop : s.manualStop = false) :
      Step config s (.iterate (.childExit exitRes drain spawn))
        ({ s with child := none }.publish .exited none)
  | exitRestart (exitRes : Except String ExitStatus) (drain : DrainEnv) (spawn : SpawnEnv)
      (t : Lifecycle) (c : RunningChild) (hchild : s.child = some c)
      (hrunning : c.markedRunning = true) (hdown : s.isShuttingDown = false)
      (hstop : s.manualStop = false)
      (hspawn : SpawnOrFatal config spawn
        ({ s with child := none }.publish .starting none) t) :
      Step config s (.iterate (.childExit exitRes drain spawn)) t
  | startedUp (tryWait : Except String (Option ExitStatus)) (c : RunningChild)
      (hchild : s.child = some c) :
      Step config s (.iterate (.startDeadline tryWait))
        ({ s with child := some { c with markedRunning := true } }.publish .running (some c.pid))

end Lifecycle

@[simp]
theorem ProgramStatus.update_state (s : ProgramStatus) (state : ProgramState) (pid : Option ℕ)
    (exitCode : Option ℤ) (description : String) :
    (s.update state pid exitCode description).state = state := by
  simp only [ProgramStatus.update]
  split <;> rfl

@[simp]
theorem ProgramStatus.update_pid (s : ProgramStatus) (state : ProgramState) (pid : Option ℕ)
    (exitCode : Option ℤ) (description : String) :
    (s.update state pid exitCode description).pid = pid := by
  simp only [ProgramStatus.update]
  split <;> rfl

namespace ProgramActor

variable (a : ProgramActor)

/-- The life-cycle view of an actor. -/
def lifecycle : Lifecycle where
  state := a.statusSnapshot.state
  pid := a.statusSnapshot.pid
  child := a.currentChild
  backoff := a.backoffDeadline
  manualStop := a.manualStop
  isShuttingDown := a.isShuttingDown
  spawned := a.spawned

/-! ## The methods on the life-cycle view -/

@[simp]
theorem updateStatus_lifecycle (state : ProgramState) (pid : Option ℕ) (exitCode : Option ℤ)
    (description : String) :
    (a.updateStatus state pid exitCode description).lifecycle = a.lifecycle.publish state pid := by
  simp [updateStatus, lifecycle, Lifecycle.publish]

@[simp]
theorem updateStatus_config (state : ProgramState) (pid : Option ℕ) (exitCode : Option ℤ)
    (description : String) :
    (a.updateStatus state pid exitCode description).config = a.config := rfl

@[simp]
theorem publishSystem_lifecycle (e : SystemEvent) :
    (a.publishSystem e).lifecycle = a.lifecycle := rfl

@[simp]
theorem publishSystem_config (e : SystemEvent) : (a.publishSystem e).config = a.config := rfl

@[simp]
theorem drainPumps_lifecycle (c : RunningChild) (env : DrainEnv) :
    (a.drainPumps c env).lifecycle = a.lifecycle := rfl

@[simp]
theorem drainPumps_config (c : RunningChild) (env : DrainEnv) :
    (a.drainPumps c env).config = a.config := rfl

/-- The `pre_stop` hook publishes events only. -/
@[simp]
theorem runPreStop_lifecycle (env : StopEnv) : (a.runPreStop env).lifecycle = a.lifecycle := by
  simp only [runPreStop]
  split
  · rfl
  · split <;> rfl

@[simp]
theorem runPreStop_config (env : StopEnv) : (a.runPreStop env).config = a.config := by
  simp only [runPreStop]
  split
  · rfl
  · split <;> rfl

/-- Stopping leaves no child and publishes `stopped`, whether there was a child or not. -/
@[simp]
theorem stopCurrentChild_lifecycle (gracePeriod : Duration) (env : StopEnv) :
    (a.stopCurrentChild gracePeriod env).lifecycle = a.lifecycle.stop := by
  cases hchild : a.currentChild with
  | none => simp [stopCurrentChild, hchild, Lifecycle.stop, lifecycle, Lifecycle.publish,
      updateStatus]
  | some c =>
      simp only [stopCurrentChild, hchild, updateStatus_lifecycle, drainPumps_lifecycle,
        runPreStop_lifecycle]
      rfl

@[simp]
theorem stopCurrentChild_config (gracePeriod : Duration) (env : StopEnv) :
    (a.stopCurrentChild gracePeriod env).config = a.config := by
  cases hchild : a.currentChild with
  | none => simp [stopCurrentChild, hchild]
  | some c => simp [stopCurrentChild, hchild]

/-- Past `reapExited` the actor owns no child: it had none, or the one it had has exited. -/
theorem reapExited_ok {env : SpawnEnv} {b : ProgramActor} (h : a.reapExited env = .ok b) :
    b.config = a.config ∧ b.lifecycle = { a.lifecycle with child := none } ∧
      (a.currentChild = none ∨ env.childExited = true) := by
  cases hchild : a.currentChild with
  | none =>
      simp only [reapExited, hchild, Except.ok.injEq] at h
      subst h
      exact ⟨rfl, by simp [lifecycle, hchild], .inl rfl⟩
  | some c =>
      simp only [reapExited, hchild] at h
      split at h
      next status hwait =>
        simp only [Except.ok.injEq] at h
        subst h
        exact ⟨rfl, rfl, .inr (by simp [SpawnEnv.childExited, hwait])⟩
      next => cases h

/-- `reapExited` fails only while the actor owns a child that is not known to have exited. -/
theorem reapExited_error {env : SpawnEnv} {e : ProgramError} (h : a.reapExited env = .error e) :
    a.currentChild.isSome = true ∧ env.childExited = false := by
  cases hchild : a.currentChild with
  | none => simp [reapExited, hchild] at h
  | some c =>
      simp only [reapExited, hchild] at h
      split at h
      next => cases h
      next hwait =>
        refine ⟨rfl, ?_⟩
        simp only [SpawnEnv.childExited]

/-- A passed `pre_start` hook leaves the life cycle as it was. -/
theorem runPreStart_ok {env : SpawnEnv} {b : ProgramActor} (h : a.runPreStart env = (.ok (), b)) :
    b.config = a.config ∧ b.lifecycle = a.lifecycle ∧ env.hookPasses a.config := by
  simp only [runPreStart] at h
  split at h
  next hhook =>
    cases h
    exact ⟨rfl, rfl, .inl hhook⟩
  next =>
    split at h
    next hrun =>
      cases h
      exact ⟨rfl, rfl, .inr (.inl hrun)⟩
    next =>
      split at h
      next hignore =>
        cases h
        exact ⟨rfl, rfl, .inr (.inr hignore)⟩
      next => cases h

/-- A failed `pre_start` hook publishes `fatal`. -/
theorem runPreStart_error {env : SpawnEnv} {b : ProgramActor} {e : ProgramError}
    (h : a.runPreStart env = (.error e, b)) :
    b.config = a.config ∧ b.lifecycle = a.lifecycle.publish .fatal none ∧
      ¬ env.hookPasses a.config := by
  simp only [runPreStart] at h
  split at h
  next => cases h
  next hook hhook =>
    split at h
    next => cases h
    next err hrun =>
      split at h
      next => cases h
      next hignore =>
        simp only [publishSystem_config] at hrun hignore
        cases h
        refine ⟨rfl, by simp, ?_⟩
        simp [SpawnEnv.hookPasses, hhook, hrun, hignore]

/-- Installing a child publishes its process id and owns it. -/
theorem installChild_lifecycle (env : SpawnEnv) (pid : ℕ) :
    (a.installChild env pid).config = a.config ∧
      ∃ (c : RunningChild) (state : ProgramState), (state = .starting ∨ state = .running) ∧
        (a.installChild env pid).lifecycle =
          { a.lifecycle with child := some c }.publish state (some c.pid) := by
  refine ⟨rfl, ⟨pid, a.config.startSecs = 0, a.incarnation + 1⟩,
    if a.config.startSecs = 0 then .running else .starting, ?_, ?_⟩
  · split
    · exact .inr rfl
    · exact .inl rfl
  · simp [installChild, lifecycle, updateStatus, Lifecycle.publish]

/-- The outcome of `spawn_child` on the life-cycle view. -/
theorem spawnChild_lifecycle {env : SpawnEnv} {r : Except ProgramError Unit} {b : ProgramActor}
    (h : a.spawnChild env = (r, b)) :
    b.config = a.config ∧ Lifecycle.Spawn a.config env a.lifecycle r.isOk b.lifecycle := by
  simp only [spawnChild] at h
  split at h
  next hdown =>
    cases h
    exact ⟨rfl, .refused (.inl hdown)⟩
  next hdown =>
    have hdown : a.lifecycle.isShuttingDown = false := by
      simpa [lifecycle] using hdown
    split at h
    next e hreap =>
      cases h
      exact ⟨rfl, .refused (.inr (a.reapExited_error hreap))⟩
    next a₁ hreap =>
      obtain ⟨hcfg₁, hlife₁, hchild⟩ := a.reapExited_ok hreap
      have hlife₁' : { a₁ with manualStop := false }.lifecycle =
          { a.lifecycle with child := none, manualStop := false } :=
        congrArg (fun s : Lifecycle => { s with manualStop := false }) hlife₁
      split at h
      next e a₂ hhook =>
        obtain ⟨hcfg₂, hlife₂, hfail⟩ := runPreStart_error _ hhook
        have hfail : ¬ env.hookPasses a.config := by
          rw [← hcfg₁]
          exact hfail
        cases h
        refine ⟨hcfg₂.trans hcfg₁, ?_⟩
        rw [hlife₂, hlife₁']
        exact .hookFailed hdown hchild hfail
      next a₂ hhook =>
        obtain ⟨hcfg₂, hlife₂, hpass⟩ := runPreStart_ok _ hhook
        have hcfg : a₂.config = a.config := hcfg₂.trans hcfg₁
        have hlife : a₂.lifecycle = { a.lifecycle with child := none, manualStop := false } :=
          hlife₂.trans hlife₁'
        have hpass : env.hookPasses a.config := by
          rw [← hcfg₁]
          exact hpass
        split at h
        next e hcreate =>
          have hlaunch : env.launch a.config.name = .error e := by
            simp [SpawnEnv.launch, ← hcfg, hcreate, bind, Except.bind]
          cases h
          refine ⟨hcfg, ?_⟩
          rw [hlife]
          exact .launchFailed hdown hchild ⟨hpass, by rw [hlaunch]; rfl⟩ 0
        next hcreate =>
          have hlife' : { a₂ with spawned := a₂.spawned + 1 }.lifecycle =
              { a.lifecycle with
                child := none, manualStop := false, spawned := a.lifecycle.spawned + 1 } :=
            congrArg (fun s : Lifecycle => { s with spawned := s.spawned + 1 }) hlife
          split at h
          next e hattach =>
            have hlaunch : env.launch a.config.name = .error e := by
              simp [SpawnEnv.launch, ← hcfg, hcreate, hattach, bind, Except.bind]
            cases h
            refine ⟨hcfg, ?_⟩
            rw [hlife']
            exact .launchFailed hdown hchild ⟨hpass, by rw [hlaunch]; rfl⟩ 1
          next pid hattach =>
            obtain ⟨hcfg₃, c, state, hstate, hlife₃⟩ :=
              installChild_lifecycle { a₂ with spawned := a₂.spawned + 1 } env pid
            have hlaunch : env.launch a.config.name = .ok pid := by
              simp [SpawnEnv.launch, ← hcfg, hcreate, hattach, bind, Except.bind]
            cases h
            refine ⟨hcfg₃.trans hcfg, ?_⟩
            rw [hlife₃, hlife']
            exact .started hdown hchild ⟨hpass, by rw [hlaunch]; rfl⟩ c state hstate

/-- `spawnChild_lifecycle` for an actor whose configuration and life cycle are known. -/
theorem spawnChild_spawn {config : ProgramConfig} {s : Lifecycle} {env : SpawnEnv}
    {r : Except ProgramError Unit} {b : ProgramActor} (h : a.spawnChild env = (r, b))
    (hcfg : a.config = config) (hlife : a.lifecycle = s) :
    b.config = config ∧ Lifecycle.Spawn config env s r.isOk b.lifecycle := by
  subst hcfg hlife
  exact a.spawnChild_lifecycle h

/-! ## The arms of the loop -/

/-- What an arm leaves: the same configuration and the outcome of a life-cycle step. -/
def RefinesStep (l : Label) (b : ProgramActor) : Prop :=
  b.config = a.config ∧ Lifecycle.Step a.config a.lifecycle l b.lifecycle

variable {a}

/-- An arm whose life cycle is known. -/
theorem RefinesStep.of_eq {l : Label} {b : ProgramActor} {t : Lifecycle}
    (hcfg : b.config = a.config) (hlife : b.lifecycle = t)
    (h : Lifecycle.Step a.config a.lifecycle l t) : a.RefinesStep l b := by
  subst hlife
  exact ⟨hcfg, h⟩

/-- An arm that touches neither the configuration nor the life cycle. -/
theorem RefinesStep.idle {l : Label} {b : ProgramActor} (hl : (l.stops || l.shutsDown) = false)
    (hcfg : b.config = a.config) (hlife : b.lifecycle = a.lifecycle) : a.RefinesStep l b :=
  .of_eq hcfg hlife (.idle l hl)

/-- `handle_command` on the life-cycle view. -/
theorem handleCommand_refines (cmd : ProgramCommand) (env : CommandEnv)
    {r : Except ProgramError Unit} {b : ProgramActor} (h : a.handleCommand cmd env = (r, b)) :
    a.RefinesStep (.iterate (.command cmd env)) b := by
  cases cmd with
  | start =>
      simp only [handleCommand] at h
      split at h
      next =>
        cases h
        exact .idle rfl rfl rfl
      next hdown =>
        obtain ⟨hcfg, hspawn⟩ := spawnChild_spawn _ h rfl rfl
        refine ⟨hcfg, .start env r.isOk _ ?_ hspawn⟩
        simpa [lifecycle] using hdown
  | stop gracePeriod =>
      simp only [handleCommand, Prod.mk.injEq] at h
      obtain ⟨-, rfl⟩ := h
      exact .of_eq (stopCurrentChild_config _ _ _) (stopCurrentChild_lifecycle _ _ _)
        (.stop gracePeriod env)
  | restart gracePeriod =>
      simp only [handleCommand] at h
      split at h
      next =>
        cases h
        exact .idle rfl rfl rfl
      next hdown =>
        have hcfg := stopCurrentChild_config
          { a with manualStop := true, retryCount := 0, backoffDeadline := none }
          gracePeriod env.stop
        have hlife := congrArg (fun s : Lifecycle => { s with manualStop := false })
          (stopCurrentChild_lifecycle
            { a with manualStop := true, retryCount := 0, backoffDeadline := none }
            gracePeriod env.stop)
        obtain ⟨hcfg', hspawn⟩ := spawnChild_spawn _ h hcfg hlife
        refine ⟨hcfg', .restart gracePeriod env r.isOk _ ?_ hspawn⟩
        simpa [lifecycle] using hdown
  | signal s =>
      simp only [handleCommand] at h
      split at h <;> (cases h; exact .idle rfl rfl rfl)
  | shutdown =>
      simp only [handleCommand, Prod.mk.injEq] at h
      obtain ⟨-, rfl⟩ := h
      have hlife := stopCurrentChild_lifecycle
        { a with isShuttingDown := true, manualStop := true, backoffDeadline := none }
        a.config.stopWaitSecs env.stop
      exact .of_eq (stopCurrentChild_config _ _ _) hlife (.shutdown env)

/-- The unhealthy restart, the backoff retry and the automatic restart keep a successful spawn. -/
theorem started_of_spawnChild {config : ProgramConfig} {s : Lifecycle} {env : SpawnEnv}
    {b : ProgramActor} (h : a.spawnChild env = (.ok (), b)) (hcfg : a.config = config)
    (hlife : a.lifecycle = s) :
    b.config = config ∧ Lifecycle.SpawnOrFatal config env s b.lifecycle := by
  obtain ⟨hcfgb, hspawn⟩ := a.spawnChild_spawn h hcfg hlife
  exact ⟨hcfgb, .inl hspawn⟩

/-- They publish a failed spawn as `fatal`. -/
theorem fatal_of_spawnChild {config : ProgramConfig} {s : Lifecycle} {env : SpawnEnv}
    {b : ProgramActor} {e : ProgramError} (h : a.spawnChild env = (.error e, b))
    (hcfg : a.config = config) (hlife : a.lifecycle = s) :
    b.config = config ∧
      Lifecycle.SpawnOrFatal config env s (b.lifecycle.publish .fatal none) := by
  obtain ⟨hcfgb, hspawn⟩ := a.spawnChild_spawn h hcfg hlife
  exact ⟨hcfgb, .inr ⟨b.lifecycle, hspawn, rfl⟩⟩

/-- The arm of the health channel on the life-cycle view. -/
theorem handleHealthEvent_refines (hchild : a.currentChild.isSome = true) (event : HealthEvent)
    (stop : StopEnv) (spawn : SpawnEnv) :
    a.RefinesStep (.iterate (.health stop spawn)) (a.handleHealthEvent event stop spawn) := by
  cases event with
  | healthy =>
      simp only [handleHealthEvent]
      split <;> exact .idle rfl rfl rfl
  | unhealthy =>
      simp only [handleHealthEvent]
      generalize hb : (if a.statusSnapshot.health ≠ .unhealthy then _ else _ : ProgramActor) = b
      have hcfg : b.config = a.config := by
        rw [← hb]
        split <;> rfl
      have hlife : b.lifecycle = a.lifecycle := by
        rw [← hb]
        split <;> rfl
      split
      next =>
        have hcfg₁ := (b.stopCurrentChild_config b.config.stopWaitSecs stop).trans hcfg
        have hlife₁ := b.stopCurrentChild_lifecycle b.config.stopWaitSecs stop
        rw [hlife] at hlife₁
        split
        next e b₁ hspawn =>
          obtain ⟨hcfg', hspawn'⟩ := fatal_of_spawnChild hspawn hcfg₁ hlife₁
          exact .of_eq hcfg' (updateStatus_lifecycle _ _ _ _ _)
            (.healthRestart stop spawn _ hchild hspawn')
        next b₁ hspawn =>
          obtain ⟨hcfg', hspawn'⟩ := started_of_spawnChild hspawn hcfg₁ hlife₁
          split <;> exact ⟨hcfg', .healthRestart stop spawn _ hchild hspawn'⟩
      next => exact .idle rfl hcfg hlife

/-- The arm of the backoff timer on the life-cycle view. -/
theorem handleBackoff_refines (spawn : SpawnEnv)
    (h : (Branch.backoff spawn).enabled a = true) :
    a.RefinesStep (.iterate (.backoff spawn)) (a.handleBackoff spawn) := by
  simp only [Branch.enabled, Bool.and_eq_true, Bool.not_eq_true'] at h
  obtain ⟨⟨hdeadline, hdown⟩, hstop⟩ := h
  have hflags : ¬ (a.isShuttingDown = true ∨ a.manualStop = true) := by
    simp [hdown, hstop]
  simp only [handleBackoff, if_neg hflags]
  split
  next e b hspawn =>
    obtain ⟨hcfg, hspawn'⟩ := fatal_of_spawnChild hspawn rfl rfl
    exact .of_eq hcfg (updateStatus_lifecycle _ _ _ _ _)
      (.backoff spawn _ hdeadline hdown hstop hspawn')
  next b hspawn =>
    obtain ⟨hcfg, hspawn'⟩ := started_of_spawnChild hspawn rfl rfl
    split <;> exact ⟨hcfg, .backoff spawn _ hdeadline hdown hstop hspawn'⟩

@[simp]
theorem releaseChild_config (drain : DrainEnv) : (a.releaseChild drain).config = a.config := by
  cases hchild : a.currentChild <;> simp [releaseChild, hchild]

/-- Giving up an exited child leaves the status to be published. -/
@[simp]
theorem releaseChild_lifecycle (drain : DrainEnv) :
    (a.releaseChild drain).lifecycle = { a.lifecycle with child := none } := by
  cases hchild : a.currentChild <;> simp [releaseChild, hchild] <;> rfl

/-- The automatic restart on the life-cycle view. -/
theorem autorestartChild_lifecycle {exitCode : Option ℤ} {spawn : SpawnEnv} {restarted : Bool}
    {b : ProgramActor} (h : a.autorestartChild exitCode spawn = (restarted, b)) :
    b.config = a.config ∧
      Lifecycle.SpawnOrFatal a.config spawn (a.lifecycle.publish .starting none) b.lifecycle := by
  simp only [autorestartChild] at h
  split at h
  next e b₁ hspawn =>
    obtain ⟨hcfg, hspawn'⟩ := fatal_of_spawnChild hspawn rfl (updateStatus_lifecycle _ _ _ _ _)
    cases h
    refine ⟨hcfg, ?_⟩
    rw [updateStatus_lifecycle]
    exact hspawn'
  next b₁ hspawn =>
    cases h
    exact started_of_spawnChild hspawn rfl (updateStatus_lifecycle _ _ _ _ _)

/-- `handle_child_exit` on the life-cycle view. -/
theorem handleChildExit_refines (exitRes : Except String ExitStatus) (drain : DrainEnv)
    (spawn : SpawnEnv) {restarted : Bool} {b : ProgramActor}
    (hchild : a.currentChild.isSome = true)
    (h : a.handleChildExit exitRes drain spawn = (restarted, b)) :
    a.RefinesStep (.iterate (.childExit exitRes drain spawn)) b := by
  obtain ⟨c, hc⟩ := Option.isSome_iff_exists.mp hchild
  have hlife : a.lifecycle.child = some c := hc
  simp only [handleChildExit, hc, Option.map_some, Option.getD_some] at h
  generalize hr : a.releaseChild drain = r at h
  have hcfg : r.config = a.config := by rw [← hr, releaseChild_config]
  have hlifer : r.lifecycle = { a.lifecycle with child := none } := by
    rw [← hr, releaseChild_lifecycle]
  have hdown : r.isShuttingDown = a.lifecycle.isShuttingDown :=
    congrArg Lifecycle.isShuttingDown hlifer
  have hstop : r.manualStop = a.lifecycle.manualStop := congrArg Lifecycle.manualStop hlifer
  split at h
  next hflags =>
    rw [hdown, hstop] at hflags
    have hlife' := congrArg (fun s : Lifecycle => { s with backoff := none }.publish .stopped none)
      hlifer
    cases h
    exact .of_eq hcfg ((updateStatus_lifecycle _ _ _ _ _).trans hlife')
      (.exitStopped exitRes drain spawn hchild hflags)
  next hflags =>
    simp only [hdown, hstop, not_or, Bool.not_eq_true] at hflags
    obtain ⟨hdown, hstop⟩ := hflags
    split at h
    next hrunning =>
      simp only [Bool.not_eq_true] at hrunning
      split at h
      next =>
        generalize spawn.now + backoffDelay _ = deadline at h
        have hlife' := congrArg (fun s : Lifecycle =>
          { s with backoff := some deadline }.publish .backoff none) hlifer
        have hpub := fun exitCode desc => congrArg
          (fun s : Lifecycle => { s with backoff := some deadline })
          (updateStatus_lifecycle { r with retryCount := (r.retryCount + 1) % 2 ^ 32 }
            .backoff none exitCode desc)
        cases h
        exact .of_eq hcfg ((hpub _ _).trans hlife')
          (.exitBackoff exitRes drain spawn c hlife hrunning hdown hstop deadline)
      next =>
        have hlife' := congrArg (fun s : Lifecycle => s.publish .fatal none) hlifer
        cases h
        exact .of_eq hcfg ((updateStatus_lifecycle _ _ _ _ _).trans hlife')
          (.exitFatal exitRes drain spawn c hlife hrunning hdown hstop)
    next hrunning =>
      simp only [not_not] at hrunning
      split at h
      next =>
        obtain ⟨hcfg', hspawn⟩ := autorestartChild_lifecycle h
        rw [hcfg, hlifer] at hspawn
        exact ⟨hcfg'.trans hcfg,
          .exitRestart exitRes drain spawn _ c hlife hrunning hdown hstop hspawn⟩
      next =>
        have hlife' := congrArg (fun s : Lifecycle => s.publish .exited none) hlifer
        cases h
        exact .of_eq hcfg ((updateStatus_lifecycle _ _ _ _ _).trans hlife')
          (.exitExited exitRes drain spawn c hlife hrunning hdown hstop)

/-- The arm of the start deadline on the life-cycle view. -/
theorem handleStartDeadline_refines (tryWait : Except String (Option ExitStatus)) :
    a.RefinesStep (.iterate (.startDeadline tryWait)) (a.handleStartDeadline tryWait) := by
  simp only [handleStartDeadline]
  split
  next => exact .idle rfl rfl rfl
  next c hc =>
    split
    next => exact .idle rfl rfl rfl
    next =>
      exact .of_eq rfl (updateStatus_lifecycle _ _ _ _ _) (.startedUp tryWait c hc)

/-- Reading the metrics leaves the life cycle alone. -/
theorem queryMetrics_refines {l : Label} (hl : (l.stops || l.shutsDown) = false)
    (metrics : Except ProgramError ProcessMetrics) : a.RefinesStep l (a.queryMetrics metrics) := by
  simp only [queryMetrics]
  split <;> exact .idle hl rfl rfl

/-- After a command only the start deadline changes. -/
theorem select_command_lifecycle (cmd : ProgramCommand) (env : CommandEnv) :
    (a.select (.command cmd env)).lifecycle = (a.handleCommand cmd env).2.lifecycle := by
  simp only [select]
  split
  · split <;> rfl
  · split <;> rfl

/-- Every arm of the loop makes a life-cycle step. -/
theorem select_refines {b : Branch} (h : b.enabled a = true) :
    a.RefinesStep (.iterate b) (a.select b) := by
  cases b with
  | cancelled stop =>
      have hlife := stopCurrentChild_lifecycle
        { a with isShuttingDown := true, manualStop := true, backoffDeadline := none }
        a.config.stopWaitSecs stop
      have hlife' := congrArg (fun s : Lifecycle => s.publish .stopped none) hlife
      exact .of_eq (stopCurrentChild_config _ _ _)
        ((updateStatus_lifecycle _ _ _ _ _).trans hlife') (.cancelled stop)
  | command cmd env =>
      have href := handleCommand_refines (a := a) cmd env rfl
      simp only [select]
      split
      · split <;> exact href
      · split <;> exact href
  | health stop spawn =>
      simp only [Branch.enabled, Bool.and_eq_true] at h
      simp only [select]
      split
      next => exact .idle rfl rfl rfl
      next msg rest _ =>
        exact handleHealthEvent_refines (a := { a with healthRx := rest }) h.1.1 msg.event stop
          spawn
  | backoff spawn => exact handleBackoff_refines spawn h
  | metricsTick active metrics => exact queryMetrics_refines rfl metrics
  | activityNotified active enabled metrics => exact queryMetrics_refines rfl metrics
  | childExit exitRes drain spawn =>
      have href := handleChildExit_refines (a := { a with startDeadline := none }) exitRes drain
        spawn h rfl
      simp only [select]
      split <;> exact href
  | startDeadline tryWait => exact handleStartDeadline_refines tryWait

/-- The actor refines its life cycle: every step of the actor or of a task around it is a
life-cycle step under the same label, and the configuration stays. -/
theorem next_refines {l : Label} {b : ProgramActor} (h : a.next l = some b) :
    a.RefinesStep l b := by
  cases l with
  | iterate br =>
      simp only [next] at h
      split at h
      next hen =>
        simp only [Bool.and_eq_true] at hen
        cases h
        exact select_refines hen.2
      next => cases h
  | cancel =>
      cases h
      exact .idle rfl rfl rfl
  | probeBegin inc =>
      simp only [next] at h
      split at h
      next =>
        split at h
        next => cases h
        next =>
          cases h
          exact .idle rfl rfl rfl
      next => cases h
  | probeResult inc isOk =>
      simp only [next] at h
      split at h
      next =>
        split at h
        next =>
          cases h
          exact .idle rfl rfl rfl
        next => cases h
      next => cases h

end ProgramActor

end Rsupervisord
