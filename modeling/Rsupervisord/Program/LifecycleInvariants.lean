import Rsupervisord.Program.Lifecycle

/-!
# Invariants of the life cycle

What holds of a program actor between two iterations of its loop. The step lemmas are about
`Lifecycle.Step`; the run theorems carry them along the executions of `ProgramActor.system`.

* `childShown_of_reachable`: an owned child is published with its process id, and no retry is
  pending while a child is owned.
* `statusAgrees_of_reachable`: the published status and the owned child agree, in executions in
  which no start gives up an exited child and then fails behind the hook.
* `retryPending_of_reachable`: a program shown in `backoff` has an enabled retry, in executions in
  which no start from `backoff` fails behind the hook.
* `no_spawn_after_stop`: no process is created after a stop until a start or a restart, and none
  after a shutdown.
-/

namespace Rsupervisord

namespace Lifecycle

variable {config : ProgramConfig} {s t : Lifecycle}

/-! ## Outcomes of a spawn -/

/-- A spawn does not touch the pending retry and does not set the stop flags. -/
theorem Spawn.frame {env : SpawnEnv} {ok : Bool} (h : Spawn config env s ok t) :
    t.backoff = s.backoff ∧ t.isShuttingDown = s.isShuttingDown ∧
      (t.manualStop = true → s.manualStop = true) := by
  cases h with
  | refused => exact ⟨rfl, rfl, id⟩
  | hookFailed => exact ⟨rfl, rfl, nofun⟩
  | launchFailed => exact ⟨rfl, rfl, nofun⟩
  | started => exact ⟨rfl, rfl, nofun⟩

/-- After a spawn whose failure is published as `fatal`, from a life cycle without a child, the
program is `fatal` without a child or shows its new child. -/
theorem SpawnOrFatal.outcome {env : SpawnEnv} (h : SpawnOrFatal config env s t)
    (hchild : s.child = none) :
    t.backoff = s.backoff ∧
      ((t.child = none ∧ t.pid = none ∧ t.state = .fatal) ∨
        ∃ c, t.child = some c ∧ t.pid = some c.pid ∧
          (t.state = .starting ∨ t.state = .running)) := by
  rcases h with hok | ⟨u, hfail, rfl⟩
  · refine ⟨hok.frame.1, .inr ?_⟩
    cases hok with
    | started _ _ _ c state hstate => exact ⟨c, rfl, rfl, hstate⟩
  · refine ⟨hfail.frame.1, .inl ⟨?_, rfl, rfl⟩⟩
    cases hfail with
    | refused => exact hchild
    | hookFailed => rfl
    | launchFailed => rfl

/-- A spawn succeeds only when it is not refused and every step of it succeeds. -/
theorem Spawn.of_ok {env : SpawnEnv} (h : Spawn config env s true t) :
    s.isShuttingDown = false ∧ env.succeeds config ∧
      (s.child = none ∨ env.childExited = true) := by
  cases h with
  | started hdown hchild hsucceeds => exact ⟨hdown, hsucceeds, hchild⟩

/-- A spawn that fails behind the hook leaves the published status as it was, without a child. -/
theorem Spawn.of_failsAfterHook {env : SpawnEnv} {ok : Bool} (h : Spawn config env s ok t)
    (hdown : s.isShuttingDown = false) (hchild : s.child = none ∨ env.childExited = true)
    (hfail : env.failsAfterHook config) :
    t.child = none ∧ t.state = s.state ∧ t.pid = s.pid := by
  cases h with
  | refused hrefused =>
      rcases hrefused with hdown' | ⟨hsome, hrunning⟩
      · simp [hdown] at hdown'
      · rcases hchild with hnone | hexit
        · simp [hnone] at hsome
        · simp [hrunning] at hexit
  | hookFailed _ _ hhook => exact absurd hfail.1 hhook
  | launchFailed => exact ⟨rfl, rfl, rfl⟩
  | started _ _ hsucceeds =>
      have hok := hsucceeds.2
      rw [hfail.2] at hok
      cases hok

/-! ## An owned child is shown -/

/-- An owned child is published as starting or running under its process id, and no retry is
pending beside it. -/
structure ChildShown (s : Lifecycle) : Prop where
  shown : ∀ c, s.child = some c →
    s.pid = some c.pid ∧ (s.state = .starting ∨ s.state = .running)
  noRetry : s.backoff.isSome = true → s.child = none

/-- Without a child there is nothing to show. -/
theorem ChildShown.of_childless (h : s.child = none) : s.ChildShown := by
  refine ⟨?_, fun _ => h⟩
  intro c hc
  rw [h] at hc
  cases hc

/-- A life cycle that shows its child and has no retry pending. -/
theorem ChildShown.of_shown {c : RunningChild} (hchild : s.child = some c)
    (hpid : s.pid = some c.pid) (hstate : s.state = .starting ∨ s.state = .running)
    (hretry : s.backoff = none) : s.ChildShown := by
  refine ⟨?_, ?_⟩
  · intro c' hc'
    rw [hchild] at hc'
    cases hc'
    exact ⟨hpid, hstate⟩
  · intro h
    rw [hretry] at h
    cases h

/-- A command's spawn, which clears the retry first, keeps the child shown. -/
theorem Spawn.childShown {env : SpawnEnv} {ok : Bool} (h : Spawn config env s ok t)
    (hretry : s.backoff = none) (hs : s.ChildShown) : t.ChildShown := by
  cases h with
  | refused => exact hs
  | hookFailed => exact .of_childless rfl
  | launchFailed => exact .of_childless rfl
  | started _ _ _ c state hstate => exact .of_shown rfl rfl hstate hretry

/-- The other spawns start without a child and without a pending retry. -/
theorem SpawnOrFatal.childShown {env : SpawnEnv} (h : SpawnOrFatal config env s t)
    (hchild : s.child = none) (hretry : s.backoff = none) : t.ChildShown := by
  obtain ⟨hback, ⟨hnone, -, -⟩ | ⟨c, hc, hpid, hstate⟩⟩ := h.outcome hchild
  · exact .of_childless hnone
  · exact .of_shown hc hpid hstate (hback.trans hretry)

/-- While a child is owned no retry is pending. -/
theorem ChildShown.backoff_eq_none (hs : s.ChildShown) (h : s.child.isSome = true) :
    s.backoff = none := by
  cases hb : s.backoff with
  | none => rfl
  | some deadline =>
      have hnone := hs.noRetry (by rw [hb]; rfl)
      rw [hnone] at h
      cases h

/-- Every step keeps an owned child shown. -/
theorem Step.childShown {l : ProgramActor.Label} (h : Step config s l t) (hs : s.ChildShown) :
    t.ChildShown := by
  cases h with
  | idle => exact hs
  | cancelled => exact .of_childless rfl
  | start env ok _ hdown hspawn => exact hspawn.childShown rfl ⟨hs.shown, nofun⟩
  | stop => exact .of_childless rfl
  | restart gracePeriod env ok _ hdown hspawn =>
      exact hspawn.childShown rfl (.of_childless rfl)
  | shutdown => exact .of_childless rfl
  | healthRestart stop spawn _ hchild hspawn =>
      exact hspawn.childShown rfl (hs.backoff_eq_none hchild)
  | backoff spawn _ hdeadline hdown hstop hspawn =>
      exact hspawn.childShown (hs.noRetry hdeadline) rfl
  | exitStopped => exact .of_childless rfl
  | exitBackoff => exact .of_childless rfl
  | exitFatal => exact .of_childless rfl
  | exitExited => exact .of_childless rfl
  | exitRestart exitRes drain spawn _ c hchild _ _ _ hspawn =>
      exact hspawn.childShown rfl (hs.backoff_eq_none (by rw [hchild]; rfl))
  | startedUp tryWait c hchild =>
      exact .of_shown rfl rfl (.inr rfl) (hs.backoff_eq_none (by rw [hchild]; rfl))

/-! ## Without a child nothing is shown -/

/-- A program without a child publishes no process id and no state that implies one. -/
def ChildlessShown (s : Lifecycle) : Prop :=
  s.child = none →
    s.pid = none ∧ s.state ≠ .starting ∧ s.state ≠ .running ∧ s.state ≠ .stopping

/-- A start gives up an exited child and then fails behind the hook. -/
def LosesExitedChild (config : ProgramConfig) (s : Lifecycle) : ProgramActor.Label → Prop
  | .iterate (.command .start env) =>
      s.isShuttingDown = false ∧ s.child.isSome = true ∧ env.spawn.childExited = true ∧
        env.spawn.failsAfterHook config
  | _ => False

instance (config : ProgramConfig) (s : Lifecycle) (l : ProgramActor.Label) :
    Decidable (s.LosesExitedChild config l) := by
  unfold LosesExitedChild
  split <;> infer_instance

theorem SpawnOrFatal.childlessShown {env : SpawnEnv} (h : SpawnOrFatal config env s t)
    (hchild : s.child = none) : t.ChildlessShown := by
  intro ht
  obtain ⟨-, ⟨-, hpid, hstate⟩ | ⟨c, hc, -, -⟩⟩ := h.outcome hchild
  · rw [hstate]
    exact ⟨hpid, nofun, nofun, nofun⟩
  · rw [ht] at hc
    cases hc

/-- Every step but one that loses an exited child keeps a childless program childless in what it
publishes. -/
theorem Step.childlessShown {l : ProgramActor.Label} (h : Step config s l t)
    (hl : ¬ s.LosesExitedChild config l) (hshown : s.ChildShown) (hs : s.ChildlessShown) :
    t.ChildlessShown := by
  cases h with
  | idle => exact hs
  | cancelled => exact fun _ => ⟨rfl, nofun, nofun, nofun⟩
  | start env ok _ hdown hspawn =>
      cases hspawn with
      | refused => exact hs
      | hookFailed => exact fun _ => ⟨rfl, nofun, nofun, nofun⟩
      | launchFailed _ hchild hfail n =>
          have hnone : s.child = none := by
            rcases hchild with hnone | hexit
            · exact hnone
            · by_contra hsome
              exact hl ⟨hdown, Option.isSome_iff_ne_none.mpr hsome, hexit, hfail⟩
          exact fun _ => hs hnone
      | started => exact nofun
  | stop => exact fun _ => ⟨rfl, nofun, nofun, nofun⟩
  | restart gracePeriod env ok _ hdown hspawn =>
      cases hspawn with
      | refused => exact fun _ => ⟨rfl, nofun, nofun, nofun⟩
      | hookFailed => exact fun _ => ⟨rfl, nofun, nofun, nofun⟩
      | launchFailed => exact fun _ => ⟨rfl, nofun, nofun, nofun⟩
      | started => exact nofun
  | shutdown => exact fun _ => ⟨rfl, nofun, nofun, nofun⟩
  | healthRestart stop spawn _ hchild hspawn => exact hspawn.childlessShown rfl
  | backoff spawn _ hdeadline hdown hstop hspawn =>
      exact hspawn.childlessShown (hshown.noRetry hdeadline)
  | exitStopped => exact fun _ => ⟨rfl, nofun, nofun, nofun⟩
  | exitBackoff => exact fun _ => ⟨rfl, nofun, nofun, nofun⟩
  | exitFatal => exact fun _ => ⟨rfl, nofun, nofun, nofun⟩
  | exitExited => exact fun _ => ⟨rfl, nofun, nofun, nofun⟩
  | exitRestart exitRes drain spawn _ c _ _ _ _ hspawn => exact hspawn.childlessShown rfl
  | startedUp => exact nofun

/-! ## A program in backoff has a retry -/

/-- A program shown in `backoff` has a pending retry that no stop flag blocks. -/
def RetryPending (s : Lifecycle) : Prop :=
  s.state = .backoff →
    s.backoff.isSome = true ∧ s.manualStop = false ∧ s.isShuttingDown = false

/-- A start drops the retry of a program in `backoff` and then fails behind the hook. -/
def LosesRetry (config : ProgramConfig) (s : Lifecycle) : ProgramActor.Label → Prop
  | .iterate (.command .start env) =>
      s.isShuttingDown = false ∧ s.state = .backoff ∧ env.spawn.failsAfterHook config
  | _ => False

instance (config : ProgramConfig) (s : Lifecycle) (l : ProgramActor.Label) :
    Decidable (s.LosesRetry config l) := by
  unfold LosesRetry
  split <;> infer_instance

theorem RetryPending.of_state_ne (h : s.state ≠ .backoff) : s.RetryPending :=
  fun hstate => absurd hstate h

theorem SpawnOrFatal.retryPending {env : SpawnEnv} (h : SpawnOrFatal config env s t)
    (hchild : s.child = none) : t.RetryPending := by
  refine .of_state_ne ?_
  obtain ⟨-, ⟨-, -, hstate⟩ | ⟨-, -, -, hstate | hstate⟩⟩ := h.outcome hchild <;>
    (rw [hstate]; nofun)

/-- A spawn that starts a child shows it outside `backoff`. -/
theorem retryPending_of_started {state : ProgramState}
    (hstate : state = .starting ∨ state = .running) (ht : t.state = state) : t.RetryPending := by
  refine .of_state_ne ?_
  rw [ht]
  rcases hstate with rfl | rfl <;> nofun

/-- Every step but one that loses a retry keeps a program in `backoff` scheduled. -/
theorem Step.retryPending {l : ProgramActor.Label} (h : Step config s l t)
    (hl : ¬ s.LosesRetry config l) (hshown : s.ChildShown) (hs : s.RetryPending) :
    t.RetryPending := by
  cases h with
  | idle => exact hs
  | cancelled => exact .of_state_ne nofun
  | start env ok _ hdown hspawn =>
      cases hspawn with
      | refused hrefused =>
          refine .of_state_ne ?_
          rcases hrefused with hdown' | ⟨hsome, -⟩
          · rw [hdown] at hdown'
            cases hdown'
          · obtain ⟨c, hc⟩ := Option.isSome_iff_exists.mp hsome
            rcases (hshown.shown c hc).2 with hstate | hstate <;> simp [hstate]
      | hookFailed => exact .of_state_ne nofun
      | launchFailed _ hchild hfail n =>
          exact .of_state_ne fun hstate => hl ⟨hdown, hstate, hfail⟩
      | started _ _ _ c state hstate => exact retryPending_of_started hstate rfl
  | stop => exact .of_state_ne nofun
  | restart gracePeriod env ok _ hdown hspawn =>
      cases hspawn with
      | refused => exact .of_state_ne nofun
      | hookFailed => exact .of_state_ne nofun
      | launchFailed => exact .of_state_ne nofun
      | started _ _ _ c state hstate => exact retryPending_of_started hstate rfl
  | shutdown => exact .of_state_ne nofun
  | healthRestart stop spawn _ hchild hspawn => exact hspawn.retryPending rfl
  | backoff spawn _ hdeadline hdown hstop hspawn =>
      exact hspawn.retryPending (hshown.noRetry hdeadline)
  | exitStopped => exact .of_state_ne nofun
  | exitBackoff exitRes drain spawn c hchild hrunning hdown hstop deadline =>
      exact fun _ => ⟨rfl, hstop, hdown⟩
  | exitFatal => exact .of_state_ne nofun
  | exitExited => exact .of_state_ne nofun
  | exitRestart exitRes drain spawn _ c _ _ _ _ hspawn => exact hspawn.retryPending rfl
  | startedUp => exact .of_state_ne nofun

/-! ## An owned child is not asked to stop -/

/-- An owned child has not been asked to stop. -/
def ChildWanted (s : Lifecycle) : Prop :=
  s.child.isSome = true → s.isShuttingDown = false ∧ s.manualStop = false

theorem ChildWanted.of_childless (h : s.child = none) : s.ChildWanted := by
  intro hsome
  rw [h] at hsome
  contradiction

/-- A spawn clears the flag of an earlier stop before it installs a child. -/
theorem Spawn.childWanted {env : SpawnEnv} {ok : Bool} (h : Spawn config env s ok t)
    (hs : s.ChildWanted) : t.ChildWanted := by
  match h with
  | .refused _ => exact hs
  | .hookFailed _ _ _ => exact .of_childless rfl
  | .launchFailed _ _ _ _ => exact .of_childless rfl
  | .started hdown _ _ _ _ _ => exact fun _ => ⟨hdown, rfl⟩

theorem SpawnOrFatal.childWanted {env : SpawnEnv} (h : SpawnOrFatal config env s t)
    (hs : s.ChildWanted) : t.ChildWanted := by
  obtain hok | ⟨u, hfail, rfl⟩ := h
  · exact hok.childWanted hs
  · exact hfail.childWanted hs

theorem Step.childWanted {l : ProgramActor.Label} (h : Step config s l t)
    (hs : s.ChildWanted) : t.ChildWanted := by
  match h with
  | .idle _ _ => exact hs
  | .cancelled _ => exact .of_childless rfl
  | .start _ _ _ hdown hspawn => exact hspawn.childWanted fun _ => ⟨hdown, rfl⟩
  | .stop _ _ => exact .of_childless rfl
  | .restart _ _ _ _ _ hspawn => exact hspawn.childWanted (.of_childless rfl)
  | .shutdown _ => exact .of_childless rfl
  | .healthRestart _ _ _ _ hspawn => exact hspawn.childWanted (.of_childless rfl)
  | .backoff _ _ _ hdown hstop hspawn => exact hspawn.childWanted fun _ => ⟨hdown, hstop⟩
  | .exitStopped _ _ _ _ _ => exact .of_childless rfl
  | .exitBackoff _ _ _ _ _ _ _ _ _ => exact .of_childless rfl
  | .exitFatal _ _ _ _ _ _ _ _ => exact .of_childless rfl
  | .exitExited _ _ _ _ _ _ _ _ => exact .of_childless rfl
  | .exitRestart _ _ _ _ _ _ _ _ _ hspawn => exact hspawn.childWanted (.of_childless rfl)
  | .startedUp _ c hchild => exact fun _ => hs (by rw [hchild]; rfl)

/-! ## Nothing is spawned after a stop -/

/-- Nothing can start a child but a command: there is no child whose exit or health could be
handled and no retry. -/
structure Quiet (s : Lifecycle) : Prop where
  child : s.child = none
  backoff : s.backoff = none

/-- A shut down program is quiet for good. -/
structure Down (s : Lifecycle) : Prop extends Quiet s where
  isShuttingDown : s.isShuttingDown = true

/-- From a quiet life cycle every step but a start or a restart stays quiet and creates no
process. -/
theorem Step.quiet {l : ProgramActor.Label} (h : Step config s l t)
    (hl : l.startsOrRestarts = false) (hs : s.Quiet) : t.Quiet ∧ t.spawned = s.spawned := by
  cases h with
  | idle => exact ⟨hs, rfl⟩
  | cancelled => exact ⟨⟨rfl, rfl⟩, rfl⟩
  | start => cases hl
  | stop => exact ⟨⟨rfl, rfl⟩, rfl⟩
  | restart => cases hl
  | shutdown => exact ⟨⟨rfl, rfl⟩, rfl⟩
  | healthRestart stop spawn _ hchild => simp [hs.child] at hchild
  | backoff spawn _ hdeadline => simp [hs.backoff] at hdeadline
  | exitStopped exitRes drain spawn hchild => simp [hs.child] at hchild
  | exitBackoff exitRes drain spawn c hchild => simp [hs.child] at hchild
  | exitFatal exitRes drain spawn c hchild => simp [hs.child] at hchild
  | exitExited exitRes drain spawn c hchild => simp [hs.child] at hchild
  | exitRestart exitRes drain spawn _ c hchild => simp [hs.child] at hchild
  | startedUp tryWait c hchild => simp [hs.child] at hchild

/-- A shut down life cycle stays shut down and creates no process, whatever the step. -/
theorem Step.down {l : ProgramActor.Label} (h : Step config s l t) (hs : s.Down) :
    t.Down ∧ t.spawned = s.spawned := by
  cases h with
  | idle => exact ⟨hs, rfl⟩
  | cancelled => exact ⟨⟨⟨rfl, rfl⟩, rfl⟩, rfl⟩
  | start env ok _ hdown => simp [hs.isShuttingDown] at hdown
  | stop => exact ⟨⟨⟨rfl, rfl⟩, hs.isShuttingDown⟩, rfl⟩
  | restart gracePeriod env ok _ hdown => simp [hs.isShuttingDown] at hdown
  | shutdown => exact ⟨⟨⟨rfl, rfl⟩, rfl⟩, rfl⟩
  | healthRestart stop spawn _ hchild => simp [hs.child] at hchild
  | backoff spawn _ hdeadline => simp [hs.backoff] at hdeadline
  | exitStopped exitRes drain spawn hchild => simp [hs.child] at hchild
  | exitBackoff exitRes drain spawn c hchild => simp [hs.child] at hchild
  | exitFatal exitRes drain spawn c hchild => simp [hs.child] at hchild
  | exitExited exitRes drain spawn c hchild => simp [hs.child] at hchild
  | exitRestart exitRes drain spawn _ c hchild => simp [hs.child] at hchild
  | startedUp tryWait c hchild => simp [hs.child] at hchild

/-- Processing a stop leaves a quiet life cycle. -/
theorem Step.quiet_of_stops {l : ProgramActor.Label} (h : Step config s l t)
    (hl : l.stops = true) : t.Quiet := by
  cases h with
  | idle _ hidle => simp [hl] at hidle
  | stop => exact ⟨rfl, rfl⟩
  | _ => cases hl

/-- Processing a shutdown or the cancellation leaves a shut down life cycle. -/
theorem Step.down_of_shutsDown {l : ProgramActor.Label} (h : Step config s l t)
    (hl : l.shutsDown = true) : t.Down := by
  cases h with
  | idle _ hidle => simp [hl] at hidle
  | cancelled => exact ⟨⟨rfl, rfl⟩, rfl⟩
  | shutdown => exact ⟨⟨rfl, rfl⟩, rfl⟩
  | _ => cases hl

end Lifecycle

/-! ## The actor -/

/-- Every step of a spawn succeeds and the new process has the id `pid`. -/
def SpawnEnv.succeeding (pid : ℕ) : SpawnEnv where
  tryWait := .ok none
  drain := ⟨false⟩
  hook := .exited true (some 0)
  createTransport := .ok ()
  takeChildStdio := .ok ()
  configureCommand := .ok ()
  spawn := .ok ()
  childId := some pid
  stdin := true
  intoStreams := .ok ()
  attachChild := .ok ()
  now := 0

/-- The child stops within its grace period with the exit code `0`. -/
def StopEnv.graceful : StopEnv where
  hook := .exited true (some 0)
  waitExit := some (.ok (.code 0))
  postKillWait := none
  drain := ⟨false⟩

/-- A program with a health probe that reports the first failure. -/
def probedConfig : ProgramConfig :=
  { ProgramConfig.new "web" "serve" with
    healthCheck := some ⟨.tcp "127.0.0.1:80", .fromSecs 1, .fromSecs 1, 1, 0⟩ }

namespace ProgramActor

variable {config : ProgramConfig} {G : Lifecycle → Label → Prop} {a : ProgramActor}

/-- No step changes the configuration of an actor. -/
theorem config_of_reachable {H : ProgramActor → Label → Prop}
    (h : (system config).ReachableWhile H a) : a.config = config := by
  refine TransitionSystem.ReachableWhile.invariant (I := fun a => a.config = config) ?_ ?_ h
  · rintro _ rfl
    rfl
  · intro a l b _ ha _ hstep
    exact (next_refines hstep).1.trans ha

/-- The invariant rule for the life-cycle view: `P` holds of a new actor and every guarded
life-cycle step from a view that shows its child preserves it. -/
theorem lifecycle_invariant {P : Lifecycle → Prop} (hinit : P (new config).lifecycle)
    (hstep : ∀ s l t, s.ChildShown → P s → G s l → Lifecycle.Step config s l t → P t)
    (h : (system config).ReachableWhile (fun a l => G a.lifecycle l) a) : P a.lifecycle := by
  have hall : a.lifecycle.ChildShown ∧ P a.lifecycle := by
    refine TransitionSystem.ReachableWhile.invariant
      (I := fun a => a.lifecycle.ChildShown ∧ P a.lifecycle) ?_ ?_ h
    · rintro _ rfl
      exact ⟨.of_childless rfl, hinit⟩
    · rintro a l b hreach ⟨hshown, hP⟩ hG hab
      obtain ⟨-, hlife⟩ := next_refines hab
      rw [config_of_reachable hreach] at hlife
      exact ⟨hlife.childShown hshown, hstep _ _ _ hshown hP hG hlife⟩
  exact hall.2

/-- In every reachable state an owned child is shown. -/
theorem childShown_of_reachable (h : (system config).Reachable a) : a.lifecycle.ChildShown :=
  lifecycle_invariant (G := fun _ _ => True) (.of_childless rfl)
    (fun _ _ _ hshown _ _ hlife => hlife.childShown hshown) h

/-- The actor of a reachable state has not asked its child to stop: a stop takes the child away
and a spawn clears the flag. -/
theorem childWanted_of_reachable (h : (system config).Reachable a) : a.lifecycle.ChildWanted := by
  refine lifecycle_invariant (P := Lifecycle.ChildWanted) (G := fun _ _ => True)
    ?_ ?_ h
  · intro hsome
    contradiction
  · intro s l t _ hs _ hstep
    exact hstep.childWanted hs

/-- The published status and the owned child agree: the program is published as starting or
running under `p` exactly when it owns the child `p`, and without a child neither a process id nor
a state that implies one is published. -/
def StatusAgrees (a : ProgramActor) : Prop :=
  (∀ p, ((a.statusSnapshot.state = .starting ∨ a.statusSnapshot.state = .running) ∧
      a.statusSnapshot.pid = some p) ↔ ∃ c, a.currentChild = some c ∧ c.pid = p) ∧
    (a.currentChild = none →
      a.statusSnapshot.pid = none ∧ a.statusSnapshot.state ≠ .starting ∧
        a.statusSnapshot.state ≠ .running ∧ a.statusSnapshot.state ≠ .stopping)

theorem statusAgrees_of_lifecycle (hshown : a.lifecycle.ChildShown)
    (hchildless : a.lifecycle.ChildlessShown) : a.StatusAgrees := by
  refine ⟨fun p => ⟨?_, ?_⟩, hchildless⟩
  · rintro ⟨hstate, hpid⟩
    cases hchild : a.currentChild with
    | none =>
        have hnone := (hchildless hchild).1
        rw [show a.lifecycle.pid = some p from hpid] at hnone
        cases hnone
    | some c =>
        have hc := (hshown.shown c hchild).1
        rw [show a.lifecycle.pid = some p from hpid] at hc
        cases hc
        exact ⟨c, rfl, rfl⟩
  · rintro ⟨c, hchild, rfl⟩
    obtain ⟨hpid, hstate⟩ := hshown.shown c hchild
    exact ⟨hstate, hpid⟩

/-- In every execution in which no start gives up an exited child and then fails behind the hook,
the published status and the owned child agree after every step. -/
theorem statusAgrees_of_reachable
    (h : (system config).ReachableWhile
      (fun a l => ¬ a.lifecycle.LosesExitedChild config l) a) :
    a.StatusAgrees := by
  refine statusAgrees_of_lifecycle (childShown_of_reachable h.reachable) ?_
  refine lifecycle_invariant (G := fun s l => ¬ s.LosesExitedChild config l) ?_ ?_ h
  · exact fun _ => ⟨rfl, nofun, nofun, nofun⟩
  · exact fun _ _ _ hshown hs hG hlife => hlife.childlessShown hG hshown hs

/-- The invariant at work: a child exits during start-up and the retry starts the next one. -/
theorem statusAgrees_after_retry :
    ∃ a, (system (.new "web" "serve")).Reachable a ∧
      a.currentChild = some ⟨8, false, 2⟩ ∧ a.StatusAgrees := by
  obtain ⟨a, hreach, hchild⟩ := TransitionSystem.exists_reachableWhile
    (G := fun a l => ¬ a.lifecycle.LosesExitedChild (.new "web" "serve") l)
    (i := new (.new "web" "serve")) (f := next)
    (fun a => a.currentChild = some ⟨8, false, 2⟩)
    [.iterate (.command .start ⟨.graceful, .succeeding 7, .ok ()⟩),
      .iterate (.childExit (.ok (.code 1)) ⟨false⟩ (.succeeding 7)),
      .iterate (.backoff (.succeeding 8))] (by decide)
  exact ⟨a, hreach.reachable, hchild, statusAgrees_of_reachable hreach⟩

/-- What a start command does when it is not refused. -/
theorem lifecycle_of_start {env : CommandEnv} {b : ProgramActor}
    (hdown : a.isShuttingDown = false) (h : a.next (.iterate (.command .start env)) = some b) :
    ∃ ok, Lifecycle.Spawn a.config env.spawn
      { a.lifecycle with manualStop := false, backoff := none } ok b.lifecycle := by
  have hcommand : a.handleCommand .start env =
      { a with manualStop := false, retryCount := 0, backoffDeadline := none }.spawnChild
        env.spawn :=
    if_neg (by simp [hdown])
  generalize hr : { a with
    manualStop := false, retryCount := 0, backoffDeadline := none }.spawnChild env.spawn = r
      at hcommand
  obtain ⟨-, hspawn⟩ := spawnChild_spawn (r := r.1) (b := r.2) _ hr rfl rfl
  simp only [next, Option.ite_none_right_eq_some, Option.some.injEq] at h
  obtain ⟨-, rfl⟩ := h
  rw [select_command_lifecycle, hcommand]
  exact ⟨_, hspawn⟩

/-- The condition of `statusAgrees_of_reachable` is exact: a start that loses an exited child ends
in a state in which the published status disagrees. -/
theorem not_statusAgrees_of_losesExitedChild {l : Label} {b : ProgramActor}
    (hshown : a.lifecycle.ChildShown) (hl : a.lifecycle.LosesExitedChild a.config l)
    (h : a.next l = some b) : ¬ b.StatusAgrees := by
  unfold Lifecycle.LosesExitedChild at hl
  split at hl
  next env =>
    obtain ⟨hdown, hsome, hexit, hfail⟩ := hl
    obtain ⟨c, hc⟩ := Option.isSome_iff_exists.mp hsome
    obtain ⟨ok, hspawn⟩ := lifecycle_of_start hdown h
    obtain ⟨hchild, -, hpid⟩ := hspawn.of_failsAfterHook hdown (.inr hexit) hfail
    intro hagrees
    have hnone : b.lifecycle.pid = none := (hagrees.2 hchild).1
    rw [hpid, (hshown.shown c hc).1] at hnone
    cases hnone
  next => exact hl.elim

/-- In every execution in which no start drops the retry of a program in `backoff` and then fails
behind the hook, a program shown in `backoff` has an enabled retry after every step. -/
theorem retryPending_of_reachable
    (h : (system config).ReachableWhile (fun a l => ¬ a.lifecycle.LosesRetry config l) a) :
    a.statusSnapshot.state = .backoff →
      a.backoffDeadline.isSome = true ∧ a.manualStop = false ∧ a.isShuttingDown = false :=
  lifecycle_invariant (P := Lifecycle.RetryPending)
    (G := fun s l => ¬ s.LosesRetry config l) (.of_state_ne nofun)
    (fun _ _ _ hshown hs hG hlife => hlife.retryPending hG hshown hs) h

/-- The invariant at work: a child that exits during start-up leaves an enabled retry. -/
theorem retryPending_after_startup_exit :
    ∃ a, (system (.new "web" "serve")).Reachable a ∧ a.statusSnapshot.state = .backoff ∧
      a.backoffDeadline.isSome = true ∧ a.manualStop = false ∧ a.isShuttingDown = false := by
  obtain ⟨a, hreach, hstate⟩ := TransitionSystem.exists_reachableWhile
    (G := fun a l => ¬ a.lifecycle.LosesRetry (.new "web" "serve") l)
    (i := new (.new "web" "serve")) (f := next)
    (fun a => a.statusSnapshot.state = .backoff)
    [.iterate (.command .start ⟨.graceful, .succeeding 7, .ok ()⟩),
      .iterate (.childExit (.ok (.code 1)) ⟨false⟩ (.succeeding 7))] (by decide)
  exact ⟨a, hreach.reachable, hstate, retryPending_of_reachable hreach hstate⟩

/-- The condition of `retryPending_of_reachable` is exact: a start that loses a retry ends in
`backoff` without one. -/
theorem not_retryPending_of_losesRetry {l : Label} {b : ProgramActor}
    (hshown : a.lifecycle.ChildShown) (hl : a.lifecycle.LosesRetry a.config l)
    (h : a.next l = some b) :
    b.statusSnapshot.state = .backoff ∧ b.backoffDeadline = none := by
  unfold Lifecycle.LosesRetry at hl
  split at hl
  next env =>
    obtain ⟨hdown, hstate, hfail⟩ := hl
    obtain ⟨ok, hspawn⟩ := lifecycle_of_start hdown h
    have hchild : a.lifecycle.child = none := by
      cases hc : a.lifecycle.child with
      | none => rfl
      | some c =>
          rcases (hshown.shown c hc).2 with h' | h' <;> rw [hstate] at h' <;> cases h'
    obtain ⟨-, hstate', -⟩ := hspawn.of_failsAfterHook hdown (.inl hchild) hfail
    exact ⟨hstate'.trans hstate, hspawn.frame.1⟩
  next => exact hl.elim

/-- A start whose spawn fails at `cmd.spawn()`. -/
def failingSpawn : SpawnEnv :=
  { SpawnEnv.succeeding 0 with tryWait := .ok (some (.code 1)), spawn := .error "not found" }

/-- Without the condition the status can disagree: a start finds its child exited, gives it up and
then cannot create the next process, and the program stays published as running. -/
theorem exists_not_statusAgrees :
    ∃ a, (system { ProgramConfig.new "web" "serve" with startSecs := 0 }).Reachable a ∧
      ¬ a.StatusAgrees := by
  obtain ⟨a, hreach, hchild, hstate⟩ := TransitionSystem.exists_reachableWhile
    (G := fun _ _ => True)
    (i := new { ProgramConfig.new "web" "serve" with startSecs := 0 }) (f := next)
    (fun a => a.currentChild = none ∧ a.statusSnapshot.state = .running)
    [.iterate (.command .start ⟨.graceful, .succeeding 7, .ok ()⟩),
      .iterate (.command .start ⟨.graceful, failingSpawn, .ok ()⟩)] (by decide)
  exact ⟨a, hreach, fun h => (h.2 hchild).2.2.1 hstate⟩

/-- Without the condition a program can be stuck in `backoff`: a start drops the retry and then
cannot create the process. -/
theorem exists_backoff_without_retry :
    ∃ a, (system (.new "web" "serve")).Reachable a ∧ a.statusSnapshot.state = .backoff ∧
      a.backoffDeadline = none :=
  TransitionSystem.exists_reachableWhile (G := fun _ _ => True)
    (i := new (.new "web" "serve")) (f := next)
    (fun a => a.statusSnapshot.state = .backoff ∧ a.backoffDeadline = none)
    [.iterate (.command .start ⟨.graceful, .succeeding 7, .ok ()⟩),
      .iterate (.childExit (.ok (.code 1)) ⟨false⟩ (.succeeding 7)),
      .iterate (.command .start ⟨.graceful, failingSpawn, .ok ()⟩)] (by decide)

/-! ## Stops and shutdowns -/

/-- A run of the actor is a run of its life cycle for an invariant of the view that its steps
preserve together with the number of processes. -/
theorem spawned_eq_of_run {P : Lifecycle → Prop} {b : ProgramActor} {ls : List Label}
    (hstep : ∀ config s l t, l ∈ ls → P s → Lifecycle.Step config s l t →
      P t ∧ t.spawned = s.spawned)
    (hrun : (system config).Run a ls b) (ha : P a.lifecycle) : b.spawned = a.spawned := by
  refine hrun.eq_of_step (I := fun a => P a.lifecycle) (f := spawned) ?_ ha
  intro a l b hl hP hab
  exact hstep _ _ _ _ hl hP (next_refines hab).2

/-- After a stop has been processed no process is created until a later start or restart is
processed, and after a shutdown or a cancellation has been processed none is ever created, whatever
the order of exits, timers, health events and commands. -/
theorem no_spawn_after_stop {s b : ProgramActor} {l : Label} {ls : List Label}
    (hstep : (system config).step s l a) (hrun : (system config).Run a ls b) :
    (l.stops = true → (∀ m ∈ ls, m.startsOrRestarts = false) → b.spawned = a.spawned) ∧
      (l.shutsDown = true → b.spawned = a.spawned) := by
  have hlife : Lifecycle.Step s.config s.lifecycle l a.lifecycle := (next_refines hstep).2
  refine ⟨?_, ?_⟩
  · intro hstop hno
    refine spawned_eq_of_run (P := Lifecycle.Quiet) ?_ hrun (hlife.quiet_of_stops hstop)
    intro config s l t hl hs h
    exact h.quiet (hno l hl) hs
  · intro hdown
    refine spawned_eq_of_run (P := Lifecycle.Down) ?_ hrun (hlife.down_of_shutsDown hdown)
    intro config s l t _ hs h
    exact h.down hs

/-- The stop of a program whose probe has reported it unhealthy: the queued event, the
cancellation of the actor and its end create no process. -/
theorem no_spawn_after_stop_with_queued_event :
    ∃ s a b, (system probedConfig).Reachable s ∧ s.healthRx ≠ [] ∧
      (system probedConfig).step s
        (.iterate (.command (.stop 5) ⟨.graceful, .succeeding 8, .ok ()⟩)) a ∧
      (system probedConfig).Run a [.cancel, .iterate (.cancelled .graceful)] b ∧
      b.spawned = a.spawned := by
  obtain ⟨s, hreach, hqueued, hrest⟩ := TransitionSystem.exists_reachableWhile
    (G := fun _ _ => True) (i := new probedConfig) (f := next)
    (fun s => s.healthRx ≠ [] ∧
      ((s.next (.iterate (.command (.stop 5) ⟨.graceful, .succeeding 8, .ok ()⟩))).bind
        fun a => TransitionSystem.replay next a
          [.cancel, .iterate (.cancelled .graceful)]).isSome = true)
    [.iterate (.command .start ⟨.graceful, .succeeding 7, .ok ()⟩), .probeBegin 1,
      .probeResult 1 false] (by decide)
  obtain ⟨b, hb⟩ := Option.isSome_iff_exists.mp hrest
  obtain ⟨a, hstep, hreplay⟩ := Option.bind_eq_some_iff.mp hb
  have hrun := TransitionSystem.run_of_replay (i := new probedConfig) hreplay
  exact ⟨s, a, b, hreach, hqueued, hstep, hrun,
    (no_spawn_after_stop hstep hrun).1 rfl (by decide)⟩

end ProgramActor

end Rsupervisord
