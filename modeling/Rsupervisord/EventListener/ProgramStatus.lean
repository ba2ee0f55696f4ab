import Rsupervisord.EventListener.Program

/-!
# The published status of an event listener

An event listener publishes its status in `set_state`, away from the place where it gives up or
installs its child. Every arm that installs a child publishes it first; an arm that gives one up
publishes that only in two of the five places. The other three are the steps that `LeavesRunning`
lists: without them the status and the child agree in every reachable state, and each of them breaks
the agreement.
-/

namespace Rsupervisord

namespace EventListenerActor

variable {config : ProgramConfig} {a b : EventListenerActor}

/-- The published status is running with a process id if and only if the actor owns a child with
that id, and an actor that has ended is not published as running. -/
structure StatusAgrees (a : EventListenerActor) : Prop where
  running_iff : a.looping = true → ∀ pid, a.statusSnapshot.state = .running ∧
    a.statusSnapshot.pid = some pid ↔ ∃ c, a.childProcess = some c ∧ c.pid.toNat = pid
  ended : a.looping = false → a.statusSnapshot.state ≠ .running

/-- The step gives up a child and leaves it published as running: a restart whose spawn fails, or
the end of the actor. -/
def LeavesRunning (a : EventListenerActor) : Label → Prop
  | .iterate .cancelled => a.childProcess.isSome = true
  | .iterate .channelClosed => a.childProcess.isSome = true
  | .iterate (.command (.restart _) env) =>
      a.childProcess.isSome = true ∧ (env.spawn.launch a.config.name).isOk = false
  | _ => False

instance (a : EventListenerActor) (l : Label) : Decidable (a.LeavesRunning l) := by
  unfold LeavesRunning
  split <;> infer_instance

/-! ## What is published -/

/-- The status shows the child: running with its process id, or not running without a child. -/
def Shows (a : EventListenerActor) : Prop :=
  match a.childProcess with
  | some c => a.statusSnapshot.state = .running ∧ a.statusSnapshot.pid = some c.pid.toNat
  | none => a.statusSnapshot.state ≠ .running

/-- A process id survives its way through a signed number. -/
theorem i32AsU32_pidAsI32 (pid : UInt32) : i32AsU32 (pidAsI32 pid) = pid.toNat := by
  have hlt : pid.toNat < 2 ^ 32 := pid.toNat_lt
  have hcast : (2 : ℤ) ^ 32 = ((2 ^ 32 : ℕ) : ℤ) := rfl
  unfold i32AsU32 pidAsI32
  rw [hcast, Int.bmod_emod]
  omega

/-- A new child is published as running with its process id. -/
theorem spawnChild_ok {env : ListenerSpawnEnv} {c : EventListenerChild}
    (h : a.spawnChild env = (.ok c, b)) :
    b.looping = a.looping ∧ b.config = a.config ∧ b.statusSnapshot.state = .running ∧
      b.statusSnapshot.pid = some c.pid.toNat := by
  simp only [spawnChild] at h
  split at h
  · cases h
  · cases h
    exact ⟨rfl, rfl, rfl, congrArg some (i32AsU32_pidAsI32 _)⟩

/-- A failed spawn changes nothing. -/
theorem spawnChild_error {env : ListenerSpawnEnv} {e : ProgramError}
    (h : a.spawnChild env = (.error e, b)) :
    b = a ∧ (env.launch a.config.name).isOk = false := by
  simp only [spawnChild] at h
  split at h
  next hlaunch =>
    cases h
    exact ⟨rfl, by rw [hlaunch]; rfl⟩
  next => cases h

theorem takeChild_childProcess : a.takeChild.childProcess = none := by
  simp only [takeChild]
  split
  · rfl
  next hnone => exact hnone

/-- Giving up a child publishes nothing. -/
theorem takeChild_frame :
    a.takeChild.statusSnapshot = a.statusSnapshot ∧ a.takeChild.config = a.config ∧
      a.takeChild.looping = a.looping := by
  simp only [takeChild]
  split <;> exact ⟨rfl, rfl, rfl⟩

/-! ## What a step preserves -/

/-- What the invariant says: a looping actor shows its child, an ended one has none and is not
published as running. -/
structure Consistent (a : EventListenerActor) : Prop where
  shows : a.looping = true → a.Shows
  ended : a.looping = false → a.statusSnapshot.state ≠ .running

/-- A status other than running shows that there is no child. -/
theorem Shows.of_childless (hchild : a.childProcess = none)
    (hstate : a.statusSnapshot.state ≠ .running) : a.Shows := by
  unfold Shows
  rw [hchild]
  exact hstate

/-- Without a child the status is not running. -/
theorem Shows.state_ne (ha : a.Shows) (hchild : a.childProcess = none) :
    a.statusSnapshot.state ≠ .running := by
  unfold Shows at ha
  rw [hchild] at ha
  exact ha

/-- A spawn into an actor that shows no child: the new child is shown, and so is its absence. -/
theorem shows_of_spawnChild (env : ListenerSpawnEnv) (hchild : a.childProcess = none)
    (hstate : (env.launch a.config.name).isOk = false → a.statusSnapshot.state ≠ .running) :
    (∀ c b, a.spawnChild env = (.ok c, b) → { b with childProcess := some c }.Shows) ∧
      ∀ e b, a.spawnChild env = (.error e, b) → b.Shows := by
  refine ⟨fun c b h => ?_, fun e b h => ?_⟩
  · exact (spawnChild_ok h).2.2
  · obtain ⟨rfl, hfails⟩ := spawnChild_error h
    exact .of_childless hchild (hstate hfails)

/-- Every command but a restart that loses its child keeps the child shown. -/
theorem handleCommand_shows (ha : a.Shows) (cmd : ListenerCommand) (env : ListenerCommandEnv)
    (hl : ¬ a.LeavesRunning (.iterate (.command cmd env))) :
    (a.handleCommand cmd env).2.Shows := by
  cases cmd with
  | start =>
    simp only [handleCommand]
    split
    · exact ha
    next hnone =>
      have hchild : a.childProcess = none := by simpa using hnone
      obtain ⟨hok, herror⟩ := shows_of_spawnChild env.spawn hchild
        fun _ => ha.state_ne hchild
      split
      next hspawn => exact hok _ _ hspawn
      next hspawn => exact herror _ _ hspawn
  | stop gracePeriod =>
    simp only [handleCommand]
    split
    · exact .of_childless takeChild_childProcess nofun
    · exact ha
  | restart gracePeriod =>
    have hstate : (env.spawn.launch a.takeChild.config.name).isOk = false →
        a.takeChild.statusSnapshot.state ≠ .running := by
      rw [takeChild_frame.1, takeChild_frame.2.1]
      intro hfails
      apply ha.state_ne
      by_contra hsome
      exact hl ⟨Option.isSome_iff_ne_none.mpr hsome, hfails⟩
    obtain ⟨hok, herror⟩ := shows_of_spawnChild env.spawn takeChild_childProcess hstate
    simp only [handleCommand]
    split
    next hspawn => exact hok _ _ hspawn
    next hspawn => exact herror _ _ hspawn
  | signal signal =>
    simp only [handleCommand]
    split <;> exact ha

/-- The exit of a child is published before an automatic restart is tried. -/
theorem handleExit_shows (status : Except String ExitStatus) (spawn : ListenerSpawnEnv) :
    (a.handleExit status spawn).Shows := by
  have hchild : a.takeChild.childProcess = none := takeChild_childProcess
  simp only [handleExit]
  generalize a.takeChild = r at hchild
  generalize hexit : r.setState .exited (ProgramActor.exitCodeOf status) "Process exited" = r'
  have hchild' : r'.childProcess = none := by
    rw [← hexit]
    exact hchild
  have hstate : r'.statusSnapshot.state ≠ .running := by
    rw [← hexit]
    nofun
  obtain ⟨hok, herror⟩ := shows_of_spawnChild spawn hchild' fun _ => hstate
  split
  · split
    next hspawn => exact hok _ _ hspawn
    next hspawn => exact herror _ _ hspawn
  · exact .of_childless hchild' hstate

/-- An actor that ends without a child is not published as running. -/
theorem consistent_of_ends (ha : a.Shows) (hchild : a.childProcess.isSome ≠ true) :
    { a.takeChild with looping := false }.Consistent where
  shows := nofun
  ended _ := by
    show a.takeChild.statusSnapshot.state ≠ .running
    rw [takeChild_frame.1]
    exact ha.state_ne (by simpa using hchild)

/-- A spawn does not end the actor, whatever its outcome. -/
theorem spawnChild_looping {env : ListenerSpawnEnv} {r : Except ProgramError EventListenerChild}
    (h : a.spawnChild env = (r, b)) : b.looping = a.looping := by
  cases r with
  | ok c => exact (spawnChild_ok h).1
  | error e => exact congrArg looping (spawnChild_error h).1

theorem handleCommand_looping (cmd : ListenerCommand) (env : ListenerCommandEnv) :
    (a.handleCommand cmd env).2.looping = a.looping := by
  cases cmd with
  | start =>
    simp only [handleCommand]
    split
    · rfl
    · split
      next c b hspawn =>
        have hloop : b.looping = a.looping := spawnChild_looping hspawn
        exact hloop
      next hspawn => exact spawnChild_looping hspawn
  | stop gracePeriod =>
    simp only [handleCommand]
    split
    · exact takeChild_frame.2.2
    · rfl
  | restart gracePeriod =>
    simp only [handleCommand]
    split
    next c b hspawn =>
      have hloop : b.looping = a.takeChild.looping := spawnChild_looping hspawn
      exact hloop.trans takeChild_frame.2.2
    next hspawn => exact (spawnChild_looping hspawn).trans takeChild_frame.2.2
  | signal signal =>
    simp only [handleCommand]
    split <;> rfl

theorem handleExit_looping (status : Except String ExitStatus) (spawn : ListenerSpawnEnv) :
    (a.handleExit status spawn).looping = a.looping := by
  simp only [handleExit]
  generalize hexit : a.takeChild.setState .exited _ _ = r
  have hloop : r.looping = a.looping := by
    rw [← hexit]
    exact takeChild_frame.2.2
  split
  · split
    next c b hspawn =>
      have hloop' : b.looping = r.looping := spawnChild_looping hspawn
      exact hloop'.trans hloop
    next hspawn => exact (spawnChild_looping hspawn).trans hloop
  · exact hloop

/-- An iteration that leaves the child shown and stays in the loop. -/
theorem Consistent.of_shows (hloop : a.looping = true) (ha : a.Shows) : a.Consistent where
  shows _ := ha
  ended hend := by
    rw [hloop] at hend
    cases hend

/-- Every step but one that leaves a lost child published keeps the invariant. -/
theorem Consistent.next (ha : a.Consistent) {l : Label} (hl : ¬ a.LeavesRunning l)
    (h : a.next l = some b) : b.Consistent := by
  cases l with
  | cancel =>
    cases h
    exact ⟨ha.shows, ha.ended⟩
  | iterate branch =>
    simp only [EventListenerActor.next, Bool.and_eq_true] at h
    split at h
    next henabled =>
      have hshows := ha.shows henabled.1
      cases h
      cases branch with
      | cancelled => exact consistent_of_ends hshows hl
      | command cmd env =>
        refine .of_shows ?_ (handleCommand_shows hshows cmd env hl)
        exact (handleCommand_looping cmd env).trans henabled.1
      | channelClosed => exact consistent_of_ends hshows hl
      | childExit status spawn =>
        refine .of_shows ?_ (handleExit_shows status spawn)
        exact (handleExit_looping status spawn).trans henabled.1
    next => cases h

/-! ## Runs -/

/-- The invariant is the agreement of the status and the child. -/
theorem Consistent.statusAgrees (ha : a.Consistent) : a.StatusAgrees where
  running_iff hloop pid := by
    have hshows := ha.shows hloop
    unfold Shows at hshows
    cases hchild : a.childProcess with
    | none =>
      rw [hchild] at hshows
      exact iff_of_false (fun h => hshows h.1) (by simp)
    | some c =>
      rw [hchild] at hshows
      simp [hshows.1, hshows.2]
  ended := ha.ended

/-- In every execution without a restart that loses its child in a failed spawn and without an end
of the actor that finds a child, the published status and the owned child agree in every state. -/
theorem status_of_reachable
    (h : (system config).ReachableWhile (fun a l => ¬ a.LeavesRunning l) a) : a.StatusAgrees := by
  have hinv : a.Consistent := by
    refine TransitionSystem.ReachableWhile.invariant (I := Consistent) ?_ ?_ h
    · rintro _ rfl
      exact .of_shows rfl nofun
    · intro s l t _ hs hl hstep
      exact hs.next hl hstep
  exact hinv.statusAgrees

/-- Every step of a spawn succeeds and the new process has the id `pid`. -/
def succeedingSpawn (pid : UInt32) : ListenerSpawnEnv where
  configureCommand := .ok ()
  spawn := .ok ()
  childId := some pid
  attachChild := .ok ()
  stdin := true
  stdout := true
  stderr := true
  now := 0

/-- The agreement after an exit whose automatic restart fails, and a later start. -/
theorem status_after_failed_autorestart :
    ∃ a, (system (.new "listener" "serve")).ReachableWhile (fun a l => ¬ a.LeavesRunning l) a ∧
      a.childProcess = some ⟨9, false⟩ ∧ a.StatusAgrees := by
  obtain ⟨a, hreach, hchild⟩ := TransitionSystem.exists_reachableWhile
    (G := fun a l => ¬ a.LeavesRunning l) (i := new (.new "listener" "serve")) (f := next)
    (fun a => a.childProcess = some ⟨9, false⟩)
    [.iterate (.command .start ⟨succeedingSpawn 7, .ok ()⟩),
      .iterate (.childExit (.ok (.code 1)) { succeedingSpawn 8 with spawn := .error "not found" }),
      .iterate (.command .start ⟨succeedingSpawn 9, .ok ()⟩)] (by decide)
  exact ⟨a, hreach, hchild, status_of_reachable hreach⟩

/-- The condition of `status_of_reachable` is exact: a step that it excludes, taken in a state
in which the status and the child agree, ends in a state in which they do not. -/
theorem not_statusAgrees_of_leavesRunning {l : Label} (ha : a.StatusAgrees)
    (hl : a.LeavesRunning l) (h : a.next l = some b) : ¬ b.StatusAgrees := by
  -- The step is an iteration that finds a child, which is published as running.
  have hshown : a.looping = true → a.childProcess.isSome = true →
      ∃ pid, a.statusSnapshot.state = .running ∧ a.statusSnapshot.pid = some pid := by
    intro hloop hsome
    obtain ⟨c, hc⟩ := Option.isSome_iff_exists.mp hsome
    exact ⟨c.pid.toNat, (ha.running_iff hloop _).mpr ⟨c, hc, rfl⟩⟩
  intro hb
  cases l with
  | cancel => exact hl
  | iterate branch =>
    simp only [next, Bool.and_eq_true] at h
    split at h
    next henabled =>
      cases h
      -- An actor that ends stays published as running.
      have hends : a.childProcess.isSome = true →
          ¬ { a.takeChild with looping := false }.StatusAgrees := by
        intro hsome hagrees
        obtain ⟨pid, hstate, -⟩ := hshown henabled.1 hsome
        apply hagrees.ended rfl
        show a.takeChild.statusSnapshot.state = .running
        rw [takeChild_frame.1, hstate]
      cases branch with
      | cancelled => exact hends hl hb
      | channelClosed => exact hends hl hb
      | childExit status spawn => exact hl
      | command cmd env =>
        cases cmd with
        | start => exact hl
        | stop gracePeriod => exact hl
        | signal signal => exact hl
        | restart gracePeriod =>
          obtain ⟨hsome, hfails⟩ := hl
          obtain ⟨pid, hstate, hpid⟩ := hshown henabled.1 hsome
          have hloop : (a.select (.command (.restart gracePeriod) env)).looping = true :=
            (handleCommand_looping _ _).trans henabled.1
          have hafter : a.select (.command (.restart gracePeriod) env) = a.takeChild := by
            simp only [select, handleCommand]
            split
            next c a' hspawn =>
              simp only [spawnChild, takeChild_frame.2.1] at hspawn
              split at hspawn
              · cases hspawn
              next hlaunch =>
                rw [hlaunch] at hfails
                cases hfails
            next hspawn => exact (spawnChild_error hspawn).1
          obtain ⟨c, hc, -⟩ := (hb.running_iff hloop pid).mp (by
            rw [hafter, takeChild_frame.1]
            exact ⟨hstate, hpid⟩)
          rw [hafter, takeChild_childProcess] at hc
          cases hc
    next => cases h

/-- Without the condition the status can disagree: a restart stops its child and fails to start a
new one, and the process id of the old child stays published. -/
theorem exists_running_without_child :
    ∃ a, (system (.new "listener" "serve")).Reachable a ∧ a.looping = true ∧
      a.childProcess = none ∧ a.statusSnapshot.state = .running ∧
      a.statusSnapshot.pid = some 7 ∧ ¬ a.StatusAgrees := by
  obtain ⟨a, hreach, hloop, hchild, hstate, hpid⟩ := TransitionSystem.exists_reachableWhile
    (G := fun _ _ => True) (i := new (.new "listener" "serve")) (f := next)
    (fun a => a.looping = true ∧ a.childProcess = none ∧ a.statusSnapshot.state = .running ∧
      a.statusSnapshot.pid = some 7)
    [.iterate (.command .start ⟨succeedingSpawn 7, .ok ()⟩),
      .iterate (.command (.restart 5)
        ⟨{ succeedingSpawn 8 with spawn := .error "not found" }, .ok ()⟩)] (by decide)
  refine ⟨a, hreach, hloop, hchild, hstate, hpid, fun hagrees => ?_⟩
  obtain ⟨c, hc, -⟩ := (hagrees.running_iff hloop 7).mp ⟨hstate, hpid⟩
  rw [hchild] at hc
  cases hc

end EventListenerActor

end Rsupervisord
