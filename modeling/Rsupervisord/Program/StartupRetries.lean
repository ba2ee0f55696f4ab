import Rsupervisord.Program.StartupRuns

/-!
# Retries of a failing start-up

Between two events that begin a new round of retries at most `start_retries + 1` children exit in
their start-up window, and then the program is `fatal` and nothing is spawned any more. The
argument is an account: `Startup.spent` adds the retry counter and the exit that the loop has still
to handle, every exit in the window raises it by one, no other step lowers it, and `Startup.Budget`
bounds it.

The counter is a `u32` that is incremented before it is compared. `startupRetries_bounded_iff` says
that the bound holds for every `start_retries` but the greatest value of that type, which the
counter cannot pass.
-/

namespace Rsupervisord

/-! ## The retry counter -/

namespace Startup

variable {config : ProgramConfig} {due stopping : Bool} {s t : Startup} {exited : List ℕ}

/-- The counter of a program with a start-up window. While a child or a retry is there, the
counter has not passed `start_retries`; a marked child has reset it. -/
structure Budget (config : ProgramConfig) (s : Startup) : Prop where
  le_succ : s.retryCount ≤ config.startRetries + 1
  of_child : s.child.isSome = true → s.retryCount ≤ config.startRetries
  of_backoff : s.backoff.isSome = true → s.retryCount ≤ config.startRetries
  of_marked : ∀ c, s.child = some c → c.markedRunning = true → s.retryCount = 0

theorem Budget.of_zero (h : s.retryCount = 0) : s.Budget config where
  le_succ := by omega
  of_child _ := by omega
  of_backoff _ := by omega
  of_marked _ _ _ := h

/-- Without a child and a retry only the bound is left. -/
theorem Budget.of_quiet (hle : s.retryCount ≤ config.startRetries + 1) (hchild : s.child = none)
    (hbackoff : s.backoff = none) : s.Budget config where
  le_succ := hle
  of_child h := by simp [hchild] at h
  of_backoff h := by simp [hbackoff] at h
  of_marked c hc := by simp [hchild] at hc

/-- Without a child a counter that has not passed `start_retries` is in order. -/
theorem Budget.of_childless (hle : s.retryCount ≤ config.startRetries) (hchild : s.child = none) :
    s.Budget config where
  le_succ := by omega
  of_child _ := hle
  of_backoff _ := hle
  of_marked c hc := by simp [hchild] at hc

theorem Spawn.retryCount {ok : Bool} (h : Spawn config s ok t) : t.retryCount = s.retryCount := by
  match h with
  | .refused => rfl
  | .failed _ => rfl
  | .started _ _ _ => rfl

theorem Respawn.retryCount {now : Instant} (h : Respawn config now s t) :
    t.retryCount = s.retryCount := by
  match h with
  | .failed hspawn => exact hspawn.retryCount
  | .started hspawn =>
    rw [arm]
    split <;> exact hspawn.retryCount

/-- A child spawned into a start-up window is not marked yet. -/
theorem Respawn.budget {now : Instant} (h : Respawn config now s t)
    (hsecs : config.startSecs ≠ 0) (hle : s.retryCount ≤ config.startRetries)
    (hchild : s.child = none) : t.Budget config := by
  have hcount := h.retryCount
  match h with
  | .failed .refused => exact .of_childless (s := { s with state := .fatal }) hle hchild
  | .failed (.failed state) => exact .of_childless hle rfl
  | .started (.started c hmarked hfresh) =>
    rw [arm, if_pos hsecs]
    refine ⟨Nat.le_succ_of_le hle, fun _ => hle, fun _ => hle, ?_⟩
    intro c' hc' hrunning
    obtain rfl := Option.some.inj hc'
    rw [hmarked, decide_eq_true_eq] at hrunning
    exact absurd hrunning hsecs

theorem afterCommand_budget {seqBefore : ℕ} {now : Instant} (hs : s.Budget config) :
    (s.afterCommand config seqBefore now).Budget config := by
  obtain ⟨deadline, hafter⟩ := exists_afterCommand config seqBefore now s
  rw [hafter]
  exact ⟨hs.le_succ, hs.of_child, hs.of_backoff, hs.of_marked⟩

theorem Budget.increment (hs : s.Budget config) (hretries : config.startRetries < 2 ^ 32 - 1)
    (hchild : s.child.isSome = true) : (s.retryCount + 1) % 2 ^ 32 = s.retryCount + 1 := by
  have hle := hs.of_child hchild
  exact Nat.mod_eq_of_lt (by omega)

/-- Every step keeps the counter in order, unless the increment wraps. -/
theorem Step.budget {l : ProgramActor.Label} (h : Step config due stopping s l t)
    (hsecs : config.startSecs ≠ 0) (hretries : config.startRetries < 2 ^ 32 - 1)
    (hfree : s.backoff.isSome = true → s.child = none) (hs : s.Budget config) :
    t.Budget config := by
  match h with
  | .idle _ _ => exact hs
  | .cancelled _ => exact .of_quiet hs.le_succ rfl rfl
  | .command _ _ (.idle _) => exact afterCommand_budget hs
  | .command _ _ (.start hspawn) => exact afterCommand_budget (.of_zero hspawn.retryCount)
  | .command _ _ (.stop _) => exact afterCommand_budget (.of_quiet hs.le_succ rfl rfl)
  | .command _ _ (.restart _ hspawn) => exact afterCommand_budget (.of_zero hspawn.retryCount)
  | .command _ _ .shutdown => exact afterCommand_budget (.of_quiet hs.le_succ rfl rfl)
  | .healthRestart _ _ _ hchild hspawn => exact hspawn.budget hsecs (hs.of_child hchild) rfl
  | .backoff _ hdeadline hspawn =>
    exact hspawn.budget hsecs (hs.of_backoff hdeadline) (hfree hdeadline)
  | .exitStopped _ _ _ _ _ => exact .of_quiet hs.le_succ rfl rfl
  | .exitBackoff _ _ _ _ _ _ hretry _ => exact .of_childless hretry rfl
  | .exitFatal _ _ _ c hchild _ _ =>
    have hsome : s.child.isSome = true := by rw [hchild]; rfl
    refine .of_quiet ?_ rfl ?_
    · have hle := hs.of_child hsome
      simp only [hs.increment hretries hsome]
      omega
    · by_contra hbackoff
      have hnone := hfree (Option.isSome_iff_ne_none.mpr hbackoff)
      rw [hnone] at hsome
      contradiction
  | .exitExited _ _ _ c hchild hmarked =>
    exact .of_childless (hs.of_child (by rw [hchild]; rfl)) rfl
  | .exitRestart _ _ _ c hchild hmarked hspawn =>
    exact hspawn.budget hsecs (hs.of_child (by rw [hchild]; rfl)) rfl
  | .expired _ _ => exact ⟨hs.le_succ, hs.of_child, hs.of_backoff, hs.of_marked⟩
  | .startedUp _ _ _ _ => exact .of_zero rfl

/-- What has been spent of the budget: the counter, and the exit of the owned child that the loop
has still to handle. -/
def spent (exited : List ℕ) (s : Startup) : ℕ :=
  s.retryCount +
    if s.child.any (fun c => !c.markedRunning && c.incarnation ∈ exited) then 1 else 0

theorem spent_of_childless (h : s.child = none) : s.spent exited = s.retryCount := by
  simp [spent, h]

theorem spent_of_marked {c : RunningChild} (h : s.child = some c) (hc : c.markedRunning = true) :
    s.spent exited = s.retryCount := by
  simp [spent, h, hc]

theorem le_spent {n : ℕ} (h : n ≤ s.retryCount) : n ≤ s.spent exited :=
  h.trans (Nat.le_add_right _ _)

theorem spent_le_succ : s.spent exited ≤ s.retryCount + 1 := by
  rw [spent]
  split <;> omega

theorem Budget.spent_le (h : s.Budget config) : s.spent exited ≤ config.startRetries + 1 := by
  by_cases hchild : s.child = none
  · rw [spent_of_childless hchild]
    exact h.le_succ
  · have hle := h.of_child (Option.isSome_iff_ne_none.mpr hchild)
    exact spent_le_succ.trans (by omega)

/-- The step from `s` to `t` is one of the events that begin a new round of retries: a start, a
restart, a stop or a shutdown, a restart for the sake of the health, or the transition to
`running`. -/
def renews (due : Bool) (s : Startup) (l : ProgramActor.Label) (t : Startup) : Bool :=
  match l with
  | .iterate (.command (.signal _) _) => false
  | .iterate (.command _ _) => true
  | .iterate (.health _ _) => due
  | _ => s.state ≠ .running && t.state = .running

theorem renews_of_startsOrRestarts {l : ProgramActor.Label} (h : l.startsOrRestarts = true) :
    s.renews due l t = true := by
  unfold ProgramActor.Label.startsOrRestarts at h
  split at h
  · rfl
  · rfl
  · contradiction

theorem spent_afterCommand {seqBefore : ℕ} {now : Instant} :
    (s.afterCommand config seqBefore now).spent exited = s.spent exited := by
  obtain ⟨deadline, hafter⟩ := exists_afterCommand config seqBefore now s
  rw [hafter]
  rfl

/-- Between two such events nothing that was spent is given back: the handled exit of an unmarked
child counts as much as the exit did. -/
theorem Step.spent_le {l : ProgramActor.Label} (h : Step config due stopping s l t)
    (hquiet : s.renews due l t = false) (hretries : config.startRetries < 2 ^ 32 - 1)
    (hfree : s.backoff.isSome = true → s.child = none)
    (hwanted : s.child.isSome = true → stopping = false)
    (hmarked : s.state = .running → ∀ c, s.child = some c → c.markedRunning = true)
    (hs : s.Budget config) (hloop : t.looping = true) : s.spent exited ≤ t.spent exited := by
  match h with
  | .idle _ _ => exact le_rfl
  | .cancelled _ => contradiction
  | .command _ _ (.idle _) => exact spent_afterCommand.ge
  | .command _ _ (.start _) => contradiction
  | .command _ _ (.stop _) => contradiction
  | .command _ _ (.restart _ _) => contradiction
  | .command _ _ .shutdown => contradiction
  | .healthRestart _ _ hdue _ _ =>
    rw [show renews due s _ t = due from rfl, hdue] at hquiet
    contradiction
  | .backoff _ hdeadline hspawn =>
    rw [spent_of_childless (hfree hdeadline)]
    exact le_spent hspawn.retryCount.ge
  | .exitStopped _ _ _ hchild hstopping =>
    rw [hwanted hchild] at hstopping
    contradiction
  | .exitBackoff _ _ _ c hchild _ _ _ =>
    have hcount := hs.increment hretries (by rw [hchild]; rfl)
    exact le_spent (spent_le_succ.trans hcount.ge)
  | .exitFatal _ _ _ c hchild _ _ =>
    have hcount := hs.increment hretries (by rw [hchild]; rfl)
    exact le_spent (spent_le_succ.trans hcount.ge)
  | .exitExited _ _ _ c hchild hmarked => 
    rw [spent_of_marked hchild hmarked]
    exact le_spent le_rfl
  | .exitRestart _ _ _ c hchild hmarked hspawn =>
    rw [spent_of_marked hchild hmarked]
    exact le_spent hspawn.retryCount.ge
  | .expired _ _ => exact le_rfl
  | .startedUp _ c hchild _ =>
    -- Only a child that was running already can be marked without an event.
    have hstate : s.state = .running := by
      simpa [renews] using hquiet
    have hrunning := hmarked hstate c hchild
    rw [spent_of_marked hchild hrunning, hs.of_marked c hchild hrunning]
    exact Nat.zero_le _

/-- A program that has used up its retries is `fatal` and has no retry pending. -/
def Exhausted (config : ProgramConfig) (s : Startup) : Prop :=
  s.looping = true → s.child = none → config.startRetries < s.retryCount →
    s.state = .fatal ∧ s.backoff = none

/-- Between two events that begin a new round an exhausted program stays `fatal`. -/
theorem Step.exhausted {l : ProgramActor.Label} (h : Step config due stopping s l t)
    (hquiet : s.renews due l t = false) (hfree : s.backoff.isSome = true → s.child = none)
    (hwanted : s.child.isSome = true → stopping = false) (hs : s.Budget config)
    (hex : s.Exhausted config) : t.Exhausted config := by
  have hlive (hchild : s.child.isSome = true) (hlt : config.startRetries < s.retryCount) : False :=
    absurd (hs.of_child hchild) (by omega)
  intro hloop hnone hlt
  match h with
  | .idle _ _ => exact hex hloop hnone hlt
  | .cancelled _ => contradiction
  | .command _ env (.idle _) =>
    obtain ⟨deadline, hafter⟩ := exists_afterCommand config s.spawnSeq env.spawn.now s
    rw [hafter] at hloop hnone hlt ⊢
    exact hex hloop hnone hlt
  | .command _ _ (.start _) => contradiction
  | .command _ _ (.stop _) => contradiction
  | .command _ _ (.restart _ _) => contradiction
  | .command _ _ .shutdown => contradiction
  | .healthRestart _ _ hdue _ _ =>
    rw [show renews due s _ t = due from rfl, hdue] at hquiet
    contradiction
  | .backoff _ hdeadline hspawn =>
    have hcount : t.retryCount = s.retryCount := hspawn.retryCount
    exact absurd (hs.of_backoff hdeadline) (by omega)
  | .exitStopped _ _ _ hchild hstopping =>
    rw [hwanted hchild] at hstopping
    contradiction
  | .exitBackoff _ _ _ _ _ _ hretry _ => exact absurd hlt (Nat.not_lt.mpr hretry)
  | .exitFatal _ _ _ c hchild _ _ =>
    refine ⟨rfl, ?_⟩
    by_contra hbackoff
    have hnone := hfree (Option.isSome_iff_ne_none.mpr hbackoff)
    rw [hnone] at hchild
    contradiction
  | .exitExited _ _ _ c hchild _ => exact (hlive (by rw [hchild]; rfl) hlt).elim
  | .exitRestart _ _ _ c hchild _ hspawn =>
    have hcount : t.retryCount = s.retryCount := hspawn.retryCount
    exact (hlive (by rw [hchild]; rfl) (by omega)).elim
  | .expired _ _ => exact hex hloop hnone hlt
  | .startedUp _ c _ _ => contradiction

/-- The exit of a child that has spent the last of the budget makes the program `fatal`. -/
theorem Step.fatal_of_exit {l : ProgramActor.Label} (h : Step config due stopping s l t)
    (hl : l.isExit = true) (hretries : config.startRetries < 2 ^ 32 - 1)
    (hfree : s.backoff.isSome = true → s.child = none)
    (hwanted : s.child.isSome = true → stopping = false) (hs : s.Budget config)
    (hspent : s.spent exited = config.startRetries + 1) :
    t.state = .fatal ∧ t.backoff = none ∧ t.child = none := by
  cases h with
  | idle _ hidle =>
    rw [hidle] at hl
    contradiction
  | exitStopped _ _ _ hchild hstopping =>
    rw [hwanted hchild] at hstopping
    contradiction
  | exitBackoff _ _ _ c hchild _ hretry =>
    have hsome : s.child.isSome = true := by rw [hchild]; rfl
    rw [hs.increment hretries hsome] at hretry
    have hle : s.spent exited ≤ s.retryCount + 1 := spent_le_succ
    omega
  | exitFatal _ _ _ c hchild =>
    refine ⟨rfl, ?_, rfl⟩
    by_contra hbackoff
    have hnone := hfree (Option.isSome_iff_ne_none.mpr hbackoff)
    rw [hnone] at hchild
    contradiction
  | exitExited _ _ _ c hchild hmarked =>
    rw [spent_of_marked hchild hmarked, hs.of_marked c hchild hmarked] at hspent
    contradiction
  | exitRestart _ _ _ c hchild hmarked =>
    rw [spent_of_marked hchild hmarked, hs.of_marked c hchild hmarked] at hspent
    contradiction
  | _ => contradiction

end Startup

/-- The counter is in order in every reachable state, unless it can wrap. -/
theorem ProgramActor.budget_of_reachable {config : ProgramConfig} {a : ProgramActor}
    (hsecs : config.startSecs ≠ 0) (hretries : config.startRetries < 2 ^ 32 - 1)
    (h : (ProgramActor.system config).Reachable a) : a.startup.Budget config := by
  refine TransitionSystem.ReachableWhile.invariant
    (I := fun a => a.startup.Budget config) ?_ ?_ h
  · rintro _ rfl
    exact .of_zero rfl
  · intro a l b hreach ha _ hstep
    have href := ProgramActor.next_startup hstep
    rw [ProgramActor.config_of_reachable hreach] at href
    exact href.budget hsecs hretries (ProgramActor.childShown_of_reachable hreach).noRetry ha

namespace ProgramWorld

variable {config : ProgramConfig} {s w v : ProgramWorld} {l : Label}

/-- What has been spent of the budget of the actor. -/
def spent (w : ProgramWorld) : ℕ :=
  w.actor.startup.spent w.exited

/-- The step is none of the events that begin a new round of retries. -/
def Undisturbed (w : ProgramWorld) : Label → Prop
  | .step l => ∀ a, w.actor.next l = some a →
      Startup.renews w.actor.healthRestartDue w.actor.startup l a.startup = false
  | .exit => True

/-- What is true of the runs from `s` to `w` without such an event, and of what comes after it. -/
structure RetriesBounded (config : ProgramConfig) (s w : ProgramWorld) : Prop where
  /-- At most `start_retries + 1` children exit in their start-up window. -/
  le : w.startupExits ≤ s.startupExits + (config.startRetries + 1)
  /-- After that many exits the program is `fatal`, once the last exit has been handled. -/
  fatal : w.startupExits = s.startupExits + (config.startRetries + 1) →
    w.actor.looping = true → w.actor.currentChild = none →
      w.actor.statusSnapshot.state = .fatal ∧ w.actor.backoffDeadline = none
  /-- Handling the last exit gets there. -/
  handled : w.startupExits = s.startupExits + (config.startRetries + 1) →
    ∀ exitRes drain spawn v,
      w.next (.step (.iterate (.childExit exitRes drain spawn))) = some v →
        v.actor.statusSnapshot.state = .fatal ∧ v.actor.backoffDeadline = none ∧
          v.actor.currentChild = none
  /-- Nothing is spawned afterwards. -/
  noRespawn : w.startupExits = s.startupExits + (config.startRetries + 1) →
    w.actor.looping = true → w.actor.currentChild = none →
      ∀ ls v, TransitionSystem.RunWhile (T := system config) Undisturbed w ls v →
        v.actor.spawned = w.actor.spawned

/-- The facts about a reachable actor that the steps of its start-up depend on. -/
structure Ready (config : ProgramConfig) (w : ProgramWorld) : Prop where
  config_eq : w.actor.config = config
  free : w.actor.startup.backoff.isSome = true → w.actor.startup.child = none
  wanted : w.actor.startup.child.isSome = true →
    (w.actor.isShuttingDown || w.actor.manualStop) = false
  marked : w.actor.startup.state = .running →
    ∀ c, w.actor.startup.child = some c → c.markedRunning = true
  looping : w.actor.startup.child.isSome = true → w.actor.looping = true
  budget : w.actor.startup.Budget config

theorem ready_of_reachable (hsecs : config.startSecs ≠ 0)
    (hretries : config.startRetries < 2 ^ 32 - 1) (h : (system config).Reachable w) :
    w.Ready config where
  config_eq := ProgramActor.config_of_reachable (actor_reachable h)
  free := (ProgramActor.childShown_of_reachable (actor_reachable h)).noRetry
  wanted hsome := by
    have hflags := ProgramActor.childWanted_of_reachable (actor_reachable h) hsome
    rw [Bool.or_eq_false_iff]
    exact hflags
  marked hstate c hc := by
    have hmarked := ProgramActor.stateMarked_of_reachable (actor_reachable h) c hc
    rw [show w.actor.statusSnapshot.state = .running from hstate] at hmarked
    by_contra hwindow
    rw [Bool.not_eq_true] at hwindow
    rw [hwindow] at hmarked
    contradiction
  looping := (watched_of_reachable h).1
  budget := ProgramActor.budget_of_reachable hsecs hretries (actor_reachable h)

/-- Every exit in a start-up window is paid for, as long as the loop runs. -/
theorem Ready.pays (hw : w.Ready config) (hretries : config.startRetries < 2 ^ 32 - 1)
    (hquiet : w.Undisturbed l) (h : w.next l = some v) :
    (v.startupExits = w.startupExits ∨ v.actor.looping = true) ∧
      (v.actor.looping = true →
        w.actor.looping = true ∧ v.startupExits + w.spent ≤ w.startupExits + v.spent) := by
  obtain ⟨m, a, rfl, hnext, rfl, -⟩ | ⟨c, rfl, hc, hfresh, rfl⟩ := next_cases h
  · refine ⟨.inl rfl, ?_⟩
    intro hloop
    have href := ProgramActor.next_startup hnext
    rw [hw.config_eq] at href
    refine ⟨?_, ?_⟩
    · obtain hsame | ⟨hleft, -⟩ := href.looping
      · exact hsame.symm.trans hloop
      · rw [show a.startup.looping = a.looping from rfl, hloop] at hleft
        contradiction
    · have hle : w.spent ≤ a.startup.spent w.exited :=
        href.spent_le (hquiet a hnext) hretries hw.free hw.wanted hw.marked hw.budget hloop
      exact Nat.add_le_add_left hle _
  · have hloop : w.actor.looping = true := hw.looping (by
      rw [show w.actor.startup.child = some c from hc]
      rfl)
    refine ⟨.inr hloop, fun _ => ⟨hloop, ?_⟩⟩
    -- The exit raises both sides when the child is not marked, and neither when it is.
    by_cases hmarked : c.markedRunning = true
    · simp [spent, Startup.spent, ProgramActor.startup, hc, hmarked]
    · simp [spent, Startup.spent, ProgramActor.startup, hc, hmarked, hfresh]
      omega

/-- The account of a run without disturbance from `s`. -/
structure Accounted (config : ProgramConfig) (s w : ProgramWorld) : Prop where
  reachable : (system config).Reachable w
  paid : w.actor.looping = true → w.startupExits + s.spent ≤ s.startupExits + w.spent
  le : w.startupExits + s.spent ≤ s.startupExits + (config.startRetries + 1)
  exhausted : s.spent = 0 → w.actor.startup.Exhausted config

theorem accounted_of_run (hsecs : config.startSecs ≠ 0)
    (hretries : config.startRetries < 2 ^ 32 - 1) (hs : (system config).Reachable s)
    {ls : List Label} (hrun : TransitionSystem.RunWhile (T := system config) Undisturbed s ls w) :
    Accounted config s w := by
  refine TransitionSystem.RunWhile.invariant (I := Accounted config s) ?_ hrun ?_
  · intro w l v hquiet hw hstep
    have hready := ready_of_reachable hsecs hretries hw.reachable
    obtain ⟨hexits, hpays⟩ := hready.pays hretries hquiet hstep
    have hreach : (system config).Reachable v := .step hw.reachable trivial hstep
    have hpaid (hloop : v.actor.looping = true) :
        v.startupExits + s.spent ≤ s.startupExits + v.spent := by
      have hbefore := hw.paid (hpays hloop).1
      have hstep := (hpays hloop).2
      omega
    refine ⟨hreach, hpaid, ?_, ?_⟩
    · obtain hsame | hloop := hexits
      · have hle := hw.le
        omega
      · have hle : v.spent ≤ config.startRetries + 1 :=
          (ready_of_reachable hsecs hretries hreach).budget.spent_le
        have hpaid := hpaid hloop
        omega
    · intro hzero
      obtain ⟨m, a, rfl, hnext, rfl, -⟩ | ⟨c, rfl, hc, hfresh, rfl⟩ := next_cases hstep
      · have href := ProgramActor.next_startup hnext
        rw [hready.config_eq] at href
        exact href.exhausted (hquiet a hnext) hready.free hready.wanted hready.budget
          (hw.exhausted hzero)
      · exact hw.exhausted hzero
  · have hbudget := (ready_of_reachable hsecs hretries hs).budget
    refine ⟨hs, fun _ => le_rfl, Nat.add_le_add_left hbudget.spent_le _, ?_⟩
    intro hzero _ _ hlt
    have hle : s.actor.startup.retryCount ≤ s.spent := Startup.le_spent le_rfl
    omega

/-- With a counter that cannot wrap, the retries between two events are bounded. -/
theorem retriesBounded_of_run (hsecs : config.startSecs ≠ 0)
    (hretries : config.startRetries < 2 ^ 32 - 1) (hs : (system config).Reachable s)
    {ls : List Label} (hrun : TransitionSystem.RunWhile (T := system config) Undisturbed s ls w) :
    RetriesBounded config s w := by
  have hw := accounted_of_run hsecs hretries hs hrun
  have hready := ready_of_reachable hsecs hretries hw.reachable
  -- At the bound nothing had been spent before and everything has been spent now.
  have hzero (hmax : w.startupExits = s.startupExits + (config.startRetries + 1)) :
      s.spent = 0 := by
    have hle := hw.le
    omega
  have hall (hmax : w.startupExits = s.startupExits + (config.startRetries + 1))
      (hloop : w.actor.looping = true) : w.spent = config.startRetries + 1 := by
    have hpaid := hw.paid hloop
    have hle : w.spent ≤ _ := hready.budget.spent_le
    omega
  have hfatal (hmax : w.startupExits = s.startupExits + (config.startRetries + 1))
      (hloop : w.actor.looping = true) (hchild : w.actor.currentChild = none) :
      w.actor.statusSnapshot.state = .fatal ∧ w.actor.backoffDeadline = none := by
    refine hw.exhausted (hzero hmax) hloop hchild ?_
    have hspent := hall hmax hloop
    rw [spent, Startup.spent_of_childless hchild] at hspent
    omega
  refine ⟨?_, hfatal, ?_, ?_⟩
  · have hle := hw.le
    omega
  · intro hmax exitRes drain spawn v hstep
    obtain ⟨m, a, hm, hnext, rfl, -⟩ | ⟨c, hl, -⟩ := next_cases hstep
    · obtain rfl : _ = m := Label.step.inj hm
      have hloop : w.actor.looping = true := by
        simp only [ProgramActor.next, Option.ite_none_right_eq_some, Bool.and_eq_true] at hnext
        exact hnext.1.1
      have href := ProgramActor.next_startup hnext
      rw [hready.config_eq] at href
      exact href.fatal_of_exit rfl hretries hready.free hready.wanted hready.budget
        (hall hmax hloop)
    · contradiction
  · intro hmax hloop hchild ls' v hrun'
    have hquiet : w.actor.lifecycle.Quiet := ⟨hchild, (hfatal hmax hloop hchild).2⟩
    refine (TransitionSystem.RunWhile.invariant
      (I := fun v => v.actor.lifecycle.Quiet ∧ v.actor.spawned = w.actor.spawned) ?_ hrun'
      ⟨hquiet, rfl⟩).2
    rintro v l u hG ⟨hv, hsame⟩ hstep
    obtain ⟨m, a, rfl, hnext, rfl, -⟩ | ⟨c, rfl, hc, -⟩ := next_cases hstep
    · have hcommand : m.startsOrRestarts = false := by
        by_contra hstarts
        rw [Bool.not_eq_false] at hstarts
        have hrenews := hG a hnext
        rw [Startup.renews_of_startsOrRestarts hstarts] at hrenews
        contradiction
      obtain ⟨ha, hspawned⟩ := (ProgramActor.next_refines hnext).2.quiet hcommand hv
      exact ⟨ha, hspawned.trans hsame⟩
    · have hnone : v.actor.currentChild = none := hv.child
      rw [hnone] at hc
      contradiction

end ProgramWorld

/-! ## A counter that wraps -/

/-- A spawn without a child, none of whose steps fails. -/
theorem ProgramActor.spawnChild_succeeding {a : ProgramActor} (pid : ℕ)
    (hchild : a.currentChild = none) (hdown : a.isShuttingDown = false) :
    ∃ b, a.spawnChild (.succeeding pid) = (.ok (), b) ∧ b.config = a.config ∧
      b.isShuttingDown = false ∧ b.manualStop = false ∧
      Startup.Spawn a.config a.startup true b.startup := by
  generalize hout : a.spawnChild (.succeeding pid) = out
  obtain ⟨r, b⟩ := out
  have hpasses : (SpawnEnv.succeeding pid).hookPasses a.config := .inr (.inl rfl)
  have hlaunch : ((SpawnEnv.succeeding pid).launch a.config.name).isOk = true := rfl
  obtain ⟨hconfig, hlife⟩ := a.spawnChild_lifecycle hout
  have hstart := ProgramActor.spawnChild_startup hout
  generalize hb : b.lifecycle = t at hlife
  generalize hr : r.isOk = ok at hlife hstart
  cases hlife with
  | refused hrefused =>
    have hrefused : a.isShuttingDown = true ∨ a.currentChild.isSome = true ∧ _ := hrefused
    simp [hchild, hdown] at hrefused
  | hookFailed _ _ hhook => exact absurd hpasses hhook
  | launchFailed _ _ hfail =>
    rw [hfail.2] at hlaunch
    contradiction
  | started =>
    match r with
    | .ok () =>
      exact ⟨b, rfl, hconfig, (congrArg Lifecycle.isShuttingDown hb).trans hdown,
        congrArg Lifecycle.manualStop hb, hstart⟩
    | .error _ => contradiction

namespace ProgramWorld

variable {config : ProgramConfig} {w : ProgramWorld}

/-- A program whose child is about to exit in its start-up window once more. -/
structure Crashing (config : ProgramConfig) (w : ProgramWorld) : Prop where
  reachable : (system config).Reachable w
  child : ∃ c, w.actor.currentChild = some c ∧ c.markedRunning = false ∧
    c.incarnation = w.actor.incarnation
  alive : ∀ i ∈ w.exited, i < w.actor.incarnation
  looping : w.actor.looping = true
  isShuttingDown : w.actor.isShuttingDown = false
  manualStop : w.actor.manualStop = false

/-- The exit of the child in its start-up window, handled while retries are left. -/
theorem ProgramActor.next_crash {a : ProgramActor} {c : RunningChild}
    (hc : a.currentChild = some c) (hmarked : c.markedRunning = false)
    (hloop : a.looping = true) (hdown : a.isShuttingDown = false) (hstop : a.manualStop = false)
    (hretry : (a.retryCount + 1) % 2 ^ 32 ≤ a.config.startRetries) :
    ∃ b, a.next (.iterate (.childExit (.ok (.code 1)) ⟨false⟩ (.succeeding 7))) = some b ∧
      b.startup.child = none ∧ b.startup.state = .backoff ∧ b.startup.backoff.isSome = true ∧
      b.startup.looping = true ∧ b.startup.incarnation = a.incarnation ∧
      b.isShuttingDown = false ∧ b.manualStop = false := by
  have hnext : a.next (.iterate (.childExit (.ok (.code 1)) ⟨false⟩ (.succeeding 7))) =
      some (a.select (.childExit (.ok (.code 1)) ⟨false⟩ (.succeeding 7))) := by
    simp [ProgramActor.next, ProgramActor.Branch.enabled, hloop, hc]
  refine ⟨_, hnext, ?_⟩
  have hlife := (ProgramActor.next_refines hnext).2
  have hstart := ProgramActor.next_startup hnext
  generalize a.select _ = b at hlife hstart
  have hstopping : (a.isShuttingDown || a.manualStop) = false := by
    rw [hdown, hstop]
    rfl
  have hflags : b.isShuttingDown = false ∧ b.manualStop = false := by
    generalize hu : b.lifecycle = u at hlife
    have hdown' : b.isShuttingDown = u.isShuttingDown := congrArg Lifecycle.isShuttingDown hu
    have hstop' : b.manualStop = u.manualStop := congrArg Lifecycle.manualStop hu
    rw [hdown', hstop']
    cases hlife with
    | exitRestart _ _ _ _ c' hc' hmarked' =>
      obtain rfl : c = c' := Option.some.inj (hc.symm.trans hc')
      rw [hmarked] at hmarked'
      contradiction
    | _ => exact ⟨hdown, hstop⟩
  generalize ht : b.startup = t at hstart
  cases hstart with
  | idle _ hidle => contradiction
  | exitStopped _ _ _ _ hstopped =>
    rw [hstopping] at hstopped
    contradiction
  | exitBackoff =>
    exact ⟨rfl, rfl, rfl, hloop, rfl, hflags⟩
  | exitFatal _ _ _ _ _ _ hgt => exact absurd hretry hgt
  | exitExited _ _ _ c' hc' hmarked' =>
    obtain rfl : c = c' := Option.some.inj (hc.symm.trans hc')
    rw [hmarked] at hmarked'
    contradiction
  | exitRestart _ _ _ c' hc' hmarked' =>
    obtain rfl : c = c' := Option.some.inj (hc.symm.trans hc')
    rw [hmarked] at hmarked'
    contradiction

/-- The retry after it, when the spawn succeeds. -/
theorem ProgramActor.next_retry {a : ProgramActor} (hsecs : a.config.startSecs ≠ 0)
    (hc : a.currentChild = none) (hbackoff : a.backoffDeadline.isSome = true)
    (hloop : a.looping = true) (hdown : a.isShuttingDown = false) (hstop : a.manualStop = false) :
    ∃ b, a.next (.iterate (.backoff (.succeeding 7))) = some b ∧
      (∃ c, b.currentChild = some c ∧ c.markedRunning = false ∧ c.incarnation = b.incarnation) ∧
      b.incarnation = a.incarnation + 1 ∧ b.statusSnapshot.state = .starting ∧
      b.looping = true ∧ b.isShuttingDown = false ∧ b.manualStop = false := by
  obtain ⟨b, hspawn, hconfig, hdown', hstop', hstart⟩ :=
    ProgramActor.spawnChild_succeeding (a := { a with backoffDeadline := none }) 7 hc hdown
  have hflags : ¬ (a.isShuttingDown = true ∨ a.manualStop = true) := by
    simp [hdown, hstop]
  refine ⟨{ b with startDeadline := some (0 + b.config.startSecs) }, ?_, ?_⟩
  · have hsecs' : b.config.startSecs ≠ 0 := by
      rw [hconfig]
      exact hsecs
    have hselect : a.select (.backoff (.succeeding 7)) =
        { b with startDeadline := some (0 + b.config.startSecs) } := by
      simp only [ProgramActor.select, ProgramActor.handleBackoff, if_neg hflags, hspawn,
        if_pos hsecs']
      rfl
    simp only [ProgramActor.next, ProgramActor.Branch.enabled, hloop, hbackoff, hdown, hstop,
      Bool.not_false, Bool.and_self, if_true, hselect]
  · generalize ht : b.startup = t at hstart
    cases hstart with
    | started c hmarked hfresh =>
      have hc : b.currentChild = some c := congrArg Startup.child ht
      have hinc : b.incarnation = a.incarnation + 1 := congrArg Startup.incarnation ht
      have hwindow : c.markedRunning = false := by
        rw [hmarked]
        exact decide_eq_false hsecs
      have hstate : b.statusSnapshot.state = .starting := by
        have hview : b.statusSnapshot.state = bif c.markedRunning then .running else .starting :=
          congrArg Startup.state ht
        rw [hwindow] at hview
        exact hview
      exact ⟨⟨c, hc, hwindow, hfresh.trans hinc.symm⟩, hinc, hstate,
        (congrArg Startup.looping ht).trans hloop, hdown', hstop'⟩

/-- A counter that wraps never passes `start_retries`: the child can crash once more without any
event. -/
theorem Crashing.again (hsecs : config.startSecs ≠ 0)
    (hretries : config.startRetries = 2 ^ 32 - 1) (hw : Crashing config w) :
    ∃ ls v, TransitionSystem.RunWhile (T := system config) Undisturbed w ls v ∧
      v.startupExits = w.startupExits + 1 ∧ Crashing config v := by
  obtain ⟨c, hc, hwindow, hinc⟩ := hw.child
  have hconfig := ProgramActor.config_of_reachable (actor_reachable hw.reachable)
  have hfresh : c.incarnation ∉ w.exited := by
    intro hmem
    have hlt := hw.alive _ hmem
    omega
  have hretry : (w.actor.retryCount + 1) % 2 ^ 32 ≤ w.actor.config.startRetries := by
    rw [hconfig, hretries]
    omega
  -- The process exits, the loop handles the exit, and the backoff timer spawns the next one.
  obtain ⟨a, ha, hchild, hstate, hbackoff, hloop, hinca, hdown, hstop⟩ :=
    ProgramActor.next_crash hc hwindow hw.looping hw.isShuttingDown hw.manualStop hretry
  have hconfiga : a.config = config := (ProgramActor.next_refines ha).1.trans hconfig
  obtain ⟨b, hb, hchildb, hincb, hstateb, hloopb, hdownb, hstopb⟩ :=
    ProgramActor.next_retry (hconfiga ▸ hsecs) hchild hbackoff hloop hdown hstop
  have hexit : w.next .exit =
      some ⟨w.actor, c.incarnation :: w.exited, w.startupExits + 1⟩ := by
    simp [next, hc, hfresh, hwindow]
  have hcrash : next ⟨w.actor, c.incarnation :: w.exited, w.startupExits + 1⟩
      (.step (.iterate (.childExit (.ok (.code 1)) ⟨false⟩ (.succeeding 7)))) =
      some ⟨a, c.incarnation :: w.exited, w.startupExits + 1⟩ := by
    simp [next, childExited, hc, ha]
  have hretried : next ⟨a, c.incarnation :: w.exited, w.startupExits + 1⟩
      (.step (.iterate (.backoff (.succeeding 7)))) =
      some ⟨b, c.incarnation :: w.exited, w.startupExits + 1⟩ := by
    simp [next, saysExited, hb]
  have hrun : TransitionSystem.RunWhile (T := system config) Undisturbed w
      [.exit, .step (.iterate (.childExit (.ok (.code 1)) ⟨false⟩ (.succeeding 7))),
        .step (.iterate (.backoff (.succeeding 7)))]
      ⟨b, c.incarnation :: w.exited, w.startupExits + 1⟩ := by
    refine .cons trivial hexit (.cons ?_ hcrash (.cons ?_ hretried (.nil _)))
    · intro a' ha'
      obtain rfl := Option.some.inj (ha.symm.trans ha')
      simp [Startup.renews, hstate]
    · intro b' hb'
      obtain rfl := Option.some.inj (hb.symm.trans hb')
      simp [Startup.renews, ProgramActor.startup, hstateb]
  have hinca : a.incarnation = w.actor.incarnation := hinca
  refine ⟨_, _, hrun, rfl, ?_, hchildb, ?_, hloopb, hdownb, hstopb⟩
  · exact .step (.step (.step hw.reachable trivial hexit) trivial hcrash) trivial hretried
  · intro i hi
    simp only [List.mem_cons] at hi
    obtain rfl | hmem := hi
    · simp only
      omega
    · have hlt := hw.alive i hmem
      simp only
      omega

theorem Crashing.run (hsecs : config.startSecs ≠ 0)
    (hretries : config.startRetries = 2 ^ 32 - 1) (hw : Crashing config w) (n : ℕ) :
    ∃ ls v, TransitionSystem.RunWhile (T := system config) Undisturbed w ls v ∧
      v.startupExits = w.startupExits + n ∧ Crashing config v := by
  induction n with
  | zero => exact ⟨[], w, .nil w, rfl, hw⟩
  | succ n ih =>
    obtain ⟨ls, v, hrun, hexits, hv⟩ := ih
    obtain ⟨ls', u, hrun', hexits', hu⟩ := hv.again hsecs hretries
    refine ⟨ls ++ ls', u, hrun.append hrun', ?_, hu⟩
    omega

/-- A program with a start-up window that has just been started. -/
theorem exists_crashing (hsecs : config.startSecs ≠ 0) :
    ∃ w, Crashing config w := by
  let env : CommandEnv := ⟨.graceful, .succeeding 7, .ok ()⟩
  obtain ⟨b, hspawn, hconfig, hdown, hstop, hstart⟩ :=
    ProgramActor.spawnChild_succeeding (a := .new config) 7 rfl rfl
  have hcommand : (ProgramActor.new config).handleCommand .start env = (.ok (), b) := hspawn
  have hnext : (ProgramActor.new config).next (.iterate (.command .start env)) =
      some ((ProgramActor.new config).select (.command .start env)) := rfl
  have hview := ProgramActor.select_command_startup (a := .new config) .start env
  have hlife := ProgramActor.select_command_lifecycle (a := .new config) .start env
  rw [hcommand] at hview hlife
  obtain ⟨deadline, hafter⟩ := Startup.exists_afterCommand b.config
    (ProgramActor.new config).startup.spawnSeq env.spawn.now b.startup
  rw [hafter] at hview
  generalize (ProgramActor.new config).select _ = a at hnext hview hlife
  have hworld : next ⟨.new config, [], 0⟩ (.step (.iterate (.command .start env))) =
      some ⟨a, [], 0⟩ := by
    simp only [next, hnext]
    rfl
  generalize hb : b.startup = t at hstart hview
  cases hstart with
  | started c hmarked hfresh =>
    refine ⟨⟨a, [], 0⟩, .step (.init rfl) trivial hworld, ⟨c, ?_, ?_, ?_⟩,
      fun i hi => by simp at hi, ?_, ?_, ?_⟩
    · exact congrArg Startup.child hview
    · rw [hmarked]
      exact decide_eq_false hsecs
    · exact hfresh.trans (congrArg Startup.incarnation hview).symm
    · exact congrArg Startup.looping hview
    · exact (congrArg Lifecycle.isShuttingDown hlife).trans hdown
    · exact (congrArg Lifecycle.manualStop hlife).trans hstop

/-- The exact condition: exits in the start-up window are bounded between two events unless
`start_retries` is the greatest value of its type. -/
theorem startupRetries_bounded_iff (hsecs : config.startSecs ≠ 0)
    (hu32 : config.startRetries < 2 ^ 32) :
    (∀ s ls w, (system config).Reachable s →
      TransitionSystem.RunWhile (T := system config) Undisturbed s ls w →
        RetriesBounded config s w) ↔
      config.startRetries < 2 ^ 32 - 1 := by
  refine ⟨?_, ?_⟩
  · intro hall
    by_contra hmax
    have hretries : config.startRetries = 2 ^ 32 - 1 := by omega
    obtain ⟨s, hs⟩ := exists_crashing hsecs
    obtain ⟨ls, w, hrun, hexits, -⟩ := hs.run hsecs hretries (2 ^ 32 + 1)
    have hle := (hall s ls w hs.reachable hrun).le
    omega
  · intro hretries s ls w hs hrun
    exact retriesBounded_of_run hsecs hretries hs hrun

/-- The condition at work: the default of three retries. -/
theorem startupRetries_bounded_of_default :
    (ProgramConfig.new "web" "serve").startRetries = 3 ∧
      ∀ s ls w, (system (.new "web" "serve")).Reachable s →
        TransitionSystem.RunWhile (T := system (.new "web" "serve")) Undisturbed s ls w →
          RetriesBounded (.new "web" "serve") s w :=
  ⟨rfl, (startupRetries_bounded_iff (by decide) (by decide)).mpr (by decide)⟩

/-- Without the condition the retries are unbounded: with the greatest `start_retries` there is,
the counter wraps before it passes it. -/
theorem exists_unbounded_retries :
    ∃ (config : ProgramConfig) (s w : ProgramWorld) (ls : List Label),
      config.startSecs ≠ 0 ∧ config.startRetries = 4294967295 ∧ (system config).Reachable s ∧
      TransitionSystem.RunWhile (T := system config) Undisturbed s ls w ∧
      s.startupExits + (config.startRetries + 1) < w.startupExits ∧
      w.actor.statusSnapshot.state ≠ .fatal := by
  let config : ProgramConfig := { ProgramConfig.new "web" "serve" with startRetries := 4294967295 }
  have hsecs : config.startSecs ≠ 0 := by decide
  obtain ⟨s, hs⟩ := exists_crashing hsecs
  obtain ⟨ls, w, hrun, hexits, hw⟩ := hs.run hsecs rfl (4294967295 + 2)
  refine ⟨config, s, w, ls, hsecs, rfl, hs.reachable, hrun, ?_, ?_⟩
  · rw [hexits]
    exact Nat.lt_succ_self _
  · intro hfatal
    obtain ⟨c, hc, -, -⟩ := hw.child
    obtain ⟨-, hstate⟩ :=
      (ProgramActor.childShown_of_reachable (actor_reachable hw.reachable)).shown c hc
    rw [show w.actor.lifecycle.state = .fatal from hfatal] at hstate
    simp at hstate

end ProgramWorld

end Rsupervisord
