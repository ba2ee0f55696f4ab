import Rsupervisord.Program.History
import Rsupervisord.Program.Startup

/-!
# Runs through the start-up window

The actor together with the fate of its processes: `ProgramWorld` adds which of its children have
exited, and its steps let the owned process exit at any time and the operating system report an
exit only once it has happened.

The main result is `starting_child_is_watched`: a child in its start-up window has a start deadline
or an exit that the loop will see, and it is published as running exactly when the window is over.
-/

namespace Rsupervisord

/-- An actor and what has become of its processes. -/
structure ProgramWorld where
  actor : ProgramActor
  /-- Incarnations whose process has exited. -/
  exited : List ℕ
  /-- Children that have exited in their start-up window so far. -/
  startupExits : ℕ

namespace ProgramWorld

/-- Steps of the actor and of the tasks around it, and the exit of the owned process. -/
inductive Label
  | step (l : ProgramActor.Label)
  | exit

/-- The process of the owned child has exited. -/
def childExited (w : ProgramWorld) : Bool :=
  w.actor.currentChild.any (·.incarnation ∈ w.exited)

/-- The operating system reports, inside the step, that the owned child has exited. -/
def saysExited : ProgramActor.Label → Bool
  | .iterate (.startDeadline (.ok (some _))) => true
  | .iterate (.childExit (.ok _) _ _) => true
  | .iterate (.command .start env) => env.spawn.childExited
  | _ => false

/-- One step, when its precondition holds. An exit is reported only after it has happened. -/
def next (w : ProgramWorld) : Label → Option ProgramWorld
  | .step l =>
      if saysExited l ∧ w.actor.currentChild.isSome ∧ ¬ w.childExited then none
      else (w.actor.next l).map fun a => { w with actor := a }
  | .exit =>
      match w.actor.currentChild with
      | none => none
      | some c =>
          if c.incarnation ∈ w.exited then none
          else
            some { w with
              exited := c.incarnation :: w.exited
              startupExits :=
                if c.markedRunning then w.startupExits else w.startupExits + 1 }

/-- The world of a program with the configuration `config`. -/
def system (config : ProgramConfig) : TransitionSystem ProgramWorld Label :=
  .ofNext ⟨.new config, [], 0⟩ next

end ProgramWorld

/-! ## The start deadline -/

namespace Startup

variable {config : ProgramConfig} {due stopping : Bool} {s t : Startup} {exited : List ℕ}

/-- A child in its start-up window has a start deadline, or it has exited. -/
def Watched (exited : List ℕ) (s : Startup) : Prop :=
  ∀ c, s.child = some c → c.markedRunning = false →
    s.startDeadline.isSome = true ∨ c.incarnation ∈ exited

theorem Watched.of_childless (h : s.child = none) : s.Watched exited := by
  intro c hc
  rw [h] at hc
  contradiction

/-- Whatever a spawn of the loop does, a child it leaves is watched. -/
theorem Respawn.watched {now : Instant} (h : Respawn config now s t) (hs : s.Watched exited) :
    t.Watched exited := by
  match h with
  | .failed .refused => exact hs
  | .failed (.failed state) => exact .of_childless rfl
  | .started (.started c hmarked hfresh) =>
    intro c' hc' hwindow
    rw [arm] at hc' ⊢
    split at hc'
    next hsecs =>
      rw [if_pos hsecs]
      exact .inl rfl
    next hsecs =>
      -- Without a start-up window the child is marked at once.
      obtain rfl := Option.some.inj hc'
      rw [hmarked, decide_eq_false_iff_not] at hwindow
      exact absurd hwindow hsecs

/-- The sequence number changes exactly when a command starts a child. -/
theorem afterCommand_watched {now : Instant} {ok : Bool} {u : Startup}
    (h : Spawn config u ok t) (hseq : u.spawnSeq = s.spawnSeq) (hu : u.Watched exited) :
    (t.afterCommand config s.spawnSeq now).Watched exited := by
  match h with
  | .refused =>
    simp only [afterCommand, hseq, ne_eq, not_true_eq_false, if_false]
    split
    next hnone => exact .of_childless (Option.isNone_iff_eq_none.mp hnone)
    next => exact hu
  | .failed state =>
    simp only [afterCommand, hseq, ne_eq, not_true_eq_false, if_false]
    exact .of_childless rfl
  | .started c hmarked hfresh =>
    have hne : (u.spawnSeq + 1) % 2 ^ 64 ≠ s.spawnSeq := by
      rw [hseq]
      omega
    simp only [afterCommand, if_pos hne, Option.isSome_some, true_and]
    intro c' hc' hwindow
    split at hc'
    next hsecs =>
      rw [if_pos hsecs]
      exact .inl rfl
    next hsecs =>
      obtain rfl := Option.some.inj hc'
      rw [hmarked, decide_eq_false_iff_not] at hwindow
      exact absurd hwindow hsecs

/-- Every step keeps the child watched when the exits it is told of have happened. -/
theorem Step.watched {l : ProgramActor.Label} (h : Step config due stopping s l t)
    (htold : ProgramWorld.saysExited l = true → ∀ c, s.child = some c → c.incarnation ∈ exited)
    (hs : s.Watched exited) : t.Watched exited := by
  match h with
  | .idle _ _ => exact hs
  | .cancelled _ => exact .of_childless rfl
  | .command cmd env (.idle _) => exact afterCommand_watched .refused rfl hs
  | .command _ env (.start hspawn) =>
    have hbase : Watched exited { s with retryCount := 0, backoff := none } := hs
    exact afterCommand_watched hspawn rfl hbase
  | .command _ env (.stop gracePeriod) =>
    exact afterCommand_watched (s := s) .refused rfl (.of_childless rfl)
  | .command _ env (.restart gracePeriod hspawn) =>
    exact afterCommand_watched (s := s) hspawn rfl (.of_childless rfl)
  | .command _ env .shutdown =>
    exact afterCommand_watched (s := s) .refused rfl (.of_childless rfl)
  | .healthRestart _ _ _ _ hspawn => exact hspawn.watched (.of_childless rfl)
  | .backoff _ _ hspawn => exact hspawn.watched (s := { s with backoff := none }) hs
  | .exitStopped _ _ _ _ _ => exact .of_childless rfl
  | .exitBackoff _ _ _ _ _ _ _ _ => exact .of_childless rfl
  | .exitFatal _ _ _ _ _ _ _ => exact .of_childless rfl
  | .exitExited _ _ _ _ _ _ => exact .of_childless rfl
  | .exitRestart _ _ _ _ _ _ hspawn => exact hspawn.watched (.of_childless rfl)
  | .expired tryWait hexited =>
    -- The deadline is dropped without marking the child: it has exited.
    intro c hc _
    obtain ⟨status, rfl⟩ := hexited c hc
    exact .inr (htold rfl c hc)
  | .startedUp _ c _ _ =>
    intro c' hc' hwindow
    obtain rfl := Option.some.inj hc'
    contradiction

theorem Spawn.looping {ok : Bool} (h : Spawn config s ok t) : t.looping = s.looping := by
  match h with
  | .refused => rfl
  | .failed _ => rfl
  | .started _ _ _ => rfl

theorem Respawn.looping {now : Instant} (h : Respawn config now s t) :
    t.looping = s.looping := by
  match h with
  | .failed hspawn => exact hspawn.looping
  | .started hspawn =>
    rw [arm]
    split <;> exact hspawn.looping

theorem Command.looping {cmd : ProgramCommand} (h : Command config s cmd t) :
    t.looping = s.looping := by
  match h with
  | .idle _ => rfl
  | .start hspawn => exact hspawn.looping
  | .stop _ => rfl
  | .restart _ hspawn => exact hspawn.looping
  | .shutdown => rfl

/-- The loop is left only without a child, and for good. -/
theorem Step.looping {l : ProgramActor.Label} (h : Step config due stopping s l t) :
    t.looping = s.looping ∨ (t.looping = false ∧ t.child = none) := by
  match h with
  | .cancelled _ => exact .inr ⟨rfl, rfl⟩
  | .command (t := u) _ env hcommand =>
    obtain ⟨deadline, hafter⟩ := exists_afterCommand config s.spawnSeq env.spawn.now u
    rw [hafter]
    exact .inl hcommand.looping
  | .healthRestart _ _ _ _ hspawn => exact .inl hspawn.looping
  | .backoff _ _ hspawn => exact .inl hspawn.looping
  | .exitRestart _ _ _ _ _ _ hspawn => exact .inl hspawn.looping
  | .idle _ _ => exact .inl rfl
  | .exitStopped _ _ _ _ _ => exact .inl rfl
  | .exitBackoff _ _ _ _ _ _ _ _ => exact .inl rfl
  | .exitFatal _ _ _ _ _ _ _ => exact .inl rfl
  | .exitExited _ _ _ _ _ _ => exact .inl rfl
  | .expired _ _ => exact .inl rfl
  | .startedUp _ _ _ _ => exact .inl rfl

end Startup

/-- Only the loop changes the owned child. -/
theorem ProgramActor.looping_of_next {a b : ProgramActor} {l : ProgramActor.Label}
    (h : a.next l = some b) : a.looping = true ∨ b.currentChild = a.currentChild := by
  match l with
  | .iterate _ =>
    left
    simp only [next, Option.ite_none_right_eq_some, Bool.and_eq_true] at h
    exact h.1.1
  | .cancel =>
    obtain rfl := Option.some.inj h
    exact .inr rfl
  | .probeBegin _ =>
    right
    simp only [next] at h
    split at h
    · split at h
      · contradiction
      · obtain rfl := Option.some.inj h
        rfl
    · contradiction
  | .probeResult _ _ =>
    right
    simp only [next] at h
    split at h
    · split at h
      · obtain rfl := Option.some.inj h
        rfl
      · contradiction
    · contradiction

namespace ProgramWorld

variable {config : ProgramConfig} {w v : ProgramWorld}

/-- A step of the world is a step of the actor, or the exit of the process it owns. -/
theorem next_cases {l : Label} (h : w.next l = some v) :
    (∃ m a, l = .step m ∧ w.actor.next m = some a ∧ v = { w with actor := a } ∧
      (saysExited m = true → ∀ c, w.actor.currentChild = some c → c.incarnation ∈ w.exited)) ∨
    (∃ c, l = .exit ∧ w.actor.currentChild = some c ∧ c.incarnation ∉ w.exited ∧
      v = { w with
        exited := c.incarnation :: w.exited
        startupExits := if c.markedRunning then w.startupExits else w.startupExits + 1 }) := by
  match l with
  | .step m =>
    left
    simp only [next] at h
    split at h
    · contradiction
    next htold =>
      obtain ⟨a, ha, rfl⟩ := Option.map_eq_some_iff.mp h
      refine ⟨m, a, rfl, ha, rfl, ?_⟩
      intro hsaid c hc
      simpa [hsaid, hc, childExited] using htold
  | .exit =>
    right
    simp only [next] at h
    split at h
    · contradiction
    next c hc =>
      split at h
      · contradiction
      next hfresh =>
        obtain rfl := Option.some.inj h
        exact ⟨c, rfl, hc, hfresh, rfl⟩

/-- The actor of a reachable world is reachable. -/
theorem actor_reachable (h : (system config).Reachable w) :
    (ProgramActor.system config).Reachable w.actor := by
  refine TransitionSystem.ReachableWhile.invariant
    (I := fun w => (ProgramActor.system config).Reachable w.actor) ?_ ?_ h
  · rintro _ rfl
    exact .init rfl
  · intro w l v _ hw _ hstep
    obtain ⟨m, a, -, hnext, rfl, -⟩ | ⟨c, -, -, -, rfl⟩ := next_cases hstep
    · exact .step hw trivial hnext
    · exact hw

/-- The loop of an actor with a child has not been left, and the child is watched. -/
theorem watched_of_reachable (h : (system config).Reachable w) :
    (w.actor.currentChild.isSome = true → w.actor.looping = true) ∧
      w.actor.startup.Watched w.exited := by
  refine TransitionSystem.ReachableWhile.invariant
    (I := fun w => (w.actor.currentChild.isSome = true → w.actor.looping = true) ∧
      w.actor.startup.Watched w.exited) ?_ ?_ h
  · rintro _ rfl
    exact ⟨fun _ => rfl, .of_childless rfl⟩
  · rintro w l v _ ⟨hloop, hwatched⟩ _ hstep
    obtain ⟨m, a, -, hnext, rfl, htold⟩ | ⟨c, -, hc, -, rfl⟩ := next_cases hstep
    · have href := ProgramActor.next_startup hnext
      refine ⟨?_, href.watched htold hwatched⟩
      intro hsome
      obtain hsame | ⟨-, hnone⟩ := href.looping
      · have hbefore : w.actor.looping = true :=
          (ProgramActor.looping_of_next hnext).elim id fun hkeeps => hloop (hkeeps ▸ hsome)
        exact hsame.trans hbefore
      · rw [show a.currentChild = none from hnone] at hsome
        contradiction
    · -- The exit of the process leaves the actor alone.
      refine ⟨hloop, ?_⟩
      intro c' hc' hwindow
      obtain hdeadline | hmem := hwatched c' hc' hwindow
      · exact .inl hdeadline
      · exact .inr (List.mem_cons_of_mem _ hmem)

/-- A child is never stuck in its start-up window: in every reachable state a child that is not
marked running has a start deadline, or it has exited and the exit arm is enabled. It is marked
running exactly when the program is published as running. -/
theorem starting_child_is_watched (h : (system config).Reachable w) :
    (∀ c, w.actor.currentChild = some c → c.markedRunning = false →
      w.actor.startDeadline.isSome = true ∨
        w.childExited = true ∧ ∀ status drain spawn,
          (w.next (.step (.iterate (.childExit (.ok status) drain spawn)))).isSome = true) ∧
    ((∃ c, w.actor.currentChild = some c ∧ c.markedRunning = true) ↔
      w.actor.currentChild.isSome = true ∧ w.actor.statusSnapshot.state = .running) := by
  obtain ⟨hloop, hwatched⟩ := watched_of_reachable h
  have hmarked := ProgramActor.stateMarked_of_reachable (actor_reachable h)
  refine ⟨?_, ?_, ?_⟩
  · intro c hc hwindow
    obtain hdeadline | hmem := hwatched c hc hwindow
    · exact .inl hdeadline
    · right
      have hsome : w.actor.currentChild.isSome = true := by
        rw [hc]
        rfl
      have hexited : w.childExited = true := by
        simp [childExited, hc, hmem]
      refine ⟨hexited, ?_⟩
      intro status drain spawn
      simp [next, saysExited, hexited, ProgramActor.next, ProgramActor.Branch.enabled, hsome,
        hloop hsome]
  · rintro ⟨c, hc, hrunning⟩
    have hstate := hmarked c hc
    rw [hrunning] at hstate
    exact ⟨hc ▸ rfl, hstate⟩
  · rintro ⟨hsome, hstate⟩
    obtain ⟨c, hc⟩ := Option.isSome_iff_exists.mp hsome
    have hstate' := hmarked c hc
    rw [hstate] at hstate'
    refine ⟨c, hc, ?_⟩
    by_contra hwindow
    rw [Bool.not_eq_true] at hwindow
    rw [hwindow] at hstate'
    contradiction

/-- The invariant at work: the child exits, the start deadline finds that out, and the exit arm
is left to handle it. -/
theorem starting_child_is_watched_after_exit :
    ∃ w c, (system (.new "web" "serve")).Reachable w ∧ w.actor.currentChild = some c ∧
      c.markedRunning = false ∧ w.actor.startDeadline = none ∧ w.childExited = true := by
  obtain ⟨w, hreach, hsome, hwindow, hdeadline⟩ := TransitionSystem.exists_reachableWhile
    (G := fun _ _ => True) (i := ⟨.new (.new "web" "serve"), [], 0⟩) (f := next)
    (fun w => w.actor.currentChild.isSome = true ∧
      w.actor.currentChild.any (!·.markedRunning) = true ∧ w.actor.startDeadline = none)
    [.step (.iterate (.command .start ⟨.graceful, .succeeding 7, .ok ()⟩)), .exit,
      .step (.iterate (.startDeadline (.ok (some (.code 1)))))] (by decide)
  obtain ⟨c, hc⟩ := Option.isSome_iff_exists.mp hsome
  have hmarked : c.markedRunning = false := by
    simpa [hc] using hwindow
  obtain hsome' | ⟨hexited, -⟩ := (starting_child_is_watched hreach).1 c hc hmarked
  · rw [hdeadline] at hsome'
    contradiction
  · exact ⟨w, c, hreach, hc, hmarked, hdeadline, hexited⟩

end ProgramWorld

end Rsupervisord
