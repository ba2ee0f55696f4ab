import Rsupervisord.Program.Actor

/-!
# The published standard input writer

A step of the actor leaves the published writer alone, takes it away, or installs the next
incarnation and publishes at most the writer of that one.

* `ProgramActor.wires_of_step`: what a step does with the published writer.
-/

namespace Rsupervisord

namespace ProgramActor

/-- No child is installed, and the published writer stays or is taken away. -/
def KeepsStdin (a b : ProgramActor) : Prop :=
  b.incarnation = a.incarnation ∧ (b.stdinTx = a.stdinTx ∨ b.stdinTx = none)

/-- The published writer stays or is taken away, or the next incarnation is installed, of which
alone a writer may then be published. -/
def WiresStdin (a b : ProgramActor) : Prop :=
  KeepsStdin a b ∨
    b.incarnation = a.incarnation + 1 ∧ (b.stdinTx = none ∨ b.stdinTx = some (a.incarnation + 1))

variable {a b c : ProgramActor}

/-- The incarnation and the writer stay. -/
theorem KeepsStdin.of_eq (hinc : b.incarnation = a.incarnation) (htx : b.stdinTx = a.stdinTx) :
    KeepsStdin a b := ⟨hinc, .inl htx⟩

/-- Two steps without a new child are one. -/
theorem KeepsStdin.trans (hab : KeepsStdin a b) (hbc : KeepsStdin b c) : KeepsStdin a c := by
  obtain ⟨hinc, htx⟩ := hab
  obtain ⟨hinc', htx' | htx'⟩ := hbc
  · exact ⟨hinc'.trans hinc, by rwa [htx']⟩
  · exact ⟨hinc'.trans hinc, .inr htx'⟩

/-- What was before the installation does not matter. -/
theorem KeepsStdin.trans_wires (hab : KeepsStdin a b) (hbc : WiresStdin b c) : WiresStdin a c := by
  obtain hbc | ⟨hinc, htx⟩ := hbc
  · exact .inl (hab.trans hbc)
  · rw [hab.1] at hinc htx
    exact .inr ⟨hinc, htx⟩

/-- A writer that is published may be taken away again. -/
theorem WiresStdin.trans_keeps (hab : WiresStdin a b) (hbc : KeepsStdin b c) : WiresStdin a c := by
  obtain hab | ⟨hinc, htx⟩ := hab
  · exact .inl (hab.trans hbc)
  · obtain ⟨hinc', htx' | htx'⟩ := hbc
    · exact .inr ⟨hinc'.trans hinc, by rwa [htx']⟩
    · exact .inr ⟨hinc'.trans hinc, .inl htx'⟩

variable (a)

/-! ## The methods -/

/-- The hook before the start installs no child. -/
theorem runPreStart_keepsStdin (env : SpawnEnv) : KeepsStdin a (a.runPreStart env).2 := by
  simp only [runPreStart]
  split
  · exact .of_eq rfl rfl
  · split
    · exact .of_eq rfl rfl
    · split <;> exact .of_eq rfl rfl

/-- Nor does the hook before the stop. -/
theorem runPreStop_keepsStdin (env : StopEnv) : KeepsStdin a (a.runPreStop env) := by
  simp only [runPreStop]
  split
  · exact .of_eq rfl rfl
  · split <;> exact .of_eq rfl rfl

/-- Stopping a child takes its writer away. -/
theorem stopCurrentChild_keepsStdin (gracePeriod : Duration) (env : StopEnv) :
    KeepsStdin a (a.stopCurrentChild gracePeriod env) := by
  simp only [stopCurrentChild]
  split
  · next c _ =>
    have htaken : KeepsStdin a
        ({ a with startedAt := none, stdinTx := none, currentChild := none }.updateStatus .stopping
          (some c.pid) none "Stopping") := ⟨rfl, .inr rfl⟩
    exact (htaken.trans (runPreStop_keepsStdin _ env)).trans (.of_eq rfl rfl)
  · exact ⟨rfl, .inr rfl⟩

/-- Releasing a child installs no other one. -/
theorem releaseChild_keepsStdin (drain : DrainEnv) : KeepsStdin a (a.releaseChild drain) := by
  simp only [releaseChild]
  split <;> exact ⟨rfl, .inr rfl⟩

/-- Nor does reaping one that has exited. -/
theorem reapExited_keepsStdin {env : SpawnEnv} (h : a.reapExited env = .ok b) : KeepsStdin a b := by
  simp only [reapExited] at h
  split at h
  · cases h
    exact .of_eq rfl rfl
  · split at h
    · cases h
      exact .of_eq rfl rfl
    · cases h

/-- A spawn publishes the writer of the child that it installs. -/
theorem spawnChild_wiresStdin (env : SpawnEnv) : WiresStdin a (a.spawnChild env).2 := by
  simp only [spawnChild]
  split
  · exact .inl (.of_eq rfl rfl)
  · split
    · exact .inl (.of_eq rfl rfl)
    · next a₁ hreap =>
      have hhook := runPreStart_keepsStdin { a₁ with manualStop := false } env
      have hstart : KeepsStdin a ({ a₁ with manualStop := false } : ProgramActor) :=
        (a.reapExited_keepsStdin hreap).trans (.of_eq rfl rfl)
      split
      · next a₂ hrun =>
        rw [hrun] at hhook
        exact .inl (hstart.trans hhook)
      · next a₂ hrun =>
        rw [hrun] at hhook
        split
        · exact .inl (hstart.trans hhook)
        · split
          · exact .inl ((hstart.trans hhook).trans (.of_eq rfl rfl))
          · refine (hstart.trans hhook).trans_wires (.inr ⟨rfl, ?_⟩)
            -- A child without a standard input pipe has no writer.
            by_cases hstdin : env.stdin = true
            · exact .inr (if_pos hstdin)
            · exact .inl (if_neg hstdin)

/-- A command installs one child at most. -/
theorem handleCommand_wiresStdin (cmd : ProgramCommand) (env : CommandEnv) :
    WiresStdin a (a.handleCommand cmd env).2 := by
  cases cmd with
  | start =>
    simp only [handleCommand]
    split
    · exact .inl (.of_eq rfl rfl)
    · exact KeepsStdin.trans_wires (.of_eq rfl rfl) (spawnChild_wiresStdin _ _)
  | stop gracePeriod =>
    exact .inl (KeepsStdin.trans (.of_eq rfl rfl)
      (stopCurrentChild_keepsStdin _ gracePeriod env.stop))
  | restart gracePeriod =>
    simp only [handleCommand]
    split
    · exact .inl (.of_eq rfl rfl)
    · have hstop := stopCurrentChild_keepsStdin
        { a with manualStop := true, retryCount := 0, backoffDeadline := none } gracePeriod env.stop
      exact KeepsStdin.trans_wires (.trans (.of_eq rfl rfl) (hstop.trans (.of_eq rfl rfl)))
        (spawnChild_wiresStdin _ _)
  | shutdown =>
    have hstop := stopCurrentChild_keepsStdin
      { a with isShuttingDown := true, manualStop := true, backoffDeadline := none }
      a.config.stopWaitSecs env.stop
    exact .inl (.trans (.of_eq rfl rfl) (hstop.trans (.of_eq rfl rfl)))
  | signal s =>
    simp only [handleCommand]
    split <;> exact .inl (.of_eq rfl rfl)

/-- A restart for a failed health check installs one child at most. -/
theorem handleHealthEvent_wiresStdin (event : HealthEvent) (stop : StopEnv) (spawn : SpawnEnv) :
    WiresStdin a (a.handleHealthEvent event stop spawn) := by
  cases event with
  | healthy =>
    simp only [handleHealthEvent]
    split <;> exact .inl (.of_eq rfl rfl)
  | unhealthy =>
    simp only [handleHealthEvent]
    generalize hb : (if a.statusSnapshot.health ≠ .unhealthy then _ else _ : ProgramActor) = b
    have hkeeps : KeepsStdin a b := by
      rw [← hb]
      split <;> exact .of_eq rfl rfl
    split
    · have hwires :=
        (hkeeps.trans (b.stopCurrentChild_keepsStdin b.config.stopWaitSecs stop)).trans_wires
        (spawnChild_wiresStdin _ spawn)
      split
      · next hspawn =>
        rw [hspawn] at hwires
        exact hwires.trans_keeps (.of_eq rfl rfl)
      · next hspawn =>
        rw [hspawn] at hwires
        split <;> exact hwires.trans_keeps (.of_eq rfl rfl)
    · exact .inl hkeeps

/-- A retry installs one child at most. -/
theorem handleBackoff_wiresStdin (spawn : SpawnEnv) : WiresStdin a (a.handleBackoff spawn) := by
  have hwires := KeepsStdin.trans_wires (a := a) (.of_eq rfl rfl)
    (spawnChild_wiresStdin { a with backoffDeadline := none } spawn)
  simp only [handleBackoff]
  split
  · exact .inl (.of_eq rfl rfl)
  · split
    · next hspawn =>
      rw [hspawn] at hwires
      exact hwires.trans_keeps (.of_eq rfl rfl)
    · next hspawn =>
      rw [hspawn] at hwires
      split <;> exact hwires.trans_keeps (.of_eq rfl rfl)

/-- So does an automatic restart. -/
theorem autorestartChild_wiresStdin (exitCode : Option ℤ) (spawn : SpawnEnv) :
    WiresStdin a (a.autorestartChild exitCode spawn).2 := by
  simp only [autorestartChild]
  generalize hb : a.updateStatus .starting none exitCode _ = b
  have hkeeps : KeepsStdin a b := hb ▸ .of_eq rfl rfl
  have hwires := hkeeps.trans_wires (spawnChild_wiresStdin b spawn)
  split
  · next hspawn =>
    rw [hspawn] at hwires
    exact hwires.trans_keeps (.of_eq rfl rfl)
  · next hspawn =>
    rw [hspawn] at hwires
    exact hwires

/-- The exit of a child installs at most the one that follows it. -/
theorem handleChildExit_wiresStdin (exitRes : Except String ExitStatus) (drain : DrainEnv)
    (spawn : SpawnEnv) : WiresStdin a (a.handleChildExit exitRes drain spawn).2 := by
  have hrelease := a.releaseChild_keepsStdin drain
  simp only [handleChildExit]
  generalize a.releaseChild drain = b at *
  refine hrelease.trans_wires ?_
  split
  · exact .inl (.of_eq rfl rfl)
  · split
    · split <;> exact .inl (.of_eq rfl rfl)
    · split
      · exact autorestartChild_wiresStdin b _ spawn
      · exact .inl (.of_eq rfl rfl)

/-- The end of the starting time installs no child. -/
theorem handleStartDeadline_keepsStdin (tryWait : Except String (Option ExitStatus)) :
    KeepsStdin a (a.handleStartDeadline tryWait) := by
  simp only [handleStartDeadline]
  split
  · exact .of_eq rfl rfl
  · split <;> exact .of_eq rfl rfl

/-- Nor does a query of the metrics. -/
theorem queryMetrics_keepsStdin (metrics : Except ProgramError ProcessMetrics) :
    KeepsStdin a (a.queryMetrics metrics) := by
  simp only [queryMetrics]
  split <;> exact .of_eq rfl rfl

/-- One pass of the loop installs one child at most. -/
theorem select_wiresStdin (branch : Branch) : WiresStdin a (a.select branch) := by
  cases branch with
  | cancelled stop =>
    have hstop := stopCurrentChild_keepsStdin
      { a with isShuttingDown := true, manualStop := true, backoffDeadline := none }
      a.config.stopWaitSecs stop
    exact .inl (.trans (.of_eq rfl rfl) (hstop.trans (.of_eq rfl rfl)))
  | command cmd env =>
    have hwires := a.handleCommand_wiresStdin cmd env
    simp only [select]
    split
    · split <;> exact hwires.trans_keeps (.of_eq rfl rfl)
    · split <;> exact hwires.trans_keeps (.of_eq rfl rfl)
  | health stop spawn =>
    simp only [select]
    split
    · exact .inl (.of_eq rfl rfl)
    · exact KeepsStdin.trans_wires (.of_eq rfl rfl) (handleHealthEvent_wiresStdin _ _ stop spawn)
  | backoff spawn => exact a.handleBackoff_wiresStdin spawn
  | metricsTick _ metrics => exact .inl (a.queryMetrics_keepsStdin metrics)
  | activityNotified _ _ metrics => exact .inl (a.queryMetrics_keepsStdin metrics)
  | childExit exitRes drain spawn =>
    have hwires := KeepsStdin.trans_wires (a := a) (.of_eq rfl rfl)
      (handleChildExit_wiresStdin { a with startDeadline := none } exitRes drain spawn)
    simp only [select]
    split <;> exact hwires.trans_keeps (.of_eq rfl rfl)
  | startDeadline tryWait => exact .inl (a.handleStartDeadline_keepsStdin tryWait)

variable {a}

/-- A step keeps the published writer, takes it away, or installs the next incarnation and publishes
at most its writer. -/
theorem wires_of_step {l : Label} (h : a.next l = some b) : WiresStdin a b := by
  cases l with
  | iterate branch =>
    simp only [next] at h
    split at h
    · cases h
      exact a.select_wiresStdin branch
    · cases h
  | cancel =>
    cases h
    exact .inl (.of_eq rfl rfl)
  | probeBegin inc =>
    simp only [next] at h
    split at h
    · split at h
      · cases h
      · cases h
        exact .inl (.of_eq rfl rfl)
    · cases h
  | probeResult inc isOk =>
    simp only [next] at h
    split at h
    · split at h
      · cases h
        exact .inl (.of_eq rfl rfl)
      · cases h
    · cases h

end ProgramActor

end Rsupervisord
