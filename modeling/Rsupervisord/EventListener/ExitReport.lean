import Rsupervisord.EventListener.Events
import Rsupervisord.Program.History

/-!
# What listeners are told about an exit

The actor calls the exit of its child expected when the code is one of the configured ones. The
event that listeners receive carries a flag of its own, computed from the code alone. The two agree
exactly when no exit is published, or the code is known and counts as a success in both ways.
-/

namespace Rsupervisord

namespace ProgramActor

variable {config : ProgramConfig} {a : ProgramActor}

/-- Listeners are told about the exit with the code `exitCode`, in the events that lead from `a` to
`b`, what the configuration says about it: an announced exit is called expected exactly when the
code is one of the configured exit codes. -/
def ReportsExit (a b : ProgramActor) (exitCode : Option ℤ) : Prop :=
  ∀ e ∈ b.eventHub.drop a.eventHub.length, ∀ payload,
    ("PROCESS_STATE_EXITED", payload) ∈ e.announcements →
      (SaysExpected payload ↔ ∃ code, exitCode = some code ∧ code ∈ a.config.exitCodes)

/-- The events that are published between `a` and `b` are those behind the events of `a`. -/
theorem drop_eventHub {b : ProgramActor} {events : List SystemEvent}
    (h : b.eventHub = a.eventHub ++ events) : b.eventHub.drop a.eventHub.length = events := by
  rw [h, List.drop_left]

/-- When no exit is published there is nothing to report. -/
theorem reportsExit_of_not_endsExited {exitRes : Except String ExitStatus}
    (h : ¬ a.EndsExited (exitCodeOf exitRes)) (drain : DrainEnv) (spawn : SpawnEnv) :
    a.ReportsExit (a.handleChildExit exitRes drain spawn).2 (exitCodeOf exitRes) := by
  -- Every other outcome publishes changes to other states.
  have hpublishes : Publishes (·.newState ≠ .exited) a (a.handleChildExit exitRes drain spawn).2 :=
    Publishes.handleChildExit (fun _ hspawns => hspawns.free.2.1) (.refl a) exitRes drain spawn
      (fun _ => nofun) (fun _ => nofun) (fun hends => absurd hends h)
  obtain ⟨events, hhub, hrun⟩ := hpublishes
  intro e he payload hannounced
  rw [drop_eventHub hhub] at he
  obtain ⟨name, group, oldState, pid, exitCode, tries, description, rfl⟩ :=
    exited_of_announced hannounced
  have hmem : (⟨oldState, .exited, pid⟩ : StateChange) ∈ stateChanges events :=
    List.mem_filterMap.mpr ⟨_, he, rfl⟩
  exact absurd rfl (eventReader_forall hrun _ hmem)

/-- An exit that is published is published as one event, a change from `running`. -/
theorem eventHub_of_endsExited {exitRes : Except String ExitStatus} (ha : a.StateMarked)
    (h : a.EndsExited (exitCodeOf exitRes)) (drain : DrainEnv) (spawn : SpawnEnv) :
    ∃ description, (a.handleChildExit exitRes drain spawn).2.eventHub =
      a.eventHub ++ [.stateChanged a.config.name a.config.group .running .exited none
        (exitCodeOf exitRes) a.retryCount description] := by
  obtain ⟨hstop, hmarked, hrestart⟩ := h
  have hstate : a.statusSnapshot.state = .running := by
    obtain ⟨owned, howned⟩ : ∃ owned, a.currentChild = some owned := by
      by_contra hnone
      rw [← Option.isSome_iff_exists, Option.not_isSome_iff_eq_none] at hnone
      rw [hnone] at hmarked
      exact Bool.false_ne_true hmarked
    rw [howned, Option.map_some, Option.getD_some] at hmarked
    rw [ha owned howned, hmarked]
    rfl
  simp only [handleChildExit]
  generalize hr : a.releaseChild drain = r
  obtain ⟨hconfig, hhub, hstatus, hretry, hflags⟩ : r.config = a.config ∧
      r.eventHub = a.eventHub ∧ r.statusSnapshot = a.statusSnapshot ∧
      r.retryCount = a.retryCount ∧
      (r.isShuttingDown = a.isShuttingDown ∧ r.manualStop = a.manualStop) := by
    rw [← hr]
    simp only [releaseChild]
    split <;> exact ⟨rfl, rfl, rfl, rfl, rfl, rfl⟩
  rw [if_neg (by rwa [hflags.1, hflags.2]), if_neg (not_not.mpr hmarked),
    if_neg (by rw [hconfig, hrestart]; exact Bool.false_ne_true)]
  simp only [updateStatus, hconfig, hhub, hstatus, hretry, hstate]
  exact ⟨_, rfl⟩

/-- A change to `exited` is announced. -/
theorem exists_announced (name group description : String) (oldState : ProgramState)
    (pid : Option ℕ) (exitCode : Option ℤ) (tries : ℕ) :
    ∃ payload, ("PROCESS_STATE_EXITED", payload) ∈
      (SystemEvent.stateChanged name group oldState .exited pid exitCode tries
        description).announcements :=
  ⟨_, List.mem_singleton_self _⟩

/-- The flag of an announced exit tells whether the code, when there is one, is `0`. -/
theorem saysExpected_of_announced {name group payload description : String}
    {oldState : ProgramState} {pid : Option ℕ} {exitCode : Option ℤ} {tries : ℕ}
    (h : ("PROCESS_STATE_EXITED", payload) ∈
      (SystemEvent.stateChanged name group oldState .exited pid exitCode tries
        description).announcements) :
    SaysExpected payload ↔ ∀ code, exitCode = some code → code = 0 := by
  have hformat := List.mem_singleton.mp h
  have hpayload := congrArg Prod.snd hformat
  simp only at hpayload
  rw [hpayload, saysExpected_formatProcessStateEvent]
  cases exitCode with
  | none => simp
  | some code => simp

/-- The report of a published exit is right when the code's own test and the configured one
agree. -/
theorem reportsExit_iff_of_endsExited (ha : a.StateMarked) {exitRes : Except String ExitStatus}
    (hends : a.EndsExited (exitCodeOf exitRes)) (drain : DrainEnv) (spawn : SpawnEnv) :
    a.ReportsExit (a.handleChildExit exitRes drain spawn).2 (exitCodeOf exitRes) ↔
      ∃ code, exitCodeOf exitRes = some code ∧ (code = 0 ↔ code ∈ a.config.exitCodes) := by
  obtain ⟨description, hhub⟩ := eventHub_of_endsExited ha hends drain spawn
  generalize exitCodeOf exitRes = exitCode at hhub
  have hstated : a.ReportsExit (a.handleChildExit exitRes drain spawn).2 exitCode ↔
      ((∀ code, exitCode = some code → code = 0) ↔
        ∃ code, exitCode = some code ∧ code ∈ a.config.exitCodes) := by
    unfold ReportsExit
    rw [drop_eventHub hhub]
    constructor
    · intro hreports
      obtain ⟨payload, hannounced⟩ := exists_announced a.config.name a.config.group description
        .running none exitCode a.retryCount
      rw [← saysExpected_of_announced hannounced]
      exact hreports _ (List.mem_singleton_self _) payload hannounced
    · intro hflag e he payload hannounced
      rw [List.mem_singleton.mp he] at hannounced
      rwa [saysExpected_of_announced hannounced]
  rw [hstated]
  -- Without a code the flag says expected and the configuration says unexpected.
  cases exitCode with
  | none => simp
  | some code => simp

/-- When the child of a program exits, listeners are told what the configuration says about the exit
if and only if the exit is not published at all (a stop is pending, the start-up window is not over,
or the program is restarted), or the code is known and is a configured one exactly when it is
`0`. -/
theorem reportsExit_iff (h : (system config).Reachable a)
    (exitRes : Except String ExitStatus) (drain : DrainEnv) (spawn : SpawnEnv) :
    a.ReportsExit (a.handleChildExit exitRes drain spawn).2 (exitCodeOf exitRes) ↔
      ¬ a.EndsExited (exitCodeOf exitRes) ∨
        ∃ code, exitCodeOf exitRes = some code ∧ (code = 0 ↔ code ∈ config.exitCodes) := by
  have hconfig : a.config = config := config_of_reachable h
  by_cases hends : a.EndsExited (exitCodeOf exitRes)
  · rw [reportsExit_iff_of_endsExited (stateMarked_of_reachable h) hends, hconfig]
    exact (or_iff_right (not_not.mpr hends)).symm
  · exact iff_of_true (reportsExit_of_not_endsExited hends drain spawn) (.inl hends)

/-- `reportsExit_iff` for a running child that ends with the code `0`, the configured one. -/
theorem reportsExit_of_success :
    ∃ a, (system (.new "web" "serve")).Reachable a ∧
      a.EndsExited (some 0) ∧
      a.ReportsExit (a.handleChildExit (.ok (.code 0)) ⟨false⟩ (.succeeding 8)).2 (some 0) := by
  obtain ⟨a, hreach, hends⟩ := TransitionSystem.exists_reachableWhile
    (G := fun _ _ => True) (i := new (.new "web" "serve")) (f := next)
    (fun a => a.EndsExited (some 0))
    [.iterate (.command .start ⟨.graceful, .succeeding 7, .ok ()⟩),
      .iterate (.startDeadline (.ok none))] (by decide)
  refine ⟨a, hreach, hends, ?_⟩
  exact (reportsExit_iff hreach (.ok (.code 0)) ⟨false⟩ (.succeeding 8)).mpr
    (.inr ⟨0, rfl, by decide⟩)

/-- A running child ends with the configured code `2`, and listeners are told that the exit was not
expected. -/
theorem exists_not_reportsExit :
    ∃ a, (system { ProgramConfig.new "web" "serve" with exitCodes := [0, 2] }).Reachable a ∧
      a.EndsExited (some 2) ∧
      ¬ a.ReportsExit (a.handleChildExit (.ok (.code 2)) ⟨false⟩ (.succeeding 8)).2 (some 2) := by
  obtain ⟨a, hreach, hends⟩ := TransitionSystem.exists_reachableWhile
    (G := fun _ _ => True)
    (i := new { ProgramConfig.new "web" "serve" with exitCodes := [0, 2] }) (f := next)
    (fun a => a.EndsExited (some 2))
    [.iterate (.command .start ⟨.graceful, .succeeding 7, .ok ()⟩),
      .iterate (.startDeadline (.ok none))] (by decide)
  refine ⟨a, hreach, hends, fun hreports => ?_⟩
  have hconfig := config_of_reachable hreach
  have hexits : a.EndsExited (exitCodeOf (.ok (.code 2))) := hends
  have hiff : a.ReportsExit (a.handleChildExit (.ok (.code 2)) ⟨false⟩ (.succeeding 8)).2 (some 2) ↔
      ∃ code, some 2 = some code ∧ (code = 0 ↔ code ∈ a.config.exitCodes) :=
    reportsExit_iff_of_endsExited (stateMarked_of_reachable hreach) hexits ⟨false⟩ (.succeeding 8)
  obtain ⟨code, hcode, hagree⟩ := hiff.mp hreports
  rw [hconfig] at hagree
  cases hcode
  revert hagree
  decide

end ProgramActor

end Rsupervisord
