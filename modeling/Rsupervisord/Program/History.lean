import Rsupervisord.Program.LifecycleInvariants

/-!
# The published history of a program

A reader of the event hub follows a program by its `StateChanged` events alone. The reader is an
automaton on program states, `eventReader`: it takes an event only from the state it is in. The
actor refines it: between two iterations of its loop the events published so far have led the
reader from `stopped` to the published state.

Which changes an arm of the loop may publish depends on the child it finds. That the published state
of an owned child tells whether its start-up window is over (`StateMarked`) is the invariant behind
it.
-/

namespace Rsupervisord

/-- A state change as a reader of the event hub sees it. -/
structure StateChange where
  oldState : ProgramState
  newState : ProgramState
  pid : Option ℕ
  deriving DecidableEq, Repr

/-- The state change that an event reports. -/
def SystemEvent.stateChange? : SystemEvent → Option StateChange
  | .stateChanged _ _ oldState newState pid _ _ _ => some ⟨oldState, newState, pid⟩
  | _ => none

/-- The state changes among events. -/
def stateChanges (es : List SystemEvent) : List StateChange :=
  es.filterMap SystemEvent.stateChange?

@[simp]
theorem stateChanges_nil : stateChanges [] = [] := rfl

@[simp]
theorem stateChanges_append (es fs : List SystemEvent) :
    stateChanges (es ++ fs) = stateChanges es ++ stateChanges fs :=
  List.filterMap_append

namespace StateChange

/-- The change may be published in every state. -/
def Free (c : StateChange) : Prop :=
  c.newState ≠ .backoff ∧ c.newState ≠ .exited ∧ c.newState ≠ .stopping

/-- The change is one that a spawn may publish. -/
def Spawns (c : StateChange) : Prop :=
  c.newState = .starting ∨ c.newState = .running ∨ c.newState = .fatal

/-- The change follows the rules of the life cycle. -/
structure Legal (c : StateChange) : Prop where
  backoff : c.newState = .backoff → c.oldState = .starting
  exited : c.newState = .exited → c.oldState = .running
  stopping : c.newState = .stopping → c.oldState = .starting ∨ c.oldState = .running

/-- A legal change that an actor publishes while it owns the child `child`. -/
structure LegalFor (child : Option RunningChild) (c : StateChange) : Prop extends Legal c where
  stoppingPid : c.newState = .stopping → ∃ owned, child = some owned ∧ c.pid = some owned.pid

theorem Spawns.free {c : StateChange} (h : c.Spawns) : c.Free := by
  unfold Free
  obtain h | h | h := h <;> rw [h] <;> decide

theorem Free.legalFor {c : StateChange} (h : c.Free) (child : Option RunningChild) :
    c.LegalFor child where
  backoff hnew := absurd hnew h.1
  exited hnew := absurd hnew h.2.1
  stopping hnew := absurd hnew h.2.2
  stoppingPid hnew := absurd hnew h.2.2

end StateChange

/-- A reader of the event hub: it takes a change from the state it is in, provided that the change
satisfies `P`. -/
def eventReader (P : StateChange → Prop) : TransitionSystem ProgramState StateChange where
  init s := s = .stopped
  step s c t := c.oldState = s ∧ c.newState = t ∧ P c

section Reader

variable {P : StateChange → Prop} {s t : ProgramState} {changes : List StateChange}

/-- A reader takes only changes that satisfy `P`. -/
theorem eventReader_forall (h : (eventReader P).Run s changes t) :
    ∀ change ∈ changes, P change := by
  induction h with
  | nil => exact nofun
  | cons hstep _ ih => exact List.forall_mem_cons.mpr ⟨hstep.2.2, ih⟩

/-- Each change starts where the one before it ended. -/
theorem eventReader_chain (h : (eventReader P).Run s changes t) :
    changes.map (·.oldState) ++ [t] = s :: changes.map (·.newState) := by
  induction h with
  | nil => rfl
  | cons hstep _ ih =>
    obtain ⟨rfl, rfl, -⟩ := hstep
    rw [List.map_cons, List.map_cons, List.cons_append, ih]

/-- The last change leads to the state of the reader. -/
theorem eventReader_replay (h : (eventReader P).Run s changes t) :
    changes.foldl (fun _ change => change.newState) s = t := by
  induction h with
  | nil => rfl
  | cons hstep _ ih =>
    obtain ⟨-, rfl, -⟩ := hstep
    exact ih

end Reader

namespace ProgramActor

variable {P : StateChange → Prop} {a b c : ProgramActor}

/-! ## What the methods publish -/

/-- From `a` to `b` events were published that lead a reader from the one state to the other. -/
def Publishes (P : StateChange → Prop) (a b : ProgramActor) : Prop :=
  ∃ events, b.eventHub = a.eventHub ++ events ∧
    (eventReader P).Run a.statusSnapshot.state (stateChanges events) b.statusSnapshot.state

/-- Nothing is published while the hub and the published state stay. -/
theorem Publishes.of_eq (hhub : b.eventHub = a.eventHub)
    (hstate : b.statusSnapshot.state = a.statusSnapshot.state) : Publishes P a b := by
  refine ⟨[], ?_, ?_⟩
  · rw [hhub, List.append_nil]
  · rw [hstate]
    exact .nil _

theorem Publishes.refl (a : ProgramActor) : Publishes P a a := .of_eq rfl rfl

theorem Publishes.trans (hab : Publishes P a b) (hbc : Publishes P b c) : Publishes P a c := by
  obtain ⟨events, hhub, hrun⟩ := hab
  obtain ⟨events', hhub', hrun'⟩ := hbc
  refine ⟨events ++ events', ?_, ?_⟩
  · rw [hhub', hhub, List.append_assoc]
  · rw [stateChanges_append]
    exact hrun.append hrun'

/-- An event that reports no state change is not for the reader. -/
theorem Publishes.publishSystem (hab : Publishes P a b) {e : SystemEvent}
    (he : e.stateChange? = none) : Publishes P a (b.publishSystem e) := by
  refine hab.trans ⟨[e], rfl, ?_⟩
  rw [stateChanges, List.filterMap_cons_none he]
  exact .nil _

/-- A status update publishes its own change, or none when the state stays. -/
theorem Publishes.updateStatus (hab : Publishes P a b) {state : ProgramState} {pid : Option ℕ}
    {exitCode : Option ℤ} {description : String} (h : P ⟨b.statusSnapshot.state, state, pid⟩) :
    Publishes P a (b.updateStatus state pid exitCode description) := by
  have hstate : (b.updateStatus state pid exitCode description).statusSnapshot.state = state :=
    b.statusSnapshot.update_state state pid exitCode description
  refine hab.trans ?_
  by_cases hemit : (b.statusSnapshot.state ≠ state || exitCode.isSome : Bool) = true
  · refine ⟨[.stateChanged b.config.name b.config.group b.statusSnapshot.state state pid exitCode
      b.retryCount description], if_pos hemit, ?_⟩
    rw [hstate]
    exact .cons ⟨rfl, rfl, h⟩ (.nil _)
  · have hsame : b.statusSnapshot.state = state := by
      simp only [Bool.or_eq_true, decide_eq_true_eq, not_or, not_not] at hemit
      exact hemit.1
    exact .of_eq (if_neg hemit) (hstate.trans hsame.symm)

section Spawn

variable (hspawns : ∀ change : StateChange, change.Spawns → P change)

include hspawns

/-- The `pre_start` hook publishes at most `fatal`. -/
theorem Publishes.runPreStart (hab : Publishes P a b) (env : SpawnEnv) :
    Publishes P a (b.runPreStart env).2 := by
  simp only [ProgramActor.runPreStart]
  split
  · exact hab
  · split
    · exact hab.publishSystem rfl
    · split
      · exact (hab.publishSystem rfl).publishSystem rfl
      · apply Publishes.updateStatus
        · exact (hab.publishSystem rfl).publishSystem rfl
        · exact hspawns _ (.inr (.inr rfl))

/-- A new child is published as starting or running. -/
theorem Publishes.installChild (hab : Publishes P a b) (env : SpawnEnv) (pid : ℕ) :
    Publishes P a (b.installChild env pid) := by
  have hstate : ∀ marked : Bool, (bif marked then ProgramState.running else .starting) = .starting ∨
      (bif marked then ProgramState.running else .starting) = .running ∨
      (bif marked then ProgramState.running else .starting) = .fatal := by decide
  simp only [ProgramActor.installChild]
  refine Publishes.trans ?_ (.of_eq rfl rfl)
  apply Publishes.updateStatus
  · exact hab
  · exact hspawns _ (hstate _)

/-- What a spawn publishes are changes to `starting`, `running` and `fatal`. -/
theorem Publishes.spawnChild (hab : Publishes P a b) (env : SpawnEnv) :
    Publishes P a (b.spawnChild env).2 := by
  simp only [ProgramActor.spawnChild]
  split
  · exact hab
  split
  · exact hab
  next b₁ hreap =>
    have hreaped : Publishes P b b₁ := by
      simp only [reapExited] at hreap
      split at hreap
      · cases hreap
        exact .refl b
      · split at hreap
        · cases hreap
          exact .of_eq rfl rfl
        · cases hreap
    have hhook : Publishes P a ({ b₁ with manualStop := false }.runPreStart env).2 := by
      apply Publishes.runPreStart hspawns
      exact hab.trans hreaped
    generalize { b₁ with manualStop := false }.runPreStart env = r at hhook
    obtain ⟨res, b₂⟩ := r
    cases res with
    | error e => exact hhook
    | ok =>
      simp only
      split
      · exact hhook
      · split
        · exact hhook
        · exact Publishes.installChild hspawns hhook env _

theorem Publishes.of_spawnChild (hab : Publishes P a b) {env : SpawnEnv}
    {r : Except ProgramError Unit} (h : b.spawnChild env = (r, c)) : Publishes P a c := by
  have hspawn := Publishes.spawnChild hspawns hab env
  rw [h] at hspawn
  exact hspawn

end Spawn

/-- Stopping publishes `stopping` for the child it takes, and `stopped`. -/
theorem Publishes.stopCurrentChild (hab : Publishes P a b)
    (hstopped : ∀ oldState, P ⟨oldState, .stopped, none⟩)
    (hstopping : ∀ owned, b.currentChild = some owned →
      P ⟨b.statusSnapshot.state, .stopping, some owned.pid⟩)
    (gracePeriod : Duration) (env : StopEnv) :
    Publishes P a (b.stopCurrentChild gracePeriod env) := by
  simp only [ProgramActor.stopCurrentChild]
  split
  next owned howned =>
    apply Publishes.updateStatus
    · simp only [runPreStop]
      split
      · exact hab.updateStatus (hstopping owned howned)
      · split
        · exact (hab.updateStatus (hstopping owned howned)).publishSystem rfl
        · exact ((hab.updateStatus (hstopping owned howned)).publishSystem rfl).publishSystem rfl
    · exact hstopped _
  next =>
    apply Publishes.updateStatus
    · exact hab
    · exact hstopped _

/-- The exit of the owned child, with the given code, is published as `exited`: nobody asked for
it, the start-up window was over and the restart policy does not start the program again. -/
def EndsExited (a : ProgramActor) (exitCode : Option ℤ) : Prop :=
  ¬ (a.isShuttingDown ∨ a.manualStop) ∧
    (a.currentChild.map (·.markedRunning)).getD false = true ∧
    a.config.autorestart.shouldRestart (exitCode.getD (-1)) a.config.exitCodes = false

instance (a : ProgramActor) (exitCode : Option ℤ) : Decidable (a.EndsExited exitCode) :=
  inferInstanceAs (Decidable (_ ∧ _ ∧ _))

/-- An automatic restart publishes `starting` before the spawn, and `fatal` when it fails. -/
theorem Publishes.autorestartChild (hspawns : ∀ change : StateChange, change.Spawns → P change)
    (hab : Publishes P a b) (exitCode : Option ℤ) (spawn : SpawnEnv) :
    Publishes P a (b.autorestartChild exitCode spawn).2 := by
  simp only [ProgramActor.autorestartChild]
  generalize hstarting : b.updateStatus .starting none exitCode _ = b₁
  have hpublish : Publishes P a b₁ := by
    rw [← hstarting]
    apply Publishes.updateStatus
    · exact hab
    · exact hspawns _ (.inl rfl)
  split
  next hres =>
    apply Publishes.updateStatus
    · exact Publishes.of_spawnChild hspawns hpublish hres
    · exact hspawns _ (.inr (.inr rfl))
  next hres => exact Publishes.of_spawnChild hspawns hpublish hres

/-- The exit of a child publishes `backoff` inside the start-up window and `exited` behind it. -/
theorem Publishes.handleChildExit (hspawns : ∀ change : StateChange, change.Spawns → P change)
    (hab : Publishes P a b) (exitRes : Except String ExitStatus) (drain : DrainEnv)
    (spawn : SpawnEnv)
    (hstopped : b.isShuttingDown ∨ b.manualStop → P ⟨b.statusSnapshot.state, .stopped, none⟩)
    (hbackoff : (b.currentChild.map (·.markedRunning)).getD false = false →
      P ⟨b.statusSnapshot.state, .backoff, none⟩)
    (hexited : b.EndsExited (exitCodeOf exitRes) → P ⟨b.statusSnapshot.state, .exited, none⟩) :
    Publishes P a (b.handleChildExit exitRes drain spawn).2 := by
  have hrelease : Publishes P a (b.releaseChild drain) := by
    refine hab.trans ?_
    simp only [releaseChild]
    split <;> exact .of_eq rfl rfl
  have hstate : (b.releaseChild drain).statusSnapshot.state = b.statusSnapshot.state := by
    simp only [releaseChild]
    split <;> rfl
  have hconfig : (b.releaseChild drain).config = b.config := releaseChild_config drain
  have hflags : ((b.releaseChild drain).isShuttingDown ∨ (b.releaseChild drain).manualStop) ↔
      (b.isShuttingDown ∨ b.manualStop) := by
    simp only [releaseChild]
    split <;> rfl
  simp only [ProgramActor.handleChildExit]
  generalize b.releaseChild drain = r at hrelease hstate hconfig hflags
  split
  next hstop =>
    apply Publishes.updateStatus
    · exact hrelease
    · show P ⟨r.statusSnapshot.state, .stopped, none⟩
      rw [hstate]
      exact hstopped (hflags.mp hstop)
  next hstop =>
    split
    next hunmarked =>
      split
      · refine Publishes.trans ?_ (.of_eq rfl rfl)
        apply Publishes.updateStatus
        · exact hrelease
        · show P ⟨r.statusSnapshot.state, .backoff, none⟩
          rw [hstate]
          exact hbackoff (by simpa using hunmarked)
      · apply Publishes.updateStatus
        · exact hrelease
        · exact hspawns _ (.inr (.inr rfl))
    next hmarked =>
      split
      · exact Publishes.autorestartChild hspawns hrelease _ _
      next hrestart =>
        apply Publishes.updateStatus
        · exact hrelease
        · rw [hstate]
          apply hexited
          rw [hconfig] at hrestart
          exact ⟨hflags.not.mp hstop, by simpa using hmarked, by simpa using hrestart⟩

/-! ## The state of an owned child -/

/-- The published state of an owned child tells whether its start-up window is over. -/
def StateMarked (a : ProgramActor) : Prop :=
  ∀ owned, a.currentChild = some owned →
    a.statusSnapshot.state = bif owned.markedRunning then .running else .starting

theorem StateMarked.of_childless (h : a.currentChild = none) : a.StateMarked := by
  intro owned howned
  rw [h] at howned
  cases howned

theorem stopCurrentChild_currentChild (gracePeriod : Duration) (env : StopEnv) :
    (a.stopCurrentChild gracePeriod env).currentChild = none :=
  congrArg Lifecycle.child (a.stopCurrentChild_lifecycle gracePeriod env)

/-- A spawn that starts a child publishes the state of its start-up window. -/
theorem StateMarked.of_spawnChild (ha : a.StateMarked) {env : SpawnEnv}
    {r : Except ProgramError Unit} (h : a.spawnChild env = (r, b)) : b.StateMarked := by
  simp only [spawnChild] at h
  split at h
  · cases h
    exact ha
  split at h
  · cases h
    exact ha
  next a₁ hreap =>
    have hchild₁ : a₁.currentChild = none :=
      congrArg Lifecycle.child (a.reapExited_ok hreap).2.1
    split at h
    next e a₂ hhook =>
      cases h
      have hchild₂ : b.currentChild = a₁.currentChild :=
        congrArg Lifecycle.child (runPreStart_error _ hhook).2.1
      exact .of_childless (hchild₂.trans hchild₁)
    next a₂ hhook =>
      have hchild₂ : a₂.currentChild = a₁.currentChild :=
        congrArg Lifecycle.child (runPreStart_ok _ hhook).2.1
      split at h
      · cases h
        exact .of_childless (hchild₂.trans hchild₁)
      split at h
      · cases h
        exact .of_childless (hchild₂.trans hchild₁)
      · cases h
        intro owned howned
        cases howned
        exact ProgramStatus.update_state _ _ _ _ _

/-- A failed spawn of an actor without a child leaves it without one. -/
theorem childless_of_spawnChild (ha : a.currentChild = none) {env : SpawnEnv} {e : ProgramError}
    (h : a.spawnChild env = (.error e, b)) : b.currentChild = none := by
  have hspawn := (a.spawnChild_lifecycle h).2
  generalize hb : b.lifecycle = t at hspawn
  have hchild : b.currentChild = t.child := congrArg Lifecycle.child hb
  rw [hchild]
  cases hspawn with
  | refused => exact ha
  | hookFailed => rfl
  | launchFailed => rfl

/-! ## The arms of the loop -/

/-- What an arm leaves: events that are legal for the child it found, and the invariant. -/
structure Continues (a b : ProgramActor) : Prop where
  publishes : Publishes (·.LegalFor a.currentChild) a b
  stateMarked : b.StateMarked

/-- An owned child may be stopped. -/
theorem StateMarked.legalFor_stopping (ha : a.StateMarked) {owned : RunningChild}
    (howned : a.currentChild = some owned) :
    StateChange.LegalFor a.currentChild ⟨a.statusSnapshot.state, .stopping, some owned.pid⟩ where
  backoff := by rintro ⟨⟩
  exited := by rintro ⟨⟩
  stopping _ := by
    show a.statusSnapshot.state = .starting ∨ a.statusSnapshot.state = .running
    rw [ha owned howned]
    cases owned.markedRunning
    · exact .inl rfl
    · exact .inr rfl
  stoppingPid _ := ⟨owned, howned, rfl⟩

/-- Changes that are free are legal for every child. -/
theorem legalFor_of_free (child : Option RunningChild) :
    ∀ change : StateChange, change.Free → change.LegalFor child :=
  fun _ hfree => hfree.legalFor child

/-- An arm that leaves the hub, the published state and the child alone. -/
theorem Continues.of_eq (ha : a.StateMarked) (hhub : b.eventHub = a.eventHub)
    (hstatus : b.statusSnapshot.state = a.statusSnapshot.state)
    (hchild : b.currentChild = a.currentChild) : Continues a b where
  publishes := .of_eq hhub hstatus
  stateMarked owned howned := by
    rw [hstatus]
    exact ha owned (hchild ▸ howned)

theorem Continues.stopCurrentChild (hab : Continues a b) (hchild : b.currentChild = a.currentChild)
    (gracePeriod : Duration) (env : StopEnv) :
    Continues a (b.stopCurrentChild gracePeriod env) where
  publishes := by
    apply Publishes.stopCurrentChild hab.publishes
    · exact fun _ => legalFor_of_free _ _ ⟨by rintro ⟨⟩, by rintro ⟨⟩, by rintro ⟨⟩⟩
    intro owned howned
    rw [← hchild]
    exact hab.stateMarked.legalFor_stopping howned
  stateMarked := .of_childless (stopCurrentChild_currentChild gracePeriod env)

theorem Continues.of_spawnChild (hab : Continues a b) {env : SpawnEnv}
    {r : Except ProgramError Unit} (h : b.spawnChild env = (r, c)) : Continues a c where
  publishes := Publishes.of_spawnChild (fun _ hspawns => legalFor_of_free _ _ hspawns.free)
    hab.publishes h
  stateMarked := hab.stateMarked.of_spawnChild h

/-- The update behind a failed spawn, or behind the loop. -/
theorem Continues.updateStatus (hab : Continues a b) (hchild : b.currentChild = none)
    {state : ProgramState} (hstate : state ≠ .backoff ∧ state ≠ .exited ∧ state ≠ .stopping)
    {pid : Option ℕ} {exitCode : Option ℤ} {description : String} :
    Continues a (b.updateStatus state pid exitCode description) where
  publishes := hab.publishes.updateStatus (legalFor_of_free _ _ hstate)
  stateMarked := .of_childless hchild

/-- Every command keeps the history legal. -/
theorem handleCommand_continues (ha : a.StateMarked) (cmd : ProgramCommand) (env : CommandEnv) :
    Continues a (a.handleCommand cmd env).2 := by
  cases cmd with
  | start =>
    simp only [handleCommand]
    split
    · exact .of_eq ha rfl rfl rfl
    · apply Continues.of_spawnChild (b := { a with
        manualStop := false, retryCount := 0, backoffDeadline := none })
      · exact .of_eq ha rfl rfl rfl
      · rfl
  | stop gracePeriod =>
    simp only [handleCommand]
    apply Continues.stopCurrentChild
    · exact .of_eq ha rfl rfl rfl
    · rfl
  | restart gracePeriod =>
    simp only [handleCommand]
    split
    · exact .of_eq ha rfl rfl rfl
    · generalize hstop : stopCurrentChild _ gracePeriod env.stop = b
      have hab : Continues a b := by
        rw [← hstop]
        apply Continues.stopCurrentChild
        · exact .of_eq ha rfl rfl rfl
        · rfl
      apply Continues.of_spawnChild (b := { b with manualStop := false })
      · exact ⟨hab.publishes, hab.stateMarked⟩
      · rfl
  | signal signal =>
    simp only [handleCommand]
    split <;> exact .of_eq ha rfl rfl rfl
  | shutdown =>
    simp only [handleCommand]
    generalize hstop : stopCurrentChild _ _ env.stop = b
    have hab : Continues a b := by
      rw [← hstop]
      apply Continues.stopCurrentChild
      · exact .of_eq ha rfl rfl rfl
      · rfl
    exact ⟨hab.publishes, hab.stateMarked⟩

/-- A health event keeps the history legal. -/
theorem handleHealthEvent_continues (ha : a.StateMarked) (event : HealthEvent) (stop : StopEnv)
    (spawn : SpawnEnv) : Continues a (a.handleHealthEvent event stop spawn) := by
  cases event with
  | healthy =>
    simp only [handleHealthEvent]
    split
    · exact ⟨Publishes.publishSystem (.of_eq rfl rfl) rfl, ha⟩
    · exact .of_eq ha rfl rfl rfl
  | unhealthy =>
    simp only [handleHealthEvent]
    generalize hb : (if a.statusSnapshot.health ≠ .unhealthy then _ else _ : ProgramActor) = b
    have hab : Continues a b := by
      rw [← hb]
      split
      · exact ⟨Publishes.publishSystem (.of_eq rfl rfl) rfl, ha⟩
      · exact .of_eq ha rfl rfl rfl
    have hchild : b.currentChild = a.currentChild := by
      rw [← hb]
      split <;> rfl
    split
    next =>
      have hstop := hab.stopCurrentChild hchild b.config.stopWaitSecs stop
      have hnone : (b.stopCurrentChild b.config.stopWaitSecs stop).currentChild = none :=
        stopCurrentChild_currentChild _ _
      split
      next e b₁ hspawn =>
        have hab₁ := hstop.of_spawnChild hspawn
        have hnone₁ : b₁.currentChild = none := childless_of_spawnChild hnone hspawn
        apply Continues.updateStatus
        · exact ⟨hab₁.publishes, hab₁.stateMarked⟩
        · exact hnone₁
        · exact ⟨by rintro ⟨⟩, by rintro ⟨⟩, by rintro ⟨⟩⟩
      next b₁ hspawn =>
        have hab₁ := hstop.of_spawnChild hspawn
        split <;> exact ⟨hab₁.publishes, hab₁.stateMarked⟩
    next => exact hab

/-- The backoff retry, which starts without a child, keeps the history legal. -/
theorem handleBackoff_continues (hchild : a.currentChild = none) (spawn : SpawnEnv) :
    Continues a (a.handleBackoff spawn) := by
  have ha : a.StateMarked := .of_childless hchild
  simp only [handleBackoff]
  split
  · exact .of_eq ha rfl rfl rfl
  have hclear : Continues a { a with backoffDeadline := none } := .of_eq ha rfl rfl rfl
  split
  next e b hspawn =>
    apply (hclear.of_spawnChild hspawn).updateStatus
    · exact childless_of_spawnChild (a := { a with backoffDeadline := none }) hchild hspawn
    · exact ⟨by rintro ⟨⟩, by rintro ⟨⟩, by rintro ⟨⟩⟩
  next b hspawn =>
    have hab := hclear.of_spawnChild hspawn
    split <;> exact ⟨hab.publishes, hab.stateMarked⟩

/-- The exit of an owned child keeps the history legal. -/
theorem handleChildExit_continues (ha : a.StateMarked) (hchild : a.currentChild.isSome = true)
    (exitRes : Except String ExitStatus) (drain : DrainEnv) (spawn : SpawnEnv) :
    Continues a (a.handleChildExit exitRes drain spawn).2 where
  publishes := by
    obtain ⟨owned, howned⟩ := Option.isSome_iff_exists.mp hchild
    have hstate := ha owned howned
    apply Publishes.handleChildExit (fun _ hspawns => legalFor_of_free _ _ hspawns.free) (.refl a)
    · exact fun _ => legalFor_of_free _ _ ⟨by rintro ⟨⟩, by rintro ⟨⟩, by rintro ⟨⟩⟩
    · intro hunmarked
      simp only [howned, Option.map_some, Option.getD_some] at hunmarked
      rw [hunmarked] at hstate
      exact ⟨⟨fun _ => hstate, by rintro ⟨⟩, by rintro ⟨⟩⟩, by rintro ⟨⟩⟩
    · intro hends
      have hmarked := hends.2.1
      simp only [howned, Option.map_some, Option.getD_some] at hmarked
      rw [hmarked] at hstate
      exact ⟨⟨by rintro ⟨⟩, fun _ => hstate, by rintro ⟨⟩⟩, by rintro ⟨⟩⟩
  stateMarked := by
    have hnone : (a.releaseChild drain).currentChild = none :=
      congrArg Lifecycle.child (releaseChild_lifecycle drain)
    simp only [handleChildExit]
    generalize a.releaseChild drain = r at hnone
    split
    · exact .of_childless hnone
    split
    · split <;> exact .of_childless hnone
    split
    · simp only [autorestartChild]
      split
      next e b hspawn =>
        have hfailed : b.currentChild = none :=
          childless_of_spawnChild (a := r.updateStatus _ _ _ _) hnone hspawn
        exact .of_childless hfailed
      next hspawn =>
        have hmarked : ∀ desc,
            (r.updateStatus .starting none (exitCodeOf exitRes) desc).StateMarked :=
          fun _ => .of_childless hnone
        exact (hmarked _).of_spawnChild hspawn
    · exact .of_childless hnone

/-- The end of the start-up window keeps the history legal. -/
theorem handleStartDeadline_continues (ha : a.StateMarked)
    (tryWait : Except String (Option ExitStatus)) :
    Continues a (a.handleStartDeadline tryWait) := by
  simp only [handleStartDeadline]
  split
  · exact .of_eq ha rfl rfl rfl
  next owned howned =>
    split
    · exact .of_eq ha rfl rfl rfl
    · refine ⟨?_, ?_⟩
      · apply Publishes.updateStatus
        · exact .of_eq rfl rfl
        · exact legalFor_of_free _ _ ⟨by rintro ⟨⟩, by rintro ⟨⟩, by rintro ⟨⟩⟩
      · intro marked hmarked
        cases hmarked
        exact ProgramStatus.update_state _ _ _ _ _

/-- Every arm keeps the history legal. While a retry is pending there is no child. -/
theorem select_continues (ha : a.StateMarked)
    (hretry : a.backoffDeadline.isSome = true → a.currentChild = none) {branch : Branch}
    (henabled : branch.enabled a = true) : Continues a (a.select branch) := by
  cases branch with
  | cancelled stop =>
    simp only [select]
    generalize hstop : ProgramActor.stopCurrentChild _ _ stop = b
    have hab : Continues a b := by
      rw [← hstop]
      apply Continues.stopCurrentChild
      · exact .of_eq ha rfl rfl rfl
      · rfl
    have hnone : b.currentChild = none := by
      rw [← hstop]
      exact stopCurrentChild_currentChild _ _
    apply Continues.updateStatus
    · exact ⟨hab.publishes, hab.stateMarked⟩
    · exact hnone
    · exact ⟨by rintro ⟨⟩, by rintro ⟨⟩, by rintro ⟨⟩⟩
  | command cmd env =>
    have hab := handleCommand_continues ha cmd env
    simp only [select]
    split
    · split <;> exact ⟨hab.publishes, hab.stateMarked⟩
    · split <;> exact ⟨hab.publishes, hab.stateMarked⟩
  | health stop spawn =>
    simp only [select]
    split
    · exact .of_eq ha rfl rfl rfl
    next _ msg rest hqueue =>
      have hab := handleHealthEvent_continues (a := { a with healthRx := rest }) ha msg.event
        stop spawn
      exact ⟨hab.publishes, hab.stateMarked⟩
  | backoff spawn =>
    simp only [Branch.enabled, Bool.and_eq_true] at henabled
    exact handleBackoff_continues (hretry henabled.1.1) spawn
  | metricsTick active metrics =>
    simp only [select, queryMetrics]
    split <;> exact .of_eq ha rfl rfl rfl
  | activityNotified active enabled metrics =>
    simp only [select, queryMetrics]
    split <;> exact .of_eq ha rfl rfl rfl
  | childExit exitRes drain spawn =>
    have hab := handleChildExit_continues (a := { a with startDeadline := none }) ha henabled
      exitRes drain spawn
    simp only [select]
    split <;> exact ⟨hab.publishes, hab.stateMarked⟩
  | startDeadline tryWait => exact handleStartDeadline_continues ha tryWait

/-- Every step of the actor and of the tasks around it keeps the history legal. -/
theorem next_continues (ha : a.StateMarked)
    (hretry : a.backoffDeadline.isSome = true → a.currentChild = none) {l : Label}
    (h : a.next l = some b) : Continues a b := by
  cases l with
  | iterate branch =>
    simp only [next] at h
    split at h
    next henabled =>
      cases h
      simp only [Bool.and_eq_true] at henabled
      exact select_continues ha hretry henabled.2
    next => cases h
  | cancel =>
    cases h
    exact .of_eq ha rfl rfl rfl
  | probeBegin inc =>
    simp only [next] at h
    split at h
    · split at h
      · cases h
      · cases h
        exact .of_eq ha rfl rfl rfl
    · cases h
  | probeResult inc isOk =>
    simp only [next] at h
    split at h
    · split at h
      · cases h
        exact .of_eq ha rfl rfl rfl
      · cases h
    · cases h

/-! ## The history of a run -/

variable {config : ProgramConfig}

/-- In every reachable state the published state tells whether the start-up window of the owned
child is over. -/
theorem stateMarked_of_reachable (h : (system config).Reachable a) : a.StateMarked := by
  refine TransitionSystem.ReachableWhile.invariant (I := StateMarked) ?_ ?_ h
  · rintro _ rfl
    exact .of_childless rfl
  · intro s l t hs hmarked _ hstep
    exact (next_continues hmarked (childShown_of_reachable hs).noRetry hstep).stateMarked

/-- In every reachable state the published events have led a reader from `stopped` to the published
state. -/
theorem eventReader_of_reachable (h : (system config).Reachable a) :
    (eventReader StateChange.Legal).Run .stopped (stateChanges a.eventHub)
      a.statusSnapshot.state := by
  refine TransitionSystem.ReachableWhile.invariant (I := fun a : ProgramActor =>
    (eventReader StateChange.Legal).Run .stopped (stateChanges a.eventHub)
      a.statusSnapshot.state) ?_ ?_ h
  · rintro _ rfl
    exact .nil _
  · intro s l t hs hrun _ hstep
    obtain ⟨events, hhub, hevents⟩ := (next_continues (stateMarked_of_reachable hs)
      (childShown_of_reachable hs).noRetry hstep).publishes
    have hlegal : (eventReader StateChange.Legal).Run s.statusSnapshot.state
        (stateChanges events) t.statusSnapshot.state := by
      refine hevents.mono fun _ _ _ hchange => ?_
      exact ⟨hchange.1, hchange.2.1, hchange.2.2.toLegal⟩
    rw [hhub, stateChanges_append]
    exact hrun.append hlegal

/-- The changes `changes` are an unbroken, legal history that ends in `state`. -/
structure LegalHistory (changes : List StateChange) (state : ProgramState) : Prop where
  /-- Each change starts where the one before it ended, the first one from `stopped`. -/
  unbroken : changes.map (·.oldState) ++ [state] = .stopped :: changes.map (·.newState)
  /-- Replaying the changes yields the state. -/
  replay : changes.foldl (fun _ change => change.newState) .stopped = state
  legal : ∀ change ∈ changes, change.Legal

/-- In every reachable state the published events form an unbroken, legal history that ends in the
state of the status snapshot, and every step publishes `stopping` with the process id of the child
that the actor owned before it. -/
theorem history_of_reachable (h : (system config).Reachable a) :
    LegalHistory (stateChanges a.eventHub) a.statusSnapshot.state ∧
      ∀ l b, (system config).step a l b → ∃ events, b.eventHub = a.eventHub ++ events ∧
        ∀ change ∈ stateChanges events, change.newState = .stopping →
          ∃ owned, a.currentChild = some owned ∧ change.pid = some owned.pid := by
  refine ⟨?_, ?_⟩
  · have hrun := eventReader_of_reachable h
    exact ⟨eventReader_chain hrun, eventReader_replay hrun, eventReader_forall hrun⟩
  · intro l b hstep
    obtain ⟨events, hhub, hrun⟩ := (next_continues (stateMarked_of_reachable h)
      (childShown_of_reachable h).noRetry hstep).publishes
    refine ⟨events, hhub, fun change hchange => ?_⟩
    exact (eventReader_forall hrun change hchange).stoppingPid

/-- The history of a program that is started, passes its start-up window and is stopped. -/
theorem history_after_stop :
    ∃ a, (system (.new "web" "serve")).Reachable a ∧
      stateChanges a.eventHub = [⟨.stopped, .starting, some 7⟩, ⟨.starting, .running, some 7⟩,
        ⟨.running, .stopping, some 7⟩, ⟨.stopping, .stopped, none⟩] ∧
      LegalHistory (stateChanges a.eventHub) a.statusSnapshot.state := by
  obtain ⟨a, hreach, hchanges⟩ := TransitionSystem.exists_reachableWhile
    (G := fun _ _ => True) (i := new (.new "web" "serve")) (f := next)
    (fun a => stateChanges a.eventHub = [⟨.stopped, .starting, some 7⟩,
      ⟨.starting, .running, some 7⟩, ⟨.running, .stopping, some 7⟩, ⟨.stopping, .stopped, none⟩])
    [.iterate (.command .start ⟨.graceful, .succeeding 7, .ok ()⟩),
      .iterate (.startDeadline (.ok none)),
      .iterate (.command (.stop 5) ⟨.graceful, .succeeding 8, .ok ()⟩)] (by decide)
  exact ⟨a, hreach, hchanges, (history_of_reachable hreach).1⟩

end ProgramActor

end Rsupervisord
