import Rsupervisord.EventListener.ExitReport

/-!
# The process id in the end of a child

The events `PROCESS_STATE_STOPPING`, `PROCESS_STATE_STOPPED` and `PROCESS_STATE_EXITED` carry a
process id. The id of a child that is stopped is published with `stopping`; when the child has
ended, its id is published no more. This is judged by the id that the program was announced with
when it was `starting` or `running` last, whether the actor still owns that child or not: a start
that finds an exited child gives it up, and when it then fails, the program stays announced.

## Main results

* `ProgramActor.reportsPid_iff`: the runs in which every such event carries the process id of the
  child it is about.
-/

namespace Rsupervisord

/-- The events about the end of a child. -/
def endEvents : List String :=
  ["PROCESS_STATE_STOPPING", "PROCESS_STATE_STOPPED", "PROCESS_STATE_EXITED"]

/-- The payload of an event about the end of a child has the process id `n`: its last word. -/
def SaysPid (payload : String) (n : ℕ) : Prop :=
  (payload.toList.splitOn ' ').getLast? = some ("pid:".toList ++ (toString n).toList)

/-- The change is announced by an event about the end of a child. -/
def StateChange.Ends (c : StateChange) : Prop :=
  c.newState = .stopping ∨ c.newState = .stopped ∨ c.newState = .exited

/-- The last word of a text that ends in a process id. -/
theorem saysPid_append (names : String) (m n : ℕ) : SaysPid s!"{names} pid:{m}" n ↔ m = n := by
  have hpid : ' ' ∉ "pid:".toList ++ (toString m).toList := by
    intro hmem
    rcases List.mem_append.mp hmem with hmem | hmem
    · exact absurd hmem (by decide)
    · exact absurd (Text.isWhitespace_of_mem_toString hmem) (by decide)
  have hpayload : (s!"{names} pid:{m}").toList =
      names.toList ++ ' ' :: ("pid:".toList ++ (toString m).toList) := by
    have hstr : ∀ s : String, toString s = s := fun _ => rfl
    generalize toString m = digits
    simp only [String.toList_append, hstr]
    simp
  rw [SaysPid, hpayload, List.splitOn_append_cons_self, List.splitOn_eq_singleton hpid]
  simp only [List.getLast?_append, List.getLast?_singleton, Option.some_or, Option.some.injEq,
    List.append_cancel_left_eq]
  constructor
  · intro h
    have hvalue := congrArg Text.digitsValue h
    rw [Text.digitsValue_toString, Text.digitsValue_toString] at hvalue
    exact Option.some.inj hvalue
  · rintro rfl
    rfl

/-- An event about the end of a child is made of such a change, and says its process id. -/
theorem ends_of_announced {e : SystemEvent} {eventName payload : String}
    (h : (eventName, payload) ∈ e.announcements) (hname : eventName ∈ endEvents) :
    ∃ change, e.stateChange? = some change ∧ change.Ends ∧
      ∀ n, SaysPid payload n ↔ change.pid.getD 0 = n := by
  match e with
  | .stateChanged name group oldState newState pid exitCode tries description =>
    refine ⟨⟨oldState, newState, pid⟩, rfl, ?_⟩
    obtain ⟨rfl, rfl⟩ := Prod.mk.inj (List.mem_singleton.mp h)
    match newState with
    | .stopping => exact ⟨.inl rfl, fun n => saysPid_append _ _ n⟩
    | .stopped => exact ⟨.inr (.inl rfl), fun n => saysPid_append _ _ n⟩
    | .exited => exact ⟨.inr (.inr rfl), fun n => saysPid_append _ _ n⟩
    | .starting | .running | .backoff | .fatal => simp [endEvents] at hname
  | .daemonLifecycle action timestampSecs =>
    simp only [SystemEvent.announcements] at h
    split_ifs at h <;> simp at h
    all_goals
      obtain ⟨rfl, -⟩ := h
      simp [endEvents] at hname
  | .tick interval when_ =>
    obtain ⟨rfl, -⟩ := Prod.mk.inj (List.mem_singleton.mp h)
    -- The name begins with another letter.
    have hhead : ∀ s ∈ endEvents, s.toList.head? = some 'P' := by decide
    have htick : toString "TICK_" = "TICK_" := rfl
    have hname' := hhead _ hname
    simp [String.toList_append, htick] at hname'
  | .configReloaded added removed modified unchanged =>
    simp only [SystemEvent.announcements, List.mem_append, List.mem_map, Prod.mk.injEq] at h
    obtain ⟨g, -, rfl, -⟩ | ⟨g, -, rfl, -⟩ := h <;> simp [endEvents] at hname
  | .remoteCommunication typeStr data =>
    obtain ⟨rfl, -⟩ := Prod.mk.inj (List.mem_singleton.mp h)
    simp [endEvents] at hname
  | .processGroupAdded group | .processGroupRemoved group =>
    obtain ⟨rfl, -⟩ := Prod.mk.inj (List.mem_singleton.mp h)
    simp [endEvents] at hname
  | .healthChanged .. | .cronTriggered .. | .processPreStart .. | .processPreStartFailed ..
  | .processPreStop .. | .processPreStopFailed .. => cases h

/-- A change about the end of a child is announced. -/
theorem announced_of_ends {e : SystemEvent} {change : StateChange}
    (he : e.stateChange? = some change) (hends : change.Ends) :
    ∃ eventName payload, (eventName, payload) ∈ e.announcements ∧ eventName ∈ endEvents ∧
      ∀ n, SaysPid payload n ↔ change.pid.getD 0 = n := by
  match e with
  | .stateChanged name group oldState newState pid exitCode tries description =>
    obtain rfl := Option.some.inj he
    have hname : (formatProcessStateEvent (splitProgramName name).2
        (if group = "" then (splitProgramName name).1 else group) oldState newState pid
          ((exitCode.map (decide <| · = 0)).getD true) tries).1 ∈ endEvents := by
      obtain h | h | h := hends <;> obtain rfl : newState = _ :=
        h <;> simp [formatProcessStateEvent, endEvents]
    have hannounced := List.mem_singleton_self (formatProcessStateEvent (splitProgramName name).2
      (if group = "" then (splitProgramName name).1 else group) oldState newState pid
        ((exitCode.map (decide <| · = 0)).getD true) tries)
    refine ⟨_, _, hannounced, hname, fun n => ?_⟩
    obtain ⟨change, hchange, -, hpid⟩ := ends_of_announced
      (e := .stateChanged name group oldState newState pid exitCode tries description)
      hannounced hname
    obtain rfl := Option.some.inj hchange
    exact hpid n
  | .tick .. | .remoteCommunication .. | .healthChanged .. | .configReloaded ..
  | .processGroupAdded _
  | .processGroupRemoved _ | .daemonLifecycle .. | .cronTriggered .. | .processPreStart ..
  | .processPreStartFailed .. | .processPreStop .. | .processPreStopFailed .. => cases he

/-- The process id of the incarnation that a status announces: that of its `starting` or `running`
state. With any other state the end of the last incarnation has been announced. -/
def ProgramStatus.incarnationPid (s : ProgramStatus) : Option ℕ :=
  if s.state = .starting ∨ s.state = .running then s.pid else none

namespace ProgramActor

variable {config : ProgramConfig} {a b c : ProgramActor} {owned : RunningChild} {l : Label} {n : ℕ}

/-- The incarnation of an owned child is announced. -/
theorem incarnationPid_of_child (ha : a.lifecycle.ChildShown)
    (hchild : a.currentChild = some owned) :
    a.statusSnapshot.incarnationPid = some owned.pid := by
  obtain ⟨hpid, hstate⟩ := ha.shown owned hchild
  exact (if_pos hstate).trans hpid

/-- Every event about the end of a child that is published between `a` and `b` carries the process
id of the incarnation that `a` announces. -/
def ReportsPid (a b : ProgramActor) : Prop :=
  ∀ n, a.statusSnapshot.incarnationPid = some n → ∀ e ∈ b.eventHub.drop a.eventHub.length,
    ∀ eventName payload, (eventName, payload) ∈ e.announcements → eventName ∈ endEvents →
      SaysPid payload n

/-- The step publishes that the child has ended: the program is stopped, its child exits during a
stop or a shutdown, or it exits behind its start-up window and is not restarted. -/
def PublishesEnd (a : ProgramActor) : Label → Prop
  | .iterate (.cancelled _) | .iterate (.command .shutdown _)
  | .iterate (.command (.stop _) _) => True
  | .iterate (.command (.restart _) _) => a.isShuttingDown = false
  | .iterate (.health _ _) =>
      a.healthRx.head?.map HealthMsg.event = some .unhealthy ∧ a.config.autorestart ≠ .never
  | .iterate (.childExit exitRes _ _) =>
      (a.isShuttingDown ∨ a.manualStop) ∨ a.EndsExited (exitCodeOf exitRes)
  | _ => False

instance (a : ProgramActor) (l : Label) : Decidable (a.PublishesEnd l) := by
  unfold PublishesEnd
  split <;> infer_instance

/-- The step publishes the end of an incarnation with a process id other than the one that stands
for none. -/
def LosesPid (a : ProgramActor) (l : Label) : Prop :=
  a.statusSnapshot.incarnationPid.getD 0 ≠ 0 ∧ a.PublishesEnd l

instance (a : ProgramActor) (l : Label) : Decidable (a.LosesPid l) :=
  inferInstanceAs (Decidable (_ ∧ _))

/-- A report is right when the changes that are published are. -/
theorem reportsPid_iff_of_hub {events : List SystemEvent}
    (hn : a.statusSnapshot.incarnationPid = some n)
    (hhub : b.eventHub = a.eventHub ++ events) :
    a.ReportsPid b ↔ ∀ change ∈ stateChanges events, change.Ends → change.pid.getD 0 = n := by
  rw [ReportsPid, drop_eventHub hhub]
  constructor
  · intro h change hchange hends
    obtain ⟨e, he, hstate⟩ := List.mem_filterMap.mp hchange
    obtain ⟨eventName, payload, hannounced, hname, hpid⟩ := announced_of_ends hstate hends
    exact (hpid _).mp (h n hn e he _ _ hannounced hname)
  · rintro h m hm e he eventName payload hannounced hname
    obtain rfl := Option.some.inj (hn.symm.trans hm)
    obtain ⟨change, hstate, hends, hpid⟩ := ends_of_announced hannounced hname
    exact (hpid _).mpr (h change (List.mem_filterMap.mpr ⟨e, he, hstate⟩) hends)

/-! ## Steps that publish no end -/

/-- A stop publishes the process id of the child that it takes, and then its end without one. -/
def PidIs (n : ℕ) (change : StateChange) : Prop := change.Ends → change.pid.getD 0 = n

/-- A child that the actor owns has the process id `n`. -/
def OwnsOnly (a : ProgramActor) (n : ℕ) : Prop :=
  ∀ owned, a.currentChild = some owned → owned.pid = n

theorem PidIs.of_spawns {change : StateChange} (h : change.Spawns) : PidIs n change := by
  rintro (hends | hends | hends) <;> obtain h | h | h := h <;>
    exact absurd (hends.symm.trans h) nofun

/-- A spawn is no end. -/
theorem Publishes.spawn_pidIs (hab : Publishes (PidIs n) a b) {env : SpawnEnv}
    {r : Except ProgramError Unit} (h : b.spawnChild env = (r, c)) : Publishes (PidIs n) a c :=
  Publishes.of_spawnChild (fun _ => PidIs.of_spawns) hab h

theorem Publishes.stop_pidIs (hab : Publishes (PidIs n) a b)
    (hchild : b.OwnsOnly n) (hzero : n = 0)
    (gracePeriod : Duration) (env : StopEnv) :
    Publishes (PidIs n) a (b.stopCurrentChild gracePeriod env) := by
  apply Publishes.stopCurrentChild hab
  · exact fun _ _ => hzero.symm
  · exact fun owned howned _ => hchild owned howned

/-- A command that publishes no end. -/
theorem handleCommand_publishes (hchild : a.OwnsOnly n) {cmd : ProgramCommand}
    {env : CommandEnv} (hends : a.PublishesEnd (.iterate (.command cmd env)) → n = 0) :
    Publishes (PidIs n) a (a.handleCommand cmd env).2 := by
  match cmd with
  | .start =>
    simp only [handleCommand]
    split
    · exact .refl a
    · exact Publishes.spawn_pidIs (b := { a with
        manualStop := false, retryCount := 0, backoffDeadline := none }) (.of_eq rfl rfl) rfl
  | .stop gracePeriod =>
    exact Publishes.stop_pidIs (b := { a with manualStop := true, backoffDeadline := none })
      (.of_eq rfl rfl) hchild (hends trivial) gracePeriod env.stop
  | .restart gracePeriod =>
    simp only [handleCommand]
    split
    · exact .refl a
    next hdown =>
      have hrunning : a.isShuttingDown = false := by simpa using hdown
      have hstop : Publishes (PidIs n) a
          ({ a with manualStop := true, retryCount := 0, backoffDeadline := none }.stopCurrentChild
            gracePeriod env.stop) :=
        Publishes.stop_pidIs (b := { a with
          manualStop := true, retryCount := 0, backoffDeadline := none }) (.of_eq rfl rfl) hchild
          (hends hrunning) gracePeriod env.stop
      generalize ({ a with manualStop := true, retryCount := 0, backoffDeadline := none
        }.stopCurrentChild gracePeriod env.stop) = b at hstop ⊢
      exact Publishes.spawn_pidIs (b := { b with manualStop := false })
        (hstop.trans (.of_eq rfl rfl)) rfl
  | .shutdown =>
    have hstop : Publishes (PidIs n) a
        ({ a with isShuttingDown := true, manualStop := true, backoffDeadline := none
          }.stopCurrentChild a.config.stopWaitSecs env.stop) :=
      Publishes.stop_pidIs (b := { a with
        isShuttingDown := true, manualStop := true, backoffDeadline := none }) (.of_eq rfl rfl)
        hchild (hends trivial) _ env.stop
    exact hstop.trans (.of_eq rfl rfl)
  | .signal signal =>
    simp only [handleCommand]
    split <;> exact .refl a

/-- A health event that publishes no end. -/
theorem handleHealthEvent_publishes (hchild : a.OwnsOnly n) {event : HealthEvent}
    (hends : event = .unhealthy ∧ a.config.autorestart ≠ .never → n = 0)
    (stop : StopEnv) (spawn : SpawnEnv) :
    Publishes (PidIs n) a (a.handleHealthEvent event stop spawn) := by
  match event with
  | .healthy =>
    simp only [handleHealthEvent]
    split
    · exact Publishes.publishSystem (.of_eq rfl rfl) rfl
    · exact .of_eq rfl rfl
  | .unhealthy =>
    simp only [handleHealthEvent]
    generalize hb : (if a.statusSnapshot.health ≠ .unhealthy then _ else _ : ProgramActor) = b
    obtain ⟨hab, hconfig, hchild'⟩ : Publishes (PidIs n) a b ∧ b.config = a.config ∧
        b.currentChild = a.currentChild := by
      rw [← hb]
      split
      · exact ⟨Publishes.publishSystem (.of_eq rfl rfl) rfl, rfl, rfl⟩
      · exact ⟨.of_eq rfl rfl, rfl, rfl⟩
    split
    next hrestart =>
      rw [hconfig] at hrestart
      have hchild : b.OwnsOnly n := fun owned howned => hchild owned (hchild' ▸ howned)
      have hstop := hab.stop_pidIs hchild (hends ⟨rfl, hrestart⟩) b.config.stopWaitSecs stop
      split
      next hspawn =>
        apply Publishes.updateStatus
        · exact (hstop.spawn_pidIs hspawn).trans (.of_eq rfl rfl)
        · exact .of_spawns (.inr (.inr rfl))
      next hspawn => split <;> exact (hstop.spawn_pidIs hspawn).trans (.of_eq rfl rfl)
    next => exact hab

/-- Every change that an arm publishes carries the process id of the owned child, if the end of the
child, which carries none, does. -/
theorem select_publishes (hchild : a.OwnsOnly n) {branch : Branch}
    (hends : a.PublishesEnd (.iterate branch) → n = 0) :
    Publishes (PidIs n) a (a.select branch) := by
  match branch with
  | .cancelled stop =>
    have hzero := hends trivial
    have hstop : Publishes (PidIs n) a
        ({ a with isShuttingDown := true, manualStop := true, backoffDeadline := none
          }.stopCurrentChild a.config.stopWaitSecs stop) :=
      Publishes.stop_pidIs (b := { a with
        isShuttingDown := true, manualStop := true, backoffDeadline := none }) (.of_eq rfl rfl)
        hchild hzero _ stop
    apply Publishes.updateStatus
    · exact hstop.trans (.of_eq rfl rfl)
    · exact fun _ => hzero.symm
  | .command cmd env =>
    have hab := handleCommand_publishes hchild hends
    simp only [select]
    split
    · split <;> exact hab.trans (.of_eq rfl rfl)
    · split <;> exact hab.trans (.of_eq rfl rfl)
  | .health stop spawn =>
    simp only [select]
    split
    · exact .refl a
    next msg rest hqueue =>
      have hends' : msg.event = .unhealthy ∧ a.config.autorestart ≠ .never → n = 0 := by
        rintro ⟨hevent, hrestart⟩
        apply hends
        refine ⟨?_, hrestart⟩
        rw [hqueue, List.head?_cons, Option.map_some, hevent]
      have hclear : Publishes (PidIs n) a { a with healthRx := rest } := .of_eq rfl rfl
      exact hclear.trans (handleHealthEvent_publishes (a := { a with healthRx := rest }) hchild
        hends' stop spawn)
  | .backoff spawn =>
    simp only [select, handleBackoff]
    split
    · exact .of_eq rfl rfl
    have hclear : Publishes (PidIs n) a { a with backoffDeadline := none } := .of_eq rfl rfl
    split
    next hspawn =>
      apply Publishes.updateStatus
      · exact hclear.spawn_pidIs hspawn
      · exact .of_spawns (.inr (.inr rfl))
    next hspawn => split <;> exact (hclear.spawn_pidIs hspawn).trans (.of_eq rfl rfl)
  | .metricsTick active metrics | .activityNotified active enabled metrics =>
    simp only [select, queryMetrics]
    split <;> exact .of_eq rfl rfl
  | .childExit exitRes drain spawn =>
    have hab : Publishes (PidIs n) { a with startDeadline := none }
        ({ a with startDeadline := none }.handleChildExit exitRes drain spawn).2 := by
      apply Publishes.handleChildExit (fun _ => PidIs.of_spawns) (.refl _)
      · exact fun hstop _ => (hends (.inl hstop)).symm
      · rintro - (hend | hend | hend) <;> cases hend
      · exact fun hend _ => (hends (.inr hend)).symm
    have hclear : Publishes (PidIs n) a { a with startDeadline := none } := .of_eq rfl rfl
    simp only [select]
    split
    · exact (hclear.trans hab).trans (.of_eq rfl rfl)
    · exact hclear.trans hab
  | .startDeadline tryWait =>
    simp only [select, handleStartDeadline]
    split
    · exact .of_eq rfl rfl
    · split
      · exact .of_eq rfl rfl
      · apply Publishes.updateStatus
        · exact .of_eq rfl rfl
        · exact .of_spawns (.inr (.inl rfl))

/-! ## Steps that publish an end -/

/-- Between `a` and `b` the end of a child is published, without a process id. -/
def PublishesNoPid (a b : ProgramActor) : Prop :=
  ∃ events, b.eventHub = a.eventHub ++ events ∧
    ∃ change ∈ stateChanges events, change.Ends ∧ change.pid = none

theorem PublishesNoPid.trans (hab : a.PublishesNoPid b) {P : StateChange → Prop}
    (hbc : Publishes P b c) : a.PublishesNoPid c := by
  obtain ⟨events, hhub, change, hchange, hends, hpid⟩ := hab
  obtain ⟨events', hhub', -⟩ := hbc
  refine ⟨events ++ events', ?_, change, ?_, hends, hpid⟩
  · rw [hhub', hhub, List.append_assoc]
  · rw [stateChanges_append]
    exact List.mem_append_left _ hchange

theorem PublishesNoPid.of_publishes {P : StateChange → Prop} (hab : Publishes P a b)
    (hbc : b.PublishesNoPid c) : a.PublishesNoPid c := by
  obtain ⟨events, hhub, -⟩ := hab
  obtain ⟨events', hhub', change, hchange, hends, hpid⟩ := hbc
  refine ⟨events ++ events', ?_, change, ?_, hends, hpid⟩
  · rw [hhub', hhub, List.append_assoc]
  · rw [stateChanges_append]
    exact List.mem_append_right _ hchange

/-- A status update to another state is published. -/
theorem publishesNoPid_updateStatus {state : ProgramState} (hstate : a.statusSnapshot.state ≠ state)
    (hends : state = .stopping ∨ state = .stopped ∨ state = .exited) (exitCode : Option ℤ)
    (description : String) : a.PublishesNoPid (a.updateStatus state none exitCode description) := by
  refine ⟨[.stateChanged a.config.name a.config.group a.statusSnapshot.state state none exitCode
    a.retryCount description], ?_, ⟨a.statusSnapshot.state, state, none⟩, List.mem_singleton_self _,
    hends, rfl⟩
  simp only [updateStatus]
  rw [if_pos (by simp [hstate])]

/-- The stop of an owned child ends in `stopped` from `stopping`. -/
theorem publishesNoPid_stop_of_child (hchild : b.currentChild = some owned) (gracePeriod : Duration)
    (env : StopEnv) : b.PublishesNoPid (b.stopCurrentChild gracePeriod env) := by
  simp only [stopCurrentChild, hchild]
  generalize hstopping : ProgramActor.updateStatus _ .stopping (some owned.pid) none "Stopping" = c
  have hbc : Publishes (fun _ => True) b c := by
    rw [← hstopping]
    exact Publishes.updateStatus (.of_eq rfl rfl) trivial
  have hpre : Publishes (fun _ => True) c ((c.runPreStop env).drainPumps owned env.drain) := by
    simp only [runPreStop]
    split
    · exact .of_eq rfl rfl
    · split
      · exact (Publishes.publishSystem (.refl c) rfl).trans (.of_eq rfl rfl)
      · exact ((Publishes.publishSystem (.refl c) rfl).publishSystem rfl).trans (.of_eq rfl rfl)
  have hstate : ((c.runPreStop env).drainPumps owned env.drain).statusSnapshot.state =
      .stopping := by
    have hlifecycle : ((c.runPreStop env).drainPumps owned env.drain).lifecycle = c.lifecycle := by
      simp
    have hc : c.statusSnapshot.state = .stopping := by
      rw [← hstopping]
      exact ProgramStatus.update_state _ _ _ _ _
    exact (congrArg Lifecycle.state hlifecycle).trans hc
  refine .of_publishes (hbc.trans hpre) (publishesNoPid_updateStatus ?_ (.inr (.inl rfl)) _ _)
  rw [hstate]
  decide

/-- The actor owns a child, or is not announced as stopped. -/
def Live (a : ProgramActor) : Prop := a.currentChild = none → a.statusSnapshot.state ≠ .stopped

/-- A stop publishes `stopped`, from `stopping` or, when the child was given up, from the state that
is still announced. -/
theorem publishesNoPid_stopCurrentChild {P : StateChange → Prop} (hab : Publishes P a b)
    (hlive : b.Live) (gracePeriod : Duration) (env : StopEnv) :
    a.PublishesNoPid (b.stopCurrentChild gracePeriod env) := by
  refine .of_publishes hab ?_
  cases hchild : b.currentChild with
  | none =>
    simp only [stopCurrentChild, hchild]
    have hclear : Publishes (fun _ => True) b { b with startedAt := none, stdinTx := none } :=
      .of_eq rfl rfl
    exact .of_publishes hclear
      (publishesNoPid_updateStatus (hlive hchild) (.inr (.inl rfl)) none "Stopped")
  | some owned => exact publishesNoPid_stop_of_child hchild gracePeriod env

/-- A spawn behind the end leaves it published. -/
theorem PublishesNoPid.spawnChild (hab : a.PublishesNoPid b) {env : SpawnEnv}
    {r : Except ProgramError Unit} (h : b.spawnChild env = (r, c)) : a.PublishesNoPid c := by
  have hspawn : Publishes (fun _ => True) b c :=
    Publishes.of_spawnChild (fun _ _ => trivial) (.refl b) h
  exact hab.trans hspawn

/-- A change of other fields publishes nothing. -/
theorem Publishes.same (hhub : b.eventHub = a.eventHub)
    (hstate : b.statusSnapshot.state = a.statusSnapshot.state) : Publishes (fun _ => True) a b :=
  .of_eq hhub hstate

/-- A command that publishes an end. -/
theorem handleCommand_publishesNoPid (hlive : a.Live) {cmd : ProgramCommand}
    {env : CommandEnv} (hends : a.PublishesEnd (.iterate (.command cmd env))) :
    a.PublishesNoPid (a.handleCommand cmd env).2 := by
  match cmd with
  | .stop gracePeriod =>
    exact publishesNoPid_stopCurrentChild (b := { a with
      manualStop := true, backoffDeadline := none }) (.same rfl rfl) hlive gracePeriod env.stop
  | .restart gracePeriod =>
    have hrunning : a.isShuttingDown = false := hends
    have hstop := publishesNoPid_stopCurrentChild (b := { a with
      manualStop := true, retryCount := 0, backoffDeadline := none }) (.same rfl rfl) hlive
      gracePeriod env.stop
    simp only [handleCommand, hrunning, Bool.false_eq_true, if_false]
    simp only [hrunning] at hstop
    generalize ProgramActor.stopCurrentChild _ gracePeriod env.stop = b at hstop ⊢
    have hclear : a.PublishesNoPid { b with manualStop := false } := hstop.trans (.same rfl rfl)
    exact hclear.spawnChild rfl
  | .shutdown =>
    have hstop := publishesNoPid_stopCurrentChild (b := { a with
      isShuttingDown := true, manualStop := true, backoffDeadline := none }) (.same rfl rfl) hlive
      a.config.stopWaitSecs env.stop
    exact hstop.trans (.same rfl rfl)

/-- A health event that publishes an end. -/
theorem handleHealthEvent_publishesNoPid (hchild : a.currentChild = some owned)
    (hrestart : a.config.autorestart ≠ .never) (stop : StopEnv) (spawn : SpawnEnv) :
    a.PublishesNoPid (a.handleHealthEvent .unhealthy stop spawn) := by
  simp only [handleHealthEvent]
  generalize hb : (if a.statusSnapshot.health ≠ .unhealthy then _ else _ : ProgramActor) = b
  obtain ⟨hab, hconfig, hchild'⟩ : Publishes (fun _ => True) a b ∧ b.config = a.config ∧
      b.currentChild = some owned := by
    rw [← hb]
    split
    · exact ⟨Publishes.publishSystem (.of_eq rfl rfl) rfl, rfl, hchild⟩
    · exact ⟨.of_eq rfl rfl, rfl, hchild⟩
  have hlive : b.Live := fun hnone =>
    absurd (hchild'.symm.trans hnone) (Option.some_ne_none owned)
  have hstop := publishesNoPid_stopCurrentChild hab hlive b.config.stopWaitSecs stop
  rw [if_pos (by rw [hconfig]; exact hrestart)]
  split
  next e c hspawn =>
    have hspawned : a.PublishesNoPid c := hstop.spawnChild hspawn
    have hclear : a.PublishesNoPid { c with startDeadline := none } :=
      hspawned.trans (.same rfl rfl)
    exact hclear.trans (Publishes.updateStatus (P := fun _ => True) (.refl _) trivial)
  next c hspawn =>
    have hspawned : a.PublishesNoPid c := hstop.spawnChild hspawn
    split <;> exact hspawned.trans (.same rfl rfl)

/-- The exit of an owned child that publishes its end. -/
theorem handleChildExit_publishesNoPid (ha : a.StateMarked) (hchild : a.currentChild = some owned)
    {exitRes : Except String ExitStatus}
    (hends : (a.isShuttingDown ∨ a.manualStop) ∨ a.EndsExited (exitCodeOf exitRes))
    (drain : DrainEnv) (spawn : SpawnEnv) :
    a.PublishesNoPid (a.handleChildExit exitRes drain spawn).2 := by
  obtain hstop | hend := hends
  · have hrelease : Publishes (fun _ => True) a (a.releaseChild drain) := by
      simp only [releaseChild, hchild]
      exact .of_eq rfl rfl
    have hflags : (a.releaseChild drain).isShuttingDown ∨ (a.releaseChild drain).manualStop := by
      simpa only [releaseChild, hchild, drainPumps] using hstop
    have hstate : (a.releaseChild drain).statusSnapshot.state ≠ .stopped := by
      have hmarked := ha owned hchild
      simp only [releaseChild, hchild, drainPumps]
      rw [hmarked]
      cases owned.markedRunning <;> decide
    simp only [handleChildExit]
    generalize a.releaseChild drain = r at hrelease hflags hstate
    rw [if_pos hflags]
    have hclear : Publishes (fun _ => True) a { r with backoffDeadline := none } :=
      hrelease.trans (.same rfl rfl)
    exact .of_publishes hclear (publishesNoPid_updateStatus hstate (.inr (.inl rfl)) _ _)
  · obtain ⟨description, hhub⟩ := eventHub_of_endsExited ha hend drain spawn
    exact ⟨_, hhub, ⟨.running, .exited, none⟩, List.mem_singleton_self _, .inr (.inr rfl), rfl⟩

/-- An arm that publishes the end of a child says no process id. -/
theorem select_publishesNoPid (ha : a.StateMarked) (hlive : a.Live) {branch : Branch}
    (henabled : branch.enabled a = true) (hends : a.PublishesEnd (.iterate branch)) :
    a.PublishesNoPid (a.select branch) := by
  match branch with
  | .cancelled stop =>
    have hstop := publishesNoPid_stopCurrentChild (b := { a with
      isShuttingDown := true, manualStop := true, backoffDeadline := none }) (.same rfl rfl) hlive
      a.config.stopWaitSecs stop
    simp only [select]
    generalize ProgramActor.stopCurrentChild _ _ stop = b at hstop ⊢
    have hleft : a.PublishesNoPid { b with looping := false } := hstop.trans (.same rfl rfl)
    exact hleft.trans (Publishes.updateStatus (P := fun _ => True) (.refl _) trivial)
  | .command cmd env =>
    have hab := handleCommand_publishesNoPid hlive hends
    simp only [select]
    split
    · split <;> exact hab.trans (.same rfl rfl)
    · split <;> exact hab.trans (.same rfl rfl)
  | .health stop spawn =>
    obtain ⟨hhead, hrestart⟩ := hends
    simp only [Branch.enabled, Bool.and_eq_true] at henabled
    obtain ⟨owned, hchild⟩ := Option.isSome_iff_exists.mp henabled.1.1
    simp only [select]
    split
    next hqueue =>
      rw [hqueue] at hhead
      cases hhead
    next msg rest hqueue =>
      rw [hqueue, List.head?_cons, Option.map_some, Option.some.injEq] at hhead
      rw [hhead]
      have hab := handleHealthEvent_publishesNoPid (a :=
        { a with healthRx := rest }) hchild hrestart
        stop spawn
      exact .of_publishes (.same rfl rfl) hab
  | .childExit exitRes drain spawn =>
    obtain ⟨owned, hchild⟩ := Option.isSome_iff_exists.mp henabled
    have hab := handleChildExit_publishesNoPid (a := { a with startDeadline := none }) ha hchild
      hends drain spawn
    have hab' : a.PublishesNoPid
        ({ a with startDeadline := none }.handleChildExit exitRes drain spawn).2 :=
      .of_publishes (.same rfl rfl) hab
    simp only [select]
    split <;> exact hab'.trans (.same rfl rfl)
  | .backoff _ | .metricsTick .. | .activityNotified .. | .startDeadline _ =>
    exact absurd hends id

/-! ## Runs -/

/-- A step from a reachable state reports the process id of the incarnation exactly when it does not
lose it. -/
theorem reportsPid_step_iff (h : (system config).Reachable a) (hstep : a.next l = some b) :
    a.ReportsPid b ↔ ¬ a.LosesPid l := by
  have hmarked := stateMarked_of_reachable h
  cases hn : a.statusSnapshot.incarnationPid with
  | none =>
    refine iff_of_true (fun n hn' => ?_) (fun hloses => ?_)
    · rw [hn] at hn'
      cases hn'
    · rw [LosesPid, hn] at hloses
      exact hloses.1 rfl
  | some n =>
    have howns : a.OwnsOnly n := fun owned howned => by
      rw [incarnationPid_of_child (childShown_of_reachable h) howned] at hn
      exact Option.some.inj hn
    have hlive : a.Live := fun _ hstopped => by
      rw [ProgramStatus.incarnationPid, hstopped] at hn
      exact absurd hn nofun
    rw [LosesPid, hn, Option.getD_some]
    constructor
    · rintro hreports ⟨hpid, hends⟩
      cases l with
      | iterate branch =>
        simp only [next] at hstep
        split at hstep
        next henabled =>
          cases hstep
          rw [Bool.and_eq_true] at henabled
          obtain ⟨events, hhub, change, hchange, hend, hnone⟩ :=
            select_publishesNoPid hmarked hlive henabled.2 hends
          have hzero := (reportsPid_iff_of_hub hn hhub).mp hreports change hchange hend
          rw [hnone] at hzero
          exact hpid hzero.symm
        next => cases hstep
      | cancel | probeBegin _ | probeResult _ _ => exact hends
    · intro hkeeps
      have hzero : a.PublishesEnd l → n = 0 := fun hends => by
        by_contra hpid
        exact hkeeps ⟨hpid, hends⟩
      have hpublishes : Publishes (PidIs n) a b := by
        cases l with
        | iterate branch =>
          simp only [next] at hstep
          split at hstep
          · cases hstep
            exact select_publishes howns hzero
          · cases hstep
        | cancel =>
          cases hstep
          exact .of_eq rfl rfl
        | probeBegin inc =>
          simp only [next] at hstep
          split at hstep
          · split at hstep
            · cases hstep
            · cases hstep
              exact .of_eq rfl rfl
          · cases hstep
        | probeResult inc isOk =>
          simp only [next] at hstep
          split at hstep
          · split at hstep
            · cases hstep
              exact .of_eq rfl rfl
            · cases hstep
          · cases hstep
      obtain ⟨events, hhub, hrun⟩ := hpublishes
      exact (reportsPid_iff_of_hub hn hhub).mpr (eventReader_forall hrun)

/-- The step that the label takes reports the process id of the incarnation. -/
def StepReportsPid (a : ProgramActor) (l : Label) : Prop :=
  ∀ b, a.next l = some b → a.ReportsPid b

/-- Every step of a run reports the process id of the incarnation that it ends, exactly when no step
publishes the end of one. -/
theorem reportsPid_iff {ls : List Label} :
    TransitionSystem.RunWhile (T := system config) StepReportsPid (new config) ls b ↔
      TransitionSystem.RunWhile (T := system config) (fun a l => ¬ a.LosesPid l) (new config) ls
        b := by
  have hinit : (system config).Reachable (new config) := .init rfl
  constructor
  · refine fun hrun => TransitionSystem.RunWhile.mono ?_ hinit hrun
    intro a l b ha hstep hreports
    exact (reportsPid_step_iff ha hstep).mp (hreports b hstep)
  · refine fun hrun => TransitionSystem.RunWhile.mono ?_ hinit hrun
    intro a l b ha hstep hkeeps b' hstep'
    exact (reportsPid_step_iff ha hstep').mpr hkeeps

/-- The stop of a running child, its own exit, and the stop of a program whose child was given up
are published without its process id. -/
theorem exists_not_reportsPid :
    (∃ a, (system (.new "web" "serve")).Reachable a ∧
      (∃ b, a.next (.iterate (.command (.stop 5) ⟨.graceful, .succeeding 8, .ok ()⟩)) = some b ∧
        ¬ a.ReportsPid b) ∧
      ∃ b, a.next (.iterate (.childExit (.ok (.code 0)) ⟨false⟩ (.succeeding 8))) = some b ∧
        ¬ a.ReportsPid b) ∧
    ∃ a, (system { ProgramConfig.new "web" "serve" with startSecs := 0 }).Reachable a ∧
      a.currentChild = none ∧
      ∃ b, a.next (.iterate (.command (.stop 5) ⟨.graceful, .succeeding 8, .ok ()⟩)) = some b ∧
        ¬ a.ReportsPid b := by
  obtain ⟨a, hreach, ⟨hstop, hloses⟩, hexit, hloses'⟩ := TransitionSystem.exists_reachableWhile
    (G := fun _ _ => True) (i := new (.new "web" "serve")) (f := next)
    (fun a =>
      ((a.next (.iterate (.command (.stop 5) ⟨.graceful, .succeeding 8, .ok ()⟩))).isSome ∧
        a.LosesPid (.iterate (.command (.stop 5) ⟨.graceful, .succeeding 8, .ok ()⟩))) ∧
      (a.next (.iterate (.childExit (.ok (.code 0)) ⟨false⟩ (.succeeding 8)))).isSome ∧
        a.LosesPid (.iterate (.childExit (.ok (.code 0)) ⟨false⟩ (.succeeding 8))))
    [.iterate (.command .start ⟨.graceful, .succeeding 7, .ok ()⟩),
      .iterate (.startDeadline (.ok none))] (by decide)
  obtain ⟨b, hb⟩ := Option.isSome_iff_exists.mp hstop
  obtain ⟨b', hb'⟩ := Option.isSome_iff_exists.mp hexit
  obtain ⟨a', hreach', hchild, hstop', hloses''⟩ := TransitionSystem.exists_reachableWhile
    (G := fun _ _ => True) (i := new { ProgramConfig.new "web" "serve" with startSecs := 0 })
    (f := next)
    (fun a =>
      a.currentChild = none ∧
        (a.next (.iterate (.command (.stop 5) ⟨.graceful, .succeeding 8, .ok ()⟩))).isSome ∧
        a.LosesPid (.iterate (.command (.stop 5) ⟨.graceful, .succeeding 8, .ok ()⟩)))
    -- The second start finds that the child has exited, and fails behind the hook.
    [.iterate (.command .start ⟨.graceful, .succeeding 7, .ok ()⟩),
      .iterate (.command .start ⟨.graceful, failingSpawn, .ok ()⟩)] (by decide)
  obtain ⟨b'', hb''⟩ := Option.isSome_iff_exists.mp hstop'
  exact ⟨⟨a, hreach, ⟨b, hb, fun h => (reportsPid_step_iff hreach hb).mp h hloses⟩,
    b', hb', fun h => (reportsPid_step_iff hreach hb').mp h hloses'⟩,
    a', hreach', hchild, b'', hb'', fun h => (reportsPid_step_iff hreach' hb'').mp h hloses''⟩

end ProgramActor

end Rsupervisord
