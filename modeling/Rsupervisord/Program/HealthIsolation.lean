import Rsupervisord.Program.LifecycleInvariants

/-!
# Health events and incarnations

The health channel of a program actor is created once and outlives the child that is probed, and a
health event does not carry the incarnation it is about. `event_of_current_child` shows when an
event is applied to the child it was measured on: when every step that installs a child finds the
health channel empty and leaves no probe task of an earlier child behind. The view
`HealthView` collects what the argument is about.
-/

namespace Rsupervisord

/-- The part of a program actor that its health events are about. -/
structure HealthView where
  queue : List HealthMsg
  probes : List ProbeTask
  incarnation : ℕ
  child : Option RunningChild

namespace HealthView

/-- The probe tasks left by the drain of the child `c`. -/
def drainProbes (probes : List ProbeTask) (c : RunningChild) (env : DrainEnv) : List ProbeTask :=
  if env.healthLingers then
    (probes.filter fun t => t.incarnation ≠ c.incarnation || t.probing).map fun t =>
      if t.incarnation = c.incarnation then { t with cancelled := true } else t
  else probes.filter fun t => t.incarnation ≠ c.incarnation

/-- The child, if there is one, is given up and drained. -/
def release (v : HealthView) (env : DrainEnv) : HealthView :=
  match v.child with
  | some c => { v with probes := drainProbes v.probes c env, child := none }
  | none => v

/-- The next child is installed, possibly with a probe of its own. -/
def Installs (v w : HealthView) : Prop :=
  w.queue = v.queue ∧ w.incarnation = v.incarnation + 1 ∧
    (∃ ps : List ProbeTask, w.probes = v.probes ++ ps ∧
      ∀ t ∈ ps, t.incarnation = v.incarnation + 1) ∧
    ∃ c, w.child = some c ∧ c.incarnation = v.incarnation + 1

/-- Every queued event, every probe task and the child are of the current incarnation. -/
structure Current (v : HealthView) : Prop where
  queued : ∀ m ∈ v.queue, m.incarnation = v.incarnation
  probed : ∀ t ∈ v.probes, t.incarnation = v.incarnation
  owned : ∀ c, v.child = some c → c.incarnation = v.incarnation

variable {v w : HealthView}

/-- A drain adds no probe task and renumbers none. -/
theorem exists_of_mem_drainProbes {probes : List ProbeTask} {c : RunningChild} {env : DrainEnv}
    {t : ProbeTask} (h : t ∈ drainProbes probes c env) :
    ∃ u ∈ probes, u.incarnation = t.incarnation := by
  simp only [drainProbes] at h
  split at h
  · obtain ⟨u, hu, rfl⟩ := List.mem_map.mp h
    refine ⟨u, (List.mem_filter.mp hu).1, ?_⟩
    split <;> rfl
  · exact ⟨t, (List.mem_filter.mp h).1, rfl⟩

/-- Giving up the child keeps everything current. -/
theorem Current.release (h : v.Current) (env : DrainEnv) : (v.release env).Current := by
  simp only [HealthView.release]
  split
  · refine ⟨h.queued, ?_, nofun⟩
    intro t ht
    obtain ⟨u, hu, hinc⟩ := exists_of_mem_drainProbes ht
    exact hinc ▸ h.probed u hu
  · exact h

/-- Installing a child over an empty channel and no probe task makes everything current. -/
theorem Installs.current (h : v.Installs w) (hqueue : v.queue = []) (hprobes : v.probes = []) :
    w.Current := by
  obtain ⟨hq, hinc, ⟨ps, hps, hnew⟩, c, hc, hcinc⟩ := h
  refine ⟨?_, ?_, ?_⟩
  · intro m hm
    rw [hq, hqueue] at hm
    cases hm
  · intro t ht
    rw [hps, hprobes, List.nil_append] at ht
    rw [hinc]
    exact hnew t ht
  · intro c' hc'
    rw [hc] at hc'
    cases hc'
    rw [hinc]
    exact hcinc

end HealthView

namespace ProgramActor

variable (a : ProgramActor)

/-- The health view of an actor. -/
def healthView : HealthView where
  queue := a.healthRx
  probes := a.probes
  incarnation := a.incarnation
  child := a.currentChild

/-! ## The methods on the health view -/

@[simp]
theorem updateStatus_healthView (state : ProgramState) (pid : Option ℕ) (exitCode : Option ℤ)
    (description : String) :
    (a.updateStatus state pid exitCode description).healthView = a.healthView := rfl

@[simp]
theorem publishSystem_healthView (e : SystemEvent) :
    (a.publishSystem e).healthView = a.healthView := rfl

theorem runPreStart_healthView (env : SpawnEnv) :
    (a.runPreStart env).2.healthView = a.healthView := by
  simp only [runPreStart]
  split
  · rfl
  · split
    · rfl
    · split <;> rfl

@[simp]
theorem runPreStop_healthView (env : StopEnv) : (a.runPreStop env).healthView = a.healthView := by
  simp only [runPreStop]
  split
  · rfl
  · split <;> rfl

/-- Stopping gives up the child. -/
@[simp]
theorem stopCurrentChild_healthView (gracePeriod : Duration) (env : StopEnv) :
    (a.stopCurrentChild gracePeriod env).healthView = a.healthView.release env.drain := by
  cases hchild : a.currentChild with
  | none =>
      simp [stopCurrentChild, hchild, HealthView.release, healthView, updateStatus]
  | some c =>
      have hhook := runPreStop_healthView
        ({ a with startedAt := none, stdinTx := none, currentChild := none }.updateStatus .stopping
          (some c.pid) none "Stopping") env
      have hdrain := congrArg
        (fun v : HealthView => { v with
          probes := HealthView.drainProbes v.probes c env.drain }) hhook
      simp only [stopCurrentChild, hchild, updateStatus_healthView]
      refine Eq.trans ?_ (hdrain.trans ?_)
      · rfl
      · simp [HealthView.release, healthView, hchild, updateStatus]

/-- Giving up an exited child is the same without a stop. -/
@[simp]
theorem releaseChild_healthView (drain : DrainEnv) :
    (a.releaseChild drain).healthView = a.healthView.release drain := by
  cases hchild : a.currentChild <;>
    simp [releaseChild, hchild, HealthView.release, healthView, drainPumps, HealthView.drainProbes]

theorem reapExited_healthView {env : SpawnEnv} {b : ProgramActor}
    (h : a.reapExited env = .ok b) : b.healthView = a.healthView.release env.drain := by
  cases hchild : a.currentChild with
  | none =>
      simp only [reapExited, hchild, Except.ok.injEq] at h
      subst h
      simp [HealthView.release, healthView, hchild]
  | some c =>
      simp only [reapExited, hchild] at h
      split at h
      next =>
        simp only [Except.ok.injEq] at h
        subst h
        simp [HealthView.release, healthView, hchild, drainPumps, HealthView.drainProbes]
      next => cases h

theorem installChild_installs (env : SpawnEnv) (pid : ℕ) :
    a.healthView.Installs (a.installChild env pid).healthView := by
  refine ⟨rfl, rfl, ?_, _, rfl, rfl⟩
  cases hcheck : a.config.healthCheck with
  | none => exact ⟨[], by simp [installChild, healthView, updateStatus, hcheck], nofun⟩
  | some hcfg =>
      refine ⟨[⟨a.incarnation + 1, .new hcfg, false, false⟩], ?_, ?_⟩
      · simp [installChild, healthView, updateStatus, hcheck]
      · intro t ht
        rw [List.mem_singleton.mp ht]
        rfl

/-- The outcome of `spawn_child` on the health view: nothing, the exited child given up, or the
next child installed over it. -/
theorem spawnChild_healthView {env : SpawnEnv} {r : Except ProgramError Unit} {b : ProgramActor}
    (h : a.spawnChild env = (r, b)) :
    b.healthView = a.healthView ∨ b.healthView = a.healthView.release env.drain ∨
      a.isShuttingDown = false ∧ env.succeeds a.config ∧
        (a.currentChild = none ∨ env.childExited = true) ∧
        (a.healthView.release env.drain).Installs b.healthView := by
  have hlife := (a.spawnChild_lifecycle h).2
  simp only [spawnChild] at h
  split at h
  next =>
    cases h
    exact .inl rfl
  next =>
    split at h
    next e _ =>
      cases h
      exact .inl rfl
    next a₁ hreap =>
      have hview₁ := a.reapExited_healthView hreap
      split at h
      next e a₂ hhook =>
        have hview₂ := runPreStart_healthView { a₁ with manualStop := false } env
        rw [hhook] at hview₂
        cases h
        exact .inr (.inl (hview₂.trans hview₁))
      next a₂ hhook =>
        have hview₂ := runPreStart_healthView { a₁ with manualStop := false } env
        rw [hhook] at hview₂
        have hview : a₂.healthView = a.healthView.release env.drain := hview₂.trans hview₁
        split at h
        next =>
          cases h
          exact .inr (.inl hview)
        next =>
          split at h
          next =>
            cases h
            exact .inr (.inl hview)
          next pid _ =>
            have hinst := installChild_installs { a₂ with spawned := a₂.spawned + 1 } env pid
            rw [show ProgramActor.healthView { a₂ with spawned := a₂.spawned + 1 } =
              a.healthView.release env.drain from hview] at hinst
            cases h
            obtain ⟨hdown, hsucceeds, hchild⟩ := hlife.of_ok
            exact .inr (.inr ⟨hdown, hsucceeds, hchild, hinst⟩)

/-! ## The condition -/

/-- If a spawn that is not refused succeeds, it finds no event in the health channel `queue` and
no probe task is left by the drain of the child. -/
def HandsOver (drain : DrainEnv) (queue : List HealthMsg) (env : SpawnEnv) : Prop :=
  a.isShuttingDown = false → env.succeeds a.config →
    queue = [] ∧ (a.healthView.release drain).probes = []

instance (drain : DrainEnv) (queue : List HealthMsg) (env : SpawnEnv) :
    Decidable (a.HandsOver drain queue env) :=
  inferInstanceAs (Decidable (_ → _ → _))

/-- If the step installs a child, the health channel is empty and no probe task of an earlier
child is left. -/
def StartsClean : Label → Prop
  | .iterate (.command .start env) =>
      a.currentChild = none ∨ env.spawn.childExited = true →
        a.HandsOver env.spawn.drain a.healthRx env.spawn
  | .iterate (.command (.restart _) env) => a.HandsOver env.stop.drain a.healthRx env.spawn
  | .iterate (.health stop spawn) =>
      a.healthRx.head?.map HealthMsg.event = some .unhealthy → a.config.autorestart ≠ .never →
        a.HandsOver stop.drain a.healthRx.tail spawn
  | .iterate (.backoff spawn) => a.HandsOver spawn.drain a.healthRx spawn
  | .iterate (.childExit exitRes drain spawn) =>
      a.manualStop = false → a.currentChild.map RunningChild.markedRunning = some true →
        a.config.autorestart.shouldRestart ((exitCodeOf exitRes).getD (-1)) a.config.exitCodes →
        a.HandsOver drain a.healthRx spawn
  | _ => True

instance : ∀ l : Label, Decidable (a.StartsClean l)
  | .iterate (.command .start _) => inferInstanceAs (Decidable (_ → a.HandsOver _ _ _))
  | .iterate (.command (.restart _) _) => inferInstanceAs (Decidable (a.HandsOver _ _ _))
  | .iterate (.health _ _) => inferInstanceAs (Decidable (_ → _ → a.HandsOver _ _ _))
  | .iterate (.backoff _) => inferInstanceAs (Decidable (a.HandsOver _ _ _))
  | .iterate (.childExit _ _ _) => inferInstanceAs (Decidable (_ → _ → _ → a.HandsOver _ _ _))
  | .iterate (.command (.stop _) _) | .iterate (.command (.signal _) _)
  | .iterate (.command .shutdown _) | .iterate (.cancelled _) | .iterate (.metricsTick _ _)
  | .iterate (.activityNotified _ _ _) | .iterate (.startDeadline _) | .cancel | .probeBegin _
  | .probeResult _ _ => inferInstanceAs (Decidable True)

variable {a}

/-- A spawn keeps everything current when it installs its child over an empty channel and leaves no
probe task behind. -/
theorem spawnChild_current {env : SpawnEnv} {r : Except ProgramError Unit} {b : ProgramActor}
    (h : a.spawnChild env = (r, b)) (hcur : a.healthView.Current)
    (hover : a.isShuttingDown = false → env.succeeds a.config →
      a.currentChild = none ∨ env.childExited = true →
        a.healthRx = [] ∧ (a.healthView.release env.drain).probes = []) :
    b.healthView.Current := by
  rcases a.spawnChild_healthView h with hb | hb | ⟨hdown, hsucceeds, hchild, hinst⟩
  · exact hb ▸ hcur
  · exact hb ▸ hcur.release env.drain
  · obtain ⟨hqueue, hprobes⟩ := hover hdown hsucceeds hchild
    refine hinst.current ?_ hprobes
    have hsame : (a.healthView.release env.drain).queue = a.healthRx := by
      simp only [HealthView.release]
      split <;> rfl
    rw [hsame, hqueue]

/-- The same for a spawn that follows the drain of the child. -/
theorem spawnChild_current_of_released {drain : DrainEnv} {env : SpawnEnv}
    {r : Except ProgramError Unit} {b c : ProgramActor} (h : b.spawnChild env = (r, c))
    (hcur : a.healthView.Current) (hview : b.healthView = a.healthView.release drain)
    (hcfg : b.config = a.config) (hdown : b.isShuttingDown = a.isShuttingDown)
    (hover : a.HandsOver drain a.healthRx env) : c.healthView.Current := by
  have hchild : b.healthView.child = none := by
    rw [hview]
    simp only [HealthView.release]
    split
    · rfl
    · assumption
  have hqueue : b.healthView.queue = a.healthRx := by
    rw [hview]
    simp only [HealthView.release]
    split <;> rfl
  refine spawnChild_current h (hview ▸ hcur.release drain) ?_
  intro hdown' hsucceeds _
  rw [hdown] at hdown'
  rw [hcfg] at hsucceeds
  obtain ⟨hnil, hprobes⟩ := hover hdown' hsucceeds
  refine ⟨hqueue.trans hnil, ?_⟩
  rw [HealthView.release, hchild, hview]
  exact hprobes

/-! ## Steps -/

/-- A clean command keeps everything current. -/
theorem handleCommand_current {cmd : ProgramCommand} {env : CommandEnv}
    (hcur : a.healthView.Current) (hclean : a.StartsClean (.iterate (.command cmd env))) :
    (a.handleCommand cmd env).2.healthView.Current := by
  cases cmd with
  | start =>
      simp only [handleCommand]
      split
      · exact hcur
      · exact spawnChild_current rfl hcur fun hdown hsucceeds hchild =>
          hclean hchild hdown hsucceeds
  | stop gracePeriod =>
      simp only [handleCommand, stopCurrentChild_healthView]
      exact hcur.release _
  | restart gracePeriod =>
      have hlife := stopCurrentChild_lifecycle
        { a with manualStop := true, retryCount := 0, backoffDeadline := none }
        gracePeriod env.stop
      simp only [handleCommand]
      split
      · exact hcur
      · exact spawnChild_current_of_released rfl hcur (stopCurrentChild_healthView _ _ _)
          (stopCurrentChild_config _ _ _) (congrArg Lifecycle.isShuttingDown hlife) hclean
  | signal s =>
      simp only [handleCommand]
      split <;> exact hcur
  | shutdown =>
      have hview := stopCurrentChild_healthView
        { a with isShuttingDown := true, manualStop := true, backoffDeadline := none }
        a.config.stopWaitSecs env.stop
      exact hview ▸ hcur.release _

/-- Taking the oldest event out of the channel keeps everything current. -/
theorem current_of_tail {msg : HealthMsg} {rest : List HealthMsg}
    (hqueue : a.healthRx = msg :: rest) (hcur : a.healthView.Current) :
    ({ a with healthRx := rest } : ProgramActor).healthView.Current := by
  refine ⟨?_, hcur.probed, hcur.owned⟩
  intro m hm
  have hmem : m ∈ a.healthRx := by
    rw [hqueue]
    exact List.mem_cons_of_mem _ hm
  exact hcur.queued m hmem

/-- Handling an event keeps everything current when its restart hands over. -/
theorem handleHealthEvent_current (event : HealthEvent) {stop : StopEnv} {spawn : SpawnEnv}
    (hcur : a.healthView.Current)
    (hover : event = .unhealthy → a.config.autorestart ≠ .never →
      a.HandsOver stop.drain a.healthRx spawn) :
    (a.handleHealthEvent event stop spawn).healthView.Current := by
  cases event with
  | healthy =>
      simp only [handleHealthEvent]
      split <;> exact hcur
  | unhealthy =>
      simp only [handleHealthEvent]
      generalize hb : (if a.statusSnapshot.health ≠ .unhealthy then _ else _ : ProgramActor) = b
      have hcfg : b.config = a.config := by
        rw [← hb]
        split <;> rfl
      have hview : b.healthView = a.healthView := by
        rw [← hb]
        split <;> rfl
      have hdown : b.isShuttingDown = a.isShuttingDown := by
        rw [← hb]
        split <;> rfl
      split
      next hpolicy =>
        rw [hcfg] at hpolicy
        have hview₁ := b.stopCurrentChild_healthView b.config.stopWaitSecs stop
        rw [hview] at hview₁
        have hcfg₁ := (b.stopCurrentChild_config b.config.stopWaitSecs stop).trans hcfg
        have hdown₁ := (congrArg Lifecycle.isShuttingDown
          (b.stopCurrentChild_lifecycle b.config.stopWaitSecs stop)).trans hdown
        have hspawn := fun r c h => spawnChild_current_of_released (r := r) (c := c) h hcur hview₁
          hcfg₁ hdown₁ (hover rfl hpolicy)
        split
        next e c h =>
          have hc := hspawn _ c h
          exact hc
        next c h =>
          have hc := hspawn _ c h
          split <;> exact hc
      next => exact hview ▸ hcur

/-- A clean retry keeps everything current. -/
theorem handleBackoff_current {spawn : SpawnEnv} (hcur : a.healthView.Current)
    (hclean : a.StartsClean (.iterate (.backoff spawn))) :
    (a.handleBackoff spawn).healthView.Current := by
  have hspawn := fun r b h => spawnChild_current
    (a := { a with backoffDeadline := none }) (r := r) (b := b) h hcur
    fun hdown hsucceeds _ => hclean hdown hsucceeds
  simp only [handleBackoff]
  split
  next => exact hcur
  next =>
    split
    next e b h =>
      have hb := hspawn _ b h
      exact hb
    next b h =>
      have hb := hspawn _ b h
      split <;> exact hb

/-- The automatic restart keeps everything current when it hands over. -/
theorem autorestartChild_current {drain : DrainEnv} {exitCode : Option ℤ} {spawn : SpawnEnv}
    {b : ProgramActor} (hcur : a.healthView.Current)
    (hview : b.healthView = a.healthView.release drain) (hcfg : b.config = a.config)
    (hdown : b.isShuttingDown = a.isShuttingDown) (hover : a.HandsOver drain a.healthRx spawn) :
    (b.autorestartChild exitCode spawn).2.healthView.Current := by
  simp only [autorestartChild]
  split
  next e c h =>
    have hc := spawnChild_current_of_released h hcur hview hcfg hdown hover
    exact hc
  next c h => exact spawnChild_current_of_released h hcur hview hcfg hdown hover

/-- A clean exit keeps everything current. -/
theorem handleChildExit_current {exitRes : Except String ExitStatus} {drain : DrainEnv}
    {spawn : SpawnEnv} (hcur : a.healthView.Current)
    (hclean : a.StartsClean (.iterate (.childExit exitRes drain spawn))) :
    (a.handleChildExit exitRes drain spawn).2.healthView.Current := by
  have hview := a.releaseChild_healthView drain
  have hcurr : (a.releaseChild drain).healthView.Current := hview ▸ hcur.release drain
  have hlife := a.releaseChild_lifecycle drain
  have hcfg := a.releaseChild_config drain
  simp only [handleChildExit]
  generalize a.releaseChild drain = b at *
  have hdown : b.isShuttingDown = a.isShuttingDown := congrArg Lifecycle.isShuttingDown hlife
  have hstop : b.manualStop = a.manualStop := congrArg Lifecycle.manualStop hlife
  split
  next => exact hcurr
  next hflags =>
    simp only [not_or, Bool.not_eq_true] at hflags
    split
    next => split <;> exact hcurr
    next hrunning =>
      split
      next hpolicy =>
        refine autorestartChild_current hcur hview hcfg hdown (hclean ?_ ?_ ?_)
        · exact hstop ▸ hflags.2
        · cases hchild : a.currentChild with
          | none => simp [hchild] at hrunning
          | some c => simpa [hchild] using hrunning
        · exact hcfg ▸ hpolicy
      next => exact hcurr

/-- The start deadline keeps everything current. -/
theorem handleStartDeadline_current (tryWait : Except String (Option ExitStatus))
    (hcur : a.healthView.Current) : (a.handleStartDeadline tryWait).healthView.Current := by
  simp only [handleStartDeadline]
  split
  next => exact hcur
  next c hchild =>
    split
    next => exact hcur
    next =>
      refine ⟨hcur.queued, hcur.probed, ?_⟩
      intro c' hc'
      cases hc'
      exact hcur.owned c hchild

theorem queryMetrics_current (metrics : Except ProgramError ProcessMetrics)
    (hcur : a.healthView.Current) : (a.queryMetrics metrics).healthView.Current := by
  simp only [queryMetrics]
  split <;> exact hcur

/-- A clean arm keeps everything current. -/
theorem select_current {b : Branch} (hcur : a.healthView.Current)
    (hclean : a.StartsClean (.iterate b)) : (a.select b).healthView.Current := by
  cases b with
  | cancelled stop =>
      have hview := stopCurrentChild_healthView
        { a with isShuttingDown := true, manualStop := true, backoffDeadline := none }
        a.config.stopWaitSecs stop
      exact hview ▸ hcur.release _
  | command cmd env =>
      have hcmd := handleCommand_current hcur hclean
      simp only [select]
      split
      · split <;> exact hcmd
      · split <;> exact hcmd
  | health stop spawn =>
      simp only [select]
      split
      next => exact hcur
      next msg rest hqueue =>
        refine handleHealthEvent_current msg.event (current_of_tail hqueue hcur) ?_
        intro hevent hpolicy
        have hhead : a.healthRx.head?.map HealthMsg.event = some .unhealthy := by
          rw [hqueue]
          exact congrArg some hevent
        intro hdown hsucceeds
        obtain ⟨hnil, hprobes⟩ := hclean hhead hpolicy hdown hsucceeds
        rw [hqueue, List.tail_cons] at hnil
        refine ⟨hnil, ?_⟩
        rw [← hprobes]
        cases hchild : a.currentChild <;> simp [HealthView.release, healthView, hchild]
  | backoff spawn => exact handleBackoff_current hcur hclean
  | metricsTick active metrics => exact queryMetrics_current metrics hcur
  | activityNotified active enabled metrics => exact queryMetrics_current metrics hcur
  | childExit exitRes drain spawn =>
      have hexit := handleChildExit_current (a := { a with startDeadline := none }) hcur hclean
      simp only [select]
      split <;> exact hexit
  | startDeadline tryWait => exact handleStartDeadline_current tryWait hcur

/-- A clean step keeps everything current: a probe task only queues events of its own
incarnation. -/
theorem next_current {l : Label} {b : ProgramActor} (h : a.next l = some b)
    (hcur : a.healthView.Current) (hclean : a.StartsClean l) : b.healthView.Current := by
  cases l with
  | iterate br =>
      simp only [next, Option.ite_none_right_eq_some, Option.some.injEq] at h
      obtain ⟨-, rfl⟩ := h
      exact select_current hcur hclean
  | cancel =>
      cases h
      exact hcur
  | probeBegin inc =>
      simp only [next] at h
      split at h
      next =>
        split at h
        next => cases h
        next =>
          cases h
          refine ⟨hcur.queued, ?_, hcur.owned⟩
          intro t ht
          obtain ⟨u, hu, rfl⟩ := List.mem_map.mp ht
          have hinc := hcur.probed u hu
          split <;> exact hinc
      next => cases h
  | probeResult inc isOk =>
      simp only [next] at h
      split at h
      next t hfind =>
        have ht := hcur.probed t (List.mem_of_find?_eq_some hfind)
        split at h
        next =>
          cases h
          refine ⟨?_, ?_, hcur.owned⟩
          · intro m hm
            rcases List.mem_append.mp hm with hm | hm
            · exact hcur.queued m hm
            · simp only [Option.mem_toList, Option.map_eq_some_iff] at hm
              obtain ⟨e, -, rfl⟩ := hm
              exact ht
          · intro u hu
            simp only [healthView, probeResult] at hu
            split at hu
            · exact hcur.probed u (List.mem_filter.mp hu).1
            · obtain ⟨v, hv, rfl⟩ := List.mem_map.mp hu
              have hinc := hcur.probed v hv
              split <;> exact hinc
        next => cases h
      next => cases h

/-- In every execution in which each step that installs a child finds the health channel empty and
leaves no earlier probe task behind, an event taken from the health channel was sent by the probe
of the current child. -/
theorem event_of_current_child {config : ProgramConfig} {stop : StopEnv} {spawn : SpawnEnv}
    {b : ProgramActor} (h : (system config).ReachableWhile (fun a l => a.StartsClean l) a)
    (hstep : (system config).step a (.iterate (.health stop spawn)) b) :
    ∃ msg rest c, a.healthRx = msg :: rest ∧ a.currentChild = some c ∧
      msg.incarnation = c.incarnation := by
  have hcur : a.healthView.Current := by
    refine TransitionSystem.ReachableWhile.invariant
      (I := fun a => a.healthView.Current) ?_ ?_ h
    · rintro _ rfl
      exact ⟨nofun, nofun, nofun⟩
    · intro a l b _ hcur hclean hab
      exact next_current hab hcur hclean
  simp only [system, TransitionSystem.ofNext, next, Option.ite_none_right_eq_some, Branch.enabled,
    Bool.and_eq_true] at hstep
  obtain ⟨⟨-, ⟨hchild, -⟩, hqueue⟩, -⟩ := hstep
  obtain ⟨c, hc⟩ := Option.isSome_iff_exists.mp hchild
  cases hrx : a.healthRx with
  | nil => simp [hrx] at hqueue
  | cons msg rest =>
      refine ⟨msg, rest, c, rfl, hc, ?_⟩
      have hmsg := hcur.queued msg (by rw [healthView, hrx]; exact List.mem_cons_self)
      exact hmsg.trans (hcur.owned c hc).symm

/-- The condition at work: the probe of the current child reports it healthy. -/
theorem event_of_current_child_of_probed :
    ∃ a b msg rest c, (system probedConfig).Reachable a ∧
      (system probedConfig).step a (.iterate (.health .graceful (.succeeding 8))) b ∧
      a.healthRx = msg :: rest ∧ a.currentChild = some c ∧ msg.incarnation = c.incarnation := by
  obtain ⟨a, hreach, hnext⟩ := TransitionSystem.exists_reachableWhile
    (G := fun a l => a.StartsClean l) (i := new probedConfig) (f := next)
    (fun a => (a.next (.iterate (.health .graceful (.succeeding 8)))).isSome = true)
    [.iterate (.command .start ⟨.graceful, .succeeding 7, .ok ()⟩), .probeBegin 1,
      .probeResult 1 true] (by decide)
  obtain ⟨b, hstep⟩ := Option.isSome_iff_exists.mp hnext
  obtain ⟨msg, rest, c, hevent⟩ := event_of_current_child hreach hstep
  exact ⟨a, b, msg, rest, c, hreach.reachable, hstep, hevent⟩

/-- Without the condition an event can reach a later incarnation: the probe of the first child
reports it unhealthy, a restart installs the second child, and the event that is still queued
restarts the program once more. -/
theorem exists_event_of_earlier_child :
    ∃ a b msg rest c, (system probedConfig).Reachable a ∧
      (system probedConfig).step a (.iterate (.health .graceful (.succeeding 9))) b ∧
      a.healthRx = msg :: rest ∧ msg.incarnation = 1 ∧ msg.event = .unhealthy ∧
      a.currentChild = some c ∧ c.incarnation = 2 ∧
      b.currentChild.map RunningChild.incarnation = some 3 := by
  obtain ⟨a, hreach, hqueue, hchild, hnext⟩ := TransitionSystem.exists_reachableWhile
    (G := fun _ _ => True) (i := new probedConfig) (f := next)
    (fun a => a.healthRx = [⟨1, .unhealthy⟩] ∧ a.currentChild = some ⟨8, false, 2⟩ ∧
      (a.next (.iterate (.health .graceful (.succeeding 9)))).any
        (fun b => b.currentChild.map RunningChild.incarnation = some 3) = true)
    [.iterate (.command .start ⟨.graceful, .succeeding 7, .ok ()⟩), .probeBegin 1,
      .probeResult 1 false,
      .iterate (.command (.restart 5) ⟨.graceful, .succeeding 8, .ok ()⟩)] (by decide)
  obtain ⟨b, hstep, hb⟩ := (Option.any_eq_true _ _).mp hnext
  exact ⟨a, b, _, _, _, hreach, hstep, hqueue, rfl, rfl, hchild, rfl, of_decide_eq_true hb⟩

end ProgramActor

end Rsupervisord
