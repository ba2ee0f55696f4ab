import Rsupervisord.Manager.DagLayers
import Rsupervisord.Manager.GraphInvariant
import Rsupervisord.Manager.PoolInvariant
import Rsupervisord.Support.ConcurrentCalls

/-!
# Event listeners around ordinary programs

Starting and stopping all programs goes through the layers of the graph, and the programs of one
layer are started or stopped at the same time. Event listeners have no dependencies, so that they
are in the layer of the ordinary programs without dependencies, whatever their priority is.

## Main results

* `ManagerActor.brackets_iff`: the listeners are started first and stopped last exactly when every
  ordinary program has a dependency.
-/

namespace Rsupervisord

open DependencyGraph

/-- An event listener. -/
def ProgramInstance.IsListener (prog : ProgramInstance) : Prop :=
  prog.config.eventListener.isSome

/-- An ordinary program. -/
def ProgramInstance.IsOrdinary (prog : ProgramInstance) : Prop :=
  prog.config.eventListener = none

/-- Among the relevant programs there is no listener, or each ordinary one has a dependency. -/
def ProgramConfigs.OrdinaryDepend (configs : ProgramConfigs) (relevant : ProgramConfig → Prop) :
    Prop :=
  configs.EachEntry (fun _ cfg => relevant cfg → cfg.eventListener = none) ∨
    configs.EachEntry fun _ cfg => relevant cfg → cfg.eventListener = none → cfg.dependsOn ≠ []

instance (configs : ProgramConfigs) (relevant : ProgramConfig → Prop) [DecidablePred relevant] :
    Decidable (configs.OrdinaryDepend relevant) :=
  inferInstanceAs (Decidable (_ ∨ _))

namespace ManagerActor

variable {m m' : ManagerActor} {env : ManagerEnv} {gracePeriod : Option Duration}
  {layer : List String} {prog : ProgramInstance}

/-! ## Executions -/

/-- The instances of a layer that `execute_start_all` starts. -/
def startCalls (env : ManagerEnv) (m : ManagerActor) (layer : List String) : List ProgramInstance :=
  layer.filterMap fun name =>
    if ((m.configs.lookup name).map (·.autostart)).getD false then
      (m.programs.lookup name).filter fun prog =>
        (env.state m.requests prog.id).isStoppedOrFatal
    else none

/-- The instances of a layer that `execute_stop_all` stops. -/
def stopCalls (env : ManagerEnv) (m : ManagerActor) (layer : List String) : List ProgramInstance :=
  layer.filterMap fun name =>
    (m.programs.lookup name).filter fun prog => env.state m.requests prog.id ≠ .stopped

/-- The executions of `execute_start_all`. -/
def StartAllTrace (env : ManagerEnv) (m : ManagerActor) (trace : List (CallEvent ProgramInstance)) :
    Prop :=
  BatchesTrace (startCalls env) (startLayer env) m m.dag.startLayers trace

/-- The executions of `execute_stop_all`. -/
def StopAllTrace (env : ManagerEnv) (gracePeriod : Option Duration) (m : ManagerActor)
    (trace : List (CallEvent ProgramInstance)) : Prop :=
  BatchesTrace (stopCalls env) (stopLayer env gracePeriod) m m.dag.stopLayers trace

/-- The instances that were called so far. -/
def targets (m : ManagerActor) : List ℕ := m.requests.map (·.target)

/-- Calls to a list of instances. -/
theorem targets_foldl_issue {α : Type} {f : α → ProgramInstance} {call : α → ProgramCall}
    (l : List α) : (l.foldl (fun m a => m.issue (f a) (call a)) m).targets =
      m.targets ++ l.map fun a => (f a).id := by
  induction l generalizing m with
  | nil => exact (List.append_nil _).symm
  | cons a l ih =>
      rw [List.foldl_cons, ih, List.map_cons]
      simp [targets, issue]

/-- An execution of `execute_start_all` issues the calls that the manager records. -/
theorem StartAllTrace.targets_eq {trace : List (CallEvent ProgramInstance)}
    (h : StartAllTrace env m trace) : (m.executeStartAll env).targets =
      m.targets ++ (trace.filterMap CallEvent.issued?).map (·.id) :=
  h.log_eq fun _ _ => targets_foldl_issue _

/-- An execution of `execute_stop_all` issues the calls that the manager records. -/
theorem StopAllTrace.targets_eq {trace : List (CallEvent ProgramInstance)}
    (h : StopAllTrace env gracePeriod m trace) : (m.executeStopAll env gracePeriod).targets =
      m.targets ++ (trace.filterMap CallEvent.issued?).map (·.id) := by
  refine h.log_eq fun m layer => ?_
  rw [stopLayer, targets_foldl_issue, stopCalls, List.map_filterMap, List.map_filterMap]
  congr 2
  ext1 name
  cases (m.programs.lookup name).filter fun prog => env.state m.requests prog.id ≠ .stopped <;> rfl

/-- Starting a layer leaves the managed part alone. -/
theorem startLayer_managed : (startLayer env m layer).managed = m.managed :=
  foldl_eq (fun _ prog => managed_ignoresCalls.issue prog .start) _

/-- Stopping a layer leaves the managed part alone. -/
theorem stopLayer_managed : (stopLayer env gracePeriod m layer).managed = m.managed :=
  foldl_eq (fun _ (e : ProgramInstance × Duration) => managed_ignoresCalls.issue e.1 (.stop e.2)) _

/-- The programs of the layer that are configured to start and not active are started. -/
theorem mem_startCalls (hconfig : ∀ name, (m.programs.lookup name).map (·.config) =
    m.configs.lookup name) : prog ∈ startCalls env m layer ↔
      ∃ name ∈ layer, m.programs.lookup name = some prog ∧ prog.config.autostart ∧
        (env.state m.requests prog.id).isStoppedOrFatal := by
  rw [startCalls, List.mem_filterMap]
  refine exists_congr fun name => and_congr_right fun _ => ?_
  rw [← hconfig name]
  cases hlookup : m.programs.lookup name with
  | none => simp
  | some prog' =>
      by_cases hstart : prog'.config.autostart
      · simp only [Option.map_some, Option.getD_some, hstart, if_true, Option.filter_eq_some_iff,
          Option.some.injEq]
        constructor
        · rintro ⟨rfl, hstate⟩
          exact ⟨rfl, hstart, hstate⟩
        · rintro ⟨rfl, _, hstate⟩
          exact ⟨rfl, hstate⟩
      · simp only [Option.map_some, Option.getD_some, hstart, Option.some.injEq]
        constructor
        · rintro ⟨⟩
        · rintro ⟨rfl, hstart', _⟩
          exact absurd hstart' hstart

/-- The programs of the layer that are not stopped are stopped. -/
theorem mem_stopCalls : prog ∈ stopCalls env m layer ↔
    ∃ name ∈ layer, m.programs.lookup name = some prog ∧
      env.state m.requests prog.id ≠ .stopped := by
  rw [stopCalls, List.mem_filterMap]
  simp only [Option.filter_eq_some_iff, decide_eq_true_eq]

/-! ## The order of listeners and ordinary programs -/

/-- In every execution of `execute_start_all`, no ordinary program is started before the starts of
the listeners have completed. -/
def StartsListenersFirst (m : ManagerActor) : Prop :=
  ∀ env trace, StartAllTrace env m trace →
    Separates ProgramInstance.IsListener ProgramInstance.IsOrdinary trace

/-- In every execution of `execute_stop_all`, no listener is stopped before the stops of the
ordinary programs have completed. -/
def StopsListenersLast (m : ManagerActor) : Prop :=
  ∀ env gracePeriod trace, StopAllTrace env gracePeriod m trace →
    Separates ProgramInstance.IsOrdinary ProgramInstance.IsListener trace

section Order

variable {relevant : ProgramConfig → Prop} {number : String → ℕ} {name name' : String}
  {x y : ProgramInstance}

/-- The configuration of a managed instance. -/
theorem lookup_configs (hinv : m.managed.Invariant) (hx : m.programs.lookup name = some x) :
    m.configs.lookup name = some x.config := by
  have hconfig : (m.programs.lookup name).map (·.config) = m.configs.lookup name :=
    hinv.config_eq name
  rw [← hconfig, hx]
  rfl

/-- The number of a managed program is zero exactly when it has no dependencies. -/
theorem number_eq_zero_iff (hinv : m.managed.Invariant)
    (hlayered : IsLayeredBy m.configs number m.dag) (hx : m.programs.lookup name = some x) :
    number name = 0 ↔ x.config.dependsOn = [] := by
  have hcfg := lookup_configs hinv hx
  rw [hlayered.number_eq_zero_iff (HashMap.mem_iff_lookup.mpr ⟨_, hcfg⟩), deps, hcfg]
  rfl

/-- An ordinary program with a dependency is above the listeners. -/
theorem number_lt_of_ordinaryDepend (hinv : m.managed.Invariant)
    (hlayered : IsLayeredBy m.configs number m.dag)
    (hlisteners : m.configs.EachEntry fun _ cfg => cfg.eventListener.isSome → cfg.dependsOn = [])
    (hdepend : m.configs.OrdinaryDepend relevant) (hx : m.programs.lookup name = some x)
    (hxr : relevant x.config) (hordinary : x.IsOrdinary) (hy : m.programs.lookup name' = some y)
    (hyr : relevant y.config) (hlistener : y.IsListener) : number name' < number name := by
  have hzero : number name' = 0 := (number_eq_zero_iff hinv hlayered hy).mpr
    (hlisteners name' _ (lookup_configs hinv hy) hlistener)
  rcases hdepend with hnone | hdeps
  · have hyNone := hnone name' _ (lookup_configs hinv hy) hyr
    unfold ProgramInstance.IsListener at hlistener
    rw [hyNone] at hlistener
    cases hlistener
  · rw [hzero]
    apply Nat.pos_of_ne_zero
    rw [Ne, number_eq_zero_iff hinv hlayered hx]
    exact hdeps name _ (lookup_configs hinv hx) hxr hordinary

/-- Otherwise a listener and an ordinary program are in layer zero. -/
theorem exists_of_not_ordinaryDepend (hinv : m.managed.Invariant)
    (hlayered : IsLayeredBy m.configs number m.dag)
    (hlisteners : m.configs.EachEntry fun _ cfg => cfg.eventListener.isSome → cfg.dependsOn = [])
    (hnot : ¬ m.configs.OrdinaryDepend relevant) : ∃ name x name' y,
      m.programs.lookup name = some x ∧ relevant x.config ∧ x.IsOrdinary ∧ number name = 0 ∧
      m.programs.lookup name' = some y ∧ relevant y.config ∧ y.IsListener ∧ number name' = 0 := by
  have hprogram : ∀ {name cfg}, m.configs.lookup name = some cfg →
      ∃ prog, m.programs.lookup name = some prog ∧ prog.config = cfg := fun {name cfg} hcfg =>
    Option.map_eq_some_iff.mp ((hinv.config_eq name).trans hcfg)
  simp only [ProgramConfigs.OrdinaryDepend, ProgramConfigs.EachEntry, not_or] at hnot
  push Not at hnot
  obtain ⟨⟨name', cfg', hcfg', hyr, hlistener⟩, name, cfg, hcfg, hxr, hordinary, hdeps⟩ := hnot
  obtain ⟨x, hx, rfl⟩ := hprogram hcfg
  obtain ⟨y, hy, rfl⟩ := hprogram hcfg'
  have hlistener' : y.IsListener := Option.isSome_iff_ne_none.mpr hlistener
  exact ⟨name, x, name', y, hx, hxr, hordinary, (number_eq_zero_iff hinv hlayered hx).mpr hdeps, hy,
    hyr, hlistener',
    (number_eq_zero_iff hinv hlayered hy).mpr (hlisteners name' _ hcfg' hlistener')⟩

/-- A listener and an ordinary program of one start layer may be started at the same time. -/
theorem not_startsListenersFirst (hinv : m.managed.Invariant) (hlayer : layer ∈ m.dag.startLayers)
    (hname : name ∈ layer) (hx : m.programs.lookup name = some x) (hxStart : x.config.autostart)
    (hordinary : x.IsOrdinary) (hname' : name' ∈ layer) (hy : m.programs.lookup name' = some y)
    (hyStart : y.config.autostart) (hlistener : y.IsListener) : ¬ m.StartsListenersFirst := by
  intro hfirst
  -- All programs are stopped.
  have hcalls : ∀ {name x}, name ∈ layer → m.programs.lookup name = some x → x.config.autostart →
      ∀ s, managed s = m.managed → x ∈ startCalls .plain s layer := by
    intro name x hname hx hstart s hs
    have hprograms : s.programs = m.programs := congrArg Managed.programs hs
    have hinv' : s.managed.Invariant := hs ▸ hinv
    exact (mem_startCalls hinv'.config_eq).mpr ⟨name, hname, hprograms ▸ hx, hstart, rfl⟩
  obtain ⟨trace, htrace, hnot⟩ := BatchesTrace.exists_not_separates
    (startLayer .plain) (I := fun s => managed s = m.managed)
    (fun _ _ hs => startLayer_managed.trans hs) rfl hlayer (hcalls hname hx hxStart)
    (hcalls hname' hy hyStart) hordinary hlistener
  exact hnot (hfirst .plain trace htrace)

/-- A listener and an ordinary program of one stop layer may be stopped at the same time. -/
theorem not_stopsListenersLast (hlayer : layer ∈ m.dag.stopLayers) (hname : name ∈ layer)
    (hx : m.programs.lookup name = some x) (hordinary : x.IsOrdinary) (hname' : name' ∈ layer)
    (hy : m.programs.lookup name' = some y) (hlistener : y.IsListener) :
    ¬ m.StopsListenersLast := by
  intro hlast
  -- All programs are running.
  let env : ManagerEnv := { ManagerEnv.plain with state := fun _ _ => .running }
  have hcalls : ∀ {name x}, name ∈ layer → m.programs.lookup name = some x →
      ∀ s, managed s = m.managed → x ∈ stopCalls env s layer := by
    intro name x hname hx s hs
    have hprograms : s.programs = m.programs := congrArg Managed.programs hs
    exact mem_stopCalls.mpr ⟨name, hname, hprograms ▸ hx, ProgramState.noConfusion⟩
  obtain ⟨trace, htrace, hnot⟩ := BatchesTrace.exists_not_separates
    (stopLayer env none) (I := fun s => managed s = m.managed)
    (fun _ _ hs => stopLayer_managed.trans hs) rfl hlayer (hcalls hname' hy) (hcalls hname hx)
    hlistener hordinary
  exact hnot (hlast env none trace htrace)

/-- The listeners are started first exactly when among the autostart programs there is none, or each
ordinary one has a dependency. -/
theorem startsListenersFirst_iff (hinv : m.managed.Invariant)
    (hlayered : IsLayeredBy m.configs number m.dag)
    (hlisteners : m.configs.EachEntry fun _ cfg => cfg.eventListener.isSome → cfg.dependsOn = []) :
    m.StartsListenersFirst ↔ m.configs.OrdinaryDepend (·.autostart) := by
  constructor
  · intro hfirst
    by_contra hnot
    obtain ⟨name, x, name', y, hx, hxr, hordinary, hzero, hy, hyr, hlistener, hzero'⟩ :=
      exists_of_not_ordinaryDepend hinv hlayered hlisteners hnot
    have hmem := fun {name x} (hx : m.programs.lookup name = some x) =>
      HashMap.mem_iff_lookup.mpr ⟨_, lookup_configs hinv hx⟩
    obtain ⟨layer, hlayer, hmemLayer⟩ := hlayered.exists_startLayer (hmem hx)
    exact not_startsListenersFirst hinv hlayer ((hmemLayer name).mpr ⟨hmem hx, rfl⟩) hx hxr
      hordinary
      ((hmemLayer name').mpr ⟨hmem hy, hzero'.trans hzero.symm⟩) hy hyr hlistener hfirst
  · intro hdepend env trace htrace
    have habove := fun {name x name' y} =>
      @number_lt_of_ordinaryDepend m _ number name name' x y hinv hlayered hlisteners hdepend
    refine htrace.separates (I := fun s => managed s = m.managed) (P := fun layer prog =>
        ∃ name ∈ layer, m.programs.lookup name = some prog ∧ prog.config.autostart)
      (fun _ _ hs => startLayer_managed.trans hs) rfl ?_ ?_ ?_
    · intro s hs layer prog hprog
      have hprograms : s.programs = m.programs := congrArg Managed.programs hs
      have hinv' : s.managed.Invariant := hs ▸ hinv
      obtain ⟨name, hname, hlookup, hstart, _⟩ := (mem_startCalls hinv'.config_eq).mp hprog
      exact ⟨name, hname, hprograms ▸ hlookup, hstart⟩
    · rintro layer hlayer x y ⟨name, hname, hx, hxr⟩ ⟨name', hname', hy, hyr⟩ hordinary hlistener
      obtain ⟨i, hi⟩ := hlayered.mem_startLayer hlayer
      have hlt := habove hx hxr hordinary hy hyr hlistener
      rw [((hi name).mp hname).2, ((hi name').mp hname').2] at hlt
      exact absurd hlt (lt_irrefl i)
    · refine hlayered.startLayers_pairwise.imp ?_
      rintro layer layer' hlt x y ⟨name, hname, hx, hxr⟩ ⟨name', hname', hy,
        hyr⟩ hordinary hlistener
      exact lt_asymm (hlt name hname name' hname') (habove hx hxr hordinary hy hyr hlistener)

/-- The listeners are stopped last exactly when there is none, or each ordinary program has a
dependency. -/
theorem stopsListenersLast_iff (hinv : m.managed.Invariant)
    (hlayered : IsLayeredBy m.configs number m.dag)
    (hlisteners : m.configs.EachEntry fun _ cfg => cfg.eventListener.isSome → cfg.dependsOn = []) :
    m.StopsListenersLast ↔ m.configs.OrdinaryDepend fun _ => True := by
  constructor
  · intro hlast
    by_contra hnot
    obtain ⟨name, x, name', y, hx, _, hordinary, hzero, hy, _, hlistener, hzero'⟩ :=
      exists_of_not_ordinaryDepend hinv hlayered hlisteners hnot
    have hmem := fun {name x} (hx : m.programs.lookup name = some x) =>
      HashMap.mem_iff_lookup.mpr ⟨_, lookup_configs hinv hx⟩
    obtain ⟨layer, hlayer, hmemLayer⟩ := hlayered.exists_stopLayer (hmem hx)
    exact not_stopsListenersLast hlayer ((hmemLayer name).mpr ⟨hmem hx, rfl⟩) hx hordinary
      ((hmemLayer name').mpr ⟨hmem hy, hzero'.trans hzero.symm⟩) hy hlistener hlast
  · intro hdepend env gracePeriod trace htrace
    have habove := fun {name x name' y} =>
      @number_lt_of_ordinaryDepend m _ number name name' x y hinv hlayered hlisteners hdepend
    refine htrace.separates (I := fun s => managed s = m.managed) (P := fun layer prog =>
        ∃ name ∈ layer, m.programs.lookup name = some prog)
      (fun _ _ hs => stopLayer_managed.trans hs) rfl ?_ ?_ ?_
    · intro s hs layer prog hprog
      have hprograms : s.programs = m.programs := congrArg Managed.programs hs
      obtain ⟨name, hname, hlookup, _⟩ := mem_stopCalls.mp hprog
      exact ⟨name, hname, hprograms ▸ hlookup⟩
    · rintro layer hlayer y x ⟨name', hname', hy⟩ ⟨name, hname, hx⟩ hlistener hordinary
      obtain ⟨i, hi⟩ := hlayered.mem_stopLayer hlayer
      have hlt := habove hx trivial hordinary hy trivial hlistener
      rw [((hi name).mp hname).2, ((hi name').mp hname').2] at hlt
      exact absurd hlt (lt_irrefl i)
    · refine hlayered.stopLayers_pairwise.imp ?_
      rintro layer layer' hlt y x ⟨name', hname', hy⟩ ⟨name, hname, hx⟩ hlistener hordinary
      exact lt_asymm (hlt name' hname' name hname)
        (habove hx trivial hordinary hy trivial hlistener)

/-- A graph of the configurations has their layers. -/
theorem exists_isLayeredBy (hgraph : m.dag.IsGraphOf m.configs) :
    ∃ number, IsLayeredBy m.configs number m.dag := by
  obtain ⟨check, orders, programs', hlookup, hbuild⟩ := hgraph
  obtain ⟨number, hlayered⟩ := build_isLayeredBy hbuild
  exact ⟨number, hlayered.congr fun name => (hlookup name).symm⟩

end Order

/-- With the graph of its programs, a manager starts the listeners first exactly when among the
autostart programs there is none, or each ordinary one has a dependency, and it stops them last
exactly when there is none, or each ordinary program has a dependency. -/
theorem brackets_iff (hreach : system.Reachable m) (hgraph : m.dag.IsGraphOf m.configs) :
    (m.StartsListenersFirst ↔ m.configs.OrdinaryDepend (·.autostart)) ∧
      (m.StopsListenersLast ↔ m.configs.OrdinaryDepend fun _ => True) := by
  have hinv := invariant_of_reachable hreach
  have hlisteners := configs_eachEntry_of_reachable
    (fun _ _ _ hresolve => SupervisorConfig.resolvePrograms_listeners hresolve) hreach
  obtain ⟨number, hlayered⟩ := exists_isLayeredBy hgraph
  exact ⟨startsListenersFirst_iff hinv hlayered hlisteners,
    stopsListenersLast_iff hinv hlayered hlisteners⟩

/-- A mail program listens, and the web server depends on it. -/
theorem brackets_of_dependent_web :
    ∃ m, system.Reachable m ∧ m.dag.startLayers = [["mailer"], ["web"]] ∧
      m.StartsListenersFirst ∧ m.StopsListenersLast := by
  obtain ⟨m, hbuild, hlayers, hstart, hstop⟩ := exists_build (fun m =>
    m.dag.startLayers = [["mailer"], ["web"]] ∧ m.configs.OrdinaryDepend (·.autostart) ∧
      m.configs.OrdinaryDepend fun _ => True)
    (mailerConfig ["SUPERVISOR_STATE_CHANGE"]
      [("web", { command := "nginx", dependsOn := ["mailer"] })]) .plain (by decide +kernel)
  have hinit : ∀ {G}, system.ReachableWhile G m := .init ⟨_, _, hbuild⟩
  obtain ⟨hfirst, hlast⟩ := brackets_iff hinit (graphAgrees_of_reachable hinit).isGraph
  exact ⟨m, hinit, hlayers, hfirst.mpr hstart, hlast.mpr hstop⟩

/-- A mail program listens, and the web server has no dependencies: they are started and stopped at
the same time. -/
theorem exists_not_brackets :
    ∃ m, system.Reachable m ∧ m.dag.startLayers = [["mailer", "web"]] ∧
      ¬ m.StartsListenersFirst ∧ ¬ m.StopsListenersLast := by
  obtain ⟨m, hbuild, hstart, hstop, hweb, hmailer⟩ := exists_build (fun m =>
    m.dag.startLayers = [["mailer", "web"]] ∧ m.dag.stopLayers = [["web", "mailer"]] ∧
      (m.programs.lookup "web").any (fun x => decide (x.config.autostart ∧
        x.config.eventListener = none)) = true ∧
      (m.programs.lookup "mailer").any (fun y => decide (y.config.autostart ∧
        y.config.eventListener.isSome)) = true)
    (mailerConfig ["SUPERVISOR_STATE_CHANGE"] [("web", { command := "nginx" })]) .plain
    (by decide +kernel)
  obtain ⟨x, hx, hordinary⟩ := (Option.any_eq_true _ _).mp hweb
  obtain ⟨y, hy, hlistener⟩ := (Option.any_eq_true _ _).mp hmailer
  rw [decide_eq_true_eq] at hordinary hlistener
  refine ⟨m, .init ⟨_, _, hbuild⟩, hstart, ?_, ?_⟩
  · exact not_startsListenersFirst (build_invariant hbuild) (hstart ▸ List.mem_singleton_self _)
      (List.mem_of_elem_eq_true rfl) hx hordinary.1 hordinary.2 (List.mem_of_elem_eq_true rfl) hy
      hlistener.1 hlistener.2
  · exact not_stopsListenersLast (hstop ▸ List.mem_singleton_self _)
      (List.mem_of_elem_eq_true rfl) hx
      hordinary.2 (List.mem_of_elem_eq_true rfl) hy hlistener.2

end ManagerActor

end Rsupervisord
