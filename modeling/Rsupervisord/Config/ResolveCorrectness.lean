import Rsupervisord.Config.Resolve
import Rsupervisord.Support.Except

/-!
# Resolved configurations are well formed

The map that `resolve_programs` returns stores each configuration under its instance name. An event
listener is in the group of its pool, and the listeners of one pool agree on the settings of the
pool, as they come from one section.
-/

namespace Rsupervisord

/-- Every entry has the property, which may mention its name. -/
def ProgramConfigs.EachEntry (m : ProgramConfigs) (P : String → ProgramConfig → Prop) : Prop :=
  ∀ name cfg, m.lookup name = some cfg → P name cfg

instance (m : ProgramConfigs) (P : String → ProgramConfig → Prop)
    [∀ name cfg, Decidable (P name cfg)] : Decidable (m.EachEntry P) :=
  decidable_of_iff (∀ e ∈ m.iter .stored, P e.1 e.2)
    ⟨fun h _ _ hcfg => h _ (HashMap.mem_iter.mpr hcfg),
      fun h e he => h e.1 e.2 (HashMap.mem_iter.mp he)⟩

/-- A map of program configurations as the manager relies on it. -/
structure ProgramConfigs.WellFormed (m : ProgramConfigs) : Prop where
  /-- Each configuration is stored under its name. -/
  name_eq : ∀ {name cfg}, m.lookup name = some cfg → cfg.name = name
  /-- A listener is in the group of its pool. -/
  group_eq : ∀ {name cfg el}, m.lookup name = some cfg → cfg.eventListener = some el →
    cfg.group = el.poolName
  /-- The buffer of a listener holds at least one event. -/
  bufferSize_pos : ∀ {name cfg el}, m.lookup name = some cfg → cfg.eventListener = some el →
    1 ≤ el.bufferSize
  /-- The listeners of one pool have the same settings. -/
  pool_eq : ∀ {name₁ name₂ cfg₁ cfg₂ el₁ el₂}, m.lookup name₁ = some cfg₁ →
    m.lookup name₂ = some cfg₂ → cfg₁.eventListener = some el₁ → cfg₂.eventListener = some el₂ →
    el₁.poolName = el₂.poolName → el₁ = el₂

/-- A map with some of the entries of a well-formed one is well formed. -/
theorem ProgramConfigs.WellFormed.mono {m m' : ProgramConfigs} (h : m.WellFormed)
    (hsub : ∀ name cfg, m'.lookup name = some cfg → m.lookup name = some cfg) :
    m'.WellFormed where
  name_eq hcfg := h.name_eq (hsub _ _ hcfg)
  group_eq hcfg := h.group_eq (hsub _ _ hcfg)
  bufferSize_pos hcfg := h.bufferSize_pos (hsub _ _ hcfg)
  pool_eq hcfg₁ hcfg₂ := h.pool_eq (hsub _ _ hcfg₁) (hsub _ _ hcfg₂)

namespace SupervisorConfig

variable {c : SupervisorConfig} {env : ResolveEnv}

/-- What the resolution stores for an instance: the configuration has the instance's name, and the
settings of a listener are those of the section that names its pool. -/
def Stores (c : SupervisorConfig) (name : String) (cfg : ProgramConfig) : Prop :=
  cfg.name = name ∧ ∀ el, cfg.eventListener = some el → cfg.group = el.poolName ∧
    ∃ raw, c.eventListeners.lookup el.poolName = some raw ∧
      el = .new el.poolName raw.events raw.bufferSize raw.resultHandler

/-- A program instance has its name and is no listener. -/
theorem resolveInstance_eq {baseName : String} {raw : ProgramConfigRaw} {group : String}
    {priority : ℕ} {dependsOn : List String} {name : String} {processNum numprocs : ℕ}
    {cfg : ProgramConfig} (h : c.resolveInstance env baseName raw group priority dependsOn name
      processNum numprocs = .ok cfg) : cfg.name = name ∧ cfg.eventListener = none := by
  simp only [resolveInstance, Except.bind_eq_ok] at h
  obtain ⟨_, -, _, -, _, -, _, -, _, -, _, -, _, -, _, -, _, -, _, -, h⟩ := h
  split at h
  next => cases h
  next =>
    obtain rfl := Except.ok.inj h
    exact ⟨rfl, rfl⟩

/-- A program instance is stored with its name. -/
theorem resolveInstance_stores {baseName : String} {raw : ProgramConfigRaw} {group : String}
    {priority : ℕ} {dependsOn : List String} {name : String} {processNum numprocs : ℕ}
    {cfg : ProgramConfig} (h : c.resolveInstance env baseName raw group priority dependsOn name
      processNum numprocs = .ok cfg) : c.Stores name cfg := by
  obtain ⟨hname, hordinary⟩ := resolveInstance_eq h
  refine ⟨hname, fun el hel => ?_⟩
  rw [hordinary] at hel
  cases hel

/-- A listener instance has its name and the settings of its section. -/
theorem resolveListenerInstance_stores {listenerName : String} {raw : EventListenerConfigRaw}
    {name : String} {processNum numprocs : ℕ} {cfg : ProgramConfig}
    (hraw : c.eventListeners.lookup listenerName = some raw)
    (h : c.resolveListenerInstance env listenerName raw name processNum numprocs = .ok cfg) :
    c.Stores name cfg := by
  simp only [resolveListenerInstance, Except.bind_eq_ok] at h
  obtain ⟨_, -, _, -, _, -, _, -, h⟩ := h
  split at h
  next => cases h
  next =>
    obtain rfl := Except.ok.inj h
    refine ⟨rfl, fun el hel => ?_⟩
    obtain rfl := Option.some.inj hel
    exact ⟨rfl, raw, hraw, rfl⟩

/-- A listener instance depends on no program. -/
theorem resolveListenerInstance_dependsOn {listenerName : String} {raw : EventListenerConfigRaw}
    {name : String} {processNum numprocs : ℕ} {cfg : ProgramConfig}
    (h : c.resolveListenerInstance env listenerName raw name processNum numprocs = .ok cfg) :
    cfg.dependsOn = [] := by
  simp only [resolveListenerInstance, Except.bind_eq_ok] at h
  obtain ⟨_, -, _, -, _, -, _, -, h⟩ := h
  split at h
  next => cases h
  next =>
    obtain rfl := Except.ok.inj h
    rfl

section Entries

variable {P : String → ProgramConfig → Prop}

/-- Storing an instance. -/
theorem insertInstance_eachEntry {m m' : ProgramConfigs} {name message : String}
    {prog : ProgramConfig}
    (hprog : P name prog) (hm : m.EachEntry P) (h : insertInstance m name prog message = .ok m') :
    m'.EachEntry P := by
  rw [insertInstance] at h
  split at h
  next => cases h
  next =>
    obtain rfl := Except.ok.inj h
    intro name' cfg hcfg
    rw [HashMap.lookup_insert] at hcfg
    by_cases hname : name' = name
    · rw [if_pos hname] at hcfg
      obtain rfl := Option.some.inj hcfg
      exact hname ▸ hprog
    · rw [if_neg hname] at hcfg
      exact hm name' cfg hcfg

/-- Every entry of a resolved map has what the resolution of a program instance and that of a
listener instance guarantee. -/
theorem resolvePrograms_eachEntry {m : ProgramConfigs}
    (hprogram : ∀ baseName raw group priority dependsOn name processNum numprocs cfg,
      c.resolveInstance env baseName raw group priority dependsOn name processNum numprocs =
      .ok cfg →
        P name cfg)
    (hlistener : ∀ listenerName raw name processNum numprocs cfg,
      c.eventListeners.lookup listenerName = some raw →
      c.resolveListenerInstance env listenerName raw name processNum numprocs = .ok cfg →
        P name cfg)
    (h : c.resolvePrograms env = .ok m) : m.EachEntry P := by
  simp only [resolvePrograms, Except.bind_eq_ok] at h
  obtain ⟨programInstances, -, programs, hprograms, resolved, hresolved, _, -, h⟩ := h
  obtain rfl := Except.ok.inj h
  have hsections : programs.EachEntry P := by
    refine Except.foldlM_invariant (I := fun m => m.EachEntry P) (fun m e m' _ hm h => ?_)
      (fun name cfg hcfg => by simp at hcfg) hprograms
    simp only [resolveProgram] at h
    split at h
    next => cases h
    next =>
      refine Except.foldlM_invariant (I := fun m => m.EachEntry P) ?_ hm h
      intro m e m' _ hm hstep
      obtain ⟨prog, hprog, hstep⟩ := Except.bind_eq_ok.mp hstep
      exact insertInstance_eachEntry (hprogram _ _ _ _ _ _ _ _ _ hprog) hm hstep
  refine Except.foldlM_invariant (I :=
    fun m => m.EachEntry P) (fun m e m' he hm h => ?_) hsections hresolved
  simp only [resolveEventListener] at h
  obtain ⟨instances, -, h⟩ := Except.bind_eq_ok.mp h
  refine Except.foldlM_invariant (I := fun m => m.EachEntry P) ?_ hm h
  intro m e' m' _ hm hstep
  obtain ⟨prog, hprog, hstep⟩ := Except.bind_eq_ok.mp hstep
  exact insertInstance_eachEntry (hlistener _ _ _ _ _ _ (HashMap.mem_iter.mp he) hprog) hm hstep

end Entries

/-- Every entry is what the resolution stores under its name. -/
def StoresAll (c : SupervisorConfig) (m : ProgramConfigs) : Prop :=
  ∀ name cfg, m.lookup name = some cfg → c.Stores name cfg

/-- Every entry of a resolved map is stored under its name, and the listeners have the settings of
the sections that name their pools. -/
theorem resolvePrograms_storesAll {m : ProgramConfigs} (h : c.resolvePrograms env = .ok m) :
    c.StoresAll m :=
  resolvePrograms_eachEntry (P := c.Stores)
    (fun _ _ _ _ _ _ _ _ _ hprog => resolveInstance_stores hprog)
    (fun _ _ _ _ _ _ hraw hprog => resolveListenerInstance_stores hraw hprog) h

/-- The listeners of a resolved map depend on no program. -/
theorem resolvePrograms_listeners {m : ProgramConfigs} (h : c.resolvePrograms env = .ok m) :
    m.EachEntry fun _ cfg => cfg.eventListener.isSome → cfg.dependsOn = [] := by
  refine resolvePrograms_eachEntry ?_ ?_ h
  · intro _ _ _ _ _ name _ _ cfg hprog hlistener
    rw [(resolveInstance_eq hprog).2] at hlistener
    cases hlistener
  · intro _ _ _ _ _ cfg _ hprog _
    exact resolveListenerInstance_dependsOn hprog

/-- A resolved map is well formed. -/
theorem resolvePrograms_wellFormed {m : ProgramConfigs} (h : c.resolvePrograms env = .ok m) :
    m.WellFormed where
  name_eq hcfg := (resolvePrograms_storesAll h _ _ hcfg).1
  group_eq hcfg hel := ((resolvePrograms_storesAll h _ _ hcfg).2 _ hel).1
  bufferSize_pos hcfg hel := by
    obtain ⟨-, raw, -, hraw⟩ := (resolvePrograms_storesAll h _ _ hcfg).2 _ hel
    rw [hraw]
    exact Nat.le_max_right _ _
  pool_eq {name₁ name₂ cfg₁ cfg₂ el₁ el₂} hcfg₁ hcfg₂ hel₁ hel₂ hpool := by
    -- Both listeners come from the section with the name of the pool.
    obtain ⟨-, raw₁, hraw₁, h₁⟩ := (resolvePrograms_storesAll h _ _ hcfg₁).2 el₁ hel₁
    obtain ⟨-, raw₂, hraw₂, h₂⟩ := (resolvePrograms_storesAll h _ _ hcfg₂).2 el₂ hel₂
    rw [hpool, hraw₂] at hraw₁
    obtain rfl := Option.some.inj hraw₁
    rw [h₁, h₂, hpool]

end SupervisorConfig

end Rsupervisord
