import Mathlib.Algebra.Order.BigOperators.Group.List
import Mathlib.Data.List.Find
import Rsupervisord.Config.Diff
import Rsupervisord.Config.LogSharing

/-!
# The order of a resolution

`resolve_programs` iterates hash maps, so that its result might depend on their orders. `instances`
collects what the sections resolve to, and a resolution stores these instances when their names are
distinct. The only order that shows in the result is that of the groups: a program belongs to the
first group that lists it.

## Main results

* `SupervisorConfig.resolvePrograms_eq_ok_iff`: what a resolution stores are the instances.
* `SupervisorConfig.orderInsensitive_iff`: a checked configuration resolves alike in all orders
  exactly when no program is in two groups, or it resolves in no order.
-/

namespace Rsupervisord

namespace SupervisorConfig

variable {c : SupervisorConfig} {env : ResolveEnv} {o : ResolveOrders}

/-! ## The instances of a configuration -/

/-- Store instances one after the other. -/
def insertAll (message : String → String) (resolved : ProgramConfigs)
    (es : List (String × ProgramConfig)) : Except ProgramError ProgramConfigs :=
  es.foldlM (fun resolved e => insertInstance resolved e.1 e.2 (message e.1)) resolved

/-- Instances are stored when their names are distinct and none is taken. -/
theorem insertAll_eq_ok_iff {message : String → String} {resolved resolved' : ProgramConfigs}
    {es : List (String × ProgramConfig)} :
    insertAll message resolved es = .ok resolved' ↔
      (es.map Prod.fst).Nodup ∧ (∀ e ∈ es, e.1 ∉ resolved) ∧ resolved' = resolved.extend es := by
  induction es generalizing resolved with
  | nil =>
    simp only [insertAll, List.foldlM_nil, List.map_nil, List.nodup_nil, List.not_mem_nil,
      HashMap.extend, List.foldl_nil]
    constructor
    · intro h
      exact ⟨trivial, by simp, (Except.ok.inj h).symm⟩
    · rintro ⟨-, -, rfl⟩
      rfl
  | cons e es ih =>
    rw [insertAll, List.foldlM_cons, Except.bind_eq_ok, List.map_cons, List.nodup_cons,
      List.forall_mem_cons]
    have hmem (k : String) : k ∈ resolved.insert e.1 e.2 ↔ k = e.1 ∨ k ∈ resolved :=
      AList.mem_insert resolved
    constructor
    · rintro ⟨resolved₁, hinsert, hrest⟩
      rw [insertInstance] at hinsert
      split at hinsert
      next => contradiction
      next hfree =>
        obtain rfl := Except.ok.inj hinsert
        obtain ⟨hnodup, hnot, rfl⟩ := ih.mp hrest
        simp only [hmem, not_or] at hnot
        refine ⟨⟨?_, hnodup⟩, ⟨hfree, fun e' he' => (hnot e' he').2⟩, rfl⟩
        intro htwice
        obtain ⟨e', he', heq⟩ := List.mem_map.mp htwice
        exact (hnot e' he').1 heq
    · rintro ⟨⟨honce, hnodup⟩, ⟨hfree, hnot⟩, rfl⟩
      refine ⟨resolved.insert e.1 e.2, ?_, ih.mpr ⟨hnodup, ?_, rfl⟩⟩
      · rw [insertInstance, if_neg hfree]
        rfl
      · intro e' he'
        rw [hmem, not_or]
        refine ⟨?_, hnot e' he'⟩
        intro heq
        exact honce (heq ▸ List.mem_map_of_mem he')

/-- A program section and the names of its instances. -/
def sectionNames (c : SupervisorConfig) (env : ResolveEnv) (e : String × ProgramConfigRaw) :
    Except ProgramError (String × List String) := do
  let (baseName, raw) := e
  let numprocs := (raw.numprocs <|> c.programDefaults.numprocs).getD 1
  let numprocsStart := (raw.numprocsStart <|> c.programDefaults.numprocsStart).getD 0
  let names ← c.instanceNames env baseName (c.groupOf env baseName raw) numprocs numprocsStart
    (raw.processName <|> c.programDefaults.processName)
  return (baseName, names)

/-- The instances of a program section with their configurations. -/
def programEntries (c : SupervisorConfig) (env : ResolveEnv)
    (programInstances : HashMap String (List String)) (e : String × ProgramConfigRaw) :
    Except ProgramError (List (String × ProgramConfig)) := do
  let (baseName, raw) := e
  let numprocs := (raw.numprocs <|> c.programDefaults.numprocs).getD 1
  let numprocsStart := (raw.numprocsStart <|> c.programDefaults.numprocsStart).getD 0
  let priority := (raw.priority <|> c.programDefaults.priority).getD defaultPriority
  if priority > maxPriority then
    throw (.configError
      s!"Program '{baseName}' priority {priority} must be in range [0, 999]")
  let group := c.groupOf env baseName raw
  let dependsOn := expandDependsOn programInstances raw.dependsOn
  let instances := (programInstances.lookup baseName).getD []
  instances.zipIdx.mapM fun e => do
    let (instanceName, idx) := e
    let prog ← c.resolveInstance env baseName raw group priority dependsOn instanceName
      (numprocsStart + idx) numprocs
    return (instanceName, prog)

/-- The instances of an event listener section with their configurations. -/
def listenerEntries (c : SupervisorConfig) (env : ResolveEnv)
    (e : String × EventListenerConfigRaw) :
    Except ProgramError (List (String × ProgramConfig)) := do
  let (listenerName, raw) := e
  let numprocs := raw.numprocs.getD 1
  let numprocsStart := raw.numprocsStart.getD 0
  let instances ← c.instanceNames env listenerName listenerName numprocs numprocsStart
    raw.processName
  instances.zipIdx.mapM fun e => do
    let (instanceName, idx) := e
    let prog ← c.resolveListenerInstance env listenerName raw instanceName
      (numprocsStart + idx) numprocs
    return (instanceName, prog)

/-- All instances of a configuration, in the orders of its maps. -/
def instances (c : SupervisorConfig) (env : ResolveEnv) :
    Except ProgramError (List (String × ProgramConfig)) := do
  let names ← (c.programs.iter env.orders.programs).mapM (c.sectionNames env)
  let programs ← (c.programs.iter env.orders.programs).mapM
    (c.programEntries env (HashMap.extend ∅ names))
  let listeners ← (c.eventListeners.iter env.orders.eventListeners).mapM (c.listenerEntries env)
  return programs.flatten ++ listeners.flatten

/-- A fold that stores the instances of each element of a list. -/
theorem foldlM_insertAll {α : Type} {f : ProgramConfigs → α → Except ProgramError ProgramConfigs}
    {entries : α → Except ProgramError (List (String × ProgramConfig))}
    {message : String → String}
    (hf : ∀ resolved a resolved', f resolved a = .ok resolved' ↔
      ∃ es, entries a = .ok es ∧ insertAll message resolved es = .ok resolved')
    {l : List α} {resolved resolved' : ProgramConfigs} :
    l.foldlM f resolved = .ok resolved' ↔
      ∃ ess, l.mapM entries = .ok ess ∧ insertAll message resolved ess.flatten = .ok resolved' := by
  rw [Except.foldlM_bind_eq_ok_iff hf]
  refine exists_congr fun ess => and_congr_right fun _ => ?_
  exact Eq.congr_left Except.foldlM_flatten

/-- The steps of a fold over numbered names. -/
theorem foldlM_numbered (resolve : String → ℕ → Except ProgramError ProgramConfig)
    (message : String → String) {l : List (String × ℕ)} {resolved resolved' : ProgramConfigs} :
    l.foldlM (fun resolved e => do
        let prog ← resolve e.1 e.2
        insertInstance resolved e.1 prog (message e.1)) resolved = .ok resolved' ↔
      ∃ es, (l.mapM fun e => do
          let prog ← resolve e.1 e.2
          return (e.1, prog)) = .ok es ∧
        insertAll message resolved es = .ok resolved' := by
  refine Except.foldlM_bind_eq_ok_iff ?_
  intro s e s'
  simp only [Except.bind_eq_ok]
  constructor
  · rintro ⟨prog, hprog, hinsert⟩
    exact ⟨_, ⟨prog, hprog, rfl⟩, hinsert⟩
  · rintro ⟨_, ⟨prog, hprog, heq⟩, hinsert⟩
    obtain rfl := Except.ok.inj heq
    exact ⟨prog, hprog, hinsert⟩

/-- The instances of one program section are stored. -/
theorem resolveProgram_eq_ok_iff {programInstances : HashMap String (List String)}
    (resolved : ProgramConfigs) (e : String × ProgramConfigRaw) (resolved' : ProgramConfigs) :
    c.resolveProgram env programInstances resolved e = .ok resolved' ↔
      ∃ es, c.programEntries env programInstances e = .ok es ∧
        insertAll (fun name =>
          s!"Duplicate program instance name '{name}' produced during expansion")
          resolved es = .ok resolved' := by
  obtain ⟨baseName, raw⟩ := e
  simp only [resolveProgram, programEntries]
  split
  · constructor
    · intro h
      contradiction
    · rintro ⟨_, h, _⟩
      contradiction
  · exact foldlM_numbered
      (fun name idx => c.resolveInstance env baseName raw (c.groupOf env baseName raw)
        ((raw.priority <|> c.programDefaults.priority).getD defaultPriority)
        (expandDependsOn programInstances raw.dependsOn) name
        ((raw.numprocsStart <|> c.programDefaults.numprocsStart).getD 0 + idx)
        ((raw.numprocs <|> c.programDefaults.numprocs).getD 1))
      (fun name => s!"Duplicate program instance name '{name}' produced during expansion")

/-- The instances of one event listener section are stored. -/
theorem resolveEventListener_eq_ok_iff (resolved : ProgramConfigs)
    (e : String × EventListenerConfigRaw) (resolved' : ProgramConfigs) :
    c.resolveEventListener env resolved e = .ok resolved' ↔
      ∃ es, c.listenerEntries env e = .ok es ∧
        insertAll (fun name => s!"Duplicate program/eventlistener instance name '{name}'")
          resolved es = .ok resolved' := by
  obtain ⟨listenerName, raw⟩ := e
  simp only [resolveEventListener, listenerEntries, Except.bind_eq_ok]
  have hstored (names : List (String × ℕ)) := @foldlM_numbered
    (fun name idx => c.resolveListenerInstance env listenerName raw name
      (raw.numprocsStart.getD 0 + idx) (raw.numprocs.getD 1))
    (fun name => s!"Duplicate program/eventlistener instance name '{name}'") names resolved
    resolved'
  simp only [hstored]
  constructor
  · rintro ⟨names, hnames, es, hes, h⟩
    exact ⟨es, ⟨names, hnames, hes⟩, h⟩
  · rintro ⟨es, ⟨names, hnames, hes⟩, h⟩
    exact ⟨names, hnames, es, hes, h⟩

/-- The names of the first phase, by program section. -/
theorem addInstances_eq_ok_iff {programInstances : HashMap String (List String)} :
    (c.programs.iter env.orders.programs).foldlM (c.addInstances env) ∅ = .ok programInstances ↔
      ∃ names, (c.programs.iter env.orders.programs).mapM (c.sectionNames env) = .ok names ∧
        HashMap.extend ∅ names = programInstances := by
  have hextend (names : List (String × List String)) (m : HashMap String (List String)) :
      names.foldlM (fun m e => (.ok (m.insert e.1 e.2) : Except ProgramError _)) m =
        .ok (m.extend names) := by
    induction names generalizing m with
    | nil => rfl
    | cons e names ih => exact ih _
  have hstep (m : HashMap String (List String)) (e : String × ProgramConfigRaw)
      (m' : HashMap String (List String)) : c.addInstances env m e = .ok m' ↔
        ∃ b, c.sectionNames env e = .ok b ∧
          (.ok (m.insert b.1 b.2) : Except ProgramError _) = .ok m' := by
    obtain ⟨baseName, raw⟩ := e
    simp only [addInstances, sectionNames, Except.bind_eq_ok]
    constructor
    · rintro ⟨names, hnames, h⟩
      exact ⟨_, ⟨names, hnames, rfl⟩, h⟩
    · rintro ⟨_, ⟨names, hnames, heq⟩, h⟩
      obtain rfl := Except.ok.inj heq
      exact ⟨names, hnames, h⟩
  rw [Except.foldlM_bind_eq_ok_iff hstep]
  simp only [hextend, Except.ok.injEq]

/-- A resolution stores the instances of the configuration when their names are distinct and no
rotated file is shared. -/
theorem resolvePrograms_eq_ok_iff {resolved : ProgramConfigs} :
    c.resolvePrograms env = .ok resolved ↔
      ∃ es, c.instances env = .ok es ∧ (es.map Prod.fst).Nodup ∧ resolved = HashMap.extend ∅ es ∧
        c.checkLogFiles env resolved = .ok () := by
  simp only [resolvePrograms, instances, Except.bind_eq_ok, addInstances_eq_ok_iff,
    foldlM_insertAll resolveProgram_eq_ok_iff, foldlM_insertAll resolveEventListener_eq_ok_iff,
    insertAll_eq_ok_iff]
  have hextend (l l' : List (String × ProgramConfig)) :
      HashMap.extend ∅ (l ++ l') = (HashMap.extend ∅ l).extend l' := List.foldl_append
  have hmem (l : List (String × ProgramConfig)) (hl : (l.map Prod.fst).Nodup) (name : String) :
      name ∈ (HashMap.extend ∅ l : ProgramConfigs) ↔ name ∈ l.map Prod.fst := by
    simp only [HashMap.mem_iff_lookup, HashMap.lookup_extend_empty hl, List.mem_map, Prod.exists,
      exists_and_right, exists_eq_right]
  constructor
  · rintro ⟨_, ⟨names, hnames, rfl⟩, _, ⟨ps, hps, hpsNodup, -, rfl⟩, _,
      ⟨ls, hls, hlsNodup, hnew, rfl⟩, _, hcheck, h⟩
    obtain rfl := Except.ok.inj h
    refine ⟨_, ⟨names, hnames, ps, hps, ls, hls, rfl⟩, ?_, (hextend _ _).symm, hcheck⟩
    rw [List.map_append]
    refine List.nodup_append.mpr ⟨hpsNodup, hlsNodup, ?_⟩
    rintro name hname _ hname' rfl
    obtain ⟨e, he, rfl⟩ := List.mem_map.mp hname'
    exact hnew e he ((hmem _ hpsNodup _).mpr hname)
  · rintro ⟨_, ⟨names, hnames, ps, hps, ls, hls, hes⟩, hnodup, rfl, hcheck⟩
    obtain rfl := Except.ok.inj hes
    rw [List.map_append] at hnodup
    obtain ⟨hpsNodup, hlsNodup, hdisjoint⟩ := List.nodup_append.mp hnodup
    refine ⟨_, ⟨names, hnames, rfl⟩, _, ⟨ps, hps, hpsNodup, ?_, rfl⟩, _,
      ⟨ls, hls, hlsNodup, ?_, rfl⟩, (), ?_, ?_⟩
    · exact fun e _ => AList.notMem_empty e.1
    · intro e he hold
      exact hdisjoint _ ((hmem _ hpsNodup _).mp hold) _ (List.mem_map_of_mem he) rfl
    · rwa [← hextend]
    · rw [← hextend]
      rfl

end SupervisorConfig

/-! ## Evaluation in another order -/

namespace ResolveEnv

variable {env : ResolveEnv} {vars vars' : HashMap String String}

/-- The evaluation of expressions depends on the values of the variables only. -/
def EvaluatesValues (env : ResolveEnv) : Prop :=
  ∀ vars vars' : HashMap String String, vars.Same vars' → env.evalNamed vars = env.evalNamed vars'

/-- The evaluation of the source has this property. -/
theorem evaluatesValues_of_evalNamed (h : env.evalNamed = StringExpression.evalNamed) :
    env.EvaluatesValues := by
  intro vars vars' hsame
  rw [h]
  funext text contextName
  exact StringExpression.evalNamed_congr hsame text contextName

theorem EvaluatesValues.eval_eq (henv : env.EvaluatesValues) (h : vars.Same vars') :
    env.eval vars = env.eval vars' := by
  funext text contextName
  rw [eval, eval, henv vars vars' h]

theorem EvaluatesValues.evalOption_eq (henv : env.EvaluatesValues) (h : vars.Same vars') :
    env.evalOption vars = env.evalOption vars' := by
  funext text contextName
  simp only [evalOption, henv.eval_eq h]

theorem EvaluatesValues.commandAndArgs_eq (henv : env.EvaluatesValues) (h : vars.Same vars') :
    env.commandAndArgs vars = env.commandAndArgs vars' := by
  funext command args
  simp only [commandAndArgs, henv.eval_eq h]

/-- The entries of an environment may be evaluated in any order. -/
theorem EvaluatesValues.evalEnvironment_perm (henv : env.EvaluatesValues) (h : vars.Same vars')
    {contextName : String → String} {l l' : List (String × String)} (hl : l.Perm l')
    (hnodup : (l.map Prod.fst).Nodup) {m : Finmap fun _ : String => String}
    (hm : env.evalEnvironment vars contextName l = .ok m) :
    env.evalEnvironment vars' contextName l' = .ok m := by
  have hstep (vars : HashMap String String) (m : Finmap fun _ : String => String)
      (e : String × String) (m' : Finmap fun _ : String => String) :
      (do let v ← env.eval vars e.2 (contextName e.1)
          return m.insert e.1 v) = (.ok m' : Except ProgramError _) ↔
        ∃ b, (do let v ← env.eval vars e.2 (contextName e.1)
                 return (e.1, v)) = (.ok b : Except ProgramError (String × String)) ∧
          (.ok (m.insert b.1 b.2) : Except ProgramError _) = .ok m' := by
    simp only [Except.bind_eq_ok]
    constructor
    · rintro ⟨v, hv, hm'⟩
      exact ⟨_, ⟨v, hv, rfl⟩, hm'⟩
    · rintro ⟨_, ⟨v, hv, heq⟩, hm'⟩
      obtain rfl := Except.ok.inj heq
      exact ⟨v, hv, hm'⟩
  have hfold (l : List (String × String)) (m : Finmap fun _ : String => String) :
      l.foldlM (fun m e => (.ok (m.insert e.1 e.2) : Except ProgramError _)) m =
        .ok (l.foldl (fun m e => m.insert e.1 e.2) m) := by
    induction l generalizing m with
    | nil => rfl
    | cons e l ih => exact ih _
  rw [evalEnvironment, Except.foldlM_bind_eq_ok_iff (hstep _)] at hm ⊢
  obtain ⟨bs, hbs, hm⟩ := hm
  rw [henv.eval_eq h] at hbs
  obtain ⟨bs', hbs', hperm⟩ := Except.mapM_perm hl hbs
  refine ⟨bs', hbs', ?_⟩
  have hkeys : bs.map Prod.fst = l.map Prod.fst := by
    refine Except.map_eq_of_mapM ?_ hbs
    intro e _ b hb
    obtain ⟨v, _, heq⟩ := Except.bind_eq_ok.mp hb
    obtain rfl := Except.ok.inj heq
    rfl
  rw [hfold] at hm ⊢
  rw [← hm]
  refine congrArg Except.ok (hperm.symm.foldl_eq' ?_ ∅)
  intro x hx y hy m
  -- Entries with different keys may be swapped, and one key has one entry.
  by_cases hkey : x.1 = y.1
  · have hnodup' : (bs'.map Prod.fst).Nodup := (hperm.map _).nodup_iff.mp (hkeys ▸ hnodup)
    rw [List.inj_on_of_nodup_map hnodup' hx hy hkey]
  · exact Finmap.insert_insert_of_ne m hkey

end ResolveEnv

namespace SupervisorConfig

variable {c : SupervisorConfig} {env : ResolveEnv} {o : ResolveOrders}

/-- The entries of an environment may be seeded in any order. -/
theorem seedEnvironment_same {vars vars' : HashMap String String} (h : vars.Same vars')
    {l l' : List (String × String)} (hl : l.Perm l') (hnodup : (l.map Prod.fst).Nodup) :
    (seedEnvironment vars l).Same (seedEnvironment vars' l') := by
  have hextend (vars : HashMap String String) (l : List (String × String)) :
      seedEnvironment vars l = vars.extend (l.map fun e => ("ENV_" ++ e.1, e.2)) := by
    rw [seedEnvironment, HashMap.extend, List.foldl_map]
  rw [hextend, hextend]
  refine h.extend (hl.map _) ?_
  rw [List.map_map]
  have hinj : Function.Injective fun name : String => "ENV_" ++ name := by
    intro name name' heq
    have hchars := congrArg String.toList heq
    rw [String.toList_append, String.toList_append] at hchars
    exact String.toList_inj.mp (List.append_cancel_left hchars)
  have hkeys := hnodup.map hinj
  rwa [List.map_map] at hkeys

/-- The variables of an instance do not depend on the orders. -/
theorem seeded_same (vars : HashMap String String) (m m' : HashMap String String)
    (o₁ o₁' o₂ o₂' : HashOrder String) :
    (seedEnvironment (seedEnvironment vars (m.iter o₁)) (m'.iter o₂)).Same
      (seedEnvironment (seedEnvironment vars (m.iter o₁')) (m'.iter o₂')) :=
  seedEnvironment_same
    (seedEnvironment_same (.refl vars) ((HashMap.Same.refl m).iter_perm _ _)
      HashMap.nodup_map_fst_iter)
    ((HashMap.Same.refl m').iter_perm _ _) HashMap.nodup_map_fst_iter

theorem resolveLogs_eq (henv : env.EvaluatesValues) {vars vars' : HashMap String String}
    (h : vars.Same vars') (instanceName : String) (raw : ProgramConfigRaw) :
    c.resolveLogs env vars instanceName raw = c.resolveLogs env vars' instanceName raw := by
  simp only [resolveLogs, henv.evalOption_eq h]

theorem resolveHealthCheck_eq (henv : env.EvaluatesValues) {vars vars' : HashMap String String}
    (h : vars.Same vars') (raw : ProgramConfigRaw) :
    c.resolveHealthCheck env vars raw = c.resolveHealthCheck env vars' raw := by
  simp only [resolveHealthCheck, henv.eval_eq h]

/-- A program instance resolves alike in other orders. -/
theorem resolveInstance_orders (henv : env.EvaluatesValues) {baseName : String}
    {raw : ProgramConfigRaw} {group : String} {priority : ℕ} {dependsOn : List String}
    {instanceName : String} {processNum numprocs : ℕ} {cfg : ProgramConfig}
    (h : c.resolveInstance env baseName raw group priority dependsOn instanceName processNum
      numprocs = .ok cfg) :
    c.resolveInstance { env with orders := o } baseName raw group priority dependsOn instanceName
      processNum numprocs = .ok cfg := by
  have hsame := seeded_same (c.programContext env baseName group processNum numprocs) c.environment
    raw.environment env.orders.environment o.environment
    (env.orders.programEnvironment baseName) (o.programEnvironment baseName)
  have hentries := (HashMap.Same.refl raw.environment).iter_perm
    (env.orders.programEnvironment baseName) (o.programEnvironment baseName)
  have hcommand := henv.commandAndArgs_eq hsame
  have hoption := henv.evalOption_eq hsame
  simp only [resolveInstance, Except.bind_eq_ok] at h ⊢
  obtain ⟨r₁, h₁, r₂, h₂, r₃, h₃, r₄, h₄, r₅, h₅, r₆, h₆, r₇, h₇, r₈, h₈, r₉, h₉, r₁₀, h₁₀, h⟩ := h
  refine ⟨r₁, (congrFun₂ hcommand _ _).symm.trans h₁, r₂, (congrFun₂ hoption _ _).symm.trans h₂,
    r₃, henv.evalEnvironment_perm hsame hentries HashMap.nodup_map_fst_iter h₃,
    r₄, (resolveLogs_eq henv hsame _ _).symm.trans h₄,
    r₅, (resolveHealthCheck_eq henv hsame _).symm.trans h₅, ?_⟩
  exact ⟨r₆, (congrFun₂ hoption _ _).symm.trans h₆, r₇, (congrFun₂ hoption _ _).symm.trans h₇,
    r₈, (congrFun₂ hoption _ _).symm.trans h₈, r₉, (congrFun₂ hoption _ _).symm.trans h₉,
    r₁₀, (congrFun₂ hoption _ _).symm.trans h₁₀, h⟩

/-- An event listener instance resolves alike in other orders. -/
theorem resolveListenerInstance_orders (henv : env.EvaluatesValues) {listenerName : String}
    {raw : EventListenerConfigRaw} {instanceName : String} {processNum numprocs : ℕ}
    {cfg : ProgramConfig} (h : c.resolveListenerInstance env listenerName raw instanceName
      processNum numprocs = .ok cfg) :
    c.resolveListenerInstance { env with orders := o } listenerName raw instanceName processNum
      numprocs = .ok cfg := by
  have hsame := seeded_same (c.programContext env listenerName listenerName processNum numprocs)
    c.environment raw.environment env.orders.environment o.environment
    (env.orders.listenerEnvironment listenerName) (o.listenerEnvironment listenerName)
  have hentries := (HashMap.Same.refl raw.environment).iter_perm
    (env.orders.listenerEnvironment listenerName) (o.listenerEnvironment listenerName)
  have hoption := henv.evalOption_eq hsame
  simp only [resolveListenerInstance, Except.bind_eq_ok] at h ⊢
  obtain ⟨r₁, h₁, r₂, h₂, r₃, h₃, r₄, h₄, h⟩ := h
  exact ⟨r₁, (congrFun₂ (henv.commandAndArgs_eq hsame) _ _).symm.trans h₁,
    r₂, (congrFun₂ hoption _ _).symm.trans h₂,
    r₃, henv.evalEnvironment_perm hsame hentries HashMap.nodup_map_fst_iter h₃,
    r₄, (congrFun₂ hoption _ _).symm.trans h₄, h⟩

/-! ## Instances in another order -/

/-- The section names keep their section. -/
theorem sectionNames_fst {e : String × ProgramConfigRaw} {b : String × List String}
    (h : c.sectionNames env e = .ok b) : b.1 = e.1 := by
  obtain ⟨names, _, heq⟩ := Except.bind_eq_ok.mp h
  obtain rfl := Except.ok.inj heq
  rfl

/-- A program section resolves alike in other orders that put it into the same group. -/
theorem programEntries_orders (henv : env.EvaluatesValues)
    {programInstances programInstances' : HashMap String (List String)}
    (hinstances : programInstances.Same programInstances') {e : String × ProgramConfigRaw}
    (hgroup : c.groupOf { env with orders := o } e.1 e.2 = c.groupOf env e.1 e.2)
    {es : List (String × ProgramConfig)} (h : c.programEntries env programInstances e = .ok es) :
    c.programEntries { env with orders := o } programInstances' e = .ok es := by
  have hdepends (dependsOn : List String) : expandDependsOn programInstances' dependsOn =
      expandDependsOn programInstances dependsOn := by
    simp only [expandDependsOn, fun dep => (hinstances dep).symm]
  obtain ⟨baseName, raw⟩ := e
  simp only [programEntries, hdepends, ← hinstances baseName, hgroup] at h ⊢
  split at h
  · contradiction
  next hpriority =>
    rw [if_neg hpriority]
    refine Except.mapM_of_forall ?_ h
    intro e _ b hb
    obtain ⟨prog, hprog, heq⟩ := Except.bind_eq_ok.mp hb
    exact Except.bind_eq_ok.mpr ⟨prog, resolveInstance_orders henv hprog, heq⟩

/-- An event listener section resolves alike in other orders. -/
theorem listenerEntries_orders (henv : env.EvaluatesValues) {e : String × EventListenerConfigRaw}
    {es : List (String × ProgramConfig)} (h : c.listenerEntries env e = .ok es) :
    c.listenerEntries { env with orders := o } e = .ok es := by
  simp only [listenerEntries, Except.bind_eq_ok] at h ⊢
  obtain ⟨names, hnames, h⟩ := h
  refine ⟨names, hnames, Except.mapM_of_forall ?_ h⟩
  intro e _ b hb
  obtain ⟨prog, hprog, heq⟩ := Except.bind_eq_ok.mp hb
  exact Except.bind_eq_ok.mpr ⟨prog, resolveListenerInstance_orders henv hprog, heq⟩

/-- A configuration has the same instances in other orders that put each program into the same
group. -/
theorem instances_orders (henv : env.EvaluatesValues)
    (hgroup : ∀ baseName raw, c.programs.lookup baseName = some raw →
      c.groupOf { env with orders := o } baseName raw = c.groupOf env baseName raw)
    {es : List (String × ProgramConfig)} (h : c.instances env = .ok es) :
    ∃ es', c.instances { env with orders := o } = .ok es' ∧ es.Perm es' := by
  simp only [instances, Except.bind_eq_ok] at h ⊢
  obtain ⟨names, hnames, ps, hps, ls, hls, heq⟩ := h
  obtain rfl := Except.ok.inj heq
  have hprograms := (HashMap.Same.refl c.programs).iter_perm env.orders.programs o.programs
  have hlisteners :=
    (HashMap.Same.refl c.eventListeners).iter_perm env.orders.eventListeners o.eventListeners
  have hentry (e : String × ProgramConfigRaw) (he : e ∈ c.programs.iter env.orders.programs) :=
    hgroup e.1 e.2 (HashMap.mem_iter.mp he)
  have hnamed : (c.programs.iter env.orders.programs).mapM
      (c.sectionNames { env with orders := o }) = .ok names := by
    refine Except.mapM_of_forall ?_ hnames
    intro e he b hb
    simp only [sectionNames, hentry e he] at hb ⊢
    exact hb
  obtain ⟨names', hnames', hperm⟩ := Except.mapM_perm hprograms hnamed
  -- The sections are distinct, so that their names may be stored in any order.
  have hnodup : (names.map Prod.fst).Nodup := by
    rw [Except.map_eq_of_mapM (fun _ _ _ => sectionNames_fst) hnames]
    exact HashMap.nodup_map_fst_iter
  have hinstances := (HashMap.Same.refl (∅ : HashMap String (List String))).extend hperm hnodup
  obtain ⟨ps', hps', hpsPerm⟩ := Except.mapM_perm hprograms (Except.mapM_of_forall
    (fun e he es hes => programEntries_orders henv hinstances (hentry e he) hes) hps)
  obtain ⟨ls', hls', hlsPerm⟩ := Except.mapM_perm hlisteners (Except.mapM_of_forall
    (fun e _ es hes => listenerEntries_orders (o := o) henv hes) hls)
  exact ⟨_, ⟨names', hnames', ps', hps', ls', hls', rfl⟩, hpsPerm.flatten.append hlsPerm.flatten⟩

/-- The log check does not depend on the orders. -/
theorem checkLogFiles_orders {resolved resolved' : ProgramConfigs}
    (hsame : resolved.Same resolved') (h : c.checkLogFiles env resolved = .ok ()) :
    c.checkLogFiles { env with orders := o } resolved' = .ok () := by
  rw [checkLogFiles_eq_ok_iff] at h ⊢
  have hstreams : (c.allStreams env resolved).Perm
      (c.allStreams { env with orders := o } resolved') :=
    ((hsame.iter_perm _ _).flatMap_right _).append_left _
  intro path hcompete
  have hpath := hstreams.symm.filter fun s => UnixPath.components s.path = path
  obtain ⟨hlength, s, hs, hrotating⟩ := hcompete
  exact h path ⟨hpath.length_eq ▸ hlength, s, hpath.mem_iff.mp hs, hrotating⟩

/-- A configuration resolves to the same map in other orders that put each program into the same
group. -/
theorem resolvePrograms_orders (henv : env.EvaluatesValues)
    (hgroup : ∀ baseName raw, c.programs.lookup baseName = some raw →
      c.groupOf { env with orders := o } baseName raw = c.groupOf env baseName raw)
    {resolved : ProgramConfigs} (h : c.resolvePrograms env = .ok resolved) :
    ∃ resolved', c.resolvePrograms { env with orders := o } = .ok resolved' ∧
      resolved.Same resolved' := by
  obtain ⟨es, hes, hnodup, rfl, hcheck⟩ := resolvePrograms_eq_ok_iff.mp h
  obtain ⟨es', hes', hperm⟩ := instances_orders henv hgroup hes
  have hsame : (HashMap.extend ∅ es : ProgramConfigs).Same (HashMap.extend ∅ es') :=
    (HashMap.Same.refl _).extend hperm hnodup
  refine ⟨_, resolvePrograms_eq_ok_iff.mpr ⟨es', hes', ?_, rfl, ?_⟩, hsame⟩
  · exact (hperm.map _).nodup_iff.mp hnodup
  · exact checkLogFiles_orders hsame hcheck

/-! ## The order of the groups -/

/-- A group lists a program. -/
def Lists (c : SupervisorConfig) (g baseName : String) : Prop :=
  ∃ group, c.groups.lookup g = some group ∧ baseName ∈ group.programs

/-- No program without a group of its own is listed by two groups. -/
def GroupsUnambiguous (c : SupervisorConfig) : Prop :=
  ∀ baseName raw, c.programs.lookup baseName = some raw → raw.group = none →
    ∀ g g', c.Lists g baseName → c.Lists g' baseName → g = g'

/-- The first group that lists a program. -/
def firstGroup (c : SupervisorConfig) (o : HashOrder String) (baseName : String) : Option String :=
  ((c.groups.iter o).find? fun e => e.2.programs.contains baseName).map Prod.fst

theorem groupOf_eq {baseName : String} {raw : ProgramConfigRaw} (h : raw.group = none) :
    c.groupOf env baseName raw = (c.firstGroup env.orders.groups baseName).getD baseName := by
  rw [groupOf, h]
  rfl

/-- The first group that lists a program lists it. -/
theorem lists_of_firstGroup {o : HashOrder String} {g baseName : String}
    (h : c.firstGroup o baseName = some g) : c.Lists g baseName := by
  obtain ⟨⟨_, group⟩, hfind, rfl⟩ := Option.map_eq_some_iff.mp h
  refine ⟨group, HashMap.mem_iter.mp (List.mem_of_find?_eq_some hfind), ?_⟩
  simpa using List.find?_some hfind

/-- A program that a group lists has a first group. -/
theorem firstGroup_eq_none_iff {o : HashOrder String} {baseName : String} :
    c.firstGroup o baseName = none ↔ ∀ g, ¬ c.Lists g baseName := by
  rw [firstGroup, Option.map_eq_none_iff, List.find?_eq_none]
  constructor
  · rintro hnone g ⟨group, hgroup, hmem⟩
    exact hnone (g, group) (HashMap.mem_iter.mpr hgroup) (by simpa using hmem)
  · rintro hnone ⟨g, group⟩ hgroup hmem
    exact hnone g ⟨group, HashMap.mem_iter.mp hgroup, by simpa using hmem⟩

/-- With unambiguous groups the order of the groups makes no difference. -/
theorem GroupsUnambiguous.groupOf_orders (h : c.GroupsUnambiguous) {baseName : String}
    {raw : ProgramConfigRaw} (hraw : c.programs.lookup baseName = some raw) :
    c.groupOf { env with orders := o } baseName raw = c.groupOf env baseName raw := by
  match hown : raw.group with
  | some g => simp only [groupOf, hown]
  | none =>
    rw [groupOf_eq hown, groupOf_eq hown]
    congr 1
    match hfirst : c.firstGroup env.orders.groups baseName with
    | none => exact firstGroup_eq_none_iff.mpr (firstGroup_eq_none_iff.mp hfirst)
    | some g =>
      match hother : c.firstGroup o.groups baseName with
      | none => exact absurd (lists_of_firstGroup hfirst) (firstGroup_eq_none_iff.mp hother g)
      | some g' =>
        exact congrArg some (h baseName raw hraw hown g' g (lists_of_firstGroup hother)
          (lists_of_firstGroup hfirst))

/-- A group that goes first takes the programs that it lists, and leaves the others alone. -/
theorem firstGroup_raise (o : HashOrder String) (g baseName : String) :
    (c.Lists g baseName ∧ c.firstGroup (o.raise g) baseName = some g) ∨
      ¬ c.Lists g baseName ∧ c.firstGroup (o.raise g) baseName = c.firstGroup o baseName := by
  have hlists (e : String × GroupConfigRaw) (he : e ∈ c.groups.iter o)
      (hmem : e.2.programs.contains baseName = true) : c.Lists e.1 baseName :=
    ⟨e.2, HashMap.mem_iter.mp he, by simpa using hmem⟩
  rw [firstGroup, firstGroup, HashMap.iter_raise, List.find?_append, List.find?_filter,
    List.find?_filter]
  by_cases hg : c.Lists g baseName
  · refine .inl ⟨hg, ?_⟩
    obtain ⟨group, hgroup, hmem⟩ := hg
    match hfind : (c.groups.iter o).find? fun e =>
        decide (decide (e.1 = g) = true ∧ e.2.programs.contains baseName = true) with
    | some e =>
      have hfound := List.find?_some hfind
      simp only [decide_eq_true_eq] at hfound
      rw [hfind, Option.some_or]
      exact congrArg some hfound.1
    | none =>
      have hnone := List.find?_eq_none.mp hfind (g, group) (HashMap.mem_iter.mpr hgroup)
      simp [hmem] at hnone
  · refine .inr ⟨hg, ?_⟩
    have hfirst : ((c.groups.iter o).find? fun e =>
        decide (decide (e.1 = g) = true ∧ e.2.programs.contains baseName = true)) = none := by
      rw [List.find?_eq_none]
      intro e he hfound
      simp only [decide_eq_true_eq] at hfound
      exact hg (hfound.1 ▸ hlists e he hfound.2)
    rw [hfirst, Option.none_or]
    congr 1
    refine List.find?_congr fun e he => ?_
    by_cases heq : e.1 = g
    · have hmem : baseName ∉ e.2.programs :=
        fun hmem => hg (heq ▸ hlists e he (by simpa using hmem))
      simp [hmem]
    · simp [heq]

/-- A program with a group of its own stays in it, one that the first group lists is taken by it. -/
theorem groupOf_raise (g baseName : String) (raw : ProgramConfigRaw) :
    (raw.group = none ∧ c.Lists g baseName ∧
        c.groupOf { env with orders := { env.orders with groups := env.orders.groups.raise g } }
          baseName raw = g) ∨
      ¬ (raw.group = none ∧ c.Lists g baseName) ∧
        c.groupOf { env with orders := { env.orders with groups := env.orders.groups.raise g } }
          baseName raw = c.groupOf env baseName raw := by
  match hown : raw.group with
  | some own => exact .inr ⟨by simp, by simp only [groupOf, hown]⟩
  | none =>
    rw [groupOf_eq hown, groupOf_eq hown]
    obtain ⟨hg, hfirst⟩ | ⟨hg, hfirst⟩ :=
      @firstGroup_raise c env.orders.groups g baseName
    · exact .inl ⟨rfl, hg, by rw [hfirst]; rfl⟩
    · exact .inr ⟨fun h => hg h.2, by rw [hfirst]⟩

/-! ## Counting the members of a group -/

/-- The number of instances of a program section. -/
def numprocsOf (c : SupervisorConfig) (raw : ProgramConfigRaw) : ℕ :=
  (raw.numprocs <|> c.programDefaults.numprocs).getD 1

/-- A section has as many names as instances. -/
theorem length_instanceNames {baseName groupName : String} {numprocs numprocsStart : ℕ}
    {template : Option String} {names : List String} (h : c.instanceNames env baseName groupName
      numprocs numprocsStart template = .ok names) : names.length = numprocs := by
  rw [instanceNames] at h
  split at h
  next hone =>
    obtain rfl := Except.ok.inj h
    exact hone.1.symm
  next =>
    have hlength := (Except.mapM_eq_ok_iff.mp h).length_eq
    rw [List.length_range] at hlength
    exact hlength.symm

/-- A program instance is in the group of its section. -/
theorem resolveInstance_group {baseName : String} {raw : ProgramConfigRaw} {group : String}
    {priority : ℕ} {dependsOn : List String} {name : String} {processNum numprocs : ℕ}
    {cfg : ProgramConfig} (h : c.resolveInstance env baseName raw group priority dependsOn name
      processNum numprocs = .ok cfg) : cfg.group = group := by
  simp only [resolveInstance, Except.bind_eq_ok] at h
  obtain ⟨_, -, _, -, _, -, _, -, _, -, _, -, _, -, _, -, _, -, _, -, h⟩ := h
  split at h
  next => contradiction
  next =>
    obtain rfl := Except.ok.inj h
    rfl

/-- The instances of a group. -/
def groupCount (g : String) (es : List (String × ProgramConfig)) : ℕ :=
  es.countP fun e => e.2.group = g

/-- All instances of a section are in its group. -/
theorem groupCount_programEntries {programInstances : HashMap String (List String)}
    {e : String × ProgramConfigRaw} {names : List String}
    (hnames : programInstances.lookup e.1 = some names)
    (hlength : names.length = c.numprocsOf e.2) {es : List (String × ProgramConfig)}
    (h : c.programEntries env programInstances e = .ok es) (g : String) :
    groupCount g es = if c.groupOf env e.1 e.2 = g then c.numprocsOf e.2 else 0 := by
  obtain ⟨baseName, raw⟩ := e
  simp only [programEntries, hnames] at h
  split at h
  · contradiction
  · have hgroups : es.map (fun e => e.2.group) =
        (names.zipIdx).map fun _ => c.groupOf env baseName raw := by
      refine Except.map_eq_of_mapM ?_ h
      intro e _ b hb
      obtain ⟨prog, hprog, heq⟩ := Except.bind_eq_ok.mp hb
      obtain rfl := Except.ok.inj heq
      exact resolveInstance_group hprog
    have hcount : groupCount g es = (es.map fun e => e.2.group).countP (fun g' => g' = g) := by
      rw [List.countP_map]
      rfl
    rw [hcount, hgroups, List.map_const', List.length_zipIdx, hlength]
    by_cases hg : c.groupOf env baseName raw = g
    · simp [hg, List.countP_replicate]
    · simp [hg, List.countP_replicate]

/-- The instances of the program sections in a group. -/
theorem groupCount_programs {names : List (String × List String)}
    (hnames : (c.programs.iter env.orders.programs).mapM (c.sectionNames env) = .ok names)
    {ps : List (List (String × ProgramConfig))}
    (hps : (c.programs.iter env.orders.programs).mapM
      (c.programEntries env (HashMap.extend ∅ names)) = .ok ps) (g : String) :
    groupCount g ps.flatten = ((c.programs.iter env.orders.programs).map fun e =>
      if c.groupOf env e.1 e.2 = g then c.numprocsOf e.2 else 0).sum := by
  have hnodup : (names.map Prod.fst).Nodup := by
    rw [Except.map_eq_of_mapM (fun _ _ _ => sectionNames_fst) hnames]
    exact HashMap.nodup_map_fst_iter
  rw [groupCount, List.countP_flatten]
  congr 1
  refine Except.map_eq_of_mapM ?_ hps
  intro e he es hes
  obtain ⟨b, hb, hsection⟩ := Except.exists_mem_of_mapM hnames he
  have hfst := sectionNames_fst hsection
  refine @groupCount_programEntries c env _ e b.2 ?_ ?_ es hes g
  · exact (HashMap.lookup_extend_empty hnodup).mpr (hfst ▸ hb)
  · obtain ⟨names, hnames, heq⟩ := Except.bind_eq_ok.mp hsection
    obtain rfl := Except.ok.inj heq
    exact length_instanceNames hnames

/-- A group that goes first gains the instances of a program that it lists. -/
theorem groupCount_lt (hpositive : ∀ baseName raw, c.programs.lookup baseName = some raw →
      0 < c.numprocsOf raw) {baseName g : String} {raw : ProgramConfigRaw}
    (hraw : c.programs.lookup baseName = some raw) (hown : raw.group = none)
    (hg : c.Lists g baseName) (hother : c.groupOf env baseName raw ≠ g)
    {es es' : List (String × ProgramConfig)} (hes : c.instances env = .ok es)
    (hes' : c.instances
      { env with orders := { env.orders with groups := env.orders.groups.raise g } } = .ok es') :
    groupCount g es < groupCount g es' := by
  simp only [instances, Except.bind_eq_ok] at hes hes'
  obtain ⟨names, hnames, ps, hps, ls, hls, heq⟩ := hes
  obtain ⟨names', hnames', ps', hps', ls', hls', heq'⟩ := hes'
  obtain rfl := Except.ok.inj heq
  obtain rfl := Except.ok.inj heq'
  -- The groups have no part in the event listeners.
  obtain rfl : ls = ls' := Except.ok.inj (hls.symm.trans hls')
  rw [groupCount, groupCount, List.countP_append, List.countP_append]
  have hcount := groupCount_programs hnames hps g
  have hcount' := groupCount_programs hnames' hps' g
  rw [groupCount] at hcount hcount'
  rw [hcount, hcount']
  refine Nat.add_lt_add_right (List.sum_lt_sum _ _ ?_ ?_) _
  · intro e _
    obtain ⟨-, -, htaken⟩ | ⟨-, hsame⟩ := @groupOf_raise c env g e.1 e.2
    · rw [if_pos htaken]
      split
      · exact le_refl _
      · exact Nat.zero_le _
    · rw [hsame]
  · refine ⟨(baseName, raw), HashMap.mem_iter.mpr hraw, ?_⟩
    obtain ⟨-, -, htaken⟩ | ⟨hnot, -⟩ := @groupOf_raise c env g baseName raw
    · rw [if_pos htaken, if_neg hother]
      exact hpositive baseName raw hraw
    · exact absurd ⟨hown, hg⟩ hnot

/-! ## All orders -/

/-- In some order the sections resolve to instances with distinct names that share no rotated
file. -/
def Resolvable (c : SupervisorConfig) (env : ResolveEnv) : Prop :=
  ∃ (o : ResolveOrders) (es : List (String × ProgramConfig)),
    c.instances { env with orders := o } = .ok es ∧ (es.map Prod.fst).Nodup ∧
      c.checkLogFiles { env with orders := o } (HashMap.extend ∅ es) = .ok ()

/-- In any two orders a configuration resolves to the same map or not at all, and a reload in the
one after the other finds no differences. -/
def OrderInsensitive (c : SupervisorConfig) (env : ResolveEnv) : Prop :=
  ∀ o o' : ResolveOrders,
    Except.Agree HashMap.Same (c.resolvePrograms { env with orders := o })
        (c.resolvePrograms { env with orders := o' }) ∧
      ∀ resolved resolved', c.resolvePrograms { env with orders := o } = .ok resolved →
        c.resolvePrograms { env with orders := o' } = .ok resolved' →
        ∀ oldOrder newOrder,
        (ConfigDiff.compute oldOrder newOrder resolved resolved').isEmpty = true

/-- A checked program section has an instance. -/
theorem numprocsOf_pos {validateEnv : ValidateEnv} (h : c.validate validateEnv = .ok ())
    {baseName : String} {raw : ProgramConfigRaw} (hraw : c.programs.lookup baseName = some raw) :
    0 < c.numprocsOf raw := by
  obtain ⟨_, hprograms, -⟩ := Except.bind_eq_ok.mp h
  have hprogram := Except.eq_ok_of_forM hprograms
    (HashMap.mem_iter.mpr hraw : (baseName, raw) ∈ c.programs.iter validateEnv.programs)
  refine Nat.pos_of_ne_zero fun hzero => ?_
  have hnumprocs : (raw.numprocs <|> c.programDefaults.numprocs).getD 1 = 0 := hzero
  simp only [validateProgram, hnumprocs, if_true] at hprogram
  split at hprogram
  · exact absurd hprogram Except.throw_bind_ne_ok
  · split at hprogram
    · exact absurd hprogram Except.throw_bind_ne_ok
    · split at hprogram
      · exact absurd hprogram Except.throw_bind_ne_ok
      · obtain ⟨_, -, hprogram⟩ := Except.bind_eq_ok.mp hprogram
        obtain ⟨_, -, hprogram⟩ := Except.bind_eq_ok.mp hprogram
        exact absurd hprogram Except.throw_bind_ne_ok

/-- The exact condition: a checked configuration resolves alike in all orders exactly when no
program without a group of its own is listed by two groups, or it resolves in no order. -/
theorem orderInsensitive_iff {validateEnv : ValidateEnv} (hvalid : c.validate validateEnv = .ok ())
    (heval : env.evalNamed = StringExpression.evalNamed) :
    c.OrderInsensitive env ↔ c.GroupsUnambiguous ∨ ¬ c.Resolvable env := by
  constructor
  · intro hinsensitive
    by_contra hnot
    obtain ⟨hambiguous, hresolvable⟩ := not_or.mp hnot
    obtain ⟨o, es, hes, hnodup, hcheck⟩ := not_not.mp hresolvable
    rw [GroupsUnambiguous] at hambiguous
    push Not at hambiguous
    obtain ⟨baseName, raw, hraw, hown, g₁, g₂, hg₁, hg₂, hne⟩ := hambiguous
    -- Some group lists the program but is not its group in this order.
    obtain ⟨g, hg, hother⟩ : ∃ g, c.Lists g baseName ∧
        c.groupOf { env with orders := o } baseName raw ≠ g := by
      by_cases h₁ : c.groupOf { env with orders := o } baseName raw = g₁
      · exact ⟨g₂, hg₂, fun h₂ => hne (h₁.symm.trans h₂)⟩
      · exact ⟨g₁, hg₁, h₁⟩
    have hresolve := resolvePrograms_eq_ok_iff.mpr ⟨es, hes, hnodup, rfl, hcheck⟩
    obtain ⟨hagree, -⟩ := hinsensitive o { o with groups := o.groups.raise g }
    obtain ⟨resolved', hresolve', hsame⟩ := (Except.agree_iff.mp hagree).1 _ hresolve
    obtain ⟨es', hes', hnodup', rfl, -⟩ := resolvePrograms_eq_ok_iff.mp hresolve'
    -- The maps have the same entries, but more of them are in the group when it goes first.
    have hperm : es.Perm es' := by
      refine (List.perm_ext_iff_of_nodup hnodup.of_map hnodup'.of_map).mpr ?_
      rintro ⟨name, cfg⟩
      rw [← HashMap.lookup_extend_empty hnodup, ← HashMap.lookup_extend_empty hnodup', hsame name]
    have hlt := @groupCount_lt c { env with orders := o }
      (fun _ _ => numprocsOf_pos hvalid) baseName g raw hraw hown hg hother es es' hes hes'
    rw [groupCount, groupCount, hperm.countP_eq] at hlt
    exact lt_irrefl _ hlt
  · have hsame (resolved resolved' : ProgramConfigs)
        (h : resolved.Same resolved') (oldOrder newOrder : HashOrder String) :
        (ConfigDiff.compute oldOrder newOrder resolved resolved').isEmpty = true :=
      ConfigDiff.isEmpty_of_same h
    rintro (hunambiguous | hnever) o o'
    · have hresolve (o o' : ResolveOrders) (resolved : ProgramConfigs)
          (h : c.resolvePrograms { env with orders := o } = .ok resolved) :
          ∃ resolved', c.resolvePrograms { env with orders := o' } = .ok resolved' ∧
            resolved.Same resolved' :=
        @resolvePrograms_orders c { env with orders := o } o'
          (ResolveEnv.evaluatesValues_of_evalNamed heval)
          (fun _ _ hraw => hunambiguous.groupOf_orders hraw) resolved h
      refine ⟨Except.agree_iff.mpr ⟨hresolve o o', ?_⟩, ?_⟩
      · intro resolved' h'
        obtain ⟨resolved, h, hsame⟩ := hresolve o' o resolved' h'
        exact ⟨resolved, h, hsame.symm⟩
      · intro resolved resolved' h h' oldOrder newOrder
        obtain ⟨resolved₁, h₁, hsame₁⟩ := hresolve o o' resolved h
        obtain rfl := Except.ok.inj (h₁.symm.trans h')
        exact hsame _ _ hsame₁ oldOrder newOrder
    · have hfails (o : ResolveOrders) (resolved : ProgramConfigs) :
          c.resolvePrograms { env with orders := o } ≠ .ok resolved := by
        intro h
        obtain ⟨es, hes, hnodup, rfl, hcheck⟩ := resolvePrograms_eq_ok_iff.mp h
        exact hnever ⟨o, es, hes, hnodup, hcheck⟩
      refine ⟨Except.agree_iff.mpr ⟨?_, ?_⟩, ?_⟩
      · exact fun resolved h => absurd h (hfails o resolved)
      · exact fun resolved h => absurd h (hfails o' resolved)
      · exact fun resolved _ h => absurd h (hfails o resolved)

/-- A web server that each of the groups lists. -/
def listedConfig (groups : List String) : SupervisorConfig where
  programs := HashMap.extend ∅ [("web", { command := "nginx" })]
  groups := HashMap.extend ∅ (groups.map fun g => (g, { programs := ["web"] }))

/-- With one group there is nothing to choose. -/
theorem orderInsensitive_of_one_group :
    (listedConfig ["front"]).validate .plain = .ok () ∧
      (listedConfig ["front"]).OrderInsensitive sourceEnv := by
  have hvalid : (listedConfig ["front"]).validate .plain = .ok () := by decide +kernel
  refine ⟨hvalid, (orderInsensitive_iff hvalid rfl).mpr (.inl ?_)⟩
  have hfront (g : String) (hg : (listedConfig ["front"]).Lists g "web") : g = "front" := by
    obtain ⟨group, hgroup, -⟩ := hg
    have hmem := (HashMap.lookup_extend_empty (by decide)).mp hgroup
    exact (Prod.mk.inj (List.mem_singleton.mp hmem)).1
  intro baseName raw hraw _ g g' hg hg'
  have hmem := (HashMap.lookup_extend_empty (by decide)).mp hraw
  obtain rfl := (Prod.mk.inj (List.mem_singleton.mp hmem)).1
  rw [hfront g hg, hfront g' hg']

/-- With two groups the order decides to which one the program belongs. -/
theorem exists_not_orderInsensitive :
    (listedConfig ["front", "edge"]).validate .plain = .ok () ∧
      ¬ (listedConfig ["front", "edge"]).OrderInsensitive sourceEnv := by
  refine ⟨by decide +kernel, ?_⟩
  intro hinsensitive
  obtain ⟨hagree, -⟩ := hinsensitive { ResolveOrders.stored with groups := .leading "front" }
    { ResolveOrders.stored with groups := .leading "edge" }
  obtain ⟨resolved, hresolve, hfront⟩ := Except.exists_eq_ok_of_any
    (x := (listedConfig ["front", "edge"]).resolvePrograms
      { sourceEnv with orders := { ResolveOrders.stored with groups := .leading "front" } })
    (p := fun resolved => decide ((resolved.lookup "web").map (·.group) = some "front"))
    (by decide +kernel)
  obtain ⟨resolved', hresolve', hedge⟩ := Except.exists_eq_ok_of_any
    (x := (listedConfig ["front", "edge"]).resolvePrograms
      { sourceEnv with orders := { ResolveOrders.stored with groups := .leading "edge" } })
    (p := fun resolved => decide ((resolved.lookup "web").map (·.group) = some "edge"))
    (by decide +kernel)
  rw [hresolve, hresolve'] at hagree
  have hsame : resolved.Same resolved' := hagree
  have hgroups := of_decide_eq_true hfront
  rw [hsame "web", of_decide_eq_true hedge] at hgroups
  exact absurd hgroups (by decide)

end SupervisorConfig

end Rsupervisord
