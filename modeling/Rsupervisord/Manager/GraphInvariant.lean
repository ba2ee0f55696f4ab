import Rsupervisord.Manager.DagCorrectness
import Rsupervisord.Manager.SupervisorInvariants

/-!
# The graph of the managed programs

The dependency graph of the manager is derived from the configurations. A build and a reload take
over a graph that they have built; a restart, a group addition and a group removal rebuild it, and
keep the old one when the build fails. The graph therefore agrees with the managed programs as long
as no group operation leaves an unknown dependency or a cycle behind.

## Main results

* `graphAgrees_of_reachable`: in runs whose group operations keep the dependencies resolvable, every
  managed program is in exactly one start layer and one stop layer, and no other program is.
* `graphAgrees_groupAdded_iff`, `graphAgrees_groupRemoved_iff`: the condition on the group
  operations is exact.
-/

namespace Rsupervisord

open DependencyGraph

namespace ManagerActor

variable {m m' : ManagerActor} {env : ManagerEnv} {group name : String}

/-- The graph is the one of exactly the managed programs. -/
structure GraphAgrees (m : ManagerActor) : Prop where
  isGraph : m.dag.IsGraphOf m.configs
  covers : m.dag.Covers m.programs.keys

/-- A graph of the configurations covers the managed programs. -/
theorem graphAgrees_iff (hinv : m.managed.Invariant) :
    m.GraphAgrees ↔ m.dag.IsGraphOf m.configs := by
  refine ⟨GraphAgrees.isGraph, fun hgraph => ⟨hgraph, ?_⟩⟩
  have hkeys : m.configs.keys.Perm m.programs.keys :=
    HashMap.keys_perm fun name => Managed.mem_configs_iff hinv.config_eq
  exact ⟨hgraph.covers.start.trans hkeys, hgraph.covers.stop.trans hkeys⟩

/-! ## The condition on the group operations -/

/-- The pending members of the group bring no unknown dependency, and no cycle comes about when they
take the place of managed programs of the same names. -/
structure GroupFits (m : ManagerActor) (group : String) : Prop where
  allKnown : ∀ name cfg, m.pendingMember group name = some cfg → ∀ dep ∈ cfg.dependsOn,
    dep ∈ m.configs ∨ (m.pendingMember group dep).isSome
  acyclic : IsAcyclic fun dep name =>
    ∃ cfg, (m.pendingMember group name <|> m.configs.lookup name) = some cfg ∧
      dep ∈ cfg.dependsOn

/-- No managed program outside the group depends on a program of the group. -/
def GroupUnneeded (m : ManagerActor) (group : String) : Prop :=
  ∀ name cfg, m.configs.lookup name = some cfg → cfg.group ≠ group → ∀ dep ∈ cfg.dependsOn,
    ∀ depCfg, m.configs.lookup dep = some depCfg → depCfg.group ≠ group

/-- A group addition or removal that takes effect keeps the dependencies resolvable. -/
def KeepsGraph (m : ManagerActor) : Label → Prop
  | .command (.addProcessGroup group) env => m.GroupAddable env group → m.GroupFits group
  | .command (.removeProcessGroup group) env => m.GroupRemovable env group → m.GroupUnneeded group
  | _ => True

/-- After a group addition the dependencies are resolvable exactly when the group fits. -/
theorem resolvable_of_groupAdded_iff {progs : List (String × ProgramInstance)} {s' : Managed}
    (hinv : m.managed.Invariant) (hres : Resolvable m.configs)
    (h : m.managed.Change [] (m.groupEntries env group) m.eventPools progs s') :
    Resolvable s'.configs ↔ m.GroupFits group := by
  have hlookup := lookup_configs_of_groupAdded hinv.pending_wellFormed h
  have hmem : ∀ dep, dep ∈ s'.configs ↔ dep ∈ m.configs ∨ (m.pendingMember group dep).isSome := by
    intro dep
    rw [HashMap.mem_iff_lookup, HashMap.mem_iff_lookup, hlookup]
    cases m.pendingMember group dep <;> simp
  have hdeps : ∀ dep name, dep ∈ deps s'.configs name ↔
      ∃ cfg, (m.pendingMember group name <|> m.configs.lookup name) = some cfg ∧
        dep ∈ cfg.dependsOn := by
    intro dep name
    rw [mem_deps_iff, hlookup]
  constructor
  · intro hres'
    refine ⟨fun name cfg hmember dep hdep => ?_, hres'.acyclic.mono fun a b => (hdeps a b).mpr⟩
    rw [← hmem]
    refine hres'.allKnown name cfg ?_ dep hdep
    rw [hlookup, hmember]
    rfl
  · intro hfits
    refine ⟨fun name cfg hcfg dep hdep => ?_, hfits.acyclic.mono fun a b => (hdeps a b).mp⟩
    rw [hmem]
    rw [hlookup] at hcfg
    cases hmember : m.pendingMember group name with
    | none =>
        rw [hmember] at hcfg
        exact .inl (hres.allKnown name cfg hcfg dep hdep)
    | some cfg' =>
        rw [hmember] at hcfg
        obtain rfl := Option.some.inj hcfg
        exact hfits.allKnown name cfg' hmember dep hdep

/-- After a group removal the dependencies are resolvable exactly when the group is not needed. -/
theorem resolvable_of_groupRemoved_iff {s' : Managed} (hinv : m.managed.Invariant)
    (hres : Resolvable m.configs)
    (h : m.managed.Change (m.groupNames env group) [] m.eventPools [] s') :
    Resolvable s'.configs ↔ m.GroupUnneeded group := by
  have hlookup := lookup_configs_of_groupRemoved hinv.configs_wellFormed h
  constructor
  · intro hres' name cfg hcfg hgroup dep hdep depCfg hdepCfg
    obtain ⟨depCfg', hdepCfg'⟩ := HashMap.mem_iff_lookup.mp
      (hres'.allKnown name cfg ((hlookup name cfg).mpr ⟨hcfg, hgroup⟩) dep hdep)
    obtain ⟨hold, hgroup'⟩ := (hlookup dep depCfg').mp hdepCfg'
    rw [hdepCfg] at hold
    exact Option.some.inj hold ▸ hgroup'
  · intro hunneeded
    refine ⟨fun name cfg hcfg dep hdep => ?_, hres.acyclic.mono fun a b hab => ?_⟩
    · obtain ⟨hold, hgroup⟩ := (hlookup name cfg).mp hcfg
      obtain ⟨depCfg, hdepCfg⟩ :=
        HashMap.mem_iff_lookup.mp (hres.allKnown name cfg hold dep hdep)
      exact HashMap.mem_iff_lookup.mpr ⟨depCfg, (hlookup dep depCfg).mpr
        ⟨hdepCfg, hunneeded name cfg hold hgroup dep hdep depCfg hdepCfg⟩⟩
    · -- The dependencies that are left were there before.
      obtain ⟨cfg, hcfg, hdep⟩ := mem_deps_iff.mp hab
      exact mem_deps_iff.mpr ⟨cfg, ((hlookup b cfg).mp hcfg).1, hdep⟩

/-! ## The invariant -/

/-- A refresh yields a graph of the configurations exactly when they have one. -/
theorem refreshedDag_isGraphOf_iff {dag : DependencyGraph} {configs : ProgramConfigs} :
    (refreshedDag env dag configs).IsGraphOf configs ↔ Resolvable configs := by
  refine ⟨IsGraphOf.resolvable, fun hres => ?_⟩
  obtain ⟨g, hbuild⟩ : ∃ g, DependencyGraph.build env.check env.orders.refresh configs = .ok g :=
    build_isOk_iff.mpr hres
  rw [refreshedDag, hbuild]
  exact ⟨env.check, env.orders.refresh, configs, fun _ => rfl, hbuild⟩

/-- A group addition that takes effect keeps the agreement exactly when the group fits. -/
theorem graphAgrees_groupAdded_iff {progs : List (String × ProgramInstance)} {st : Staging}
    (hinv : m.managed.Invariant) (hagrees : m.GraphAgrees) (hinactive : ¬ m.GroupActive group)
    (hstage : stage env.croner m.serverIdentifier (m.groupEntries env group)
      ⟨m.eventPools, m.nextId⟩ = .ok (progs, st)) :
    (m.commitGroup env group progs st).GraphAgrees ↔ m.GroupFits group := by
  have hchange := commitGroup_change hinv.pending_wellFormed hstage
  rw [← resolvable_of_groupAdded_iff hinv hagrees.isGraph.resolvable hchange,
    graphAgrees_iff (groupAdded_invariant hinv hinactive hstage)]
  change (m.commitGroup env group progs st).managed.dag.IsGraphOf
    (m.commitGroup env group progs st).managed.configs ↔ _
  rw [commitGroup_managed]
  exact refreshedDag_isGraphOf_iff

/-- A group removal that takes effect keeps the agreement exactly when the group is not needed. -/
theorem graphAgrees_groupRemoved_iff (env : ManagerEnv) (group : String)
    (hinv : m.managed.Invariant) (hagrees : m.GraphAgrees) :
    (m.commitRemoval env group).GraphAgrees ↔ m.GroupUnneeded group := by
  have hchange := m.commitRemoval_change env group
  rw [← resolvable_of_groupRemoved_iff hinv hagrees.isGraph.resolvable hchange,
    graphAgrees_iff (groupRemoved_invariant env group hinv)]
  change (m.commitRemoval env group).managed.dag.IsGraphOf
    (m.commitRemoval env group).managed.configs ↔ _
  rw [commitRemoval_managed]
  exact refreshedDag_isGraphOf_iff

/-- A step that keeps the dependencies resolvable keeps the agreement. -/
theorem next_graphAgrees {l : Label} (hinv : m.managed.Invariant) (hagrees : m.GraphAgrees)
    (hkeeps : m.KeepsGraph l) (h : m.next l = some m') : m'.GraphAgrees := by
  have hinv' := next_invariant hinv h
  cases next_effect h with
  | calls hmanaged =>
      have hdag : m'.dag = m.dag := congrArg Managed.dag hmanaged
      have hconfigs : m'.configs = m.configs := congrArg Managed.configs hmanaged
      rw [graphAgrees_iff hinv', hdag, hconfigs]
      exact hagrees.isGraph
  | pending hresolve hbuild => exact ⟨hagrees.isGraph, hagrees.covers⟩
  | @reloaded newConfig env newPrograms newDag modified added st hresolve hbuild hstage =>
      have hnew := SupervisorConfig.resolvePrograms_wellFormed hresolve
      have hchange := commitReload_change newConfig newDag hnew hstage
      have hlookup := lookup_configs_of_reload hnew hchange
      rw [graphAgrees_iff hinv']
      have hdag : (m.commitReload newConfig env newPrograms newDag modified added st).managed.dag =
          newDag := by rw [commitReload_managed]
      exact ⟨env.check, env.orders.build, newPrograms, fun name => (hlookup name).symm,
        hbuild.trans (congrArg _ hdag.symm)⟩
  | @restarted newConfig env newPrograms newDag progs st hresolve hbuild hstage =>
      have hchange := commitRestart_change newConfig hinv hstage
      have hlookup := hchange.lookup_configs_of_all fun name h => AList.mem_keys.mp h
      rw [graphAgrees_iff hinv']
      -- The rebuilt graph is that of a map with the entries of the new configuration.
      have hres := (build_isOk_iff.mp ⟨newDag, hbuild⟩).congr hlookup
      change (m.commitRestart newConfig env newPrograms progs st).managed.dag.IsGraphOf
        (m.commitRestart newConfig env newPrograms progs st).managed.configs
      rw [commitRestart_managed] at hres ⊢
      exact refreshedDag_isGraphOf_iff.mpr hres
  | @groupAdded group env progs st hinactive hstage =>
      exact (graphAgrees_groupAdded_iff hinv hagrees hinactive hstage).mpr
        (hkeeps (groupAddable_of_stage hinv hinactive hstage))
  | @groupRemoved group env hactive hidle =>
      exact (graphAgrees_groupRemoved_iff env group hinv hagrees).mpr
        (hkeeps (groupRemovable_of_idle hinv hidle))

/-- In a run whose group operations keep the dependencies resolvable, the graph is that of exactly
the managed programs: each of them is in exactly one start layer and in exactly one stop layer, and
no other program is in a layer. -/
theorem graphAgrees_of_reachable (h : system.ReachableWhile KeepsGraph m) : m.GraphAgrees := by
  refine TransitionSystem.ReachableWhile.invariant (I := GraphAgrees) ?_ ?_ h
  · rintro m ⟨config, env, hbuild⟩
    obtain ⟨newPrograms, progs, _, hgraph, _, _, hlookup, _⟩ := build_change hbuild
    rw [graphAgrees_iff (build_invariant hbuild)]
    exact ⟨env.check, env.orders.build, newPrograms, fun name => (hlookup name).symm, hgraph⟩
  · intro m l m' hreach hagrees hkeeps hstep
    exact next_graphAgrees (invariant_of_reachable hreach) hagrees hkeeps hstep

instance (m : ManagerActor) (group : String) : Decidable (m.GroupUnneeded group) :=
  decidable_of_iff (∀ e ∈ m.configs.iter .stored, e.2.group ≠ group → ∀ dep ∈ e.2.dependsOn,
      ∀ depCfg ∈ m.configs.lookup dep, depCfg.group ≠ group) <| by
    simp only [Prod.forall, HashMap.mem_iter, Option.mem_def, GroupUnneeded]

/-- The web server is removed; nothing depends on it. -/
theorem graphAgrees_after_removal :
    ∃ m, system.ReachableWhile KeepsGraph m ∧ m.programs.keys = ["db"] ∧ m.GraphAgrees := by
  obtain ⟨m, hinit, hunneeded, hnext⟩ := exists_reachableWhile (G := fun _ _ => False)
    (fun m => m.GroupUnneeded "web" ∧
      (m.next (.command (.removeProcessGroup "web") .plain)).any
        (fun m' => decide (m'.programs.keys = ["db"])) = true)
    (siteConfig "nginx" "db") .plain [] (by decide +kernel)
  obtain ⟨m', hstep, hkeys⟩ := (Option.any_eq_true _ _).mp hnext
  have hkeeps : m.KeepsGraph (.command (.removeProcessGroup "web") .plain) := fun _ => hunneeded
  have hreach : system.ReachableWhile KeepsGraph m' :=
    .step (hinit.mono fun _ _ h => h.elim) hkeeps hstep
  exact ⟨m', hreach, of_decide_eq_true hkeys, graphAgrees_of_reachable hreach⟩

/-- The database is removed although the web server depends on it: the rebuild fails, and the old
graph stays in place. -/
theorem exists_not_graphAgrees : ∃ m, system.Reachable m ∧ ¬ m.GraphAgrees := by
  obtain ⟨m, hreach, hlayers, hkeys⟩ := exists_reachableWhile (G := fun _ _ => True)
    (fun m => m.dag.startLayers = [["db"], ["web"]] ∧ m.programs.keys = ["web"])
    (siteConfig "nginx" "db") .plain [.command (.removeProcessGroup "db") .plain]
    (by decide +kernel)
  refine ⟨m, hreach, fun hagrees => ?_⟩
  have hperm := hagrees.covers.start
  rw [hlayers, hkeys] at hperm
  exact absurd hperm.length_eq (by decide)

end ManagerActor

end Rsupervisord
