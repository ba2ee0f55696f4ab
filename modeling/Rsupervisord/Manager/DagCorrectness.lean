import Rsupervisord.Manager.Dag

/-!
# Correctness of the dependency graph

The layers of a successful build are the programs of the map, each exactly once, and a build
succeeds exactly when every dependency is known and no program depends on itself.

The proof follows Kahn's algorithm. `Counters.Counts` says what the counting phase computes.
`Kahn.Invariant` describes the loop through the list of the programs visited so far, each with its
layer: it is a topological order, the queue holds the programs that wait for nothing, and the
counters hold the number of dependencies that are not visited yet. `Kahn.visit_invariant` is the
step lemma and `Kahn.loop_rule` the rule for the run.

## Main results

* `build_isOk_iff`: a build succeeds exactly when the dependencies are resolvable.
* `build_covers`: the layers of a successful build hold each program exactly once.
-/

namespace Rsupervisord

namespace DependencyGraph

/-- The direct dependencies of a program; none for an unknown name. -/
def deps (programs : ProgramConfigs) (name : String) : List String :=
  ((programs.lookup name).map (·.dependsOn)).getD []

/-- Every dependency of a program of the map is in the map. -/
def AllKnown (programs : ProgramConfigs) : Prop :=
  ∀ name cfg, programs.lookup name = some cfg → ∀ dep ∈ cfg.dependsOn, dep ∈ programs

/-- Every dependency is known and no program depends on itself through one or more steps. -/
structure Resolvable (programs : ProgramConfigs) : Prop where
  allKnown : AllKnown programs
  acyclic : IsAcyclic fun dep name => dep ∈ deps programs name

/-- The layers of the graph hold each program of the map exactly once and nothing else. -/
structure Covers (g : DependencyGraph) (names : List String) : Prop where
  start : g.startLayers.flatten.Perm names
  stop : g.stopLayers.flatten.Perm names

variable {programs : ProgramConfigs} {name dep : String}

/-- The dependencies of a program of the map. -/
theorem deps_of_lookup {cfg : ProgramConfig} (h : programs.lookup name = some cfg) :
    deps programs name = cfg.dependsOn := by
  rw [deps, h]
  rfl

/-- Only programs of the map have dependencies. -/
theorem mem_of_mem_deps (h : dep ∈ deps programs name) : name ∈ programs := by
  by_contra hnot
  rw [deps, AList.lookup_eq_none.mpr hnot] at h
  simp at h

/-- The dependencies of a program are those of its configuration. -/
theorem mem_deps_iff :
    dep ∈ deps programs name ↔ ∃ cfg, programs.lookup name = some cfg ∧ dep ∈ cfg.dependsOn := by
  constructor
  · intro h
    obtain ⟨cfg, hcfg⟩ := HashMap.mem_iff_lookup.mp (mem_of_mem_deps h)
    exact ⟨cfg, hcfg, deps_of_lookup hcfg ▸ h⟩
  · rintro ⟨cfg, hcfg, hdep⟩
    exact deps_of_lookup hcfg ▸ hdep

/-- A dependency is known when all are. -/
theorem AllKnown.mem (h : AllKnown programs) (hdep : dep ∈ deps programs name) :
    dep ∈ programs := by
  obtain ⟨cfg, hcfg⟩ := HashMap.mem_iff_lookup.mp (mem_of_mem_deps hdep)
  rw [deps_of_lookup hcfg] at hdep
  exact h name cfg hcfg dep hdep

/-! ## Edges -/

/-- The edges exist exactly when every dependency is known. -/
theorem dependencyEdges_isOk_iff (l : List (String × ProgramConfig)) :
    (∃ edges, dependencyEdges programs l = .ok edges) ↔
      ∀ e ∈ l, ∀ dep ∈ e.2.dependsOn, dep ∈ programs := by
  induction l with
  | nil => simp [dependencyEdges]
  | cons e l ih =>
      rw [List.forall_mem_cons, ← ih]
      simp only [dependencyEdges]
      split
      next dep hfind =>
        have hdep := List.find?_some hfind
        have hmem := List.mem_of_find?_eq_some hfind
        simp only [decide_eq_true_eq] at hdep
        simp only [reduceCtorEq, exists_false, false_iff, not_and]
        exact fun hall => absurd (hall dep hmem) hdep
      next hfind =>
        rw [List.find?_eq_none] at hfind
        simp only [decide_eq_true_eq, not_not] at hfind
        constructor
        · rintro ⟨edges, h⟩
          cases hrest : dependencyEdges programs l with
          | error err => rw [hrest] at h; cases h
          | ok rest => exact ⟨hfind, rest, rfl⟩
        · rintro ⟨-, rest, hrest⟩
          exact ⟨e.2.dependsOn.map (·, e.1) ++ rest, by rw [hrest]; rfl⟩

/-- The edges lead from each dependency to its dependent. -/
theorem mem_dependencyEdges {l : List (String × ProgramConfig)} {edges : List (String × String)}
    (h : dependencyEdges programs l = .ok edges) {a b : String} :
    (a, b) ∈ edges ↔ ∃ cfg, (b, cfg) ∈ l ∧ a ∈ cfg.dependsOn := by
  induction l generalizing edges with
  | nil =>
      obtain rfl := Except.ok.inj h
      simp
  | cons e l ih =>
      simp only [dependencyEdges] at h
      split at h
      next => cases h
      next =>
        cases hrest : dependencyEdges programs l with
        | error err => rw [hrest] at h; cases h
        | ok rest =>
            rw [hrest] at h
            obtain rfl := Except.ok.inj h
            obtain ⟨n, cfg⟩ := e
            simp only [List.mem_append, List.mem_map, Prod.mk.injEq, List.mem_cons, ih hrest]
            constructor
            · rintro (⟨dep, hdep, rfl, rfl⟩ | ⟨cfg', hcfg', hmem⟩)
              · exact ⟨cfg, .inl ⟨rfl, rfl⟩, hdep⟩
              · exact ⟨cfg', .inr hcfg', hmem⟩
            · rintro ⟨cfg', ⟨rfl, rfl⟩ | hcfg', hmem⟩
              · exact .inl ⟨a, hmem, rfl, rfl⟩
              · exact .inr ⟨cfg', hcfg', hmem⟩

/-- The edges of a map are its dependencies. -/
theorem mem_dependencyEdges_iter {o : HashOrder String} {edges : List (String × String)}
    (h : dependencyEdges programs (programs.iter o) = .ok edges) {a b : String} :
    (a, b) ∈ edges ↔ a ∈ deps programs b := by
  rw [mem_dependencyEdges h]
  constructor
  · rintro ⟨cfg, hcfg, ha⟩
    rwa [deps_of_lookup (HashMap.mem_iter.mp hcfg)]
  · intro ha
    obtain ⟨cfg, hcfg⟩ := HashMap.mem_iff_lookup.mp (mem_of_mem_deps ha)
    rw [deps_of_lookup hcfg] at ha
    exact ⟨cfg, HashMap.mem_iter.mpr hcfg, ha⟩

/-- The edges of a map exist exactly when every dependency is known. -/
theorem dependencyEdges_iter_isOk_iff {o : HashOrder String} :
    (∃ edges, dependencyEdges programs (programs.iter o) = .ok edges) ↔ AllKnown programs := by
  rw [dependencyEdges_isOk_iff]
  constructor
  · exact fun h name cfg hcfg => h (name, cfg) (HashMap.mem_iter.mpr hcfg)
  · exact fun h e he => h e.1 e.2 (HashMap.mem_iter.mp he)

/-! ## Counting phase -/

namespace Counters

/-- The in-degree of a program, zero for an unknown one. -/
def degree (c : Counters) (v : String) : ℕ := (c.inDegrees.lookup v).getD 0

/-- The dependents of a program, with multiplicity. -/
def neighbors (c : Counters) (u : String) : List String := (c.adj.lookup u).getD []

variable (c : Counters)

/-- Counting a dependency changes one in-degree. -/
theorem degree_addDependency (v : String) :
    (c.addDependency name dep).degree v = c.degree v + if v = name then 1 else 0 := by
  simp only [degree, addDependency, HashMap.lookup_insert]
  by_cases h : v = name
  · subst h
    simp
  · simp [h]

/-- Counting a dependency adds one dependent. -/
theorem count_neighbors_addDependency (u v : String) :
    ((c.addDependency name dep).neighbors u).count v =
      (c.neighbors u).count v + if v = name ∧ u = dep then 1 else 0 := by
  simp only [neighbors, addDependency, HashMap.lookup_push]
  by_cases hu : u = dep
  · subst hu
    by_cases hv : v = name
    · subst hv
      simp
    · simp [hv, List.count_eq_zero.mpr (by simpa using hv : v ∉ [name])]
  · simp [hu]

/-- Counting a dependency registers the dependent. -/
theorem mem_addDependency (name dep v : String) :
    v ∈ (c.addDependency name dep).inDegrees ↔ v = name ∨ v ∈ c.inDegrees :=
  AList.mem_insert _

/-- Counting a list of dependencies of one program. -/
theorem foldl_addDependency (name : String) (l : List String) (u v : String) :
    (l.foldl (fun c dep => c.addDependency name dep) c).degree v =
        c.degree v + (if v = name then l.length else 0) ∧
      ((l.foldl (fun c dep => c.addDependency name dep) c).neighbors u).count v =
        (c.neighbors u).count v + if v = name then l.count u else 0 := by
  induction l generalizing c with
  | nil => simp
  | cons d l ih =>
      obtain ⟨hdegree, hcount⟩ := ih (c.addDependency name d)
      simp only [List.foldl_cons, hdegree, hcount, degree_addDependency,
        count_neighbors_addDependency, List.length_cons, List.count_cons, beq_iff_eq]
      by_cases hv : v = name <;> by_cases hu : u = d <;> simp [hv, hu, eq_comm] <;> omega

/-- Counting a list of dependencies registers at most the program. -/
theorem mem_foldl_addDependency {name : String} (l : List String) {v : String}
    (hname : name ∈ c.inDegrees) :
    v ∈ (l.foldl (fun c dep => c.addDependency name dep) c).inDegrees ↔ v ∈ c.inDegrees := by
  induction l generalizing c with
  | nil => rfl
  | cons d l ih =>
      have hmem := c.mem_addDependency name d
      rw [List.foldl_cons, ih _ ((hmem name).mpr (.inl rfl)), hmem]
      constructor
      · rintro (rfl | h)
        · exact hname
        · exact h
      · exact .inr

/-- Counting the dependencies of programs with distinct names. -/
theorem count_spec (l : List (String × ProgramConfig)) (hnodup : (l.map Prod.fst).Nodup)
    (u v : String) :
    (c.count l).degree v =
        c.degree v + (((l.lookup v).map (·.dependsOn)).getD []).length ∧
      ((c.count l).neighbors u).count v =
        (c.neighbors u).count v + (((l.lookup v).map (·.dependsOn)).getD []).count u := by
  induction l generalizing c with
  | nil => simp [count]
  | cons e l ih =>
      obtain ⟨n, cfg⟩ := e
      rw [List.map_cons, List.nodup_cons] at hnodup
      obtain ⟨hdegree, hcount⟩ := ih (cfg.dependsOn.foldl (fun c dep => c.addDependency n dep) c)
        hnodup.2
      obtain ⟨hdegree₁, hcount₁⟩ := c.foldl_addDependency n cfg.dependsOn u v
      change (count _ l).degree v = _ ∧ ((count _ l).neighbors u).count v = _
      rw [hdegree, hcount, hdegree₁, hcount₁, List.lookup_cons]
      by_cases hv : v = n
      · -- The name occurs only at the head.
        subst hv
        have hnone : l.lookup v = none := by
          rw [List.lookup_eq_none_iff]
          intro e he
          simpa using fun h : v = e.1 => hnodup.1 (List.mem_map.mpr ⟨e, he, h.symm⟩)
        simp [hnone]
      · have hbeq : (v == n) = false := by simpa using hv
        simp [hv, hbeq]

/-- Counting the dependencies of registered programs registers nothing else. -/
theorem mem_count (l : List (String × ProgramConfig)) (hl : ∀ e ∈ l, e.1 ∈ c.inDegrees)
    {v : String} : v ∈ (c.count l).inDegrees ↔ v ∈ c.inDegrees := by
  induction l generalizing c with
  | nil => rfl
  | cons e l ih =>
      have hhead := fun v => c.mem_foldl_addDependency e.2.dependsOn (v := v)
        (hl e List.mem_cons_self)
      change v ∈ (count _ l).inDegrees ↔ _
      rw [ih _ fun e' he' => (hhead _).mpr (hl e' (List.mem_cons_of_mem e he')), hhead]

/-- Before the count every in-degree is zero and no program has dependents. -/
theorem init_spec (names : List String) (u v : String) :
    (v ∈ (init names).inDegrees ↔ v ∈ names) ∧ (init names).degree v = 0 ∧
      (init names).neighbors u = [] := by
  have hinsert : ∀ {ν : Type} (x : ν) (m : HashMap String ν) (w : String),
      (names.foldl (fun m name => m.insert name x) m).lookup w =
        if w ∈ names then some x else m.lookup w := by
    intro ν x m w
    induction names generalizing m with
    | nil => simp
    | cons n names ih =>
        rw [List.foldl_cons, ih, HashMap.lookup_insert]
        by_cases hw : w ∈ names <;> by_cases hn : w = n <;> simp [hw, hn]
  refine ⟨?_, ?_, ?_⟩
  · rw [← AList.lookup_isSome, init, hinsert]
    by_cases hv : v ∈ names <;> simp [hv]
  · rw [degree, init, hinsert]
    by_cases hv : v ∈ names <;> simp [hv]
  · rw [neighbors, init, hinsert]
    by_cases hu : u ∈ names <;> simp [hu]

end Counters

/-- What the counting phase leaves to the loop: the in-degree of a program is the number of its
dependencies, and a program is listed under each of them as often as it names it. -/
theorem kahnStart_counts (orders : BuildOrders) (programs : ProgramConfigs) :
    (∀ v, (kahnStart orders programs).2.inDegrees.lookup v =
        if v ∈ programs then some (deps programs v).length else none) ∧
      ∀ u v, (((kahnStart orders programs).1.lookup u).getD []).count v =
        (deps programs v).count u := by
  let c := Counters.init (orders.programs.arrange programs.keys)
  have hspec := c.count_spec (programs.iter orders.programs) HashMap.nodup_map_fst_iter
  have hinit := Counters.init_spec (orders.programs.arrange programs.keys)
  have hmem : ∀ v, v ∈ (c.count (programs.iter orders.programs)).inDegrees ↔ v ∈ programs := by
    intro v
    rw [c.mem_count, (hinit v v).1, HashMap.mem_arrange_keys]
    intro e he
    rw [(hinit e.1 e.1).1, HashMap.mem_arrange_keys]
    exact HashMap.mem_iff_lookup.mpr ⟨e.2, HashMap.mem_iter.mp he⟩
  constructor
  · intro v
    have hdegree := (hspec v v).1
    rw [(hinit v v).2.1, HashMap.lookup_iter, Nat.zero_add] at hdegree
    change (c.count (programs.iter orders.programs)).inDegrees.lookup v = _
    by_cases hv : v ∈ programs
    · obtain ⟨d, hd⟩ := HashMap.mem_iff_lookup.mp ((hmem v).mpr hv)
      rw [Counters.degree, hd] at hdegree
      rw [hd, if_pos hv]
      exact congrArg some hdegree
    · rw [if_neg hv, AList.lookup_eq_none, hmem]
      exact hv
  · intro u v
    have hcount := (hspec u v).2
    rw [(hinit u v).2.2, HashMap.lookup_iter, List.count_nil, Nat.zero_add] at hcount
    exact hcount

/-! ## The loop -/

namespace Kahn

/-- Relaxing a list of neighbors lowers their in-degrees, and those that reach zero join the
queue. -/
theorem foldl_relax (layer : ℕ) (ns : List String) (k : Kahn)
    (hpos : ∀ v, ns.count v ≤ (k.inDegrees.lookup v).getD 0) :
    (∀ v, (ns.foldl (relax layer) k).inDegrees.lookup v =
        (k.inDegrees.lookup v).map (· - ns.count v)) ∧
      (ns.foldl (relax layer) k).layersMap = k.layersMap ∧
      (ns.foldl (relax layer) k).visitedCount = k.visitedCount ∧
      ∃ news : List String, news.Nodup ∧
        (ns.foldl (relax layer) k).queue = k.queue ++ news.map (·, layer + 1) ∧
        ∀ v, v ∈ news ↔ v ∈ ns ∧ k.inDegrees.lookup v = some (ns.count v) := by
  induction ns generalizing k with
  | nil => exact ⟨by simp, rfl, rfl, [], List.nodup_nil, by simp, by simp⟩
  | cons n ns ih =>
      -- The neighbor waits for something, so that its in-degree is known and positive.
      have hn := hpos n
      rw [List.count_cons_self] at hn
      cases hdeg : k.inDegrees.lookup n with
      | none => rw [hdeg] at hn; simp at hn
      | some deg =>
          rw [hdeg, Option.getD_some] at hn
          obtain ⟨hlookup, hlayers, hvisited, hqueue⟩ :
              (∀ v, (k.relax layer n).inDegrees.lookup v =
                if v = n then some (deg - 1) else k.inDegrees.lookup v) ∧
              (k.relax layer n).layersMap = k.layersMap ∧
              (k.relax layer n).visitedCount = k.visitedCount ∧
              (k.relax layer n).queue =
                k.queue ++ if deg - 1 = 0 then [(n, layer + 1)] else [] := by
            simp only [relax, hdeg]
            split <;> exact ⟨HashMap.lookup_insert, rfl, rfl, by simp⟩
          have hpos' : ∀ v, ns.count v ≤ ((k.relax layer n).inDegrees.lookup v).getD 0 := by
            intro v
            rw [hlookup]
            by_cases hv : v = n
            · subst hv
              rw [if_pos rfl, Option.getD_some]
              omega
            · rw [if_neg hv]
              have hv' := hpos v
              rwa [List.count_cons_of_ne (Ne.symm hv)] at hv'
          obtain ⟨hlookup', hlayers', hvisited', news, hnews, hqueue', hmem⟩ :=
            ih (k.relax layer n) hpos'
          rw [List.foldl_cons]
          refine ⟨?_, hlayers'.trans hlayers, hvisited'.trans hvisited,
            (if deg - 1 = 0 then [n] else []) ++ news, ?_, ?_, ?_⟩
          · intro v
            rw [hlookup', hlookup]
            by_cases hv : v = n
            · subst hv
              rw [if_pos rfl, hdeg, Option.map_some, Option.map_some, List.count_cons_self]
              congr 1
              omega
            · rw [if_neg hv, List.count_cons_of_ne (Ne.symm hv)]
          · split
            next hzero =>
              -- The counter was used up, so that the name does not occur again.
              have hcount : ns.count n = 0 := by omega
              rw [List.count_eq_zero] at hcount
              exact List.nodup_cons.mpr ⟨fun h => hcount ((hmem n).mp h).1, hnews⟩
            next => exact hnews
          · rw [hqueue', hqueue]
            split <;> simp
          · intro v
            rw [List.mem_append, hmem, hlookup]
            by_cases hv : v = n
            · subst hv
              rw [if_pos rfl, hdeg, List.count_cons_self]
              simp only [Option.some.injEq, List.mem_cons, true_or, true_and]
              split
              next hzero =>
                have hone : deg = ns.count v + 1 := by omega
                exact iff_of_true (.inl List.mem_cons_self) hone
              next hzero =>
                constructor
                · rintro (h | ⟨-, h⟩)
                  · cases h
                  · omega
                · intro h
                  have hcount : 0 < ns.count v := by omega
                  exact .inr ⟨List.count_pos_iff.mp hcount, by omega⟩
            · have hne : v ∉ if deg - 1 = 0 then [n] else [] := by
                split <;> simp [hv]
              rw [if_neg hv, List.count_cons_of_ne (Ne.symm hv), List.mem_cons]
              simp [hne, hv]

/-- A visit records the program and relaxes its dependents. -/
theorem visit_eq (adj : HashMap String (List String)) (k : Kahn) (node : String) (layer : ℕ)
    (rest : List (String × ℕ)) :
    k.visit adj node layer rest =
      ((adj.lookup node).getD []).foldl (relax layer)
        { k with
          queue := rest
          visitedCount := k.visitedCount + 1
          layersMap := k.layersMap.push layer node } := by
  rw [visit]
  cases adj.lookup node <;> rfl

/-- The state of the loop after the programs `visited`, each with its layer. -/
structure Invariant (programs : ProgramConfigs) (visited : List (String × ℕ)) (k : Kahn) :
    Prop where
  /-- Each program was visited after its dependencies. -/
  order : TopologicalOrder (deps programs) (visited.map Prod.fst)
  /-- The visited programs are those of the map. -/
  known : ∀ v ∈ visited.map Prod.fst, v ∈ programs
  /-- No program is queued twice, or again after its visit. -/
  nodup : (visited.map Prod.fst ++ k.queue.map Prod.fst).Nodup
  /-- A queued program waits for nothing. -/
  queued : ∀ v ∈ k.queue.map Prod.fst,
    v ∈ programs ∧ ∀ dep ∈ deps programs v, dep ∈ visited.map Prod.fst
  /-- A program that waits for nothing is visited or queued. -/
  ready : ∀ v ∈ programs, (∀ dep ∈ deps programs v, dep ∈ visited.map Prod.fst) →
    v ∈ visited.map Prod.fst ++ k.queue.map Prod.fst
  /-- The counters hold the dependencies not visited yet. -/
  degree : ∀ v, k.inDegrees.lookup v =
    if v ∈ programs then some ((deps programs v).countP (· ∉ visited.map Prod.fst)) else none
  /-- The layers hold the visited programs. -/
  layers : ∀ l, (k.layersMap.lookup l).getD [] =
    (visited.filter fun e => e.2 = l).map Prod.fst
  visitedCount : k.visitedCount = visited.length

/-- The occurrences of a program not visited yet are among the dependencies not visited yet. -/
theorem count_le_countP_notMem {l visited : List String} {node : String} (hnode : node ∉ visited) :
    l.count node ≤ l.countP (· ∉ visited) := by
  refine List.countP_mono_left fun x _ hx => ?_
  simpa using (beq_iff_eq.mp hx) ▸ hnode

/-- Visiting `node` takes its occurrences off the dependencies not visited yet. -/
theorem countP_notMem_concat {l visited : List String} {node : String} (hnode : node ∉ visited) :
    l.countP (· ∉ visited ++ [node]) = l.countP (· ∉ visited) - l.count node := by
  induction l with
  | nil => rfl
  | cons d l ih =>
      have hle := count_le_countP_notMem (l := l) hnode
      rw [List.countP_cons, List.countP_cons, List.count_cons, ih]
      by_cases hd : d = node
      · subst hd
        simp [hnode]
      · by_cases hv : d ∈ visited
        · simp [hd, hv]
        · have hconcat : d ∉ visited ++ [node] := by simp [hd, hv]
          rw [if_pos (decide_eq_true hconcat), if_pos (decide_eq_true hv),
            if_neg (by simpa using hd)]
          omega

variable {programs : ProgramConfigs} {visited : List (String × ℕ)} {k : Kahn}
  {adj : HashMap String (List String)}

/-- The program at the front of the queue is not visited yet. -/
theorem Invariant.notMem_visited (hinv : Invariant programs visited k) {node : String} {layer : ℕ}
    {rest : List (String × ℕ)} (hqueue : k.queue = (node, layer) :: rest) :
    node ∉ visited.map Prod.fst := by
  intro h
  have hnodup := hinv.nodup
  rw [hqueue, List.map_cons] at hnodup
  exact (List.nodup_append.mp hnodup).2.2 node h node List.mem_cons_self rfl

/-- What a visit changes: it lowers the counters of the dependents of the program and puts those
that waited for it alone into the queue. -/
theorem visit_spec (hadj : ∀ u v, ((adj.lookup u).getD []).count v = (deps programs v).count u)
    (hinv : Invariant programs visited k) {node : String} {layer : ℕ} {rest : List (String × ℕ)}
    (hqueue : k.queue = (node, layer) :: rest) :
    (∀ v, (k.visit adj node layer rest).inDegrees.lookup v =
        (k.inDegrees.lookup v).map (· - (deps programs v).count node)) ∧
      (k.visit adj node layer rest).layersMap = k.layersMap.push layer node ∧
      (k.visit adj node layer rest).visitedCount = k.visitedCount + 1 ∧
      ∃ news : List String, news.Nodup ∧
        (k.visit adj node layer rest).queue = rest ++ news.map (·, layer + 1) ∧
        ∀ v, v ∈ news ↔ node ∈ deps programs v ∧
          ∀ dep ∈ deps programs v, dep ∈ visited.map Prod.fst ++ [node] := by
  have hnode := hinv.notMem_visited hqueue
  -- Each relaxed program waits for `node` as often as it is relaxed.
  have hdeg : ∀ v, (deps programs v).count node ≤ (k.inDegrees.lookup v).getD 0 := by
    intro v
    rw [hinv.degree]
    by_cases hv : v ∈ programs
    · rw [if_pos hv, Option.getD_some]
      exact count_le_countP_notMem hnode
    · rw [List.count_eq_zero.mpr fun h => hv (mem_of_mem_deps h)]
      exact Nat.zero_le _
  rw [visit_eq]
  obtain ⟨hdegree, hlayers, hvisited, news, hnews, hnewsQueue, hmem⟩ :=
    foldl_relax layer ((adj.lookup node).getD [])
      { k with
        queue := rest
        visitedCount := k.visitedCount + 1
        layersMap := k.layersMap.push layer node }
      fun v => (hadj node v).trans_le (hdeg v)
  refine ⟨fun v => ?_, hlayers, hvisited, news, hnews, hnewsQueue, fun v => ?_⟩
  · rw [hdegree, hadj]
  -- The programs that join the queue are those that waited for `node` alone.
  · rw [hmem, ← List.count_pos_iff, hadj, List.count_pos_iff]
    refine and_congr_right fun hv => ?_
    show k.inDegrees.lookup v = _ ↔ _
    rw [hinv.degree, if_pos (mem_of_mem_deps hv), Option.some.injEq]
    have hle := count_le_countP_notMem (l := deps programs v) hnode
    have hsub := countP_notMem_concat (l := deps programs v) hnode
    have hzero : (deps programs v).countP (· ∉ visited.map Prod.fst ++ [node]) = 0 ↔
        ∀ dep ∈ deps programs v, dep ∈ visited.map Prod.fst ++ [node] := by
      simp only [List.countP_eq_zero, decide_eq_true_eq, not_not]
    rw [← hzero]
    omega

/-- One visit of the loop. -/
theorem visit_invariant (hadj : ∀ u v, ((adj.lookup u).getD []).count v = (deps programs v).count u)
    (hinv : Invariant programs visited k) {node : String} {layer : ℕ} {rest : List (String × ℕ)}
    (hqueue : k.queue = (node, layer) :: rest) :
    Invariant programs (visited ++ [(node, layer)]) (k.visit adj node layer rest) := by
  have hmap : (visited ++ [(node, layer)]).map Prod.fst = visited.map Prod.fst ++ [node] := by
    simp
  have hnode := hinv.notMem_visited hqueue
  obtain ⟨hdegree, hlayers, hvisited, news, hnews, hnewsQueue, hmem⟩ := visit_spec hadj hinv hqueue
  have hnodup := hinv.nodup
  have hqueued := hinv.queued
  have hready := hinv.ready
  rw [hqueue, List.map_cons] at hnodup hqueued hready
  obtain ⟨hnodeKnown, hnodeDeps⟩ := hqueued node List.mem_cons_self
  refine ⟨?_, ?_, ?_, ?_, ?_, ?_, ?_, ?_⟩
  · rw [hmap]
    exact .snoc hinv.order hnode hnodeDeps
  · rw [hmap]
    intro v hv
    rcases List.mem_append.mp hv with hv | hv
    · exact hinv.known v hv
    · rwa [List.mem_singleton.mp hv]
  · rw [hmap, hnewsQueue]
    have hold : (visited.map Prod.fst ++ [node] ++ rest.map Prod.fst).Nodup := by
      rwa [List.append_assoc, List.singleton_append]
    rw [List.map_append, List.map_map, ← List.append_assoc]
    refine List.nodup_append.mpr ⟨hold, by simpa [Function.comp_def] using hnews, ?_⟩
    rintro v hv w hw rfl
    -- A program that joins the queue depends on `node`, the programs before it do not.
    have hw' : v ∈ news := by simpa [Function.comp_def] using hw
    have hwaits := ((hmem v).mp hw').1
    rw [List.append_assoc, List.mem_append] at hv
    rcases hv with hv | hv
    · exact hnode (hinv.order.closed hv node hwaits)
    · exact hnode ((hqueued v hv).2 node hwaits)
  · rw [hmap, hnewsQueue]
    intro v hv
    rw [List.map_append, List.map_map, List.mem_append] at hv
    rcases hv with hv | hv
    · obtain ⟨hknown, hdeps⟩ := hqueued v (List.mem_cons_of_mem node hv)
      exact ⟨hknown, fun dep hdep => List.mem_append_left _ (hdeps dep hdep)⟩
    · have hv' : v ∈ news := by simpa [Function.comp_def] using hv
      obtain ⟨hwaits, hdeps⟩ := (hmem v).mp hv'
      exact ⟨mem_of_mem_deps hwaits, hdeps⟩
  · rw [hmap, hnewsQueue]
    intro v hv hdeps
    rw [List.map_append, List.map_map, ← List.append_assoc, List.mem_append]
    by_cases hwaits : node ∈ deps programs v
    · right
      have hv' : v ∈ news := (hmem v).mpr ⟨hwaits, hdeps⟩
      simpa [Function.comp_def] using hv'
    · left
      have hold := hready v hv fun dep hdep => by
        rcases List.mem_append.mp (hdeps dep hdep) with h | h
        · exact h
        · exact absurd (List.mem_singleton.mp h ▸ hdep) hwaits
      rwa [List.append_assoc, List.singleton_append]
  · intro v
    rw [hdegree, hmap, hinv.degree]
    by_cases hv : v ∈ programs
    · rw [if_pos hv, if_pos hv, Option.map_some, countP_notMem_concat hnode]
    · rw [if_neg hv, if_neg hv, Option.map_none]
  · intro l
    rw [hlayers, HashMap.lookup_push, List.filter_append, List.map_append]
    by_cases hl : l = layer
    · subst hl
      rw [if_pos rfl, Option.getD_some, hinv.layers]
      simp
    · rw [if_neg hl, hinv.layers]
      simp [Ne.symm hl]
  · rw [hvisited, List.length_append]
    exact congrArg (· + 1) hinv.visitedCount

/-- The rule of the loop: what every visit preserves holds when the queue is empty or the fuel is
used up. -/
theorem loop_rule {I : List (String × ℕ) → Kahn → Prop}
    (hvisit : ∀ visited k node layer rest, I visited k → k.queue = (node, layer) :: rest →
      I (visited ++ [(node, layer)]) (k.visit adj node layer rest))
    (fuel : ℕ) (hI : I visited k) :
    ∃ visited', I visited' (k.loop adj fuel) ∧
      ((k.loop adj fuel).queue = [] ∨ visited'.length = visited.length + fuel) := by
  induction fuel generalizing visited k with
  | zero => exact ⟨visited, hI, .inr rfl⟩
  | succ fuel ih =>
      rw [loop]
      cases hqueue : k.queue with
      | nil => exact ⟨visited, hI, .inl hqueue⟩
      | cons e rest =>
          obtain ⟨node, layer⟩ := e
          obtain ⟨visited', hI', hend⟩ := ih (hvisit _ _ _ _ _ hI hqueue)
          refine ⟨visited', hI', hend.imp_right fun hlen => ?_⟩
          rw [hlen, List.length_append, List.length_singleton]
          omega

/-- The loop visits no more programs than the map has, so that its queue is empty when it has
visited that many. -/
theorem Invariant.queue_eq_nil (hinv : Invariant programs visited k)
    (hlen : visited.length = programs.keys.length) : k.queue = [] := by
  -- The visited and the queued programs are distinct programs of the map.
  have hsub : visited.map Prod.fst ++ k.queue.map Prod.fst ⊆ programs.keys := by
    intro v hv
    rw [← AList.mem_keys]
    rcases List.mem_append.mp hv with hv | hv
    · exact hinv.known v hv
    · exact (hinv.queued v hv).1
  have hle := (hinv.nodup.subperm hsub).length_le
  rw [List.length_append, List.length_map, List.length_map, hlen] at hle
  rw [← List.length_eq_zero_iff]
  omega

/-- The loop starts with the programs that have no dependency. -/
theorem start_invariant (orders : BuildOrders) (programs : ProgramConfigs) :
    Invariant programs [] (kahnStart orders programs).2 := by
  have hdegree := (kahnStart_counts orders programs).1
  have hqueue : (kahnStart orders programs).2.queue.map Prod.fst =
      (((kahnStart orders programs).2.inDegrees.iter orders.inDegrees).filter
        fun e => e.2 = 0).map Prod.fst := by
    change List.map Prod.fst (List.map _ _) = _
    rw [List.map_map]
    rfl
  -- The queue holds the programs with in-degree zero.
  have hmem : ∀ v, v ∈ (kahnStart orders programs).2.queue.map Prod.fst ↔
      v ∈ programs ∧ deps programs v = [] := by
    intro v
    simp only [hqueue, List.mem_map, List.mem_filter, Prod.exists, HashMap.mem_iter,
      decide_eq_true_eq, exists_and_right, exists_eq_right]
    rw [hdegree]
    by_cases hv : v ∈ programs <;> simp [hv]
  refine ⟨.nil, by simp, ?_, ?_, ?_, ?_, ?_, rfl⟩
  · rw [List.map_nil, List.nil_append, hqueue]
    exact HashMap.nodup_map_fst_iter.sublist (List.filter_sublist.map Prod.fst)
  · intro v hv
    obtain ⟨hknown, hnil⟩ := (hmem v).mp hv
    exact ⟨hknown, by simp [hnil]⟩
  · intro v hv hdeps
    rw [List.map_nil, List.nil_append, hmem]
    exact ⟨hv, List.eq_nil_iff_forall_not_mem.mpr fun dep hdep => by simpa using hdeps dep hdep⟩
  · intro v
    rw [hdegree]
    simp
  · intro l
    rfl

/-- What the loop has computed when it ends: it visited everything that can be ordered, and the
queue is empty. -/
theorem exists_visited (orders : BuildOrders) (programs : ProgramConfigs) :
    ∃ visited, Invariant programs visited
        ((kahnStart orders programs).2.loop (kahnStart orders programs).1 programs.keys.length) ∧
      ((kahnStart orders programs).2.loop (kahnStart orders programs).1
        programs.keys.length).queue = [] := by
  obtain ⟨visited, hinv, hend⟩ := loop_rule (I := Invariant programs)
    (fun _ _ _ _ _ hinv hqueue => visit_invariant (kahnStart_counts orders programs).2 hinv hqueue)
    programs.keys.length (start_invariant orders programs)
  refine ⟨visited, hinv, hend.elim id fun hlen => hinv.queue_eq_nil ?_⟩
  rw [hlen, List.length_nil, Nat.zero_add]

end Kahn

/-! ## Layers -/

/-- Sorting each of the lists keeps their elements. -/
theorem flatten_map_insertionSort_perm (r : String → String → Prop) [DecidableRel r]
    (ls : List (List String)) : (ls.map (List.insertionSort r)).flatten.Perm ls.flatten := by
  induction ls with
  | nil => exact .refl _
  | cons l ls ih =>
      rw [List.map_cons, List.flatten_cons, List.flatten_cons]
      exact (List.perm_insertionSort r l).append ih

/-- Distributing a list over buckets and reading the buckets one after the other keeps its
elements. -/
theorem flatMap_filter_perm {α : Type*} (f : α → ℕ) (l : List α) (n : ℕ) :
    ((List.range n).flatMap fun i => l.filter fun a => f a = i).Perm
      (l.filter fun a => f a < n) := by
  induction n with
  | zero => simp
  | succ n ih =>
      rw [List.range_succ, List.flatMap_append, List.flatMap_singleton]
      -- The elements below `n + 1` are those below `n` and those equal to `n`.
      have hsplit := List.filter_append_perm (fun a => decide (f a < n))
        (l.filter fun a => f a < n + 1)
      rw [List.filter_filter, List.filter_filter] at hsplit
      have hlow : (l.filter fun a => decide (f a < n) && decide (f a < n + 1)) =
          l.filter fun a => f a < n := by
        refine List.filter_congr fun a _ => ?_
        by_cases h : f a < n
        · simp [h, Nat.lt_succ_of_lt h]
        · simp [h]
      have hlast : (l.filter fun a => !decide (f a < n) && decide (f a < n + 1)) =
          l.filter fun a => f a = n := by
        refine List.filter_congr fun a _ => ?_
        rw [Bool.eq_iff_iff]
        simp only [Bool.and_eq_true, Bool.not_eq_true', decide_eq_true_eq, decide_eq_false_iff_not]
        omega
      rw [hlow, hlast] at hsplit
      exact (ih.append_right _).trans hsplit

/-- The maximum of a list bounds its elements. -/
theorem le_foldl_max {l : List ℕ} {a m : ℕ} (h : a ≤ m ∨ a ∈ l) : a ≤ l.foldl max m := by
  induction l generalizing m with
  | nil => simpa using h
  | cons b l ih =>
      rw [List.mem_cons] at h
      refine ih ?_
      rcases h with h | rfl | h
      · exact .inl (h.trans (Nat.le_max_left m b))
      · exact .inl (Nat.le_max_right m a)
      · exact .inr h

/-- The layers hold the visited programs. -/
theorem layers_covers {visited : List (String × ℕ)} {k : Kahn}
    (hinv : Kahn.Invariant programs visited k) :
    (layers programs k.layersMap).Covers (visited.map Prod.fst) := by
  have hstart : (layers programs k.layersMap).startLayers.flatten.Perm
      (visited.map Prod.fst) := by
    simp only [layers]
    split
    next hempty =>
      -- Without programs nothing was visited.
      have hnil : visited.map Prod.fst = [] := by
        refine List.eq_nil_iff_forall_not_mem.mpr fun v hv => ?_
        have hv' := hinv.known v hv
        rw [AList.mem_keys, List.isEmpty_iff.mp hempty] at hv'
        cases hv'
      rw [hnil]
      exact .refl _
    next =>
      generalize hmax : k.layersMap.keys.foldl max 0 = maxLayer
      -- Dropping the missing layers and sorting the others keeps the elements.
      have hbuckets : ∀ ls : List ℕ,
          (ls.filterMap fun l => (k.layersMap.lookup l).map
            (List.insertionSort (StartsBefore programs))).flatten.Perm
          (ls.flatMap fun l => (visited.filter fun e => e.2 = l).map Prod.fst) := by
        intro ls
        induction ls with
        | nil => exact .refl _
        | cons l ls ih =>
            rw [List.filterMap_cons, List.flatMap_cons, ← hinv.layers]
            cases k.layersMap.lookup l with
            | none => simpa using ih
            | some names =>
                exact (List.perm_insertionSort (StartsBefore programs) names).append ih
      refine (hbuckets _).trans ?_
      rw [← List.map_flatMap]
      refine ((flatMap_filter_perm Prod.snd visited (maxLayer + 1)).trans (.of_eq ?_)).map _
      rw [List.filter_eq_self]
      intro e he
      -- Every visited program is in a layer of the map, none beyond the last one.
      have hmem : e.2 ∈ k.layersMap.keys := by
        rw [← AList.mem_keys, HashMap.mem_iff_lookup]
        have hlayer := hinv.layers e.2
        cases hlookup : k.layersMap.lookup e.2 with
        | some names => exact ⟨names, rfl⟩
        | none =>
            rw [hlookup, Option.getD_none, eq_comm, List.map_eq_nil_iff,
              List.filter_eq_nil_iff] at hlayer
            exact absurd (hlayer e he) (by simp)
      have hle : e.2 ≤ maxLayer := by
        rw [← hmax]
        exact le_foldl_max (.inr hmem)
      simpa using Nat.lt_succ_of_le hle
  refine ⟨hstart, ?_⟩
  have hstop : (layers programs k.layersMap).stopLayers =
      (layers programs k.layersMap).startLayers.reverse.map
        (List.insertionSort (StopsBefore programs)) := rfl
  rw [hstop]
  exact (flatten_map_insertionSort_perm _ _).trans
    ((List.reverse_perm _).flatten.trans hstart)

/-! ## The build -/

/-- The state in which Kahn's algorithm ends. -/
def kahnEnd (orders : BuildOrders) (programs : ProgramConfigs) : Kahn :=
  (kahnStart orders programs).2.loop (kahnStart orders programs).1 programs.keys.length

variable {check : CycleCheck String} {orders : BuildOrders} {g : DependencyGraph}

/-- A build succeeds when the edges exist, the cycle test passes and every program is visited. -/
theorem build_eq_ok_iff :
    build check orders programs = .ok g ↔
      (∃ edges, dependencyEdges programs (programs.iter orders.programs) = .ok edges ∧
        check.isCyclic programs.keys edges = false) ∧
      (kahnEnd orders programs).visitedCount = programs.keys.length ∧
      layers programs (kahnEnd orders programs).layersMap = g := by
  change (dependencyEdges programs (programs.iter orders.programs) >>= fun edges => _) = _ ↔ _
  cases dependencyEdges programs (programs.iter orders.programs) with
  | error err => exact iff_of_false (by rintro ⟨⟩) fun ⟨⟨_, h, _⟩, _⟩ => nomatch h
  | ok edges =>
      simp only [Except.ok.injEq, exists_eq_left']
      change (if check.isCyclic programs.keys edges = true then _ else _) = _ ↔ _
      cases check.isCyclic programs.keys edges with
      | true => exact iff_of_false (by rintro ⟨⟩) fun h => Bool.noConfusion h.1
      | false =>
          change (if (kahnEnd orders programs).visitedCount ≠ programs.keys.length then _
            else _) = _ ↔ _
          by_cases hcount : (kahnEnd orders programs).visitedCount = programs.keys.length
          · rw [if_neg (not_not_intro hcount)]
            simp only [hcount, true_and]
            exact ⟨Except.ok.inj, congrArg Except.ok⟩
          · rw [if_pos hcount]
            exact iff_of_false (by rintro ⟨⟩) fun h => hcount h.2.1

/-- The programs visited when the count is complete are those of the map. -/
theorem visited_perm_keys {visited : List (String × ℕ)} {k : Kahn}
    (hinv : Kahn.Invariant programs visited k) (hcount : k.visitedCount = programs.keys.length) :
    (visited.map Prod.fst).Perm programs.keys := by
  have hsub : visited.map Prod.fst ⊆ programs.keys := fun v hv =>
    AList.mem_keys.mp (hinv.known v hv)
  refine (hinv.order.nodup.subperm hsub).perm_of_length_le ?_
  rw [List.length_map, ← hinv.visitedCount, hcount]

/-- The layers of a successful build hold each program exactly once and nothing else. -/
theorem build_covers (h : build check orders programs = .ok g) : g.Covers programs.keys := by
  obtain ⟨_, hcount, rfl⟩ := build_eq_ok_iff.mp h
  obtain ⟨visited, hinv, _⟩ := Kahn.exists_visited orders programs
  have hperm := visited_perm_keys hinv hcount
  have hcovers := layers_covers hinv
  exact ⟨hcovers.start.trans hperm, hcovers.stop.trans hperm⟩

/-- A build succeeds exactly when every dependency is known and no program depends on itself. -/
theorem build_isOk_iff : (∃ g, build check orders programs = .ok g) ↔ Resolvable programs := by
  obtain ⟨visited, hinv, hqueue⟩ := Kahn.exists_visited orders programs
  constructor
  · rintro ⟨g, h⟩
    obtain ⟨⟨edges, hedges, _⟩, hcount, _⟩ := build_eq_ok_iff.mp h
    refine ⟨dependencyEdges_iter_isOk_iff.mp ⟨edges, hedges⟩, fun v hcycle => ?_⟩
    -- Every program of a cycle is in the topological order of the visit.
    obtain ⟨dep, _, hdep⟩ := Relation.TransGen.tail'_iff.mp hcycle
    have hv : v ∈ visited.map Prod.fst := by
      rw [(visited_perm_keys hinv hcount).mem_iff, ← AList.mem_keys]
      exact mem_of_mem_deps hdep
    exact hinv.order.not_transGen_self hv hcycle
  · intro hres
    obtain ⟨edges, hedges⟩ :=
      (dependencyEdges_iter_isOk_iff (o := orders.programs)).mpr hres.allKnown
    have hmem : ∀ a b, (a, b) ∈ edges ↔ a ∈ deps programs b := fun a b =>
      mem_dependencyEdges_iter hedges
    have hcyclic : check.isCyclic programs.keys edges = false := by
      rw [Bool.eq_false_iff, Ne, check.spec]
      · rintro ⟨v, hcycle⟩
        exact hres.acyclic.mono (fun a b => (hmem a b).mp) v hcycle
      · rintro ⟨a, b⟩ he
        rw [hmem] at he
        exact ⟨AList.mem_keys.mp (hres.allKnown.mem he),
          AList.mem_keys.mp (mem_of_mem_deps he)⟩
    -- A program that was not visited waits for another one that was not visited.
    have hall : ∀ v ∈ programs.keys, v ∈ visited.map Prod.fst := by
      by_contra hex
      have hne : programs.keys.filter (· ∉ visited.map Prod.fst) ≠ [] := by
        intro hnil
        rw [List.filter_eq_nil_iff] at hnil
        exact hex fun v hv => by simpa using hnil v hv
      obtain ⟨v, hv, hsource⟩ := hres.acyclic.exists_source hne
      simp only [List.mem_filter, decide_eq_true_eq] at hv hsource
      have hready := hinv.ready v (AList.mem_keys.mpr hv.1) fun dep hdep => by
        by_contra hdep'
        exact hsource dep ⟨AList.mem_keys.mp (hres.allKnown.mem hdep), hdep'⟩ hdep
      rw [hqueue, List.map_nil, List.append_nil] at hready
      exact hv.2 hready
    have hcount : (kahnEnd orders programs).visitedCount = programs.keys.length := by
      have hle := (programs.keys_nodup.subperm hall).length_le
      have hge := (hinv.order.nodup.subperm fun v hv =>
        AList.mem_keys.mp (hinv.known v hv)).length_le
      rw [List.length_map] at hle hge
      exact hinv.visitedCount.trans (Nat.le_antisymm hge hle)
    exact ⟨_, build_eq_ok_iff.mpr ⟨⟨edges, hedges, hcyclic⟩, hcount, rfl⟩⟩

/-! ## Graphs of a map -/

variable {programs' : ProgramConfigs}

/-- Maps with the same entries are resolvable at the same time. -/
theorem Resolvable.congr (h : ∀ name, programs'.lookup name = programs.lookup name)
    (hres : Resolvable programs) : Resolvable programs' where
  allKnown name cfg hlookup dep hdep := by
    rw [HashMap.mem_congr h]
    exact hres.allKnown name cfg (h name ▸ hlookup) dep hdep
  acyclic := by
    refine hres.acyclic.mono fun a b hab => ?_
    rwa [deps, h, ← deps] at hab

/-- A graph that a build yields for a map with the entries of `programs`. -/
def IsGraphOf (g : DependencyGraph) (programs : ProgramConfigs) : Prop :=
  ∃ check orders programs', (∀ name, programs'.lookup name = programs.lookup name) ∧
    build check orders programs' = .ok g

/-- The layers of a graph of a map hold each program of the map exactly once and nothing else. -/
theorem IsGraphOf.covers (h : g.IsGraphOf programs) : g.Covers programs.keys := by
  obtain ⟨check, orders, programs', hlookup, hbuild⟩ := h
  have hkeys := HashMap.keys_perm fun k => HashMap.mem_congr (k := k) hlookup
  have hcovers := build_covers hbuild
  exact ⟨hcovers.start.trans hkeys, hcovers.stop.trans hkeys⟩

/-- Only a resolvable map has a graph. -/
theorem IsGraphOf.resolvable (h : g.IsGraphOf programs) : Resolvable programs := by
  obtain ⟨check, orders, programs', hlookup, hbuild⟩ := h
  exact (build_isOk_iff.mp ⟨g, hbuild⟩).congr fun name => (hlookup name).symm

end DependencyGraph

end Rsupervisord
