import Mathlib.Data.Prod.Lex
import Mathlib.Data.String.Basic
import Rsupervisord.Manager.DagCorrectness

/-!
# Layers of the dependency graph

The layer of a program is zero without dependencies and otherwise one more than the largest layer of
its dependencies. Kahn's algorithm finds it although it takes the layer of a program from the
dependency that happens to be visited last: the queue is ordered by layer, so that the last visited
dependency is in the largest layer.

`IsLayeredBy` describes a graph through the layer numbers of its programs. It determines the graph,
which therefore does not depend on the order in which the hash maps are iterated.

## Main results

* `Kahn.exists_layered`: the loop visits the programs layer by layer.
* `build_isLayeredBy`: the layers of a successful build.
* `IsLayeredBy.unique`: there is one graph with these layers.
* `build_spec`: the specification of the build.
-/

namespace Rsupervisord

namespace DependencyGraph

variable {programs : ProgramConfigs}

/-! ## Layers of the loop -/

namespace Kahn

/-- The layer in which a program was visited. -/
def numberIn (visited : List (String × ℕ)) (name : String) : ℕ := (visited.lookup name).getD 0

/-- The programs are visited and queued layer by layer. -/
structure Layered (programs : ProgramConfigs) (visited : List (String × ℕ)) (k : Kahn) : Prop where
  /-- Programs of lower layers come first. -/
  sorted : (visited ++ k.queue).Pairwise fun e f => e.2 ≤ f.2
  /-- The queue spans two layers. -/
  span : ∀ e ∈ k.queue, ∀ f ∈ k.queue, f.2 ≤ e.2 + 1
  /-- Each program is in the layer above its dependencies. -/
  above : ∀ e ∈ visited ++ k.queue, e.2 = layerAbove (deps programs) (numberIn visited) e.1
  /-- The map holds no empty layer. -/
  inhabited : ∀ l names, k.layersMap.lookup l = some names → names ≠ []

variable {visited : List (String × ℕ)} {k : Kahn} {adj : HashMap String (List String)}
  {name : String}

/-- A visited program has been visited in its layer. -/
theorem mem_numberIn (h : name ∈ visited.map Prod.fst) :
    (name, numberIn visited name) ∈ visited := by
  unfold numberIn
  cases hlookup : visited.lookup name with
  | some l =>
      obtain ⟨l₁, l₂, rfl, _⟩ := List.lookup_eq_some_iff.mp hlookup
      exact List.mem_append_right _ List.mem_cons_self
  | none =>
      obtain ⟨e, he, rfl⟩ := List.mem_map.mp h
      simpa using List.lookup_eq_none_iff.mp hlookup e he

/-- Later visits do not change the layer of a visited program. -/
theorem numberIn_append (h : name ∈ visited.map Prod.fst) (later : List (String × ℕ)) :
    numberIn (visited ++ later) name = numberIn visited name := by
  unfold numberIn
  rw [List.lookup_append]
  cases hlookup : visited.lookup name with
  | some l => rfl
  | none =>
      obtain ⟨e, he, rfl⟩ := List.mem_map.mp h
      simpa using List.lookup_eq_none_iff.mp hlookup e he

/-- The layer of each entry, when no program was visited twice. -/
theorem numberIn_of_mem (hnodup : (visited.map Prod.fst).Nodup) {e : String × ℕ}
    (he : e ∈ visited) : numberIn visited e.1 = e.2 := by
  have hmem := mem_numberIn (List.mem_map_of_mem he)
  exact congrArg Prod.snd (List.inj_on_of_nodup_map hnodup hmem he rfl)

/-- One visit of the loop. -/
theorem visit_layered
    (hadj : ∀ u v, ((adj.lookup u).getD []).count v = (deps programs v).count u)
    (hinv : Invariant programs visited k) (hlayered : Layered programs visited k)
    {node : String} {layer : ℕ} {rest : List (String × ℕ)}
    (hqueue : k.queue = (node, layer) :: rest) :
    Layered programs (visited ++ [(node, layer)]) (k.visit adj node layer rest) := by
  have hnode := hinv.notMem_visited hqueue
  obtain ⟨_, hlayers, _, news, _, hnewsQueue, hmem⟩ := visit_spec hadj hinv hqueue
  obtain ⟨hsorted, hspan, habove, hinhabited⟩ := hlayered
  have hqueued := hinv.queued
  rw [hqueue] at hsorted hspan habove hqueued
  -- The old entries, with the visited one moved over.
  have hmove : visited ++ (node, layer) :: rest = visited ++ [(node, layer)] ++ rest := by simp
  rw [hmove] at hsorted habove
  have hlow : ∀ e ∈ visited ++ [(node, layer)], e.2 ≤ layer := by
    intro e he
    rw [List.append_assoc, List.pairwise_append] at hsorted
    rcases List.mem_append.mp he with he | he
    · exact hsorted.2.2 e he (node, layer) List.mem_cons_self
    · rw [List.mem_singleton.mp he]
  have hrest : ∀ e ∈ rest, layer ≤ e.2 ∧ e.2 ≤ layer + 1 := by
    intro e he
    rw [List.pairwise_append] at hsorted
    exact ⟨hsorted.2.2 (node, layer) (by simp) e he,
      hspan (node, layer) List.mem_cons_self e (List.mem_cons_of_mem _ he)⟩
  have hnew : ∀ e ∈ news.map (·, layer + 1), e.2 = layer + 1 := by
    intro e he
    obtain ⟨v, _, rfl⟩ := List.mem_map.mp he
    rfl
  refine ⟨?_, ?_, ?_, ?_⟩
  · rw [hnewsQueue, ← List.append_assoc, List.pairwise_append]
    refine ⟨hsorted, ?_, ?_⟩
    · exact List.pairwise_of_forall_mem_list fun e he f hf => by rw [hnew e he, hnew f hf]
    · intro e he f hf
      rw [hnew f hf]
      rcases List.mem_append.mp he with he | he
      · exact (hlow e he).trans (Nat.le_succ layer)
      · exact (hrest e he).2
  · rw [hnewsQueue]
    have hbounds : ∀ e ∈ rest ++ news.map (·, layer + 1), layer ≤ e.2 ∧ e.2 ≤ layer + 1 := by
      intro e he
      rcases List.mem_append.mp he with he | he
      · exact hrest e he
      · rw [hnew e he]
        omega
    intro e he f hf
    have he' := hbounds e he
    have hf' := hbounds f hf
    omega
  · rw [hnewsQueue, ← List.append_assoc]
    intro e he
    rcases List.mem_append.mp he with he | he
    · -- The dependencies of an old entry were visited before `node`.
      have hdeps : ∀ dep ∈ deps programs e.1, dep ∈ visited.map Prod.fst := by
        rw [List.append_assoc, List.mem_append] at he
        rcases he with he | he
        · exact hinv.order.closed (List.mem_map_of_mem he)
        · exact (hqueued e.1 (List.mem_map_of_mem he)).2
      rw [habove e (by assumption)]
      exact layerAbove_congr fun dep hdep => (numberIn_append (hdeps dep hdep) _).symm
    · -- A new entry waited for `node`, whose layer is the largest one so far.
      obtain ⟨v, hv, rfl⟩ := List.mem_map.mp he
      obtain ⟨hwaits, hdeps⟩ := (hmem v).mp hv
      rw [eq_comm, layerAbove_eq_succ_iff]
      refine ⟨⟨node, hwaits, ?_⟩, fun dep hdep => ?_⟩
      · rw [numberIn, List.lookup_append, List.lookup_eq_none_iff.mpr]
        · simp
        · intro e he
          simpa using fun heq : node = e.1 => hnode (heq ▸ List.mem_map_of_mem he)
      · refine hlow _ (mem_numberIn ?_)
        rw [List.map_append]
        exact hdeps dep hdep
  · intro l names hlookup
    rw [hlayers, HashMap.lookup_push] at hlookup
    split at hlookup
    next =>
      obtain rfl := Option.some.inj hlookup
      simp
    next => exact hinhabited l names hlookup

/-- The loop starts in layer zero. -/
theorem start_layered (orders : BuildOrders) (programs : ProgramConfigs) :
    Layered programs [] (kahnStart orders programs).2 := by
  have hzero : ∀ e ∈ (kahnStart orders programs).2.queue, e.2 = 0 := by
    intro e he
    obtain ⟨e', _, rfl⟩ := List.mem_map.mp he
    rfl
  have hqueued := (start_invariant orders programs).queued
  refine ⟨?_, ?_, ?_, ?_⟩
  · exact List.pairwise_of_forall_mem_list fun e he f hf => by rw [hzero e he, hzero f hf]
  · intro e he f hf
    rw [hzero f hf]
    exact Nat.zero_le _
  · intro e he
    rw [List.nil_append] at he
    have hnone := (hqueued e.1 (List.mem_map_of_mem he)).2
    rw [hzero e he, layerAbove_of_nil]
    exact List.eq_nil_iff_forall_not_mem.mpr fun dep hdep => by simpa using hnone dep hdep
  · intro l names hlookup
    cases hlookup

/-- The layers of the visited programs. -/
theorem Layered.isLayering (hlayered : Layered programs visited k) :
    IsLayering (deps programs) (visited.map Prod.fst) (numberIn visited) := fun _ h =>
  hlayered.above _ (List.mem_append_left _ (mem_numberIn h))

/-- The layers below that of a visited program are inhabited. -/
theorem Layered.exists_of_le (hlayered : Layered programs visited k)
    (hinv : Invariant programs visited k) {e : String × ℕ} (he : e ∈ visited) {n : ℕ}
    (hn : n ≤ e.2) : ∃ f ∈ visited, f.2 = n := by
  rw [← numberIn_of_mem hinv.order.nodup he] at hn
  obtain ⟨name, hname, hnumber⟩ := hlayered.isLayering.exists_of_le
    (fun _ h => hinv.order.closed h) (List.mem_map_of_mem he) hn
  exact ⟨_, mem_numberIn hname, hnumber⟩

/-- The map holds the layers of the visited programs. -/
theorem Layered.mem_layersMap (hlayered : Layered programs visited k)
    (hinv : Invariant programs visited k) {l : ℕ} :
    l ∈ k.layersMap ↔ ∃ e ∈ visited, e.2 = l := by
  have hbucket := hinv.layers l
  rw [HashMap.mem_iff_lookup]
  constructor
  · rintro ⟨names, hnames⟩
    rw [hnames, Option.getD_some] at hbucket
    obtain ⟨name, hname⟩ := List.exists_mem_of_ne_nil _ (hlayered.inhabited l names hnames)
    rw [hbucket, List.mem_map] at hname
    obtain ⟨e, he, _⟩ := hname
    rw [List.mem_filter, decide_eq_true_eq] at he
    exact ⟨e, he⟩
  · rintro ⟨e, he, hl⟩
    cases hnames : k.layersMap.lookup l with
    | some names => exact ⟨names, rfl⟩
    | none =>
        rw [hnames, Option.getD_none, eq_comm, List.map_eq_nil_iff,
          List.filter_eq_nil_iff] at hbucket
        exact absurd (hbucket e he) (by simp [hl])

/-- The loop visits the programs layer by layer. -/
theorem exists_layered (orders : BuildOrders) (programs : ProgramConfigs) :
    ∃ visited, Invariant programs visited (kahnEnd orders programs) ∧
      Layered programs visited (kahnEnd orders programs) := by
  have hadj := (kahnStart_counts orders programs).2
  obtain ⟨visited, hinv, _⟩ := loop_rule
    (I := fun visited k => Invariant programs visited k ∧ Layered programs visited k)
    (fun _ _ _ _ _ h hqueue =>
      ⟨visit_invariant hadj h.1 hqueue, visit_layered hadj h.1 h.2 hqueue⟩)
    programs.keys.length ⟨start_invariant orders programs, start_layered orders programs⟩
  exact ⟨visited, hinv⟩

end Kahn

/-! ## Layers of the graph -/

/-- The start order is the order of the pairs of priority and name. -/
theorem startsBefore_iff {a b : String} :
    StartsBefore programs a b ↔
      toLex (priorityOf programs a, a) ≤ toLex (priorityOf programs b, b) := by
  rw [Prod.Lex.toLex_le_toLex]
  rfl

/-- The stop order is the order of these pairs with the priorities turned around. -/
theorem stopsBefore_iff {a b : String} :
    StopsBefore programs a b ↔
      toLex (OrderDual.toDual (priorityOf programs a), a) ≤
        toLex (OrderDual.toDual (priorityOf programs b), b) := by
  rw [Prod.Lex.toLex_le_toLex]
  unfold StopsBefore
  show _ ↔ priorityOf programs b < priorityOf programs a ∨
    priorityOf programs a = priorityOf programs b ∧ a ≤ b
  rw [eq_comm (a := priorityOf programs b)]

instance (programs : ProgramConfigs) : Std.Antisymm (StartsBefore programs) where
  antisymm _ _ hab hba := congrArg (fun p => (ofLex p).2)
    (le_antisymm (startsBefore_iff.mp hab) (startsBefore_iff.mp hba))

instance (programs : ProgramConfigs) : IsTrans String (StartsBefore programs) where
  trans _ _ _ hab hbc :=
    startsBefore_iff.mpr ((startsBefore_iff.mp hab).trans (startsBefore_iff.mp hbc))

instance (programs : ProgramConfigs) : Std.Total (StartsBefore programs) where
  total _ _ := (le_total _ _).imp startsBefore_iff.mpr startsBefore_iff.mpr

instance (programs : ProgramConfigs) : Std.Antisymm (StopsBefore programs) where
  antisymm _ _ hab hba := congrArg (fun p => (ofLex p).2)
    (le_antisymm (stopsBefore_iff.mp hab) (stopsBefore_iff.mp hba))

instance (programs : ProgramConfigs) : IsTrans String (StopsBefore programs) where
  trans _ _ _ hab hbc :=
    stopsBefore_iff.mpr ((stopsBefore_iff.mp hab).trans (stopsBefore_iff.mp hbc))

instance (programs : ProgramConfigs) : Std.Total (StopsBefore programs) where
  total _ _ := (le_total _ _).imp stopsBefore_iff.mpr stopsBefore_iff.mpr

/-- The layers of the graph are those of the numbering, in the order of the numbers. -/
structure IsLayeredBy (programs : ProgramConfigs) (number : String → ℕ) (g : DependencyGraph) :
    Prop where
  /-- A program without dependencies is in layer zero, another one in the layer above them. -/
  layering : IsLayering (deps programs) programs.keys number
  /-- The start layers hold each program once. -/
  partition : g.startLayers.flatten.Perm programs.keys
  /-- Each program is in the layer of its number. -/
  mem_layer : ∀ i name,
    (∃ layer, g.startLayers[i]? = some layer ∧ name ∈ layer) ↔ name ∈ programs ∧ number name = i
  nonempty : ∀ layer ∈ g.startLayers, layer ≠ []
  /-- Each start layer is sorted by priority and name. -/
  startSorted : ∀ layer ∈ g.startLayers, layer.Pairwise (StartsBefore programs)
  /-- The stop layers are the start layers in reverse, each sorted by descending priority and
  name. -/
  stop : List.Forall₂ (fun stop start => stop.Perm start ∧ stop.Pairwise (StopsBefore programs))
    g.stopLayers g.startLayers.reverse

section Build

variable {check check' : CycleCheck String} {orders orders' : BuildOrders}
  {g g' : DependencyGraph} {number number' : String → ℕ} {programs' : ProgramConfigs}

/-- The maximum of a list is its start value or one of its elements. -/
theorem foldl_max_eq_or_mem (l : List ℕ) (m : ℕ) : l.foldl max m = m ∨ l.foldl max m ∈ l := by
  induction l generalizing m with
  | nil => exact .inl rfl
  | cons a l ih =>
      rw [List.foldl_cons, List.mem_cons]
      rcases ih (max m a) with h | h
      · rw [h]
        rcases max_choice m a with hm | ha
        · exact .inl hm
        · exact .inr (.inl ha)
      · exact .inr (.inr h)

/-- The start layers are the layers of the visited programs, from the lowest to the highest. -/
theorem layers_startLayers {visited : List (String × ℕ)} {k : Kahn}
    (hinv : Kahn.Invariant programs visited k) (hlayered : Kahn.Layered programs visited k)
    (hperm : (visited.map Prod.fst).Perm programs.keys) :
    ∃ n, (∀ e ∈ visited, e.2 < n) ∧ (∀ i < n, ∃ e ∈ visited, e.2 = i) ∧
      (layers programs k.layersMap).startLayers = (List.range n).map fun i =>
        ((visited.filter fun e => e.2 = i).map Prod.fst).insertionSort (StartsBefore programs) := by
  by_cases hempty : programs.keys = []
  · refine ⟨0, ?_, fun i hi => absurd hi (Nat.not_lt_zero i), ?_⟩
    · rw [hempty, List.perm_nil, List.map_eq_nil_iff] at hperm
      rw [hperm]
      exact fun e he => nomatch he
    · simp [layers, hempty]
  · have hmem := fun l => hlayered.mem_layersMap hinv (l := l)
    have hne : visited ≠ [] := by
      rintro rfl
      exact hempty (List.nil_perm.mp hperm)
    -- The highest layer is that of some program, and the layers below it are inhabited.
    have htop : ∃ e ∈ visited, k.layersMap.keys.foldl max 0 ≤ e.2 := by
      rcases foldl_max_eq_or_mem k.layersMap.keys 0 with h | h
      · obtain ⟨e, he⟩ := List.exists_mem_of_ne_nil _ hne
        rw [h]
        exact ⟨e, he, Nat.zero_le _⟩
      · obtain ⟨e, he, heq⟩ := (hmem _).mp (AList.mem_keys.mpr h)
        exact ⟨e, he, heq.ge⟩
    have hbelow : ∀ i < k.layersMap.keys.foldl max 0 + 1, ∃ e ∈ visited, e.2 = i := by
      intro i hi
      obtain ⟨e, he, hle⟩ := htop
      exact hlayered.exists_of_le hinv he (by omega)
    refine ⟨k.layersMap.keys.foldl max 0 + 1, fun e he => ?_, hbelow, ?_⟩
    · exact Nat.lt_succ_of_le
        (le_foldl_max (.inr (AList.mem_keys.mp ((hmem e.2).mpr ⟨e, he, rfl⟩))))
    · have hnonempty : programs.keys.isEmpty = false := by simpa using hempty
      simp only [layers, hnonempty, Bool.false_eq_true, if_false]
      refine List.filterMap_eq_map_iff_forall_eq_some.mpr fun i hi => ?_
      obtain ⟨names, hnames⟩ := HashMap.mem_iff_lookup.mp
        ((hmem i).mpr (hbelow i (List.mem_range.mp hi)))
      rw [← hinv.layers, hnames]
      rfl

/-- The layers of a successful build are the longest-path layers of the programs. -/
theorem build_isLayeredBy (h : build check orders programs = .ok g) :
    ∃ number, IsLayeredBy programs number g := by
  obtain ⟨_, hcount, rfl⟩ := build_eq_ok_iff.mp h
  obtain ⟨visited, hinv, hlayered⟩ := Kahn.exists_layered orders programs
  have hperm := visited_perm_keys hinv hcount
  have hcovers := layers_covers hinv
  obtain ⟨n, hlt, hinhabited, hstart⟩ := layers_startLayers hinv hlayered hperm
  have hlayer : ∀ layer ∈ (layers programs (kahnEnd orders programs).layersMap).startLayers,
      ∃ i < n, layer = ((visited.filter fun e => e.2 = i).map Prod.fst).insertionSort
        (StartsBefore programs) := by
    rw [hstart]
    intro layer hmem
    obtain ⟨i, hi, rfl⟩ := List.mem_map.mp hmem
    exact ⟨i, List.mem_range.mp hi, rfl⟩
  refine ⟨Kahn.numberIn visited, ?_, hcovers.start.trans hperm, ?_, ?_, ?_, ?_⟩
  · exact fun name hname => hlayered.isLayering name (hperm.mem_iff.mpr hname)
  · intro i name
    rw [hstart, List.getElem?_map, AList.mem_keys, ← hperm.mem_iff]
    constructor
    · rintro ⟨layer, hi, hname⟩
      obtain ⟨j, hj, rfl⟩ := Option.map_eq_some_iff.mp hi
      obtain ⟨hlt, hget⟩ := List.getElem?_eq_some_iff.mp hj
      rw [List.getElem_range] at hget
      rw [List.mem_insertionSort, List.mem_map] at hname
      obtain ⟨e, he, rfl⟩ := hname
      rw [List.mem_filter, decide_eq_true_eq] at he
      exact ⟨List.mem_map_of_mem he.1,
        (Kahn.numberIn_of_mem hinv.order.nodup he.1).trans (he.2.trans hget.symm)⟩
    · rintro ⟨hname, rfl⟩
      have hmem := Kahn.mem_numberIn hname
      refine ⟨_, by rw [List.getElem?_range (hlt _ hmem), Option.map_some], ?_⟩
      rw [List.mem_insertionSort]
      exact List.mem_map_of_mem (List.mem_filter.mpr ⟨hmem, decide_eq_true rfl⟩)
  · intro layer hmem hnil
    obtain ⟨i, hi, rfl⟩ := hlayer layer hmem
    obtain ⟨e, he, hei⟩ := hinhabited i hi
    have hname : e.1 ∈ ((visited.filter fun e => e.2 = i).map Prod.fst).insertionSort
        (StartsBefore programs) := by
      rw [List.mem_insertionSort]
      exact List.mem_map_of_mem (List.mem_filter.mpr ⟨he, decide_eq_true hei⟩)
    rw [hnil] at hname
    cases hname
  · intro layer hmem
    obtain ⟨i, _, rfl⟩ := hlayer layer hmem
    exact List.pairwise_insertionSort _ _
  · show List.Forall₂ _ ((layers programs _).startLayers.reverse.map _) _
    rw [List.forall₂_map_left_iff, List.forall₂_same]
    exact fun layer _ => ⟨List.perm_insertionSort _ _, List.pairwise_insertionSort _ _⟩

/-- The layers of a numbering, one by one. -/
theorem IsLayeredBy.getElem?_startLayers (h : IsLayeredBy programs number g)
    (h' : IsLayeredBy programs number' g') (heq : ∀ name ∈ programs, number name = number' name)
    {i : ℕ} {layer : List String} (hlayer : g.startLayers[i]? = some layer) :
    g'.startLayers[i]? = some layer := by
  have hmem := List.mem_of_getElem? hlayer
  -- Some program of the layer is in the layer `i` of the other graph, too.
  obtain ⟨name, hname⟩ := List.exists_mem_of_ne_nil _ (h.nonempty layer hmem)
  have hnumber := (h.mem_layer i name).mp ⟨layer, hlayer, hname⟩
  obtain ⟨layer', hlayer', _⟩ :=
    (h'.mem_layer i name).mpr ⟨hnumber.1, heq name hnumber.1 ▸ hnumber.2⟩
  have hmem' := List.mem_of_getElem? hlayer'
  have hiff : ∀ name, name ∈ layer ↔ name ∈ layer' := by
    intro name
    have hleft := h.mem_layer i name
    have hright := h'.mem_layer i name
    simp only [hlayer, Option.some.injEq, exists_eq_left'] at hleft
    simp only [hlayer', Option.some.injEq, exists_eq_left'] at hright
    rw [hleft, hright]
    exact and_congr_right fun hname => by rw [heq name hname]
  have hnodup := List.nodup_flatten.mp (h.partition.nodup_iff.mpr programs.keys_nodup)
  have hnodup' := List.nodup_flatten.mp (h'.partition.nodup_iff.mpr programs.keys_nodup)
  have hperm : layer.Perm layer' :=
    (List.perm_ext_iff_of_nodup (hnodup.1 layer hmem) (hnodup'.1 layer' hmem')).mpr hiff
  rw [hlayer', hperm.eq_of_pairwise' (h.startSorted layer hmem) (h'.startSorted layer' hmem')]

/-- There is one graph with the longest-path layers of resolvable programs. -/
theorem IsLayeredBy.unique {l : List String} (horder : TopologicalOrder (deps programs) l)
    (hl : l.Perm programs.keys) (h : IsLayeredBy programs number g)
    (h' : IsLayeredBy programs number' g') : g = g' := by
  have heq : ∀ name ∈ programs, number name = number' name := by
    intro name hname
    exact horder.layering_unique (fun a ha => h.layering a (hl.mem_iff.mp ha))
      (fun a ha => h'.layering a (hl.mem_iff.mp ha)) name
      (hl.mem_iff.mpr (AList.mem_keys.mp hname))
  have hstart : g.startLayers = g'.startLayers := by
    ext i layer
    exact ⟨h.getElem?_startLayers h' heq,
      h'.getElem?_startLayers h fun name hname => (heq name hname).symm⟩
  have hstop : g.stopLayers = g'.stopLayers := by
    -- A layer has one order in which it is sorted.
    refine List.left_unique_forall₂' ?_ h.stop (hstart ▸ h'.stop)
    intro a b c ha hb
    exact (ha.1.trans hb.1.symm).eq_of_pairwise' ha.2 hb.2
  cases g
  cases g'
  exact congrArg₂ DependencyGraph.mk hstart hstop

/-- The layers depend on the entries of the map only. -/
theorem IsLayeredBy.congr (hlookup : ∀ name, programs'.lookup name = programs.lookup name)
    (h : IsLayeredBy programs number g) : IsLayeredBy programs' number g := by
  have hdeps : deps programs' = deps programs := by
    ext1 name
    rw [deps, hlookup, ← deps]
  have hpriority : priorityOf programs' = priorityOf programs := by
    ext1 name
    rw [priorityOf, hlookup, ← priorityOf]
  have hstarts : StartsBefore programs' = StartsBefore programs := by
    unfold StartsBefore
    rw [hpriority]
  have hstops : StopsBefore programs' = StopsBefore programs := by
    unfold StopsBefore
    rw [hpriority]
  have hmem := fun name => HashMap.mem_congr (k := name) hlookup
  have hkeys := HashMap.keys_perm hmem
  obtain ⟨hlayering, hpartition, hlayer, hnonempty, hsorted, hstop⟩ := h
  refine ⟨?_, hpartition.trans hkeys.symm, ?_, hnonempty, ?_, ?_⟩
  · rw [hdeps]
    exact fun name hname => hlayering name (hkeys.mem_iff.mp hname)
  · intro i name
    rw [hmem]
    exact hlayer i name
  · rwa [hstarts]
  · rwa [hstops]

/-- A build does not depend on the order in which the maps are iterated. -/
theorem build_congr (hlookup : ∀ name, programs'.lookup name = programs.lookup name)
    (h : build check orders programs = .ok g) : build check' orders' programs' = .ok g := by
  have hres := (build_isOk_iff.mp ⟨g, h⟩).congr hlookup
  obtain ⟨g', h'⟩ := (@build_isOk_iff _ check' orders').mpr hres
  obtain ⟨number, hg⟩ := build_isLayeredBy h
  obtain ⟨number', hg'⟩ := build_isLayeredBy h'
  -- The order of the visit is a topological order of the programs.
  obtain ⟨_, hcount, _⟩ := build_eq_ok_iff.mp h'
  obtain ⟨visited, hinv, _⟩ := Kahn.exists_visited orders' programs'
  rw [h', (hg.congr hlookup).unique hinv.order (visited_perm_keys hinv hcount) hg']

/-- A relation of the elements on the right carries over to the left. -/
theorem pairwise_of_forall₂ {α β : Type*} {P : α → β → Prop} {R : α → α → Prop}
    {S : β → β → Prop} (hRS : ∀ a a' b b', P a b → P a' b' → S b b' → R a a') {l : List α}
    {l' : List β} (h : List.Forall₂ P l l') (hl' : l'.Pairwise S) : l.Pairwise R := by
  have hlength := h.length_eq
  rw [List.pairwise_iff_getElem] at hl' ⊢
  intro i j hi hj hij
  exact hRS _ _ _ _ (h.get hi (hlength ▸ hi)) (h.get hj (hlength ▸ hj))
    (hl' i j (hlength ▸ hi) (hlength ▸ hj) hij)

/-- The programs in layer zero are those without dependencies. -/
theorem IsLayeredBy.number_eq_zero_iff (h : IsLayeredBy programs number g) {name : String}
    (hname : name ∈ programs) : number name = 0 ↔ deps programs name = [] := by
  rw [h.layering name (AList.mem_keys.mp hname), layerAbove_eq_zero_iff]

/-- An element on the left has a partner on the right. -/
theorem exists_of_mem_forall₂ {α β : Type*} {P : α → β → Prop} {l : List α} {l' : List β}
    (h : List.Forall₂ P l l') {a : α} (ha : a ∈ l) : ∃ b ∈ l', P a b := by
  obtain ⟨i, hi, rfl⟩ := List.mem_iff_getElem.mp ha
  have hi' : i < l'.length := h.length_eq ▸ hi
  exact ⟨_, List.getElem_mem hi', h.get hi hi'⟩

/-- A start layer has the programs of one number. -/
theorem IsLayeredBy.mem_startLayer (h : IsLayeredBy programs number g) {layer : List String}
    (hlayer : layer ∈ g.startLayers) :
    ∃ i, ∀ name, name ∈ layer ↔ name ∈ programs ∧ number name = i := by
  obtain ⟨i, hi, rfl⟩ := List.mem_iff_getElem.mp hlayer
  refine ⟨i, fun name => ?_⟩
  rw [← h.mem_layer i name, List.getElem?_eq_getElem hi]
  simp

/-- A stop layer has the programs of one number. -/
theorem IsLayeredBy.mem_stopLayer (h : IsLayeredBy programs number g) {layer : List String}
    (hlayer : layer ∈ g.stopLayers) :
    ∃ i, ∀ name, name ∈ layer ↔ name ∈ programs ∧ number name = i := by
  obtain ⟨layer', hlayer', hperm, _⟩ := exists_of_mem_forall₂ h.stop hlayer
  obtain ⟨i, hi⟩ := h.mem_startLayer (List.mem_reverse.mp hlayer')
  exact ⟨i, fun name => hperm.mem_iff.trans (hi name)⟩

/-- The programs with the number of a program are a start layer. -/
theorem IsLayeredBy.exists_startLayer (h : IsLayeredBy programs number g) {name : String}
    (hname : name ∈ programs) : ∃ layer ∈ g.startLayers,
      ∀ name', name' ∈ layer ↔ name' ∈ programs ∧ number name' = number name := by
  obtain ⟨layer, hlayer, _⟩ := (h.mem_layer (number name) name).mpr ⟨hname, rfl⟩
  refine ⟨layer, List.mem_of_getElem? hlayer, fun name' => ?_⟩
  rw [← h.mem_layer, hlayer]
  simp

/-- The programs with the number of a program are a stop layer. -/
theorem IsLayeredBy.exists_stopLayer (h : IsLayeredBy programs number g) {name : String}
    (hname : name ∈ programs) : ∃ layer ∈ g.stopLayers,
      ∀ name', name' ∈ layer ↔ name' ∈ programs ∧ number name' = number name := by
  obtain ⟨layer, hlayer, hmem⟩ := h.exists_startLayer hname
  obtain ⟨layer', hlayer', hperm, _⟩ :=
    exists_of_mem_forall₂ h.stop.flip (List.mem_reverse.mpr hlayer)
  exact ⟨layer', hlayer', fun name' => hperm.mem_iff.trans (hmem name')⟩

/-- The numbers grow along the start layers. -/
theorem IsLayeredBy.startLayers_pairwise (h : IsLayeredBy programs number g) :
    g.startLayers.Pairwise fun l l' => ∀ a ∈ l, ∀ b ∈ l', number a < number b := by
  rw [List.pairwise_iff_getElem]
  intro i j hi hj hij a ha b hb
  rw [((h.mem_layer i a).mp ⟨_, List.getElem?_eq_getElem hi, ha⟩).2,
    ((h.mem_layer j b).mp ⟨_, List.getElem?_eq_getElem hj, hb⟩).2]
  exact hij

/-- The numbers fall along the stop layers. -/
theorem IsLayeredBy.stopLayers_pairwise (h : IsLayeredBy programs number g) :
    g.stopLayers.Pairwise fun l l' => ∀ a ∈ l, ∀ b ∈ l', number b < number a := by
  refine pairwise_of_forall₂ ?_ h.stop (List.pairwise_reverse.mpr h.startLayers_pairwise)
  intro l l' k k' hl hl' hlt a ha b hb
  exact hlt b (hl'.1.mem_iff.mp hb) a (hl.1.mem_iff.mp ha)

/-- Two programs that each depend on an unknown program. -/
def twoUnknown : ProgramConfigs :=
  (AList.insert "a" { ProgramConfig.new "a" "true" with dependsOn := ["x"] } ∅).insert "b"
    { ProgramConfig.new "b" "true" with dependsOn := ["y"] }

/-- The specification of the build: it succeeds exactly when every dependency is known and no
program depends on itself, and then yields the longest-path layers, whatever the order in which the
maps are iterated. -/
theorem build_spec (check : CycleCheck String) (orders : BuildOrders) (programs : ProgramConfigs) :
    ((∃ g, build check orders programs = .ok g) ↔ Resolvable programs) ∧
      ∀ g, build check orders programs = .ok g →
        (∃ number, IsLayeredBy programs number g) ∧
          ∀ check' orders' programs',
            (∀ name, programs'.lookup name = programs.lookup name) →
            build check' orders' programs' = .ok g :=
  ⟨build_isOk_iff, fun _ h => ⟨build_isLayeredBy h, fun _ _ _ hlookup => build_congr hlookup h⟩⟩

/-- The error of a failed build does depend on it: it names the first unknown dependency that the
iteration meets. -/
theorem build_error_depends_on_order :
    build .byPruning ⟨.stored, .stored⟩ twoUnknown ≠
      build .byPruning ⟨⟨List.reverse, List.reverse_perm⟩, .stored⟩ twoUnknown := by
  decide

end Build

end DependencyGraph

end Rsupervisord
