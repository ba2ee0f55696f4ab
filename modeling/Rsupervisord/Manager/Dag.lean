import Mathlib.Data.List.Sort
import Rsupervisord.Config.Schema
import Rsupervisord.Support.TopologicalOrder

/-!
# Dependency graph

`DependencyGraph::build`: the start and stop layers of a set of programs. Programs depend on each
other through their `depends_on` lists. The build rejects unknown dependencies and cycles and then
computes the layers with Kahn's algorithm; within a layer the programs are sorted by priority.

The test for cycles is that of the `petgraph` library, known by what it decides.
-/

namespace Rsupervisord

/-- Start and stop order of a set of programs. -/
structure DependencyGraph where
  /-- The layers in start order; the programs of one layer start concurrently. -/
  startLayers : List (List String)
  /-- The layers in stop order. -/
  stopLayers : List (List String)
  deriving DecidableEq, Repr

namespace DependencyGraph

/-- The iteration orders of the hash maps of one build. -/
structure BuildOrders where
  /-- Order of the given program map. -/
  programs : HashOrder String
  /-- Order of the map of in-degrees. -/
  inDegrees : HashOrder String

/-- The edges of the graph, from each dependency to its dependent. The first unknown dependency is
an error. -/
def dependencyEdges (programs : ProgramConfigs) :
    List (String × ProgramConfig) → Except ProgramError (List (String × String))
  | [] => .ok []
  | (name, cfg) :: rest =>
      match cfg.dependsOn.find? (fun dep => dep ∉ programs) with
      | some dep =>
          .error (.configError s!"Program '{name}' depends on unknown program '{dep}'")
      | none => do
          let edges ← dependencyEdges programs rest
          return cfg.dependsOn.map (·, name) ++ edges

/-! ## Kahn's algorithm -/

/-- The counters of Kahn's algorithm: the number of dependencies that each program still waits for,
and the dependents of each program. -/
structure Counters where
  inDegrees : HashMap String ℕ
  adj : HashMap String (List String)

/-- No program has a dependency yet. -/
def Counters.init (names : List String) : Counters where
  inDegrees := names.foldl (fun m name => m.insert name 0) ∅
  adj := names.foldl (fun m name => m.insert name []) ∅

/-- Count one dependency of `name`. -/
def Counters.addDependency (c : Counters) (name dep : String) : Counters where
  inDegrees := c.inDegrees.insert name ((c.inDegrees.lookup name).getD 0 + 1)
  adj := c.adj.push dep name

/-- Count every dependency of the listed programs. -/
def Counters.count (c : Counters) (programs : List (String × ProgramConfig)) : Counters :=
  programs.foldl (fun c e => e.2.dependsOn.foldl (fun c dep => c.addDependency e.1 dep) c) c

/-- The state of the loop of Kahn's algorithm. -/
structure Kahn where
  /-- The number of dependencies not visited yet. -/
  inDegrees : HashMap String ℕ
  /-- Programs that wait for nothing, with their layer. -/
  queue : List (String × ℕ)
  /-- The programs visited so far, by layer. -/
  layersMap : HashMap ℕ (List String)
  visitedCount : ℕ

namespace Kahn

/-- A dependency of `neighbor` was visited; the last one puts it in the queue. A neighbor occurs in
the adjacency list once for each unit of its in-degree, so that the degree is positive here. -/
def relax (layer : ℕ) (k : Kahn) (neighbor : String) : Kahn :=
  match k.inDegrees.lookup neighbor with
  | some deg =>
      let k := { k with inDegrees := k.inDegrees.insert neighbor (deg - 1) }
      if deg - 1 = 0 then { k with queue := k.queue ++ [(neighbor, layer + 1)] } else k
  | none => k

/-- Visit the program at the front of the queue. -/
def visit (adj : HashMap String (List String)) (k : Kahn) (node : String) (layer : ℕ)
    (rest : List (String × ℕ)) : Kahn :=
  let k := { k with
    queue := rest
    visitedCount := k.visitedCount + 1
    layersMap := k.layersMap.push layer node }
  match adj.lookup node with
  | some neighbors => neighbors.foldl (relax layer) k
  | none => k

/-- The loop, for at most `fuel` visits. -/
def loop (adj : HashMap String (List String)) : ℕ → Kahn → Kahn
  | 0, k => k
  | fuel + 1, k =>
      match k.queue with
      | [] => k
      | (node, layer) :: rest => loop adj fuel (k.visit adj node layer rest)

end Kahn

/-! ## Layers -/

/-- Priority of a program, the default one for an unknown name. -/
def priorityOf (programs : ProgramConfigs) (name : String) : ℕ :=
  ((programs.lookup name).map (·.priority)).getD defaultPriority

/-- Start order within a layer: lower numbers first, then by name. -/
def StartsBefore (programs : ProgramConfigs) (a b : String) : Prop :=
  priorityOf programs a < priorityOf programs b ∨
    priorityOf programs a = priorityOf programs b ∧ a ≤ b

/-- Stop order within a layer: higher numbers first, then by name. -/
def StopsBefore (programs : ProgramConfigs) (a b : String) : Prop :=
  priorityOf programs b < priorityOf programs a ∨
    priorityOf programs b = priorityOf programs a ∧ a ≤ b

instance (programs : ProgramConfigs) : DecidableRel (StartsBefore programs) :=
  fun _ _ => inferInstanceAs (Decidable (_ ∨ _))

instance (programs : ProgramConfigs) : DecidableRel (StopsBefore programs) :=
  fun _ _ => inferInstanceAs (Decidable (_ ∨ _))

/-- Collect the layers in order and sort each of them. -/
def layers (programs : ProgramConfigs) (layersMap : HashMap ℕ (List String)) : DependencyGraph :=
  let maxLayer := layersMap.keys.foldl max 0
  let startLayers :=
    if programs.keys.isEmpty then []
    else (List.range (maxLayer + 1)).filterMap fun l =>
      (layersMap.lookup l).map (List.insertionSort (StartsBefore programs))
  { startLayers := startLayers
    stopLayers := startLayers.reverse.map (List.insertionSort (StopsBefore programs)) }

/-- The state of Kahn's algorithm before the first visit, and the adjacency lists. -/
def kahnStart (orders : BuildOrders) (programs : ProgramConfigs) :
    HashMap String (List String) × Kahn :=
  let c := (Counters.init (orders.programs.arrange programs.keys)).count
    (programs.iter orders.programs)
  let ready := (c.inDegrees.iter orders.inDegrees).filter fun e => e.2 = 0
  (c.adj, {
    inDegrees := c.inDegrees
    queue := ready.map fun e => (e.1, 0)
    layersMap := ∅
    visitedCount := 0 })

/-- `DependencyGraph::build`. -/
def build (check : CycleCheck String) (orders : BuildOrders) (programs : ProgramConfigs) :
    Except ProgramError DependencyGraph := do
  let edges ← dependencyEdges programs (programs.iter orders.programs)
  if check.isCyclic programs.keys edges then
    throw (.configError "Circular dependency detected in program dependencies DAG")
  let (adj, start) := kahnStart orders programs
  let k := start.loop adj programs.keys.length
  if k.visitedCount ≠ programs.keys.length then
    throw (.configError "Circular dependency detected while calculating execution layers")
  return layers programs k.layersMap

end DependencyGraph

end Rsupervisord
