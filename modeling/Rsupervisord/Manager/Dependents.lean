import Rsupervisord.Manager.DagCorrectness
import Rsupervisord.Support.Worklist

/-!
# Dependents of a program

`get_dependents` searches the programs that depend on a program, directly or through others. The
dependencies may be cyclic, and they may name programs that are not in the map.

## Main results

* `DependencyGraph.getDependents_spec`: the search ends with the programs that depend on the target
  through one or more steps.
-/

namespace Rsupervisord

namespace DependencyGraph

/-- `get_dependents`, for at most `fuel` rounds of its loop; `none` when they do not suffice. -/
def getDependents (order : HashOrder String) (programs : ProgramConfigs) (target : String)
    (fuel : ℕ) : Option (Finset String) :=
  Worklist.run (fun name current => current ∈ deps programs name) (order.arrange programs.keys) fuel
    ⟨∅, [target]⟩

/-- One round more than there are programs suffices, and any more make no difference: the search
ends with the programs from which the target is reached through one or more dependencies. -/
theorem getDependents_spec (order : HashOrder String) (programs : ProgramConfigs)
    (target : String) :
    ∃ dependents : Finset String,
      (∀ fuel > programs.keys.length,
        getDependents order programs target fuel = some dependents) ∧
      ∀ name, name ∈ dependents ↔
        Relation.TransGen (fun name dep => dep ∈ deps programs name) name target := by
  have hnodes : ∀ name dep, dep ∈ deps programs name → name ∈ order.arrange programs.keys :=
    fun name dep hdep => HashMap.mem_arrange_keys.mpr (mem_of_mem_deps hdep)
  have hcard : (order.arrange programs.keys).toFinset.card ≤ programs.keys.length :=
    (List.toFinset_card_le _).trans (order.perm programs.keys).length_eq.le
  have hrun : ∀ fuel > programs.keys.length, ∃ dependents,
      getDependents order programs target fuel = some dependents ∧ ∀ name, name ∈ dependents ↔
        Relation.TransGen (fun name dep => dep ∈ deps programs name) name target := by
    intro fuel hfuel
    apply Worklist.run_spec hnodes Worklist.invariant_start
    rw [List.length_singleton, Finset.card_empty]
    omega
  obtain ⟨dependents, -, hmem⟩ := hrun _ (Nat.lt_succ_self _)
  refine ⟨dependents, fun fuel hfuel => ?_, hmem⟩
  obtain ⟨dependents', hdependents', hmem'⟩ := hrun fuel hfuel
  rw [hdependents']
  apply congrArg some
  ext name
  rw [hmem, hmem']

/-- On a cycle a program is among its own dependents; a missing program has dependents, too. -/
example : getDependents .stored
    (HashMap.extend ∅ [("api", { name := "api", command := "a", dependsOn := ["api", "db"] })])
      "db" 2 = some {"api"} := by decide

end DependencyGraph

end Rsupervisord
