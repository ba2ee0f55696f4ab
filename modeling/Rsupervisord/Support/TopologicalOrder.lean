import Mathlib.Data.Fintype.Defs
import Mathlib.Data.Finite.Defs
import Mathlib.Order.Lattice.Nat
import Mathlib.Order.WellFounded
import Mathlib.Data.Fintype.Order
import Mathlib.Logic.Relation

/-!
# Topological orders

A dependency relation is acyclic when no element depends on itself through one or more steps. On a
finite set this is witnessed by a topological order, a list in which each element comes after all
that it depends on, and refuted by a set in which each element depends on another one of the set.

## Main results

* `IsAcyclic.exists_source`: every nonempty list has an element that depends on no other one of it.
* `TopologicalOrder.not_transGen_self`: the elements of a topological order lie on no cycle.
* `TopologicalOrder.layering_unique`: a finite order has one layering by longest paths.
* `isCyclic_iff`: pruning the elements that nothing points to decides whether there is a cycle.
-/

section Acyclic

variable {α : Type*}

/-- No element is related to itself through one or more steps. -/
def IsAcyclic (r : α → α → Prop) : Prop := ∀ a, ¬ Relation.TransGen r a a

/-- A smaller relation is acyclic, too. -/
theorem IsAcyclic.mono {r s : α → α → Prop} (h : IsAcyclic s) (hrs : ∀ a b, r a b → s a b) :
    IsAcyclic r := by
  intro a hcycle
  exact h a (hcycle.lift id hrs)

/-- Every nonempty list has an element that none of its elements is related to. -/
theorem IsAcyclic.exists_source {r : α → α → Prop} (h : IsAcyclic r) {l : List α} (hl : l ≠ []) :
    ∃ b ∈ l, ∀ a ∈ l, ¬ r a b := by
  -- The transitive closure, restricted to the list, is a strict order on a finite type.
  let s : {a // a ∈ l} → {a // a ∈ l} → Prop := fun a b => Relation.TransGen r a b
  have : IsTrans _ s := ⟨fun _ _ _ => Relation.TransGen.trans⟩
  have : Std.Irrefl s := ⟨fun a => h a⟩
  have : Finite {a // a ∈ l} := List.finite_toSet l
  obtain ⟨a, ha⟩ := List.exists_mem_of_ne_nil l hl
  obtain ⟨b, _, hb⟩ := (Finite.wellFounded_of_trans_of_irrefl s).has_min Set.univ ⟨⟨a, ha⟩, trivial⟩
  exact ⟨b.1, b.2, fun c hc hcb => hb ⟨c, hc⟩ trivial (.single hcb)⟩

/-! ## Lists in dependency order -/

variable {deps : α → List α}

/-- Each element of the list comes after everything that it depends on. -/
inductive TopologicalOrder (deps : α → List α) : List α → Prop
  | nil : TopologicalOrder deps []
  | snoc {l : List α} {a : α} : TopologicalOrder deps l → a ∉ l → (∀ b ∈ deps a, b ∈ l) →
      TopologicalOrder deps (l ++ [a])

namespace TopologicalOrder

variable {l : List α} {a : α}

/-- The elements of a topological order are distinct. -/
theorem nodup (h : TopologicalOrder deps l) : l.Nodup := by
  induction h with
  | nil => exact List.nodup_nil
  | snoc _ hnotMem _ ih =>
      rw [← List.concat_eq_append, List.nodup_concat]
      exact ⟨hnotMem, ih⟩

/-- What an element depends on is in the list. -/
theorem closed (h : TopologicalOrder deps l) (ha : a ∈ l) : ∀ b ∈ deps a, b ∈ l := by
  induction h with
  | nil => cases ha
  | snoc _ _ hdeps ih =>
      intro b hb
      rw [List.mem_append, List.mem_singleton] at ha
      rw [List.mem_append]
      rcases ha with ha | rfl
      · exact .inl (ih ha b hb)
      · exact .inl (hdeps b hb)

/-- Everything that leads to an element of a topological order is in the list. -/
theorem mem_of_reflTransGen (h : TopologicalOrder deps l) {b : α}
    (hba : Relation.ReflTransGen (fun b a => b ∈ deps a) b a) (ha : a ∈ l) : b ∈ l := by
  induction hba using Relation.ReflTransGen.head_induction_on with
  | refl => exact ha
  | head hstep _ ih => exact h.closed ih _ hstep

/-- The elements of a topological order lie on no cycle. -/
theorem not_transGen_self (h : TopologicalOrder deps l) (ha : a ∈ l) :
    ¬ Relation.TransGen (fun b a => b ∈ deps a) a a := by
  induction h with
  | nil => cases ha
  | snoc hl hnotMem hdeps ih =>
      rw [List.mem_append, List.mem_singleton] at ha
      rcases ha with ha | rfl
      · exact ih ha
      · intro hcycle
        -- A cycle through the last element enters it from the prefix, which is closed.
        obtain ⟨b, hab, hb⟩ := Relation.TransGen.tail'_iff.mp hcycle
        exact hnotMem (hl.mem_of_reflTransGen hab (hdeps b hb))

end TopologicalOrder

/-! ## Layers -/

/-- The layer of `a` above the layers of what it depends on: zero without dependencies, and
otherwise one more than the largest of them. -/
def layerAbove (deps : α → List α) (number : α → ℕ) (a : α) : ℕ :=
  ((deps a).map number).max?.elim 0 (· + 1)

/-- Each element of the list is in the layer above its dependencies. -/
def IsLayering (deps : α → List α) (l : List α) (number : α → ℕ) : Prop :=
  ∀ a ∈ l, number a = layerAbove deps number a

section Layers

variable {number number' : α → ℕ} {l : List α} {a : α} {n : ℕ}

/-- Only the layers of the dependencies count. -/
theorem layerAbove_congr (h : ∀ b ∈ deps a, number b = number' b) :
    layerAbove deps number a = layerAbove deps number' a := by
  unfold layerAbove
  rw [List.map_congr_left h]

/-- Without dependencies the layer is zero. -/
theorem layerAbove_of_nil (h : deps a = []) : layerAbove deps number a = 0 := by
  rw [layerAbove, h]
  rfl

/-- The layer is one more than that of a dependency, and more than that of all. -/
theorem layerAbove_eq_succ_iff :
    layerAbove deps number a = n + 1 ↔
      (∃ b ∈ deps a, number b = n) ∧ ∀ b ∈ deps a, number b ≤ n := by
  have hmax : layerAbove deps number a = n + 1 ↔ ((deps a).map number).max? = some n := by
    unfold layerAbove
    cases ((deps a).map number).max? with
    | none => simp
    | some m => simp
  rw [hmax, List.max?_eq_some_iff, List.mem_map, List.forall_mem_map]

/-- The layer is zero without dependencies only. -/
theorem layerAbove_eq_zero_iff : layerAbove deps number a = 0 ↔ deps a = [] := by
  refine ⟨fun hzero => ?_, layerAbove_of_nil⟩
  by_contra hne
  obtain ⟨b, hb⟩ := List.exists_mem_of_ne_nil _ hne
  obtain ⟨n, hn⟩ := Option.ne_none_iff_exists'.mp
    (mt List.max?_eq_none_iff.mp (List.ne_nil_of_mem (List.mem_map_of_mem (f := number) hb)))
  rw [layerAbove, hn] at hzero
  cases hzero

/-- The layers below a layer are inhabited. -/
theorem IsLayering.exists_of_le (h : IsLayering deps l number)
    (hclosed : ∀ a ∈ l, ∀ b ∈ deps a, b ∈ l) (ha : a ∈ l) (hn : n ≤ number a) :
    ∃ b ∈ l, number b = n := by
  induction hn using Nat.decreasingInduction with
  | self => exact ⟨a, ha, rfl⟩
  | of_succ m _ ih =>
      obtain ⟨b, hb, hnumber⟩ := ih
      rw [h b hb, layerAbove_eq_succ_iff] at hnumber
      obtain ⟨⟨c, hc, hm⟩, _⟩ := hnumber
      exact ⟨c, hclosed b hb c hc, hm⟩

/-- There is one layering of a topological order. -/
theorem TopologicalOrder.layering_unique (horder : TopologicalOrder deps l)
    (h : IsLayering deps l number) (h' : IsLayering deps l number') :
    ∀ a ∈ l, number a = number' a := by
  induction horder with
  | nil => exact fun _ ha => nomatch ha
  | snoc _ _ hdeps ih =>
      have hbegins := ih (fun b hb => h b (List.mem_append_left _ hb))
        fun b hb => h' b (List.mem_append_left _ hb)
      intro b hb
      rcases List.mem_append.mp hb with hmem | hlast
      · exact hbegins b hmem
      · -- The dependencies of the last element are before it.
        rw [List.mem_singleton] at hlast
        subst hlast
        rw [h b hb, h' b hb]
        exact layerAbove_congr fun c hc => hbegins c (hdeps c hc)

end Layers

/-! ## Deciding acyclicity -/

/-- A test for cycles in a directed graph, given by its nodes and its edges. -/
structure CycleCheck (α : Type*) where
  /-- The graph has a cycle. -/
  isCyclic : List α → List (α × α) → Bool
  /-- The test is exact for every graph whose edges join its nodes. -/
  spec : ∀ nodes edges, (∀ e ∈ edges, e.1 ∈ nodes ∧ e.2 ∈ nodes) →
    (isCyclic nodes edges = true ↔ ∃ a, Relation.TransGen (fun a b => (a, b) ∈ edges) a a)

variable [DecidableEq α] {edges : List (α × α)} {nodes : List α}

/-- Keep the elements of `l` that an edge from another element of `l` points to. -/
def prune (edges : List (α × α)) (l : List α) : List α :=
  l.filter fun b => l.any fun a => decide ((a, b) ∈ edges)

/-- An element survives a pruning round when an edge from the list points to it. -/
theorem mem_prune {l : List α} {b : α} : b ∈ prune edges l ↔ b ∈ l ∧ ∃ a ∈ l, (a, b) ∈ edges := by
  simp [prune]

/-- The graph has a cycle when some nodes survive as many pruning rounds as it has nodes. -/
def isCyclicByPruning (nodes : List α) (edges : List (α × α)) : Bool :=
  !((prune edges)^[nodes.length] nodes).isEmpty

/-- The elements of a cycle survive every round. -/
theorem mem_prune_iterate (hnodes : ∀ e ∈ edges, e.1 ∈ nodes ∧ e.2 ∈ nodes) (n : ℕ) {b : α}
    (hb : Relation.TransGen (fun a b => (a, b) ∈ edges) b b) :
    b ∈ (prune edges)^[n] nodes := by
  induction n generalizing b with
  | zero =>
      obtain ⟨a, _, hab⟩ := Relation.TransGen.tail'_iff.mp hb
      exact (hnodes _ hab).2
  | succ n ih =>
      obtain ⟨a, hba, hab⟩ := Relation.TransGen.tail'_iff.mp hb
      rw [Function.iterate_succ_apply', mem_prune]
      exact ⟨ih hb, a, ih (.head' hab hba), hab⟩

/-- Without a cycle each round drops an element. -/
theorem length_prune_iterate (hacyclic : IsAcyclic fun a b => (a, b) ∈ edges) (n : ℕ)
    (l : List α) : ((prune edges)^[n] l).length ≤ l.length - n := by
  induction n with
  | zero => simp
  | succ n ih =>
      rw [Function.iterate_succ_apply']
      generalize (prune edges)^[n] l = l' at ih
      by_cases hl' : l' = []
      · subst hl'
        simp [prune]
      · obtain ⟨b, hb, hsource⟩ := hacyclic.exists_source hl'
        have hlt : (prune edges l').length < l'.length := by
          rw [prune, List.length_filter_lt_length_iff_exists]
          refine ⟨b, hb, ?_⟩
          simpa using hsource
        omega

/-- Pruning decides whether the graph has a cycle. -/
theorem isCyclic_iff (hnodes : ∀ e ∈ edges, e.1 ∈ nodes ∧ e.2 ∈ nodes) :
    isCyclicByPruning nodes edges = true ↔
      ∃ a, Relation.TransGen (fun a b => (a, b) ∈ edges) a a := by
  rw [isCyclicByPruning, Bool.not_eq_true', List.isEmpty_eq_false_iff]
  constructor
  · intro hne
    by_contra hnone
    have hlen := length_prune_iterate (not_exists.mp hnone) nodes.length nodes
    rw [Nat.sub_self, Nat.le_zero, List.length_eq_zero_iff] at hlen
    exact hne hlen
  · rintro ⟨a, ha⟩
    exact List.ne_nil_of_mem (mem_prune_iterate hnodes _ ha)

/-- The cycle test by pruning. -/
def CycleCheck.byPruning : CycleCheck α where
  isCyclic := isCyclicByPruning
  spec _ _ hnodes := isCyclic_iff hnodes

end Acyclic
