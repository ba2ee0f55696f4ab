import Mathlib.Data.Finset.Card
import Mathlib.Data.Finset.Dedup
import Mathlib.Logic.Relation

/-!
# Search with a queue

The nodes of a finite graph from which a target is reachable, found by a search against the
direction of the edges. Each node is put in the queue when it is found, so that the search ends
whether or not the graph has cycles. The target need not be a node.

## Main definitions

* `Worklist`: the state of the search.

## Main results

* `Worklist.run_spec`: the search ends with the nodes from which the target is reachable.
-/

/-- The state of a search. -/
structure Worklist (α : Type*) where
  /-- The nodes found so far. -/
  found : Finset α
  /-- The nodes whose edges are still to be followed. -/
  pending : List α

namespace Worklist

variable {α : Type*} [DecidableEq α] (edge : α → α → Prop) [DecidableRel edge]

/-- A node with an edge to the current one is found, unless it was found before. -/
def reach (current : α) (w : Worklist α) (x : α) : Worklist α :=
  if edge x current ∧ x ∉ w.found then ⟨insert x w.found, w.pending ++ [x]⟩ else w

/-- The search among `nodes`, for at most `fuel` nodes of the queue; `none` when they do not
suffice. -/
def run (nodes : List α) : ℕ → Worklist α → Option (Finset α)
  | _, ⟨found, []⟩ => some found
  | 0, ⟨_, _ :: _⟩ => none
  | fuel + 1, ⟨found, current :: rest⟩ =>
      run nodes fuel (nodes.foldl (reach edge current) ⟨found, rest⟩)

/-- What holds of a search for the target `t` before each node of the queue. -/
structure Invariant (nodes : List α) (t : α) (w : Worklist α) : Prop where
  /-- The target is reachable from what was found. -/
  sound : ∀ x ∈ w.found, x ∈ nodes ∧ Relation.TransGen edge x t
  /-- Only the target and what was found is in the queue. -/
  known : ∀ y ∈ w.pending, y = t ∨ y ∈ w.found
  /-- What is no longer in the queue has had its edges followed. -/
  closed : ∀ y, y = t ∨ y ∈ w.found → y ∈ w.pending ∨ ∀ x ∈ nodes, edge x y → x ∈ w.found

variable {edge} {nodes : List α} {t current : α} {w : Worklist α} {rest : List α} {fuel : ℕ}

/-! ## The nodes with an edge to the current one -/

/-- A pass over the nodes finds those with an edge to the current one, and puts the new ones in the
queue, each of them once. -/
theorem foldl_reach (xs : List α) (w : Worklist α) :
    (∀ x, x ∈ (xs.foldl (reach edge current) w).found ↔ x ∈ w.found ∨ x ∈ xs ∧ edge x current) ∧
      (∀ x, x ∈ (xs.foldl (reach edge current) w).pending ↔
        x ∈ w.pending ∨ x ∈ (xs.foldl (reach edge current) w).found ∧ x ∉ w.found) ∧
      (xs.foldl (reach edge current) w).pending.length + w.found.card =
        w.pending.length + (xs.foldl (reach edge current) w).found.card := by
  induction xs generalizing w with
  | nil => simp
  | cons x xs ih =>
    rw [List.foldl_cons]
    obtain ⟨hfound, hpending, hlength⟩ := ih (reach edge current w x)
    by_cases hnew : edge x current ∧ x ∉ w.found
    · have hreach : reach edge current w x = ⟨insert x w.found, w.pending ++ [x]⟩ := if_pos hnew
      rw [hreach] at hfound hpending hlength ⊢
      refine ⟨fun y => ?_, fun y => ?_, ?_⟩
      · rw [hfound, Finset.mem_insert, List.mem_cons]
        constructor
        · rintro ((rfl | hy) | hy)
          · exact .inr ⟨.inl rfl, hnew.1⟩
          · exact .inl hy
          · exact .inr ⟨.inr hy.1, hy.2⟩
        · rintro (hy | ⟨rfl | hy, hedge⟩)
          · exact .inl (.inr hy)
          · exact .inl (.inl rfl)
          · exact .inr ⟨hy, hedge⟩
      · rw [hpending, List.mem_append, List.mem_singleton, hfound, Finset.mem_insert]
        by_cases hy : y = x
        · subst hy
          simp [hnew.2]
        · simp [hy]
      · rw [Finset.card_insert_of_notMem hnew.2, List.length_append,
          List.length_singleton] at hlength
        omega
    · have hreach : reach edge current w x = w := if_neg hnew
      rw [hreach] at hfound hpending hlength ⊢
      refine ⟨fun y => ?_, hpending, hlength⟩
      rw [hfound, List.mem_cons]
      constructor
      · rintro (hy | hy)
        · exact .inl hy
        · exact .inr ⟨.inr hy.1, hy.2⟩
      · rintro (hy | ⟨rfl | hy, hedge⟩)
        · exact .inl hy
        · exact .inl (not_not.mp fun hy => hnew ⟨hedge, hy⟩)
        · exact .inr ⟨hy, hedge⟩

/-! ## The invariant -/

omit [DecidableEq α] [DecidableRel edge] in
/-- A search begins with the target in the queue. -/
theorem invariant_start : Invariant edge nodes t ⟨∅, [t]⟩ where
  sound x hx := absurd hx (Finset.notMem_empty x)
  known y hy := .inl (List.mem_singleton.mp hy)
  closed y hy := by
    obtain rfl | hy := hy
    · exact .inl (List.mem_singleton_self y)
    · exact absurd hy (Finset.notMem_empty y)

/-- Following the edges of a node of the queue keeps the invariant. -/
theorem Invariant.visit (h : Invariant edge nodes t ⟨w.found, current :: rest⟩) :
    Invariant edge nodes t (nodes.foldl (reach edge current) ⟨w.found, rest⟩) := by
  obtain ⟨hfound, hpending, -⟩ :=
    @foldl_reach _ _ edge _ current nodes ⟨w.found, rest⟩
  refine ⟨fun x hx => ?_, fun y hy => ?_, fun y hy => ?_⟩
  · obtain hx | ⟨hmem, hedge⟩ := (hfound x).mp hx
    · exact h.sound x hx
    · obtain rfl | hcurrent := h.known current List.mem_cons_self
      · exact ⟨hmem, .single hedge⟩
      · exact ⟨hmem, .head hedge (h.sound current hcurrent).2⟩
  · obtain hy | hy := (hpending y).mp hy
    · obtain rfl | hy := h.known y (List.mem_cons_of_mem _ hy)
      · exact .inl rfl
      · exact .inr ((hfound y).mpr (.inl hy))
    · exact .inr hy.1
  · -- A node found in this pass is in the queue.
    by_cases hnew : y = t ∨ y ∈ w.found
    · obtain hy | hclosed := h.closed y hnew
      · obtain rfl | hy := List.mem_cons.mp hy
        · exact .inr fun x hx hedge => (hfound x).mpr (.inr ⟨hx, hedge⟩)
        · exact .inl ((hpending y).mpr (.inl hy))
      · exact .inr fun x hx hedge => (hfound x).mpr (.inl (hclosed x hx hedge))
    · obtain rfl | hy := hy
      · exact absurd (.inl rfl) hnew
      · exact .inl ((hpending y).mpr (.inr ⟨hy, fun hold => hnew (.inr hold)⟩))

omit [DecidableEq α] [DecidableRel edge] in
/-- When the queue is empty, every node from which the target is reachable was found. -/
theorem mem_found_iff {found : Finset α} (hnodes : ∀ x y, edge x y → x ∈ nodes)
    (h : Invariant edge nodes t ⟨found, []⟩) {x : α} :
    x ∈ found ↔ Relation.TransGen edge x t := by
  refine ⟨fun hx => (h.sound x hx).2, fun hx => ?_⟩
  have hclosed : ∀ {x y}, y = t ∨ y ∈ found → edge x y → x ∈ found := fun {x y} hy hedge =>
    (h.closed y hy).elim (fun hmem => absurd hmem List.not_mem_nil)
      (fun hall => hall x (hnodes x y hedge) hedge)
  induction hx using Relation.TransGen.head_induction_on with
  | single hedge => exact hclosed (.inl rfl) hedge
  | head hedge _ ih => exact hclosed (.inr ih) hedge

/-! ## The search -/

/-- The search ends when it may follow as many nodes as there are in the queue and nodes not yet
found, and then it has found the nodes from which the target is reachable. -/
theorem run_spec (hnodes : ∀ x y, edge x y → x ∈ nodes) (h : Invariant edge nodes t w)
    (hfuel : w.pending.length + nodes.toFinset.card ≤ fuel + w.found.card) :
    ∃ s, run edge nodes fuel w = some s ∧ ∀ x, x ∈ s ↔ Relation.TransGen edge x t := by
  induction fuel generalizing w with
  | zero =>
    obtain ⟨found, _ | ⟨current, rest⟩⟩ := w
    · exact ⟨found, by rw [run], fun x => mem_found_iff hnodes h⟩
    · have hsubset : found ⊆ nodes.toFinset := fun x hx => List.mem_toFinset.mpr (h.sound x hx).1
      have hcard := Finset.card_le_card hsubset
      simp only [List.length_cons] at hfuel
      omega
  | succ fuel ih =>
    obtain ⟨found, _ | ⟨current, rest⟩⟩ := w
    · exact ⟨found, by rw [run], fun x => mem_found_iff hnodes h⟩
    · obtain ⟨-, -, hlength⟩ :=
        @foldl_reach _ _ edge _ current nodes ⟨found, rest⟩
      have hvisit := h.visit (w := ⟨found, []⟩)
      simp only [List.length_cons] at hfuel hlength
      rw [run]
      exact ih hvisit (by omega)

end Worklist
