import Mathlib.Data.List.Sort

/-!
# The least elements of a list

A list without duplicates is sorted, and all but its `n` greatest elements are taken.

* `List.mem_leastBut`: which elements those are.
* `List.mem_leastBut_of_perm`: the order of the list makes no difference.
-/

namespace List

variable {α : Type*} [LinearOrder α] {l l' : List α} {n : ℕ} {x : α}

/-- All but the `n` greatest elements, in ascending order. -/
def leastBut (n : ℕ) (l : List α) : List α :=
  (l.insertionSort (· ≤ ·)).take (l.length - n)

/-- The sorted list of a list without duplicates is strictly ascending. -/
theorem pairwise_lt_insertionSort (h : l.Nodup) :
    (l.insertionSort (· ≤ ·)).Pairwise (· < ·) := by
  have hnodup : (l.insertionSort (· ≤ ·)).Nodup := (perm_insertionSort _ l).nodup_iff.mpr h
  refine ((pairwise_insertionSort (· ≤ ·) l).and hnodup).imp fun hab => ?_
  exact lt_of_le_of_ne hab.1 hab.2

/-- When the first elements are less than the last `n` ones, they are those with `n` greater
ones. -/
theorem mem_take_of_forall_lt
    (hlt : ∀ a ∈ l.take (l.length - n), ∀ b ∈ l.drop (l.length - n), a < b) :
    x ∈ l.take (l.length - n) ↔ x ∈ l ∧ n ≤ l.countP (x < ·) := by
  have hcount : l.countP (x < ·) =
      (l.take (l.length - n)).countP (x < ·) + (l.drop (l.length - n)).countP (x < ·) := by
    rw [← countP_append, take_append_drop]
  have hlength : (l.drop (l.length - n)).length = min n l.length := by
    rw [length_drop]
    omega
  constructor
  · intro hx
    refine ⟨mem_of_mem_take hx, ?_⟩
    have hall : (l.drop (l.length - n)).countP (x < ·) = (l.drop (l.length - n)).length :=
      countP_eq_length.mpr fun y hy => decide_eq_true (hlt x hx y hy)
    have hpos := length_pos_of_mem hx
    rw [length_take] at hpos
    omega
  · rintro ⟨hx, hn⟩
    by_contra hnot
    rw [← take_append_drop (l.length - n) l, mem_append] at hx
    have hdropped := hx.resolve_left hnot
    have hnone : (l.take (l.length - n)).countP (x < ·) = 0 :=
      countP_eq_zero.mpr fun y hy => by
        have hyx := hlt y hy x hdropped
        simpa using hyx.le
    have hfewer : (l.drop (l.length - n)).countP (x < ·) < (l.drop (l.length - n)).length := by
      refine lt_of_le_of_ne countP_le_length fun heq => ?_
      exact lt_irrefl x (of_decide_eq_true (countP_eq_length.mp heq x hdropped))
    omega

/-- All but the `n` greatest elements are those with `n` greater ones. -/
theorem mem_leastBut (h : l.Nodup) : x ∈ l.leastBut n ↔ x ∈ l ∧ n ≤ l.countP (x < ·) := by
  have hsorted := pairwise_lt_insertionSort h
  rw [← take_append_drop ((l.insertionSort (· ≤ ·)).length - n) (l.insertionSort (· ≤ ·)),
    pairwise_append] at hsorted
  have hmem := mem_take_of_forall_lt (x := x) hsorted.2.2
  rwa [length_insertionSort, mem_insertionSort, (perm_insertionSort _ l).countP_eq] at hmem

/-- The order of the list makes no difference. -/
theorem mem_leastBut_of_perm (hperm : l.Perm l') (h : l.Nodup) :
    x ∈ l.leastBut n ↔ x ∈ l'.leastBut n := by
  rw [mem_leastBut h, mem_leastBut (hperm.nodup_iff.mp h), hperm.mem_iff, hperm.countP_eq]

end List
