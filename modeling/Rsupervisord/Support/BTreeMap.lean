import Mathlib

/-!
# Ordered maps

A map whose entries are kept in the order of their keys, each key once.

## Main results

* `BTreeMap.foldl_insert_of_isSorted`: the entries of a map, inserted one after the other, make up
  the map.
* `BTreeMap.foldl_insert_perm`: entries with different keys all stay.
-/

namespace BTreeMap

variable {κ ν : Type*}

/-- The keys are in order, without repetition. -/
def IsSorted [LT κ] (m : List (κ × ν)) : Prop := m.Pairwise fun e e' => e.1 < e'.1

variable [LinearOrder κ]

/-- Store `v` under the key `k`. A value stored before is replaced. -/
def insert (k : κ) (v : ν) : List (κ × ν) → List (κ × ν)
  | [] => [(k, v)]
  | e :: m =>
      if k < e.1 then (k, v) :: e :: m
      else if k = e.1 then (k, v) :: m
      else e :: insert k v m

variable {k : κ} {v : ν} {m l : List (κ × ν)}

/-- A key above all others comes last. -/
theorem insert_of_forall_lt (h : ∀ e ∈ m, e.1 < k) : insert k v m = m ++ [(k, v)] := by
  induction m with
  | nil => rfl
  | cons e m ih =>
    have hlt : e.1 < k := h e List.mem_cons_self
    unfold insert
    rw [if_neg (not_lt_of_gt hlt), if_neg (ne_of_gt hlt),
      ih fun e' he' => h e' (List.mem_cons_of_mem _ he'), List.cons_append]

/-- A new key replaces no other. -/
theorem insert_perm (h : k ∉ m.map Prod.fst) : (insert k v m).Perm ((k, v) :: m) := by
  induction m with
  | nil => exact .refl _
  | cons e m ih =>
    rw [List.map_cons, List.mem_cons, not_or] at h
    unfold insert
    split
    next => exact .refl _
    next =>
      rw [if_neg h.1]
      exact ((ih h.2).cons e).trans (.swap _ _ _)

/-- Under a new key, different values make different maps. -/
theorem insert_inj {v' : ν} (h : k ∉ m.map Prod.fst) : insert k v m = insert k v' m ↔ v = v' := by
  constructor
  · intro heq
    have hperm : ((k, v) :: m).Perm ((k, v') :: m) :=
      (insert_perm h).symm.trans (heq ▸ insert_perm h)
    obtain heq' | hmem := List.mem_cons.mp (hperm.mem_iff.mp List.mem_cons_self)
    · exact (Prod.mk.inj heq').2
    · exact absurd (List.mem_map_of_mem hmem) h
  · rintro rfl
    rfl

/-- The next entry with a key of its own may be inserted first. -/
theorem insert_append_perm {e : κ × ν} (h : ((m ++ e :: l).map Prod.fst).Nodup) :
    (insert e.1 e.2 m ++ l).Perm (m ++ e :: l) := by
  have hnew : e.1 ∉ m.map Prod.fst := by
    rw [List.map_append, List.map_cons, List.nodup_append] at h
    exact fun hmem => h.2.2 _ hmem _ List.mem_cons_self rfl
  exact ((insert_perm hnew).append_right l).trans List.perm_middle.symm

/-- Entries in order are appended one after the other. -/
theorem foldl_insert_of_isSorted (h : IsSorted (m ++ l)) :
    l.foldl (fun m e => insert e.1 e.2 m) m = m ++ l := by
  induction l generalizing m with
  | nil => exact (List.append_nil m).symm
  | cons e l ih =>
    have hlast : ∀ e' ∈ m, e'.1 < e.1 :=
      fun e' he' => (List.pairwise_append.mp h).2.2 e' he' e List.mem_cons_self
    rw [List.foldl_cons, insert_of_forall_lt hlast, ih (by rwa [List.append_assoc]),
      List.append_assoc, List.singleton_append]

/-- Entries with different keys all stay. -/
theorem foldl_insert_perm (h : ((m ++ l).map Prod.fst).Nodup) :
    (l.foldl (fun m e => insert e.1 e.2 m) m).Perm (m ++ l) := by
  induction l generalizing m with
  | nil => rw [List.append_nil, List.foldl_nil]
  | cons e l ih =>
    have hperm := insert_append_perm h
    have hkeys : ((insert e.1 e.2 m ++ l).map Prod.fst).Nodup := (hperm.map _).nodup_iff.mpr h
    exact (ih hkeys).trans hperm

end BTreeMap
