import Mathlib.Data.List.AList

/-!
# Hash maps

A hash map is an association list without duplicate keys. The order in which a hash map is
iterated is not part of its value: whoever iterates it supplies a `HashOrder`, an arbitrary
permutation of the keys, so that a result about an iteration holds for every order.

## Main results

* `HashMap.mem_iter`: an iteration visits exactly the entries of the map.
* `HashMap.map_fst_iter`: it visits each key once.
-/

/-- A map from keys to values. -/
abbrev HashMap (κ ν : Type*) := AList (fun _ : κ => ν)

/-- A set of keys. -/
abbrev HashSet (κ : Type*) := HashMap κ Unit

/-- An order in which the keys of a hash map are visited. -/
structure HashOrder (κ : Type*) where
  /-- The keys in the order of the visit. -/
  arrange : List κ → List κ
  /-- Each key is visited as often as it occurs. -/
  perm : ∀ l, (arrange l).Perm l

/-- The order in which the entries are stored. -/
def HashOrder.stored {κ : Type*} : HashOrder κ := ⟨id, fun l => .refl l⟩

/-- An order that visits the key `k` before all others. -/
def HashOrder.leading {κ : Type*} [DecidableEq κ] (k : κ) : HashOrder κ where
  arrange l := l.filter (· = k) ++ l.filter (· ≠ k)
  perm l := by
    have hperm := List.filter_append_perm (fun k' => decide (k' = k)) l
    simpa using hperm

/-- An order that visits the key `k` before all others, and these as `o` does. -/
def HashOrder.raise {κ : Type*} [DecidableEq κ] (o : HashOrder κ) (k : κ) : HashOrder κ where
  arrange l := (leading k).arrange (o.arrange l)
  perm l := ((leading k).perm _).trans (o.perm l)

/-- The leading key is visited before another one. -/
theorem HashOrder.pair_arrange_leading {κ : Type*} [DecidableEq κ] {k k' : κ} {l : List κ}
    (hk : k ∈ l) (hk' : k' ∈ l) (hne : k ≠ k') : [k, k'].Sublist ((leading k).arrange l) := by
  have hfirst : [k].Sublist (l.filter (· = k)) :=
    List.singleton_sublist.mpr (List.mem_filter.mpr ⟨hk, decide_eq_true rfl⟩)
  have hlast : [k'].Sublist (l.filter (· ≠ k)) :=
    List.singleton_sublist.mpr (List.mem_filter.mpr ⟨hk', decide_eq_true hne.symm⟩)
  exact hfirst.append hlast

namespace HashMap

variable {κ ν : Type*} [DecidableEq κ]

/-- The entries of the map in the order `o`. -/
def iter (m : HashMap κ ν) (o : HashOrder κ) : List (κ × ν) :=
  (o.arrange m.keys).filterMap fun k => (m.lookup k).map (k, ·)

/-- The values of the map in the order `o`. -/
def values (m : HashMap κ ν) (o : HashOrder κ) : List ν := (m.iter o).map Prod.snd

/-- Append `v` to the list stored under `k`, which is empty when the map has no such key. -/
def push (m : HashMap κ (List ν)) (k : κ) (v : ν) : HashMap κ (List ν) :=
  m.insert k ((m.lookup k).getD [] ++ [v])

/-- Insert the entries of a list, the first one first. -/
def extend (m : HashMap κ ν) (l : List (κ × ν)) : HashMap κ ν :=
  l.foldl (fun m e => m.insert e.1 e.2) m

/-- Erase the keys of a list. -/
def eraseAll (m : HashMap κ ν) (l : List κ) : HashMap κ ν :=
  l.foldl (fun m k => m.erase k) m

/-- The map with the value of each key replaced. -/
def mapValues {μ : Type*} (m : HashMap κ ν) (f : κ → ν → μ) : HashMap κ μ where
  entries := m.entries.map fun e => ⟨e.1, f e.1 e.2⟩
  nodupKeys := by
    rw [List.NodupKeys, List.keys, List.map_map]
    exact m.nodupKeys

/-- Keep the entries that satisfy `p`. -/
def retain (m : HashMap κ ν) (p : κ → ν → Bool) : HashMap κ ν where
  entries := m.entries.filter fun e => p e.1 e.2
  nodupKeys := m.nodupKeys.sublist List.filter_sublist

variable {m : HashMap κ ν} {o : HashOrder κ} {k : κ} {v : ν}

/-- A key is in the map when a value is stored under it. -/
theorem mem_iff_lookup : k ∈ m ↔ ∃ v, m.lookup k = some v := by
  rw [← AList.lookup_isSome, Option.isSome_iff_exists]

/-- Maps with the same entries have the same keys. -/
theorem mem_congr {m' : HashMap κ ν} (h : ∀ k, m.lookup k = m'.lookup k) : k ∈ m ↔ k ∈ m' := by
  rw [mem_iff_lookup, mem_iff_lookup, h]

omit [DecidableEq κ] in
/-- Maps with the same keys store them in some order. -/
theorem keys_perm {μ : Type*} {m' : HashMap κ μ} (h : ∀ k, k ∈ m ↔ k ∈ m') :
    m.keys.Perm m'.keys := by
  refine (List.perm_ext_iff_of_nodup m.keys_nodup m'.keys_nodup).mpr fun k => ?_
  rw [← AList.mem_keys, ← AList.mem_keys, h]

omit [DecidableEq κ] in
/-- The keys in the order of a visit are the keys of the map. -/
theorem mem_arrange_keys : k ∈ o.arrange m.keys ↔ k ∈ m := by
  rw [(o.perm m.keys).mem_iff, AList.mem_keys]

/-- An iteration visits exactly the entries of the map. -/
theorem mem_iter : (k, v) ∈ m.iter o ↔ m.lookup k = some v := by
  simp only [iter, List.mem_filterMap, mem_arrange_keys, Option.map_eq_some_iff, Prod.mk.injEq]
  constructor
  · rintro ⟨k', _, v', hv', rfl, rfl⟩
    exact hv'
  · intro h
    exact ⟨k, mem_iff_lookup.mpr ⟨v, h⟩, v, h, rfl, rfl⟩

/-- An iteration that is led by a key. -/
theorem iter_raise : m.iter (o.raise k) =
    (m.iter o).filter (fun e => e.1 = k) ++ (m.iter o).filter fun e => e.1 ≠ k := by
  have hfilter (p : κ → Bool) (l : List κ) :
      (l.filter p).filterMap (fun k' => (m.lookup k').map (k', ·)) =
        (l.filterMap fun k' => (m.lookup k').map (k', ·)).filter fun e => p e.1 := by
    induction l with
    | nil => rfl
    | cons k' l ih =>
      by_cases hp : p k' = true
      · match hv : m.lookup k' with
        | some v => simp [hp, hv, ih]
        | none => simp [hp, hv, ih]
      · match hv : m.lookup k' with
        | some v => simp [hp, hv, ih]
        | none => simp [hp, hv, ih]
  have harrange : (o.raise k).arrange m.keys = (o.arrange m.keys).filter (· = k) ++
      (o.arrange m.keys).filter (· ≠ k) := rfl
  rw [iter, harrange, List.filterMap_append, hfilter, hfilter]
  rfl

/-- The values visited are those stored under some key. -/
theorem mem_values : v ∈ m.values o ↔ ∃ k, m.lookup k = some v := by
  simp only [values, List.mem_map, Prod.exists, mem_iter, exists_eq_right]

/-- An iteration visits the keys in the given order. -/
theorem map_fst_iter : (m.iter o).map Prod.fst = o.arrange m.keys := by
  have hmem : ∀ k ∈ o.arrange m.keys, k ∈ m := fun k => mem_arrange_keys.mp
  simp only [iter, List.map_filterMap]
  generalize o.arrange m.keys = l at hmem
  induction l with
  | nil => rfl
  | cons k l ih =>
      obtain ⟨v, hv⟩ := mem_iff_lookup.mp (hmem k List.mem_cons_self)
      rw [List.filterMap_cons, hv]
      exact congrArg (k :: ·) (ih fun k' hk' => hmem k' (List.mem_cons_of_mem k hk'))

/-- An iteration visits each key once. -/
theorem map_fst_iter_perm : ((m.iter o).map Prod.fst).Perm m.keys := by
  rw [map_fst_iter]
  exact o.perm m.keys

/-- The keys of an iteration are distinct. -/
theorem nodup_map_fst_iter : ((m.iter o).map Prod.fst).Nodup :=
  map_fst_iter_perm.nodup_iff.mpr m.keys_nodup

/-- Looking a key up in the entries of an iteration. -/
theorem lookup_iter : (m.iter o).lookup k = m.lookup k := by
  have hmem : ∀ v, (k, v) ∈ m.iter o ↔ m.lookup k = some v := fun v => mem_iter
  generalize m.iter o = l at hmem
  cases hk : l.lookup k with
  | none =>
      rw [List.lookup_eq_none_iff] at hk
      cases hm : m.lookup k with
      | none => rfl
      | some v => simpa using hk (k, v) ((hmem v).mpr hm)
  | some v =>
      obtain ⟨l₁, l₂, rfl, _⟩ := List.lookup_eq_some_iff.mp hk
      exact ((hmem v).mp (by simp)).symm

/-- The value under a key after an insertion. -/
theorem lookup_insert (k' : κ) :
    (m.insert k v).lookup k' = if k' = k then some v else m.lookup k' := by
  by_cases h : k' = k
  · subst h
    rw [AList.lookup_insert, if_pos rfl]
  · rw [AList.lookup_insert_ne h, if_neg h]

/-- The value under a key after an erasure. -/
theorem lookup_erase (k' : κ) :
    (m.erase k).lookup k' = if k' = k then none else m.lookup k' := by
  by_cases h : k' = k
  · subst h
    rw [AList.lookup_erase, if_pos rfl]
  · rw [AList.lookup_erase_ne h, if_neg h]

/-- The value under a key is replaced. -/
theorem lookup_mapValues {μ : Type*} (f : κ → ν → μ) :
    (m.mapValues f).lookup k = (m.lookup k).map (f k) :=
  List.dlookup_map₂ k

/-- The value under a key among the entries that are kept. -/
theorem lookup_retain {p : κ → ν → Bool} :
    (m.retain p).lookup k = some v ↔ m.lookup k = some v ∧ p k v = true := by
  have hmem := AList.mem_lookup_iff (s := m.retain p) (a := k) (b := v)
  rw [Option.mem_def] at hmem
  rw [hmem, retain, List.mem_filter, ← AList.mem_lookup_iff, Option.mem_def]

/-- Erasing a list of keys leaves the entries of the other keys. -/
theorem lookup_eraseAll (l : List κ) :
    (m.eraseAll l).lookup k = if k ∈ l then none else m.lookup k := by
  induction l generalizing m with
  | nil => simp [eraseAll]
  | cons a l ih =>
      change (eraseAll (m.erase a) l).lookup k = _
      rw [ih, lookup_erase]
      by_cases hl : k ∈ l <;> by_cases ha : k = a <;> simp [hl, ha]

/-- Inserting entries with other keys keeps the value under a key. -/
theorem lookup_extend_of_notMem {l : List (κ × ν)} (h : k ∉ l.map Prod.fst) :
    (m.extend l).lookup k = m.lookup k := by
  induction l generalizing m with
  | nil => rfl
  | cons e l ih =>
      rw [List.map_cons, List.mem_cons, not_or] at h
      change (extend (m.insert e.1 e.2) l).lookup k = _
      rw [ih h.2, AList.lookup_insert_ne h.1]

/-- The keys of an extended map. -/
theorem mem_extend {l : List (κ × ν)} : k ∈ m.extend l ↔ k ∈ m ∨ k ∈ l.map Prod.fst := by
  induction l generalizing m with
  | nil => simp [extend]
  | cons e l ih =>
    change k ∈ extend (m.insert e.1 e.2) l ↔ _
    rw [ih, AList.mem_insert, List.map_cons, List.mem_cons, or_comm (a := k = e.1), or_assoc]

/-- Inserting entries with distinct keys stores each of them. -/
theorem lookup_extend_of_mem {l : List (κ × ν)} (hnodup : (l.map Prod.fst).Nodup)
    (h : (k, v) ∈ l) : (m.extend l).lookup k = some v := by
  induction l generalizing m with
  | nil => cases h
  | cons e l ih =>
      rw [List.map_cons, List.nodup_cons] at hnodup
      change (extend (m.insert e.1 e.2) l).lookup k = _
      rcases List.mem_cons.mp h with rfl | htail
      · rw [lookup_extend_of_notMem hnodup.1, AList.lookup_insert]
      · exact ih hnodup.2 htail

/-- The list under a key after a push. -/
theorem lookup_push {m : HashMap κ (List ν)} (k' : κ) :
    (m.push k v).lookup k' =
      if k' = k then some ((m.lookup k).getD [] ++ [v]) else m.lookup k' :=
  lookup_insert k'

/-- The list under a key after pushing the elements of a list, each under its key. -/
theorem getD_lookup_foldl_push {α : Type*} {key : α → κ} {l : List α} {m : HashMap κ (List α)} :
    ((l.foldl (fun m a => m.push (key a) a) m).lookup k).getD [] =
      (m.lookup k).getD [] ++ l.filter fun a => key a = k := by
  induction l generalizing m with
  | nil => exact (List.append_nil _).symm
  | cons a l ih =>
    rw [List.foldl_cons, ih, lookup_push]
    by_cases h : key a = k
    · rw [if_pos h.symm, List.filter_cons_of_pos (by simpa using h), ← h]
      simp
    · rw [if_neg (Ne.symm h), List.filter_cons_of_neg (by simpa using h)]

/-! ## Maps with the same entries -/

/-- Maps with the same value under each key. How the entries are stored makes no difference. -/
def Same (m m' : HashMap κ ν) : Prop := ∀ k, m.lookup k = m'.lookup k

theorem Same.refl (m : HashMap κ ν) : m.Same m := fun _ => rfl

theorem Same.symm {m m' : HashMap κ ν} (h : m.Same m') : m'.Same m := fun k => (h k).symm

/-- Iterations of a map visit its entries in some order each. -/
theorem Same.iter_perm {m m' : HashMap κ ν} (h : m.Same m') (o o' : HashOrder κ) :
    (m.iter o).Perm (m'.iter o') := by
  have hkeys : m.keys.Perm m'.keys := keys_perm fun _ => mem_congr h
  have harrange := (o.perm m.keys).trans (hkeys.trans (o'.perm m'.keys).symm)
  have hentry : (fun k => (m.lookup k).map (k, ·)) = fun k => (m'.lookup k).map (k, ·) :=
    funext fun k => congrArg (Option.map (k, ·)) (h k)
  rw [iter, iter, hentry]
  exact harrange.filterMap _

/-- Inserting distinct keys in another order makes no difference. -/
theorem Same.extend {m m' : HashMap κ ν} (h : m.Same m') {l l' : List (κ × ν)} (hl : l.Perm l')
    (hnodup : (l.map Prod.fst).Nodup) : (m.extend l).Same (m'.extend l') := by
  have hkeys := hl.map Prod.fst
  intro k
  by_cases hk : k ∈ l.map Prod.fst
  · obtain ⟨⟨_, v⟩, hv, rfl⟩ := List.mem_map.mp hk
    rw [lookup_extend_of_mem hnodup hv,
      lookup_extend_of_mem (hkeys.nodup_iff.mp hnodup) (hl.mem_iff.mp hv)]
  · rw [lookup_extend_of_notMem hk, lookup_extend_of_notMem (mt hkeys.mem_iff.mpr hk)]
    exact h k

/-- What is stored after inserting distinct keys into an empty map. -/
theorem lookup_extend_empty {l : List (κ × ν)} (hnodup : (l.map Prod.fst).Nodup) :
    (extend ∅ l).lookup k = some v ↔ (k, v) ∈ l := by
  constructor
  · intro h
    by_cases hk : k ∈ l.map Prod.fst
    · obtain ⟨⟨_, v'⟩, hv', rfl⟩ := List.mem_map.mp hk
      rw [lookup_extend_of_mem hnodup hv'] at h
      obtain rfl := Option.some.inj h
      exact hv'
    · rw [lookup_extend_of_notMem hk, AList.lookup_empty] at h
      contradiction
  · exact lookup_extend_of_mem hnodup

end HashMap
