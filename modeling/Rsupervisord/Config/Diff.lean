import Mathlib.Data.List.Sort
import Mathlib.Data.String.Basic
import Rsupervisord.Config.ResolveCorrectness

/-!
# Configuration diff

`ConfigDiff::compute` compares two maps of program configurations. The four lists are sorted by
name, have no duplicates and partition the names of both maps: `added` and `removed` hold the names
of one map only, `modified` and `unchanged` those of both, by whether the configurations differ.
-/

namespace Rsupervisord

/-- Difference between two configuration states. -/
structure ConfigDiff where
  added : List ProgramConfig
  removed : List String
  modified : List ProgramConfig
  unchanged : List String

namespace ConfigDiff

/-- `sort_by` on the names of the configurations. -/
def sortByName (l : List ProgramConfig) : List ProgramConfig :=
  l.insertionSort fun a b => a.name ≤ b.name

/-- `ConfigDiff::compute`, for the iteration orders of the two maps. Two configurations that spell a
path differently are different here; those whose paths have the same components are unchanged in the
source. -/
def compute (oldOrder newOrder : HashOrder String) (oldPrograms newPrograms : ProgramConfigs) :
    ConfigDiff :=
  let entries := newPrograms.iter newOrder
  let added := entries.filter fun e => (oldPrograms.lookup e.1).isNone
  let modified := entries.filter fun e =>
    match oldPrograms.lookup e.1 with
    | some oldCfg => oldCfg ≠ e.2
    | none => false
  let unchanged := entries.filter fun e => oldPrograms.lookup e.1 = some e.2
  let removed := (oldOrder.arrange oldPrograms.keys).filter fun name => name ∉ newPrograms
  { added := sortByName (added.map Prod.snd)
    removed := removed.insertionSort (· ≤ ·)
    modified := sortByName (modified.map Prod.snd)
    unchanged := (unchanged.map Prod.fst).insertionSort (· ≤ ·) }

/-- `is_empty`. -/
def isEmpty (diff : ConfigDiff) : Bool :=
  diff.added.isEmpty && diff.removed.isEmpty && diff.modified.isEmpty

variable {oldOrder newOrder : HashOrder String} {oldPrograms newPrograms : ProgramConfigs}

/-- The added programs are those of the new map only. -/
theorem mem_added {cfg : ProgramConfig} :
    cfg ∈ (compute oldOrder newOrder oldPrograms newPrograms).added ↔
      ∃ name, newPrograms.lookup name = some cfg ∧ name ∉ oldPrograms := by
  simp only [compute, sortByName, List.mem_insertionSort, List.mem_map, List.mem_filter,
    Prod.exists, HashMap.mem_iter, Option.isNone_iff_eq_none, AList.lookup_eq_none,
    exists_eq_right]

/-- The modified programs are those of both maps with different configurations. -/
theorem mem_modified {cfg : ProgramConfig} :
    cfg ∈ (compute oldOrder newOrder oldPrograms newPrograms).modified ↔
      ∃ name, newPrograms.lookup name = some cfg ∧
        ∃ oldCfg, oldPrograms.lookup name = some oldCfg ∧ oldCfg ≠ cfg := by
  simp only [compute, sortByName, List.mem_insertionSort, List.mem_map, List.mem_filter,
    Prod.exists, HashMap.mem_iter, exists_eq_right]
  refine exists_congr fun name => and_congr_right fun _ => ?_
  cases oldPrograms.lookup name with
  | none => simp
  | some oldCfg => simp

/-- The unchanged programs are those with the same configuration in both maps. -/
theorem mem_unchanged {name : String} :
    name ∈ (compute oldOrder newOrder oldPrograms newPrograms).unchanged ↔
      ∃ cfg, newPrograms.lookup name = some cfg ∧ oldPrograms.lookup name = some cfg := by
  simp only [compute, List.mem_insertionSort, List.mem_map, List.mem_filter, Prod.exists,
    HashMap.mem_iter, decide_eq_true_eq, exists_and_right, exists_eq_right]

/-- The removed programs are those of the old map only. -/
theorem mem_removed {name : String} :
    name ∈ (compute oldOrder newOrder oldPrograms newPrograms).removed ↔
      name ∈ oldPrograms ∧ name ∉ newPrograms := by
  simp only [compute, List.mem_insertionSort, List.mem_filter, HashMap.mem_arrange_keys,
    decide_eq_true_eq]

/-- The names of selected entries of a map are distinct. -/
theorem nodup_names (hnew : newPrograms.WellFormed) (p : String × ProgramConfig → Bool) :
    ((sortByName (((newPrograms.iter newOrder).filter p).map Prod.snd)).map (·.name)).Nodup := by
  have hperm : ((sortByName (((newPrograms.iter newOrder).filter p).map Prod.snd)).map
      (·.name)).Perm (((newPrograms.iter newOrder).filter p).map Prod.fst) := by
    refine ((List.perm_insertionSort _ _).map _).trans (.of_eq ?_)
    rw [List.map_map]
    refine List.map_congr_left fun e he => ?_
    exact hnew.name_eq (HashMap.mem_iter.mp (List.mem_filter.mp he).1)
  exact hperm.nodup_iff.mpr
    (HashMap.nodup_map_fst_iter.sublist (List.filter_sublist.map Prod.fst))

/-- The names of the added programs are distinct. -/
theorem nodup_added (hnew : newPrograms.WellFormed) :
    ((compute oldOrder newOrder oldPrograms newPrograms).added.map (·.name)).Nodup :=
  nodup_names hnew _

/-- The names of the modified programs are distinct. -/
theorem nodup_modified (hnew : newPrograms.WellFormed) :
    ((compute oldOrder newOrder oldPrograms newPrograms).modified.map (·.name)).Nodup :=
  nodup_names hnew _

/-- The names of the unchanged programs are distinct. -/
theorem nodup_unchanged : (compute oldOrder newOrder oldPrograms newPrograms).unchanged.Nodup :=
  (List.perm_insertionSort _ _).nodup_iff.mpr
    (HashMap.nodup_map_fst_iter.sublist (List.filter_sublist.map Prod.fst))

/-- The names of the removed programs are distinct. -/
theorem nodup_removed : (compute oldOrder newOrder oldPrograms newPrograms).removed.Nodup :=
  (List.perm_insertionSort _ _).nodup_iff.mpr
    (((oldOrder.perm _).nodup_iff.mpr oldPrograms.keys_nodup).filter _)

/-- The names of selected entries of a map are in order. -/
theorem sorted_names (hnew : newPrograms.WellFormed) (p : String × ProgramConfig → Bool) :
    ((sortByName (((newPrograms.iter newOrder).filter p).map Prod.snd)).map (·.name)).Pairwise
      (· < ·) := by
  have hsorted : (sortByName (((newPrograms.iter newOrder).filter p).map Prod.snd)).Pairwise
      fun a b => a.name ≤ b.name := List.pairwise_insertionSort _ _
  have hnodup := List.pairwise_map.mp (@nodup_names newOrder _ hnew p)
  exact List.pairwise_map.mpr ((hsorted.and hnodup).imp fun h => lt_of_le_of_ne h.1 h.2)

/-- The names of the added programs are in order. -/
theorem sorted_added (hnew : newPrograms.WellFormed) :
    ((compute oldOrder newOrder oldPrograms newPrograms).added.map (·.name)).Pairwise (· < ·) :=
  sorted_names hnew _

/-- The names of the modified programs are in order. -/
theorem sorted_modified (hnew : newPrograms.WellFormed) :
    ((compute oldOrder newOrder oldPrograms newPrograms).modified.map (·.name)).Pairwise (· < ·) :=
  sorted_names hnew _

/-- The names of the removed programs are in order. -/
theorem sorted_removed :
    (compute oldOrder newOrder oldPrograms newPrograms).removed.Pairwise (· < ·) := by
  have hsorted : (compute oldOrder newOrder oldPrograms newPrograms).removed.Pairwise (· ≤ ·) :=
    List.pairwise_insertionSort _ _
  exact (hsorted.and nodup_removed).imp fun h => lt_of_le_of_ne h.1 h.2

/-- The names of the added programs. -/
theorem mem_names_added (hnew : newPrograms.WellFormed) {name : String} :
    name ∈ (compute oldOrder newOrder oldPrograms newPrograms).added.map (·.name) ↔
      name ∈ newPrograms ∧ name ∉ oldPrograms := by
  rw [List.mem_map, HashMap.mem_iff_lookup]
  constructor
  · rintro ⟨cfg, hcfg, rfl⟩
    obtain ⟨name, hlookup, hnot⟩ := mem_added.mp hcfg
    rw [hnew.name_eq hlookup]
    exact ⟨⟨cfg, hlookup⟩, hnot⟩
  · rintro ⟨⟨cfg, hlookup⟩, hnot⟩
    exact ⟨cfg, mem_added.mpr ⟨name, hlookup, hnot⟩, hnew.name_eq hlookup⟩

/-- The names of the modified programs. -/
theorem mem_names_modified (hnew : newPrograms.WellFormed) {name : String} :
    name ∈ (compute oldOrder newOrder oldPrograms newPrograms).modified.map (·.name) ↔
      ∃ cfg, newPrograms.lookup name = some cfg ∧
        ∃ oldCfg, oldPrograms.lookup name = some oldCfg ∧ oldCfg ≠ cfg := by
  rw [List.mem_map]
  constructor
  · rintro ⟨cfg, hcfg, rfl⟩
    obtain ⟨name, hlookup, hold⟩ := mem_modified.mp hcfg
    rw [hnew.name_eq hlookup]
    exact ⟨cfg, hlookup, hold⟩
  · rintro ⟨cfg, hlookup, hold⟩
    exact ⟨cfg, mem_modified.mpr ⟨name, hlookup, hold⟩, hnew.name_eq hlookup⟩

/-- The names of the modified and the added programs are distinct. -/
theorem nodup_changed (hnew : newPrograms.WellFormed) :
    (((compute oldOrder newOrder oldPrograms newPrograms).modified ++
      (compute oldOrder newOrder oldPrograms newPrograms).added).map (·.name)).Nodup := by
  rw [List.map_append, List.nodup_append]
  refine ⟨nodup_modified hnew, nodup_added hnew, ?_⟩
  rintro name hmodified _ hadded rfl
  -- A modified name is in the old map, an added one is not.
  obtain ⟨cfg, _, oldCfg, hold, _⟩ := (mem_names_modified hnew).mp hmodified
  exact ((mem_names_added hnew).mp hadded).2 (HashMap.mem_iff_lookup.mpr ⟨oldCfg, hold⟩)

/-- The names of the four lists are distinct. -/
theorem nodup_all (hnew : newPrograms.WellFormed) :
    ((compute oldOrder newOrder oldPrograms newPrograms).added.map (·.name) ++
      (compute oldOrder newOrder oldPrograms newPrograms).removed ++
      (compute oldOrder newOrder oldPrograms newPrograms).modified.map (·.name) ++
      (compute oldOrder newOrder oldPrograms newPrograms).unchanged).Nodup := by
  simp only [List.nodup_append, List.mem_append, mem_names_added hnew, mem_removed,
    mem_names_modified hnew, mem_unchanged]
  refine ⟨⟨⟨nodup_added hnew, nodup_removed, ?_⟩, nodup_modified hnew, ?_⟩, nodup_unchanged, ?_⟩
  · rintro name ⟨hname, _⟩ _ ⟨_, hnot⟩ rfl
    exact hnot hname
  · rintro name hname _ ⟨cfg, hlookup, oldCfg, hold, _⟩ rfl
    rcases hname with ⟨_, hnot⟩ | ⟨_, hnot⟩
    · exact hnot (HashMap.mem_iff_lookup.mpr ⟨oldCfg, hold⟩)
    · exact hnot (HashMap.mem_iff_lookup.mpr ⟨cfg, hlookup⟩)
  · rintro name hname _ ⟨cfg, hlookup, hold⟩ rfl
    rcases hname with (⟨_, hnot⟩ | ⟨_, hnot⟩) | ⟨newCfg, hlookup', oldCfg, hold', hne⟩
    · exact hnot (HashMap.mem_iff_lookup.mpr ⟨cfg, hold⟩)
    · exact hnot (HashMap.mem_iff_lookup.mpr ⟨cfg, hlookup⟩)
    · rw [hlookup] at hlookup'
      rw [hold] at hold'
      exact hne ((Option.some.inj hold').symm.trans (Option.some.inj hlookup'))

/-- The four lists hold the names of both maps. -/
theorem mem_all (hnew : newPrograms.WellFormed) {name : String} :
    name ∈ (compute oldOrder newOrder oldPrograms newPrograms).added.map (·.name) ++
        (compute oldOrder newOrder oldPrograms newPrograms).removed ++
        (compute oldOrder newOrder oldPrograms newPrograms).modified.map (·.name) ++
        (compute oldOrder newOrder oldPrograms newPrograms).unchanged ↔
      name ∈ oldPrograms ∨ name ∈ newPrograms := by
  simp only [List.mem_append, mem_names_added hnew, mem_removed, mem_names_modified hnew,
    mem_unchanged, HashMap.mem_iff_lookup]
  cases hold : oldPrograms.lookup name with
  | none => simp
  | some oldCfg =>
      cases hlookup : newPrograms.lookup name with
      | none => simp
      | some cfg =>
          by_cases heq : oldCfg = cfg
          · simp [heq]
          · simp [heq]

/-- Maps with the same entries do not differ. -/
theorem isEmpty_of_same (h : oldPrograms.Same newPrograms) :
    (compute oldOrder newOrder oldPrograms newPrograms).isEmpty = true := by
  simp only [isEmpty, Bool.and_eq_true, List.isEmpty_iff, List.eq_nil_iff_forall_not_mem,
    mem_added, mem_removed, mem_modified]
  refine ⟨⟨?_, ?_⟩, ?_⟩
  · rintro cfg ⟨name, hname, hnot⟩
    exact hnot (HashMap.mem_iff_lookup.mpr ⟨cfg, (h name).trans hname⟩)
  · rintro name ⟨hname, hnot⟩
    exact hnot ((HashMap.mem_congr h).mp hname)
  · rintro cfg ⟨name, hname, oldCfg, hold, hne⟩
    rw [h name, hname] at hold
    exact hne (Option.some.inj hold).symm

end ConfigDiff

end Rsupervisord
