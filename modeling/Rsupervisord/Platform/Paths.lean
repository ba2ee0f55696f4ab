import Rsupervisord.Support.PathNormal

/-!
# Normalized paths

`lexical_norm_path` makes a path normal without a look at the file system. A path is a string of
code units, of which only the slash and the dot matter here.

## Main results

* `lexicalNormPath_eq`: the function is lexical normalization.
* `lexicalNormPath_spec`: its results are normal, and it is compatible with joining paths.
-/

namespace Rsupervisord

open UnixPath

/-- The locals of `lexical_norm_path`. -/
structure NormState where
  components : List Component := []
  hasRootOrPrefix : Bool := false

/-- The loop of `lexical_norm_path`, for one component. -/
def NormState.push (st : NormState) : Component → NormState
  | .rootDir => ⟨st.components ++ [.rootDir], true⟩
  | .curDir => st
  | .parentDir =>
      match st.components.getLast? with
      | some (.normal _) => { st with components := st.components.dropLast }
      | some .rootDir => st
      | some .parentDir => { st with components := st.components ++ [.parentDir] }
      -- A dot is never pushed.
      | some .curDir => st
      | none =>
          if !st.hasRootOrPrefix then
            { st with components := st.components ++ [.parentDir] }
          else st
  | .normal c => { st with components := st.components ++ [.normal c] }

/-- `lexical_norm_path`. -/
def lexicalNormPath (path : String) : String :=
  if path = "" then ""
  else
    let st := (components path).foldl NormState.push {}
    if st.components.isEmpty then "." else extend "" st.components

/-! ## The loop -/

/-- The root is on the stack, and no dot is. -/
structure NormState.WellFormed (st : NormState) : Prop where
  root : st.hasRootOrPrefix = true → .rootDir ∈ st.components
  noDot : .curDir ∉ st.components

variable {st : NormState}

theorem NormState.push_components (h : st.WellFormed) (c : Component) :
    (st.push c).components = pushNormal st.components c := by
  cases c with
  | rootDir => rfl
  | curDir => rfl
  | normal name => rfl
  | parentDir =>
    rw [push, pushNormal]
    cases hlast : st.components.getLast? with
    | none =>
      have hempty : st.components = [] := List.getLast?_eq_none_iff.mp hlast
      have hroot : st.hasRootOrPrefix = false := by
        rw [← Bool.not_eq_true]
        intro hroot
        have hmem := h.root hroot
        rw [hempty] at hmem
        cases hmem
      simp [hroot]
    | some last =>
      cases last with
      | rootDir => rfl
      | parentDir => rfl
      | normal name => rfl
      | curDir => exact absurd (List.mem_of_mem_getLast? hlast) h.noDot

theorem NormState.WellFormed.push (h : st.WellFormed) (c : Component) : (st.push c).WellFormed := by
  have hcomponents := push_components h c
  cases c with
  | rootDir => exact ⟨fun _ => by simp [NormState.push], by simpa [NormState.push] using h.noDot⟩
  | curDir => exact h
  | normal name =>
    exact ⟨fun hroot => List.mem_append_left _ (h.root hroot),
      by simpa [NormState.push] using h.noDot⟩
  | parentDir =>
    have hroot : (st.push .parentDir).hasRootOrPrefix = st.hasRootOrPrefix := by
      rw [NormState.push]
      split
      · rfl
      · rfl
      · rfl
      · rfl
      · split <;> rfl
    refine ⟨fun h' => ?_, ?_⟩
    · -- Only names are taken away.
      have hmem := h.root (hroot ▸ h')
      rw [hcomponents, pushNormal]
      split
      next name hlast =>
        obtain ⟨cs, hcs⟩ := List.getLast?_eq_some_iff.mp hlast
        rw [hcs] at hmem ⊢
        simpa using hmem
      next => exact hmem
      next => exact List.mem_append_left _ hmem
    · rw [hcomponents, pushNormal]
      split
      next => exact fun hmem => h.noDot (List.mem_of_mem_dropLast hmem)
      next => exact h.noDot
      next => simpa using h.noDot

/-- The function is lexical normalization. -/
theorem lexicalNormPath_eq (path : String) : lexicalNormPath path = lexicalNorm path := by
  have hloop : ∀ (cs : List Component) (st : NormState), st.WellFormed →
      (cs.foldl NormState.push st).components = cs.foldl pushNormal st.components := by
    intro cs
    induction cs with
    | nil => exact fun st _ => rfl
    | cons c cs ih =>
      intro st h
      rw [List.foldl_cons, List.foldl_cons, ih _ (h.push c), NormState.push_components h]
  have hstart : NormState.WellFormed {} := ⟨fun hroot => absurd hroot (by decide), by simp⟩
  simp only [lexicalNormPath, lexicalNorm, hloop (components path) {} hstart]

/-! ## Normal forms -/

/-- The result has no dot unless it is one, has each `..` at the start of a relative path, and stays
as it is. The result for a joined path comes from those for its parts. -/
theorem lexicalNormPath_spec (path : String) :
    ("." ∈ Text.split '/' (lexicalNormPath path) → lexicalNormPath path = ".") ∧
      (∃ n segments, Text.split '/' (lexicalNormPath path) = List.replicate n ".." ++ segments ∧
        ".." ∉ segments ∧ (isAbsolute (lexicalNormPath path) = true → n = 0)) ∧
      lexicalNormPath (lexicalNormPath path) = lexicalNormPath path ∧
      (isAbsolute path = false → ∀ base, lexicalNormPath (join base path) =
        lexicalNormPath (join (lexicalNormPath base) (lexicalNormPath path))) := by
  simp only [lexicalNormPath_eq]
  obtain ⟨n, segments, hsplit, hdots, habsolute, hdot⟩ := split_lexicalNorm path
  refine ⟨fun hmem => hdot ?_, ⟨n, segments, hsplit, hdots, habsolute⟩,
    lexicalNorm_lexicalNorm path, fun hrelative base => lexicalNorm_join base hrelative⟩
  rw [hsplit] at hmem
  obtain hmem | hmem := List.mem_append.mp hmem
  · exact absurd (List.eq_of_mem_replicate hmem) (by decide)
  · exact hmem

/-- A relative path with a `..` goes on from the normal form of its base. -/
theorem lexicalNormPath_spec_parent : lexicalNormPath (join "/srv/./www" "../log") =
    lexicalNormPath (join (lexicalNormPath "/srv/./www") (lexicalNormPath "../log")) :=
  (lexicalNormPath_spec "../log").2.2.2 (by decide) "/srv/./www"

end Rsupervisord
