import Rsupervisord.Compat.Ini.Adapter
import Mathlib.Data.List.ReduceOption

/-!
# What a section is turned into

The tree of a section holds the settings that the section gives, each at its place and as its
conversion makes it, and nothing else but the switch that new log settings begin with.

## Main results

* `mapSection_spec`: the tree of a section, and the error when there is none.
-/

namespace Rsupervisord

namespace Ini

open Json (Apart atPath setPaths)

variable {env : AdapterEnv} {sec : Section} {context : String} {configDir : Option String}
  {ms : List FieldMapping} {target : Json.Fields}

/-! ## Settings in turn -/

/-- A setting that a section gives, with its place. -/
def FieldMapping.setting (env : AdapterEnv) (sec : Section) (context : String)
    (configDir : Option String) (m : FieldMapping) :
    Except ProgramError (Option (List String × Json)) :=
  (m.value env sec context configDir).map fun v => v.map fun v => (m.path, v)

/-- A mapping sets the value that it finds, at its path. -/
theorem setting_eq_ok_iff {m : FieldMapping} {s : Option (List String × Json)} :
    m.setting env sec context configDir = .ok s ↔
      ∃ v, m.value env sec context configDir = .ok v ∧ s = v.map fun v => (m.path, v) := by
  rw [FieldMapping.setting, Except.map_eq_ok]
  exact exists_congr fun v => and_congr_right fun _ => eq_comm

/-- A mapping fails as its value does. -/
theorem setting_eq_error_iff {m : FieldMapping} {e : ProgramError} :
    m.setting env sec context configDir = .error e ↔
      m.value env sec context configDir = .error e := by
  rw [FieldMapping.setting]
  cases m.value env sec context configDir with
  | ok v => simp [Except.map]
  | error e' => simp [Except.map]

/-- Enter a setting, if there is one. -/
def enterSetting (target : Json.Fields) : Option (List String × Json) → Json.Fields
  | some s => Json.setPath freshObject s.2 s.1 target
  | none => target

/-- Settings are entered one after the other, and nothing where there is none. -/
theorem foldl_enterSetting (ss : List (Option (List String × Json))) (target : Json.Fields) :
    ss.foldl enterSetting target = setPaths freshObject ss.reduceOption target := by
  induction ss generalizing target with
  | nil => rfl
  | cons s ss ih =>
    cases s with
    | none => exact ih target
    | some s => exact ih _

/-- The settings are computed, and all are entered. -/
theorem applyMappings_eq (target : Json.Fields) :
    applyMappings env sec ms target context configDir =
      (ms.mapM (FieldMapping.setting env sec context configDir)).map fun ss =>
        setPaths freshObject ss.reduceOption target := by
  rw [applyMappings,
    Except.foldlM_eq_map_mapM (g := FieldMapping.setting env sec context configDir)
      (h := enterSetting)]
  · simp only [foldl_enterSetting]
  · intro target m
    rw [FieldMapping.setting]
    cases m.value env sec context configDir with
    | error e => rfl
    | ok v =>
      cases v with
      | none => rfl
      | some v => rfl

/-- The groups of a section are mapped as one table. -/
theorem mapSection_eq (groups : List (List FieldMapping)) :
    mapSection env sec groups context configDir =
      applyMappings env sec groups.flatten [] context configDir :=
  Except.foldlM_flatten

/-- The settings that are entered are those that the section gives. -/
theorem mem_reduceOption {ss : List (Option (List String × Json))} {s : List String × Json}
    (hss : ms.mapM (FieldMapping.setting env sec context configDir) = .ok ss) :
    s ∈ ss.reduceOption ↔
      ∃ m ∈ ms, m.value env sec context configDir = .ok (some s.2) ∧ m.path = s.1 := by
  rw [List.reduceOption_mem_iff, Except.mem_iff_of_mapM hss]
  refine exists_congr fun m => and_congr_right fun _ => ?_
  rw [setting_eq_ok_iff]
  constructor
  · rintro ⟨v, hv, hs⟩
    cases v with
    | none => cases hs
    | some v =>
      obtain rfl := Option.some.inj hs
      exact ⟨hv, rfl⟩
  · rintro ⟨hv, hpath⟩
    exact ⟨some s.2, hv, by rw [Option.map_some, hpath]⟩

/-! ## Tables -/

/-- The places of a table: one or two names each, and none leads to another. -/
structure Separate (ms : List FieldMapping) : Prop where
  short : ∀ m ∈ ms, m.path.length ≤ 2
  apart : ms.Pairwise fun m m' => Apart m.path m'.path

/-- A path has a first name. -/
theorem path_ne_nil (m : FieldMapping) : m.path ≠ [] := by
  rw [FieldMapping.path, Text.split, Ne, List.map_eq_nil_iff]
  exact List.splitOn_ne_nil _ _

/-- Two mappings of a table with separate paths are the same or apart. -/
theorem Separate.eq_or_apart (h : Separate ms) {m m' : FieldMapping} (hm : m ∈ ms)
    (hm' : m' ∈ ms) : m = m' ∨ Apart m.path m'.path := by
  by_cases heq : m = m'
  · exact .inl heq
  · have : Std.Symm fun m m' : FieldMapping => Apart m.path m'.path :=
      ⟨fun _ _ happart => happart.symm⟩
    exact .inr (h.apart.forall hm hm' heq)

/-- The place of the switch of the logs. -/
def logsEnabled : List String := ["logs", "enabled"]

/-- What no setting leads to is the switch that new log settings begin with. -/
theorem origin_of_setPaths {settings : List (List String × Json)} {q : List String} {w : Json}
    (hshort : ∀ s ∈ settings, s.1.length ≤ 2) (happart : ∀ s ∈ settings, Apart s.1 q)
    (hq : q ≠ []) (h : atPath q (.obj (setPaths freshObject settings [])) = some w) :
    q = logsEnabled ∧ w = .bool true ∧ ∃ s ∈ settings, ∃ path, s.1 = "logs" :: path := by
  obtain hbefore | ⟨s, hs, dir, name, rest, rfl, hdir, hrest⟩ :=
    Json.origin_of_atPath_setPaths happart h
  · cases q with
    | nil => exact absurd rfl hq
    | cons name q => cases hbefore
  -- Only new log settings begin with something.
  cases rest with
  | nil => exact absurd hdir (happart s hs).2
  | cons field rest =>
    rw [Json.atPath_cons] at hrest
    obtain ⟨v, hfield, hv⟩ := Option.bind_eq_some_iff.mp hrest
    rw [freshObject] at hfield
    split_ifs at hfield with hname
    · obtain ⟨henabled, rfl⟩ : field = "enabled" ∧ Json.bool true = v := by
        rw [List.lookup_cons] at hfield
        split at hfield
        next heq => exact ⟨by simpa using heq, Option.some.inj hfield⟩
        next => cases hfield
      cases rest with
      | cons => cases hv
      | nil =>
        have hlength := hshort s hs
        obtain ⟨behind, hbehind⟩ := hdir
        cases behind with
        | nil =>
          rw [List.append_nil] at hbehind
          refine absurd ?_ (happart s hs).1
          rw [← hbehind]
          exact (List.prefix_append_right_inj dir).mpr (by simp)
        | cons next behind =>
          rw [← hbehind, List.length_append, List.length_append, List.length_cons] at hlength
          obtain rfl := List.length_eq_zero_iff.mp (show dir.length = 0 by simp at hlength; omega)
          rw [Json.atPath_nil] at hv
          exact ⟨by rw [hname, henabled]; rfl, (Option.some.inj hv).symm, s, hs, next :: behind, by
            rw [← hbehind, hname]; rfl⟩
    · cases hfield

/-! ## Sections -/

/-- The sections that have a tree of their own. -/
inductive SectionKind
  | ctl
  | programDefault
  | program
  | group
  | eventListener
  deriving DecidableEq, Repr

/-- The tables of a section. -/
def SectionKind.tables : SectionKind → List (List FieldMapping)
  | ctl => [ctlMappings]
  | programDefault => [programSharedMappings]
  | program => [programSharedMappings, programOnlyMappings]
  | group => [groupMappings]
  | eventListener => [eventListenerMappings]

/-- The tables of a section as one. -/
def SectionKind.table (kind : SectionKind) : List FieldMapping := kind.tables.flatten

/-- Whether the paths are separate is decided on pairs. -/
instance (ms : List FieldMapping) : Decidable (Separate ms) :=
  decidable_of_iff ((∀ m ∈ ms, m.path.length ≤ 2) ∧ ms.Pairwise fun m m' => Apart m.path m'.path)
    ⟨fun h => ⟨h.1, h.2⟩, fun h => ⟨h.short, h.apart⟩⟩

/-- Part of a table with separate paths has separate paths. -/
theorem Separate.sublist {ms' : List FieldMapping} (h : Separate ms) (hsub : ms'.Sublist ms) :
    Separate ms' :=
  ⟨fun m hm => h.short m (hsub.mem hm), h.apart.sublist hsub⟩

/-- The paths of a program are separate. -/
theorem separate_program : Separate (programSharedMappings ++ programOnlyMappings) := by
  decide +kernel

/-- So are those of every kind of section. -/
theorem separate_table (kind : SectionKind) : Separate kind.table := by
  cases kind with
  | ctl => decide +kernel
  | programDefault =>
    rw [SectionKind.table, SectionKind.tables, List.flatten_singleton]
    exact separate_program.sublist (List.sublist_append_left _ _)
  | program => simpa [SectionKind.table, SectionKind.tables] using separate_program
  | group => decide +kernel
  | eventListener => decide +kernel

/-- What is at the place of a setting that the section does not give: the switch of the logs is on
when another log setting is given. -/
def fallback (env : AdapterEnv) (sec : Section) (context : String) (configDir : Option String)
    (ms : List FieldMapping) (path : List String) : Option Json :=
  if path = logsEnabled ∧ ms.any fun m => m.path.head? = some "logs" ∧
      (m.value env sec context configDir).toOption.any Option.isSome then
    some (.bool true)
  else none

/-- A mapping is read when its value is. -/
theorem exists_setting {m : FieldMapping} :
    (∃ s, m.setting env sec context configDir = .ok s) ↔
      ∃ v, m.value env sec context configDir = .ok v := by
  simp only [setting_eq_ok_iff]
  exact ⟨fun ⟨_, v, hv, _⟩ => ⟨v, hv⟩, fun ⟨v, hv⟩ => ⟨_, v, hv, rfl⟩⟩

/-- The switch of the logs is what is left when a setting is not given. -/
theorem atPath_of_absent {settings : List (List String × Json)} {q : List String}
    (hshort : ∀ s ∈ settings, s.1.length ≤ 2) (happart : ∀ s ∈ settings, Apart s.1 q)
    (hmem : ∀ s, s ∈ settings ↔
      ∃ m ∈ ms, m.value env sec context configDir = .ok (some s.2) ∧ m.path = s.1)
    (hq : q ≠ []) :
    atPath q (.obj (setPaths freshObject settings [])) =
      fallback env sec context configDir ms q := by
  -- Whether a log setting is given, said in both ways.
  have hgiven : (∃ s ∈ settings, ∃ path, s.1 = "logs" :: path) ↔
      ms.any (fun m => m.path.head? = some "logs" ∧
        (m.value env sec context configDir).toOption.any Option.isSome) = true := by
    rw [List.any_eq_true]
    constructor
    · rintro ⟨s, hs, path, hpath⟩
      obtain ⟨m, hm, hv, hmpath⟩ := (hmem s).mp hs
      refine ⟨m, hm, decide_eq_true ⟨?_, ?_⟩⟩
      · rw [hmpath, hpath, List.head?_cons]
      · rw [hv]
        rfl
    · rintro ⟨m, hm, hgiven⟩
      obtain ⟨hhead, hsome⟩ := of_decide_eq_true hgiven
      obtain ⟨path, hpath⟩ := List.head?_eq_some_iff.mp hhead
      cases hv : m.value env sec context configDir with
      | error e =>
        rw [hv] at hsome
        cases hsome
      | ok v =>
        cases v with
        | none =>
          rw [hv] at hsome
          cases hsome
        | some v => exact ⟨(m.path, v), (hmem _).mpr ⟨m, hm, hv, rfl⟩, path, hpath⟩
  rw [fallback]
  split_ifs with hswitch
  · obtain ⟨rfl, hany⟩ := hswitch
    exact Json.atPath_setPaths_fresh rfl rfl happart (hgiven.mpr hany)
  · cases hw : atPath q (.obj (setPaths freshObject settings [])) with
    | none => rfl
    | some w =>
      obtain ⟨rfl, -, hset⟩ := origin_of_setPaths hshort happart hq hw
      exact absurd ⟨rfl, hgiven.mp hset⟩ hswitch

/-- The tree of a section holds each setting that the section gives at its place, and the switch of
the logs when another log setting is given; whatever else is in the tree is on the way to these or
inside of them. There is no tree when a setting cannot be converted, and the first one is
reported. -/
theorem mapSection_spec (kind : SectionKind) :
    (∀ e, mapSection env sec kind.tables context configDir = .error e ↔
      ∃ before m behind, kind.table = before ++ m :: behind ∧
        (∀ m' ∈ before, ∃ v, m'.value env sec context configDir = .ok v) ∧
        m.value env sec context configDir = .error e) ∧
    ∀ target, mapSection env sec kind.tables context configDir = .ok target →
      (∀ m ∈ kind.table, ∃ v, m.value env sec context configDir = .ok v ∧
        atPath m.path (.obj target) =
          v.or (fallback env sec context configDir kind.table m.path)) ∧
      ∀ q w, q ≠ [] → atPath q (.obj target) = some w → q = logsEnabled ∨
        ∃ m ∈ kind.table, ¬ Apart m.path q ∧
          ∃ v, m.value env sec context configDir = .ok (some v) := by
  have hseparate := separate_table kind
  have hmap : mapSection env sec kind.tables context configDir =
      (kind.table.mapM (FieldMapping.setting env sec context configDir)).map fun ss =>
        setPaths freshObject ss.reduceOption [] := by
    rw [mapSection_eq, applyMappings_eq, SectionKind.table]
  rw [hmap]
  constructor
  · intro e
    have hfail : ∀ x : Except ProgramError (List (Option (List String × Json))),
        (x.map fun ss => setPaths freshObject ss.reduceOption []) = .error e ↔ x = .error e := by
      intro x
      cases x with
      | ok ss => simp [Except.map]
      | error e' => simp [Except.map]
    -- The settings are converted in the order of the table, until one fails.
    rw [hfail, Except.mapM_eq_error_iff]
    simp only [setting_eq_error_iff, exists_setting]
  · intro target htarget
    obtain ⟨ss, hss, rfl⟩ := Except.map_eq_ok.mp htarget
    have hmem := fun s => mem_reduceOption (s := s) hss
    have hshort : ∀ s ∈ ss.reduceOption, s.1.length ≤ 2 := by
      intro s hs
      obtain ⟨m, hm, -, hpath⟩ := (hmem s).mp hs
      exact hpath ▸ hseparate.short m hm
    constructor
    · intro m hm
      obtain ⟨s, -, hs⟩ := Except.exists_mem_of_mapM hss hm
      obtain ⟨v, hv, -⟩ := setting_eq_ok_iff.mp hs
      refine ⟨v, hv, ?_⟩
      cases v with
      | some v =>
        refine Json.atPath_setPaths (s := (m.path, v)) ((hmem _).mpr ⟨m, hm, hv, rfl⟩)
          (path_ne_nil m) fun s' hs' => ?_
        obtain ⟨m', hm', hv', hpath'⟩ := (hmem s').mp hs'
        obtain rfl | happart := hseparate.eq_or_apart hm' hm
        · rw [hv] at hv'
          obtain rfl := Option.some.inj (Except.ok.inj hv')
          exact .inl (Prod.ext hpath'.symm rfl)
        · exact .inr (hpath' ▸ happart)
      | none =>
        -- No setting that is given leads to this place or from it.
        have happart : ∀ s ∈ ss.reduceOption, Apart s.1 m.path := by
          intro s' hs'
          obtain ⟨m', hm', hv', hpath'⟩ := (hmem s').mp hs'
          obtain rfl | happart := hseparate.eq_or_apart hm' hm
          · rw [hv] at hv'
            cases hv'
          · exact hpath' ▸ happart
        exact atPath_of_absent hshort happart (fun _ => hmem _) (path_ne_nil m)
    · intro q w hq hw
      by_cases hset : ∃ s ∈ ss.reduceOption, ¬ Apart s.1 q
      · obtain ⟨s, hs, hnot⟩ := hset
        obtain ⟨m, hm, hv, hpath⟩ := (hmem s).mp hs
        exact .inr ⟨m, hm, hpath ▸ hnot, s.2, hv⟩
      · push Not at hset
        exact .inl (origin_of_setPaths hshort hset hq hw).1

/-- Conversions on decimal digits, in a root directory. -/
def AdapterEnv.decimal : AdapterEnv where
  numbers := .decimal
  cwd := "/"
  signalName _ := "TERM"

/-- A group of two programs with a priority. -/
def siteGroup : Section :=
  ((∅ : Section).insert "programs" "db, web").insert "priority" "10"

/-- A group is mapped to its programs and its priority. -/
theorem mapSection_spec_group :
    ∃ target, mapSection .decimal siteGroup SectionKind.group.tables "Invalid group" none =
        .ok target ∧
      atPath ["programs"] (.obj target) = some (.arr [.str "db", .str "web"]) ∧
      atPath ["priority"] (.obj target) = some (.num 10) := by
  obtain ⟨target, htarget⟩ : ∃ target, mapSection .decimal siteGroup SectionKind.group.tables
      "Invalid group" none = .ok target := ⟨_, rfl⟩
  have hvalues := ((mapSection_spec .group).2 target htarget).1
  refine ⟨target, htarget, ?_, ?_⟩
  · obtain ⟨v, hv, hpath⟩ := hvalues (.same "programs" .stringList) (by decide +kernel)
    obtain rfl : v = some (.arr [.str "db", .str "web"]) := (Except.ok.inj hv).symm
    exact hpath
  · obtain ⟨v, hv, hpath⟩ := hvalues (.same "priority" .u32) (by decide +kernel)
    obtain rfl : v = some (.num 10) := (Except.ok.inj hv).symm
    exact hpath

end Ini

end Rsupervisord
