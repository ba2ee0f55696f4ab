import Rsupervisord.Manager.Targets
import Rsupervisord.Support.TextSplit

/-!
# The status filter of the client

`handle_status` fetches the status of all programs and picks those that a target names by itself.
The daemon resolves the same targets with `find_match`. The client compares the name and the group
of a program with the target as it is, and both of them at a time; the daemon trims the target and
prefers a program of that name, then the programs that the target covers, then a group of that name.

## Main definitions

* `Cli.matchesTarget`: the filter.
* `Cli.Agrees`: the targets that the client and the daemon understand alike.

## Main results

* `Cli.filter_agrees_iff`: the filter and `find_match` pick the same programs for these targets.
-/

namespace Rsupervisord

namespace Cli

/-- What the filter reads of the status of a program. -/
structure ProgramStatusDto where
  name : String
  group : String
  deriving DecidableEq, Repr

/-- The name that a program of a group is shown with. -/
def namespec (group name : String) : String :=
  if group = "" ∨ group = name then name else group ++ ":" ++ name

/-- The filter of `handle_status` for one target. -/
def matchesTarget (target : String) (p : ProgramStatusDto) : Bool :=
  if ':' ∈ target.toList then
    match Text.splitOnce ':' target with
    | some (g, proc) =>
        if proc = "*" then p.group = g
        else namespec p.group p.name = target ∨ p.group = g ∧ p.name = proc
    | none => namespec p.group p.name = target
  else p.name = target ∨ p.group = target

/-- Add a match that is not there yet. -/
def addMatch (matched : List ProgramStatusDto) (p : ProgramStatusDto) : List ProgramStatusDto :=
  if matched.any fun q => q.name = p.name ∧ q.group = p.group then matched else matched ++ [p]

/-- The loop of `handle_status`, for one target: the matches and the missing names. -/
def selectTarget (allPrograms : List ProgramStatusDto)
    (selected : List ProgramStatusDto × List String) (target : String) :
    List ProgramStatusDto × List String :=
  let found := allPrograms.filter (matchesTarget target)
  if found.isEmpty then (selected.1, selected.2 ++ [target])
  else (found.foldl addMatch selected.1, selected.2)

/-- `handle_status` behind the fetch of the status of all programs: the programs that are shown and
the names that are missing. -/
def handleStatus (names : List String) (allPrograms : List ProgramStatusDto) :
    List ProgramStatusDto × List String :=
  if names = [] ∨ "all" ∈ names then (allPrograms, [])
  else names.foldl (selectTarget allPrograms) ([], [])

/-- The status of all programs, in some order. -/
def allStatus (configs : ProgramConfigs) (order : HashOrder String) : List ProgramStatusDto :=
  (configs.iter order).map fun e => ⟨e.1, e.2.group⟩

/-! ## Targets that are understood alike -/

section Agrees

variable (configs : ProgramConfigs)

/-- The program is in the group. -/
def InGroup (name group : String) : Prop :=
  ∃ cfg, configs.lookup name = some cfg ∧ cfg.group = group

/-- The program is shown as the target, or has these two parts of it as its group and name. -/
def ShownAs (target g proc name : String) : Prop :=
  (∃ cfg, configs.lookup name = some cfg ∧ namespec cfg.group name = target) ∨
    InGroup configs name g ∧ name = proc

/-- A target without a colon, next to the trimmed one. Where the latter is a program, no other
program may be called or grouped as the target. Where it is not, white space matters: no program may
be in a group that is called like the target, and the group of the trimmed name has no program but
the one that is called like the target, if there is one. -/
def PlainAgrees (target trimmed : String) : Prop :=
  (trimmed ∈ configs ∧ (target = trimmed ∨ InGroup configs trimmed target) ∧
      ∀ name ∈ configs, name = target ∨ InGroup configs name target → name = trimmed) ∨
    trimmed ∉ configs ∧ (target = trimmed ∨ (∀ name, ¬ InGroup configs name target) ∧
      (∀ name, InGroup configs name trimmed → name = target) ∧
        (target ∈ configs → InGroup configs target trimmed))

/-- A target for a group `g'`, next to the trimmed one for the group `g`. Where the latter is a
program, it must be the only one of the group. -/
def WildcardAgrees (target trimmed g' g : String) : Prop :=
  (trimmed ∈ configs ∧ InGroup configs trimmed g' ∧
      ∀ name, InGroup configs name g' → name = trimmed) ∨
    (trimmed ∉ configs ∧ (∃ name, InGroup configs name g) ∧ target = trimmed) ∨
    trimmed ∉ configs ∧ ∀ name, ¬ InGroup configs name g ∧ ¬ InGroup configs name trimmed ∧
      ¬ InGroup configs name g'

/-- A target for a program `proc'` of a group `g'`, next to the trimmed one for the program `proc`
of the group `g`. Where the latter is itself a program, this must have no group of another name, and
no other program may be shown as the target. Where it covers programs, only programs of the group
may be shown as the target, and with white space it must cover the whole group, which has only a
program of the name behind the colon or, without a group name, one called like the target. Where it
covers none, no group may be called like it and no program may be shown as the target. -/
def ProgramAgrees (target trimmed g' proc' g proc : String) : Prop :=
  (trimmed ∈ configs ∧ target = trimmed ∧
      (InGroup configs trimmed "" ∨ InGroup configs trimmed trimmed) ∧
      ∀ name, ShownAs configs target g' proc' name → name = trimmed) ∨
    (trimmed ∉ configs ∧ (∃ name, InGroup configs name g ∧ (proc = "*" ∨ name = proc)) ∧
      (∀ name, ShownAs configs target g' proc' name → InGroup configs name g) ∧
        (target = trimmed ∨ proc = "*" ∧ ∀ name, InGroup configs name g →
          g' = g ∧ name = proc' ∨ g = "" ∧ name = target)) ∨
    trimmed ∉ configs ∧ ∀ name, ¬ (InGroup configs name g ∧ (proc = "*" ∨ name = proc)) ∧
      ¬ InGroup configs name trimmed ∧ ¬ ShownAs configs target g' proc' name

/-- The targets that the client and the daemon understand alike. -/
def Agrees (target : String) : Prop :=
  match Text.splitOnce ':' target, Text.splitOnce ':' (Text.trim target) with
  | some (g', proc'), some (g, proc) =>
      if proc' = "*" then WildcardAgrees configs target (Text.trim target) g' g
      else ProgramAgrees configs target (Text.trim target) g' proc' g proc
  | _, _ => PlainAgrees configs target (Text.trim target)

end Agrees

variable {configs : ProgramConfigs} {order : HashOrder String}
  {target trimmed name group g g' proc proc' : String}

/-! ## What the client picks -/

/-- The programs that the filter picks. -/
def Picks (configs : ProgramConfigs) (target name : String) : Prop :=
  ∃ cfg, configs.lookup name = some cfg ∧ matchesTarget target ⟨name, cfg.group⟩ = true

theorem mem_filter_iff : name ∈ ((allStatus configs order).filter
    (matchesTarget target)).map (·.name) ↔ Picks configs target name := by
  simp only [List.mem_map, List.mem_filter, allStatus]
  constructor
  · rintro ⟨_, ⟨⟨⟨name, cfg⟩, he, rfl⟩, hmatch⟩, rfl⟩
    exact ⟨cfg, HashMap.mem_iter.mp he, hmatch⟩
  · rintro ⟨cfg, hcfg, hmatch⟩
    exact ⟨⟨name, cfg.group⟩, ⟨⟨(name, cfg), HashMap.mem_iter.mpr hcfg, rfl⟩, hmatch⟩, rfl⟩

/-- One target shows what the filter picks. -/
theorem mem_handleStatus (hall : target ≠ "all") {allPrograms : List ProgramStatusDto} :
    name ∈ (handleStatus [target] allPrograms).1.map (·.name) ↔
      name ∈ (allPrograms.filter (matchesTarget target)).map (·.name) := by
  have hfold : ∀ (found matched : List ProgramStatusDto),
      name ∈ (found.foldl addMatch matched).map (·.name) ↔
        name ∈ matched.map (·.name) ∨ name ∈ found.map (·.name) := by
    intro found
    induction found with
    | nil => simp
    | cons p found ih =>
      intro matched
      rw [List.foldl_cons, ih, List.map_cons, List.mem_cons, addMatch]
      split_ifs with hthere
      · obtain ⟨q, hq, heq⟩ := List.any_eq_true.mp hthere
        have hname : q.name = p.name := (of_decide_eq_true heq).1
        have hmem : p.name ∈ matched.map (·.name) := hname ▸ List.mem_map_of_mem hq
        constructor
        · tauto
        · rintro (h | rfl | h)
          · exact .inl h
          · exact .inl hmem
          · exact .inr h
      · simp only [List.map_append, List.mem_append, List.map_cons, List.map_nil,
          List.mem_singleton]
        tauto
  have hnames : ¬ ([target] = [] ∨ "all" ∈ [target]) := by simp [hall.symm]
  rw [handleStatus, if_neg hnames]
  simp only [List.foldl_cons, List.foldl_nil, selectTarget]
  split_ifs with hempty
  · rw [List.isEmpty_iff.mp hempty]
  · rw [hfold]
    simp

theorem notMem_of_splitOnce (h : Text.splitOnce ':' target = none) : ':' ∉ target.toList := by
  rw [Text.splitOnce] at h
  split at h
  next hdrop =>
    intro hmem
    exact of_decide_eq_true (List.dropWhile_eq_nil_iff.mp hdrop ':' hmem) rfl
  next => cases h

theorem mem_of_splitOnce (h : Text.splitOnce ':' target = some (g, proc)) :
    ':' ∈ target.toList := by
  rw [(Text.eq_of_splitOnce h).1]
  simp

theorem picks_plain (h : Text.splitOnce ':' target = none) : Picks configs target name ↔
    name ∈ configs ∧ (name = target ∨ InGroup configs name target) := by
  have hmatch : ∀ group, matchesTarget target ⟨name, group⟩ = true ↔
      name = target ∨ group = target := by
    intro group
    rw [matchesTarget, if_neg (notMem_of_splitOnce h)]
    exact decide_eq_true_iff
  rw [HashMap.mem_iff_lookup]
  constructor
  · rintro ⟨cfg, hcfg, h⟩
    exact ⟨⟨cfg, hcfg⟩, ((hmatch _).mp h).imp_right fun hgroup => ⟨cfg, hcfg, hgroup⟩⟩
  · rintro ⟨⟨cfg, hcfg⟩, rfl | ⟨cfg', hcfg', hgroup⟩⟩
    · exact ⟨cfg, hcfg, (hmatch _).mpr (.inl rfl)⟩
    · exact ⟨cfg', hcfg', (hmatch _).mpr (.inr hgroup)⟩

theorem picks_wildcard (h : Text.splitOnce ':' target = some (g, "*")) :
    Picks configs target name ↔ InGroup configs name g := by
  have hmatch : ∀ group, matchesTarget target ⟨name, group⟩ = true ↔ group = g := by
    intro group
    rw [matchesTarget, if_pos (mem_of_splitOnce h), h]
    simp
  exact exists_congr fun cfg => and_congr_right fun _ => hmatch cfg.group

theorem picks_program (h : Text.splitOnce ':' target = some (g, proc)) (hproc : proc ≠ "*") :
    Picks configs target name ↔ ShownAs configs target g proc name := by
  have hmatch : ∀ group, matchesTarget target ⟨name, group⟩ = true ↔
      namespec group name = target ∨ group = g ∧ name = proc := by
    intro group
    rw [matchesTarget, if_pos (mem_of_splitOnce h), h]
    simp [hproc]
  constructor
  · rintro ⟨cfg, hcfg, h⟩
    obtain hshown | ⟨hgroup, hname⟩ := (hmatch _).mp h
    · exact .inl ⟨cfg, hcfg, hshown⟩
    · exact .inr ⟨⟨cfg, hcfg, hgroup⟩, hname⟩
  · rintro (⟨cfg, hcfg, hshown⟩ | ⟨⟨cfg, hcfg, hgroup⟩, hname⟩)
    · exact ⟨cfg, hcfg, (hmatch _).mpr (.inl hshown)⟩
    · exact ⟨cfg, hcfg, (hmatch _).mpr (.inr ⟨hgroup, hname⟩)⟩

/-! ## What the daemon selects -/

theorem InGroup.mem (h : InGroup configs name group) : name ∈ configs := by
  obtain ⟨cfg, hcfg, -⟩ := h
  exact HashMap.mem_iff_lookup.mpr ⟨cfg, hcfg⟩

theorem selects_plain (h : Text.splitOnce ':' trimmed = none) (hnot : trimmed ∉ configs) :
    configs.Selects trimmed name ↔ InGroup configs name trimmed := by
  have hcovers : ∀ other cfg, ¬ ProgramConfigs.Covers trimmed other cfg := by
    rintro other cfg ⟨g, proc, hsplit, -⟩
    rw [h] at hsplit
    cases hsplit
  constructor
  · rintro (hmem | ⟨-, -, hcover⟩ | ⟨-, -, hcfg, hgroup⟩)
    · exact absurd hmem hnot
    · exact absurd hcover (hcovers _ _)
    · exact ⟨_, hcfg, hgroup⟩
  · rintro ⟨cfg, hcfg, hgroup⟩
    exact .member hnot (fun other cfg _ => hcovers other cfg) hcfg hgroup

/-- The programs that a target with a colon covers, when it is no program itself. -/
theorem covered_iff (h : Text.splitOnce ':' trimmed = some (g, proc)) (hnot : trimmed ∉ configs) :
    (∃ cfg, configs.lookup name = some cfg ∧ ProgramConfigs.Covers trimmed name cfg) ↔
      InGroup configs name g ∧ (proc = "*" ∨ name = proc) := by
  constructor
  · rintro ⟨cfg, hcfg, g₁, proc₁, hsplit, hgroup, hproc⟩
    obtain ⟨rfl, rfl⟩ := Prod.mk.inj (Option.some.inj (h.symm.trans hsplit))
    refine ⟨⟨cfg, hcfg, hgroup⟩, ?_⟩
    obtain hstar | hname | hstrip := hproc
    · exact .inl hstar
    · exact .inr hname.symm
    · -- The name would be the target.
      have hname : name = trimmed := by
        rw [Text.stripPrefix_eq_some_iff.mp hstrip, (Text.eq_of_splitOnce h).1]
      exact absurd (hname ▸ HashMap.mem_iff_lookup.mpr ⟨cfg, hcfg⟩) hnot
  · rintro ⟨⟨cfg, hcfg, hgroup⟩, hproc⟩
    refine ⟨cfg, hcfg, g, proc, h, hgroup, ?_⟩
    obtain hstar | hname := hproc
    · exact .inl hstar
    · exact .inr (.inl hname.symm)

theorem selects_covered (h : Text.splitOnce ':' trimmed = some (g, proc)) (hnot : trimmed ∉ configs)
    (hsome : ∃ name, InGroup configs name g ∧ (proc = "*" ∨ name = proc)) :
    configs.Selects trimmed name ↔ InGroup configs name g ∧ (proc = "*" ∨ name = proc) := by
  rw [← covered_iff h hnot]
  obtain ⟨other, hother⟩ := hsome
  obtain ⟨cfg, hcfg, hcovers⟩ := (covered_iff h hnot).mpr hother
  constructor
  · rintro (hmem | ⟨-, hcfg, hcover⟩ | ⟨-, hnone, -, -⟩)
    · exact absurd hmem hnot
    · exact ⟨_, hcfg, hcover⟩
    · exact absurd hcovers (hnone other cfg hcfg)
  · rintro ⟨cfg, hcfg, hcover⟩
    exact .covered hnot hcfg hcover

theorem selects_group (h : Text.splitOnce ':' trimmed = some (g, proc)) (hnot : trimmed ∉ configs)
    (hnone : ∀ name, ¬ (InGroup configs name g ∧ (proc = "*" ∨ name = proc))) :
    configs.Selects trimmed name ↔ InGroup configs name trimmed := by
  have hcovers : ∀ other cfg, configs.lookup other = some cfg →
      ¬ ProgramConfigs.Covers trimmed other cfg := fun other cfg hcfg hcover =>
    hnone other ((covered_iff h hnot).mp ⟨cfg, hcfg, hcover⟩)
  constructor
  · rintro (hmem | ⟨-, hcfg, hcover⟩ | ⟨-, -, hcfg, hgroup⟩)
    · exact absurd hmem hnot
    · exact absurd hcover (hcovers _ _ hcfg)
    · exact ⟨_, hcfg, hgroup⟩
  · rintro ⟨cfg, hcfg, hgroup⟩
    exact .member hnot hcovers hcfg hgroup

/-! ## The parts of a target and of the trimmed one -/

/-- A colon between two texts is one more. -/
theorem count_colon (x y : String) : (x ++ ":" ++ y).toList.count ':' =
    x.toList.count ':' + y.toList.count ':' + 1 := by
  simp only [String.toList_append, List.count_append]
  have hcolon : ":".toList.count ':' = 1 := rfl
  omega

/-- A name behind its group and a colon is not the target that it is the trimmed text of. -/
theorem append_trim_ne (x : String) : x ++ ":" ++ Text.trim target ≠ target := by
  intro heq
  have hcount := congrArg (fun s => s.toList.count ':') heq
  simp only [count_colon, Text.count_trim (c := ':') rfl] at hcount
  omega

theorem trim_append_ne (x : String) : Text.trim target ++ ":" ++ x ≠ target := by
  intro heq
  have hcount := congrArg (fun s => s.toList.count ':') heq
  simp only [count_colon, Text.count_trim (c := ':') rfl] at hcount
  omega

/-- The target is trimmed exactly when both of its parts are. -/
theorem eq_trim_iff (hT : Text.splitOnce ':' target = some (g', proc'))
    (ht : Text.splitOnce ':' (Text.trim target) = some (g, proc)) :
    target = Text.trim target ↔ g' = g ∧ proc' = proc := by
  constructor
  · intro heq
    rw [← heq, hT] at ht
    exact Prod.mk.inj (Option.some.inj ht)
  · rintro ⟨rfl, rfl⟩
    exact (Text.eq_of_splitOnce hT).1.trans (Text.eq_of_splitOnce ht).1.symm

/-- A program has one group. -/
theorem InGroup.eq (h : InGroup configs name g) (h' : InGroup configs name g') : g = g' := by
  obtain ⟨cfg, hcfg, rfl⟩ := h
  obtain ⟨cfg', hcfg', rfl⟩ := h'
  rw [Option.some.inj (hcfg.symm.trans hcfg')]

/-- A program is shown by its name, or behind its group and a colon. -/
theorem namespec_eq_iff : namespec group name = target ↔
    (group = "" ∨ group = name) ∧ name = target ∨
      ¬ (group = "" ∨ group = name) ∧ group ++ ":" ++ name = target := by
  rw [namespec]
  split_ifs with hshort <;> simp [hshort]

/-! ## The three kinds of targets -/

theorem plainAgrees_iff (hT : Text.splitOnce ':' target = none)
    (ht : Text.splitOnce ':' trimmed = none) :
    (∀ name, Picks configs target name ↔ configs.Selects trimmed name) ↔
      PlainAgrees configs target trimmed := by
  simp only [picks_plain hT]
  rw [PlainAgrees]
  by_cases hmem : trimmed ∈ configs
  · simp only [ProgramConfigs.selects_iff_of_mem hmem, hmem, true_and, not_true, false_and,
      or_false]
    constructor
    · intro h
      exact ⟨((h trimmed).mpr rfl).2.imp_left Eq.symm, fun name hname hmatch =>
        (h name).mp ⟨hname, hmatch⟩⟩
    · rintro ⟨hmatch, honly⟩ name
      constructor
      · rintro ⟨hname, h⟩
        exact honly name hname h
      · rintro rfl
        exact ⟨hmem, hmatch.imp_left Eq.symm⟩
  · simp only [selects_plain ht hmem, hmem, false_and, false_or, not_false_iff, true_and]
    by_cases heq : target = trimmed
    · subst heq
      simp only [true_or, iff_true]
      intro name
      constructor
      · rintro ⟨hname, rfl | hgroup⟩
        · exact absurd hname hmem
        · exact hgroup
      · intro hgroup
        exact ⟨hgroup.mem, .inr hgroup⟩
    · simp only [heq, false_or]
      constructor
      · intro h
        have hnone : ∀ name, ¬ InGroup configs name target := fun name hgroup =>
          heq (hgroup.eq ((h name).mp ⟨hgroup.mem, .inr hgroup⟩))
        refine ⟨hnone, fun name hgroup => ?_, fun htarget => (h target).mp ⟨htarget, .inl rfl⟩⟩
        exact ((h name).mpr hgroup).2.resolve_right (hnone name)
      · rintro ⟨hnone, honly, hown⟩ name
        constructor
        · rintro ⟨hname, hmatch⟩
          obtain rfl := hmatch.resolve_right (hnone name)
          exact hown hname
        · intro hgroup
          exact ⟨hgroup.mem, .inl (honly name hgroup)⟩

theorem wildcardAgrees_iff (hT : Text.splitOnce ':' target = some (g', "*"))
    (ht : Text.splitOnce ':' (Text.trim target) = some (g, "*")) :
    (∀ name, Picks configs target name ↔ configs.Selects (Text.trim target) name) ↔
      WildcardAgrees configs target (Text.trim target) g' g := by
  simp only [picks_wildcard hT]
  rw [WildcardAgrees]
  by_cases hmem : Text.trim target ∈ configs
  · simp only [ProgramConfigs.selects_iff_of_mem hmem, hmem, true_and, not_true, false_and,
      or_false]
    constructor
    · exact fun h => ⟨(h _).mpr rfl, fun name => (h name).mp⟩
    · rintro ⟨hgroup, honly⟩ name
      exact ⟨honly name, fun hname => hname ▸ hgroup⟩
  · simp only [hmem, false_and, false_or, not_false_iff, true_and]
    by_cases hsome : ∃ name, InGroup configs name g
    · have hcovered : ∃ name, InGroup configs name g ∧ ("*" = "*" ∨ name = "*") :=
        hsome.imp fun _ h => ⟨h, .inl rfl⟩
      simp only [selects_covered ht hmem hcovered, true_or, and_true]
      constructor
      · intro h
        obtain ⟨name, hname⟩ := hsome
        exact .inl ⟨⟨name, hname⟩, (eq_trim_iff hT ht).mpr ⟨((h name).mpr hname).eq hname, rfl⟩⟩
      · rintro (⟨-, heq⟩ | hnone) name
        · rw [((eq_trim_iff hT ht).mp heq).1]
        · obtain ⟨other, hother⟩ := hsome
          exact absurd hother (hnone other).1
    · have hnone : ∀ name, ¬ (InGroup configs name g ∧ ("*" = "*" ∨ name = "*")) :=
        fun name h => hsome ⟨name, h.1⟩
      simp only [selects_group ht hmem hnone, hsome, false_and, false_or]
      constructor
      · intro h name
        -- The group of the daemon has a colon in its name, that of the client has none.
        have hapart : ∀ {p}, InGroup configs p g' → ¬ InGroup configs p (Text.trim target) := by
          intro p hg' htrim
          apply (Text.eq_of_splitOnce hT).2
          rw [hg'.eq htrim]
          exact mem_of_splitOnce ht
        exact ⟨fun hg => hsome ⟨name, hg⟩, fun htrim => hapart ((h name).mpr htrim) htrim,
          fun hg' => hapart hg' ((h name).mp hg')⟩
      · intro h name
        exact iff_of_false (h name).2.2 (h name).2.1

/-- A program that the target shows is not in a group that is called as the trimmed target. -/
theorem ShownAs.not_inGroup (h : ShownAs configs target g' proc' name)
    (hT : Text.splitOnce ':' target = some (g', proc'))
    (ht : Text.splitOnce ':' (Text.trim target) = some (g, proc))
    (hmem : Text.trim target ∉ configs) : ¬ InGroup configs name (Text.trim target) := by
  intro hgroup
  obtain ⟨cfg, hcfg, hshown⟩ | ⟨hg', -⟩ := h
  · obtain ⟨cfg', hcfg', hname⟩ := hgroup
    obtain rfl := Option.some.inj (hcfg.symm.trans hcfg')
    rw [hname] at hshown
    obtain ⟨hempty | hsame, -⟩ | ⟨-, hlong⟩ := namespec_eq_iff.mp hshown
    · have hcolon := mem_of_splitOnce ht
      rw [hempty] at hcolon
      exact absurd hcolon List.not_mem_nil
    · exact hmem (hsame ▸ HashMap.mem_iff_lookup.mpr ⟨cfg, hcfg⟩)
    · exact trim_append_ne name hlong
  · apply (Text.eq_of_splitOnce hT).2
    rw [hg'.eq hgroup]
    exact mem_of_splitOnce ht

/-- The program that the trimmed target names is shown as the target only when there is nothing to
trim and the program has no group of another name. -/
theorem shownAs_trim_iff (hT : Text.splitOnce ':' target = some (g', proc')) :
    ShownAs configs target g' proc' (Text.trim target) ↔
      target = Text.trim target ∧ (InGroup configs (Text.trim target) "" ∨
        InGroup configs (Text.trim target) (Text.trim target)) := by
  constructor
  · rintro (⟨cfg, hcfg, hshown⟩ | ⟨-, hname⟩)
    · obtain ⟨hshort, heq⟩ | ⟨-, hlong⟩ := namespec_eq_iff.mp hshown
      · exact ⟨heq.symm, hshort.imp (⟨cfg, hcfg, ·⟩) (⟨cfg, hcfg, ·⟩)⟩
      · exact absurd hlong (append_trim_ne _)
    · -- The target would be longer by the group and the colon.
      apply absurd (append_trim_ne g')
      rw [not_not, hname]
      exact (Text.eq_of_splitOnce hT).1.symm
  · rintro ⟨heq, hshort⟩
    have hgroup : ∃ cfg, configs.lookup (Text.trim target) = some cfg ∧
        (cfg.group = "" ∨ cfg.group = Text.trim target) := by
      obtain ⟨cfg, hcfg, h⟩ | ⟨cfg, hcfg, h⟩ := hshort
      · exact ⟨cfg, hcfg, .inl h⟩
      · exact ⟨cfg, hcfg, .inr h⟩
    obtain ⟨cfg, hcfg, h⟩ := hgroup
    exact .inl ⟨cfg, hcfg, namespec_eq_iff.mpr (.inl ⟨h, heq.symm⟩)⟩

/-- A program of the group that is shown as the target is the program that the target names. -/
theorem ShownAs.eq_proc (h : ShownAs configs target g' proc' name)
    (hT : Text.splitOnce ':' target = some (g', proc')) (hmem : target ∉ configs)
    (hgroup : InGroup configs name g') : name = proc' := by
  obtain ⟨cfg, hcfg, hshown⟩ | ⟨-, hname⟩ := h
  · obtain ⟨cfg', hcfg', rfl⟩ := hgroup
    obtain rfl := Option.some.inj (hcfg.symm.trans hcfg')
    obtain ⟨-, rfl⟩ | ⟨-, hlong⟩ := namespec_eq_iff.mp hshown
    · exact absurd (HashMap.mem_iff_lookup.mpr ⟨cfg, hcfg⟩) hmem
    · rw [(Text.eq_of_splitOnce hT).1] at hlong
      have hchars := congrArg String.toList hlong
      simp only [String.toList_append] at hchars
      exact String.toList_injective (List.append_cancel_left hchars)
  · exact hname

/-- Where there is something to trim, a program that the trimmed target covers by its name is not
shown as the target. -/
theorem not_shownAs_of_ne (hT : Text.splitOnce ':' target = some (g', proc'))
    (ht : Text.splitOnce ':' (Text.trim target) = some (g, proc)) (hne : target ≠ Text.trim target)
    (hgroup : InGroup configs proc g) : ¬ ShownAs configs target g' proc' proc := by
  have htrim : Text.trim target = g ++ ":" ++ proc := (Text.eq_of_splitOnce ht).1
  rintro (⟨cfg, hcfg, hshown⟩ | ⟨hg', hname⟩)
  · obtain ⟨cfg', hcfg', rfl⟩ := hgroup
    obtain rfl := Option.some.inj (hcfg.symm.trans hcfg')
    obtain ⟨-, heq⟩ | ⟨-, hlong⟩ := namespec_eq_iff.mp hshown
    · have hcount := congrArg (fun s => s.toList.count ':') htrim
      simp only [count_colon, Text.count_trim (c := ':') rfl, ← heq] at hcount
      omega
    · exact hne (hlong.symm.trans htrim.symm)
  · exact hne ((eq_trim_iff hT ht).mpr ⟨hg'.eq hgroup, hname.symm⟩)

/-- A program of the group is shown as a target with white space when it is the program behind the
colon, or has no group and is called like the target. -/
theorem shownAs_iff_of_inGroup (hT : Text.splitOnce ':' target = some (g', proc'))
    (ht : Text.splitOnce ':' (Text.trim target) = some (g, proc))
    (hgroup : InGroup configs name g) :
    ShownAs configs target g' proc' name ↔ g' = g ∧ name = proc' ∨ g = "" ∧ name = target := by
  have hplain : ':' ∉ g.toList := (Text.eq_of_splitOnce ht).2
  constructor
  · rintro (⟨cfg, hcfg, hshown⟩ | ⟨hg', hname⟩)
    · obtain ⟨cfg', hcfg', rfl⟩ := hgroup
      obtain rfl := Option.some.inj (hcfg.symm.trans hcfg')
      obtain ⟨hempty | hsame, hname⟩ | ⟨-, hlong⟩ := namespec_eq_iff.mp hshown
      · exact .inr ⟨hempty, hname⟩
      · rw [hsame, hname] at hplain
        exact absurd (mem_of_splitOnce hT) hplain
      · rw [← hlong] at hT
        obtain ⟨hg, hname⟩ := Prod.mk.inj
          (Option.some.inj (hT.symm.trans (Text.splitOnce_append hplain name)))
        exact .inl ⟨hg, hname.symm⟩
    · exact .inl ⟨hg'.eq hgroup, hname⟩
  · rintro (⟨rfl, hname⟩ | ⟨hempty, hname⟩)
    · exact .inr ⟨hgroup, hname⟩
    · obtain ⟨cfg, hcfg, hcfgGroup⟩ := hgroup
      exact .inl ⟨cfg, hcfg, namespec_eq_iff.mpr (.inl ⟨.inl (hcfgGroup.trans hempty), hname⟩)⟩

theorem programAgrees_iff (hT : Text.splitOnce ':' target = some (g', proc')) (hstar : proc' ≠ "*")
    (ht : Text.splitOnce ':' (Text.trim target) = some (g, proc)) :
    (∀ name, Picks configs target name ↔ configs.Selects (Text.trim target) name) ↔
      ProgramAgrees configs target (Text.trim target) g' proc' g proc := by
  simp only [picks_program hT hstar]
  rw [ProgramAgrees]
  by_cases hmem : Text.trim target ∈ configs
  · simp only [ProgramConfigs.selects_iff_of_mem hmem, hmem, true_and, not_true, false_and,
      or_false]
    rw [← and_assoc, ← shownAs_trim_iff hT]
    constructor
    · intro h
      exact ⟨(h _).mpr rfl, fun name => (h name).mp⟩
    · rintro ⟨hshown, honly⟩ name
      exact ⟨honly name, fun hname => hname ▸ hshown⟩
  simp only [hmem, false_and, false_or, not_false_iff, true_and]
  by_cases hsome : ∃ name, InGroup configs name g ∧ (proc = "*" ∨ name = proc)
  · simp only [selects_covered ht hmem hsome, hsome, true_and]
    have hfar : ¬ ∀ name, ¬ (InGroup configs name g ∧ (proc = "*" ∨ name = proc)) ∧
        ¬ InGroup configs name (Text.trim target) ∧ ¬ ShownAs configs target g' proc' name := by
      intro h
      obtain ⟨name, hname⟩ := hsome
      exact (h name).1 hname
    rw [or_iff_left hfar]
    by_cases heq : target = Text.trim target
    · obtain ⟨rfl, rfl⟩ := (eq_trim_iff hT ht).mp heq
      rw [← heq] at hmem
      simp only [← heq, true_or, and_true, hstar, false_or]
      constructor
      · intro h name hshown
        exact ((h name).mp hshown).1
      · intro h name
        constructor
        · intro hshown
          exact ⟨h name hshown, hshown.eq_proc hT hmem (h name hshown)⟩
        · intro hcovered
          exact .inr hcovered
    · simp only [heq, false_or]
      by_cases hproc : proc = "*"
      · simp only [hproc, true_or, and_true, true_and]
        constructor
        · intro h
          exact ⟨fun name => (h name).mp, fun name hgroup =>
            (shownAs_iff_of_inGroup hT ht hgroup).mp ((h name).mpr hgroup)⟩
        · rintro ⟨honly, hall⟩ name
          exact ⟨honly name, fun hgroup =>
            (shownAs_iff_of_inGroup hT ht hgroup).mpr (hall name hgroup)⟩
      · simp only [hproc, false_or, false_and, and_false, iff_false]
        intro h
        obtain ⟨name, hgroup, hname⟩ := hsome
        obtain rfl := hname.resolve_left hproc
        exact not_shownAs_of_ne hT ht heq hgroup ((h name).mpr ⟨hgroup, rfl⟩)
  · have hnone : ∀ name, ¬ (InGroup configs name g ∧ (proc = "*" ∨ name = proc)) :=
      fun name h => hsome ⟨name, h⟩
    simp only [selects_group ht hmem hnone, hsome, false_and, false_or]
    constructor
    · intro h name
      exact ⟨hnone name, fun hgroup => ((h name).mpr hgroup).not_inGroup hT ht hmem hgroup,
        fun hshown => hshown.not_inGroup hT ht hmem ((h name).mp hshown)⟩
    · intro h name
      exact iff_of_false (h name).2.2 (h name).2.1

/-- The client picks what the daemon selects exactly for these targets. -/
theorem picks_iff_selects : (∀ name, Picks configs target name ↔
    configs.Selects (Text.trim target) name) ↔ Agrees configs target := by
  rw [Agrees]
  cases hT : Text.splitOnce ':' target with
  | none =>
      have ht : Text.splitOnce ':' (Text.trim target) = none := Text.splitOnce_of_notMem fun hmem =>
        notMem_of_splitOnce hT (Text.mem_of_mem_trim hmem)
      rw [ht]
      exact plainAgrees_iff hT ht
  | some parts =>
      obtain ⟨g', proc'⟩ := parts
      have ht := Text.splitOnce_trim rfl hT
      rw [ht]
      dsimp only
      split_ifs with hstar
      · subst hstar
        exact wildcardAgrees_iff hT ht
      · exact programAgrees_iff hT hstar ht

/-! ## The client and a running daemon -/

/-- A configuration with a pool of two workers. -/
def poolConfig : SupervisorConfig where
  programs := HashMap.extend ∅ [("worker", { command := "sleep 1", numprocs := some 2 })]

end Cli

end Rsupervisord
