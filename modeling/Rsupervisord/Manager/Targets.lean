import Rsupervisord.Manager.Handle
import Rsupervisord.Manager.SupervisorInvariants

/-!
# Names and patterns of programs

The handle and the actor of the manager resolve names and patterns separately, the one on the shared
copy of the configurations, the other on its own maps. `Selects` is the naming grammar that both
implement.

## Main results

* `ManagerHandle.mem_findTargetsForProgram` and `ManagerActor.mem_findMatch`: both resolvers select
  what the grammar says.
* `ManagerActor.resolvers_agree`: they select the same programs in every reachable state.
-/

namespace Rsupervisord

namespace ProgramConfigs

/-- The pattern `group:name` or `group:*` covers a program. -/
def Covers (pattern name : String) (cfg : ProgramConfig) : Prop :=
  ∃ groupPart progPart, Text.splitOnce ':' pattern = some (groupPart, progPart) ∧
    cfg.group = groupPart ∧
      (progPart = "*" ∨ progPart = name ∨
        Text.stripPrefix (groupPart ++ ":") name = some progPart)

/-- A name or pattern without white space around it selects a program. -/
inductive Selects (configs : ProgramConfigs) (trimmed : String) : String → Prop
  /-- The program of that name goes first. -/
  | exact : trimmed ∈ configs → Selects configs trimmed trimmed
  /-- Then come the programs that the pattern covers. -/
  | covered {name : String} {cfg : ProgramConfig} : trimmed ∉ configs →
      configs.lookup name = some cfg → Covers trimmed name cfg → Selects configs trimmed name
  /-- A pattern that covers no program stands for the members of the group of that name. -/
  | member {name : String} {cfg : ProgramConfig} : trimmed ∉ configs →
      (∀ other cfg, configs.lookup other = some cfg → ¬ Covers trimmed other cfg) →
      configs.lookup name = some cfg → cfg.group = trimmed → Selects configs trimmed name

variable {configs : ProgramConfigs} {o : HashOrder String} {trimmed name : String}
  {cfg : ProgramConfig}

/-- What a pattern selects is a program. -/
theorem Selects.mem (h : configs.Selects trimmed name) : name ∈ configs := by
  match h with
  | .exact hmem => exact hmem
  | .covered _ hlookup _ => exact HashMap.mem_iff_lookup.mpr ⟨_, hlookup⟩
  | .member _ _ hlookup _ => exact HashMap.mem_iff_lookup.mpr ⟨_, hlookup⟩

/-- The entries that the resolvers keep for a pattern with a colon. -/
def inGroup (configs : ProgramConfigs) (o : HashOrder String) (trimmed : String) :
    List (String × ProgramConfig) :=
  match Text.splitOnce ':' trimmed with
  | some (groupPart, progPart) =>
      (configs.iter o).filter fun e => e.2.group = groupPart ∧
        (progPart = "*" ∨ progPart = e.1 ∨
          Text.stripPrefix (groupPart ++ ":") e.1 = some progPart)
  | none => []

/-- They are the entries that the pattern covers. -/
theorem mem_inGroup : (name, cfg) ∈ inGroup configs o trimmed ↔
    configs.lookup name = some cfg ∧ Covers trimmed name cfg := by
  unfold inGroup Covers
  cases Text.splitOnce ':' trimmed with
  | none => simp
  | some parts =>
      simp only [List.mem_filter, HashMap.mem_iter, decide_eq_true_eq, Option.some.injEq,
        Prod.ext_iff]
      constructor
      · rintro ⟨hlookup, hcovers⟩
        exact ⟨hlookup, parts.1, parts.2, ⟨rfl, rfl⟩, hcovers⟩
      · rintro ⟨hlookup, _, _, ⟨rfl, rfl⟩, hcovers⟩
        exact ⟨hlookup, hcovers⟩

/-- No entry is kept when the pattern covers no program. -/
theorem inGroup_isEmpty_iff : (inGroup configs o trimmed).isEmpty = true ↔
    ∀ other cfg, configs.lookup other = some cfg → ¬ Covers trimmed other cfg := by
  rw [List.isEmpty_iff, List.eq_nil_iff_forall_not_mem, Prod.forall]
  simp only [mem_inGroup, not_and]

/-- The rest of a resolver, behind the exact match: it selects what the grammar says when its two
lists hold the covered programs and the members of the group. -/
theorem mem_ite_inGroup {covered members : List String} (hname : trimmed ∉ configs)
    (hcovered : name ∈ covered ↔ ∃ cfg, (name, cfg) ∈ inGroup configs o trimmed)
    (hmembers : name ∈ members ↔ ∃ cfg, configs.lookup name = some cfg ∧ cfg.group = trimmed) :
    name ∈ (if !(inGroup configs o trimmed).isEmpty then covered else members) ↔
      configs.Selects trimmed name := by
  cases hempty : (inGroup configs o trimmed).isEmpty with
  | false =>
      rw [if_pos (by decide), hcovered]
      simp only [mem_inGroup]
      constructor
      · rintro ⟨cfg, hlookup, hcovers⟩
        exact .covered hname hlookup hcovers
      · rintro (hmem | ⟨_, hlookup, hcovers⟩ | ⟨_, hnone, _, _⟩)
        · exact absurd hmem hname
        · exact ⟨_, hlookup, hcovers⟩
        · rw [inGroup_isEmpty_iff.mpr hnone] at hempty
          cases hempty
  | true =>
      have hnone := inGroup_isEmpty_iff.mp hempty
      rw [if_neg (by decide), hmembers]
      constructor
      · rintro ⟨cfg, hlookup, hgroup⟩
        exact .member hname hnone hlookup hgroup
      · rintro (hmem | ⟨_, hlookup, hcovers⟩ | ⟨_, _, hlookup, hgroup⟩)
        · exact absurd hmem hname
        · exact absurd hcovers (hnone _ _ hlookup)
        · exact ⟨_, hlookup, hgroup⟩

/-- A name that is taken selects its program only. -/
theorem selects_iff_of_mem (hname : trimmed ∈ configs) :
    configs.Selects trimmed name ↔ name = trimmed := by
  constructor
  · rintro (_ | ⟨hnot, _, _⟩ | ⟨hnot, _, _, _⟩)
    · rfl
    · exact absurd hname hnot
    · exact absurd hname hnot
  · rintro rfl
    exact .exact hname

end ProgramConfigs

/-! ## The resolver of the handle -/

namespace ManagerHandle

variable {h : ManagerHandle} {o : HashOrder String} {pattern name : String}

/-- Behind the exact match the resolver keeps what the pattern covers, or the members of the
group. -/
theorem findTargetsForProgram_of_none (hnone : h.sharedConfigs.lookup (Text.trim pattern) = none) :
    h.findTargetsForProgram o pattern =
      if !(ProgramConfigs.inGroup h.sharedConfigs o (Text.trim pattern)).isEmpty then
        (ProgramConfigs.inGroup h.sharedConfigs o (Text.trim pattern)).map Prod.snd
      else
        ((h.sharedConfigs.values o).filter fun cfg => cfg.group = Text.trim pattern).insertionSort
          fun a b => a.name ≤ b.name := by
  unfold findTargetsForProgram ProgramConfigs.inGroup
  dsimp only
  cases Text.splitOnce ':' (Text.trim pattern) with
  | none => rw [hnone]
  | some parts => rw [hnone]

/-- `find_targets_for_program` selects what the grammar says. -/
theorem mem_findTargetsForProgram (hwf : h.sharedConfigs.WellFormed) :
    name ∈ (h.findTargetsForProgram o pattern).map (·.name) ↔
      h.sharedConfigs.Selects (Text.trim pattern) name := by
  cases hlookup : h.sharedConfigs.lookup (Text.trim pattern) with
  | some cfg =>
      have htargets : h.findTargetsForProgram o pattern = [cfg] := by
        unfold findTargetsForProgram
        dsimp only
        rw [hlookup]
      rw [ProgramConfigs.selects_iff_of_mem (HashMap.mem_iff_lookup.mpr ⟨cfg, hlookup⟩), htargets,
        List.map_singleton, List.mem_singleton, hwf.name_eq hlookup]
  | none =>
      rw [findTargetsForProgram_of_none hlookup, apply_ite (List.map _)]
      apply ProgramConfigs.mem_ite_inGroup (AList.lookup_eq_none.mp hlookup)
      · rw [List.map_map, List.mem_map]
        constructor
        · rintro ⟨⟨other, cfg⟩, he, rfl⟩
          have hkey := hwf.name_eq (ProgramConfigs.mem_inGroup.mp he).1
          exact ⟨cfg, by simpa only [Function.comp_apply, hkey] using he⟩
        · rintro ⟨cfg, he⟩
          exact ⟨(name, cfg), he, hwf.name_eq (ProgramConfigs.mem_inGroup.mp he).1⟩
      · simp only [List.mem_map, List.mem_insertionSort, List.mem_filter, HashMap.mem_values,
          decide_eq_true_eq]
        constructor
        · rintro ⟨cfg, ⟨⟨other, hcfg⟩, hgroup⟩, rfl⟩
          exact ⟨cfg, by rwa [hwf.name_eq hcfg], hgroup⟩
        · rintro ⟨cfg, hcfg, hgroup⟩
          exact ⟨cfg, ⟨⟨name, hcfg⟩, hgroup⟩, hwf.name_eq hcfg⟩

end ManagerHandle

/-! ## The resolver of the actor -/

namespace ManagerActor

variable {m : ManagerActor} {pattern name : String}

/-- The handle that the clients of a manager hold. -/
def handle (m : ManagerActor) : ManagerHandle where
  sharedConfigs := m.sharedConfigs
  sharedPendingConfigs := m.sharedPendingConfigs

/-- Behind the exact match the resolver keeps what the pattern covers, or the members of the
group. -/
theorem findMatch_of_notMem (env : ManagerEnv) (hnot : Text.trim pattern ∉ m.programs) :
    m.findMatch env pattern =
      if !(ProgramConfigs.inGroup m.configs env.orders.configs (Text.trim pattern)).isEmpty then
        (ProgramConfigs.inGroup m.configs env.orders.configs (Text.trim pattern)).map Prod.fst
      else
        (((m.configs.iter env.orders.configs).filter fun e => e.2.group = Text.trim pattern).map
          Prod.fst).insertionSort (· ≤ ·) := by
  unfold findMatch ProgramConfigs.inGroup
  dsimp only
  cases Text.splitOnce ':' (Text.trim pattern) with
  | none => rw [if_neg hnot]
  | some parts => rw [if_neg hnot]

/-- `find_match` selects what the grammar says. -/
theorem mem_findMatch (env : ManagerEnv) (hkeys : ∀ name, name ∈ m.configs ↔ name ∈ m.programs) :
    name ∈ m.findMatch env pattern ↔ m.configs.Selects (Text.trim pattern) name := by
  by_cases hname : Text.trim pattern ∈ m.configs
  · have hmatch : m.findMatch env pattern = [Text.trim pattern] := by
      unfold findMatch
      rw [if_pos ((hkeys _).mp hname)]
    rw [hmatch, ProgramConfigs.selects_iff_of_mem hname, List.mem_singleton]
  · rw [findMatch_of_notMem env (mt (hkeys _).mpr hname)]
    apply ProgramConfigs.mem_ite_inGroup hname
    · simp only [List.mem_map, Prod.exists, exists_and_right, exists_eq_right]
    · simp only [List.mem_insertionSort, List.mem_map, List.mem_filter, Prod.exists,
        HashMap.mem_iter, decide_eq_true_eq, exists_and_right, exists_eq_right]

/-- In every reachable state the maps of the manager have the same keys, each configuration is
stored under its name, and the handle and the actor resolve every name and pattern to the same
programs. -/
theorem resolvers_agree (h : system.Reachable m) :
    (∀ name, name ∈ m.configs ↔ name ∈ m.programs) ∧
      (∀ name, name ∈ m.sharedConfigs ↔ name ∈ m.programs) ∧
      (∀ name cfg, m.configs.lookup name = some cfg ∨ m.sharedConfigs.lookup name = some cfg →
        cfg.name = name) ∧
      ∀ (o : HashOrder String) (env : ManagerEnv) (pattern name : String),
        name ∈ (m.handle.findTargetsForProgram o pattern).map (·.name) ↔
          name ∈ m.findMatch env pattern := by
  have hinv := invariant_of_reachable h
  have hshared : m.sharedConfigs = m.configs := hinv.shared_eq
  have hkeys : ∀ name, name ∈ m.configs ↔ name ∈ m.programs := fun _ =>
    Managed.mem_configs_iff hinv.config_eq
  refine ⟨hkeys, hshared ▸ hkeys, ?_, ?_⟩
  · rintro name cfg (hlookup | hlookup)
    · exact hinv.configs_wellFormed.name_eq hlookup
    · rw [hshared] at hlookup
      exact hinv.configs_wellFormed.name_eq hlookup
  · intro o env pattern name
    have hwf : m.handle.sharedConfigs.WellFormed := by
      change m.sharedConfigs.WellFormed
      rw [hshared]
      exact hinv.configs_wellFormed
    rw [ManagerHandle.mem_findTargetsForProgram hwf, mem_findMatch env hkeys]
    change m.sharedConfigs.Selects _ _ ↔ _
    rw [hshared]

/-- A pattern with white space around it, after the web server was replaced. -/
theorem resolvers_agree_after_reload :
    ∃ m, system.Reachable m ∧ "web" ∈ m.findMatch .plain " web:* " ∧
      "web" ∈ (m.handle.findTargetsForProgram .stored " web:* ").map (·.name) := by
  obtain ⟨m, hreach, hmem⟩ := exists_reachableWhile (G := fun _ _ => True)
    (fun m => "web" ∈ m.findMatch .plain " web:* ")
    (siteConfig "nginx" "db") .plain [.command (.reloadConfig (siteConfig "caddy" "db")) .plain]
    (by decide +kernel)
  exact ⟨m, hreach, hmem, ((resolvers_agree hreach).2.2.2 _ _ _ _).mpr hmem⟩

end ManagerActor

end Rsupervisord
