import Rsupervisord.Manager.Targets
import Rsupervisord.Program.LifecycleInvariants
import Rsupervisord.Support.SequentialCalls

/-!
# Operations on several programs

A start or a stop of a group or of a pattern resolves its targets and calls them one after the
other; the first call that fails ends the operation. `MultiTarget` collects the four operations and
`callEach_requests` says which calls they issue.

## Main results

* `ManagerActor.reachesAll_iff`: every target in need of its call gets it exactly when no call fails
  before such a target is reached.
* `ProgramActor.start_alreadyRunning`: the start of a program that is already running is such a
  call.
-/

namespace Rsupervisord

/-- The program is starting or running. -/
def ProgramState.isUp : ProgramState → Bool
  | .starting | .running => true
  | _ => false

/-- A database and a web server that needs it, in one group. -/
def groupedConfig : SupervisorConfig where
  programs := HashMap.extend ∅
    [("db", { command := "postgres", group := some "site" }),
      ("web", { command := "nginx", group := some "site", dependsOn := ["db"] })]

namespace ManagerActor

variable {m : ManagerActor} {env : ManagerEnv}

/-! ## Targets -/

/-- The request that a call to a program is. -/
def requestOf (m : ManagerActor) (call : String → ProgramCall) (name : String) : Option Request :=
  (m.programs.lookup name).map fun prog => ⟨prog.id, call name⟩

/-- A list of calls issues its requests in order, up to the first that fails. -/
theorem callEach_requests (call : String → ProgramCall) (l : List String) :
    (m.callEach env call l).2.requests =
      m.requests ++ attempts (fun calls => (env.result calls).isOk) m.requests
        (l.filterMap (m.requestOf call)) := by
  induction l generalizing m with
  | nil => exact (List.append_nil _).symm
  | cons target rest ih =>
    rw [callEach, List.filterMap_cons, requestOf]
    cases hprog : m.programs.lookup target with
    | none => exact ih
    | some prog =>
      have hrequests : (m.issue prog (call target)).requests =
          m.requests ++ [⟨prog.id, call target⟩] := rfl
      simp only [Option.map_some, attempts]
      cases hres : env.result (m.issue prog (call target)).requests with
      | ok =>
        have hok : (env.result (m.requests ++ [⟨prog.id, call target⟩])).isOk = true :=
          congrArg Except.isOk hres
        rw [if_pos hok]
        have hrest := ih (m := m.issue prog (call target))
        rw [hrequests, List.append_assoc] at hrest
        exact hrest
      | error e =>
        have hfail : (env.result (m.requests ++ [⟨prog.id, call target⟩])).isOk = false :=
          congrArg Except.isOk hres
        rw [hfail, if_neg Bool.false_ne_true]
        rfl

/-- The resolver names each target once. -/
theorem nodup_findMatch (env : ManagerEnv) (pattern : String) :
    (m.findMatch env pattern).Nodup := by
  have hkeys : ((m.configs.iter env.orders.configs).map Prod.fst).Nodup :=
    HashMap.nodup_map_fst_iter
  by_cases hname : Text.trim pattern ∈ m.programs
  · rw [findMatch, if_pos hname]
    exact List.nodup_singleton _
  · rw [findMatch_of_notMem env hname]
    have hin : ((ProgramConfigs.inGroup m.configs env.orders.configs
        (Text.trim pattern)).map Prod.fst).Nodup := by
      unfold ProgramConfigs.inGroup
      split
      · exact hkeys.sublist (List.filter_sublist.map _)
      · exact List.nodup_nil
    split
    · exact hin
    · rw [(List.perm_insertionSort _ _).nodup_iff]
      exact hkeys.sublist (List.filter_sublist.map _)

/-- The pattern that a group operation resolves: the members of the group, or else what the name
of the group matches. -/
def groupPattern (m : ManagerActor) (env : ManagerEnv) (group : String) : String :=
  if (m.findMatch env (group ++ ":*")).isEmpty then group else group ++ ":*"

/-- The targets of a group operation, by priority. -/
def groupOrder (m : ManagerActor) (env : ManagerEnv) (group : String) : List String :=
  (m.findMatch env (m.groupPattern env group)).insertionSort fun a b =>
    DependencyGraph.priorityOf m.configs a ≤ DependencyGraph.priorityOf m.configs b

/-- Without targets a group operation is an error, otherwise it has them in this order. -/
theorem groupTargets_eq (group : String) :
    m.groupTargets env group =
      if m.groupOrder env group = [] then .error (.notFound s!"group '{group}'")
      else .ok (m.groupOrder env group) := by
  have hempty (l : List String) (r : String → String → Prop) [DecidableRel r] :
      l.insertionSort r = [] ↔ l = [] := by
    rw [← List.length_eq_zero_iff, List.length_insertionSort, List.length_eq_zero_iff]
  simp only [groupTargets, groupOrder, groupPattern, hempty, ← List.isEmpty_iff]
  by_cases hfirst : (m.findMatch env (group ++ ":*")).isEmpty = true
  · simp only [hfirst, if_true]
  · simp only [hfirst]
    rfl

/-- Its targets are those of the pattern. -/
theorem mem_groupOrder (hkeys : ∀ name, name ∈ m.configs ↔ name ∈ m.programs)
    {group name : String} :
    name ∈ m.groupOrder env group ↔
      m.configs.Selects (Text.trim (m.groupPattern env group)) name := by
  rw [groupOrder, List.mem_insertionSort, mem_findMatch env hkeys]

theorem nodup_groupOrder (group : String) : (m.groupOrder env group).Nodup := by
  rw [groupOrder, (List.perm_insertionSort _ _).nodup_iff]
  exact nodup_findMatch env _

/-- The requests of distinct targets are distinct. -/
theorem nodup_requests (hinv : m.managed.Invariant) (call : String → ProgramCall) {l : List String}
    (hl : l.Nodup) : (l.filterMap (m.requestOf call)).Nodup := by
  refine hl.filterMap ?_
  intro a b r ha hb
  obtain ⟨x, hx, rfl⟩ := Option.map_eq_some_iff.mp (Option.mem_def.mp ha)
  obtain ⟨y, hy, hid⟩ := Option.map_eq_some_iff.mp (Option.mem_def.mp hb)
  exact hinv.id_inj hx hy (congrArg Request.target hid).symm

/-- The operations that call several programs one after the other. -/
inductive MultiTarget
  | startGroup (group : String)
  | startProgram (pattern : String)
  | stopGroup (group : String) (gracePeriod : Option Duration)
  | stopProgram (pattern : String) (gracePeriod : Option Duration)

namespace MultiTarget

variable (op : MultiTarget) (m : ManagerActor) (env : ManagerEnv)

/-- The operation, without its reply. -/
def execute : ManagerActor :=
  match op with
  | startGroup group => (m.executeStartGroup env group).2
  | startProgram pattern => (m.executeStartProgram env pattern).2
  | stopGroup group gracePeriod => (m.executeStopGroup env group gracePeriod).2
  | stopProgram pattern gracePeriod => (m.executeStopProgram env pattern gracePeriod).2

/-- The resolved members in the order in which they are called. -/
def members : List String :=
  match op with
  | startGroup group => m.groupOrder env group
  | startProgram pattern => m.findMatch env pattern
  | stopGroup group _ => (m.groupOrder env group).reverse
  | stopProgram pattern _ => (m.findMatch env pattern).reverse

/-- What a member is called with. -/
def call (name : String) : ProgramCall :=
  match op with
  | startGroup _ | startProgram _ => .start
  | stopGroup _ gracePeriod | stopProgram _ gracePeriod =>
      .stop (gracePeriod.getD (m.stopWaitOf name))

/-- The calls of an operation in which none fails. -/
def planned : List Request :=
  (op.members m env).filterMap (m.requestOf (op.call m))

/-- A program in this state needs the call: a start needs one that is not running already, a stop
one that has a child, which may be stopping. -/
def needs (state : ProgramState) : Bool :=
  match op with
  | startGroup _ | startProgram _ => !state.isUp
  | stopGroup _ _ | stopProgram _ _ => state.isActive

/-- An operation calls its members one after the other. -/
theorem execute_eq : op.execute m env = (m.callEach env (op.call m) (op.members m env)).2 := by
  match op with
  | startGroup group =>
    simp only [execute, executeStartGroup, groupTargets_eq, members]
    by_cases hnone : m.groupOrder env group = []
    · rw [if_pos hnone, hnone]
      rfl
    · rw [if_neg hnone]
      simp only
      split <;> (next heq => exact (congrArg Prod.snd heq).symm)
  | startProgram pattern =>
    simp only [execute, executeStartProgram, programTargets, members]
    by_cases hnone : m.findMatch env pattern = []
    · rw [hnone]
      rfl
    · rw [if_neg (by simpa using hnone)]
      rfl
  | stopGroup group gracePeriod =>
    simp only [execute, executeStopGroup, groupTargets_eq, members]
    by_cases hnone : m.groupOrder env group = []
    · rw [if_pos hnone, hnone]
      rfl
    · rw [if_neg hnone]
      simp only
      split <;> (next heq => exact (congrArg Prod.snd heq).symm)
  | stopProgram pattern gracePeriod =>
    simp only [execute, executeStopProgram, programTargets, members]
    by_cases hnone : m.findMatch env pattern = []
    · rw [hnone]
      rfl
    · rw [if_neg (by simpa using hnone)]
      rfl

/-- The calls of an operation are the planned ones, up to the first that fails. -/
theorem execute_requests :
    (op.execute m env).requests =
      m.requests ++ attempts (fun calls => (env.result calls).isOk) m.requests
        (op.planned m env) := by
  rw [execute_eq, callEach_requests, planned]

theorem nodup_members : (op.members m env).Nodup := by
  match op with
  | startGroup group => exact nodup_groupOrder group
  | startProgram pattern => exact nodup_findMatch env pattern
  | stopGroup group _ => exact List.nodup_reverse.mpr (nodup_groupOrder group)
  | stopProgram pattern _ => exact List.nodup_reverse.mpr (nodup_findMatch env pattern)

/-- Every resolved member that needs the call gets it. -/
def ReachesAll : Prop :=
  ∀ name ∈ op.members m env, ∀ prog, m.programs.lookup name = some prog →
    op.needs (env.state m.requests prog.id) = true →
      ⟨prog.id, op.call m name⟩ ∈ (op.execute m env).requests.drop m.requests.length

/-- No call to a member before one that needs the call fails. -/
def NoEarlierFailure : Prop :=
  ∀ earlier r, earlier ++ [r] <+: op.planned m env →
    op.needs (env.state m.requests r.target) = true →
      ∀ made, made <+: earlier → made ≠ [] → (env.result (m.requests ++ made)).isOk = true

end MultiTarget

/-- The exact condition: an operation reaches every resolved member that needs its call exactly when
no call to a member before it fails. -/
theorem reachesAll_iff (h : system.Reachable m) (op : MultiTarget) (env : ManagerEnv) :
    op.ReachesAll m env ↔ op.NoEarlierFailure m env := by
  have hinv := invariant_of_reachable h
  have hnodup : (op.planned m env).Nodup :=
    nodup_requests hinv (op.call m) (op.nodup_members m env)
  have hissued : (op.execute m env).requests.drop m.requests.length =
      attempts (fun calls => (env.result calls).isOk) m.requests (op.planned m env) := by
    rw [op.execute_requests, List.drop_left]
  have hall :
      (∀ r ∈ op.planned m env, op.needs (env.state m.requests r.target) = true →
        r ∈ attempts (fun calls => (env.result calls).isOk) m.requests (op.planned m env)) ↔
        op.NoEarlierFailure m env := forall_mem_attempts_iff hnodup
  rw [← hall, MultiTarget.ReachesAll, hissued]
  constructor
  · intro hreaches r hr hneeds
    obtain ⟨name, hname, hrequest⟩ := List.mem_filterMap.mp hr
    obtain ⟨prog, hprog, rfl⟩ := Option.map_eq_some_iff.mp hrequest
    exact hreaches name hname prog hprog hneeds
  · intro hreaches name hname prog hprog hneeds
    refine hreaches _ (List.mem_filterMap.mpr ⟨name, hname, ?_⟩) hneeds
    rw [requestOf, hprog]
    rfl

/-- When every call succeeds, every member is reached. -/
theorem reachesAll_of_stopped_group :
    ∃ m, system.Reachable m ∧ m.groupOrder .plain "site" = ["db", "web"] ∧
      MultiTarget.ReachesAll (.startGroup "site") m .plain := by
  obtain ⟨m, hbuild, hmembers⟩ := exists_build
    (fun m => m.groupOrder .plain "site" = ["db", "web"]) groupedConfig .plain (by decide +kernel)
  have hreach : system.Reachable m := .init ⟨groupedConfig, .plain, hbuild⟩
  exact ⟨m, hreach, hmembers, (reachesAll_iff hreach (.startGroup "site") .plain).mpr
    fun _ _ _ _ _ _ _ => rfl⟩

/-- The database is running, and its start is refused. -/
def dbRunning : ManagerEnv :=
  { ManagerEnv.plain with
    state := fun _ id => if id = 0 then .running else .stopped
    result := fun calls =>
      if calls.getLast? = some ⟨0, .start⟩ then .error (.alreadyRunning "db" 7) else .ok () }

/-- Without the condition members are left out: the group is not started any further when its first
member is already running. -/
theorem exists_not_reachesAll :
    ∃ m, system.Reachable m ∧ ¬ MultiTarget.ReachesAll (.startGroup "site") m dbRunning := by
  obtain ⟨m, hbuild, hweb, hmember, hissued⟩ := exists_build
    (fun m => (m.programs.lookup "web").map (·.id) = some 1 ∧
      "web" ∈ m.groupOrder dbRunning "site" ∧
      (m.executeStartGroup dbRunning "site").2.requests.drop m.requests.length = [⟨0, .start⟩])
    groupedConfig .plain (by decide +kernel)
  refine ⟨m, .init ⟨groupedConfig, .plain, hbuild⟩, ?_⟩
  intro hreaches
  obtain ⟨prog, hprog, hid⟩ := Option.map_eq_some_iff.mp hweb
  have hmem := hreaches "web" hmember prog hprog (by rw [hid]; rfl)
  rw [show MultiTarget.execute (.startGroup "site") m dbRunning =
    (m.executeStartGroup dbRunning "site").2 from rfl, hissued, hid] at hmem
  simp at hmem

end ManagerActor

/-! ## Programs that are running -/

/-- A child that has not exited is not given up. -/
theorem ProgramActor.reapExited_of_live {a : ProgramActor} {c : RunningChild} {env : SpawnEnv}
    (hchild : a.currentChild = some c) (hlive : env.childExited = false) :
    a.reapExited env = .error (.alreadyRunning a.config.name c.pid) := by
  rw [reapExited, hchild]
  unfold SpawnEnv.childExited at hlive
  rcases hwait : env.tryWait with _ | _ | status
  · rfl
  · rfl
  · rw [hwait] at hlive
    cases hlive

/-- The start of a program whose child has not exited is refused. -/
theorem ProgramActor.start_alreadyRunning {a : ProgramActor} {c : RunningChild} {env : CommandEnv}
    (hchild : a.currentChild = some c) (hlive : env.spawn.childExited = false)
    (hdown : a.isShuttingDown = false) :
    (a.handleCommand .start env).1 = .error (.alreadyRunning a.config.name c.pid) := by
  have hreap := @reapExited_of_live
    { a with manualStop := false, retryCount := 0, backoffDeadline := none } c env.spawn hchild
    hlive
  have hspawn : ∀ {b : ProgramActor} {e}, b.reapExited env.spawn = .error e →
      b.isShuttingDown = false → (b.spawnChild env.spawn).1 = .error e := by
    intro b e he hb
    rw [spawnChild, hb, if_neg Bool.false_ne_true, he]
  have hgo : ¬ a.isShuttingDown = true := by rw [hdown]; exact Bool.false_ne_true
  rw [handleCommand, if_neg hgo]
  exact hspawn hreap hdown

end Rsupervisord
