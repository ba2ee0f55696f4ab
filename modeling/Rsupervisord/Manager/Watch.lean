import Rsupervisord.Manager.WatchPattern
import Rsupervisord.Program.Config
import Rsupervisord.Support.HashMap
import Rsupervisord.Support.Transducer
import Rsupervisord.Support.UnixPath

/-!
# The watch service

`WatchService` follows changes of executables and of monitored directories. A change that a rule
matches makes a trigger of the rule's program pending; when no further change has come for the
debounce time, the action of the trigger is executed.

Two paths are equal when their components are, so a path that is compared is a list of components.
What the service reads of its surroundings comes with each of its steps: the clock, the file system,
the answers of the manager and the order in which hash maps are iterated.

* `WatchService.buildRules`, `WatchService.matchesRule`: the rules of a configuration and what they
  match.
* `WatchService.syncWatcher`: the directories that are watched.
* `WatchService.machine`: the loop of the service, a branch of it a step.
-/

namespace Rsupervisord

/-- `SHORT_RETRY_DELAY`. -/
def shortRetryDelay : Duration := 500 * 1000000

/-- A path as it is compared with others. -/
abbrev WatchPath := List UnixPath.Component

/-- `WatchRule`. -/
inductive WatchRule
  | binary (programName : String) (targetPath parentDir : WatchPath) (directory : Option String)
      (debounceDuration : Duration) (signal : Option StopSignal) (cmd : Option String)
  | directory (programName : String) (dirPath : WatchPath) (pattern : Option String)
      (directory : Option String) (debounceDuration : Duration) (signal : Option StopSignal)
      (cmd : Option String)
  deriving DecidableEq, Repr

namespace WatchRule

/-- `WatchRule::program_name`. -/
def programName : WatchRule → String
  | binary name .. | directory name .. => name

/-- `WatchRule::debounce_duration`. -/
def debounceDuration : WatchRule → Duration
  | binary _ _ _ _ debounce _ _ | directory _ _ _ _ debounce _ _ => debounce

/-- `WatchRule::signal`. -/
def signal : WatchRule → Option StopSignal
  | binary _ _ _ _ _ sig _ | directory _ _ _ _ _ sig _ => sig

/-- `WatchRule::cmd`. -/
def cmd : WatchRule → Option String
  | binary _ _ _ _ _ _ cmd | directory _ _ _ _ _ _ cmd => cmd

/-- `WatchRule::directory`. -/
def workingDirectory : WatchRule → Option String
  | binary _ _ _ dir _ _ _ | directory _ _ _ dir _ _ _ => dir

/-- Whether the rule is about an executable. -/
def isBinary : WatchRule → Bool
  | binary .. => true
  | directory .. => false

end WatchRule

/-- What the environment of the process tells when rules are built and directories are
registered. -/
structure WatchEnv where
  cwd : String
  /-- The directories in `PATH`. -/
  searchPath : List String
  isFile : String → Bool
  isDir : WatchPath → Bool

/-- `resolve_executable` of the Unix platform. -/
def resolveExecutable (env : WatchEnv) (command : String) (workingDir : Option String) :
    Option String :=
  let resolve (candidate : String) : Option String :=
    if env.isFile candidate then some (UnixPath.absNorm env.cwd candidate) else none
  if UnixPath.isAbsolute command then resolve command
  else if '/' ∈ command.toList then resolve (UnixPath.join (workingDir.getD ".") command)
  else (workingDir.toList ++ env.searchPath).findSome? fun dir =>
  resolve (UnixPath.join dir command)

/-- Kinds of file system events. -/
inductive FsEventKind
  | any
  | access
  | create
  | modify
  | remove
  | other
  deriving DecidableEq, Repr

/-- A file system event. -/
structure FsEvent where
  kind : FsEventKind
  paths : List WatchPath
  deriving DecidableEq, Repr

/-- `RecursiveMode`. -/
inductive RecursiveMode
  | recursive
  | nonRecursive
  deriving DecidableEq, Repr

/-- The watches that are registered with the watcher, and the directories the service takes for
watched. -/
structure WatchRegistry where
  watcher : HashMap WatchPath RecursiveMode := ∅
  currentDirs : HashSet WatchPath := ∅

/-- `PendingTrigger`. -/
structure PendingTrigger where
  programName : String
  targetPath : WatchPath
  isBinary : Bool
  directory : Option String
  signal : Option StopSignal
  cmd : Option String
  deadline : Instant
  debounceDuration : Duration
  consecutiveChecks : ℕ
  deriving DecidableEq, Repr

/-- What the service asks for when a trigger is executed. -/
inductive WatchCall
  | command (program cmd : String) (directory : Option String)
  | signalProgram (program : String) (sig : StopSignal)
  | restartProgram (program : String)
  deriving DecidableEq, Repr

/-- The program a call is about. -/
def WatchCall.program : WatchCall → String
  | command program .. | signalProgram program _ | restartProgram program => program

/-- What is found out about the file of a trigger that is due, and when. -/
structure FileCheck where
  present : Bool
  /-- It can be opened and is not empty. -/
  readable : Bool
  instant : Instant
  deriving DecidableEq, Repr

/-- What the surroundings answer while due triggers are handled. -/
structure ExpiryEnv where
  order : HashOrder String
  check : String → FileCheck
  /-- The manager can signal the program. -/
  signalled : String → Bool

/-- A new configuration, with what the surroundings tell while it is taken over. -/
structure WatchReload where
  env : WatchEnv
  configs : HashMap String ProgramConfig
  configOrder : HashOrder String
  currentOrder : HashOrder WatchPath
  targetOrder : HashOrder (WatchPath × RecursiveMode)

/-- The branches of the loop. -/
inductive WatchInput
  /-- The earliest deadline has come. -/
  | expired (now : Instant) (env : ExpiryEnv)
  | event (now : Instant) (event : FsEvent)
  | reload (new : WatchReload)

/-- The locals of `WatchService::run`. -/
structure WatchState where
  rules : List WatchRule
  registry : WatchRegistry
  pendingTriggers : HashMap String PendingTrigger := ∅

namespace WatchService

/-! ## Rules -/

/-- The rule for the executable of a program. -/
def binaryRule (env : WatchEnv) (name : String) (cfg : ProgramConfig) : Option WatchRule :=
  if cfg.restartWhenBinaryChanged then do
    let resolved ← resolveExecutable env cfg.command cfg.directory
    let targetPath := UnixPath.components resolved
    let parentDir ← UnixPath.parent targetPath
    some (.binary name targetPath parentDir cfg.directory cfg.restartDebounceSecs
      cfg.restartSignalWhenBinaryChanged cfg.restartCmdWhenBinaryChanged)
  else none

/-- The rule for the monitored directory of a program. -/
def directoryRule (env : WatchEnv) (name : String) (cfg : ProgramConfig) : Option WatchRule := do
  let dir ← cfg.restartDirectoryMonitor
  let absDir :=
    if UnixPath.isAbsolute dir then dir
    else
      match cfg.directory with
      | some wd => UnixPath.join wd dir
      | none => UnixPath.join env.cwd dir
  some (.directory name (UnixPath.components (UnixPath.absNorm env.cwd absDir))
    cfg.restartFilePattern
    cfg.directory cfg.restartDebounceSecs cfg.restartSignalWhenFileChanged
    cfg.restartCmdWhenFileChanged)

/-- `WatchService::build_rules`. -/
def buildRules (env : WatchEnv) (configs : HashMap String ProgramConfig)
    (order : HashOrder String) :
    List WatchRule :=
  (configs.iter order).flatMap fun (name, cfg) =>
    (binaryRule env name cfg).toList ++ (directoryRule env name cfg).toList

/-- `WatchService::is_relevant_event`. -/
def isRelevantEvent (event : FsEvent) : Bool :=
  match event.kind with
  | .create | .modify | .remove | .any => true
  | .access | .other => false

/-- `WatchService::matches_rule`. -/
def matchesRule (rule : WatchRule) (eventPath : WatchPath) : Bool :=
  match rule with
  | .binary _ targetPath .. =>
      eventPath = targetPath ||
        ((UnixPath.fileName eventPath).isSome &&
          UnixPath.fileName eventPath = UnixPath.fileName targetPath)
  | .directory _ dirPath pattern .. =>
      dirPath.isPrefixOf eventPath &&
        match UnixPath.fileName eventPath with
        | some name => matchesPattern pattern name
        | none => false

/-! ## Registered directories -/

/-- The directories the rules need, as far as they exist. -/
def targetDirs (isDir : WatchPath → Bool) (rules : List WatchRule) :
    HashSet (WatchPath × RecursiveMode) :=
  rules.foldl
    (fun dirs rule =>
      match rule with
      | .binary _ _ parentDir .. =>
          if isDir parentDir then dirs.insert (parentDir, .nonRecursive) () else dirs
      | .directory _ dirPath .. =>
          if isDir dirPath then dirs.insert (dirPath, .recursive) () else dirs)
    ∅

/-- Unwatch a directory that is needed no more. -/
def removeWatch (r : WatchRegistry) (dir : WatchPath) : WatchRegistry where
  watcher := r.watcher.erase dir
  currentDirs := r.currentDirs.erase dir

/-- Watch a directory that is not watched yet. Each request succeeds. -/
def addWatch (r : WatchRegistry) (target : WatchPath × RecursiveMode) : WatchRegistry :=
  if target.1 ∈ r.currentDirs then r
  else
    { watcher := r.watcher.insert target.1 target.2
      currentDirs := r.currentDirs.insert target.1 () }

/-- `WatchService::sync_watcher`. -/
def syncWatcher (new : WatchReload) (r : WatchRegistry) (rules : List WatchRule) : WatchRegistry :=
  let targets := targetDirs new.env.isDir rules
  let toRemove := (new.currentOrder.arrange r.currentDirs.keys).filter fun dir =>
    targets.keys.all fun target => target.1 ≠ dir
  (new.targetOrder.arrange targets.keys).foldl addWatch (toRemove.foldl removeWatch r)

/-! ## Triggers -/

/-- The trigger of a rule's program after a change: a pending one is put off, else there is a new
one. -/
def touch (now : Instant) (path : WatchPath) (rule : WatchRule) : Option PendingTrigger →
    PendingTrigger
  | some existing =>
      { existing with deadline := now + existing.debounceDuration, targetPath := path }
  | none =>
      { programName := rule.programName
        targetPath := path
        isBinary := rule.isBinary
        directory := rule.workingDirectory
        signal := rule.signal
        cmd := rule.cmd
        deadline := now + rule.debounceDuration
        debounceDuration := rule.debounceDuration
        consecutiveChecks := 0 }

/-- One rule, for one path of an event. -/
def applyRule (now : Instant) (path : WatchPath) (pending : HashMap String PendingTrigger)
    (rule : WatchRule) : HashMap String PendingTrigger :=
  if matchesRule rule path then
    pending.insert rule.programName (touch now path rule (pending.lookup rule.programName))
  else pending

/-- The branch for a file system event. -/
def handleEvent (rules : List WatchRule) (now : Instant) (event : FsEvent)
    (pending : HashMap String PendingTrigger) : HashMap String PendingTrigger :=
  if isRelevantEvent event then
    event.paths.foldl (fun pending path => rules.foldl (applyRule now path) pending) pending
  else pending

/-- What is called for, as given by a command, a signal and a working directory. -/
def calls (signalled : String → Bool) (program : String) (directory : Option String)
    (signal : Option StopSignal) (cmd : Option String) : List WatchCall :=
  match cmd, signal with
  | some cmd, _ => [.command program cmd directory]
  | none, some sig =>
      -- A program that cannot be signalled is restarted.
      if signalled program then [.signalProgram program sig]
      else [.signalProgram program sig, .restartProgram program]
  | none, none => [.restartProgram program]

/-- `WatchService::execute_trigger`. -/
def executeTrigger (signalled : String → Bool) (trigger : PendingTrigger) : List WatchCall :=
  calls signalled trigger.programName trigger.directory trigger.signal trigger.cmd

/-- The trigger waits for a file that is there and cannot be read yet, for at most five times. -/
def waitsForFile (check : FileCheck) (trigger : PendingTrigger) : Bool :=
  trigger.isBinary && check.present && !check.readable && trigger.consecutiveChecks < 5

/-- A due trigger that waits for its file. -/
def putOff (check : FileCheck) (trigger : PendingTrigger) : PendingTrigger :=
  { trigger with
    consecutiveChecks := trigger.consecutiveChecks + 1
    deadline := check.instant + shortRetryDelay }

/-- One due key. -/
def handleDue (env : ExpiryEnv) (acc : HashMap String PendingTrigger × List WatchCall)
    (key : String) :
    HashMap String PendingTrigger × List WatchCall :=
  match acc.1.lookup key with
  | none => acc
  | some trigger =>
      let pending := acc.1.erase key
      if waitsForFile (env.check key) trigger then
        (pending.insert key (putOff (env.check key) trigger), acc.2)
      else (pending, acc.2 ++ executeTrigger env.signalled trigger)

/-- The keys of the triggers that are due. -/
def dueKeys (now : Instant) (order : HashOrder String) (pending : HashMap String PendingTrigger) :
    List String :=
  ((pending.iter order).filter fun (_, trigger) => trigger.deadline ≤ now).map Prod.fst

/-- The branch for a deadline that has come. -/
def handleExpiry (now : Instant) (env : ExpiryEnv) (pending : HashMap String PendingTrigger) :
    HashMap String PendingTrigger × List WatchCall :=
  (dueKeys now env.order pending).foldl (handleDue env) (pending, [])

/-! ## The loop -/

/-- Take over a configuration. -/
def reload (new : WatchReload) (s : WatchState) : WatchState :=
  let rules := buildRules new.env new.configs new.configOrder
  { s with rules := rules, registry := syncWatcher new s.registry rules }

/-- Before the loop. -/
def start (new : WatchReload) : WatchState := reload new ⟨[], {}, ∅⟩

/-- A round of the loop. -/
def step (s : WatchState) : WatchInput → WatchState × List WatchCall
  | .expired now env =>
      let (pending, calls) := handleExpiry now env s.pendingTriggers
      ({ s with pendingTriggers := pending }, calls)
  | .event now event =>
      ({ s with pendingTriggers := handleEvent s.rules now event s.pendingTriggers }, [])
  | .reload new => (reload new s, [])

/-- `WatchService::run`. -/
def machine : Transducer WatchState WatchInput WatchCall where
  next := step

/-! ## What a step does to the trigger of one program -/

/-- One rule, for one path, as the trigger of a program sees it. -/
def noteRule (p : String) (now : Instant) (path : WatchPath) (trigger : Option PendingTrigger)
    (rule : WatchRule) : Option PendingTrigger :=
  if rule.programName = p ∧ matchesRule rule path = true then some (touch now path rule trigger)
  else trigger

/-- An event, as the trigger of a program sees it. -/
def noteEvent (p : String) (rules : List WatchRule) (now : Instant) (event : FsEvent)
    (trigger : Option PendingTrigger) : Option PendingTrigger :=
  if isRelevantEvent event then
    event.paths.foldl (fun trigger path => rules.foldl (noteRule p now path) trigger) trigger
  else trigger

/-- The trigger of a program is due. -/
def Due (now : Instant) (trigger : PendingTrigger) : Prop := trigger.deadline ≤ now

instance (now : Instant) (trigger : PendingTrigger) : Decidable (Due now trigger) :=
  inferInstanceAs (Decidable (_ ≤ _))

variable {p key : String} {now : Instant} {path : WatchPath} {env : ExpiryEnv}
  {rules : List WatchRule}
  {pending : HashMap String PendingTrigger} {event : FsEvent} {trigger : PendingTrigger}

theorem lookup_applyRule {rule : WatchRule} :
    (applyRule now path pending rule).lookup p = noteRule p now path (pending.lookup p) rule := by
  unfold applyRule noteRule
  by_cases hmatch : matchesRule rule path = true
  · rw [if_pos hmatch, HashMap.lookup_insert]
    by_cases hp : p = rule.programName
    · subst hp
      rw [if_pos rfl, if_pos ⟨rfl, hmatch⟩]
    · rw [if_neg hp, if_neg fun h => hp h.1.symm]
  · rw [if_neg hmatch, if_neg fun h => hmatch h.2]

theorem lookup_foldl_applyRule :
    (rules.foldl (applyRule now path) pending).lookup p =
      rules.foldl (noteRule p now path) (pending.lookup p) := by
  induction rules generalizing pending with
  | nil => rfl
  | cons rule rules ih => rw [List.foldl_cons, List.foldl_cons, ih, lookup_applyRule]

/-- The trigger of a program after an event. -/
theorem lookup_handleEvent :
    (handleEvent rules now event pending).lookup p =
      noteEvent p rules now event (pending.lookup p) := by
  unfold handleEvent noteEvent
  by_cases hrelevant : isRelevantEvent event = true
  · rw [if_pos hrelevant, if_pos hrelevant]
    induction event.paths generalizing pending with
    | nil => rfl
    | cons path paths ih => rw [List.foldl_cons, List.foldl_cons, ih, lookup_foldl_applyRule]
  · rw [if_neg hrelevant, if_neg hrelevant]

/-- Each trigger is stored under the name of its program. -/
def Keyed (pending : HashMap String PendingTrigger) : Prop :=
  ∀ p trigger, pending.lookup p = some trigger → trigger.programName = p

/-- A key that is handled: its trigger waits on, or it is executed. -/
theorem handleDue_of_lookup {acc : HashMap String PendingTrigger × List WatchCall}
    (h : acc.1.lookup key = some trigger) :
    handleDue env acc key =
      if waitsForFile (env.check key) trigger then
        ((acc.1.erase key).insert key (putOff (env.check key) trigger), acc.2)
      else (acc.1.erase key, acc.2 ++ executeTrigger env.signalled trigger) := by
  rw [handleDue, h]

/-- Handling other keys leaves the trigger of a program. -/
theorem lookup_handleDue_of_ne {acc : HashMap String PendingTrigger × List WatchCall}
    (h : p ≠ key) :
    (handleDue env acc key).1.lookup p = acc.1.lookup p := by
  cases hkey : acc.1.lookup key with
  | none => rw [handleDue, hkey]
  | some trigger =>
    rw [handleDue_of_lookup hkey]
    split
    · rw [HashMap.lookup_insert, if_neg h, HashMap.lookup_erase, if_neg h]
    · rw [HashMap.lookup_erase, if_neg h]

theorem lookup_foldl_handleDue_of_notMem {keys : List String}
    {acc : HashMap String PendingTrigger × List WatchCall} (h : p ∉ keys) :
    (keys.foldl (handleDue env) acc).1.lookup p = acc.1.lookup p := by
  induction keys generalizing acc with
  | nil => rfl
  | cons key keys ih =>
    rw [List.mem_cons, not_or] at h
    rw [List.foldl_cons, ih h.2, lookup_handleDue_of_ne h.1]

/-- The calls for a trigger are about its program. -/
theorem program_of_mem_executeTrigger {signalled : String → Bool} {call : WatchCall}
    (h : call ∈ executeTrigger signalled trigger) : call.program = trigger.programName := by
  unfold executeTrigger calls at h
  split at h
  · rw [List.mem_singleton.mp h]
    rfl
  · split at h
    · rw [List.mem_singleton.mp h]
      rfl
    · obtain rfl | h := List.mem_cons.mp h
      · rfl
      · rw [List.mem_singleton.mp h]
        rfl
  · rw [List.mem_singleton.mp h]
    rfl

/-- The calls about a program. -/
def callsFor (p : String) (calls : List WatchCall) : List WatchCall := calls.filter (·.program = p)

/-- A deadline that has come, as the trigger of a program sees it. -/
def settle (p : String) (now : Instant) (env : ExpiryEnv) :
    Option PendingTrigger → Option PendingTrigger × List WatchCall
  | none => (none, [])
  | some trigger =>
      if Due now trigger then
        if waitsForFile (env.check p) trigger then (some (putOff (env.check p) trigger), [])
        else (none, executeTrigger env.signalled trigger)
      else (some trigger, [])

theorem keyed_insert (hkeyed : Keyed pending) (htrigger : trigger.programName = key) :
    Keyed (pending.insert key trigger) := by
  intro p trigger' h
  rw [HashMap.lookup_insert] at h
  split at h
  next hp =>
    obtain rfl := Option.some.inj h
    rw [htrigger, hp]
  next => exact hkeyed p trigger' h

theorem keyed_erase (hkeyed : Keyed pending) : Keyed (pending.erase key) := by
  intro p trigger' h
  rw [HashMap.lookup_erase] at h
  split at h
  next => cases h
  next => exact hkeyed p trigger' h

theorem keyed_handleDue {acc : HashMap String PendingTrigger × List WatchCall}
    (hkeyed : Keyed acc.1) :
    Keyed (handleDue env acc key).1 := by
  cases hkey : acc.1.lookup key with
  | none =>
    rw [handleDue, hkey]
    exact hkeyed
  | some trigger =>
    rw [handleDue_of_lookup hkey]
    split
    · exact keyed_insert (keyed_erase hkeyed) (hkeyed key trigger hkey)
    · exact keyed_erase hkeyed

theorem keyed_foldl_handleDue {keys : List String}
    {acc : HashMap String PendingTrigger × List WatchCall} (hkeyed : Keyed acc.1) :
    Keyed (keys.foldl (handleDue env) acc).1 := by
  induction keys generalizing acc with
  | nil => exact hkeyed
  | cons key keys ih => exact ih (keyed_handleDue hkeyed)

/-- Handling a key calls for nothing about other programs. -/
theorem callsFor_handleDue_of_ne {acc : HashMap String PendingTrigger × List WatchCall}
    (hkeyed : Keyed acc.1) (h : p ≠ key) :
    callsFor p (handleDue env acc key).2 = callsFor p acc.2 := by
  cases hkey : acc.1.lookup key with
  | none => rw [handleDue, hkey]
  | some trigger =>
    rw [handleDue_of_lookup hkey]
    split
    · rfl
    · have hnone : callsFor p (executeTrigger env.signalled trigger) = [] := by
        refine List.filter_eq_nil_iff.mpr fun call hcall => ?_
        rw [program_of_mem_executeTrigger hcall, hkeyed key trigger hkey, decide_eq_true_eq]
        exact Ne.symm h
      show callsFor p (acc.2 ++ executeTrigger env.signalled trigger) = callsFor p acc.2
      rw [callsFor, List.filter_append]
      exact (congrArg (_ ++ ·) hnone).trans (List.append_nil _)

theorem callsFor_foldl_handleDue_of_notMem {keys : List String}
    {acc : HashMap String PendingTrigger × List WatchCall} (hkeyed : Keyed acc.1) (h : p ∉ keys) :
    callsFor p (keys.foldl (handleDue env) acc).2 = callsFor p acc.2 := by
  induction keys generalizing acc with
  | nil => rfl
  | cons key keys ih =>
    rw [List.mem_cons, not_or] at h
    rw [List.foldl_cons, ih (keyed_handleDue hkeyed) h.2, callsFor_handleDue_of_ne hkeyed h.1]

theorem mem_dueKeys {order : HashOrder String} :
    p ∈ dueKeys now order pending ↔ ∃ trigger, pending.lookup p = some trigger ∧
    Due now trigger := by
  simp only [dueKeys, List.mem_map, List.mem_filter, Prod.exists, exists_and_right, exists_eq_right,
    HashMap.mem_iter, decide_eq_true_eq, Due]

theorem nodup_dueKeys {order : HashOrder String} : (dueKeys now order pending).Nodup :=
  HashMap.nodup_map_fst_iter.sublist (List.filter_sublist.map Prod.fst)

/-- The trigger of a program after a deadline has come, and the calls about the program. -/
theorem handleExpiry_spec (hkeyed : Keyed pending) :
    ((handleExpiry now env pending).1.lookup p, callsFor p (handleExpiry now env pending).2) =
      settle p now env (pending.lookup p) := by
  unfold handleExpiry
  by_cases hdue : p ∈ dueKeys now env.order pending
  · obtain ⟨trigger, hlookup, htime⟩ := mem_dueKeys.mp hdue
    -- The key is handled once, with the trigger it had at the start.
    obtain ⟨before, behind, hkeys⟩ := List.append_of_mem hdue
    have hnodup : (dueKeys now env.order pending).Nodup := nodup_dueKeys
    rw [hkeys, List.nodup_append] at hnodup
    obtain ⟨-, hbehind, hdisjoint⟩ := hnodup
    have hnotBehind : p ∉ behind := (List.nodup_cons.mp hbehind).1
    have hnotBefore : p ∉ before := fun hp => hdisjoint p hp p List.mem_cons_self rfl
    have hbefore : (before.foldl (handleDue env) (pending, [])).1.lookup p = some trigger := by
      rw [lookup_foldl_handleDue_of_notMem hnotBefore]
      exact hlookup
    have hnone : callsFor p (before.foldl (handleDue env) (pending, [])).2 = [] :=
      callsFor_foldl_handleDue_of_notMem hkeyed hnotBefore
    have hkeyedBefore : Keyed (before.foldl (handleDue env) (pending, [])).1 :=
      keyed_foldl_handleDue hkeyed
    rw [hkeys, List.foldl_append, List.foldl_cons, lookup_foldl_handleDue_of_notMem hnotBehind,
      callsFor_foldl_handleDue_of_notMem (keyed_handleDue hkeyedBefore) hnotBehind,
      handleDue_of_lookup hbefore, hlookup, settle, if_pos htime]
    split
    · rw [HashMap.lookup_insert, if_pos rfl, hnone]
    · have hall : callsFor p (executeTrigger env.signalled trigger) =
          executeTrigger env.signalled trigger := by
        refine List.filter_eq_self.mpr fun call hcall => decide_eq_true ?_
        rw [program_of_mem_executeTrigger hcall, hkeyed p trigger hlookup]
      rw [HashMap.lookup_erase, if_pos rfl, callsFor, List.filter_append]
      exact congrArg (none, ·) ((congrArg₂ (· ++ ·) hnone hall).trans (List.nil_append _))
  · rw [lookup_foldl_handleDue_of_notMem hdue, callsFor_foldl_handleDue_of_notMem hkeyed hdue]
    cases hlookup : pending.lookup p with
    | none => rfl
    | some trigger =>
      rw [settle, if_neg fun htime => hdue (mem_dueKeys.mpr ⟨trigger, hlookup, htime⟩)]
      rfl

theorem keyed_applyRule {rule : WatchRule} (hkeyed : Keyed pending) :
    Keyed (applyRule now path pending rule) := by
  unfold applyRule
  split
  · refine keyed_insert hkeyed ?_
    cases hlookup : pending.lookup rule.programName with
    | none => rfl
    | some trigger => exact hkeyed _ trigger hlookup
  · exact hkeyed

theorem keyed_handleEvent (hkeyed : Keyed pending) :
    Keyed (handleEvent rules now event pending) := by
  unfold handleEvent
  split
  · induction event.paths generalizing pending with
    | nil => exact hkeyed
    | cons path paths ih =>
      refine ih ?_
      clear ih
      induction rules generalizing pending with
      | nil => exact hkeyed
      | cons rule rules ih => exact ih (keyed_applyRule hkeyed)
  · exact hkeyed

/-- Each step keeps the triggers under the names of their programs. -/
theorem keyed_next {s : WatchState} (i : WatchInput) (hkeyed : Keyed s.pendingTriggers) :
    Keyed (machine.next s i).1.pendingTriggers := by
  cases i with
  | expired now env => exact keyed_foldl_handleDue hkeyed
  | event now event => exact keyed_handleEvent hkeyed
  | reload new => exact hkeyed

theorem keyed_after {s : WatchState} {is : List WatchInput} (hkeyed : Keyed s.pendingTriggers) :
    Keyed (machine.after s is).pendingTriggers := by
  induction is generalizing s with
  | nil => exact hkeyed
  | cons i is ih => exact ih (keyed_next i hkeyed)

/-- What a step does to the trigger of a program, and the calls about the program. -/
theorem next_spec {s : WatchState} (i : WatchInput) (hkeyed : Keyed s.pendingTriggers) :
    ((machine.next s i).1.pendingTriggers.lookup p, callsFor p (machine.next s i).2) =
      match i with
      | .expired now env => settle p now env (s.pendingTriggers.lookup p)
      | .event now event => (noteEvent p s.rules now event (s.pendingTriggers.lookup p), [])
      | .reload _ => (s.pendingTriggers.lookup p, []) := by
  cases i with
  | expired now env => exact handleExpiry_spec hkeyed
  | event now event => exact congrArg (·, []) lookup_handleEvent
  | reload new => rfl

end WatchService

end Rsupervisord
