import Rsupervisord.Config.Diff
import Rsupervisord.Program.Timeouts
import Rsupervisord.Support.Text

/-!
# Handle of the manager

`ManagerHandle`: the clients' side of the manager. It resolves the names of programs and groups on
its own, on the copies of the configurations that it shares with the actor, and computes from them
how long it waits for the reply of the actor.
-/

namespace Rsupervisord

/-- What the handle shares with the actor. -/
structure ManagerHandle where
  sharedConfigs : ProgramConfigs
  sharedPendingConfigs : ProgramConfigs

namespace ManagerHandle

variable (h : ManagerHandle) (o : HashOrder String)

/-- `find_targets_for_program`: the configurations that a name or pattern selects. -/
def findTargetsForProgram (name : String) : List ProgramConfig :=
  let trimmed := Text.trim name
  match h.sharedConfigs.lookup trimmed with
  | some cfg => [cfg]
  | none =>
      let entries := h.sharedConfigs.iter o
      let inGroup : List (String × ProgramConfig) :=
        match Text.splitOnce ':' trimmed with
        | some (groupPart, progPart) =>
            entries.filter fun e => e.2.group = groupPart ∧
              (progPart = "*" ∨ progPart = e.1 ∨
                Text.stripPrefix (groupPart ++ ":") e.1 = some progPart)
        | none => []
      if !inGroup.isEmpty then inGroup.map Prod.snd
      else
        ((h.sharedConfigs.values o).filter fun cfg => cfg.group = trimmed).insertionSort
          fun a b => a.name ≤ b.name

/-- `find_targets_for_group`. -/
def findTargetsForGroup (group : String) : List ProgramConfig :=
  let trimmed := Text.trim group
  let targets := h.findTargetsForProgram o (trimmed ++ ":*")
  if !targets.isEmpty then targets else h.findTargetsForProgram o trimmed

/-! ## Time limits -/

/-- The time for starting `count` programs, at least one. -/
def startDuration (targets : List ProgramConfig) : Duration :=
  let count := max targets.length 1
  let perProc := defaultHookTimeout.saturatingAdd awaitQuery
  -- The number of programs is cast to 32 bits.
  (perProc.saturatingMul (count % 2 ^ 32)).saturatingAdd awaitQuery

/-- The time for stopping or restarting one program. -/
def stopDuration (graceExtra : Duration) (gracePeriod : Option Duration) (cfg : ProgramConfig) :
    Duration :=
  let grace := gracePeriod.getD cfg.stopWaitSecs
  addOrMaxTimeout (addOrMaxTimeout (addOrMaxTimeout grace defaultHookTimeout) drainTimeout)
    graceExtra

/-- The time for stopping or restarting the programs one after the other. -/
def totalDuration (graceExtra : Duration) (gracePeriod : Option Duration)
    (targets : List ProgramConfig) : Duration :=
  (targets.map (stopDuration graceExtra gracePeriod)).foldl Duration.saturatingAdd 0

/-- `compute_start_program_timeout`. -/
def computeStartProgramTimeout (name : String) : Duration :=
  let targets := h.findTargetsForProgram o name
  min (max (startDuration targets) awaitAction) maxTimeout

/-- `compute_stop_program_timeout`. -/
def computeStopProgramTimeout (name : String) (gracePeriod : Option Duration) : Duration :=
  let targets := h.findTargetsForProgram o name
  if targets.isEmpty then
    min (max (addOrMaxTimeout (addOrMaxTimeout
      (addOrMaxTimeout (gracePeriod.getD defaultStopWait) defaultHookTimeout) drainTimeout)
      stopGraceExtra) awaitAction) maxTimeout
  else
    min (max ((totalDuration stopGraceExtra gracePeriod targets).saturatingAdd awaitQuery)
      awaitAction) maxTimeout

/-- `compute_restart_program_timeout`. -/
def computeRestartProgramTimeout (name : String) (gracePeriod : Option Duration) :
    Option Duration :=
  let targets := h.findTargetsForProgram o name
  let startDur := startDuration targets
  let stopDur :=
    if targets.isEmpty then
      (defaultHookTimeout.times 2).map fun hooks =>
        addOrMaxTimeout (addOrMaxTimeout
          (addOrMaxTimeout (gracePeriod.getD defaultStopWait) hooks) drainTimeout)
          restartGraceExtra
    else some (totalDuration restartGraceExtra gracePeriod targets)
  stopDur.map fun stopDur => min (max (stopDur.saturatingAdd startDur) awaitAction) maxTimeout

/-- `compute_start_group_timeout`. -/
def computeStartGroupTimeout (group : String) : Duration :=
  let targets := h.findTargetsForGroup o group
  min (max (startDuration targets) awaitGroup) maxTimeout

/-- `compute_stop_group_timeout`. -/
def computeStopGroupTimeout (group : String) (gracePeriod : Option Duration) : Duration :=
  let targets := h.findTargetsForGroup o group
  if targets.isEmpty then awaitGroup
  else
    min (max ((totalDuration stopGraceExtra gracePeriod targets).saturatingAdd awaitQuery)
      awaitGroup) maxTimeout

/-- `compute_restart_group_timeout`. -/
def computeRestartGroupTimeout (group : String) (gracePeriod : Option Duration) : Duration :=
  let targets := h.findTargetsForGroup o group
  let startDur := startDuration targets
  let stopDur :=
    if targets.isEmpty then awaitGroup
    else totalDuration restartGraceExtra gracePeriod targets
  min (max (stopDur.saturatingAdd startDur) awaitBulk) maxTimeout

/-- `compute_add_process_group_timeout`. -/
def computeAddProcessGroupTimeout (group : String) : Duration :=
  let members := (h.sharedPendingConfigs.values o).filter fun cfg => cfg.group = group
  min (max (startDuration members) awaitGroup) maxTimeout

end ManagerHandle

end Rsupervisord
