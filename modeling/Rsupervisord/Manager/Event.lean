import Rsupervisord.Program.State

/-!
# System events

The life-cycle and status events that programs and the manager publish on the event hub.
-/

namespace Rsupervisord

/-- Events published on the system channel of the event hub. -/
inductive SystemEvent
  | stateChanged (name group : String) (oldState newState : ProgramState) (pid : Option ℕ)
      (exitCode : Option ℤ) (tries : ℕ) (description : String)
  | tick (interval when_ : ℕ)
  | remoteCommunication (typeStr data : String)
  | healthChanged (name : String) (healthy : Bool) (status : HealthStatus)
      (reason : Option String)
  | configReloaded (added removed modified unchanged : List String)
  | processGroupAdded (group : String)
  | processGroupRemoved (group : String)
  | daemonLifecycle (action : String) (timestampSecs : ℕ)
  | cronTriggered (name group action expression : String)
  | processPreStart (name group command : String)
  | processPreStartFailed (name group error : String)
  | processPreStop (name group command : String)
  | processPreStopFailed (name group error : String)
  deriving DecidableEq, Repr

end Rsupervisord
