import Mathlib.Data.List.Basic
import Rsupervisord.EventListener.Pool
import Rsupervisord.Manager.Event

/-!
# Events for listeners

The names and payloads of the events that listeners receive, and which of them a pool makes of an
event on the system channel.
-/

namespace Rsupervisord

/-- `ProgramState::supervisor_name`. -/
def ProgramState.supervisorName : ProgramState → String
  | stopped => "STOPPED"
  | starting => "STARTING"
  | running => "RUNNING"
  | backoff => "BACKOFF"
  | stopping => "STOPPING"
  | exited => "EXITED"
  | fatal => "FATAL"

/-- `format_process_state_event`: the name and the payload of the event for a state change. -/
def formatProcessStateEvent (processName groupName : String) (oldState newState : ProgramState)
    (pid : Option ℕ) (expected : Bool) (tries : ℕ) : String × String :=
  let fromState := oldState.supervisorName
  let effectivePid := pid.getD 0
  let names := s!"processname:{processName} groupname:{groupName} from_state:{fromState}"
  match newState with
  | .starting => ("PROCESS_STATE_STARTING", s!"{names} tries:{tries}")
  | .backoff => ("PROCESS_STATE_BACKOFF", s!"{names} tries:{tries}")
  | .running => ("PROCESS_STATE_RUNNING", s!"{names} pid:{effectivePid}")
  | .stopping => ("PROCESS_STATE_STOPPING", s!"{names} pid:{effectivePid}")
  | .stopped => ("PROCESS_STATE_STOPPED", s!"{names} pid:{effectivePid}")
  | .exited =>
      ("PROCESS_STATE_EXITED",
        s!"{names} expected:{if expected then 1 else 0} pid:{effectivePid}")
  | .fatal => ("PROCESS_STATE_FATAL", names)

/-- `format_tick_event`. -/
def formatTickEvent (interval when_ : ℕ) : String × String :=
  (s!"TICK_{interval}", s!"when:{when_}")

/-- `format_remote_comm_event`. -/
def formatRemoteCommEvent (typeStr data : String) : String × String :=
  ("REMOTE_COMMUNICATION", s!"type:{typeStr}\n{data}")

/-- The group and the program of a name `group:program`; a name without a colon is both. -/
def splitProgramName (name : String) : String × String :=
  (Text.splitOnce ':' name).getD (name, name)

/-- The names and payloads that `handle_system_event` passes to `accept_event`, in order. -/
def SystemEvent.announcements : SystemEvent → List (String × String)
  | .stateChanged name group oldState newState pid exitCode tries _ =>
      let actualGroup := if group = "" then (splitProgramName name).1 else group
      -- An exit without a code counts as expected, and the configured codes are not known here.
      let expected := (exitCode.map (decide <| · = 0)).getD true
      [formatProcessStateEvent (splitProgramName name).2 actualGroup oldState newState pid expected
        tries]
  | .tick interval when_ => [formatTickEvent interval when_]
  | .remoteCommunication typeStr data => [formatRemoteCommEvent typeStr data]
  | .daemonLifecycle action _ =>
      if action = "running" then [("SUPERVISOR_STATE_CHANGE_RUNNING", "")]
      else if action = "shutting_down" then [("SUPERVISOR_STATE_CHANGE_STOPPING", "")]
      else []
  | .configReloaded added removed _ _ =>
      added.map (fun g => ("PROCESS_GROUP_ADDED", s!"groupname:{g}\n")) ++
        removed.map fun g => ("PROCESS_GROUP_REMOVED", s!"groupname:{g}\n")
  | .processGroupAdded group => [("PROCESS_GROUP_ADDED", s!"groupname:{group}\n")]
  | .processGroupRemoved group => [("PROCESS_GROUP_REMOVED", s!"groupname:{group}\n")]
  | _ => []

namespace EventListenerPoolInner

/-- `handle_system_event`, without an interruption. Returns the next global serial. -/
def handleSystemEvent (p : EventListenerPoolInner) (globalSerial : ℕ) (event : SystemEvent) :
    EventListenerPoolInner × ℕ :=
  event.announcements.foldl
    (fun (p, serial) (eventName, payload) =>
      let ((_, p), serial) := p.acceptEvent serial eventName payload
      (p, serial))
    (p, globalSerial)

/-- An event that is accepted carries the name and the payload it was announced with. -/
theorem mem_buffer_acceptEvent {p : EventListenerPoolInner} {serial : ℕ}
    {eventName payload : String}
    {e : EventEnvelope} (he : e ∈ (p.acceptEvent serial eventName payload).1.2.buffer) :
    e ∈ p.buffer ∨ (e.eventName, e.payload) = (eventName, payload) := by
  unfold acceptEvent insertAccepted number at he
  split at he
  · simp only at he
    split at he
    · rcases List.mem_append.mp he with he | he
      · exact .inl (List.mem_of_mem_tail he)
      · rw [List.mem_singleton.mp he]
        exact .inr rfl
    · rcases List.mem_append.mp he with he | he
      · exact .inl he
      · rw [List.mem_singleton.mp he]
        exact .inr rfl
  · exact .inl he

/-- What a pool buffers for an event on the system channel was announced for it. -/
theorem mem_buffer_handleSystemEvent {p : EventListenerPoolInner} {serial : ℕ} {event : SystemEvent}
    {e : EventEnvelope} (he : e ∈ (p.handleSystemEvent serial event).1.buffer) :
    e ∈ p.buffer ∨ (e.eventName, e.payload) ∈ event.announcements := by
  unfold handleSystemEvent at he
  generalize event.announcements = announced at he
  induction announced generalizing p serial with
  | nil => exact .inl he
  | cons announcement announced ih =>
    rw [List.foldl_cons] at he
    rcases ih he with he | he
    · refine (mem_buffer_acceptEvent he).imp_right fun heq => ?_
      rw [heq]
      exact List.mem_cons_self
    · exact .inr (List.mem_cons_of_mem _ he)

end EventListenerPoolInner

/-! ## The expected flag -/

/-- The payload of an exit event calls the exit expected: `expected:1` is the word before the last
one. -/
def SaysExpected (payload : String) : Prop :=
  (payload.toList.splitOn ' ').reverse[1]? = some "expected:1".toList

instance (payload : String) : Decidable (SaysExpected payload) :=
  inferInstanceAs (Decidable (_ = _))

/-- The flag stands where `SaysExpected` looks for it, whatever the names in the payload are. -/
theorem saysExpected_formatProcessStateEvent (processName groupName : String)
    (oldState : ProgramState) (pid : Option ℕ) (expected : Bool) (tries : ℕ) :
    SaysExpected (formatProcessStateEvent processName groupName oldState .exited pid expected
      tries).2 ↔ expected = true := by
  -- The last two words contain no space, so nothing before them matters.
  have hwords : ∀ (names flag : String) (n : ℕ), ' ' ∉ flag.toList →
      ((s!"{names} expected:{flag} pid:{n}").toList.splitOn ' ').reverse[1]? =
        some ("expected:".toList ++ flag.toList) := by
    intro names flag n hflag
    have hpid : ' ' ∉ "pid:".toList ++ (toString n).toList := by
      intro hmem
      rcases List.mem_append.mp hmem with hmem | hmem
      · exact absurd hmem (by decide)
      · exact absurd (Text.isWhitespace_of_mem_toString hmem) (by decide)
    have hexpected : ' ' ∉ "expected:".toList ++ flag.toList := by
      rw [List.mem_append, not_or]
      exact ⟨by decide, hflag⟩
    have hpayload : (s!"{names} expected:{flag} pid:{n}").toList =
        names.toList ++ ' ' :: (("expected:".toList ++ flag.toList) ++
          ' ' :: ("pid:".toList ++ (toString n).toList)) := by
      have hstr : ∀ s : String, toString s = s := fun _ => rfl
      generalize toString n = digits
      simp only [String.toList_append, hstr]
      simp
    rw [hpayload, List.splitOn_append_cons_self, List.splitOn_append_cons_self,
      List.splitOn_eq_singleton hexpected, List.splitOn_eq_singleton hpid]
    simp
  unfold SaysExpected
  cases expected with
  | true =>
    have h := hwords s!"processname:{processName} groupname:{groupName} from_state:{
      oldState.supervisorName}" "1" (pid.getD 0) (by decide)
    exact iff_of_true h rfl
  | false =>
    have h := hwords s!"processname:{processName} groupname:{groupName} from_state:{
      oldState.supervisorName}" "0" (pid.getD 0) (by decide)
    refine iff_of_false (fun hstated => ?_) Bool.false_ne_true
    have hflags : some ("expected:".toList ++ "0".toList) = some "expected:1".toList :=
      h.symm.trans hstated
    revert hflags
    decide

/-- Only a change to `exited` is announced as an exit. -/
theorem exited_of_announced {e : SystemEvent} {payload : String}
    (h : ("PROCESS_STATE_EXITED", payload) ∈ e.announcements) :
    ∃ name group oldState pid exitCode tries description,
      e = .stateChanged name group oldState .exited pid exitCode tries description := by
  cases e with
  | stateChanged name group oldState newState pid exitCode tries description =>
    cases newState with
    | exited => exact ⟨name, group, oldState, pid, exitCode, tries, description, rfl⟩
    | _ => simp [SystemEvent.announcements, formatProcessStateEvent] at h
  | daemonLifecycle action timestampSecs =>
    simp only [SystemEvent.announcements] at h
    split at h
    · simp at h
    · split at h <;> simp at h
  | tick interval when_ =>
    have hname : "PROCESS_STATE_EXITED" = s!"TICK_{interval}" :=
      congrArg Prod.fst (List.mem_singleton.mp h)
    have htick : toString "TICK_" = "TICK_" := rfl
    have hhead := congrArg (fun s : String => s.toList.head?) hname
    simp [String.toList_append, htick] at hhead
  | _ => simp [SystemEvent.announcements, formatRemoteCommEvent] at h

end Rsupervisord
