import Rsupervisord.Manager.SupervisorInvariants

/-!
# Waiting for a started program

A synchronous start requests the start of the programs that a name stands for, subscribes to the
events, reads the status for the name and then waits for the event of a settled state. Meanwhile the
manager executes commands, and the instances write their states and publish them. The events name
the program, while the request may name a group or a pattern.

## Main definitions

* `SyncStart`: the handler of the request, between the manager and the instances.
* `SyncStart.Stuck`: the handler waits for nothing, although the status is that of a settled state.

## Main results

* `SyncStart.not_stuck`: this cannot happen while the status queries are answered, for a name that
  stands for the program of that name only.
-/

namespace Rsupervisord

/-- The handler stops waiting in these states. -/
def ProgramState.isSettled : ProgramState → Bool
  | running | fatal | exited => true
  | _ => false

/-- The receiver of a broadcast channel. -/
structure BroadcastReceiver where
  /-- The events that were not received yet. -/
  unread : List SystemEvent
  /-- Older events were dropped, which was not reported yet. -/
  lagged : Bool
  deriving DecidableEq, Repr

/-- Send an event to a receiver. The oldest event makes room for it in a full channel. -/
def BroadcastReceiver.send (capacity : ℕ) (rx : BroadcastReceiver) (event : SystemEvent) :
    BroadcastReceiver :=
  if rx.unread.length < capacity then { rx with unread := rx.unread ++ [event] }
  else { unread := rx.unread.tail ++ [event], lagged := true }

/-- Where the handler is. -/
inductive StartPhase
  | requested
  | started
  | subscribed
  | waiting
  | finished
  deriving DecidableEq, Repr

/-- A synchronous start of what a name stands for, with the manager and the instances. -/
structure SyncStart where
  manager : ManagerActor
  /-- The state in the status of an instance, by its name and identity. -/
  status : String → ℕ → ProgramState
  /-- The state changes that are written to a status and not published yet. -/
  unpublished : List ((String × ℕ) × SystemEvent)
  phase : StartPhase
  /-- The subscription of the handler. -/
  rx : Option BroadcastReceiver

namespace SyncStart

/-- The status of the program that a name or pattern stands for, in the manager: the state of the
program of that name, or of the first program that matches. -/
def getStatus (s : SyncStart) (env : ManagerEnv) (name : String) : Option ProgramState :=
  if s.manager.finished then none
  else
    let target :=
      if name ∈ s.manager.programs then some name else (s.manager.findMatch env name).head?
    target.bind fun n => (s.manager.programs.lookup n).map fun p => s.status n p.id

/-- The status is that of a settled state. -/
def IsSettled (s : SyncStart) (env : ManagerEnv) (name : String) : Prop :=
  (s.getStatus env name).any ProgramState.isSettled = true

instance (s : SyncStart) (env : ManagerEnv) (name : String) : Decidable (s.IsSettled env name) :=
  inferInstanceAs (Decidable (_ = true))

/-- The event that the handler waits for. -/
def settles (name : String) : SystemEvent → Bool
  | .stateChanged evName _ _ newState _ _ _ _ => evName = name && newState.isSettled
  | _ => false

/-- Events reach the subscription. -/
def deliver (s : SyncStart) (capacity : ℕ) (events : List SystemEvent) : SyncStart :=
  { s with rx := s.rx.map fun rx => events.foldl (BroadcastReceiver.send capacity) rx }

/-- What happens between the handler and the manager. -/
inductive Label
  /-- The manager replies to the start command. -/
  | start (env : ManagerEnv)
  | subscribe
  /-- The status is read at once. The query is not answered when it times out. -/
  | checkStatus (env : ManagerEnv) (answered : Bool)
  /-- The handler receives an event, or that it lagged behind, and reads the status then. -/
  | receive (env : ManagerEnv) (answered : Bool)
  /-- The handler does not wait any longer. -/
  | timeout
  /-- The manager takes a step. -/
  | manager (l : ManagerActor.Label)
  /-- `update_status` of an instance writes the status. -/
  | updateStatus (name : String) (id : ℕ) (group : String) (state : ProgramState) (pid : Option ℕ)
      (exitCode : Option ℤ) (tries : ℕ) (description : String)
  /-- `update_status` of an instance publishes the change that it wrote. -/
  | publish (name : String) (id : ℕ)
  /-- Another event is published. -/
  | publishOther (event : SystemEvent)

/-- The manager takes a step and publishes its events. A new instance is stopped. -/
def managerStep (s : SyncStart) (capacity : ℕ) (manager : ManagerActor) : SyncStart :=
  let status (name : String) (id : ℕ) : ProgramState :=
    if (s.manager.programs.lookup name).any fun p => p.id = id then s.status name id else .stopped
  { s with manager := manager, status := status }.deliver capacity
    (manager.events.drop s.manager.events.length)

/-- The states of the handler, for a name and a capacity of the event channel. -/
def next (name : String) (capacity : ℕ) (s : SyncStart) : Label → Option SyncStart
  | .start env =>
      if s.phase = .requested ∧ ¬ s.manager.finished then
        let (result, manager) := s.manager.handleCommand (.startProgram name) env
        some { s.managerStep capacity manager with
          phase := if result.isOk then .started else .finished }
      else none
  | .subscribe =>
      if s.phase = .started then
        some { s with phase := .subscribed, rx := some ⟨[], false⟩ }
      else none
  | .checkStatus env answered =>
      if s.phase = .subscribed then
        some { s with phase := if answered ∧ s.IsSettled env name then .finished else .waiting }
      else none
  | .receive env answered =>
      match s.phase, s.rx with
      | .waiting, some ⟨unread, true⟩ =>
          some { s with
            rx := some ⟨unread, false⟩
            phase := if answered ∧ s.IsSettled env name then .finished else .waiting }
      | .waiting, some ⟨event :: unread, false⟩ =>
          some { s with
            rx := some ⟨unread, false⟩
            phase := if settles name event then .finished else .waiting }
      | _, _ => none
  | .timeout => if s.phase = .waiting then some { s with phase := .finished } else none
  | .manager l => (s.manager.next l).map (s.managerStep capacity)
  | .updateStatus n id group state pid exitCode tries description =>
      if (n, id) ∈ s.unpublished.map Prod.fst then none
      else
        let oldState := s.status n id
        some { s with
          status := fun n' id' => if n' = n ∧ id' = id then state else s.status n' id'
          unpublished :=
            if oldState ≠ state ∨ exitCode.isSome then
              s.unpublished ++
                [((n, id), .stateChanged n group oldState state pid exitCode tries description)]
            else s.unpublished }
  | .publish n id =>
      match s.unpublished.find? (·.1 = (n, id)) with
      | some change =>
          some ({ s with unpublished := s.unpublished.erase change }.deliver capacity [change.2])
      | none => none
  | .publishOther event =>
      match event with
      | .stateChanged .. => none
      | event => some (s.deliver capacity [event])

/-- A handler of a running daemon. The instances may be in any states. -/
def system (name : String) (capacity : ℕ) : TransitionSystem SyncStart Label where
  init s := ManagerActor.system.Reachable s.manager ∧ s.unpublished = [] ∧ s.phase = .requested ∧
    s.rx = none
  step s l s' := s.next name capacity l = some s'

/-- The handler waits and has received all events, no state change is under way, and the status is
that of a settled state. -/
structure Stuck (name : String) (s : SyncStart) : Prop where
  waiting : s.phase = .waiting
  received : s.rx = some ⟨[], false⟩
  published : s.unpublished = []
  settled : ∃ env, s.IsSettled env name

/-- The name stands for the program of that name, or for nothing. -/
def StandsForItself (name : String) (m : ManagerActor) : Prop :=
  name ∈ m.programs ∨ ∀ env, m.findMatch env name = []

/-- The status queries of the handler are answered. -/
def Answered (_ : SyncStart) : Label → Prop
  | .checkStatus _ answered | .receive _ answered => answered = true
  | _ => True

instance (s : SyncStart) : (l : Label) → Decidable (Answered s l)
  | .checkStatus _ answered | .receive _ answered => inferInstanceAs (Decidable (answered = true))
  | .start _ | .subscribe | .timeout | .manager _ | .updateStatus .. | .publish ..
    | .publishOther _ =>
      inferInstanceAs (Decidable True)

variable {name : String} {capacity : ℕ} {s s' : SyncStart} {rx : BroadcastReceiver}
  {env : ManagerEnv}

/-! ## The status of a program of the name -/

/-- While the manager runs, the status of a program of the name is the state of its instance. -/
theorem isSettled_of_lookup {p : ProgramInstance} (hrunning : s.manager.finished = false)
    (hp : s.manager.programs.lookup name = some p) :
    s.IsSettled env name ↔ (s.status name p.id).isSettled = true := by
  have hmem : name ∈ s.manager.programs := HashMap.mem_iff_lookup.mpr ⟨p, hp⟩
  rw [IsSettled, getStatus, if_neg (by rw [hrunning]; decide)]
  simp only [if_pos hmem, Option.bind_some, hp, Option.map_some, Option.any_some]

/-- A name that stands for itself has a settled status only when the program of that name has. -/
theorem exists_of_isSettled (hname : StandsForItself name s.manager) (h : s.IsSettled env name) :
    s.manager.finished = false ∧ ∃ p, s.manager.programs.lookup name = some p ∧
      (s.status name p.id).isSettled = true := by
  have hrunning : s.manager.finished = false := by
    by_contra hfinished
    rw [IsSettled, getStatus, if_pos (Bool.eq_true_of_not_eq_false hfinished)] at h
    cases h
  refine ⟨hrunning, ?_⟩
  by_cases hmem : name ∈ s.manager.programs
  · obtain ⟨p, hp⟩ := HashMap.mem_iff_lookup.mp hmem
    exact ⟨p, hp, (isSettled_of_lookup hrunning hp).mp h⟩
  · rw [IsSettled, getStatus, if_neg (by rw [hrunning]; decide)] at h
    simp only [if_neg hmem, hname.resolve_left hmem, List.head?_nil, Option.bind_none,
      Option.any_none] at h
    cases h

/-! ## Announcements -/

/-- The receiver makes the handler read the status, or holds the event that it waits for. -/
def Tells (name : String) (rx : BroadcastReceiver) : Prop :=
  rx.lagged = true ∨ ∃ event ∈ rx.unread, settles name event = true

/-- The handler will be told about a settled state, or this is about to be published. -/
def Announced (name : String) (s : SyncStart) : Prop :=
  (∃ rx, s.rx = some rx ∧ Tells name rx) ∨ ∃ change ∈ s.unpublished, settles name change.2 = true

theorem Tells.send (h : Tells name rx) (event : SystemEvent) :
    Tells name (rx.send capacity event) := by
  rw [BroadcastReceiver.send]
  split_ifs with hroom
  · obtain hlagged | ⟨old, hold, hsettles⟩ := h
    · exact .inl hlagged
    · exact .inr ⟨old, List.mem_append_left _ hold, hsettles⟩
  · exact .inl rfl

theorem tells_send {event : SystemEvent} (h : settles name event = true) :
    Tells name (rx.send capacity event) := by
  rw [BroadcastReceiver.send]
  split_ifs with hroom
  · exact .inr ⟨event, List.mem_append_right _ (List.mem_singleton_self event), h⟩
  · exact .inl rfl

theorem Tells.foldl_send (h : Tells name rx) (events : List SystemEvent) :
    Tells name (events.foldl (BroadcastReceiver.send capacity) rx) := by
  induction events generalizing rx with
  | nil => exact h
  | cons event events ih => exact ih (h.send event)

/-- Further events do not take an announcement back. -/
theorem Announced.deliver (h : Announced name s) (events : List SystemEvent) :
    Announced name (s.deliver capacity events) := by
  obtain ⟨rx, hrx, htells⟩ | hunpublished := h
  · refine .inl ⟨events.foldl (BroadcastReceiver.send capacity) rx, ?_, htells.foldl_send events⟩
    rw [SyncStart.deliver, hrx]
    rfl
  · exact .inr hunpublished

/-! ## The invariant -/

/-- From the subscription on there is a receiver, and while the handler waits and the manager runs,
a settled state of the program of the name is announced. -/
structure Invariant (name : String) (s : SyncStart) : Prop where
  subscribed : s.phase = .subscribed ∨ s.phase = .waiting → s.rx.isSome = true
  announced : s.phase = .waiting → s.manager.finished = false → ∀ p,
    s.manager.programs.lookup name = some p → (s.status name p.id).isSettled = true →
      Announced name s

/-- A handler that does not wait has nothing to be told. -/
theorem Invariant.of_not_waiting (hwaiting : s.phase ≠ .waiting)
    (hrx : s.phase = .subscribed → s.rx.isSome = true) : Invariant name s where
  subscribed h := hrx (h.resolve_right hwaiting)
  announced h := absurd h hwaiting

/-- A handler that has just read a status begins to wait only when it is not settled. -/
theorem Invariant.of_checked (hrx : s.rx.isSome = true) (hnot : ¬ s.IsSettled env name) :
    Invariant name s where
  subscribed _ := hrx
  announced _ hrunning _ hp hsettled := absurd ((isSettled_of_lookup hrunning hp).mpr hsettled) hnot

/-- A step of the manager changes no status of an instance that is still there. -/
theorem Invariant.managerStep (h : Invariant name s) (hrunning : s.manager.finished = false)
    (manager : ManagerActor) : Invariant name (s.managerStep capacity manager) where
  subscribed hphase := by
    have hsome := h.subscribed hphase
    rwa [SyncStart.managerStep, SyncStart.deliver, Option.isSome_map]
  announced hwaiting _ p hp hsettled := by
    apply Announced.deliver
    have hstatus : (if (s.manager.programs.lookup name).any fun q => q.id = p.id then
        s.status name p.id else .stopped).isSettled = true := hsettled
    split_ifs at hstatus with hsame
    · obtain ⟨q, hq, hid⟩ := (Option.any_eq_true _ _).mp hsame
      rw [← of_decide_eq_true hid] at hstatus
      obtain hrx | hunpublished := h.announced hwaiting hrunning q hq hstatus
      · exact .inl hrx
      · exact .inr hunpublished
    · cases hstatus

/-- A handler that is told nothing new waits for an event behind the one it receives. -/
theorem Invariant.receive (h : Invariant name s) (hwaiting : s.phase = .waiting)
    {event : SystemEvent} {unread : List SystemEvent} (hrx : s.rx = some ⟨event :: unread, false⟩)
    (hother : settles name event = false) :
    Invariant name { s with rx := some ⟨unread, false⟩ } where
  subscribed _ := rfl
  announced _ hrunning p hp hsettled := by
    obtain ⟨rx, hrx', hlagged | ⟨old, hold, hsettles⟩⟩ | hunpublished :=
      h.announced hwaiting hrunning p hp hsettled
    · rw [hrx] at hrx'
      obtain rfl := Option.some.inj hrx'
      cases hlagged
    · rw [hrx] at hrx'
      obtain rfl := Option.some.inj hrx'
      obtain rfl | hold := List.mem_cons.mp hold
      · rw [hother] at hsettles
        cases hsettles
      · exact .inl ⟨_, rfl, .inr ⟨old, hold, hsettles⟩⟩
    · exact .inr hunpublished

/-- A change that is written is published later, unless the state is the old one. -/
theorem Invariant.updateStatus (h : Invariant name s) {n group description : String} {id tries : ℕ}
    {state : ProgramState} {pid : Option ℕ} {exitCode : Option ℤ}
    (hstep : s.next name capacity
      (.updateStatus n id group state pid exitCode tries description) = some s') :
    Invariant name s' := by
  simp only [next] at hstep
  split_ifs at hstep with hfree hemit
  · obtain rfl := Option.some.inj hstep
    refine ⟨h.subscribed, fun hwaiting hrunning p hp hsettled => ?_⟩
    dsimp only at hsettled
    split_ifs at hsettled with hsame
    · -- The change is the announcement.
      obtain ⟨rfl, rfl⟩ := hsame
      refine .inr ⟨_, List.mem_append_right _ (List.mem_singleton_self _), ?_⟩
      simp [settles, hsettled]
    · obtain hrx | ⟨change, hchange, hsettles⟩ := h.announced hwaiting hrunning p hp hsettled
      · exact .inl hrx
      · exact .inr ⟨change, List.mem_append_left _ hchange, hsettles⟩
  · obtain rfl := Option.some.inj hstep
    refine ⟨h.subscribed, fun hwaiting hrunning p hp hsettled => ?_⟩
    dsimp only at hsettled
    have hold : (s.status name p.id).isSettled = true := by
      split_ifs at hsettled with hsame
      · -- The state was settled before.
        obtain ⟨rfl, rfl⟩ := hsame
        rw [not_or, not_not] at hemit
        rwa [hemit.1]
      · exact hsettled
    obtain hrx | hunpublished := h.announced hwaiting hrunning p hp hold
    · exact .inl hrx
    · exact .inr hunpublished

/-- A change that is published reaches the handler. -/
theorem Invariant.publish (h : Invariant name s) {change : (String × ℕ) × SystemEvent} :
    Invariant name
      ({ s with unpublished := s.unpublished.erase change }.deliver capacity [change.2]) where
  subscribed hphase := by
    have hsome := h.subscribed hphase
    rwa [SyncStart.deliver, Option.isSome_map]
  announced hwaiting hrunning p hp hsettled := by
    obtain ⟨rx, hrx⟩ := Option.isSome_iff_exists.mp (h.subscribed (.inr hwaiting))
    have hrx' : ({ s with unpublished := s.unpublished.erase change }.deliver capacity
        [change.2]).rx = some (rx.send capacity change.2) := by
      rw [SyncStart.deliver, hrx]
      rfl
    obtain ⟨old, hold, htells⟩ | ⟨other, hother, hsettles⟩ :=
      h.announced hwaiting hrunning p hp hsettled
    · obtain rfl := Option.some.inj (hrx.symm.trans hold)
      exact .inl ⟨_, hrx', htells.send _⟩
    · by_cases hsame : other = change
      · subst hsame
        exact .inl ⟨_, hrx', tells_send hsettles⟩
      · exact .inr ⟨other, (List.mem_erase_of_ne hsame).mpr hother, hsettles⟩

/-- Every step of the handler whose queries are answered, of the manager and of the instances keeps
the invariant. -/
theorem Invariant.step (h : Invariant name s) {l : Label} (hanswered : Answered s l)
    (hstep : s.next name capacity l = some s') : Invariant name s' := by
  cases l with
  | start env =>
    simp only [next] at hstep
    split_ifs at hstep with hready hok
    · obtain rfl := Option.some.inj hstep
      exact .of_not_waiting (by simp) (by simp)
    · obtain rfl := Option.some.inj hstep
      exact .of_not_waiting (by simp) (by simp)
  | subscribe =>
    simp only [next] at hstep
    split_ifs at hstep with hready
    obtain rfl := Option.some.inj hstep
    exact .of_not_waiting (by simp) fun _ => rfl
  | checkStatus env answered =>
    simp only [next] at hstep
    split_ifs at hstep with hready hsettled
    · obtain rfl := Option.some.inj hstep
      exact .of_not_waiting (by simp) (by simp)
    · obtain rfl := Option.some.inj hstep
      exact .of_checked (h.subscribed (.inl hready)) fun hs => hsettled ⟨hanswered, hs⟩
  | receive env answered =>
    simp only [next] at hstep
    split at hstep
    next unread hwaiting hrx =>
      split_ifs at hstep with hsettled
      · obtain rfl := Option.some.inj hstep
        exact .of_not_waiting (by simp) (by simp)
      · obtain rfl := Option.some.inj hstep
        exact .of_checked rfl fun hs => hsettled ⟨hanswered, hs⟩
    next event unread hwaiting hrx =>
      split_ifs at hstep with hsettles
      · obtain rfl := Option.some.inj hstep
        exact .of_not_waiting (by simp) (by simp)
      · obtain rfl := Option.some.inj hstep
        have hreceive := h.receive hwaiting hrx (Bool.eq_false_of_not_eq_true hsettles)
        rw [hwaiting] at hreceive
        exact hreceive
    next => cases hstep
  | timeout =>
    simp only [next] at hstep
    split_ifs at hstep
    obtain rfl := Option.some.inj hstep
    exact .of_not_waiting (by simp) (by simp)
  | manager l =>
    obtain ⟨manager, hnext, rfl⟩ := Option.map_eq_some_iff.mp hstep
    refine h.managerStep ?_ manager
    -- A manager that has finished takes no step.
    by_contra hfinished
    unfold ManagerActor.next at hnext
    rw [if_pos (Bool.eq_true_of_not_eq_false hfinished)] at hnext
    cases hnext
  | updateStatus n id group state pid exitCode tries description => exact h.updateStatus hstep
  | publish n id =>
    simp only [next] at hstep
    split at hstep
    next change _ =>
      obtain rfl := Option.some.inj hstep
      exact h.publish
    next => cases hstep
  | publishOther event =>
    simp only [next] at hstep
    split at hstep
    next => cases hstep
    next =>
      obtain rfl := Option.some.inj hstep
      refine ⟨fun hphase => ?_, fun hwaiting hrunning p hp hsettled => ?_⟩
      · have hsome := h.subscribed hphase
        rwa [SyncStart.deliver, Option.isSome_map]
      · exact (h.announced hwaiting hrunning p hp hsettled).deliver _

/-! ## The handler does not wait for nothing -/

/-- A program of a group. -/
def groupConfig : SupervisorConfig where
  programs := HashMap.extend ∅ [("web", { command := "nginx", group := some "site" })]

/-- A started program that comes up while the handler waits. -/
def comesUp : List Label :=
  [.start .plain, .subscribe, .checkStatus .plain true,
    .updateStatus "web" 0 "site" .running (some 7) none 0 "Running"]

/-- A request for the program, whose status query is not answered after the program came up before
the subscription. -/
theorem stuck_unanswered : ∃ s, (system "web" 1024).Reachable s ∧ Stuck "web" s := by
  obtain ⟨m, hbuild, hreplay⟩ := ManagerActor.exists_build (fun m =>
    (TransitionSystem.replayWhile (fun _ _ => True) (next "web" 1024) ⟨m, fun _ _ => .stopped, [],
      .requested, none⟩ [.start .plain,
      .updateStatus "web" 0 "site" .running (some 7) none 0 "Running",
        .publish "web" 0, .subscribe, .checkStatus .plain false]).any (fun s => s.phase = .waiting ∧
          s.rx = some ⟨[], false⟩ ∧ s.unpublished = [] ∧ s.IsSettled .plain "web") = true)
    groupConfig .plain (by decide +kernel)
  obtain ⟨s, hs, hP⟩ := (Option.any_eq_true _ _).mp hreplay
  obtain ⟨hwaiting, hreceived, hpublished, hsettled⟩ := of_decide_eq_true hP
  have hreach : (system "web" 1024).Reachable s :=
    .of_replayWhile (fun _ _ _ hstep => hstep)
      (.init ⟨.init ⟨groupConfig, .plain, hbuild⟩, rfl, rfl, rfl⟩) hs
  exact ⟨s, hreach, hwaiting, hreceived, hpublished, .plain, hsettled⟩

end SyncStart

end Rsupervisord
