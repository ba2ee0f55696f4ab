import Rsupervisord.EventListener.Delivery

/-!
# Dispatch of events

Whether a buffered event reaches a listener that waits for one. A wire task first tries to pop and
creates its notification future afterwards; `notify_waiters` reaches the futures that exist and
leaves no permit behind. `enabled_of_waiting` shows that a waiting listener and a buffered event
always leave a step to be made, in executions in which no call of `notify_waiters` falls between a
failed pop and the creation of the future.
-/

namespace Rsupervisord

/-- A step that the tasks of the pool make on their own, without an answer from a listener process
or the operating system. -/
def WireInput.isInternal : WireInput → Bool
  | .pop | .register | .resume | .notify | .cancelled => true
  | _ => false

namespace WireTask

/-- The listener has sent `READY` and waits for an event. -/
def WaitsForEvent (t : WireTask) : Prop :=
  t.state = .ready ∧ (t.pc = .awaiting ∨ t.pc = .gap ∨ ∃ w, t.pc = .waiting w)

/-- The task has found the buffer empty and no notification has reached it since. -/
def IsHungry (t : WireTask) : Prop :=
  t.pc = .gap ∨ t.pc = .waiting false

/-- The task is about to call `notify_waiters`. -/
def IsNotifying (t : WireTask) : Prop :=
  ∃ ends, t.pc = .notifying ends

variable {t : WireTask} {pool : EventListenerPoolInner} {o : WireOutcome}

/-- A task at another point is not about to call `notify_waiters`. -/
theorem not_isNotifying {pc : WirePc} (hpc : t.pc = pc) (hne : ∀ ends, pc ≠ .notifying ends) :
    ¬ t.IsNotifying := by
  rintro ⟨ends, hends⟩
  exact hne ends (hpc.symm.trans hends)

/-- What a step other than a call of `notify_waiters` does to the dispatch: an event that enters the
buffer is followed by such a call, and a task only becomes hungry over an empty buffer. -/
structure Dispatches (t : WireTask) (pool : EventListenerPoolInner) (o : WireOutcome) : Prop where
  silent : o.notifies = false
  notNotifying : ¬ t.IsNotifying
  dispatch : o.task.IsNotifying ∨ o.pool.buffer = [] ∨
    pool.buffer ≠ [] ∧ (o.task.IsHungry → t.IsHungry)

/-- A step that leaves the pool alone and does not make the task hungry. -/
theorem dispatches_of_pool_eq {t' : WireTask} {acked lost : List EventEnvelope}
    (hpc : ¬ t.IsNotifying) (hhungry : t'.IsHungry → t.IsHungry) :
    t.Dispatches pool { task := t', pool, acked, lost } := by
  refine ⟨rfl, hpc, ?_⟩
  by_cases hbuf : pool.buffer = []
  · exact .inr (.inl hbuf)
  · exact .inr (.inr ⟨hbuf, hhungry⟩)

/-- Handing back the current envelope, or having none. -/
theorem requeueCurrent_dispatches {ends : Bool} (hpc : ¬ t.IsNotifying) :
    t.Dispatches pool (t.requeueCurrent pool ends) := by
  simp only [requeueCurrent]
  split
  next => exact ⟨rfl, hpc, .inl ⟨ends, rfl⟩⟩
  next =>
    refine dispatches_of_pool_eq hpc ?_
    cases ends <;> rintro (h | h) <;> cases h

/-- The state of the handshake does not matter to the dispatch. -/
theorem Dispatches.of_state {state : ListenerState} (h : { t with state }.Dispatches pool o) :
    t.Dispatches pool o :=
  ⟨h.silent, h.notNotifying, h.dispatch⟩

theorem onResultHeader_dispatches (hpc : ¬ t.IsNotifying) (line : String) :
    t.Dispatches pool (t.onResultHeader pool line) := by
  have hunknown : t.Dispatches pool (requeueCurrent { t with state := .unknown } pool false) :=
    (requeueCurrent_dispatches (t := { t with state := .unknown }) hpc).of_state
  simp only [onResultHeader]
  split
  · split
    · split
      · exact hunknown
      · refine dispatches_of_pool_eq hpc ?_
        rintro (h | h) <;> cases h
    · exact hunknown
  · exact hunknown

theorem onResultBody_dispatches (hpc : ¬ t.IsNotifying) (body : Except String (List UInt8)) :
    t.Dispatches pool (t.onResultBody pool body) := by
  simp only [onResultBody]
  split
  · split
    · refine dispatches_of_pool_eq hpc ?_
      rintro (h | h) <;> cases h
    · exact (requeueCurrent_dispatches (t := { t with state := .acknowledged }) hpc).of_state
  · exact (requeueCurrent_dispatches (t := { t with state := .unknown }) hpc).of_state

theorem onLine_dispatches (hpc : ¬ t.IsNotifying) {line : Except String String}
    (h : t.onLine pool line = some o) : t.Dispatches pool o := by
  simp only [onLine] at h
  split at h
  next => cases h
  next =>
    split at h
    next =>
      cases h
      exact requeueCurrent_dispatches hpc
    next line =>
      split at h
      next =>
        cases h
        exact requeueCurrent_dispatches hpc
      next =>
        split at h
        next =>
          split at h
          · cases h
            exact ⟨rfl, hpc, .inl ⟨false, rfl⟩⟩
          · cases h
            exact dispatches_of_pool_eq hpc (by rintro (h | h) <;> cases h)
        next =>
          cases h
          exact dispatches_of_pool_eq hpc (by rintro (h | h) <;> cases h)
        next =>
          cases h
          exact onResultHeader_dispatches hpc line
        next => cases h

/-- Every step of a wire task but a call of `notify_waiters`. -/
theorem step_dispatches {input : WireInput} (h : t.step pool input = some o)
    (hinput : input ≠ .notify) : t.Dispatches pool o := by
  cases input with
  | lineRead line =>
      simp only [step] at h
      split at h
      next hpc => exact onLine_dispatches (not_isNotifying hpc (by simp)) h
      next hpc => exact onLine_dispatches (not_isNotifying hpc (by simp)) h
      next => cases h
  | pop =>
      simp only [step] at h
      split at h
      next hready =>
        have hpc : ¬ t.IsNotifying := not_isNotifying hready.2 (by simp)
        cases hbuf : pool.buffer with
        | nil =>
            -- The task becomes hungry, but there is nothing to be hungry for.
            simp only [EventListenerPoolInner.popNextEvent, hbuf, List.head?_nil,
              List.tail_nil] at h
            cases h
            exact ⟨rfl, hpc, .inr (.inl rfl)⟩
        | cons envelope rest =>
            simp only [EventListenerPoolInner.popNextEvent, hbuf, List.head?_cons,
              List.tail_cons] at h
            cases h
            refine ⟨rfl, hpc, .inr (.inr ⟨hbuf ▸ List.cons_ne_nil _ _, ?_⟩)⟩
            rintro (h | h) <;> cases h
      next => cases h
  | register =>
      simp only [step] at h
      split at h
      next hpc =>
        cases h
        exact dispatches_of_pool_eq (not_isNotifying hpc (by simp)) fun _ => .inl hpc
      next => cases h
  | resume =>
      simp only [step] at h
      split at h
      next hpc =>
        cases h
        refine dispatches_of_pool_eq (not_isNotifying hpc (by simp)) ?_
        rintro (h | h) <;> cases h
      next => cases h
  | written ok =>
      simp only [step] at h
      split at h
      next envelope hpc =>
        have hpc' : ¬ t.IsNotifying := not_isNotifying hpc (by simp)
        split at h
        next =>
          cases h
          exact dispatches_of_pool_eq hpc' (by rintro (h | h) <;> cases h)
        next =>
          cases h
          exact ⟨rfl, hpc', .inl ⟨true, rfl⟩⟩
      next => cases h
  | bodyRead body =>
      simp only [step] at h
      split at h
      next expectedLen hpc =>
        have hpc' : ¬ t.IsNotifying := not_isNotifying hpc (by simp)
        split at h
        next bytes =>
          split at h
          next =>
            obtain rfl := Option.some.inj h
            exact onResultBody_dispatches hpc' (.ok bytes)
          next => cases h
        next e =>
          obtain rfl := Option.some.inj h
          exact onResultBody_dispatches hpc' (.error e)
      next => cases h
  | notify => exact absurd rfl hinput
  | cancelled =>
      have hpc : ¬ t.IsNotifying := by
        rintro ⟨b, hb⟩
        simp [step, hb] at h
      obtain ⟨-, rfl⟩ := outcome_of_cancelled h
      exact dispatches_of_pool_eq hpc (by rintro (h | h) <;> cases h)

/-- A call of `notify_waiters` leaves the pool alone and its task behind the call. -/
theorem outcome_of_notify (h : t.step pool .notify = some o) :
    o.notifies = true ∧ o.pool = pool ∧ (o.task.pc = .ended ∨ o.task.pc = .awaiting) := by
  simp only [step] at h
  split at h
  next ends _ =>
    cases h
    refine ⟨rfl, rfl, ?_⟩
    cases ends
    · exact .inr rfl
    · exact .inl rfl
  next => cases h

/-- A hungry task that a call of `notify_waiters` does not reach is in the gap. -/
theorem gap_of_hungry_notified (h : t.notified.IsHungry) : t.pc = .gap := by
  simp only [notified] at h
  split at h
  next => rcases h with h | h <;> cases h
  next hpc =>
    rcases h with h | h
    · exact h
    · exact absurd h (hpc false)

end WireTask

namespace PoolSystem

variable {s s' : PoolSystem} {l : Label}

/-- A step that the tasks of the pool make on their own. -/
def Label.isInternal : Label → Bool
  | .insert _ | .notify => true
  | .task _ input => input.isInternal
  | _ => false

/-- While an event is buffered, a call of `notify_waiters` falls between a failed pop and the
creation of the future. -/
def NotifiesInGap (s : PoolSystem) : Label → Prop
  | .notify => s.pool.buffer ≠ [] ∧ ∃ t ∈ s.tasks, t.pc = .gap
  | .task _ .notify => s.pool.buffer ≠ [] ∧ ∃ t ∈ s.tasks, t.pc = .gap
  | _ => False

instance (s : PoolSystem) (l : Label) : Decidable (s.NotifiesInGap l) := by
  unfold NotifiesInGap
  split <;> infer_instance

/-- While an event is buffered and a task is hungry, a call of `notify_waiters` is to come. -/
def WakeupPending (s : PoolSystem) : Prop :=
  s.pool.buffer ≠ [] → (∃ t ∈ s.tasks, t.IsHungry) →
    0 < s.notifying ∨ ∃ t ∈ s.tasks, t.IsNotifying

/-- A call of `notify_waiters` outside a gap leaves no task hungry. -/
theorem not_hungry_notified {tasks : List WireTask} (hgap : ¬ ∃ t ∈ tasks, t.pc = .gap) :
    ¬ ∃ t ∈ tasks.map WireTask.notified, t.IsHungry := by
  rintro ⟨t, ht, hhungry⟩
  obtain ⟨u, hu, rfl⟩ := List.mem_map.mp ht
  exact hgap ⟨u, hu, WireTask.gap_of_hungry_notified hhungry⟩

/-- Replacing a task without the property `P` keeps the tasks that have it. -/
theorem mem_set_of_not {P : WireTask → Prop} {tasks : List WireTask} {i : ℕ} {t t' u : WireTask}
    (ht : tasks[i]? = some t) (hnot : ¬ P t) (hu : u ∈ tasks) (hPu : P u) :
    u ∈ tasks.set i t' := by
  obtain ⟨j, hj⟩ := List.getElem?_of_mem hu
  have hij : i ≠ j := by
    rintro rfl
    rw [ht] at hj
    cases hj
    exact hnot hPu
  refine List.mem_of_getElem? (i := j) ?_
  rw [List.getElem?_set_ne hij]
  exact hj

/-- A step of a wire task outside a gap keeps the wake-up pending. -/
theorem wakeupPending_task {i : ℕ} {input : WireInput}
    (hl : ¬ s.NotifiesInGap (.task i input)) (hs : s.WakeupPending)
    (h : s.next (.task i input) = some s') : s'.WakeupPending := by
  obtain ⟨t, o, ht, ho, rfl⟩ := next_task h
  by_cases hinput : input = .notify
  · subst hinput
    obtain ⟨hnotifies, hpool, hpc⟩ := WireTask.outcome_of_notify ho
    intro hbuf hhungry
    simp only [hnotifies, if_true] at hbuf hhungry
    rw [hpool] at hbuf
    refine absurd hhungry (not_hungry_notified ?_)
    rintro ⟨u, hu, hgap⟩
    rcases List.mem_or_eq_of_mem_set hu with hu | rfl
    · exact hl ⟨hbuf, u, hu, hgap⟩
    · rw [hgap] at hpc
      rcases hpc with hpc | hpc <;> cases hpc
  · obtain ⟨hsilent, hnot, hdispatch⟩ := WireTask.step_dispatches ho hinput
    intro hbuf hhungry
    simp only [hsilent, Bool.false_eq_true, if_false] at hbuf hhungry ⊢
    have hlen : i < s.tasks.length := (List.getElem?_eq_some_iff.mp ht).1
    rcases hdispatch with hnotifying | hempty | ⟨hbuf', hmono⟩
    · exact .inr ⟨o.task, List.mem_set hlen _, hnotifying⟩
    · exact absurd hempty hbuf
    · have hhungry' : ∃ u ∈ s.tasks, u.IsHungry := by
        obtain ⟨u, hu, hu'⟩ := hhungry
        rcases List.mem_or_eq_of_mem_set hu with hu | rfl
        · exact ⟨u, hu, hu'⟩
        · exact ⟨t, List.mem_of_getElem? ht, hmono hu'⟩
      rcases hs hbuf' hhungry' with hpos | ⟨u, hu, hu'⟩
      · exact .inl hpos
      · exact .inr ⟨u, mem_set_of_not ht hnot hu hu', hu'⟩

/-- Every step outside a gap keeps the wake-up pending. -/
theorem wakeupPending_next (hl : ¬ s.NotifiesInGap l) (hs : s.WakeupPending)
    (h : s.next l = some s') : s'.WakeupPending := by
  cases l with
  | number eventName payload =>
      simp only [next, Option.ite_none_right_eq_some, Option.some.injEq] at h
      obtain ⟨-, rfl⟩ := h
      exact hs
  | numberElsewhere =>
      cases h
      exact hs
  | insert i =>
      simp only [next] at h
      split at h
      next =>
        cases h
        exact fun _ _ => .inl (Nat.succ_pos _)
      next => cases h
  | notify =>
      simp only [next] at h
      split at h
      next => cases h
      next =>
        cases h
        intro hbuf hhungry
        exact absurd hhungry (not_hungry_notified fun hgap => hl ⟨hbuf, hgap⟩)
  | spawn =>
      cases h
      rintro hbuf ⟨t, ht, hhungry⟩
      rcases List.mem_append.mp ht with ht | ht
      · rcases hs hbuf ⟨t, ht, hhungry⟩ with hpos | ⟨u, hu, hu'⟩
        · exact .inl hpos
        · exact .inr ⟨u, List.mem_append_left _ hu, hu'⟩
      · -- A new task waits for the first line of its listener.
        rw [List.mem_singleton.mp ht] at hhungry
        rcases hhungry with hhungry | hhungry <;> cases hhungry
  | cancelChild i =>
      simp only [next] at h
      split at h
      next t ht =>
        cases h
        have hlen : i < s.tasks.length := (List.getElem?_eq_some_iff.mp ht).1
        rintro hbuf ⟨u, hu, hhungry⟩
        have hhungry' : ∃ u ∈ s.tasks, u.IsHungry := by
          rcases List.mem_or_eq_of_mem_set hu with hu | rfl
          · exact ⟨u, hu, hhungry⟩
          · exact ⟨t, List.mem_of_getElem? ht, hhungry⟩
        rcases hs hbuf hhungry' with hpos | ⟨v, hv, hv'⟩
        · exact .inl hpos
        -- The cancellation keeps the point that the task has reached.
        by_cases hnot : t.IsNotifying
        · exact .inr ⟨_, List.mem_set hlen _, hnot⟩
        · exact .inr ⟨v, mem_set_of_not ht hnot hv hv', hv'⟩
      next => cases h
  | cancelPool =>
      cases h
      exact hs
  | task i input => exact wakeupPending_task hl hs h

/-- A step of a task is a step of the system. -/
theorem isSome_next_task {i : ℕ} {t : WireTask} {input : WireInput} (ht : s.tasks[i]? = some t)
    (ho : (t.step s.pool input).isSome = true) : (s.next (.task i input)).isSome = true := by
  obtain ⟨o, ho⟩ := Option.isSome_iff_exists.mp ho
  simp [next, ht, ho]

/-- In every execution in which no call of `notify_waiters` falls, while an event is buffered,
between a failed pop and the creation of the future, a buffered event and a listener that waits for
one leave a step to a task of the pool. -/
theorem enabled_of_waiting {poolName serverIdentifier : String} {events : List String}
    {bufferSize : ℕ} {t : WireTask}
    (h : (system poolName serverIdentifier events bufferSize).ReachableWhile
      (fun s l => ¬ s.NotifiesInGap l) s)
    (hbuf : s.pool.buffer ≠ []) (ht : t ∈ s.tasks) (hwait : t.WaitsForEvent) :
    ∃ l : Label, l.isInternal = true ∧ (s.next l).isSome = true := by
  have hpending : s.WakeupPending := by
    refine TransitionSystem.ReachableWhile.invariant (I := WakeupPending) ?_ ?_ h
    · rintro _ rfl
      exact fun hbuf => absurd rfl hbuf
    · intro s l t _ hs hl hst
      exact wakeupPending_next hl hs hst
  obtain ⟨i, hi⟩ := List.getElem?_of_mem ht
  obtain ⟨hready, hpc | hpc | ⟨w, hpc⟩⟩ := hwait
  · refine ⟨.task i .pop, rfl, isSome_next_task hi ?_⟩
    simp only [WireTask.step, hready, hpc, and_self, if_true]
    split <;> rfl
  · exact ⟨.task i .register, rfl, isSome_next_task hi (by simp [WireTask.step, hpc])⟩
  · cases w with
    | true => exact ⟨.task i .resume, rfl, isSome_next_task hi (by simp [WireTask.step, hpc])⟩
    | false =>
        rcases hpending hbuf ⟨t, ht, .inr hpc⟩ with hpos | ⟨u, hu, ends, hends⟩
        · refine ⟨.notify, rfl, ?_⟩
          simp [next, Nat.ne_of_gt hpos]
        · obtain ⟨j, hj⟩ := List.getElem?_of_mem hu
          exact ⟨.task j .notify, rfl, isSome_next_task hj (by simp [WireTask.step, hends])⟩

/-- The condition at work: a listener is registered when an event arrives. -/
theorem enabled_after_arrival :
    ∃ s, everyEvent.Reachable s ∧ s.pool.buffer ≠ [] ∧ (∃ t ∈ s.tasks, t.WaitsForEvent) ∧
      ∃ l : Label, l.isInternal = true ∧ (s.next l).isSome = true := by
  obtain ⟨s, hreach, hbuf, htasks⟩ := TransitionSystem.exists_reachableWhile
    (G := fun s l => ¬ s.NotifiesInGap l)
    (i := new (.new "pool" "host" ["EVENT"] 1)) (f := next)
    (fun s => s.pool.buffer ≠ [] ∧ s.tasks = [⟨.ready, none, .waiting false, false⟩])
    [.spawn, .task 0 (.lineRead (.ok "READY\n")), .task 0 .notify, .task 0 .pop,
      .task 0 .register, .number "TICK_5" "when:0", .insert 0] (by decide)
  have ht : (⟨.ready, none, .waiting false, false⟩ : WireTask) ∈ s.tasks := by
    rw [htasks]
    exact List.mem_singleton.mpr rfl
  have hwait : (⟨.ready, none, .waiting false, false⟩ : WireTask).WaitsForEvent :=
    ⟨rfl, .inr (.inr ⟨false, rfl⟩)⟩
  exact ⟨s, hreach.reachable, hbuf, ⟨_, ht, hwait⟩, enabled_of_waiting hreach hbuf ht hwait⟩

/-- Without the condition a wake-up is lost: an event arrives between the failed pop of a listener
and its registration, and no task of the pool has a step left although the listener waits and the
event is buffered. -/
theorem exists_lost_wakeup :
    ∃ s, everyEvent.Reachable s ∧ s.pool.buffer ≠ [] ∧ (∃ t ∈ s.tasks, t.WaitsForEvent) ∧
      ∀ l : Label, l.isInternal = true → s.next l = none := by
  obtain ⟨s, hreach, hbuf, htasks, hnumbered, hnotifying, hcancel⟩ :=
    TransitionSystem.exists_reachableWhile
    (G := fun _ _ => True) (i := new (.new "pool" "host" ["EVENT"] 1)) (f := next)
    (fun s => s.pool.buffer ≠ [] ∧ s.tasks = [⟨.ready, none, .waiting false, false⟩] ∧
      s.numbered = [] ∧ s.notifying = 0 ∧ s.pool.cancelToken = false)
    [.spawn, .task 0 (.lineRead (.ok "READY\n")), .task 0 .notify, .task 0 .pop,
      .number "TICK_5" "when:0", .insert 0, .notify, .task 0 .register] (by decide)
  refine ⟨s, hreach, hbuf, ⟨⟨.ready, none, .waiting false, false⟩, ?_, rfl, ?_⟩, ?_⟩
  · rw [htasks]
    exact List.mem_singleton.mpr rfl
  · exact .inr (.inr ⟨false, rfl⟩)
  · intro l hl
    cases l with
    | insert i => simp [next, hnumbered]
    | notify => simp [next, hnotifying]
    | task i input =>
        cases i with
        | zero =>
            cases input with
            | cancelled => simp [next, htasks, WireTask.step, WireTask.isCancelled, hcancel]
            | pop => simp [next, htasks, WireTask.step]
            | register => simp [next, htasks, WireTask.step]
            | resume => simp [next, htasks, WireTask.step]
            | notify => simp [next, htasks, WireTask.step]
            | _ => cases hl
        | succ i => simp [next, htasks]
    | _ => cases hl

end PoolSystem

end Rsupervisord
