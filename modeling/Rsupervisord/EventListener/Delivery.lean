import Mathlib.Algebra.BigOperators.Group.List.Basic
import Mathlib.Algebra.Order.Group.Multiset
import Mathlib.Tactic.Abel
import Rsupervisord.EventListener.Wire

/-!
# Delivery of events

Where the events that a pool has accepted are. Every step moves an event between the buffer, a wire
task, the acknowledged and the discarded events, except that a task which notices its cancellation
while it holds an event drops it.

* `accounting_of_reachable`: counted with multiplicity, the accepted events are the buffered ones,
  those held by a wire task, the acknowledged, the discarded and the lost ones.
* `delivery_of_reachable`: no event is lost in executions in which no wire task notices the
  cancellation of its child while it holds an event.
-/

namespace Rsupervisord

/-- Replacing one summand. -/
theorem List.sum_map_set {α M : Type*} [AddCommMonoid M] (f : α → M) {l : List α} {i : ℕ} {a : α}
    (b : α) (h : l[i]? = some a) :
    ((l.set i b).map f).sum + f a = (l.map f).sum + f b := by
  induction l generalizing i with
  | nil => simp at h
  | cons x l ih =>
      cases i with
      | zero =>
          simp only [List.getElem?_cons_zero, Option.some.injEq] at h
          subst h
          simp only [List.set_cons_zero, List.map_cons, List.sum_cons]
          abel
      | succ i =>
          have hl := ih (by simpa using h)
          simp only [List.set_cons_succ, List.map_cons, List.sum_cons]
          rw [add_assoc, hl]
          abel

namespace EventListenerPoolInner

variable (p : EventListenerPoolInner)

/-! ## The operations on the buffer -/

/-- Nothing but the new and the discarded event enters or leaves the buffer. -/
theorem insertAccepted_buffer (envelope : EventEnvelope) :
    (p.buffer : Multiset EventEnvelope) + {envelope} =
      (p.insertAccepted envelope).2.buffer + (p.insertAccepted envelope).1.toList := by
  simp only [insertAccepted]
  split
  · cases hbuf : p.buffer with
    | nil => simp
    | cons e rest =>
        simp only [List.tail_cons, List.head?_cons, Option.toList_some, ← Multiset.coe_add,
          ← Multiset.cons_coe, ← Multiset.singleton_add]
        abel
  · simp [← Multiset.coe_add]

theorem requeueRejected_buffer (envelope : EventEnvelope) :
    (p.buffer : Multiset EventEnvelope) + {envelope} =
      (p.requeueRejected envelope).2.buffer + (p.requeueRejected envelope).1.toList := by
  simp only [requeueRejected]
  split
  · rcases List.eq_nil_or_concat p.buffer with hbuf | ⟨rest, e, hbuf⟩
    · simp [hbuf]
    · rw [List.concat_eq_append] at hbuf
      simp only [hbuf, List.dropLast_concat, List.getLast?_concat, Option.toList_some,
        ← Multiset.coe_add, ← Multiset.cons_coe, ← Multiset.singleton_add]
      abel
  · simp only [Option.toList_none, Multiset.coe_nil, add_zero, ← Multiset.cons_coe,
      ← Multiset.singleton_add]
    abel

theorem popNextEvent_buffer :
    (p.buffer : Multiset EventEnvelope) = p.popNextEvent.2.buffer + p.popNextEvent.1.toList := by
  cases hbuf : p.buffer with
  | nil => simp [popNextEvent, hbuf]
  | cons e rest =>
      simp only [popNextEvent, hbuf, List.head?_cons, List.tail_cons, Option.toList_some,
        ← Multiset.cons_coe, ← Multiset.singleton_add]
      abel

end EventListenerPoolInner

/-! ## The steps of a wire task -/

namespace WireTask

/-- An envelope is current only while its `RESULT` is awaited. -/
def WellFormed (t : WireTask) : Prop :=
  t.currentEnvelope ≠ none → t.state = .busy ∧ (t.pc = .awaiting ∨ ∃ n, t.pc = .body n)

/-- What a step does to the events: those in the buffer or held before it are in the buffer or held
behind it, or they were acknowledged, discarded or lost. -/
def Accounts (t : WireTask) (pool : EventListenerPoolInner) (o : WireOutcome) : Prop :=
  (pool.buffer : Multiset EventEnvelope) + t.held =
    o.pool.buffer + o.task.held + o.acked + o.discarded + o.lost

variable {t : WireTask} {pool : EventListenerPoolInner} {o : WireOutcome}

theorem wellFormed_of_none (h : t.currentEnvelope = none) : t.WellFormed :=
  fun hne => absurd h hne

/-- The outcome of a step that does not notice a cancellation: the task stays well formed, every
event is accounted for and none is lost, and a task that leaves its loop has handed the event it
held back to the head of the buffer. -/
structure Keeps (t : WireTask) (pool : EventListenerPoolInner) (o : WireOutcome) : Prop where
  wellFormed : o.task.WellFormed
  accounts : t.Accounts pool o
  lost : o.lost = []
  cancelToken : o.pool.cancelToken = pool.cancelToken
  handedBack : o.task.pc = .ended ∨ o.task.pc = .notifying true →
    ∀ e ∈ t.held, o.pool.buffer.head? = some e

/-- The head of the buffer after an event was handed back. -/
theorem head?_requeueRejected (envelope : EventEnvelope) :
    (pool.requeueRejected envelope).2.buffer.head? = some envelope := by
  simp only [EventListenerPoolInner.requeueRejected]
  split <;> rfl

theorem cancelToken_requeueRejected (envelope : EventEnvelope) :
    (pool.requeueRejected envelope).2.cancelToken = pool.cancelToken := by
  simp only [EventListenerPoolInner.requeueRejected]
  split <;> rfl

/-- A step that leaves the pool alone and keeps the held events held. -/
theorem keeps_of_held_eq {t' : WireTask} {notifies : Bool} (hwf : t'.WellFormed)
    (hheld : t'.held = t.held) (hends : t'.pc = .ended ∨ t'.pc = .notifying true → t.held = []) :
    t.Keeps pool { task := t', pool, notifies } where
  wellFormed := hwf
  accounts := by simp [Accounts, hheld]
  lost := rfl
  cancelToken := rfl
  handedBack h e he := by
    rw [hends h] at he
    cases he

/-- A step of a task without a current envelope to a place where it holds none. -/
theorem keeps_of_current_eq_none {t' : WireTask} {notifies : Bool}
    (hcur : t.currentEnvelope = none) (hpc : ∀ e, t.pc ≠ .writing e)
    (hcur' : t'.currentEnvelope = none) (hpc' : ∀ e, t'.pc ≠ .writing e) :
    t.Keeps pool { task := t', pool, notifies } := by
  have hheld : t.held = [] := by simp only [held, hcur, Option.toList_none]
  have hheld' : t'.held = [] := by simp only [held, hcur', Option.toList_none]
  exact keeps_of_held_eq (wellFormed_of_none hcur') (hheld'.trans hheld.symm) fun _ => hheld

/-- Handing the only event that is held back to the pool. -/
theorem keeps_of_requeueRejected {t' : WireTask} {envelope : EventEnvelope}
    (hheld : t.held = [envelope]) (hcur' : t'.currentEnvelope = none)
    (hpc' : ∀ e, t'.pc ≠ .writing e) :
    t.Keeps pool
      { task := t'
        pool := (pool.requeueRejected envelope).2
        discarded := (pool.requeueRejected envelope).1.toList } where
  wellFormed := wellFormed_of_none hcur'
  accounts := by
    have hheld' : t'.held = [] := by simp only [held, hcur', Option.toList_none]
    have hbuf := pool.requeueRejected_buffer envelope
    simpa only [Accounts, hheld, hheld', Multiset.coe_singleton, Multiset.coe_nil, add_zero]
      using hbuf
  lost := rfl
  cancelToken := cancelToken_requeueRejected envelope
  handedBack _ e he := by
    rw [hheld] at he
    rw [List.mem_singleton.mp he]
    exact head?_requeueRejected envelope

/-- Handing back the current envelope. -/
theorem requeueCurrent_keeps {ends : Bool} (hheld : t.held = t.currentEnvelope.toList) :
    t.Keeps pool (t.requeueCurrent pool ends) := by
  cases hcur : t.currentEnvelope with
  | none =>
      rw [hcur] at hheld
      simp only [requeueCurrent, hcur]
      refine keeps_of_held_eq (wellFormed_of_none rfl) ?_ fun _ => hheld
      rw [hheld]
      cases ends <;> simp [held]
  | some envelope =>
      rw [hcur] at hheld
      simp only [requeueCurrent, hcur]
      exact keeps_of_requeueRejected hheld rfl nofun

/-- The state of the handshake does not matter to what a task holds. -/
theorem Keeps.of_state {state : ListenerState} (h : { t with state }.Keeps pool o) :
    t.Keeps pool o :=
  ⟨h.wellFormed, h.accounts, h.lost, h.cancelToken, h.handedBack⟩

/-- The header of a `RESULT`. -/
theorem onResultHeader_keeps (hbusy : t.state = .busy)
    (hheld : t.held = t.currentEnvelope.toList) (line : String) :
    t.Keeps pool (t.onResultHeader pool line) := by
  have hunknown : ({ t with state := .unknown } : WireTask).Keeps pool
      (requeueCurrent { t with state := .unknown } pool false) :=
    requeueCurrent_keeps hheld
  simp only [onResultHeader]
  split
  · split
    next expectedLen _ =>
      split
      · exact hunknown.of_state
      · exact keeps_of_held_eq (fun _ => ⟨hbusy, .inr ⟨expectedLen, rfl⟩⟩) hheld.symm nofun
    next => exact hunknown.of_state
  · exact hunknown.of_state

/-- The body of a `RESULT`: an `OK` acknowledges the event. -/
theorem onResultBody_keeps (hheld : t.held = t.currentEnvelope.toList)
    (body : Except String (List UInt8)) : t.Keeps pool (t.onResultBody pool body) := by
  simp only [onResultBody]
  split
  · split
    · refine ⟨wellFormed_of_none rfl, ?_, rfl, rfl, nofun⟩
      rw [Accounts, hheld]
      simp [held]
    · exact (requeueCurrent_keeps (t := { t with state := .acknowledged }) hheld).of_state
  · exact (requeueCurrent_keeps (t := { t with state := .unknown }) hheld).of_state

/-- A well-formed task outside `busy`, or away from the reads of a `RESULT`, has no current
envelope. -/
theorem WellFormed.current_eq_none (hwf : t.WellFormed)
    (h : t.state ≠ .busy ∨ t.pc ≠ .awaiting ∧ ∀ n, t.pc ≠ .body n) :
    t.currentEnvelope = none := by
  by_contra hne
  obtain ⟨hbusy, hpc⟩ := hwf hne
  rcases h with hstate | ⟨hawaiting, hbody⟩
  · exact hstate hbusy
  · rcases hpc with hpc | ⟨n, hpc⟩
    · exact hawaiting hpc
    · exact hbody n hpc

/-- A line. -/
theorem onLine_keeps (hwf : t.WellFormed) (hpc : ∀ e, t.pc ≠ .writing e)
    {line : Except String String} (h : t.onLine pool line = some o) : t.Keeps pool o := by
  have hheld : t.held = t.currentEnvelope.toList := by
    simp only [held]
  simp only [onLine] at h
  split at h
  next => cases h
  next =>
    split at h
    next =>
      cases h
      exact requeueCurrent_keeps hheld
    next line =>
      split at h
      next =>
        cases h
        exact requeueCurrent_keeps hheld
      next =>
        split at h
        next hstate =>
          have hcur := hwf.current_eq_none (.inl (by rw [hstate]; nofun))
          split at h
          · cases h
            exact keeps_of_current_eq_none hcur hpc hcur nofun
          · cases h
            exact keeps_of_current_eq_none hcur hpc hcur nofun
        next hstate =>
          have hcur := hwf.current_eq_none (.inl (by rw [hstate]; nofun))
          cases h
          exact keeps_of_current_eq_none hcur hpc hcur nofun
        next hstate =>
          cases h
          exact onResultHeader_keeps hstate hheld line
        next => cases h

/-- The attempt to pop. -/
theorem pop_keeps (hwf : t.WellFormed) (h : t.step pool .pop = some o) : t.Keeps pool o := by
  simp only [step] at h
  split at h
  next hready =>
    have hcur := hwf.current_eq_none (.inl (by rw [hready.1]; nofun))
    have hheld : t.held = [] := by simp only [held, hready.2, hcur, Option.toList_none]
    have hbuf := pool.popNextEvent_buffer
    split at h
    next envelope pool' hpop =>
      rw [hpop] at hbuf
      cases h
      refine ⟨wellFormed_of_none hcur, ?_, rfl,
        (congrArg (fun r => r.2.cancelToken) hpop).symm, nofun⟩
      rw [Accounts, hheld]
      simpa [held, hcur] using hbuf
    next pool' hpop =>
      rw [hpop] at hbuf
      cases h
      refine ⟨wellFormed_of_none hcur, ?_, rfl,
        (congrArg (fun r => r.2.cancelToken) hpop).symm, nofun⟩
      rw [Accounts, hheld]
      simpa [held, hcur] using hbuf
  next => cases h

/-- The end of a write: a failed write hands the event back. -/
theorem written_keeps (hwf : t.WellFormed) {ok : Bool} (h : t.step pool (.written ok) = some o) :
    t.Keeps pool o := by
  simp only [step] at h
  split at h
  next envelope hpc =>
    have hcur := hwf.current_eq_none (.inr (by rw [hpc]; exact ⟨nofun, nofun⟩))
    have hheld : t.held = [envelope] := by simp only [held, hpc, hcur, Option.toList_none]
    split at h
    next =>
      cases h
      exact keeps_of_held_eq (fun _ => ⟨rfl, .inl rfl⟩) hheld.symm nofun
    next =>
      cases h
      exact keeps_of_requeueRejected hheld hcur nofun
  next => cases h

/-- Every step of a wire task but the notice of a cancellation. -/
theorem step_keeps (hwf : t.WellFormed) {input : WireInput} (h : t.step pool input = some o)
    (hinput : input ≠ .cancelled) : t.Keeps pool o := by
  cases input with
  | lineRead line =>
      simp only [step] at h
      split at h
      next hpc => exact onLine_keeps hwf (by rw [hpc]; nofun) h
      next hpc => exact onLine_keeps hwf (by rw [hpc]; nofun) h
      next => cases h
  | pop => exact pop_keeps hwf h
  | register =>
      simp only [step] at h
      split at h
      next hpc =>
        have hcur := hwf.current_eq_none (.inr (by rw [hpc]; exact ⟨nofun, nofun⟩))
        cases h
        exact keeps_of_current_eq_none hcur (by rw [hpc]; nofun) hcur nofun
      next => cases h
  | resume =>
      simp only [step] at h
      split at h
      next hpc =>
        have hcur := hwf.current_eq_none (.inr (by rw [hpc]; exact ⟨nofun, nofun⟩))
        cases h
        exact keeps_of_current_eq_none hcur (by rw [hpc]; nofun) hcur nofun
      next => cases h
  | written ok => exact written_keeps hwf h
  | bodyRead body =>
      simp only [step] at h
      split at h
      next expectedLen hpc =>
        have hheld : t.held = t.currentEnvelope.toList := by
          simp only [held, hpc]
        split at h
        next bytes =>
          split at h
          next =>
            obtain rfl := Option.some.inj h
            exact onResultBody_keeps hheld (.ok bytes)
          next => cases h
        next e =>
          obtain rfl := Option.some.inj h
          exact onResultBody_keeps hheld (.error e)
      next => cases h
  | notify =>
      simp only [step] at h
      split at h
      next ends hpc =>
        have hcur := hwf.current_eq_none (.inr (by rw [hpc]; exact ⟨nofun, nofun⟩))
        cases h
        refine keeps_of_current_eq_none hcur (by rw [hpc]; nofun) hcur ?_
        cases ends <;> nofun
      next => cases h
  | cancelled => exact absurd rfl hinput

/-- A task that notices a cancellation ends and drops what it holds. -/
theorem outcome_of_cancelled (h : t.step pool .cancelled = some o) :
    t.isCancelled pool = true ∧
      o = { task := { t with currentEnvelope := none, pc := .ended }, pool, lost := t.held } := by
  simp only [step] at h
  split at h
  all_goals first
    | cases h
    | simp only [Option.ite_none_right_eq_some, Option.some.injEq] at h
      exact ⟨h.1, h.2.symm⟩

theorem WellFormed.notified (hwf : t.WellFormed) : t.notified.WellFormed := by
  simp only [WireTask.notified]
  split
  next w hpc =>
    exact wellFormed_of_none (hwf.current_eq_none (.inr (by rw [hpc]; exact ⟨nofun, nofun⟩)))
  next => exact hwf

/-- A well-formed task holds at most one event. -/
theorem WellFormed.length_held (hwf : t.WellFormed) : t.held.length ≤ 1 := by
  simp only [held]
  split
  next envelope hpc =>
    rw [hwf.current_eq_none (.inr (by rw [hpc]; exact ⟨nofun, nofun⟩))]
    simp
  next => cases t.currentEnvelope <;> simp

/-- A task that has ended holds nothing. -/
theorem WellFormed.held_ended (hwf : t.WellFormed) (h : t.pc = .ended) : t.held = [] := by
  simp only [held, h]
  rw [hwf.current_eq_none (.inr (by rw [h]; exact ⟨nofun, nofun⟩))]
  rfl

/-- A call of `notify_waiters` moves no event. -/
@[simp]
theorem held_notified : t.notified.held = t.held := by
  simp only [notified]
  split <;> simp [held, *]

end WireTask

/-! ## The pool and its tasks -/

namespace PoolSystem

/-- The events held by the wire tasks. -/
def inFlight (s : PoolSystem) : Multiset EventEnvelope :=
  (s.tasks.map fun t => (t.held : Multiset EventEnvelope)).sum

/-- Every task is well formed and every accepted event is accounted for. -/
structure Accounted (s : PoolSystem) : Prop where
  wellFormed : ∀ t ∈ s.tasks, t.WellFormed
  accounted : s.accepted = s.pool.buffer + s.inFlight + s.acked + s.discarded + s.lost

variable {s s' : PoolSystem} {l : Label}

/-- What a step of the `i`-th wire task does to the pool system. -/
theorem next_task {i : ℕ} {input : WireInput} (h : s.next (.task i input) = some s') :
    ∃ t o, s.tasks[i]? = some t ∧ t.step s.pool input = some o ∧
      s' = { s with
        pool := o.pool
        tasks := if o.notifies then (s.tasks.set i o.task).map WireTask.notified
          else s.tasks.set i o.task
        acked := s.acked + o.acked
        discarded := s.discarded + o.discarded
        lost := s.lost + o.lost } := by
  simp only [next] at h
  split at h
  next t ht =>
    split at h
    next o ho => exact ⟨t, o, ht, ho, (Option.some.inj h).symm⟩
    next => cases h
  next => cases h

/-- A call of `notify_waiters` changes neither what the tasks hold nor that they are well formed. -/
theorem inFlight_notified (tasks : List WireTask) :
    ((tasks.map WireTask.notified).map fun t => (t.held : Multiset EventEnvelope)).sum =
      (tasks.map fun t => (t.held : Multiset EventEnvelope)).sum := by
  simp only [List.map_map, Function.comp_def, WireTask.held_notified]

/-- A step of a wire task is accounted for. -/
theorem accounted_task {i : ℕ} {input : WireInput} (hs : s.Accounted)
    (h : s.next (.task i input) = some s') : s'.Accounted := by
  obtain ⟨t, o, ht, ho, rfl⟩ := next_task h
  have hwf := hs.wellFormed t (List.mem_of_getElem? ht)
  have hspec : o.task.WellFormed ∧ t.Accounts s.pool o := by
    by_cases hinput : input = .cancelled
    · subst hinput
      obtain ⟨-, rfl⟩ := WireTask.outcome_of_cancelled ho
      exact ⟨WireTask.wellFormed_of_none rfl, by simp [WireTask.Accounts, WireTask.held]⟩
    · have hkeeps := WireTask.step_keeps hwf ho hinput
      exact ⟨hkeeps.wellFormed, hkeeps.accounts⟩
  have hwfset : ∀ u ∈ s.tasks.set i o.task, u.WellFormed := by
    intro u hu
    rcases List.mem_or_eq_of_mem_set hu with hu | rfl
    · exact hs.wellFormed u hu
    · exact hspec.1
  have hset := List.sum_map_set (fun t => (t.held : Multiset EventEnvelope)) o.task ht
  refine ⟨?_, ?_⟩
  · intro u hu
    simp only at hu
    split at hu
    · obtain ⟨v, hv, rfl⟩ := List.mem_map.mp hu
      exact (hwfset v hv).notified
    · exact hwfset u hu
  · have hflight : ((if o.notifies then (s.tasks.set i o.task).map WireTask.notified
        else s.tasks.set i o.task).map fun t => (t.held : Multiset EventEnvelope)).sum =
          ((s.tasks.set i o.task).map fun t => (t.held : Multiset EventEnvelope)).sum := by
      split
      · exact inFlight_notified _
      · rfl
    have hacc := hs.accounted
    have hstep := hspec.2
    simp only [inFlight, WireTask.Accounts] at hacc hstep ⊢
    rw [hflight]
    -- Both sides are compared event by event.
    ext e
    have hacc := congrArg (Multiset.count e) hacc
    have hstep := congrArg (Multiset.count e) hstep
    have hset := congrArg (Multiset.count e) hset
    simp only [Multiset.count_add] at hacc hstep hset ⊢
    omega

/-- Every step is accounted for. -/
theorem accounted_next (hs : s.Accounted) (h : s.next l = some s') : s'.Accounted := by
  cases l with
  | number eventName payload =>
      simp only [next, Option.ite_none_right_eq_some, Option.some.injEq] at h
      obtain ⟨-, rfl⟩ := h
      exact ⟨hs.wellFormed, hs.accounted⟩
  | numberElsewhere =>
      cases h
      exact ⟨hs.wellFormed, hs.accounted⟩
  | insert i =>
      simp only [next] at h
      split at h
      next envelope _ =>
        cases h
        have hbuf := s.pool.insertAccepted_buffer envelope
        have hacc := hs.accounted
        refine ⟨hs.wellFormed, ?_⟩
        simp only [inFlight] at hacc ⊢
        rw [hacc]
        ext e
        have hbuf := congrArg (Multiset.count e) hbuf
        simp only [Multiset.count_add] at hbuf ⊢
        omega
      next => cases h
  | notify =>
      simp only [next] at h
      split at h
      next => cases h
      next =>
        cases h
        refine ⟨?_, ?_⟩
        · intro u hu
          obtain ⟨v, hv, rfl⟩ := List.mem_map.mp hu
          exact (hs.wellFormed v hv).notified
        · rw [hs.accounted]
          simp only [inFlight, inFlight_notified]
  | spawn =>
      cases h
      refine ⟨?_, ?_⟩
      · intro u hu
        rcases List.mem_append.mp hu with hu | hu
        · exact hs.wellFormed u hu
        · rw [List.mem_singleton.mp hu]
          exact WireTask.wellFormed_of_none rfl
      · rw [hs.accounted]
        simp [inFlight, WireTask.held, WireTask.new]
  | cancelChild i =>
      simp only [next] at h
      split at h
      next t ht =>
        cases h
        refine ⟨?_, ?_⟩
        · intro u hu
          rcases List.mem_or_eq_of_mem_set hu with hu | rfl
          · exact hs.wellFormed u hu
          · exact hs.wellFormed t (List.mem_of_getElem? ht)
        · have hset := List.sum_map_set (fun t => (t.held : Multiset EventEnvelope))
            { t with cancelToken := true } ht
          have hsame := add_right_cancel hset
          have hacc := hs.accounted
          simp only [inFlight] at hacc ⊢
          rw [hacc, hsame]
      next => cases h
  | cancelPool =>
      cases h
      exact ⟨hs.wellFormed, hs.accounted⟩
  | task i input => exact accounted_task hs h

/-- In every reachable state the accepted events are the buffered ones, those held by a wire task,
the acknowledged, the discarded and the lost ones. -/
theorem accounting_of_reachable {poolName serverIdentifier : String} {events : List String}
    {bufferSize : ℕ} {G : PoolSystem → Label → Prop}
    (h : (system poolName serverIdentifier events bufferSize).ReachableWhile G s) :
    s.Accounted := by
  refine TransitionSystem.ReachableWhile.invariant ?_ ?_ h
  · rintro _ rfl
    exact ⟨nofun, rfl⟩
  · intro s l t _ hs _ hst
    exact accounted_next hs hst

/-! ## No event is lost -/

/-- A wire task notices the cancellation of its child while it holds an event. -/
def DropsEvent (s : PoolSystem) : Label → Prop
  | .task i .cancelled =>
      s.pool.cancelToken = false ∧ (s.tasks[i]?.any fun t => !t.held.isEmpty) = true
  | _ => False

instance (s : PoolSystem) (l : Label) : Decidable (s.DropsEvent l) := by
  unfold DropsEvent
  split <;> infer_instance

/-- While the pool is not cancelled nothing is lost, if no task drops an event. -/
def NothingLost (s : PoolSystem) : Prop :=
  s.pool.cancelToken = false → s.lost = 0

theorem nothingLost_next (hl : ¬ s.DropsEvent l) (hwf : ∀ t ∈ s.tasks, t.WellFormed)
    (hs : s.NothingLost) (h : s.next l = some s') : s'.NothingLost := by
  cases l with
  | number eventName payload =>
      simp only [next, Option.ite_none_right_eq_some, Option.some.injEq] at h
      obtain ⟨-, rfl⟩ := h
      exact hs
  | numberElsewhere =>
      cases h
      exact hs
  | insert i =>
      simp only [next] at h
      split at h
      next envelope _ =>
        cases h
        intro hcancel
        refine hs (Eq.trans ?_ hcancel)
        simp only [EventListenerPoolInner.insertAccepted]
        split <;> rfl
      next => cases h
  | notify =>
      simp only [next] at h
      split at h
      next => cases h
      next =>
        cases h
        exact hs
  | spawn =>
      cases h
      exact hs
  | cancelChild i =>
      simp only [next] at h
      split at h
      next t ht =>
        cases h
        exact hs
      next => cases h
  | cancelPool =>
      cases h
      exact nofun
  | task i input =>
      obtain ⟨t, o, ht, ho, rfl⟩ := next_task h
      intro hcancel
      by_cases hinput : input = .cancelled
      · subst hinput
        obtain ⟨-, rfl⟩ := WireTask.outcome_of_cancelled ho
        have hheld : t.held = [] := by
          by_contra hne
          refine hl ⟨hcancel, ?_⟩
          simp [ht, hne]
        simp only [hheld, hs hcancel, Multiset.coe_nil, add_zero]
      · have hkeeps := WireTask.step_keeps (hwf t (List.mem_of_getElem? ht)) ho hinput
        have hlost := hs (hkeeps.cancelToken.symm.trans hcancel)
        simp only [hkeeps.lost, hlost, Multiset.coe_nil, add_zero]

/-- Where a wire task stands behind its own step, when it leaves its loop. -/
theorem pc_of_task {i : ℕ} {t t' : WireTask} {o : WireOutcome} (ht : s.tasks[i]? = some t)
    (ht' : (if o.notifies then (s.tasks.set i o.task).map WireTask.notified
      else s.tasks.set i o.task)[i]? = some t') (hends : t'.pc = .ended ∨ t'.pc = .notifying true) :
    o.task.pc = t'.pc := by
  have hlen : i < s.tasks.length := (List.getElem?_eq_some_iff.mp ht).1
  split at ht'
  · simp only [List.getElem?_map, List.getElem?_set_self hlen, Option.map_some,
      Option.some.injEq] at ht'
    subst ht'
    simp only [WireTask.notified] at hends ⊢
    split
    next w hpc =>
      rw [hpc] at hends
      rcases hends with hends | hends <;> cases hends
    next => rfl
  · simp only [List.getElem?_set_self hlen, Option.some.injEq] at ht'
    rw [ht']

/-- In every execution in which no wire task notices the cancellation of its child while it holds an
event, and as long as the pool is not cancelled, each accepted event is in exactly one place: in the
buffer, held by one wire task that has not ended, acknowledged, or discarded by an overflow. A wire
task that leaves its loop has handed the event it held back to the buffer. -/
theorem delivery_of_reachable {poolName serverIdentifier : String} {events : List String}
    {bufferSize : ℕ}
    (h : (system poolName serverIdentifier events bufferSize).ReachableWhile
      (fun s l => ¬ s.DropsEvent l) s)
    (hcancel : s.pool.cancelToken = false) :
    s.accepted = s.pool.buffer + s.inFlight + s.acked + s.discarded ∧
      (∀ t ∈ s.tasks, t.held.length ≤ 1 ∧ (t.pc = .ended → t.held = [])) ∧
      ∀ i input s' t t', ¬ s.DropsEvent (.task i input) → s.next (.task i input) = some s' →
        s.tasks[i]? = some t → s'.tasks[i]? = some t' →
        t'.pc = .ended ∨ t'.pc = .notifying true →
        ∀ e ∈ t.held, s'.pool.buffer.head? = some e := by
  have hacc := accounting_of_reachable h
  have hlost : s.NothingLost := by
    refine TransitionSystem.ReachableWhile.invariant (I := NothingLost) ?_ ?_ h
    · rintro _ rfl
      exact fun _ => rfl
    · intro s l t hreach hs hl hst
      exact nothingLost_next hl (accounting_of_reachable hreach).wellFormed hs hst
  refine ⟨?_, ?_, ?_⟩
  · have haccepted := hacc.accounted
    rwa [hlost hcancel, add_zero] at haccepted
  · intro t ht
    have hwf := hacc.wellFormed t ht
    exact ⟨hwf.length_held, hwf.held_ended⟩
  · intro i input s' t t' hdrop hnext ht ht' hends e he
    obtain ⟨u, o, hu, ho, rfl⟩ := next_task hnext
    rw [ht] at hu
    cases hu
    have hwf := hacc.wellFormed t (List.mem_of_getElem? ht)
    by_cases hinput : input = .cancelled
    · subst hinput
      refine absurd ⟨hcancel, ?_⟩ hdrop
      simp [ht, List.ne_nil_of_mem he]
    · have hkeeps := WireTask.step_keeps hwf ho hinput
      refine hkeeps.handedBack ?_ e he
      rw [pc_of_task ht ht' hends]
      exact hends

/-- A pool that is subscribed to every event. -/
abbrev everyEvent : TransitionSystem PoolSystem Label := system "pool" "host" ["EVENT"] 1

/-- The account at work: an event is delivered and rejected, so that it is buffered again when the
listener process exits. -/
theorem delivery_after_rejection :
    ∃ s, everyEvent.Reachable s ∧ s.pool.buffer = [⟨0, 0, "pool", "TICK_5", "when:0"⟩] ∧
      s.accepted = s.pool.buffer + s.inFlight + s.acked + s.discarded := by
  obtain ⟨s, hreach, hcancel, hbuffer⟩ := TransitionSystem.exists_reachableWhile
    (G := fun s l => ¬ s.DropsEvent l)
    (i := new (.new "pool" "host" ["EVENT"] 1)) (f := next)
    (fun s => s.pool.cancelToken = false ∧
      s.pool.buffer = [⟨0, 0, "pool", "TICK_5", "when:0"⟩])
    [.spawn, .number "TICK_5" "when:0", .insert 0, .notify, .task 0 (.lineRead (.ok "READY\n")),
      .task 0 .notify, .task 0 .pop, .task 0 (.written true),
      .task 0 (.lineRead (.ok "RESULT 4\n")), .task 0 (.bodyRead (.ok [70, 65, 73, 76])),
      .task 0 .notify, .cancelChild 0, .task 0 .cancelled] (by decide)
  exact ⟨s, hreach.reachable, hbuffer, (delivery_of_reachable hreach hcancel).1⟩

/-- Without the condition an event is lost: the listener process is stopped while the event is
written to it. -/
theorem exists_lost_event :
    ∃ s, everyEvent.Reachable s ∧ s.pool.cancelToken = false ∧
      s.accepted ≠ s.pool.buffer + s.inFlight + s.acked + s.discarded :=
  TransitionSystem.exists_reachableWhile (G := fun _ _ => True)
    (i := new (.new "pool" "host" ["EVENT"] 1)) (f := next)
    (fun s => s.pool.cancelToken = false ∧
      s.accepted ≠ s.pool.buffer + s.inFlight + s.acked + s.discarded)
    [.spawn, .number "TICK_5" "when:0", .insert 0, .notify, .task 0 (.lineRead (.ok "READY\n")),
      .task 0 .notify, .task 0 .pop, .cancelChild 0, .task 0 .cancelled] (by decide)

end PoolSystem

end Rsupervisord
