import Rsupervisord.EventListener.Pool
import Rsupervisord.Support.Transducer

/-!
# Runs of an event listener pool

The operations on a pool, one after the other, by the task that accepts events and by listeners that
requeue or acknowledge what they popped last.

* `PoolUsers.InOrder`: what a single listener sees of its pool.
* `PoolUsers.inOrder_of_few`: it holds in every run in which the 64-bit pool serial does not start
  again.
-/

namespace Rsupervisord

/-- A pool and, for each of its listeners, the event popped last and not answered yet. -/
structure PoolUsers (L : Type) where
  pool : EventListenerPoolInner
  inFlight : L → Option EventEnvelope

/-- An operation on the pool, or the answer of a listener. -/
inductive PoolOp (L : Type)
  | accept (globalSerial : ℕ) (eventName payload : String)
  | pop (listener : L)
  | requeue (listener : L)
  | acknowledge (listener : L)

/-- What becomes of an event. -/
inductive PoolNote
  | accepted (envelope : EventEnvelope)
  | delivered (envelope : EventEnvelope)
  | requeued (envelope : EventEnvelope)
  | acknowledged (envelope : EventEnvelope)
  | discarded (envelope : EventEnvelope)
  deriving DecidableEq, Repr

namespace PoolUsers

variable {L : Type} [DecidableEq L]

/-- The pool is new and no event is in flight. -/
def new (poolName serverIdentifier : String) (events : List String) (bufferSize : ℕ) :
    PoolUsers L where
  pool := .new poolName serverIdentifier events bufferSize
  inFlight _ := none

/-- One operation. -/
def step (s : PoolUsers L) : PoolOp L → PoolUsers L × List PoolNote
  | .accept globalSerial eventName payload =>
      if eventMatchesSubscription eventName s.pool.events then
        let (envelope, pool) := s.pool.number globalSerial eventName payload
        let (discarded, pool) := pool.insertAccepted envelope
        ({ s with pool }, .accepted envelope :: discarded.toList.map .discarded)
      else (s, [])
  | .pop listener =>
      match s.pool.popNextEvent with
      | (some envelope, pool) =>
          (⟨pool, Function.update s.inFlight listener (some envelope)⟩, [.delivered envelope])
      | (none, _) => (s, [])
  | .requeue listener =>
      match s.inFlight listener with
      | some envelope =>
          let (discarded, pool) := s.pool.requeueRejected envelope
          (⟨pool, Function.update s.inFlight listener none⟩,
            .requeued envelope :: discarded.toList.map .discarded)
      | none => (s, [])
  | .acknowledge listener =>
      match s.inFlight listener with
      | some envelope =>
          ({ s with inFlight := Function.update s.inFlight listener none },
            [.acknowledged envelope])
      | none => (s, [])

/-- The pool with its users. -/
def machine (L : Type) [DecidableEq L] : Transducer (PoolUsers L) (PoolOp L) PoolNote where
  next := step

/-- The event that was accepted. -/
def acceptedOf : PoolNote → Option EventEnvelope
  | .accepted envelope => some envelope
  | _ => none

/-- Of what happens to events, the first may come before the second: deliveries go on to later
events or repeat one, and after an acknowledgement only later events are delivered. -/
def Precedes : PoolNote → PoolNote → Prop
  | .delivered e, .delivered e' => e.poolSerial ≤ e'.poolSerial
  | .acknowledged e, .delivered e' => e.poolSerial < e'.poolSerial
  | _, _ => True

/-- The events of a single listener and its pool that may still be delivered. -/
def held (s : PoolUsers Unit) : List EventEnvelope := (s.inFlight ()).toList ++ s.pool.buffer

/-- What a single listener sees of its pool in a run. -/
structure InOrder (s : PoolUsers Unit) (ops : List (PoolOp Unit)) : Prop where
  /-- The buffer never exceeds its size. -/
  bounded : ∀ before behind, ops = before ++ behind →
    ((machine Unit).after s before).pool.buffer.length ≤
    ((machine Unit).after s before).pool.bufferSize
  /-- The event in flight and the buffered ones have increasing serials. -/
  increasing : ∀ before behind, ops = before ++ behind →
    (held ((machine Unit).after s before)).Pairwise (·.poolSerial < ·.poolSerial)
  /-- Deliveries are in the order of the serials, and what was acknowledged is not delivered
  again. -/
  delivered : ((machine Unit).outputs s ops).Pairwise Precedes
  /-- A requeued event is delivered next, unless it is discarded before. -/
  redelivered : ∀ before behind e, ops = before ++ .requeue () :: behind →
    ((machine Unit).after s before).inFlight () = some e →
    ∀ earlier e' later,
      (machine Unit).outputs ((machine Unit).after s (before ++ [.requeue ()])) behind =
        earlier ++ .delivered e' :: later →
      (∀ d, .delivered d ∉ earlier) → e' = e ∨ .discarded e ∈ earlier

/-- How often an event is accepted. -/
def countAccepted (notes : List PoolNote) : ℕ := (notes.filterMap acceptedOf).length

/-- What happened to an event, seen from what may still be delivered and from the number of events
accepted so far. -/
def Past (n : ℕ) (s : PoolUsers Unit) : PoolNote → Prop
  | .delivered e => e.poolSerial < n ∧ ∀ e' ∈ held s, e.poolSerial ≤ e'.poolSerial
  | .acknowledged e => e.poolSerial < n ∧ ∀ e' ∈ held s, e.poolSerial < e'.poolSerial
  | _ => True

/-- The invariant of a single listener and its pool after `n` accepted events: what may be delivered
is in order, is of those `n`, and comes behind what happened before. -/
structure Consistent (n : ℕ) (notes : List PoolNote) (s : PoolUsers Unit) : Prop where
  size : 1 ≤ s.pool.bufferSize
  bounded : s.pool.buffer.length ≤ s.pool.bufferSize
  increasing : (held s).Pairwise (·.poolSerial < ·.poolSerial)
  counter : s.pool.poolSerial = n % 2 ^ 64
  below : ∀ e ∈ held s, e.poolSerial < n
  past : ∀ note ∈ notes, Past n s note
  ordered : notes.Pairwise Precedes

variable {n : ℕ} {notes : List PoolNote} {s : PoolUsers Unit} {op : PoolOp Unit} {e : EventEnvelope}

theorem held_update {pool : EventListenerPoolInner} {inFlight : Unit → Option EventEnvelope}
    {flying : Option EventEnvelope} :
    held ⟨pool, Function.update inFlight () flying⟩ = flying.toList ++ pool.buffer :=
  congrArg (·.toList ++ pool.buffer) (Function.update_self () flying inFlight)

/-! ## One operation -/

/-- What may be delivered after an operation may have been delivered before, or was accepted by
it. -/
theorem Past.mono {s' : PoolUsers Unit} {n' : ℕ} {note : PoolNote} (h : Past n s note) (hn : n ≤ n')
    (hheld : ∀ e ∈ held s', e ∈ held s ∨ n ≤ e.poolSerial) : Past n' s' note := by
  cases note with
  | delivered d =>
    refine ⟨Nat.lt_of_lt_of_le h.1 hn, fun e he => ?_⟩
    obtain hold | hnew := hheld e he
    · exact h.2 e hold
    · exact Nat.le_of_lt (Nat.lt_of_lt_of_le h.1 hnew)
  | acknowledged d =>
    refine ⟨Nat.lt_of_lt_of_le h.1 hn, fun e he => ?_⟩
    obtain hold | hnew := hheld e he
    · exact h.2 e hold
    · exact Nat.lt_of_lt_of_le h.1 hnew
  | accepted => trivial
  | requeued => trivial
  | discarded => trivial

/-- The locked section of an acceptance: the buffer stays within its size, and what is in it was
there or is the new event, in this order. -/
theorem insertAccepted_spec (p : EventListenerPoolInner) (hsize : 1 ≤ p.bufferSize)
    (hbounded : p.buffer.length ≤ p.bufferSize) :
    ∃ buffer, (p.insertAccepted e).2 = { p with buffer := buffer } ∧
      buffer.length ≤ p.bufferSize ∧ buffer.Sublist (p.buffer ++ [e]) := by
  unfold EventListenerPoolInner.insertAccepted
  split
  · refine ⟨p.buffer.tail ++ [e], rfl, ?_, (List.tail_sublist _).append_right [e]⟩
    rw [List.length_append, List.length_tail, List.length_singleton]
    omega
  next hroom =>
    refine ⟨p.buffer ++ [e], rfl, ?_, List.Sublist.refl _⟩
    rw [List.length_append, List.length_singleton]
    omega

/-- The locked section of a redelivery: the buffer stays within its size, and behind the requeued
event is what was there. -/
theorem requeueRejected_spec (p : EventListenerPoolInner) (hsize : 1 ≤ p.bufferSize)
    (hbounded : p.buffer.length ≤ p.bufferSize) :
    ∃ buffer, (p.requeueRejected e).2 = { p with buffer := e :: buffer } ∧
      buffer.length < p.bufferSize ∧ buffer.Sublist p.buffer := by
  unfold EventListenerPoolInner.requeueRejected
  split
  · refine ⟨p.buffer.dropLast, rfl, ?_, List.dropLast_sublist _⟩
    rw [List.length_dropLast]
    omega
  next hroom => exact ⟨p.buffer, rfl, Nat.lt_of_not_le hroom, List.Sublist.refl _⟩

/-- Only a delivery depends on what came before. -/
theorem pairwise_append_of_not_delivered {more : List PoolNote} (h : notes.Pairwise Precedes)
    (hmore : ∀ d, .delivered d ∉ more) : (notes ++ more).Pairwise Precedes := by
  have hprecedes : ∀ note', ∀ note ∈ more, Precedes note' note := by
    intro note' note hnote
    cases note with
    | delivered d => exact absurd hnote (hmore d)
    | accepted => cases note' <;> trivial
    | requeued => cases note' <;> trivial
    | acknowledged => cases note' <;> trivial
    | discarded => cases note' <;> trivial
  refine List.pairwise_append.mpr ⟨h, ?_, fun note' _ note hnote => hprecedes note' note hnote⟩
  exact List.Pairwise.imp_of_mem (fun _ hnote _ =>
    hprecedes _ _ hnote) (List.pairwise_of_forall fun _ _ => trivial)

/-- An event is accepted. -/
theorem Consistent.accepted {globalSerial : ℕ} {eventName payload : String}
    (h : Consistent n notes s)
    (hn : n < 2 ^ 64) (hmatch : eventMatchesSubscription eventName s.pool.events = true) :
    ∃ e, ∃ discarded : Option EventEnvelope, (step s (.accept globalSerial eventName payload)).2 =
        .accepted e :: discarded.toList.map .discarded ∧
      Consistent (n + 1) (notes ++ .accepted e :: discarded.toList.map .discarded)
        (step s (.accept globalSerial eventName payload)).1 := by
  let p : EventListenerPoolInner := (s.pool.number globalSerial eventName payload).2
  let e : EventEnvelope := (s.pool.number globalSerial eventName payload).1
  have hstep : step s (.accept globalSerial eventName payload) =
      ({ s with pool := (p.insertAccepted e).2 },
        .accepted e :: (p.insertAccepted e).1.toList.map .discarded) := if_pos hmatch
  have hserial : e.poolSerial = n := h.counter.trans (Nat.mod_eq_of_lt hn)
  obtain ⟨buffer, hbuffer, hbounded, hsublist⟩ := insertAccepted_spec (e := e) p h.size h.bounded
  rw [hstep, hbuffer]
  refine ⟨e, _, rfl, ?_⟩
  -- What may be delivered was there before, or is the new event, which has the largest serial.
  have hheld : (held ⟨{ p with buffer := buffer }, s.inFlight⟩).Sublist (held s ++ [e]) := by
    unfold held
    rw [List.append_assoc]
    exact hsublist.append_left _
  have hmem : ∀ e' ∈ held ⟨{ p with buffer := buffer }, s.inFlight⟩,
      e' ∈ held s ∨ n ≤ e'.poolSerial := by
    intro e' he'
    obtain hold | hnew := List.mem_append.mp (hheld.subset he')
    · exact .inl hold
    · rw [List.mem_singleton.mp hnew]
      exact .inr (Nat.le_of_eq hserial.symm)
  have hincreasing : (held s ++ [e]).Pairwise (·.poolSerial < ·.poolSerial) := by
    refine List.pairwise_append.mpr ⟨h.increasing, List.pairwise_singleton _ _,
      fun e' he' d hd => ?_⟩
    rw [List.mem_singleton.mp hd, hserial]
    exact h.below e' he'
  refine ⟨h.size, hbounded, hincreasing.sublist hheld, ?_, fun e' he' => ?_,
    fun note hnote => ?_, ?_⟩
  · show (s.pool.poolSerial + 1) % 2 ^ 64 = (n + 1) % 2 ^ 64
    rw [h.counter, Nat.mod_add_mod]
  · obtain hold | hnew := List.mem_append.mp (hheld.subset he')
    · exact Nat.lt_succ_of_lt (h.below e' hold)
    · rw [List.mem_singleton.mp hnew, hserial]
      exact Nat.lt_succ_self n
  · obtain hold | hnew := List.mem_append.mp hnote
    · exact (h.past note hold).mono (Nat.le_succ n) hmem
    · obtain rfl | hnew := List.mem_cons.mp hnew
      · trivial
      · obtain ⟨d, -, rfl⟩ := List.mem_map.mp hnew
        trivial
  · exact pairwise_append_of_not_delivered h.ordered fun d hd => by simp at hd

/-- The first event of the buffer is delivered. -/
theorem Consistent.popped {rest : List EventEnvelope} (h : Consistent n notes s)
    (hbuffer : s.pool.buffer = e :: rest) :
    Consistent n (notes ++ [.delivered e])
      ⟨{ s.pool with buffer := rest }, Function.update s.inFlight () (some e)⟩ := by
  have hheld : held ⟨{ s.pool with buffer := rest }, Function.update s.inFlight () (some e)⟩ =
      s.pool.buffer := held_update.trans hbuffer.symm
  have hsublist : s.pool.buffer.Sublist (held s) := List.sublist_append_right _ _
  have hfirst : e ∈ held s := hsublist.subset (hbuffer ▸ List.mem_cons_self)
  have hincreasing := h.increasing.sublist hsublist
  refine ⟨h.size, ?_, hheld ▸ hincreasing, h.counter, fun e' he' => ?_, fun note hnote => ?_, ?_⟩
  · have hbounded := h.bounded
    rw [hbuffer, List.length_cons] at hbounded
    exact Nat.le_of_succ_le hbounded
  · exact h.below e' (hsublist.subset (hheld ▸ he'))
  · obtain hold | hnew := List.mem_append.mp hnote
    · exact (h.past note hold).mono (Nat.le_refl n) fun e' he' =>
        .inl (hsublist.subset (hheld ▸ he'))
    · rw [List.mem_singleton.mp hnew]
      refine ⟨h.below e hfirst, fun e' he' => ?_⟩
      rw [hheld, hbuffer] at he'
      obtain rfl | hlater := List.mem_cons.mp he'
      · exact Nat.le_refl _
      · exact Nat.le_of_lt ((List.pairwise_cons.mp (hbuffer ▸ hincreasing)).1 e' hlater)
  · refine List.pairwise_append.mpr ⟨h.ordered, List.pairwise_singleton _ _,
      fun note hnote d hd => ?_⟩
    rw [List.mem_singleton.mp hd]
    have hpast := h.past note hnote
    cases note with
    | delivered d => exact hpast.2 e hfirst
    | acknowledged d => exact hpast.2 e hfirst
    | accepted => trivial
    | requeued => trivial
    | discarded => trivial

/-- The event in flight goes back to the head of the buffer. -/
theorem Consistent.requeued (h : Consistent n notes s) (hflight : s.inFlight () = some e)
    {discarded : List EventEnvelope} :
    Consistent n (notes ++ .requeued e :: discarded.map .discarded)
      ⟨(s.pool.requeueRejected e).2, Function.update s.inFlight () none⟩ := by
  obtain ⟨buffer, hbuffer, hlength, hsublist⟩ :=
    requeueRejected_spec (e := e) s.pool h.size h.bounded
  have hheld : (held ⟨{ s.pool with buffer := e :: buffer },
      Function.update s.inFlight () none⟩).Sublist
      (held s) := by
    rw [held_update, held, hflight]
    exact hsublist.cons_cons e
  rw [hbuffer]
  refine ⟨h.size, hlength, h.increasing.sublist hheld, h.counter,
    fun e' he' => h.below e' (hheld.subset he'), fun note hnote => ?_, ?_⟩
  · obtain hold | hnew := List.mem_append.mp hnote
    · exact (h.past note hold).mono (Nat.le_refl n) fun e' he' => .inl (hheld.subset he')
    · obtain rfl | hnew := List.mem_cons.mp hnew
      · trivial
      · obtain ⟨d, -, rfl⟩ := List.mem_map.mp hnew
        trivial
  · exact pairwise_append_of_not_delivered h.ordered fun d hd => by simp at hd

/-- The event in flight is done with: all that may be delivered comes behind it. -/
theorem Consistent.acknowledged (h : Consistent n notes s) (hflight : s.inFlight () = some e) :
    Consistent n (notes ++ [.acknowledged e]) ⟨s.pool, Function.update s.inFlight () none⟩ := by
  have hheld : held ⟨s.pool, Function.update s.inFlight () none⟩ = s.pool.buffer := held_update
  have hall : held s = e :: s.pool.buffer := by
    unfold held
    rw [hflight]
    rfl
  have hincreasing := List.pairwise_cons.mp (hall ▸ h.increasing)
  refine ⟨h.size, h.bounded, hheld ▸ hincreasing.2, h.counter, fun e' he' => ?_,
    fun note hnote => ?_, ?_⟩
  · exact h.below e' (hall ▸ List.mem_cons_of_mem e (hheld ▸ he'))
  · obtain hold | hnew := List.mem_append.mp hnote
    · exact (h.past note hold).mono (Nat.le_refl n)
        fun e' he' => .inl (hall ▸ List.mem_cons_of_mem e (hheld ▸ he'))
    · rw [List.mem_singleton.mp hnew]
      exact ⟨h.below e (hall ▸ List.mem_cons_self), fun e' he' => hincreasing.1 e' (hheld ▸ he')⟩
  · exact pairwise_append_of_not_delivered h.ordered fun d hd => by simp at hd

theorem countAccepted_append {more : List PoolNote} :
    countAccepted (notes ++ more) = countAccepted notes + countAccepted more := by
  rw [countAccepted, List.filterMap_append, List.length_append]
  rfl

theorem countAccepted_discarded {ds : List EventEnvelope} :
    countAccepted (ds.map .discarded) = 0 := by
  induction ds with
  | nil => rfl
  | cons d ds ih => exact ih

/-- Each operation keeps the invariant, as long as the serials do not start again. -/
theorem Consistent.step (h : Consistent n notes s)
    (hfew : n + countAccepted (PoolUsers.step s op).2 ≤ 2 ^ 64) :
    Consistent (n + countAccepted (PoolUsers.step s op).2) (notes ++ (PoolUsers.step s op).2)
      (PoolUsers.step s op).1 := by
  have hnothing : Consistent (n + countAccepted []) (notes ++ []) s := by
    rw [List.append_nil]
    exact h
  cases op with
  | accept globalSerial eventName payload =>
    by_cases hmatch : eventMatchesSubscription eventName s.pool.events = true
    · have hcount :
          countAccepted (PoolUsers.step s (.accept globalSerial eventName payload)).2 = 1 := by
        rw [PoolUsers.step, if_pos hmatch]
        exact congrArg (· + 1) countAccepted_discarded
      rw [hcount] at hfew ⊢
      obtain ⟨e, discarded, hnotes, hconsistent⟩ :=
        @accepted _ _ _ globalSerial eventName payload h (Nat.lt_of_succ_le hfew) hmatch
      rw [hnotes]
      exact hconsistent
    · have hstep : PoolUsers.step s (.accept globalSerial eventName payload) = (s, []) :=
        if_neg hmatch
      rw [hstep]
      exact hnothing
  | pop listener =>
    cases hbuffer : s.pool.buffer with
    | nil =>
      have hstep : PoolUsers.step s (.pop listener) = (s, []) := by
        simp [PoolUsers.step, EventListenerPoolInner.popNextEvent, hbuffer]
      rw [hstep]
      exact hnothing
    | cons e rest =>
      have hstep : PoolUsers.step s (.pop listener) =
          (⟨{ s.pool with buffer := rest }, Function.update s.inFlight () (some e)⟩,
            [.delivered e]) := by
        simp [PoolUsers.step, EventListenerPoolInner.popNextEvent, hbuffer]
      rw [hstep]
      exact h.popped hbuffer
  | requeue listener =>
    cases hflight : s.inFlight listener with
    | none =>
      have hstep : PoolUsers.step s (.requeue listener) = (s, []) := by
        simp [PoolUsers.step, hflight]
      rw [hstep]
      exact hnothing
    | some e =>
      have hstep : PoolUsers.step s (.requeue listener) =
          (⟨(s.pool.requeueRejected e).2, Function.update s.inFlight () none⟩,
            .requeued e :: (s.pool.requeueRejected e).1.toList.map .discarded) := by
        simp [PoolUsers.step, hflight]
      have hcount : countAccepted (PoolUsers.step s (.requeue listener)).2 = 0 := by
        rw [hstep]
        exact countAccepted_discarded
      rw [hcount, hstep]
      exact h.requeued hflight
  | acknowledge listener =>
    cases hflight : s.inFlight listener with
    | none =>
      have hstep : PoolUsers.step s (.acknowledge listener) = (s, []) := by
        simp [PoolUsers.step, hflight]
      rw [hstep]
      exact hnothing
    | some e =>
      have hstep : PoolUsers.step s (.acknowledge listener) =
          (⟨s.pool, Function.update s.inFlight () none⟩, [.acknowledged e]) := by
        simp [PoolUsers.step, hflight]
      rw [hstep]
      exact h.acknowledged hflight

/-! ## Runs -/

/-- The invariant holds after each run in which the serials do not start again. -/
theorem consistent_after {poolName serverIdentifier : String} {events : List String}
    {bufferSize : ℕ}
    {ops : List (PoolOp Unit)}
    (hfew : countAccepted
      ((machine Unit).outputs (new poolName serverIdentifier events bufferSize) ops) ≤
      2 ^ 64) :
    Consistent (countAccepted
      ((machine Unit).outputs (new poolName serverIdentifier events bufferSize) ops))
      ((machine Unit).outputs (new poolName serverIdentifier events bufferSize) ops)
      ((machine Unit).after (new poolName serverIdentifier events bufferSize) ops) := by
  induction ops using List.reverseRecOn with
  | nil =>
    refine ⟨Nat.le_max_right _ _, Nat.zero_le _, List.Pairwise.nil, rfl, fun e he => ?_,
      fun note hnote => ?_,
      List.Pairwise.nil⟩
    · cases he
    · cases hnote
  | append_singleton ops op ih =>
    have hlast : (machine Unit).outputs (new poolName serverIdentifier events bufferSize)
        (ops ++ [op]) =
        (machine Unit).outputs (new poolName serverIdentifier events bufferSize) ops ++
          (PoolUsers.step
            ((machine Unit).after (new poolName serverIdentifier events bufferSize) ops) op).2 := by
      rw [Transducer.outputs_append, Transducer.outputs_cons]
      exact congrArg (_ ++ ·) (List.append_nil _)
    rw [hlast, countAccepted_append] at hfew ⊢
    rw [Transducer.after_append]
    exact (ih (Nat.le_of_add_right_le hfew)).step hfew

/-- The notes that an operation leaves when nothing is in flight and `e` comes next: `e` is
discarded or stays next, or it is delivered. -/
theorem next_cases (hflight : s.inFlight () = none) (hhead : s.pool.buffer.head? = some e) :
    (∃ a, (step s op).2 = [.accepted a, .discarded e]) ∨
    (∃ rest, (step s op).2 = .delivered e :: rest) ∨
      ((∀ d, .delivered d ∉ (step s op).2) ∧ (step s op).1.inFlight () = none ∧
        (step s op).1.pool.buffer.head? = some e) := by
  obtain ⟨rest, hbuffer⟩ := List.head?_eq_some_iff.mp hhead
  cases op with
  | accept globalSerial eventName payload =>
    by_cases hmatch : eventMatchesSubscription eventName s.pool.events = true
    · let p : EventListenerPoolInner := (s.pool.number globalSerial eventName payload).2
      let a : EventEnvelope := (s.pool.number globalSerial eventName payload).1
      have hstep : step s (.accept globalSerial eventName payload) =
          ({ s with pool := (p.insertAccepted a).2 },
            .accepted a :: (p.insertAccepted a).1.toList.map .discarded) := if_pos hmatch
      have hp : p.buffer = e :: rest := hbuffer
      rw [hstep]
      by_cases hfull : p.buffer.length ≥ p.bufferSize
      · have hinsert :
            p.insertAccepted a = (p.buffer.head?, { p with buffer := p.buffer.tail ++ [a] }) :=
          if_pos hfull
        rw [hinsert, hp]
        exact .inl ⟨a, rfl⟩
      · have hinsert : p.insertAccepted a = (none, { p with buffer := p.buffer ++ [a] }) :=
          if_neg hfull
        rw [hinsert, hp]
        exact .inr (.inr ⟨by simp, hflight, rfl⟩)
    · have hstep : step s (.accept globalSerial eventName payload) = (s, []) := if_neg hmatch
      rw [hstep]
      exact .inr (.inr ⟨fun _ hd => (by cases hd), hflight, hhead⟩)
  | pop listener =>
    refine .inr (.inl ⟨[], ?_⟩)
    simp [step, EventListenerPoolInner.popNextEvent, hhead]
  | requeue listener =>
    have hstep : step s (.requeue listener) = (s, []) := by
      simp [step, hflight]
    rw [hstep]
    exact .inr (.inr ⟨fun _ hd => (by cases hd), hflight, hhead⟩)
  | acknowledge listener =>
    have hstep : step s (.acknowledge listener) = (s, []) := by
      simp [step, hflight]
    rw [hstep]
    exact .inr (.inr ⟨fun _ hd => (by cases hd), hflight, hhead⟩)

/-- What comes next is delivered next, unless it is discarded before. -/
theorem delivered_next {ops : List (PoolOp Unit)} (hflight : s.inFlight () = none)
    (hhead : s.pool.buffer.head? = some e) {earlier later : List PoolNote} {e' : EventEnvelope}
    (houtputs : (machine Unit).outputs s ops = earlier ++ .delivered e' :: later)
    (hnone : ∀ d, .delivered d ∉ earlier) : e' = e ∨ .discarded e ∈ earlier := by
  induction ops generalizing s earlier with
  | nil =>
    have hmem : .delivered e' ∈ (machine Unit).outputs s [] := by
      rw [houtputs]
      exact List.mem_append_right _ List.mem_cons_self
    cases hmem
  | cons op ops ih =>
    rw [Transducer.outputs_cons] at houtputs
    obtain ⟨a, hnotes⟩ | ⟨rest, hnotes⟩ | ⟨hsilent, hflight', hhead'⟩ :=
      @next_cases s op e hflight hhead
    · -- Behind the acceptance and the discarding there may be a delivery.
      rw [show (machine Unit).next s op = step s op from rfl, hnotes] at houtputs
      obtain _ | ⟨first, _ | ⟨second, earlier⟩⟩ := earlier
      · cases (List.cons.inj houtputs).1
      · cases (List.cons.inj (List.cons.inj houtputs).2).1
      · obtain ⟨-, hrest⟩ := List.cons.inj houtputs
        rw [← (List.cons.inj hrest).1]
        exact .inr (List.mem_cons_of_mem first List.mem_cons_self)
    · rw [show (machine Unit).next s op = step s op from rfl, hnotes] at houtputs
      obtain _ | ⟨first, earlier⟩ := earlier
      · exact .inl (PoolNote.delivered.inj (List.cons.inj houtputs).1).symm
      · have hfirst : .delivered e ∈ first :: earlier := by
          rw [← (List.cons.inj houtputs).1]
          exact List.mem_cons_self
        exact absurd hfirst (hnone e)
    · -- The operation delivers nothing, so its notes are all earlier ones.
      obtain ⟨more, hearlier, hrest⟩ : ∃ more, earlier = (step s op).2 ++ more ∧
          (machine Unit).outputs (step s op).1 ops = more ++ .delivered e' :: later := by
        obtain ⟨more, hearlier, hrest⟩ | ⟨_ | ⟨note, more⟩, hnotes, hrest⟩ :=
          List.append_eq_append_iff.mp houtputs
        · exact ⟨more, hearlier, hrest⟩
        · exact ⟨[], (hnotes.trans (List.append_nil _)).symm ▸ (List.append_nil _).symm, hrest.symm⟩
        · refine absurd ?_ (hsilent e')
          rw [(List.cons.inj hrest).1]
          exact hnotes ▸ List.mem_append_right _ List.mem_cons_self
      rw [hearlier] at hnone ⊢
      obtain heq | hdiscarded := ih hflight' hhead' hrest fun d hd =>
        hnone d (List.mem_append_right _ hd)
      · exact .inl heq
      · exact .inr (List.mem_append_right _ hdiscarded)

/-- In each run with a single listener in which at most `2 ^ 64` events are accepted, the buffer
stays within its size, what may be delivered is in the order of the serials and behind the event in
flight, deliveries are in this order, a requeued event is delivered next unless it is discarded
before, and an acknowledged event is not delivered again. -/
theorem inOrder_of_few (poolName serverIdentifier : String) (events : List String) (bufferSize : ℕ)
    (ops : List (PoolOp Unit))
    (hfew : countAccepted
      ((machine Unit).outputs (new poolName serverIdentifier events bufferSize) ops) ≤
      2 ^ 64) :
    InOrder (new poolName serverIdentifier events bufferSize) ops := by
  have hpre : ∀ before behind, ops = before ++ behind →
      Consistent (countAccepted
        ((machine Unit).outputs (new poolName serverIdentifier events bufferSize) before))
        ((machine Unit).outputs (new poolName serverIdentifier events bufferSize) before)
        ((machine Unit).after (new poolName serverIdentifier events bufferSize) before) := by
    rintro before behind rfl
    rw [Transducer.outputs_append, countAccepted_append] at hfew
    exact consistent_after (Nat.le_of_add_right_le hfew)
  refine ⟨fun before behind h => (hpre before behind h).bounded,
    fun before behind h => (hpre before behind h).increasing, (consistent_after hfew).ordered, ?_⟩
  intro before behind e h hflight earlier e' later houtputs hnone
  have hconsistent := hpre before _ h
  rw [Transducer.after_append] at houtputs
  generalize (machine Unit).after (new poolName serverIdentifier events bufferSize) before = s
    at hconsistent hflight houtputs
  obtain ⟨buffer, hbuffer, -⟩ :=
    requeueRejected_spec (e := e) s.pool hconsistent.size hconsistent.bounded
  have hstep : (machine Unit).after s [.requeue ()] =
      ⟨{ s.pool with buffer := e :: buffer }, Function.update s.inFlight () none⟩ := by
    rw [← hbuffer]
    show (step s (.requeue ())).1 = _
    simp [step, hflight]
  rw [hstep] at houtputs
  have hnext : (Function.update s.inFlight () none) () = none :=
    Function.update_self () none s.inFlight
  exact delivered_next hnext rfl houtputs hnone

theorem inOrder_of_requeue :
    InOrder (new "pool" "supervisor" ["EVENT"] 1)
      [.accept 0 "TICK_5" "", .pop (), .accept 1 "TICK_5" "", .requeue (), .pop (),
        .acknowledge ()] :=
  inOrder_of_few "pool" "supervisor" ["EVENT"] 1 _ (by decide +kernel)

/-! ## The serials start again -/

/-- A pool for two events that has accepted many: the last two are in the buffer. -/
structure LastTwo (n : ℕ) (s : PoolUsers Unit) : Prop where
  buffer : s.pool.buffer.map (·.poolSerial) = [n % 2 ^ 64, (n + 1) % 2 ^ 64]
  counter : s.pool.poolSerial = (n + 2) % 2 ^ 64
  size : s.pool.bufferSize = 2
  events : s.pool.events = ["EVENT"]

theorem LastTwo.next (h : LastTwo n s) : LastTwo (n + 1) (step s (.accept 0 "TICK_5" "")).1 := by
  have hmatch : eventMatchesSubscription "TICK_5" s.pool.events = true := by
    rw [h.events]
    decide +kernel
  obtain ⟨e, rest, hpool, hfirst, hrest⟩ := List.map_eq_cons_iff.mp h.buffer
  obtain ⟨e', rest', rfl, hsecond, hnil⟩ := List.map_eq_cons_iff.mp hrest
  obtain rfl := List.map_eq_nil_iff.mp hnil
  have hfull : ([e, e'] : List EventEnvelope).length ≥ s.pool.bufferSize := h.size ▸ Nat.le_refl 2
  rw [step, if_pos hmatch]
  simp only [EventListenerPoolInner.number, EventListenerPoolInner.insertAccepted, hpool,
    if_pos hfull]
  refine ⟨?_, ?_, h.size, h.events⟩
  · simp only [List.tail_cons, List.cons_append, List.nil_append, List.map_cons, List.map_nil,
      hsecond,
      h.counter]
  · rw [h.counter, Nat.mod_add_mod]

theorem lastTwo_after (n : ℕ) :
    LastTwo n ((machine Unit).after (new "pool" "supervisor" ["EVENT"] 2)
      (List.replicate (n + 2) (.accept 0 "TICK_5" ""))) := by
  induction n with
  | zero => exact ⟨by decide +kernel, rfl, rfl, rfl⟩
  | succ n ih =>
    rw [Nat.add_right_comm, List.replicate_succ', Transducer.after_append]
    exact ih.next

/-- After more events than there are serials the order is lost. -/
theorem not_inOrder_of_many :
    ¬ InOrder (new "pool" "supervisor" ["EVENT"] 2)
      (List.replicate (2 ^ 64 + 1) (.accept 0 "TICK_5" "")) := by
  intro h
  have hincreasing := h.increasing _ [] (List.append_nil _).symm
  have hmany : 2 ^ 64 + 1 = 2 ^ 64 - 1 + 2 := by decide
  rw [hmany] at hincreasing
  have hbuffer := (lastTwo_after (2 ^ 64 - 1)).buffer
  have hserials := List.pairwise_map.mpr (hincreasing.sublist (List.sublist_append_right _ _))
  rw [hbuffer] at hserials
  exact absurd hserials (by decide)

end PoolUsers

end Rsupervisord
