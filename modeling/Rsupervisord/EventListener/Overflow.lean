import Rsupervisord.EventListener.PoolRuns

/-!
# Overflow of an event listener pool

A full buffer loses its first event to a new one, and its last event to a redelivery. The first is
the oldest when the buffer is in order; the last never is, unless it is the only one.

* `PoolUsers.dropsOldest_of_ordered`: in runs in which redeliveries find room and a new event finds
  a full buffer in order, each discarded event is the oldest.
* `PoolUsers.keepsOrder_of_redeliversInFront`: runs in which redeliveries come before what is
  buffered are such runs.
-/

namespace Rsupervisord

namespace PoolUsers

variable {L : Type} [DecidableEq L]

/-- The events that an operation puts into the buffer. -/
def insertedOf : PoolNote → Option EventEnvelope
  | .accepted e | .requeued e => some e
  | _ => none

/-- What an operation discards is the oldest of the buffered events and the one it inserts. -/
def DropsOldest (s : PoolUsers L) (op : PoolOp L) : Prop :=
  ∀ d, .discarded d ∈ (s.step op).2 →
    ∀ e ∈ s.pool.buffer ++ (s.step op).2.filterMap insertedOf, d.poolSerial ≤ e.poolSerial

/-- The buffered events are in the order of their serials, and the next serial is above them. -/
def BufferOrdered (s : PoolUsers L) : Prop :=
  s.pool.buffer.Pairwise (·.poolSerial < ·.poolSerial) ∧
    ∀ e ∈ s.pool.buffer, e.poolSerial < s.pool.poolSerial

/-- A new event finds a full buffer in order, and a requeued event finds room, or takes the place of
an earlier one in a buffer for a single event. -/
def KeepsOrder (s : PoolUsers L) : PoolOp L → Prop
  | .accept .. => s.pool.bufferSize ≤ s.pool.buffer.length → s.BufferOrdered
  | .requeue listener => ∀ e ∈ s.inFlight listener,
      s.pool.buffer.length < s.pool.bufferSize ∨
        s.pool.bufferSize = 1 ∧ ∀ e' ∈ s.pool.buffer, e'.poolSerial < e.poolSerial
  | _ => True

/-- The next serial is above those of the buffered events, and a requeued event finds room in front
of later ones, or takes the place of an earlier one in a buffer for a single event. -/
def RedeliversInFront (s : PoolUsers L) : PoolOp L → Prop
  | .accept .. => ∀ e ∈ s.pool.buffer, e.poolSerial < s.pool.poolSerial
  | .requeue listener => ∀ e ∈ s.inFlight listener,
      s.pool.buffer.length < s.pool.bufferSize ∧
      (∀ e' ∈ s.pool.buffer, e.poolSerial < e'.poolSerial) ∨
        s.pool.bufferSize = 1 ∧ ∀ e' ∈ s.pool.buffer, e'.poolSerial < e.poolSerial
  | _ => True

instance (s : PoolUsers L) (op : PoolOp L) : Decidable (KeepsOrder s op) :=
  match op with
  | .accept .. => inferInstanceAs (Decidable (_ → _ ∧ _))
  | .requeue listener => inferInstanceAs (Decidable (∀ e ∈ s.inFlight listener, _))
  | .pop _ | .acknowledge _ => isTrue trivial

/-- The buffer does not exceed its size. -/
structure Bounded (s : PoolUsers L) : Prop where
  size : 1 ≤ s.pool.bufferSize
  bounded : s.pool.buffer.length ≤ s.pool.bufferSize

/-- The buffered events are in the order of their serials and not too many. -/
structure Sorted (s : PoolUsers L) : Prop extends Bounded s where
  sorted : s.pool.buffer.Pairwise (·.poolSerial < ·.poolSerial)

variable {s : PoolUsers L} {op : PoolOp L}

/-- What is discarded is not inserted. -/
theorem filterMap_insertedOf {note : PoolNote} {e : EventEnvelope} {ds : List EventEnvelope}
    (hnote : insertedOf note = some e) :
    (note :: ds.map PoolNote.discarded).filterMap insertedOf = [e] := by
  rw [List.filterMap_cons_some hnote, List.filterMap_map]
  refine congrArg (e :: ·) (List.filterMap_eq_nil_iff.mpr fun d _ => rfl)

/-- An acceptance discards the first event, and only when the buffer is full. -/
theorem head?_of_insertAccepted {p : EventListenerPoolInner} {a d : EventEnvelope}
    (h : (p.insertAccepted a).1 = some d) :
    p.bufferSize ≤ p.buffer.length ∧ p.buffer.head? = some d := by
  unfold EventListenerPoolInner.insertAccepted at h
  split at h
  next hfull => exact ⟨hfull, h⟩
  next => cases h

/-- A redelivery discards the last event, and only when the buffer is full. -/
theorem getLast?_of_requeueRejected {p : EventListenerPoolInner} {a d : EventEnvelope}
    (h : (p.requeueRejected a).1 = some d) :
    p.bufferSize ≤ p.buffer.length ∧ p.buffer.getLast? = some d := by
  unfold EventListenerPoolInner.requeueRejected at h
  split at h
  next hfull => exact ⟨hfull, h⟩
  next => cases h

/-- What an operation makes of the pool: nothing but a number, an insertion or a delivery. -/
theorem step_cases (s : PoolUsers L) (op : PoolOp L) :
    ((s.step op).1.pool = s.pool ∧ ∀ d, .discarded d ∉ (s.step op).2) ∨
      (∃ globalSerial eventName payload, op = .accept globalSerial eventName payload ∧
        let e := (s.pool.number globalSerial eventName payload).1
        let p := (s.pool.number globalSerial eventName payload).2
        s.step op = ({ s with pool := (p.insertAccepted e).2 },
          .accepted e :: (p.insertAccepted e).1.toList.map .discarded)) ∨
      (∃ listener e, op = .requeue listener ∧ s.inFlight listener = some e ∧
        s.step op = (⟨(s.pool.requeueRejected e).2, Function.update s.inFlight listener none⟩,
          .requeued e :: (s.pool.requeueRejected e).1.toList.map .discarded)) ∨
      (∃ e rest, s.pool.buffer = e :: rest ∧ (s.step op).1.pool = { s.pool with buffer := rest } ∧
        (s.step op).2 = [.delivered e]) := by
  cases op with
  | accept globalSerial eventName payload =>
    by_cases hmatch : eventMatchesSubscription eventName s.pool.events = true
    · exact .inr (.inl ⟨globalSerial, eventName, payload, rfl, if_pos hmatch⟩)
    · have hstep : s.step (.accept globalSerial eventName payload) = (s, []) := if_neg hmatch
      rw [hstep]
      exact .inl ⟨rfl, fun d hd => (by cases hd)⟩
  | requeue listener =>
    cases hflight : s.inFlight listener with
    | none =>
      have hstep : s.step (.requeue listener) = (s, []) := by
        simp [step, hflight]
      rw [hstep]
      exact .inl ⟨rfl, fun d hd => (by cases hd)⟩
    | some e => exact .inr (.inr (.inl ⟨listener, e, rfl, hflight, by simp [step, hflight]⟩))
  | pop listener =>
    cases hbuffer : s.pool.buffer with
    | nil =>
      have hstep : s.step (.pop listener) = (s, []) := by
        simp [step, EventListenerPoolInner.popNextEvent, hbuffer]
      rw [hstep]
      exact .inl ⟨rfl, fun d hd => (by cases hd)⟩
    | cons e rest =>
      have hstep : s.step (.pop listener) =
          (⟨{ s.pool with buffer := rest }, Function.update s.inFlight listener (some e)⟩,
            [.delivered e]) := by
        simp [step, EventListenerPoolInner.popNextEvent, hbuffer]
      rw [hstep]
      exact .inr (.inr (.inr ⟨e, rest, rfl, rfl, rfl⟩))
  | acknowledge listener =>
    cases hflight : s.inFlight listener with
    | none =>
      have hstep : s.step (.acknowledge listener) = (s, []) := by
        simp [step, hflight]
      rw [hstep]
      exact .inl ⟨rfl, fun d hd => (by cases hd)⟩
    | some e =>
      have hstep : s.step (.acknowledge listener) =
          (⟨s.pool, Function.update s.inFlight listener none⟩, [.acknowledged e]) := by
        simp [step, hflight]
      rw [hstep]
      exact .inl ⟨rfl, fun d hd => by simp at hd⟩

/-- An event is discarded in order: a new one meets a full buffer in order, and a requeued one meets
an older one only. -/
theorem Bounded.dropsOldest (h : Bounded s) (horder : KeepsOrder s op) : DropsOldest s op := by
  intro d hd e he
  rcases step_cases s op with ⟨-, hnone⟩ | ⟨globalSerial, eventName, payload, rfl, hstep⟩ |
    ⟨listener, a, rfl, hflight, hstep⟩ | ⟨a, rest, -, -, hnotes⟩
  · exact absurd hd (hnone d)
  · simp only at hstep
    rw [hstep] at hd he
    rw [filterMap_insertedOf rfl] at he
    obtain ⟨d', hd', hinj⟩ := List.mem_map.mp ((List.mem_cons.mp hd).resolve_left (by simp))
    obtain rfl := PoolNote.discarded.inj hinj
    obtain ⟨hfull, hhead⟩ := head?_of_insertAccepted (Option.mem_toList.mp hd')
    obtain ⟨hsorted, hbelow⟩ := horder hfull
    obtain ⟨rest, hrest⟩ := List.head?_eq_some_iff.mp hhead
    have hbuffer : s.pool.buffer = d' :: rest := hrest
    rw [hbuffer] at hsorted hbelow he
    obtain hold | hnew := List.mem_append.mp he
    · obtain rfl | hlater := List.mem_cons.mp hold
      · exact Nat.le_refl _
      · exact Nat.le_of_lt ((List.pairwise_cons.mp hsorted).1 e hlater)
    · rw [List.mem_singleton.mp hnew]
      exact Nat.le_of_lt (hbelow d' List.mem_cons_self)
  · rw [hstep] at hd he
    rw [filterMap_insertedOf rfl] at he
    obtain ⟨d', hd', hinj⟩ := List.mem_map.mp ((List.mem_cons.mp hd).resolve_left (by simp))
    obtain rfl := PoolNote.discarded.inj hinj
    obtain ⟨hfull, hlast⟩ := getLast?_of_requeueRejected (Option.mem_toList.mp hd')
    obtain hroom | ⟨hone, hearlier⟩ := horder a hflight
    · exact absurd hroom (Nat.not_lt.mpr hfull)
    · have hsingle : s.pool.buffer = [d'] := by
        have hlength : s.pool.buffer.length = 1 :=
          Nat.le_antisymm (hone ▸ h.bounded) (hone ▸ hfull)
        obtain ⟨x, hx⟩ := List.length_eq_one_iff.mp hlength
        rw [hx] at hlast ⊢
        exact congrArg (fun d => [d]) (Option.some.inj hlast)
      obtain hold | hnew := List.mem_append.mp he
      · rw [hsingle] at hold
        rw [List.mem_singleton.mp hold]
      · rw [List.mem_singleton.mp hnew]
        exact Nat.le_of_lt (hearlier d' (hsingle ▸ List.mem_cons_self))
  · rw [hnotes] at hd
    simp at hd

/-- Each operation keeps the buffer within its size. -/
theorem Bounded.next (h : Bounded s) (op : PoolOp L) : Bounded (s.step op).1 := by
  rcases step_cases s op with ⟨hpool, -⟩ | ⟨globalSerial, eventName, payload, rfl, hstep⟩ |
    ⟨listener, a, rfl, -, hstep⟩ | ⟨a, rest, hbuffer, hpool, -⟩
  · exact ⟨hpool ▸ h.size, hpool ▸ h.bounded⟩
  · simp only at hstep
    obtain ⟨buffer, hbuffer, hbounded, -⟩ := insertAccepted_spec
      (e := (s.pool.number globalSerial eventName payload).1)
      (s.pool.number globalSerial eventName payload).2 h.size h.bounded
    rw [hstep, hbuffer]
    exact ⟨h.size, hbounded⟩
  · obtain ⟨buffer, hbuffer, hlength, -⟩ := requeueRejected_spec (e := a) s.pool h.size h.bounded
    rw [hstep, hbuffer]
    exact ⟨h.size, hlength⟩
  · have hbounded := h.bounded
    rw [hbuffer, List.length_cons] at hbounded
    exact ⟨hpool ▸ h.size, hpool ▸ Nat.le_of_succ_le hbounded⟩

omit [DecidableEq L] in
theorem bounded_new (poolName serverIdentifier : String) (events : List String) (bufferSize : ℕ) :
    Bounded (new poolName serverIdentifier events bufferSize : PoolUsers L) :=
  ⟨Nat.le_max_right _ _, Nat.zero_le _⟩

/-- With any number of listeners and in each run in which a new event finds a full buffer in the
order of the serials, and redeliveries find room or take the place of the only one when that is
older, each discarded event is the oldest of those buffered or being inserted. -/
theorem dropsOldest_of_ordered (poolName serverIdentifier : String) (events : List String)
    (bufferSize : ℕ) (ops : List (PoolOp L))
    (horder : (machine L).Along KeepsOrder (new poolName serverIdentifier events bufferSize) ops) :
    (machine L).Along DropsOldest (new poolName serverIdentifier events bufferSize) ops := by
  have hnew : Bounded (new poolName serverIdentifier events bufferSize : PoolUsers L) :=
    bounded_new poolName serverIdentifier events bufferSize
  generalize (new poolName serverIdentifier events bufferSize : PoolUsers L) = s at hnew horder
  induction ops generalizing s with
  | nil => trivial
  | cons op ops ih =>
    obtain ⟨hfirst, hrest⟩ := horder
    exact ⟨hnew.dropsOldest hfirst, ih _ (hnew.next op) hrest⟩

/-- An operation that redelivers in front keeps the buffer sorted. -/
theorem Sorted.next (h : Sorted s) (horder : RedeliversInFront s op) : Sorted (s.step op).1 := by
  refine ⟨h.toBounded.next op, ?_⟩
  rcases step_cases s op with ⟨hpool, -⟩ | ⟨globalSerial, eventName, payload, rfl, hstep⟩ |
    ⟨listener, a, rfl, hflight, hstep⟩ | ⟨a, rest, hbuffer, hpool, -⟩
  · exact hpool ▸ h.sorted
  · simp only at hstep
    obtain ⟨buffer, hbuffer, -, hsublist⟩ := insertAccepted_spec
      (e := (s.pool.number globalSerial eventName payload).1)
      (s.pool.number globalSerial eventName payload).2 h.size h.bounded
    rw [hstep, hbuffer]
    refine List.Pairwise.sublist hsublist (List.pairwise_append.mpr
      ⟨h.sorted, List.pairwise_singleton _ _, fun e he d hd => ?_⟩)
    rw [List.mem_singleton.mp hd]
    exact horder e he
  · obtain ⟨buffer, hbuffer, hlength, hsublist⟩ :=
      requeueRejected_spec (e := a) s.pool h.size h.bounded
    rw [hstep, hbuffer]
    refine List.pairwise_cons.mpr ⟨fun e he => ?_, h.sorted.sublist hsublist⟩
    obtain ⟨-, hlater⟩ | ⟨hone, -⟩ := horder a hflight
    · exact hlater e (hsublist.subset he)
    · -- A buffer for one event holds only the requeued one.
      rw [hone] at hlength
      rw [List.length_eq_zero_iff.mp (Nat.lt_one_iff.mp hlength)] at he
      cases he
  · have hsorted := h.sorted
    rw [hbuffer] at hsorted
    rw [hpool]
    exact (List.pairwise_cons.mp hsorted).2

/-- In runs in which the serials do not start again below a buffered one and redeliveries come in
front, the buffer stays in order. -/
theorem keepsOrder_of_redeliversInFront {poolName serverIdentifier : String} {events : List String}
    {bufferSize : ℕ} {ops : List (PoolOp L)}
    (hfront : (machine L).Along RedeliversInFront
      (new poolName serverIdentifier events bufferSize) ops) :
    (machine L).Along KeepsOrder (new poolName serverIdentifier events bufferSize) ops := by
  have hnew : Sorted (new poolName serverIdentifier events bufferSize : PoolUsers L) :=
    ⟨bounded_new poolName serverIdentifier events bufferSize, List.Pairwise.nil⟩
  generalize (new poolName serverIdentifier events bufferSize : PoolUsers L) = s at hnew hfront
  induction ops generalizing s with
  | nil => trivial
  | cons op ops ih =>
    obtain ⟨hfirst, hrest⟩ := hfront
    refine ⟨?_, ih _ (hnew.next hfirst) hrest⟩
    cases op with
    | accept => exact fun _ => ⟨hnew.sorted, hfirst⟩
    | requeue => exact fun e he => (hfirst e he).imp_left And.left
    | pop | acknowledge => trivial

/-- One event is rejected while the buffer has room. -/
theorem dropsOldest_of_room :
    (machine (Fin 2)).Along DropsOldest (new "pool" "supervisor" ["EVENT"] 2)
      [.accept 0 "TICK_5" "", .pop 0, .accept 1 "TICK_5" "", .requeue 0, .accept 2 "TICK_5" ""] :=
  dropsOldest_of_ordered "pool" "supervisor" ["EVENT"] 2 _
    ⟨by decide +kernel, trivial, by decide +kernel, by decide +kernel, by decide +kernel, trivial⟩

/-- A rejected event comes back while the buffer is full: the newest event is discarded. -/
theorem not_dropsOldest_of_full :
    ¬ (machine (Fin 2)).Along DropsOldest (new "pool" "supervisor" ["EVENT"] 2)
      [.accept 0 "TICK_5" "", .pop 0, .accept 1 "TICK_5" "", .accept 2 "TICK_5" "",
        .requeue 0] := by
  rintro ⟨-, -, -, -, hdrops, -⟩
  have hle := hdrops ⟨2, 2, "pool", "TICK_5", ""⟩ (by decide +kernel) ⟨1, 1, "pool", "TICK_5", ""⟩
    (by decide +kernel)
  exact absurd hle (by decide)

end PoolUsers

end Rsupervisord
