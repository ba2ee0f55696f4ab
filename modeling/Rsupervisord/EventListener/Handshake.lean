import Rsupervisord.EventListener.Delivery
import Rsupervisord.Support.BufferedReader
import Rsupervisord.Support.Utf8

/-!
# Handshake with a listener process

The wire task of one listener process on the bytes that the process writes to its stdout, and the
handshake table that its documentation gives.

* `HandshakeState` and `handshakeTable` are the table: the state after an exchange of bytes and
  events.
* `ListenerWire` is the task with the buffered reader in front of it. Chunks of any length arrive at
  any time, and other tasks change the pool between any two steps.

The task keeps to the table as long as it never gives up a read that has taken bytes, and the lines
that it accepts are spelled as the table has them. `ListenerWire.Tracks` says that the table, run on
what was received and delivered, is where the task will be when it has read the bytes that it has
not read yet.

## Main results

* `ListenerWire.handshake_of_reachable`: events are delivered in state `READY` only.
* `ListenerWire.delivers_after_speculative_data`: a run in which a byte in state `READY` is lost.
-/

namespace Rsupervisord

/-! ## The handshake table -/

/-- The states of the table, with the bytes that a state has seen of the message it waits for. -/
inductive HandshakeState
  | acknowledged (data : List UInt8)
  | ready
  | busy (header : List UInt8)
  /-- Busy, in the body of a `RESULT`; `missing` bytes follow the next one. -/
  | result (missing : ℕ)
  | unknown
  deriving DecidableEq, Repr

/-- What a listener process and its wire task exchange. -/
inductive Exchange
  /-- A byte of the stdout of the process. -/
  | byte (b : UInt8)
  /-- An event written to its stdin. -/
  | delivery (envelope : EventEnvelope)
  deriving DecidableEq

namespace HandshakeState

/-- The token `READY` with its newline. -/
def readyToken : List UInt8 := Text.utf8 "READY\n"

/-- The start of a `RESULT` header. -/
def resultToken : List UInt8 := Text.utf8 "RESULT "

/-- The value of decimal digits. -/
def digitsLength (digits : List UInt8) : Option ℕ :=
  if digits ≠ [] ∧ digits.all (fun b => 48 ≤ b.toNat && b.toNat ≤ 57) then
    some (digits.foldl (fun n b => 10 * n + (b.toNat - 48)) 0)
  else none

/-- The length in a header `RESULT <n>`. -/
def headerLength (header : List UInt8) : Option ℕ :=
  if resultToken <+: header then digitsLength (header.drop resultToken.length) else none

/-- The state that waits for a body of `n` bytes. -/
def awaitBody : ℕ → HandshakeState
  | 0 => .acknowledged []
  | n + 1 => .result n

/-- A byte arrives. -/
def receive : HandshakeState → UInt8 → HandshakeState
  | .acknowledged data, b =>
      if data ++ [b] = readyToken then .ready
      else if data ++ [b] <+: readyToken then .acknowledged (data ++ [b])
      else .unknown
  | .ready, _ => .unknown
  | .busy header, b =>
      if b = 10 then (headerLength header).elim .unknown awaitBody
      else .busy (header ++ [b])
  | .result missing, _ => awaitBody missing
  | .unknown, _ => .unknown

/-- A step of the exchange. The table delivers in state `ready` only. -/
def exchange : HandshakeState → Exchange → HandshakeState
  | state, .byte b => state.receive b
  | .ready, .delivery _ => .busy []
  | _, .delivery _ => .unknown

/-- Nothing leaves the state `unknown`. -/
theorem foldl_exchange_unknown (log : List Exchange) : log.foldl exchange .unknown = .unknown := by
  induction log with
  | nil => rfl
  | cons x log ih =>
      have hx : exchange .unknown x = .unknown := by
        cases x <;> rfl
      rw [List.foldl_cons, hx, ih]

/-- The token leads to `READY`. -/
theorem foldl_receive_readyToken : readyToken.foldl receive (.acknowledged []) = .ready := by
  decide

/-- A header is collected up to the newline. -/
theorem foldl_receive_busy {bytes : List UInt8} (h : 10 ∉ bytes) (header : List UInt8) :
    bytes.foldl receive (.busy header) = .busy (header ++ bytes) := by
  induction bytes generalizing header with
  | nil => rw [List.foldl_nil, List.append_nil]
  | cons b bytes ih =>
      rw [List.mem_cons, not_or] at h
      have hb : receive (.busy header) b = .busy (header ++ [b]) := if_neg (Ne.symm h.1)
      rw [List.foldl_cons, hb, ih h.2, List.append_assoc, List.singleton_append]

/-- A header of the table has no newline in it. -/
theorem newline_notMem_of_headerLength {header : List UInt8} {n : ℕ}
    (h : headerLength header = some n) : 10 ∉ header := by
  unfold headerLength at h
  split at h
  next hbegins =>
    obtain ⟨digits, rfl⟩ := hbegins
    rw [List.drop_left] at h
    unfold digitsLength at h
    split at h
    next hdigits =>
      rw [List.mem_append, not_or]
      refine ⟨by decide, fun hmem => ?_⟩
      exact absurd (List.all_eq_true.mp hdigits.2 10 hmem) (by decide)
    next => cases h
  next => cases h

/-- A header of the table leads to its body. -/
theorem foldl_receive_header {header : List UInt8} {n : ℕ} (h : headerLength header = some n) :
    (header ++ [10]).foldl receive (.busy []) = awaitBody n := by
  rw [List.foldl_append, foldl_receive_busy (newline_notMem_of_headerLength h), List.nil_append]
  show (headerLength header).elim .unknown awaitBody = awaitBody n
  rw [h]
  rfl

/-- A body of the announced length ends the answer. -/
theorem foldl_receive_body (body : List UInt8) :
    body.foldl receive (awaitBody body.length) = .acknowledged [] := by
  induction body with
  | nil => rfl
  | cons b body ih => exact ih

end HandshakeState

/-- The state of the table after an exchange. -/
def handshakeTable (log : List Exchange) : HandshakeState :=
  log.foldl HandshakeState.exchange (.acknowledged [])

/-- Received bytes drive the table. -/
theorem handshakeTable_append_bytes (log : List Exchange) (bytes : List UInt8) :
    handshakeTable (log ++ bytes.map .byte) =
      bytes.foldl HandshakeState.receive (handshakeTable log) := by
  unfold handshakeTable
  rw [List.foldl_append, List.foldl_map]
  rfl

/-! ## The wire task on bytes -/

/-- A wire task with the reader of the stdout of its process, and the pool as the task sees it. -/
structure ListenerWire where
  pool : EventListenerPoolInner
  task : WireTask
  reader : BufferedReader
  /-- What was received from the process and delivered to it so far. No step reads it. -/
  log : List Exchange
  deriving DecidableEq

namespace ListenerWire

/-- The wire task of a process that was just spawned. -/
def new (pool : EventListenerPoolInner) : ListenerWire where
  pool := pool
  task := .new
  reader := {}
  log := []

/-- Steps of the process, of its wire task and of the tasks around it. -/
inductive Label
  /-- A read of the pipe returns a chunk. -/
  | received (chunk : List UInt8)
  /-- A read of the pipe returns the end of the stream. -/
  | closed
  /-- A read of the pipe fails. -/
  | failed (error : String)
  /-- The read in progress takes the bytes that are buffered. -/
  | polled
  /-- The attempt to pop an event, when the read in progress has to wait. -/
  | pop
  | register
  | resume
  | written (ok : Bool)
  | notify
  | cancelled
  /-- An event arrives in the pool. -/
  | arrival (envelope : EventEnvelope)
  /-- Another wire task pops an event. -/
  | popElsewhere
  /-- Another wire task hands an event back. -/
  | requeueElsewhere (envelope : EventEnvelope)
  /-- Another task calls `notify_waiters`. -/
  | notifyElsewhere
  | cancelChild
  | cancelPool
  deriving DecidableEq

/-- The task is at an await point that reads. -/
def Reads (t : WireTask) : Prop :=
  match t.pc with
  | .awaiting => t.state ≠ .unknown
  | .waiting _ => t.state ≠ .unknown
  | .body _ => True
  | _ => False

instance (t : WireTask) : Decidable (Reads t) := by
  unfold Reads
  split <;> infer_instance

/-- `read_line` yields text, or an error when the bytes are not UTF-8. -/
def decodeLine (line : List UInt8) : Except String String :=
  match String.fromUTF8? line.toByteArray with
  | some text => .ok text
  | none => .error "stream did not contain valid UTF-8"

/-- The read in progress goes on: `read_exact` in the body of a `RESULT` and `read_line`
elsewhere. -/
def poll (s : ListenerWire) : Option WireInput × BufferedReader :=
  match s.task.pc with
  | .body expectedLen =>
      ((s.reader.readExact expectedLen).1.map .bodyRead, (s.reader.readExact expectedLen).2)
  | _ =>
      (s.reader.readLine.1.map fun line => .lineRead (decodeLine line), s.reader.readLine.2)

/-- The wire task makes a step. -/
def advance (s : ListenerWire) (input : WireInput) : Option ListenerWire :=
  (s.task.step s.pool input).map fun o => { s with pool := o.pool, task := o.task }

/-- One step, when it is enabled. The pipe is read only when nothing is buffered. In state `ready`
the read is polled before the pool, so that an event is popped only when the read has taken all that
was received; popping an event drops the read. -/
def next (s : ListenerWire) : Label → Option ListenerWire
  | .received chunk =>
      if Reads s.task ∧ s.reader.buffered = [] ∧ s.reader.eof = false ∧ chunk ≠ [] then
        some { s with
          reader := { s.reader with buffered := chunk }
          log := s.log ++ chunk.map Exchange.byte }
      else none
  | .closed =>
      if Reads s.task ∧ s.reader.buffered = [] then
        some { s with reader := { s.reader with eof := true } }
      else none
  | .failed error =>
      if Reads s.task ∧ s.reader.buffered = [] then
        match s.task.pc with
        | .body _ => s.advance (.bodyRead (.error error))
        | _ => s.advance (.lineRead (.error error))
      else none
  | .polled =>
      if Reads s.task then
        match s.poll with
        | (some input, reader) => { s with reader }.advance input
        | (none, reader) => some { s with reader }
      else none
  | .pop =>
      if s.reader.buffered = [] ∧ s.reader.eof = false then
        match s.pool.buffer with
        | envelope :: _ =>
            { s with
              reader := s.reader.dropRead
              log := s.log ++ [Exchange.delivery envelope] }.advance .pop
        | [] => s.advance .pop
      else none
  | .register => s.advance .register
  | .resume => s.advance .resume
  | .written ok => s.advance (.written ok)
  | .notify => s.advance .notify
  | .cancelled => s.advance .cancelled
  | .arrival envelope => some { s with pool := (s.pool.insertAccepted envelope).2 }
  | .popElsewhere => some { s with pool := s.pool.popNextEvent.2 }
  | .requeueElsewhere envelope => some { s with pool := (s.pool.requeueRejected envelope).2 }
  | .notifyElsewhere => some { s with task := s.task.notified }
  | .cancelChild => some { s with task := { s.task with cancelToken := true } }
  | .cancelPool => some { s with pool := { s.pool with cancelToken := true } }

/-- The system of a wire task, started on any pool. -/
def system (pool : EventListenerPoolInner) : TransitionSystem ListenerWire Label :=
  .ofNext (.new pool) next

/-! ## Where the table will be -/

/-- The length in a header line that the task accepts. -/
def acceptedLength (line : String) : Option ℕ := do
  let lenStr ← Text.stripPrefix "RESULT "
    (Text.trimEndMatches (fun c => c = '\r' || c = '\n') line)
  let expectedLen ← Text.parseUnsigned (2 ^ 64) (Text.trim lenStr)
  if expectedLen > eventListenerMaxResultBytes then none else some expectedLen

/-- The state of the table that a task stands for, as long as it may still deliver an event. -/
def expected (t : WireTask) : Option HandshakeState :=
  match t.pc with
  | .writing _ => some (.busy [])
  | .body expectedLen => some (.awaitBody expectedLen)
  | .notifying true | .ended => none
  | .awaiting | .gap | .waiting _ | .notifying false =>
      match t.state with
      | .acknowledged => some (.acknowledged [])
      | .ready => some .ready
      | .busy => some (.busy [])
      | .unknown => none

variable {t : WireTask} {pool : EventListenerPoolInner} {o : WireOutcome} {state : HandshakeState}

/-- A header line that is not accepted ends the exchange. -/
theorem onResultHeader_eq (line : String) :
    t.onResultHeader pool line =
      match acceptedLength line with
      | some expectedLen => { task := { t with pc := .body expectedLen }, pool }
      | none => { t with state := .unknown }.requeueCurrent pool false := by
  simp only [WireTask.onResultHeader, acceptedLength]
  cases hbegins : Text.stripPrefix "RESULT "
      (Text.trimEndMatches (fun c => c = '\r' || c = '\n') line) with
  | none => rfl
  | some lenStr =>
      cases hparse : Text.parseUnsigned (2 ^ 64) (Text.trim lenStr) with
      | none => simp only [Option.bind_eq_bind, Option.bind_some, hparse, Option.bind_none]
      | some expectedLen =>
          by_cases hlarge : expectedLen > eventListenerMaxResultBytes
          · simp only [Option.bind_eq_bind, Option.bind_some, hparse, if_pos hlarge]
          · simp only [Option.bind_eq_bind, Option.bind_some, hparse, if_neg hlarge]

/-- Handing an event back leaves the state of the handshake as it is. -/
theorem expected_requeueCurrent :
    expected (t.requeueCurrent pool false).task =
      expected { t with pc := .awaiting } := by
  unfold WireTask.requeueCurrent
  cases t.currentEnvelope with
  | none => rfl
  | some envelope => rfl

/-- A task that ends delivers nothing more. -/
theorem expected_requeueCurrent_end : expected (t.requeueCurrent pool true).task = none := by
  unfold WireTask.requeueCurrent
  cases t.currentEnvelope with
  | none => rfl
  | some envelope => rfl

/-- A failed read is the end of the exchange. -/
theorem expected_of_failed {error : String}
    (h : t.step pool (.lineRead (.error error)) = some o ∨
      t.step pool (.bodyRead (.error error)) = some o) : expected o.task = none := by
  rcases h with h | h
  · have hline : t.onLine pool (.error error) = some o := by
      simp only [WireTask.step] at h
      split at h
      next => exact h
      next => exact h
      next => cases h
    unfold WireTask.onLine at hline
    split at hline
    next => cases hline
    next =>
      obtain rfl := Option.some.inj hline
      exact expected_requeueCurrent_end
  · simp only [WireTask.step] at h
    split at h
    next =>
      obtain rfl := Option.some.inj h
      exact expected_requeueCurrent
    next => cases h

/-- What a line leads to. -/
theorem expected_of_line {line : String} (h : t.step pool (.lineRead (.ok line)) = some o)
    (hstate : state ∈ expected o.task) :
    (t.state = .acknowledged ∧ expected t = some (.acknowledged []) ∧ Text.trim line = "READY" ∧
        state = .ready) ∨
      (t.state = .busy ∧ expected t = some (.busy []) ∧
        ∃ n, acceptedLength line = some n ∧ state = .awaitBody n) := by
  obtain ⟨hpc, hline⟩ : (t.pc = .awaiting ∨ ∃ woken, t.pc = .waiting woken) ∧
      t.onLine pool (.ok line) = some o := by
    simp only [WireTask.step] at h
    split at h
    next hpc => exact ⟨.inl hpc, h⟩
    next woken hpc => exact ⟨.inr ⟨woken, hpc⟩, h⟩
    next => cases h
  unfold WireTask.onLine at hline
  split at hline
  next => cases hline
  next =>
    simp only at hline
    split at hline
    next =>
      obtain rfl := Option.some.inj hline
      rw [expected_requeueCurrent_end] at hstate
      cases hstate
    next =>
      split at hline
      next hack =>
        left
        split at hline
        next htrim =>
          obtain rfl := Option.some.inj hline
          refine ⟨hack, ?_, htrim, (Option.some.inj hstate).symm⟩
          rcases hpc with hpc | ⟨woken, hpc⟩ <;> simp only [expected, hpc, hack]
        next =>
          obtain rfl := Option.some.inj hline
          cases hstate
      next =>
        obtain rfl := Option.some.inj hline
        cases hstate
      next hbusy =>
        right
        obtain rfl := Option.some.inj hline
        rw [onResultHeader_eq] at hstate
        cases haccepted : acceptedLength line with
        | none =>
            rw [haccepted] at hstate
            simp only [expected_requeueCurrent] at hstate
            cases hstate
        | some n =>
            rw [haccepted] at hstate
            refine ⟨hbusy, ?_, n, rfl, (Option.some.inj hstate).symm⟩
            rcases hpc with hpc | ⟨woken, hpc⟩ <;> simp only [expected, hpc, hbusy]
      next => cases hline

/-- The body of a `RESULT` leads back to the start. -/
theorem expected_of_body {body : List UInt8} (h : t.step pool (.bodyRead (.ok body)) = some o) :
    expected t = some (.awaitBody body.length) ∧ expected o.task = some (.acknowledged []) := by
  simp only [WireTask.step] at h
  split at h
  next expectedLen hpc =>
    split at h
    next hlen =>
      obtain rfl := Option.some.inj h
      refine ⟨by simp only [expected, hpc, hlen], ?_⟩
      simp only [WireTask.onResultBody]
      split
      next => rfl
      next => exact expected_requeueCurrent
    next => cases h
  next => cases h

/-- The other inputs leave the exchange alone. -/
theorem expected_of_internal {input : WireInput} (h : t.step pool input = some o)
    (hline : ∀ line, input ≠ .lineRead line) (hbody : ∀ body, input ≠ .bodyRead body)
    (hpop : input ≠ .pop) (hstate : state ∈ expected o.task) : state ∈ expected t := by
  cases input with
  | lineRead line => exact absurd rfl (hline line)
  | bodyRead body => exact absurd rfl (hbody body)
  | pop => exact absurd rfl hpop
  | register =>
      simp only [WireTask.step, Option.ite_none_right_eq_some, Option.some.injEq] at h
      obtain ⟨hpc, rfl⟩ := h
      simpa only [expected, hpc] using hstate
  | resume =>
      simp only [WireTask.step, Option.ite_none_right_eq_some, Option.some.injEq] at h
      obtain ⟨hpc, rfl⟩ := h
      simpa only [expected, hpc] using hstate
  | written ok =>
      simp only [WireTask.step] at h
      split at h
      next envelope hpc =>
        split at h
        next =>
          obtain rfl := Option.some.inj h
          simpa only [expected, hpc] using hstate
        next =>
          obtain rfl := Option.some.inj h
          cases hstate
      next => cases h
  | notify =>
      simp only [WireTask.step] at h
      split at h
      next ends hpc =>
        obtain rfl := Option.some.inj h
        cases ends with
        | true => cases hstate
        | false =>
            simp only [expected, hpc]
            exact hstate
      next => cases h
  | cancelled =>
      obtain ⟨_, rfl⟩ := WireTask.outcome_of_cancelled h
      cases hstate

/-- An event is popped in state `ready`. -/
theorem expected_of_pop (h : t.step pool .pop = some o) :
    expected t = some .ready ∧
      (expected o.task = if pool.buffer = [] then some .ready else some (.busy [])) := by
  simp only [WireTask.step] at h
  split at h
  next hready =>
    have hexpected : expected t = some .ready := by
      simp only [expected, hready.2, hready.1]
    refine ⟨hexpected, ?_⟩
    cases hbuffer : pool.buffer with
    | nil =>
        simp only [EventListenerPoolInner.popNextEvent, hbuffer, List.head?_nil,
          Option.some.injEq] at h
        obtain rfl := h
        simp only [expected, hready.1, if_true]
    | cons envelope rest =>
        simp only [EventListenerPoolInner.popNextEvent, hbuffer, List.head?_cons,
          Option.some.injEq] at h
        obtain rfl := h
        rfl
  next => cases h

/-- A call of `notify_waiters` is no part of the exchange. -/
theorem expected_notified : expected t.notified = expected t := by
  unfold WireTask.notified
  split
  next woken hpc => simp only [expected, hpc]
  next => rfl

/-! ## Runs that keep to the table -/

/-- A line is spelled as the table has it, if the task accepts it. -/
def SpelledExactly (state : ListenerState) (line : List UInt8) : Prop :=
  ∀ text ∈ String.fromUTF8? line.toByteArray,
    (state = .acknowledged → Text.trim text = "READY" → line = HandshakeState.readyToken) ∧
      (state = .busy → ∀ n ∈ acceptedLength text,
        HandshakeState.headerLength line.dropLast = some n)

instance (state : ListenerState) (line : List UInt8) : Decidable (SpelledExactly state line) :=
  inferInstanceAs (Decidable (∀ _ ∈ _, _))

/-- The line that the read in progress completes with the buffered bytes. -/
def completedLine (s : ListenerWire) : Option (List UInt8) :=
  match s.task.pc with
  | .body _ => none
  | _ => if s.reader.eof then none else s.reader.readLine.1

/-- The step keeps to the table: no event is popped while the read in progress has taken bytes, and
the lines that are accepted are spelled exactly. -/
def KeepsToTable (s : ListenerWire) : Label → Prop
  | .pop => s.pool.buffer ≠ [] → s.reader.taken = []
  | .polled => ∀ line ∈ s.completedLine, SpelledExactly s.task.state line
  | _ => True

instance (s : ListenerWire) (l : Label) : Decidable (s.KeepsToTable l) := by
  unfold KeepsToTable
  split <;> infer_instance

/-- The table, run on the bytes that were not read yet, leads from the state that the task stands
for to the state after the exchange so far. -/
def Tracks (s : ListenerWire) : Prop :=
  s.reader.eof = false → ∀ state ∈ expected s.task,
    handshakeTable s.log = s.reader.unread.foldl HandshakeState.receive state

/-- Every event was delivered in state `READY` of the table. -/
def DeliversWhenReady (log : List Exchange) : Prop :=
  ∀ n envelope, log[n]? = some (.delivery envelope) → handshakeTable (log.take n) = .ready

/-- Received bytes are no deliveries. -/
theorem DeliversWhenReady.append_bytes {log : List Exchange} (h : DeliversWhenReady log)
    (bytes : List UInt8) : DeliversWhenReady (log ++ bytes.map Exchange.byte) := by
  intro n envelope hn
  by_cases hlt : n < log.length
  · rw [List.getElem?_append_left hlt] at hn
    rw [List.take_append_of_le_length hlt.le]
    exact h n envelope hn
  · rw [List.getElem?_append_right (by omega), List.getElem?_map] at hn
    obtain ⟨b, _, hb⟩ := Option.map_eq_some_iff.mp hn
    cases hb

/-- A delivery in state `READY`. -/
theorem DeliversWhenReady.append_delivery {log : List Exchange} (h : DeliversWhenReady log)
    (hready : handshakeTable log = .ready) (envelope : EventEnvelope) :
    DeliversWhenReady (log ++ [Exchange.delivery envelope]) := by
  intro n envelope' hn
  by_cases hlt : n < log.length
  · rw [List.getElem?_append_left hlt] at hn
    rw [List.take_append_of_le_length hlt.le]
    exact h n envelope' hn
  · obtain ⟨hlen, _⟩ := List.getElem?_eq_some_iff.mp hn
    rw [List.length_append, List.length_singleton] at hlen
    have hn' : n = log.length := by omega
    rw [hn', List.take_left]
    exact hready

/-- The invariant of a wire task that keeps to the table. -/
structure Invariant (s : ListenerWire) : Prop where
  tracks : s.Tracks
  delivers : DeliversWhenReady s.log
  wellFormed : s.task.WellFormed

variable {s s' : ListenerWire}

/-- A step of the task that exchanges nothing. -/
theorem Invariant.advance (hinv : s.Invariant) {reader : BufferedReader} {input : WireInput}
    (h : advance { s with reader } input = some s')
    (htracks : ∀ o, s.task.step s.pool input = some o → reader.eof = false →
      ∀ state ∈ expected o.task,
        handshakeTable s.log = reader.unread.foldl HandshakeState.receive state) :
    s'.Invariant := by
  obtain ⟨o, ho, rfl⟩ := Option.map_eq_some_iff.mp h
  refine ⟨htracks o ho, hinv.delivers, ?_⟩
  by_cases hinput : input = .cancelled
  · subst hinput
    obtain ⟨_, rfl⟩ := WireTask.outcome_of_cancelled ho
    exact WireTask.wellFormed_of_none rfl
  · exact (WireTask.step_keeps hinv.wellFormed ho hinput).wellFormed

/-- A step of the task that reads nothing. -/
theorem Invariant.advance_internal (hinv : s.Invariant) {input : WireInput}
    (h : s.advance input = some s') (hline : ∀ line, input ≠ .lineRead line)
    (hbody : ∀ body, input ≠ .bodyRead body) (hpop : input ≠ .pop) : s'.Invariant :=
  hinv.advance h fun _ ho heof _ hstate =>
    hinv.tracks heof _ (expected_of_internal ho hline hbody hpop hstate)

/-- The read of the body of a `RESULT` goes on. -/
theorem Invariant.polled_body (hinv : s.Invariant) {expectedLen : ℕ}
    (hpc : s.task.pc = .body expectedLen) (h : s.next .polled = some s') : s'.Invariant := by
  simp only [next, poll, hpc] at h
  split at h
  next hreads =>
    cases hread : (s.reader.readExact expectedLen).1 with
    | none =>
        rw [hread] at h
        obtain rfl := Option.some.inj h
        refine ⟨?_, hinv.delivers, hinv.wellFormed⟩
        show Tracks { s with reader := (s.reader.readExact expectedLen).2 }
        rw [BufferedReader.readExact_eq_none hread]
        intro heof
        rw [BufferedReader.unread_takeAll]
        exact hinv.tracks heof
    | some result =>
        rw [hread] at h
        refine hinv.advance h fun o ho heof state hstate => ?_
        cases result with
        | error error =>
            rw [expected_of_failed (.inr ho)] at hstate
            cases hstate
        | ok body =>
            obtain ⟨hunread, heof'⟩ := BufferedReader.readExact_eq_ok hread
            obtain ⟨hbefore, hafter⟩ := expected_of_body ho
            rw [hafter] at hstate
            obtain rfl := Option.some.inj hstate
            rw [hinv.tracks (heof' ▸ heof) _ hbefore, hunread, List.foldl_append,
              HandshakeState.foldl_receive_body]
  next => cases h

/-- The table on a line that the task accepts. -/
theorem foldl_receive_line {line : List UInt8} {text : String}
    (htext : String.fromUTF8? line.toByteArray = some text)
    (hspelled : SpelledExactly t.state line) (hlast : line.getLast? = some 10)
    (ho : t.step pool (.lineRead (.ok text)) = some o) (hstate : state ∈ expected o.task) :
    ∃ before, expected t = some before ∧ line.foldl HandshakeState.receive before = state := by
  obtain ⟨hready, hresult⟩ := hspelled text htext
  rcases expected_of_line ho hstate with ⟨hack, hbefore, htrim, rfl⟩ | ⟨hbusy, hbefore, n, hn, rfl⟩
  · refine ⟨_, hbefore, ?_⟩
    rw [hready hack htrim, HandshakeState.foldl_receive_readyToken]
  · refine ⟨_, hbefore, ?_⟩
    have hline : line = line.dropLast ++ [10] := by
      rw [List.getLast?_eq_some_iff] at hlast
      obtain ⟨header, rfl⟩ := hlast
      rw [List.dropLast_concat]
    rw [hline]
    exact HandshakeState.foldl_receive_header (hresult hbusy n hn)

/-- The read of a line goes on. -/
theorem Invariant.polled_line (hinv : s.Invariant) (hkeeps : s.KeepsToTable .polled)
    (hpc : ∀ expectedLen, s.task.pc ≠ .body expectedLen) (h : s.next .polled = some s') :
    s'.Invariant := by
  have hpoll : s.poll =
      (s.reader.readLine.1.map fun line => .lineRead (decodeLine line), s.reader.readLine.2) := by
    unfold poll
    split
    next expectedLen hbody => exact absurd hbody (hpc expectedLen)
    next => rfl
  have hcompleted : s.completedLine =
      if s.reader.eof then none else s.reader.readLine.1 := by
    unfold completedLine
    split
    next expectedLen hbody => exact absurd hbody (hpc expectedLen)
    next => rfl
  simp only [next, hpoll] at h
  split at h
  next hreads =>
    cases hread : s.reader.readLine.1 with
    | none =>
        rw [hread] at h
        obtain rfl := Option.some.inj h
        refine ⟨?_, hinv.delivers, hinv.wellFormed⟩
        show Tracks { s with reader := s.reader.readLine.2 }
        rw [BufferedReader.readLine_eq_none hread]
        intro heof
        rw [BufferedReader.unread_takeAll]
        exact hinv.tracks heof
    | some line =>
        rw [hread] at h
        refine hinv.advance h fun o ho heof state hstate => ?_
        have heof' : s.reader.eof = false := by
          rwa [BufferedReader.eof_readLine] at heof
        obtain ⟨hlast, hunread⟩ := BufferedReader.readLine_eq_some heof' hread
        have hspelled : SpelledExactly s.task.state line := by
          refine hkeeps line ?_
          rw [hcompleted, heof', hread]
          rfl
        have hline : s.task.step s.pool (.lineRead (decodeLine line)) = some o := ho
        cases htext : String.fromUTF8? line.toByteArray with
        | none =>
            rw [decodeLine, htext] at hline
            rw [expected_of_failed (.inl hline)] at hstate
            cases hstate
        | some text =>
            rw [decodeLine, htext] at hline
            obtain ⟨before, hbefore, hfold⟩ := foldl_receive_line htext hspelled hlast hline hstate
            rw [hinv.tracks heof' _ hbefore, hunread, List.foldl_append, hfold]
  next => cases h

/-- An event is popped. -/
theorem Invariant.pop (hinv : s.Invariant) (hkeeps : s.KeepsToTable .pop)
    (h : s.next .pop = some s') : s'.Invariant := by
  simp only [next] at h
  split at h
  next hread =>
    obtain ⟨hbuffered, heof⟩ := hread
    cases hbuffer : s.pool.buffer with
    | nil =>
        simp only [hbuffer] at h
        refine hinv.advance h fun o ho _ state hstate => ?_
        obtain ⟨hbefore, hafter⟩ := expected_of_pop ho
        rw [hafter, if_pos hbuffer, ← hbefore] at hstate
        exact hinv.tracks heof state hstate
    | cons envelope rest =>
        simp only [hbuffer] at h
        have hnonempty : s.pool.buffer ≠ [] := by
          rw [hbuffer]
          exact List.cons_ne_nil envelope rest
        obtain ⟨o, ho, rfl⟩ := Option.map_eq_some_iff.mp h
        obtain ⟨hbefore, hafter⟩ := expected_of_pop ho
        -- Nothing was received that the task has not read, so that the table is in `READY`, too.
        have hready : handshakeTable s.log = .ready := by
          rw [hinv.tracks heof _ hbefore, BufferedReader.unread, hbuffered, hkeeps hnonempty]
          rfl
        refine ⟨fun _ state hstate => ?_, hinv.delivers.append_delivery hready envelope,
          (WireTask.step_keeps hinv.wellFormed ho nofun).wellFormed⟩
        rw [hafter, if_neg hnonempty] at hstate
        obtain rfl := Option.some.inj hstate
        show handshakeTable (s.log ++ [.delivery envelope]) =
          List.foldl _ _ ([] ++ s.reader.buffered)
        rw [hbuffered, handshakeTable, List.foldl_append, ← handshakeTable, hready]
        rfl
  next => cases h

/-- Every step that keeps to the table preserves the invariant. -/
theorem Invariant.next (hinv : s.Invariant) {l : Label} (hkeeps : s.KeepsToTable l)
    (h : s.next l = some s') : s'.Invariant := by
  cases l with
  | received chunk =>
      simp only [ListenerWire.next, Option.ite_none_right_eq_some, Option.some.injEq] at h
      obtain ⟨⟨_, hbuffered, _, _⟩, rfl⟩ := h
      refine ⟨fun heof state hstate => ?_, hinv.delivers.append_bytes chunk, hinv.wellFormed⟩
      rw [handshakeTable_append_bytes, BufferedReader.unread_receive hbuffered, List.foldl_append,
        hinv.tracks heof state hstate]
  | closed =>
      simp only [ListenerWire.next, Option.ite_none_right_eq_some, Option.some.injEq] at h
      obtain ⟨_, rfl⟩ := h
      exact ⟨nofun, hinv.delivers, hinv.wellFormed⟩
  | failed error =>
      simp only [ListenerWire.next, Option.ite_none_right_eq_some] at h
      have hfailed : ∀ input, input = .lineRead (.error error) ∨ input = .bodyRead (.error error) →
          s.advance input = some s' → s'.Invariant := by
        intro input hinput hadvance
        refine hinv.advance hadvance fun o ho _ state hstate => ?_
        rw [expected_of_failed (hinput.imp (· ▸ ho) (· ▸ ho))] at hstate
        cases hstate
      obtain ⟨_, h⟩ := h
      split at h
      next => exact hfailed _ (.inr rfl) h
      next => exact hfailed _ (.inl rfl) h
  | polled =>
      by_cases hpc : ∃ expectedLen, s.task.pc = .body expectedLen
      · obtain ⟨expectedLen, hpc⟩ := hpc
        exact hinv.polled_body hpc h
      · exact hinv.polled_line hkeeps (not_exists.mp hpc) h
  | pop => exact hinv.pop hkeeps h
  | register => exact hinv.advance_internal h nofun nofun nofun
  | resume => exact hinv.advance_internal h nofun nofun nofun
  | written ok => exact hinv.advance_internal h nofun nofun nofun
  | notify => exact hinv.advance_internal h nofun nofun nofun
  | cancelled => exact hinv.advance_internal h nofun nofun nofun
  | arrival envelope =>
      obtain rfl := Option.some.inj h
      exact ⟨hinv.tracks, hinv.delivers, hinv.wellFormed⟩
  | popElsewhere =>
      obtain rfl := Option.some.inj h
      exact ⟨hinv.tracks, hinv.delivers, hinv.wellFormed⟩
  | requeueElsewhere envelope =>
      obtain rfl := Option.some.inj h
      exact ⟨hinv.tracks, hinv.delivers, hinv.wellFormed⟩
  | notifyElsewhere =>
      obtain rfl := Option.some.inj h
      refine ⟨fun heof state hstate => ?_, hinv.delivers, hinv.wellFormed.notified⟩
      exact hinv.tracks heof state (expected_notified ▸ hstate)
  | cancelChild =>
      obtain rfl := Option.some.inj h
      exact ⟨hinv.tracks, hinv.delivers, hinv.wellFormed⟩
  | cancelPool =>
      obtain rfl := Option.some.inj h
      exact ⟨hinv.tracks, hinv.delivers, hinv.wellFormed⟩

/-- Nothing is delivered behind the state `UNKNOWN`. -/
theorem DeliversWhenReady.notMem_drop {log : List Exchange} (h : DeliversWhenReady log) {n : ℕ}
    (hn : handshakeTable (log.take n) = .unknown) (envelope : EventEnvelope) :
    .delivery envelope ∉ log.drop n := by
  intro hmem
  obtain ⟨i, hi⟩ := List.mem_iff_getElem?.mp hmem
  rw [List.getElem?_drop] at hi
  have hready := h (n + i) envelope hi
  rw [List.take_add, handshakeTable, List.foldl_append, ← handshakeTable, hn,
    HandshakeState.foldl_exchange_unknown] at hready
  cases hready

/-- A wire task that keeps to the table delivers an event only when the table, run on everything
that was received and delivered before, is in `READY`. It holds at most one event that is not
acknowledged, and delivers nothing more once the table is in `UNKNOWN`. -/
theorem handshake_of_reachable {pool : EventListenerPoolInner}
    (h : (system pool).ReachableWhile KeepsToTable s) :
    (∀ n envelope, s.log[n]? = some (.delivery envelope) →
        handshakeTable (s.log.take n) = .ready) ∧
      s.task.held.length ≤ 1 ∧
      ∀ n, handshakeTable (s.log.take n) = .unknown →
        ∀ envelope, .delivery envelope ∉ s.log.drop n := by
  have hinv : s.Invariant := by
    refine TransitionSystem.ReachableWhile.invariant (I := Invariant) ?_ ?_ h
    · rintro _ rfl
      refine ⟨fun _ state hstate => ?_, nofun, WireTask.wellFormed_of_none rfl⟩
      obtain rfl := Option.some.inj hstate
      rfl
    · intro a l b _ ha hl hstep
      exact ha.next hl hstep
  exact ⟨hinv.delivers, hinv.wellFormed.length_held,
    fun n hn envelope => hinv.delivers.notMem_drop hn envelope⟩

set_option maxRecDepth 4096 in
/-- An event that is delivered and acknowledged, and the token for the next one in two chunks. -/
theorem handshake_of_answered_event :
    ∃ s, (system (.new "pool" "host" ["EVENT"] 1)).ReachableWhile KeepsToTable s ∧
      s.log[6]? = some (.delivery ⟨0, 0, "pool", "TICK_5", "when:0"⟩) ∧
      handshakeTable (s.log.take 6) = .ready ∧ s.task.held.length ≤ 1 := by
  obtain ⟨s, hreach, hlog⟩ := TransitionSystem.exists_reachableWhile
    (G := KeepsToTable) (i := new (.new "pool" "host" ["EVENT"] 1)) (f := next)
    (fun s => s.log[6]? = some (.delivery ⟨0, 0, "pool", "TICK_5", "when:0"⟩))
    [.arrival ⟨0, 0, "pool", "TICK_5", "when:0"⟩, .received (Text.utf8 "READY\n"), .polled, .notify,
      .pop, .written true, .received (Text.utf8 "RESULT 2\nOKREA"), .polled, .polled, .polled,
      .received (Text.utf8 "DY\n"), .polled, .notify] (by decide)
  obtain ⟨hready, hheld, _⟩ := handshake_of_reachable hreach
  exact ⟨s, hreach, hlog, hready 6 _ hlog, hheld⟩

/-- A byte that arrives in state `READY` without a newline is taken by the read in progress and lost
with it when an event arrives: the event is delivered although the table is in `UNKNOWN`. -/
theorem delivers_after_speculative_data :
    ∃ s, (system (.new "pool" "host" ["EVENT"] 1)).Reachable s ∧
      ∃ n envelope, s.log[n]? = some (.delivery envelope) ∧
        handshakeTable (s.log.take n) = .unknown := by
  obtain ⟨s, hreach, hlog⟩ := TransitionSystem.exists_reachableWhile
    (G := fun _ _ => True) (i := new (.new "pool" "host" ["EVENT"] 1)) (f := next)
    (fun s => s.log = (Text.utf8 "READY\nx").map .byte ++
      [.delivery ⟨0, 0, "pool", "TICK_5", "when:0"⟩])
    [.received (Text.utf8 "READY\n"), .polled, .notify, .received (Text.utf8 "x"), .polled,
      .arrival ⟨0, 0, "pool", "TICK_5", "when:0"⟩, .pop, .written true] (by decide)
  refine ⟨s, hreach, 7, ⟨0, 0, "pool", "TICK_5", "when:0"⟩, ?_, ?_⟩
  · rw [hlog]
    rfl
  · rw [hlog]
    decide

end ListenerWire

end Rsupervisord
