import Rsupervisord.EventListener.Pool
import Rsupervisord.Support.TransitionSystem

/-!
# Wire tasks of an event listener pool

A pool with its buffer, the calls of `accept_event` under way and the wire tasks of its listener
processes (`EventListenerActor::spawn_child` of `eventlistener/program.rs`). The tasks run on
several threads, so every locked section and every use of the notifier is a step of its own.

* `WirePc` says where a wire task stands: at an await point, between a failed pop and the
  registration for a notification, or before a call of `notify_waiters`.
* `WireTask.step` is one step of a task, `WireInput` what the listener process and the operating
  system answer to it.
* `PoolSystem.next` interleaves the tasks with the arrival of events and with cancellations.

`accepted`, `acked`, `discarded` and `lost` record what became of the events. No step reads them.
-/

namespace Rsupervisord

/-- Where a wire task stands. -/
inductive WirePc
  /-- At the await point of its state: a read, or in state `ready` a read and an attempt to pop. -/
  | awaiting
  /-- In state `ready`, between a failed pop and the creation of the notification future. -/
  | gap
  /-- In state `ready`, registered for a notification; `woken` when one has arrived. -/
  | waiting (woken : Bool)
  /-- Writing an envelope to the listener process. -/
  | writing (envelope : EventEnvelope)
  /-- Reading the `expectedLen` bytes of a `RESULT` body. -/
  | body (expectedLen : ℕ)
  /-- Before a call of `notify_waiters`; the task ends behind it when `ends`. -/
  | notifying (ends : Bool)
  | ended
  deriving DecidableEq, Repr

/-- The wire task of one listener process. -/
structure WireTask where
  state : ListenerState
  currentEnvelope : Option EventEnvelope
  pc : WirePc
  /-- The cancellation token of the child is triggered. -/
  cancelToken : Bool
  deriving DecidableEq, Repr

/-- What lets a wire task make a step. -/
inductive WireInput
  /-- A line was read; the empty line stands for the end of the stream. -/
  | lineRead (line : Except String String)
  /-- The attempt to pop an event. -/
  | pop
  /-- The creation of the notification future. -/
  | register
  /-- The task resumes after a notification. -/
  | resume
  /-- The write of an envelope has ended. -/
  | written (ok : Bool)
  /-- The read of a `RESULT` body has ended. -/
  | bodyRead (body : Except String (List UInt8))
  /-- The call of `notify_waiters`. -/
  | notify
  /-- A triggered token is noticed. -/
  | cancelled
  deriving DecidableEq

/-- A task and its pool after a step, and what the step did. -/
structure WireOutcome where
  task : WireTask
  pool : EventListenerPoolInner
  acked : List EventEnvelope := []
  discarded : List EventEnvelope := []
  lost : List EventEnvelope := []
  /-- The step called `notify_waiters`. -/
  notifies : Bool := false

namespace WireTask

/-- The task of a process that was just spawned. -/
def new : WireTask where
  state := .acknowledged
  currentEnvelope := none
  pc := .awaiting
  cancelToken := false

/-- The events the task holds: written or delivered and not yet answered. -/
def held (t : WireTask) : List EventEnvelope :=
  match t.pc with
  | .writing envelope => envelope :: t.currentEnvelope.toList
  | _ => t.currentEnvelope.toList

/-- Hand the current envelope back to the pool, if there is one, and go on or end. -/
def requeueCurrent (t : WireTask) (pool : EventListenerPoolInner) (ends : Bool) : WireOutcome :=
  match t.currentEnvelope with
  | some envelope =>
      let (discarded, pool) := pool.requeueRejected envelope
      { task := { t with currentEnvelope := none, pc := .notifying ends }
        pool
        discarded := discarded.toList }
  | none => { task := { t with pc := if ends then .ended else .awaiting }, pool }

/-- The answer to a line in state `busy`. -/
def onResultHeader (t : WireTask) (pool : EventListenerPoolInner) (line : String) : WireOutcome :=
  let trimmed := Text.trimEndMatches (fun c => c = '\r' || c = '\n') line
  match Text.stripPrefix "RESULT " trimmed with
  | some lenStr =>
      match Text.parseUnsigned (2 ^ 64) (Text.trim lenStr) with
      | some expectedLen =>
          if expectedLen > eventListenerMaxResultBytes then
            { t with state := .unknown }.requeueCurrent pool false
          else { task := { t with pc := .body expectedLen }, pool }
      | none => { t with state := .unknown }.requeueCurrent pool false
  | none => { t with state := .unknown }.requeueCurrent pool false

/-- The end of the read of a `RESULT` body. -/
def onResultBody (t : WireTask) (pool : EventListenerPoolInner)
    (body : Except String (List UInt8)) : WireOutcome :=
  match body with
  | .ok bytes =>
      if evaluateResult (Text.fromUtf8Lossy bytes) = .ok then
        { task := { t with state := .acknowledged, currentEnvelope := none, pc := .awaiting }
          pool
          acked := t.currentEnvelope.toList }
      else { t with state := .acknowledged }.requeueCurrent pool false
  | .error _ => { t with state := .unknown }.requeueCurrent pool false

/-- The answer to a line, by the state of the handshake. The end of the stream and a failed read
end the task. In state `unknown` nothing is read. -/
def onLine (t : WireTask) (pool : EventListenerPoolInner) (line : Except String String) :
    Option WireOutcome :=
  if t.state = .unknown then none
  else
    match line with
    | .error _ => some (t.requeueCurrent pool true)
    | .ok line =>
        if line = "" then some (t.requeueCurrent pool true)
        else
          match t.state with
          | .acknowledged =>
              if Text.trim line = "READY" then
                some { task := { t with state := .ready, pc := .notifying false }, pool }
              else some { task := { t with state := .unknown, pc := .awaiting }, pool }
          | .ready => some { task := { t with state := .unknown, pc := .awaiting }, pool }
          | .busy => some (t.onResultHeader pool line)
          | .unknown => none

/-- The token that the task listens to is triggered. -/
def isCancelled (t : WireTask) (pool : EventListenerPoolInner) : Bool :=
  t.cancelToken || pool.cancelToken

/-- One step of a wire task, when the input fits its place. -/
def step (t : WireTask) (pool : EventListenerPoolInner) : WireInput → Option WireOutcome
  | .lineRead line =>
      match t.pc with
      | .awaiting => t.onLine pool line
      | .waiting _ => t.onLine pool line
      | _ => none
  | .pop =>
      if t.state = .ready ∧ t.pc = .awaiting then
        match pool.popNextEvent with
        | (some envelope, pool) => some { task := { t with pc := .writing envelope }, pool }
        | (none, pool) => some { task := { t with pc := .gap }, pool }
      else none
  | .register =>
      if t.pc = .gap then some { task := { t with pc := .waiting false }, pool } else none
  | .resume =>
      if t.pc = .waiting true then some { task := { t with pc := .awaiting }, pool } else none
  | .written ok =>
      match t.pc with
      | .writing envelope =>
          if ok then
            some { task := { t with
                     state := .busy, currentEnvelope := some envelope, pc := .awaiting }
                   pool }
          else
            let (discarded, pool) := pool.requeueRejected envelope
            some { task := { t with pc := .notifying true }
                   pool
                   discarded := discarded.toList }
      | _ => none
  | .bodyRead body =>
      match t.pc with
      | .body expectedLen =>
          match body with
          | .ok bytes =>
              if bytes.length = expectedLen then some (t.onResultBody pool body) else none
          | .error _ => some (t.onResultBody pool body)
      | _ => none
  | .notify =>
      match t.pc with
      | .notifying ends =>
          some { task := { t with pc := if ends then .ended else .awaiting }
                 pool
                 notifies := true }
      | _ => none
  | .cancelled =>
      let ended : WireOutcome :=
        { task := { t with currentEnvelope := none, pc := .ended }, pool, lost := t.held }
      match t.pc with
      | .awaiting | .waiting _ | .writing _ | .body _ =>
          if t.isCancelled pool then some ended else none
      | _ => none

/-- A call of `notify_waiters` reaches the registered tasks. -/
def notified (t : WireTask) : WireTask :=
  match t.pc with
  | .waiting _ => { t with pc := .waiting true }
  | _ => t

end WireTask

/-- A pool, the events on their way into it and its wire tasks. -/
structure PoolSystem where
  pool : EventListenerPoolInner
  /-- The next global serial, a 64-bit counter shared by all pools. -/
  globalSerial : ℕ
  /-- Envelopes of `accept_event` calls that have not yet locked the buffer. -/
  numbered : List EventEnvelope
  /-- The `accept_event` calls between the buffer and `notify_waiters`. -/
  notifying : ℕ
  tasks : List WireTask
  /-- Every event that entered the buffer for the first time. -/
  accepted : Multiset EventEnvelope
  /-- Every event acknowledged with `OK`. -/
  acked : Multiset EventEnvelope
  /-- Every event discarded because the buffer was full. -/
  discarded : Multiset EventEnvelope
  /-- Every event a task held when it noticed its cancellation. -/
  lost : Multiset EventEnvelope
  deriving DecidableEq

namespace PoolSystem

/-- A pool without events and tasks. -/
def new (pool : EventListenerPoolInner) : PoolSystem where
  pool := pool
  globalSerial := 0
  numbered := []
  notifying := 0
  tasks := []
  accepted := 0
  acked := 0
  discarded := 0
  lost := 0

/-- Steps of the pool, of its wire tasks and of the actors around them. -/
inductive Label
  /-- `accept_event` draws the serials of a subscribed event. -/
  | number (eventName payload : String)
  /-- Another pool draws a global serial. -/
  | numberElsewhere
  /-- The `i`-th numbered event is put into the buffer. -/
  | insert (i : ℕ)
  /-- An `accept_event` call notifies the waiting tasks. -/
  | notify
  /-- A listener process is spawned. -/
  | spawn
  /-- The token of the `i`-th listener process is cancelled: it is stopped, restarted or has
  exited. -/
  | cancelChild (i : ℕ)
  /-- The token of the pool is cancelled. -/
  | cancelPool
  /-- The `i`-th wire task makes a step. -/
  | task (i : ℕ) (input : WireInput)
  deriving DecidableEq

/-- One step, when it is enabled. -/
def next (s : PoolSystem) : Label → Option PoolSystem
  | .number eventName payload =>
      if eventMatchesSubscription eventName s.pool.events then
        let (envelope, pool) := s.pool.number s.globalSerial eventName payload
        some { s with
          pool
          globalSerial := (s.globalSerial + 1) % 2 ^ 64
          numbered := s.numbered ++ [envelope] }
      else none
  | .numberElsewhere => some { s with globalSerial := (s.globalSerial + 1) % 2 ^ 64 }
  | .insert i =>
      match s.numbered[i]? with
      | some envelope =>
          let (discarded, pool) := s.pool.insertAccepted envelope
          some { s with
            pool
            numbered := s.numbered.eraseIdx i
            notifying := s.notifying + 1
            accepted := s.accepted + {envelope}
            discarded := s.discarded + discarded.toList }
      | none => none
  | .notify =>
      if s.notifying = 0 then none
      else some { s with
        notifying := s.notifying - 1
        tasks := s.tasks.map WireTask.notified }
  | .spawn => some { s with tasks := s.tasks ++ [.new] }
  | .cancelChild i =>
      match s.tasks[i]? with
      | some t => some { s with tasks := s.tasks.set i { t with cancelToken := true } }
      | none => none
  | .cancelPool => some { s with pool := { s.pool with cancelToken := true } }
  | .task i input =>
      match s.tasks[i]? with
      | some t =>
          match t.step s.pool input with
          | some o =>
              let tasks := s.tasks.set i o.task
              some { s with
                pool := o.pool
                tasks := if o.notifies then tasks.map WireTask.notified else tasks
                acked := s.acked + o.acked
                discarded := s.discarded + o.discarded
                lost := s.lost + o.lost }
          | none => none
      | none => none

/-- The system of a new pool. -/
def system (poolName serverIdentifier : String) (events : List String) (bufferSize : ℕ) :
    TransitionSystem PoolSystem Label :=
  .ofNext (new (.new poolName serverIdentifier events bufferSize)) next

end PoolSystem

end Rsupervisord
