import Rsupervisord.EventListener.Protocol

/-!
# Event listener pool

The shared state of an event listener pool and the three operations on its bounded buffer. Every
operation locks the buffer once, so each is one atomic step on it. The operations that may overflow
return the event they discard.

`accept_event` first draws the serials and then locks the buffer. The two steps are `number` and
`insertAccepted`; `acceptEvent` runs them without an interruption.
-/

namespace Rsupervisord

/-- Shared state of an event listener pool. -/
structure EventListenerPoolInner where
  poolName : String
  serverIdentifier : String
  /-- The subscribed events. -/
  events : List String
  bufferSize : ℕ
  /-- The next pool serial, a 64-bit counter. -/
  poolSerial : ℕ
  /-- The buffered events, the next one to be delivered first. -/
  buffer : List EventEnvelope
  /-- The cancellation token of the pool is triggered. -/
  cancelToken : Bool
  deriving DecidableEq, Repr

namespace EventListenerPoolInner

/-- `EventListenerPool::new`. -/
def new (poolName serverIdentifier : String) (events : List String) (bufferSize : ℕ) :
    EventListenerPoolInner where
  poolName := poolName
  serverIdentifier := serverIdentifier
  events := events
  bufferSize := max bufferSize 1
  poolSerial := 0
  buffer := []
  cancelToken := false

variable (p : EventListenerPoolInner)

/-- Draw the serials of a new event and build its envelope. -/
def number (globalSerial : ℕ) (eventName payload : String) :
    EventEnvelope × EventListenerPoolInner :=
  (⟨globalSerial, p.poolSerial, p.poolName, eventName, payload⟩,
    { p with poolSerial := (p.poolSerial + 1) % 2 ^ 64 })

/-- The locked section of `accept_event`: the event goes to the end of the buffer, and a full buffer
loses its first event. -/
def insertAccepted (envelope : EventEnvelope) :
    Option EventEnvelope × EventListenerPoolInner :=
  if p.buffer.length ≥ p.bufferSize then
    (p.buffer.head?, { p with buffer := p.buffer.tail ++ [envelope] })
  else (none, { p with buffer := p.buffer ++ [envelope] })

/-- `accept_event` on its own. Returns the discarded event and the next global serial. -/
def acceptEvent (globalSerial : ℕ) (eventName payload : String) :
    (Option EventEnvelope × EventListenerPoolInner) × ℕ :=
  if eventMatchesSubscription eventName p.events then
    let (envelope, p) := p.number globalSerial eventName payload
    (p.insertAccepted envelope, (globalSerial + 1) % 2 ^ 64)
  else ((none, p), globalSerial)

/-- The locked section of `requeue_rejected`: the event goes to the head of the buffer, and a full
buffer loses its last event. -/
def requeueRejected (envelope : EventEnvelope) : Option EventEnvelope × EventListenerPoolInner :=
  if p.buffer.length ≥ p.bufferSize then
    (p.buffer.getLast?, { p with buffer := envelope :: p.buffer.dropLast })
  else (none, { p with buffer := envelope :: p.buffer })

/-- `pop_next_event`. -/
def popNextEvent : Option EventEnvelope × EventListenerPoolInner :=
  (p.buffer.head?, { p with buffer := p.buffer.tail })

end EventListenerPoolInner

end Rsupervisord
