import Rsupervisord.Support.Text

/-!
# Event listener protocol

The envelope of an event, its wire format, and the states and answers of the `READY`/`RESULT`
handshake with a listener process.
-/

namespace Rsupervisord

/-- An event on its way to a listener process. -/
structure EventEnvelope where
  globalSerial : ℕ
  poolSerial : ℕ
  pool : String
  eventName : String
  payload : String
  deriving DecidableEq, Repr

/-- `EventEnvelope::format_wire`: the header line and the payload. The length counts characters. -/
def EventEnvelope.formatWire (e : EventEnvelope) (serverIdentifier : String) : String :=
  let charLen := e.payload.toList.length
  s!"ver:3.0 server:{serverIdentifier} serial:{e.globalSerial} pool:{e.pool} " ++
    s!"poolserial:{e.poolSerial} eventname:{e.eventName} len:{charLen}\n{e.payload}"

/-- State of a listener process in the handshake. -/
inductive ListenerState
  /-- Waiting for `READY`. -/
  | acknowledged
  /-- `READY` was received. -/
  | ready
  /-- An event was delivered, its `RESULT` is awaited. -/
  | busy
  /-- The process broke the protocol and receives no further events. -/
  | unknown
  deriving DecidableEq, Repr

/-- Verdict on the body of a `RESULT`. -/
inductive ProcessResult
  | ok
  | rejected
  | protocolError
  deriving DecidableEq, Repr

/-- `evaluate_result`. -/
def evaluateResult (body : String) : ProcessResult :=
  if Text.trim body = "OK" then .ok else .rejected

/-- `EVENT_LISTENER_MAX_RESULT_BYTES`. -/
def eventListenerMaxResultBytes : ℕ := 1048576

/-- `event_matches_subscription`: an event matches a subscription to `EVENT`, to its own name or to
a prefix of its name that ends before an underscore. Case does not matter. -/
def eventMatchesSubscription (eventName : String) (subscribed : List String) : Bool :=
  let eventUpper := Text.toAsciiUppercase eventName
  subscribed.any fun sub =>
    let subUpper := Text.toAsciiUppercase (Text.trim sub)
    subUpper = "EVENT" || subUpper = eventUpper ||
      (subUpper.toList ++ ['_']).isPrefixOf eventUpper.toList

end Rsupervisord
