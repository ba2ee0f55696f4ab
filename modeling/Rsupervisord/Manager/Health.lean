import Rsupervisord.Program.Config

/-!
# Health probe runner

The loop of `HealthProbeRunner::run`, one probe at a time. The runner counts consecutive
failures and reports a change of its verdict: `healthy` on the first success that follows the
start or an unhealthy report, `unhealthy` when the failures reach the threshold.
-/

namespace Rsupervisord

/-- Events a health probe sends to the program actor. -/
inductive HealthEvent
  | healthy
  | unhealthy
  deriving DecidableEq, Repr

/-- The local state of a running probe loop. -/
structure HealthProbeRunner where
  /-- Probe settings of the program. -/
  config : HealthCheckConfig
  /-- Failures since the last success. -/
  consecutiveFailures : ℕ
  /-- The verdict reported last. -/
  lastReported : HealthStatus
  deriving DecidableEq

namespace HealthProbeRunner

/-- The state at the top of the loop before the first probe. -/
def new (config : HealthCheckConfig) : HealthProbeRunner where
  config := config
  consecutiveFailures := 0
  lastReported := .starting

/-- One pass through the loop body after a probe returned `isOk`: the new loop state and the event
sent, if any. The failure counter is a 32-bit number that wraps. -/
def onProbe (r : HealthProbeRunner) (isOk : Bool) : HealthProbeRunner × Option HealthEvent :=
  if isOk then
    let r := { r with consecutiveFailures := 0 }
    if r.lastReported ≠ .healthy then
      ({ r with lastReported := .healthy }, some .healthy)
    else (r, none)
  else
    let r := { r with consecutiveFailures := (r.consecutiveFailures + 1) % 2 ^ 32 }
    if r.consecutiveFailures ≥ r.config.failureThreshold ∧ r.lastReported ≠ .unhealthy then
      ({ r with lastReported := .unhealthy }, some .unhealthy)
    else (r, none)

end HealthProbeRunner

end Rsupervisord
