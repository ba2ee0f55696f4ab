import Mathlib.Data.List.Chain
import Mathlib.Data.List.Induction
import Rsupervisord.Manager.Health

/-!
# Reports of the health probe

The events that the probe loop sends over a sequence of probe outcomes. A failing program is
reported once, when the failures in a row reach the threshold, and a working one at its first
success and at the first success behind a report of a failure. The counter of failures wraps only
long after the report.

## Main definitions

* `HealthProbeRunner.run`: the loop over a sequence of outcomes.
* `HealthProbeRunner.failureRun`: the failures since the last success.

## Main results

* `HealthProbeRunner.events_spec`: when the events are sent.
-/

namespace Rsupervisord

namespace HealthProbeRunner

/-- The loop over a sequence of outcomes: its state, and the events that were sent. -/
def run (config : HealthCheckConfig) (outcomes : List Bool) :
    HealthProbeRunner × List HealthEvent :=
  outcomes.foldl (fun (r, events) isOk =>
    let (r, event) := r.onProbe isOk
    (r, events ++ event.toList)) (new config, [])

/-- The events that were sent over a sequence of outcomes. -/
def sent (config : HealthCheckConfig) (outcomes : List Bool) : List HealthEvent :=
  (run config outcomes).2

/-- The event that is sent at the outcome `isOk` behind others, if any. -/
def eventAt (config : HealthCheckConfig) (outcomes : List Bool) (isOk : Bool) :
    Option HealthEvent :=
  ((run config outcomes).1.onProbe isOk).2

/-- The failures since the last success. -/
def failureRun (outcomes : List Bool) : ℕ := (outcomes.reverse.takeWhile fun isOk => !isOk).length

/-- The verdict that stands after the last event. -/
def verdictOf : Option HealthEvent → HealthStatus
  | none => .starting
  | some .healthy => .healthy
  | some .unhealthy => .unhealthy

/-- What holds of the loop after the outcomes. -/
structure Reported (config : HealthCheckConfig) (outcomes : List Bool) (r : HealthProbeRunner)
    (events : List HealthEvent) : Prop where
  config_eq : r.config = config
  failures : r.consecutiveFailures = failureRun outcomes % 2 ^ 32
  verdict : r.lastReported = verdictOf events.getLast?
  alternates : events.IsChain (· ≠ ·)
  /-- Failures that reach the threshold have been reported. -/
  overdue : max config.failureThreshold 1 ≤ failureRun outcomes →
    events.getLast? = some .unhealthy
  /-- A success has been reported. -/
  recovered : events.getLast? ≠ some .unhealthy →
    (events.getLast? = some .healthy ↔ true ∈ outcomes)

variable {config : HealthCheckConfig} {outcomes : List Bool} {r : HealthProbeRunner}
  {events : List HealthEvent}

theorem failureRun_success : failureRun (outcomes ++ [true]) = 0 := by
  simp [failureRun]

theorem failureRun_failure : failureRun (outcomes ++ [false]) = failureRun outcomes + 1 := by
  simp [failureRun]

theorem run_concat (isOk : Bool) : run config (outcomes ++ [isOk]) =
    (((run config outcomes).1.onProbe isOk).1,
      (run config outcomes).2 ++ ((run config outcomes).1.onProbe isOk).2.toList) := by
  rw [run, List.foldl_append, ← run]
  rfl

theorem verdictOf_eq_healthy_iff {last : Option HealthEvent} :
    verdictOf last = .healthy ↔ last = some .healthy := by
  obtain _ | _ | _ := last <;> simp [verdictOf]

theorem verdictOf_eq_unhealthy_iff {last : Option HealthEvent} :
    verdictOf last = .unhealthy ↔ last = some .unhealthy := by
  obtain _ | _ | _ := last <;> simp [verdictOf]

/-- An event that is not the last one goes on alternating. -/
theorem isChain_concat {event : HealthEvent} (h : events.IsChain (· ≠ ·))
    (hlast : events.getLast? ≠ some event) : (events ++ [event]).IsChain (· ≠ ·) := by
  rw [List.isChain_append]
  refine ⟨h, .singleton event, ?_⟩
  rintro x hx y hy rfl
  obtain rfl := Option.some.inj hy
  exact hlast hx

/-! ## One probe -/

/-- A success is reported unless the last report was one. -/
theorem Reported.onProbe_success (h : Reported config outcomes r events) :
    r.onProbe true = if events.getLast? = some .healthy then
        ({ r with consecutiveFailures := 0 }, none)
      else ({ r with consecutiveFailures := 0, lastReported := .healthy }, some .healthy) := by
  rw [onProbe, if_pos rfl]
  simp only [h.verdict, ne_eq, verdictOf_eq_healthy_iff, ite_not]

/-- A failure is reported when it is the last one up to the threshold, unless the last report was
of a failure. -/
theorem Reported.onProbe_failure (h : Reported config outcomes r events)
    (hthreshold : config.failureThreshold < 2 ^ 32) :
    r.onProbe false = if failureRun (outcomes ++ [false]) = max config.failureThreshold 1 ∧
        events.getLast? ≠ some .unhealthy then
        ({ r with
          consecutiveFailures := failureRun (outcomes ++ [false]) % 2 ^ 32
          lastReported := .unhealthy }, some .unhealthy)
      else ({ r with consecutiveFailures := failureRun (outcomes ++ [false]) % 2 ^ 32 }, none) := by
  have hcount : (r.consecutiveFailures + 1) % 2 ^ 32 =
      failureRun (outcomes ++ [false]) % 2 ^ 32 := by
    rw [h.failures, failureRun_failure]
    omega
  have hcondition : (failureRun (outcomes ++ [false]) % 2 ^ 32 ≥ config.failureThreshold ∧
      events.getLast? ≠ some .unhealthy) ↔
        failureRun (outcomes ++ [false]) = max config.failureThreshold 1 ∧
          events.getLast? ≠ some .unhealthy := by
    refine and_congr_left fun hlast => ?_
    -- The counter has not wrapped, since no failure was reported.
    have hbefore : failureRun outcomes < max config.failureThreshold 1 :=
      not_le.mp fun hle => hlast (h.overdue hle)
    rw [failureRun_failure]
    omega
  rw [onProbe, if_neg Bool.false_ne_true]
  simp only [hcount, h.config_eq, h.verdict, ne_eq, verdictOf_eq_unhealthy_iff]
  simp only [ne_eq] at hcondition
  simp only [hcondition]

/-- A probe keeps the account. -/
theorem Reported.onProbe (h : Reported config outcomes r events)
    (hthreshold : config.failureThreshold < 2 ^ 32) (isOk : Bool) :
    Reported config (outcomes ++ [isOk]) (r.onProbe isOk).1
      (events ++ (r.onProbe isOk).2.toList) := by
  cases isOk with
  | true =>
    rw [h.onProbe_success]
    split_ifs with hlast
    · refine ⟨h.config_eq, ?_, ?_, ?_, ?_, ?_⟩
      · rw [failureRun_success]
        rfl
      · simpa using h.verdict
      · simpa using h.alternates
      · rw [failureRun_success]
        omega
      · simp [hlast]
    · refine ⟨h.config_eq, ?_, ?_, ?_, ?_, ?_⟩
      · rw [failureRun_success]
        rfl
      · simp [verdictOf]
      · exact isChain_concat h.alternates hlast
      · rw [failureRun_success]
        omega
      · simp
  | false =>
    rw [h.onProbe_failure hthreshold]
    split_ifs with hreport
    · refine ⟨h.config_eq, rfl, ?_, ?_, ?_, ?_⟩
      · simp [verdictOf]
      · exact isChain_concat h.alternates hreport.2
      · simp
      · simp
    · refine ⟨h.config_eq, rfl, ?_, ?_, ?_, ?_⟩
      · simpa using h.verdict
      · simpa using h.alternates
      · -- Failures beyond the threshold were reported when they reached it.
        intro hle
        rw [Option.toList_none, List.append_nil]
        by_contra hlast
        have hne : failureRun (outcomes ++ [false]) ≠ max config.failureThreshold 1 :=
          fun heq => hreport ⟨heq, hlast⟩
        rw [failureRun_failure] at hle hne
        exact hlast (h.overdue (by omega))
      · simpa using h.recovered

/-- The account holds after any outcomes. -/
theorem reported_run (hthreshold : config.failureThreshold < 2 ^ 32) (outcomes : List Bool) :
    Reported config outcomes (run config outcomes).1 (run config outcomes).2 := by
  induction outcomes using List.reverseRecOn with
  | nil =>
    refine ⟨rfl, rfl, rfl, .nil, fun hle => ?_, fun _ => ?_⟩
    · have hzero : failureRun [] = 0 := rfl
      omega
    · simp [run]
  | append_singleton outcomes isOk ih =>
    rw [run_concat]
    exact ih.onProbe hthreshold isOk

/-! ## Events -/

/-- The events alternate. A failure is reported exactly when the failures since the last success
reach the threshold and the last event is no report of a failure; a success is reported exactly when
it is the first one or the last event is a report of a failure. -/
theorem events_spec (hthreshold : config.failureThreshold < 2 ^ 32) (outcomes : List Bool) :
    (sent config outcomes).IsChain (· ≠ ·) ∧ ∀ isOk,
      (eventAt config outcomes isOk = some .unhealthy ↔
        failureRun (outcomes ++ [isOk]) = max config.failureThreshold 1 ∧
          (sent config outcomes).getLast? ≠ some .unhealthy) ∧
      (eventAt config outcomes isOk = some .healthy ↔
        isOk = true ∧ (true ∉ outcomes ∨ (sent config outcomes).getLast? = some .unhealthy)) := by
  have h := reported_run hthreshold outcomes
  refine ⟨h.alternates, fun isOk => ?_⟩
  rw [eventAt, sent]
  cases isOk with
  | true =>
    rw [h.onProbe_success, failureRun_success]
    have hpositive : ¬ 0 = max config.failureThreshold 1 := by omega
    split_ifs with hlast
    · have hsuccess : true ∈ outcomes := (h.recovered (by simp [hlast])).mp hlast
      simp [hpositive, hlast, hsuccess]
    · refine ⟨by simp [hpositive], iff_of_true rfl ⟨rfl, ?_⟩⟩
      by_cases hunhealthy : (run config outcomes).2.getLast? = some .unhealthy
      · exact .inr hunhealthy
      · exact .inl (mt (h.recovered hunhealthy).mpr hlast)
  | false =>
    rw [h.onProbe_failure hthreshold]
    split_ifs with hreport
    · simp [hreport]
    · simp [hreport]

/-- The second failure behind a success is reported when the threshold is two. -/
theorem unhealthy_of_two_failures :
    eventAt ⟨.tcp "localhost:80", 0, 0, 2, 0⟩ [false, true, false] false = some .unhealthy :=
  ((@events_spec ⟨.tcp "localhost:80", 0, 0, 2, 0⟩ (by decide) [false, true, false]).2 false).1.mpr
    (by decide)

end HealthProbeRunner

end Rsupervisord
