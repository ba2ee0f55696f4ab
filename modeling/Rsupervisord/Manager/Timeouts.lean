import Mathlib.Algebra.Order.BigOperators.Group.List
import Mathlib.Algebra.Order.Group.Nat
import Rsupervisord.Config.Validate
import Rsupervisord.Manager.Targets

/-!
# Outer and inner time limits

A client waits for the manager, and the manager waits for the programs. The time that the handle of
the manager allows is computed from the default hook and drain times, the time that the handle of a
program allows from the configured ones. The outer limits are cut off at `maxTimeout`, so that they
are followed here up to this bound: `Capped`.

## Main results

* `ManagerHandle.dominated_iff`: when the outer limit of a request covers the inner ones.
* `ManagerHandle.suffices_of_defaults`: it does when no program waits longer for its hooks and its
  kill than by default.
* `ManagerHandle.neverPanics_iff`: when no operation of the handles panics.
-/

namespace Rsupervisord

/-! ## Durations up to the bound -/

/-- Two durations are the same as long as they are below `maxTimeout`. -/
def Capped (a b : ℕ) : Prop := min a maxTimeout = min b maxTimeout

namespace Capped

variable {a a' b b' : ℕ}

/-- The bound is a duration. -/
theorem maxTimeout_le_durationMax : @LE.le ℕ _ maxTimeout durationMax := by decide

protected theorem refl (a : ℕ) : Capped a a := rfl

/-- Sums of the same durations. -/
theorem add (ha : Capped a a') (hb : Capped b b') : Capped (a + b) (a' + b') := by
  unfold Capped at *
  omega

/-- A checked sum that falls back to the bound. -/
theorem addOrMaxTimeout (ha : Capped a a') (hb : Capped b b') :
    Capped (addOrMaxTimeout a b) (a' + b') := by
  have hsum := ha.add hb
  have hmax := maxTimeout_le_durationMax
  unfold Rsupervisord.addOrMaxTimeout Duration.checkedAdd
  by_cases hfits : @LE.le ℕ _ (a + b) durationMax
  · rw [if_pos hfits]
    exact hsum
  · rw [if_neg hfits, Option.getD_none]
    unfold Capped at *
    omega

/-- Cutting off at the largest duration. -/
theorem min_durationMax (ha : Capped a a') : Capped (min a durationMax) a' := by
  have hmax := maxTimeout_le_durationMax
  unfold Capped at *
  omega

/-- A saturating sum. -/
theorem saturatingAdd (ha : Capped a a') (hb : Capped b b') :
    Capped (Duration.saturatingAdd a b) (a' + b') :=
  (ha.add hb).min_durationMax

/-- A saturating product. -/
theorem saturatingMul (a : ℕ) (k : ℕ) : Capped (Duration.saturatingMul a k) (a * k) :=
  min_durationMax rfl

/-- The saturating sum of a list. -/
theorem foldl_saturatingAdd {α : Type} {f g : α → ℕ} (hfg : ∀ x, Capped (f x) (g x))
    (l : List α) (ha : Capped a a') :
    Capped ((l.map f).foldl Duration.saturatingAdd a) (a' + (l.map g).sum) := by
  induction l generalizing a a' with
  | nil => exact ha
  | cons x l ih =>
      rw [List.map_cons, List.map_cons, List.foldl_cons, List.sum_cons, ← Nat.add_assoc]
      exact ih (ha.saturatingAdd (hfg x))

end Capped

/-- A limit that may be undefined stands for a time: they are the same up to the bound, and the
limit is defined below it. -/
inductive StandsFor : Option ℕ → ℕ → Prop
  | defined {d time : ℕ} : Capped d time → StandsFor (some d) time
  | undefined {time : ℕ} : @LT.lt ℕ _ maxTimeout time → StandsFor none time

/-- Below the bound, defined limits add up to what the times add up to. -/
theorem sum_limits_le_iff {limits : List (Option ℕ)} {times : List ℕ} {a a' outer : ℕ}
    (h : List.Forall₂ StandsFor limits times) (ha : Capped a a')
    (houter : @LT.lt ℕ _ outer maxTimeout) :
    (∃ ds : List ℕ, limits = ds.map some ∧ a + ds.sum ≤ outer) ↔ a' + times.sum ≤ outer := by
  induction h generalizing a a' with
  | nil =>
      simp only [List.nil_eq, List.map_eq_nil_iff, exists_eq_left, List.sum_nil, Nat.add_zero]
      unfold Capped at ha
      omega
  | @cons limit time limits times hlimit _ ih =>
      rw [List.sum_cons]
      cases hlimit with
      | undefined hlt =>
          refine iff_of_false ?_ (by omega)
          rintro ⟨_ | ⟨d, ds⟩, heq, _⟩ <;> simp at heq
      | @defined d _ hlimit =>
          rw [← Nat.add_assoc, ← ih (ha.add hlimit)]
          constructor
          · rintro ⟨_ | ⟨d', ds⟩, heq, hsum⟩
            · simp at heq
            · simp only [List.map_cons, List.cons.injEq, Option.some.injEq] at heq
              obtain ⟨rfl, rfl⟩ := heq
              exact ⟨ds, rfl, by rwa [List.sum_cons, ← Nat.add_assoc] at hsum⟩
          · rintro ⟨ds, rfl, hsum⟩
            exact ⟨d :: ds, rfl, by rwa [List.sum_cons, ← Nat.add_assoc]⟩

/-! ## Requests with a time limit -/

/-- The requests for starting, stopping and restarting a program or a group. -/
inductive TimedRequest
  | startProgram (name : String)
  | stopProgram (name : String) (gracePeriod : Option Duration)
  | restartProgram (name : String) (gracePeriod : Option Duration)
  | startGroup (group : String)
  | stopGroup (group : String) (gracePeriod : Option Duration)
  | restartGroup (group : String) (gracePeriod : Option Duration)

/-- The least limit that the handle sets for a request. -/
def TimedRequest.floor : TimedRequest → Duration
  | startProgram _ | stopProgram _ _ | restartProgram _ _ => awaitAction
  | startGroup _ | stopGroup _ _ => awaitGroup
  | restartGroup _ _ => awaitBulk

/-- The targets that are ordinary programs. The handle of an event listener waits without a
limit. -/
def ordinary (targets : List ProgramConfig) : List ProgramConfig :=
  targets.filter (·.eventListener.isNone)

/-- The period for which a program may stop. -/
def gracePeriodOf (gracePeriod : Option Duration) (cfg : ProgramConfig) : Duration :=
  gracePeriod.getD cfg.stopWaitSecs

namespace ManagerHandle

variable (h : ManagerHandle) (o : HashOrder String)

/-- The targets of a request. -/
def targetsOf : TimedRequest → List ProgramConfig
  | .startProgram name | .stopProgram name _ | .restartProgram name _ =>
      h.findTargetsForProgram o name
  | .startGroup group | .stopGroup group _ | .restartGroup group _ => h.findTargetsForGroup o group

/-- The outer limit: how long the handle of the manager waits. -/
def outerTimeout : TimedRequest → Option Duration
  | .startProgram name => some (h.computeStartProgramTimeout o name)
  | .stopProgram name g => some (h.computeStopProgramTimeout o name g)
  | .restartProgram name g => h.computeRestartProgramTimeout o name g
  | .startGroup group => some (h.computeStartGroupTimeout o group)
  | .stopGroup group g => some (h.computeStopGroupTimeout o group g)
  | .restartGroup group g => some (h.computeRestartGroupTimeout o group g)

end ManagerHandle

/-- The inner limits: how long the handles of the targets wait during a request. A restart of a
group stops its members and starts them again. -/
def innerTimeouts (targets : List ProgramConfig) : TimedRequest → List (Option Duration)
  | .startProgram _ | .startGroup _ => (ordinary targets).map ProcessProgram.startTimeout
  | .stopProgram _ g | .stopGroup _ g =>
      (ordinary targets).map fun cfg =>
        some (ProcessProgram.stopTimeout cfg (gracePeriodOf g cfg))
  | .restartProgram _ g =>
      (ordinary targets).map fun cfg => ProcessProgram.restartTimeout cfg (gracePeriodOf g cfg)
  | .restartGroup _ g =>
      ((ordinary targets).map fun cfg =>
        some (ProcessProgram.stopTimeout cfg (gracePeriodOf g cfg))) ++
        (ordinary targets).map ProcessProgram.startTimeout

namespace ManagerHandle

variable (h : ManagerHandle) (o : HashOrder String)

/-- The outer limit of a request is `maxTimeout`, or at least the sum of the inner limits. -/
def Dominated (r : TimedRequest) : Prop :=
  ∃ outer, h.outerTimeout o r = some outer ∧
    (outer = maxTimeout ∨
      ∃ limits : List Duration, innerTimeouts (h.targetsOf o r) r = limits.map some ∧
        limits.sum ≤ outer)

end ManagerHandle

/-! ## What the limits amount to -/

/-- The time that a program needs to start, from its configured hook time: 10 seconds on top. -/
def startTime (cfg : ProgramConfig) : ℕ := cfg.hookTimeoutSecs + awaitQuery

/-- The time that a program needs to stop, from its configured hook and kill times: 5 seconds on
top. -/
def stopTime (gracePeriod : Option Duration) (cfg : ProgramConfig) : ℕ :=
  gracePeriodOf gracePeriod cfg + cfg.hookTimeoutSecs + cfg.killWaitSecs + processStopGraceExtra

/-- The time that a program needs to restart: two hooks, and 10 seconds on top. -/
def restartTime (gracePeriod : Option Duration) (cfg : ProgramConfig) : ℕ :=
  gracePeriodOf gracePeriod cfg + cfg.hookTimeoutSecs * 2 + cfg.killWaitSecs +
    processRestartGraceExtra

/-- The time that the targets need during a request. -/
def neededTime (targets : List ProgramConfig) : TimedRequest → ℕ
  | .startProgram _ | .startGroup _ => ((ordinary targets).map startTime).sum
  | .stopProgram _ g | .stopGroup _ g => ((ordinary targets).map (stopTime g)).sum
  | .restartProgram _ g => ((ordinary targets).map (restartTime g)).sum
  | .restartGroup _ g =>
      ((ordinary targets).map (stopTime g)).sum + ((ordinary targets).map startTime).sum

/-- The time that is granted for starting the targets: 25 seconds for each, and 10 seconds. -/
def grantedStart (targets : List ProgramConfig) : ℕ :=
  (defaultHookTimeout + awaitQuery) * (max targets.length 1 % 2 ^ 32) + awaitQuery

/-- The time that is granted for stopping the targets one after the other: 17 seconds for each, and
the extra time. -/
def grantedStop (graceExtra : Duration) (gracePeriod : Option Duration)
    (targets : List ProgramConfig) : ℕ :=
  (targets.map fun cfg =>
    gracePeriodOf gracePeriod cfg + defaultHookTimeout + drainTimeout + graceExtra).sum

/-- The time that is granted for a request, before it is raised to the least limit and cut off. -/
def grantedTime (targets : List ProgramConfig) : TimedRequest → ℕ
  | .startProgram _ | .startGroup _ => grantedStart targets
  | .stopProgram _ g | .stopGroup _ g => grantedStop stopGraceExtra g targets + awaitQuery
  | .restartProgram _ g | .restartGroup _ g =>
      grantedStop restartGraceExtra g targets + grantedStart targets

/-- The time that is granted for a request covers what the targets need. -/
def Suffices (targets : List ProgramConfig) (r : TimedRequest) : Prop :=
  neededTime targets r ≤ max (grantedTime targets r) r.floor ∨ maxTimeout ≤ grantedTime targets r

/-! ### Inner limits -/

section Inner

variable (cfg : ProgramConfig)

/-- The limit of a start. -/
theorem startTimeout_standsFor :
    StandsFor (ProcessProgram.startTimeout cfg) (startTime cfg) := by
  have hmax := Capped.maxTimeout_le_durationMax
  unfold ProcessProgram.startTimeout Duration.plus startTime
  by_cases hfits : @LE.le ℕ _ (cfg.hookTimeoutSecs + awaitQuery) durationMax
  · rw [if_pos hfits]
    exact .defined (.refl _)
  · rw [if_neg hfits]
    exact .undefined (hmax.trans_lt (not_le.mp hfits))

/-- The limit of a stop. -/
theorem stopTimeout_capped (gracePeriod : Option Duration) :
    Capped (ProcessProgram.stopTimeout cfg (gracePeriodOf gracePeriod cfg))
      (stopTime gracePeriod cfg) :=
  .addOrMaxTimeout (.addOrMaxTimeout (.addOrMaxTimeout (.refl _) (.refl _)) (.refl _)) (.refl _)

/-- The limit of a restart. -/
theorem restartTimeout_standsFor (gracePeriod : Option Duration) :
    StandsFor (ProcessProgram.restartTimeout cfg (gracePeriodOf gracePeriod cfg))
      (restartTime gracePeriod cfg) := by
  have hmax := Capped.maxTimeout_le_durationMax
  unfold ProcessProgram.restartTimeout Duration.times
  by_cases hfits : @LE.le ℕ _ (cfg.hookTimeoutSecs * 2) durationMax
  · rw [if_pos hfits]
    exact .defined (.addOrMaxTimeout
      (.addOrMaxTimeout (.addOrMaxTimeout (.refl _) (.refl _)) (.refl _)) (.refl _))
  · rw [if_neg hfits]
    unfold restartTime
    exact .undefined (by omega)

end Inner

/-- The inner limits of a request stand for times that add up to what the targets need. -/
theorem innerTimeouts_standFor (targets : List ProgramConfig) (r : TimedRequest) :
    ∃ times : List ℕ, List.Forall₂ StandsFor (innerTimeouts targets r) times ∧
      times.sum = neededTime targets r := by
  have hmap : ∀ (f : ProgramConfig → Option ℕ) (g : ProgramConfig → ℕ),
      (∀ cfg, StandsFor (f cfg) (g cfg)) →
        List.Forall₂ StandsFor ((ordinary targets).map f) ((ordinary targets).map g) := by
    intro f g hfg
    rw [List.forall₂_map_left_iff, List.forall₂_map_right_iff, List.forall₂_same]
    exact fun cfg _ => hfg cfg
  have hstop (g : Option Duration) := hmap
    (fun cfg => some (ProcessProgram.stopTimeout cfg (gracePeriodOf g cfg))) (stopTime g)
    fun cfg => .defined (stopTimeout_capped cfg g)
  have hstart := hmap ProcessProgram.startTimeout startTime startTimeout_standsFor
  cases r with
  | startProgram | startGroup => exact ⟨_, hstart, rfl⟩
  | stopProgram _ g | stopGroup _ g => exact ⟨_, hstop g, rfl⟩
  | restartProgram _ g =>
      exact ⟨_, hmap _ (restartTime g) fun cfg => restartTimeout_standsFor cfg g, rfl⟩
  | restartGroup _ g => exact ⟨_, List.rel_append (hstop g) hstart, List.sum_append⟩

/-! ### The outer limit -/

section Outer

variable (targets : List ProgramConfig) (gracePeriod : Option Duration)

/-- The time for starting. -/
theorem startDuration_capped :
    Capped (ManagerHandle.startDuration targets) (grantedStart targets) :=
  .saturatingAdd (.saturatingMul _ _) (.refl _)

/-- The time for stopping or restarting, apart from what is added for the start. -/
theorem totalDuration_capped (graceExtra : Duration) :
    Capped (ManagerHandle.totalDuration graceExtra gracePeriod targets)
      (grantedStop graceExtra gracePeriod targets) := by
  have hone : ∀ cfg, Capped (ManagerHandle.stopDuration graceExtra gracePeriod cfg)
      (gracePeriodOf gracePeriod cfg + defaultHookTimeout + drainTimeout + graceExtra) := fun _ =>
    .addOrMaxTimeout (.addOrMaxTimeout (.addOrMaxTimeout (.refl _) (.refl _)) (.refl _)) (.refl _)
  have hsum := @Capped.foldl_saturatingAdd 0 0 _ _ _ hone targets rfl
  rwa [Nat.zero_add] at hsum

end Outer

namespace ManagerHandle

variable (h : ManagerHandle) (o : HashOrder String)

/-- The outer limit is what is granted, raised to the least limit of the request and cut off. -/
theorem outerTimeout_eq (r : TimedRequest) (hne : h.targetsOf o r ≠ []) :
    ∃ d, Capped d (grantedTime (h.targetsOf o r) r) ∧
      h.outerTimeout o r = some (min (max d r.floor) maxTimeout) := by
  have hstart := startDuration_capped (h.targetsOf o r)
  have htotal := totalDuration_capped (h.targetsOf o r)
  have hempty : ¬ (h.targetsOf o r).isEmpty = true := by rwa [List.isEmpty_iff]
  cases r with
  | startProgram | startGroup => exact ⟨_, hstart, rfl⟩
  | stopProgram name g =>
      refine ⟨_, (htotal g stopGraceExtra).saturatingAdd (.refl awaitQuery), ?_⟩
      exact congrArg some (if_neg hempty)
  | restartProgram name g =>
      refine ⟨_, (htotal g restartGraceExtra).saturatingAdd hstart, ?_⟩
      unfold outerTimeout computeRestartProgramTimeout
      dsimp only [targetsOf] at hempty ⊢
      rw [if_neg hempty, Option.map_some]
      rfl
  | stopGroup group g =>
      refine ⟨_, (htotal g stopGraceExtra).saturatingAdd (.refl awaitQuery), ?_⟩
      exact congrArg some (if_neg hempty)
  | restartGroup group g =>
      refine ⟨_, (htotal g restartGraceExtra).saturatingAdd hstart, ?_⟩
      unfold outerTimeout computeRestartGroupTimeout
      dsimp only [targetsOf] at hempty ⊢
      rw [if_neg hempty]
      rfl

/-- There is an outer limit for every request, and it is bounded. -/
theorem exists_outerTimeout (r : TimedRequest) :
    ∃ outer, h.outerTimeout o r = some outer ∧ outer ≤ maxTimeout := by
  by_cases hne : h.targetsOf o r = []
  · have hempty : (h.targetsOf o r).isEmpty = true := List.isEmpty_iff.mpr hne
    cases r with
    | startProgram | startGroup => exact ⟨_, rfl, Nat.min_le_right _ _⟩
    | stopProgram name g => exact ⟨_, congrArg some (if_pos hempty), Nat.min_le_right _ _⟩
    | restartProgram name g =>
        have hhooks : defaultHookTimeout.times 2 = some (defaultHookTimeout * 2) :=
          if_pos (by decide)
        unfold outerTimeout computeRestartProgramTimeout
        dsimp only [targetsOf] at hempty ⊢
        rw [if_pos hempty, hhooks]
        exact ⟨_, rfl, Nat.min_le_right _ _⟩
    | stopGroup group g => exact ⟨_, congrArg some (if_pos hempty), by decide⟩
    | restartGroup group g => exact ⟨_, rfl, Nat.min_le_right _ _⟩
  · obtain ⟨d, _, houter⟩ := h.outerTimeout_eq o r hne
    exact ⟨_, houter, Nat.min_le_right _ _⟩

/-- Cutting the granted time off at the bound, and comparing with it what adds up to the needed time
below the bound. -/
theorem cutOff_iff {d granted needed floor bound : ℕ} (hd : min d bound = min granted bound)
    (hfloor : floor < bound) {p : Prop}
    (hp : min (max d floor) bound < bound → (p ↔ needed ≤ min (max d floor) bound)) :
    min (max d floor) bound = bound ∨ p ↔ needed ≤ max granted floor ∨ bound ≤ granted := by
  by_cases hlt : min (max d floor) bound < bound
  · rw [hp hlt]
    omega
  · omega

/-- The outer limit of a request covers the inner ones if and only if the time that is granted
covers the time that the targets need. -/
theorem dominated_iff (r : TimedRequest) :
    h.Dominated o r ↔ Suffices (h.targetsOf o r) r := by
  by_cases hne : h.targetsOf o r = []
  · -- Without targets there is nothing to wait for.
    obtain ⟨outer, houter, _⟩ := h.exists_outerTimeout o r
    have hinner : innerTimeouts [] r = [] := by cases r <;> rfl
    have hneeded : neededTime [] r = 0 := by cases r <;> rfl
    unfold Dominated Suffices
    rw [hne, hinner, hneeded]
    exact iff_of_true ⟨outer, houter, .inr ⟨[], rfl, Nat.zero_le _⟩⟩ (.inl (Nat.zero_le _))
  · obtain ⟨d, hd, houter⟩ := h.outerTimeout_eq o r hne
    obtain ⟨times, htimes, hsum⟩ := innerTimeouts_standFor (h.targetsOf o r) r
    have hfloor : @LT.lt ℕ _ r.floor maxTimeout := by
      cases r <;> dsimp only [TimedRequest.floor] <;> decide
    unfold Dominated Suffices
    rw [houter, ← hsum]
    simp only [Option.some.injEq, exists_eq_left']
    refine cutOff_iff hd hfloor fun hlt => ?_
    have hiff := sum_limits_le_iff htimes (Capped.refl 0) hlt
    simpa only [Nat.zero_add] using hiff

end ManagerHandle

/-- A program with the given hook timeout. -/
def hookConfig (hookTimeoutSecs : ℕ) : SupervisorConfig where
  programs := HashMap.extend ∅
    [("db", { command := "postgres", hookTimeoutSecs := some (.fromSecs hookTimeoutSecs) })]

/-- With a hook timeout of a minute a start may take 70 seconds, and the client waits for 35. -/
theorem exists_not_dominated :
    (hookConfig 60).validate .plain = .ok () ∧
      ∃ m, ManagerActor.build (hookConfig 60) .plain = .ok m ∧
        ¬ m.handle.Dominated .stored (.startProgram "db") := by
  obtain ⟨m, hbuild, houter, hinner⟩ := ManagerActor.exists_build (fun m =>
    m.handle.outerTimeout .stored (.startProgram "db") = some (.fromSecs 35) ∧
      innerTimeouts (m.handle.targetsOf .stored (.startProgram "db")) (.startProgram "db") =
        [some (.fromSecs 70)]) (hookConfig 60) .plain (by decide +kernel)
  refine ⟨by decide +kernel, m, hbuild, ?_⟩
  rintro ⟨outer, houter', hcovers⟩
  rw [houter] at houter'
  obtain rfl := Option.some.inj houter'
  rcases hcovers with hmax | ⟨limits, hlimits, hsum⟩
  · exact absurd hmax (by decide)
  · rw [hinner] at hlimits
    obtain rfl : limits = [.fromSecs 70] :=
      List.map_injective_iff.mpr (Option.some_injective _) hlimits.symm
    rw [List.sum_singleton] at hsum
    exact absurd hsum (by decide)

/-! ## Default settings -/

/-- Summing over the ordinary targets only, and smaller terms. -/
theorem sum_ordinary_le {targets : List ProgramConfig} {f g : ProgramConfig → ℕ}
    (hfg : ∀ cfg ∈ ordinary targets, f cfg ≤ g cfg) :
    ((ordinary targets).map f).sum ≤ (targets.map g).sum := by
  calc ((ordinary targets).map f).sum
      ≤ ((ordinary targets).map g).sum := List.sum_le_sum hfg
    _ ≤ (targets.map g).sum := (List.filter_sublist.map g).sum_le_sum fun _ _ => Nat.zero_le _

section Defaults

variable {targets : List ProgramConfig} {g : Option Duration}
  (hhook : ∀ cfg ∈ ordinary targets, cfg.hookTimeoutSecs ≤ defaultHookTimeout)
  (hkill : ∀ cfg ∈ ordinary targets, cfg.killWaitSecs ≤ defaultKillWait)

include hhook

/-- With default hook times the time for starting is enough. -/
theorem startTime_sum_le (hcount : targets.length < 2 ^ 32) :
    ((ordinary targets).map startTime).sum ≤ grantedStart targets := by
  have hterm : ∀ cfg ∈ ordinary targets, startTime cfg ≤ defaultHookTimeout + awaitQuery :=
    fun cfg hcfg => Nat.add_le_add_right (hhook cfg hcfg) _
  have hcast : max targets.length 1 % 2 ^ 32 = max targets.length 1 :=
    Nat.mod_eq_of_lt (by omega)
  unfold grantedStart
  calc ((ordinary targets).map startTime).sum
      ≤ (targets.map fun _ => defaultHookTimeout + awaitQuery).sum := sum_ordinary_le hterm
    _ = (defaultHookTimeout + awaitQuery) * targets.length := by
      rw [List.map_const', List.sum_replicate_nat, Nat.mul_comm]
    _ ≤ (defaultHookTimeout + awaitQuery) * (max targets.length 1 % 2 ^ 32) := by
      rw [hcast]
      exact Nat.mul_le_mul_left _ (Nat.le_max_left _ _)
    _ ≤ _ := Nat.le_add_right _ _

include hkill

/-- With default hook and kill times the time for stopping is enough. -/
theorem stopTime_sum_le {graceExtra : Duration} (hextra : processStopGraceExtra ≤ graceExtra) :
    ((ordinary targets).map (stopTime g)).sum ≤ grantedStop graceExtra g targets :=
  sum_ordinary_le fun cfg hcfg =>
    Nat.add_le_add (Nat.add_le_add (Nat.add_le_add_left (hhook cfg hcfg) _) (hkill cfg hcfg)) hextra

/-- With default hook and kill times the time for stopping is enough for restarting. -/
theorem restartTime_sum_le :
    ((ordinary targets).map (restartTime g)).sum ≤ grantedStop restartGraceExtra g targets := by
  refine sum_ordinary_le fun cfg hcfg => ?_
  have hsum : defaultHookTimeout * 2 + defaultKillWait + processRestartGraceExtra ≤
      defaultHookTimeout + drainTimeout + restartGraceExtra := by decide
  calc restartTime g cfg
      = gracePeriodOf g cfg +
          (cfg.hookTimeoutSecs * 2 + cfg.killWaitSecs + processRestartGraceExtra) := by
        rw [restartTime, Nat.add_assoc, Nat.add_assoc, Nat.add_assoc]
    _ ≤ gracePeriodOf g cfg +
          (defaultHookTimeout * 2 + defaultKillWait + processRestartGraceExtra) :=
        Nat.add_le_add_left (Nat.add_le_add_right
          (Nat.add_le_add (Nat.mul_le_mul_right _ (hhook cfg hcfg)) (hkill cfg hcfg)) _) _
    _ ≤ gracePeriodOf g cfg + (defaultHookTimeout + drainTimeout + restartGraceExtra) :=
        Nat.add_le_add_left hsum _
    _ = gracePeriodOf g cfg + defaultHookTimeout + drainTimeout + restartGraceExtra := by
        rw [Nat.add_assoc (gracePeriodOf g cfg), Nat.add_assoc (gracePeriodOf g cfg)]

/-- The time that is granted covers what the targets need when no program waits longer for its hooks
and its kill than by default. -/
theorem suffices_of_defaults (hcount : targets.length < 2 ^ 32) (r : TimedRequest) :
    Suffices targets r := by
  refine .inl (le_max_of_le_left ?_)
  have hstart := startTime_sum_le hhook hcount
  cases r with
  | startProgram | startGroup => exact hstart
  | stopProgram _ g | stopGroup _ g =>
      exact (stopTime_sum_le hhook hkill (by decide)).trans (Nat.le_add_right _ _)
  | restartProgram _ g => exact (restartTime_sum_le hhook hkill).trans (Nat.le_add_right _ _)
  | restartGroup _ g => exact Nat.add_le_add (stopTime_sum_le hhook hkill (by decide)) hstart

end Defaults

/-! ## Overflow -/

/-- No operation on the program panics, however its actor answers. -/
structure ProgramConfig.NeverPanics (cfg : ProgramConfig) : Prop where
  start : ∀ answer, (ProcessProgram.start cfg answer).isSome
  stop : ∀ gracePeriod answer, (ProcessProgram.stop cfg gracePeriod answer).isSome
  restart : ∀ gracePeriod answer, (ProcessProgram.restart cfg gracePeriod answer).isSome
  shutdown : ∀ answer, (ProcessProgram.shutdown cfg answer).isSome

/-- No operation on an ordinary program panics, and no computation of an outer limit; the outer
limits are bounded. -/
structure ProgramConfigs.NeverPanics (programs : ProgramConfigs) : Prop where
  inner : ∀ name cfg, programs.lookup name = some cfg → cfg.eventListener = none → cfg.NeverPanics
  outer : ∀ (h : ManagerHandle) (o : HashOrder String) (r : TimedRequest),
    h.sharedConfigs = programs → ∃ d, h.outerTimeout o r = some d ∧ d ≤ maxTimeout
  addProcessGroup : ∀ (h : ManagerHandle) (o : HashOrder String) (group : String),
    h.sharedPendingConfigs = programs → h.computeAddProcessGroupTimeout o group ≤ maxTimeout

/-- Whether waiting for the reply panics depends on the limit only. -/
theorem ProcessProgram.awaitReply_isSome {name : String} {timeoutDur : Option Duration} :
    (∀ answer, (awaitReply name timeoutDur answer).isSome) ↔ timeoutDur.isSome := by
  cases timeoutDur with
  | none => exact iff_of_false (fun h => nomatch h .late) (by rintro ⟨⟩)
  | some d =>
      refine iff_of_true (fun answer => ?_) rfl
      cases answer <;> rfl

/-- The operations on a program do not panic when twice its hook timeout is a duration. -/
theorem ProgramConfig.neverPanics_iff_hook (cfg : ProgramConfig) :
    cfg.NeverPanics ↔ cfg.hookTimeoutSecs * 2 ≤ durationMax := by
  constructor
  · intro h
    have hlimit := ProcessProgram.awaitReply_isSome.mp (h.restart 0)
    by_contra hlarge
    have hnone : ProcessProgram.restartTimeout cfg 0 = none :=
      congrArg (Option.map _) (if_neg hlarge)
    rw [hnone] at hlimit
    cases hlimit
  · intro hfits
    -- The other half of the range holds the ten seconds that a start adds.
    have hstart : cfg.hookTimeoutSecs + awaitQuery ≤ durationMax := by
      have hquery : awaitQuery * 2 ≤ durationMax := by decide
      have hhalf : ∀ a b c : ℕ, a * 2 ≤ c → b * 2 ≤ c → a + b ≤ c := by omega
      exact hhalf _ _ _ hfits hquery
    have hstartSome : (ProcessProgram.startTimeout cfg).isSome := by
      unfold ProcessProgram.startTimeout Duration.plus
      rw [if_pos hstart, Option.isSome_some]
    have hrestartSome (g : Duration) : (ProcessProgram.restartTimeout cfg g).isSome := by
      unfold ProcessProgram.restartTimeout Duration.times
      rw [if_pos hfits, Option.map_some, Option.isSome_some]
    refine ⟨ProcessProgram.awaitReply_isSome.mpr hstartSome,
      fun g => ProcessProgram.awaitReply_isSome.mpr rfl,
      fun g => ProcessProgram.awaitReply_isSome.mpr (hrestartSome g), fun answer => ?_⟩
    rw [ProcessProgram.shutdown, Option.isSome_map]
    exact ProcessProgram.awaitReply_isSome.mpr rfl answer

/-- No operation of the handles panics if and only if twice the hook timeout of each ordinary
program is a duration. -/
theorem ProgramConfigs.neverPanics_iff (programs : ProgramConfigs) :
    programs.NeverPanics ↔ ∀ name cfg, programs.lookup name = some cfg → cfg.eventListener = none →
      cfg.hookTimeoutSecs * 2 ≤ durationMax := by
  constructor
  · intro h name cfg hlookup hordinary
    exact cfg.neverPanics_iff_hook.mp (h.inner name cfg hlookup hordinary)
  · intro hhooks
    refine ⟨fun name cfg hlookup hordinary => ?_, fun h o r _ => h.exists_outerTimeout o r,
      fun h o group _ => Nat.min_le_right _ _⟩
    exact cfg.neverPanics_iff_hook.mpr (hhooks name cfg hlookup hordinary)

/-- The largest hook timeout that can be written is accepted, and starting the program panics. -/
theorem exists_not_neverPanics :
    (hookConfig (2 ^ 64 - 1)).validate .plain = .ok () ∧
      ∃ programs, (hookConfig (2 ^ 64 - 1)).resolvePrograms .plain = .ok programs ∧
        ¬ programs.NeverPanics := by
  refine ⟨by decide +kernel, ?_⟩
  obtain ⟨programs, hresolve, hany⟩ := Except.exists_eq_ok_of_any
    (x := (hookConfig (2 ^ 64 - 1)).resolvePrograms .plain)
    (p := fun programs => (programs.lookup "db").any fun cfg =>
      cfg.eventListener.isNone && (ProcessProgram.start cfg (.replied (.ok ()))).isNone)
    (by decide +kernel)
  obtain ⟨cfg, hlookup, hcfg⟩ := (Option.any_eq_true _ _).mp hany
  rw [Bool.and_eq_true, Option.isNone_iff_eq_none, Option.isNone_iff_eq_none] at hcfg
  refine ⟨programs, hresolve, fun h => ?_⟩
  have hsome := (h.inner "db" cfg hlookup hcfg.1).start (.replied (.ok ()))
  rw [hcfg.2] at hsome
  cases hsome

end Rsupervisord
