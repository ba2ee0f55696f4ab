import Rsupervisord.Manager.CronRuns

/-!
# Cron wake-ups

`pop_due_actions` collects an action for each due entry of the cron table and advances the entry to
its next occurrence. An entry whose schedule has no further occurrence keeps its next run, and the
next deadline of the manager loop is over at once.

## Main definitions

* `CronTable.popDueLoop`: the loop of `pop_due_actions`.
* `CronTable.earliestDeadline`: the deadline of the manager loop.

## Main results

* `CronTable.popDueLoop_spec`: what a wake-up returns, and when it leaves nothing due.
-/

namespace Rsupervisord

/-- The library finds occurrences after the given time only. -/
def Croner.FindsLater (croner : Croner) : Prop :=
  ∀ expression now next, croner.findNextOccurrence expression now = some next → now < next

/-- The action that a due entry contributes. -/
def CronEntry.action (e : CronEntry) : CronAction :=
  if e.isStop then .stop e.name e.group e.expression else .start e.name e.group e.expression

namespace CronTable

/-- The loop of `pop_due_actions` over the entries: the actions collected, and the entries behind
it. -/
def popDueLoop (croner : Croner) (now : ℤ) :
    List CronEntry → List CronAction → List CronAction × List CronEntry
  | [], actions => (actions, [])
  | entry :: entries, actions =>
    if entry.nextRun ≤ now then
      let actions := actions ++ [entry.action]
      let entry := match croner.findNextOccurrence entry.expression now with
        | some next => { entry with nextRun := next }
        | none => entry
      let (actions, entries) := popDueLoop croner now entries actions
      (actions, entry :: entries)
    else
      let (actions, entries) := popDueLoop croner now entries actions
      (actions, entry :: entries)

/-- `earliest_deadline` at the wall-clock time `nowDt` and the instant `now`. -/
def earliestDeadline (t : CronTable) (nowDt now : ℤ) : Option ℤ :=
  t.earliestNextRun.map fun earliest =>
    if earliest ≤ nowDt then now else now + (earliest - nowDt)

variable {t : CronTable} {croner : Croner} {now : ℤ} {e : CronEntry}

/-- The loop advances each entry and adds the actions of the due ones. -/
theorem popDueLoop_eq (entries : List CronEntry) (actions : List CronAction) :
    popDueLoop croner now entries actions =
      (actions ++ (entries.filter fun e => e.nextRun ≤ now).map CronEntry.action,
        entries.map (advance croner now)) := by
  induction entries generalizing actions with
  | nil => simp [popDueLoop]
  | cons entry entries ih =>
    rw [popDueLoop, List.map_cons]
    split_ifs with hdue
    · have hadvance : advance croner now entry =
          match croner.findNextOccurrence entry.expression now with
          | some next => { entry with nextRun := next }
          | none => entry := by
        rw [advance, if_pos hdue]
        cases croner.findNextOccurrence entry.expression now <;> rfl
      have hfilter : (entry :: entries).filter (fun e => decide (e.nextRun ≤ now)) =
          entry :: entries.filter fun e => e.nextRun ≤ now :=
        List.filter_cons_of_pos (by simpa using hdue)
      simp only [ih]
      rw [hadvance, hfilter, List.map_cons, List.append_assoc, List.singleton_append]
    · have hadvance : advance croner now entry = entry := if_neg hdue
      have hfilter : (entry :: entries).filter (fun e => decide (e.nextRun ≤ now)) =
          entries.filter fun e => e.nextRun ≤ now :=
        List.filter_cons_of_neg (by simpa using hdue)
      simp only [ih]
      rw [hadvance, hfilter]

/-- The loop is `popDueActions`. -/
theorem popDueActions_eq : t.popDueActions croner now =
    ((popDueLoop croner now t.entries []).1, ⟨(popDueLoop croner now t.entries []).2⟩) := by
  rw [popDueLoop_eq]
  rfl

/-- An advanced entry runs later unless its schedule has no further occurrence. -/
theorem lt_nextRun_advance_iff (hcroner : croner.FindsLater) :
    now < (advance croner now e).nextRun ↔
      (e.nextRun ≤ now → (croner.findNextOccurrence e.expression now).isSome) := by
  rw [advance]
  by_cases hdue : e.nextRun ≤ now
  · rw [if_pos hdue]
    cases hnext : croner.findNextOccurrence e.expression now with
    | none => simp [hdue, not_lt.mpr hdue]
    | some next => simp [hcroner _ _ _ hnext]
  · rw [if_neg hdue]
    exact iff_of_true (not_le.mp hdue) fun hle => absurd hle hdue

/-- The deadline is to come when all entries run later. -/
theorem lt_earliestDeadline_iff {nowDt : ℤ} :
    (∀ deadline ∈ t.earliestDeadline nowDt now, now < deadline) ↔
      ∀ e ∈ t.entries, nowDt < e.nextRun := by
  rw [earliestDeadline, earliestNextRun]
  cases hmin : (t.entries.map (·.nextRun)).min? with
  | none =>
    have hempty : t.entries = [] := by simpa using hmin
    simp [hempty]
  | some earliest =>
    obtain ⟨hmem, hle⟩ := List.min?_eq_some_iff.mp hmin
    obtain ⟨entry, hentry, rfl⟩ := List.mem_map.mp hmem
    have hleast : ∀ e ∈ t.entries, entry.nextRun ≤ e.nextRun :=
      fun e he => hle _ (List.mem_map_of_mem he)
    constructor
    · intro h e he
      have hlater : now < if entry.nextRun ≤ nowDt then now else now + (entry.nextRun - nowDt) :=
        h _ rfl
      have hle := hleast e he
      split_ifs at hlater with hdue
      · omega
      · omega
    · rintro h _ ⟨⟩
      have hlater := h entry hentry
      change now < if entry.nextRun ≤ nowDt then now else now + (entry.nextRun - nowDt)
      rw [if_neg (by omega)]
      omega

/-- A library that knows one expression, for noon on the first day of 2027. -/
def onceCroner : Croner where
  parse expression := if expression = "0 0 12 1 1 * 2027" then .ok () else .error "invalid pattern"
  findNextOccurrence _ now := if now < 1798804800 then some 1798804800 else none

theorem onceCroner_findsLater : onceCroner.FindsLater := by
  intro expression now next h
  obtain ⟨hlt, heq⟩ := Option.ite_none_right_eq_some.mp h
  obtain rfl := Option.some.inj heq
  exact hlt

/-- A wake-up returns one action for each entry that is due, in the order of the table, and no
others. Behind it no entry is due and the deadline of the manager loop is to come exactly if every
entry that was due has a further occurrence. -/
theorem popDueLoop_spec (hcroner : croner.FindsLater) (t : CronTable) (now : ℤ) :
    (popDueLoop croner now t.entries []).1 =
        (t.entries.filter fun e => e.nextRun ≤ now).map CronEntry.action ∧
      (((∀ e ∈ (popDueLoop croner now t.entries []).2, now < e.nextRun) ∧
          ∀ instant, ∀ deadline ∈
            earliestDeadline ⟨(popDueLoop croner now t.entries []).2⟩ now instant,
            instant < deadline) ↔
        ∀ e ∈ t.entries, e.nextRun ≤ now →
          (croner.findNextOccurrence e.expression now).isSome) := by
  rw [popDueLoop_eq]
  refine ⟨rfl, ?_⟩
  have hlater : (∀ e ∈ t.entries.map (advance croner now), now < e.nextRun) ↔
      ∀ e ∈ t.entries, e.nextRun ≤ now →
        (croner.findNextOccurrence e.expression now).isSome := by
    rw [List.forall_mem_map]
    exact forall₂_congr fun e _ => lt_nextRun_advance_iff hcroner
  rw [← hlater]
  exact ⟨And.left, fun h => ⟨h, fun instant => lt_earliestDeadline_iff.mpr h⟩⟩

/-- An hour before its only occurrence, an entry that is due is advanced to it. -/
theorem popDueLoop_spec_of_occurrence :
    ¬ ∃ e ∈ (popDueLoop onceCroner 1798801200
        [⟨"job", "job", false, "0 0 12 1 1 * 2027", 1798801200⟩] []).2,
      e.nextRun ≤ 1798801200 := by
  rintro ⟨e, he, hdue⟩
  have hspec := (popDueLoop_spec onceCroner_findsLater
    ⟨[⟨"job", "job", false, "0 0 12 1 1 * 2027", 1798801200⟩]⟩ 1798801200).2
  exact absurd ((hspec.mpr (by decide)).1 e he) (not_lt.mpr hdue)

/-- At its only occurrence an entry is returned and stays due: the deadline is now, and the next
wake-up returns it again. -/
theorem popDueLoop_repeats :
    onceCroner.FindsLater ∧
      popDueLoop onceCroner 1798804800
          [⟨"job", "job", false, "0 0 12 1 1 * 2027", 1798804800⟩] [] =
        ([.start "job" "job" "0 0 12 1 1 * 2027"],
          [⟨"job", "job", false, "0 0 12 1 1 * 2027", 1798804800⟩]) ∧
      earliestDeadline ⟨[⟨"job", "job", false, "0 0 12 1 1 * 2027", 1798804800⟩]⟩ 1798804800 5 =
        some 5 :=
  ⟨onceCroner_findsLater, by decide, by decide⟩

end CronTable

end Rsupervisord
