import Rsupervisord.Manager.Watch

/-!
# Actions of watch rules

A trigger takes over the action and the debounce time of the rule that made it, and it is the only
one of its program until it is executed. Changes that match another rule of the program only put it
off, and a new configuration leaves it as it is.

* `WatchService.FollowsRules`: each executed action is that of a rule in force, and each change that
  matches a rule leads to the action of this rule.
* `WatchService.followsRules_of_agrees`: this holds in every run in which changes agree with the
  pending trigger of the program, new configurations keep its action, and the files of due triggers
  can be read.
-/

namespace Rsupervisord

/-- What is to be done about a program. -/
inductive WatchAction
  | command (cmd : String) (directory : Option String)
  | signal (sig : StopSignal)
  | restart
  deriving DecidableEq, Repr

/-- The action that a command, a signal and a working directory stand for. -/
def WatchAction.of (directory : Option String) (signal : Option StopSignal) (cmd : Option String) :
    WatchAction :=
  match cmd, signal with
  | some cmd, _ => .command cmd directory
  | none, some sig => .signal sig
  | none, none => .restart

/-- The action of a rule. -/
def WatchRule.action (rule : WatchRule) : WatchAction :=
  .of rule.workingDirectory rule.signal rule.cmd

/-- The action of a trigger. -/
def PendingTrigger.action (trigger : PendingTrigger) : WatchAction :=
  .of trigger.directory trigger.signal trigger.cmd

namespace WatchService

/-- What a rule calls for. -/
def ruleCalls (signalled : String → Bool) (rule : WatchRule) : List WatchCall :=
  calls signalled rule.programName rule.workingDirectory rule.signal rule.cmd

/-- The paths of an event with the rules of a program they match. -/
def matchesOf (p : String) (rules : List WatchRule) (event : FsEvent) :
    List (WatchPath × WatchRule) :=
  if isRelevantEvent event then
    event.paths.flatMap fun path =>
      (rules.filter fun rule => rule.programName = p && matchesRule rule path).map (path, ·)
  else []

/-- The instant of an event that matches a rule of the program. -/
def matchTime (p : String) (s : WatchState) : WatchInput → Option Instant
  | .event now event => if matchesOf p s.rules event = [] then none else some now
  | _ => none

/-- The instant of the last event that matched a rule of the program. -/
def lastMatch (p : String) : WatchState → List WatchInput → Option Instant
  | _, [] => none
  | s, i :: is => (lastMatch p (machine.next s i).1 is).or (matchTime p s i)

/-- The action of the rule is executed. -/
def Executed (rule : WatchRule) (s : WatchState) (is : List WatchInput) : Prop :=
  ∃ before now env behind, is = before ++ .expired now env :: behind ∧
    callsFor rule.programName (machine.next (machine.after s before) (.expired now env)).2 =
      ruleCalls env.signalled rule

/-- The service does what the rules in force say. -/
structure FollowsRules (s : WatchState) (is : List WatchInput) : Prop where
  /-- What is executed is the action of a rule of the program. -/
  sound : ∀ before now env behind p, is = before ++ .expired now env :: behind →
    callsFor p (machine.next (machine.after s before) (.expired now env)).2 ≠ [] →
    ∃ rule ∈ (machine.after s before).rules, rule.programName = p ∧
      callsFor p (machine.next (machine.after s before) (.expired now env)).2 =
        ruleCalls env.signalled rule
  /-- When a deadline has come after the window of the last matching event, the action of each
  matched rule has been executed. -/
  complete : ∀ before at' event behind now env behind' path rule last,
    is = before ++ .event at' event :: behind ++ .expired now env :: behind' →
    (path, rule) ∈ matchesOf rule.programName (machine.after s before).rules event →
    lastMatch rule.programName (machine.after s before) (.event at' event :: behind) = some last →
    last + rule.debounceDuration ≤ now →
    Executed rule (machine.after s (before ++ [.event at' event])) (behind ++ [.expired now env])

/-- An event agrees with the pending triggers: all rules of a program that it matches have the
action of the pending trigger, or one action when none is pending, and the trigger does not wait for
longer than they say. A new configuration keeps the action of each pending trigger. When a trigger
is due, its file is not waited for. -/
def Agrees (s : WatchState) : WatchInput → Prop
  | .event _ event => ∀ p, ∀ m ∈ matchesOf p s.rules event,
      (∀ trigger, s.pendingTriggers.lookup p = some trigger →
        trigger.action = m.2.action ∧ trigger.debounceDuration ≤ m.2.debounceDuration) ∧
      ∀ m' ∈ matchesOf p s.rules event, m'.2.action = m.2.action
  | .reload new => ∀ p trigger, s.pendingTriggers.lookup p = some trigger →
      ∃ rule ∈ buildRules new.env new.configs new.configOrder,
        rule.programName = p ∧ rule.action = trigger.action
  | .expired now env => ∀ p trigger, s.pendingTriggers.lookup p = some trigger → Due now trigger →
      waitsForFile (env.check p) trigger = false

variable {p : String} {s : WatchState} {rules : List WatchRule} {now : Instant} {path : WatchPath}
  {event : FsEvent} {trigger : PendingTrigger} {rule : WatchRule} {is : List WatchInput}
  {i : WatchInput}

/-! ## Actions -/

theorem calls_congr
    {signalled : String → Bool} {program : String} {directory directory' : Option String}
    {signal signal' : Option StopSignal} {cmd cmd' : Option String}
    (h : WatchAction.of directory signal cmd = .of directory' signal' cmd') :
    calls signalled program directory signal cmd =
    calls signalled program directory' signal' cmd' := by
  cases cmd <;> cases cmd' <;> cases signal <;> cases signal' <;>
    simp_all [WatchAction.of, calls]

/-- A trigger with the action of a rule calls for what the rule says. -/
theorem executeTrigger_eq_ruleCalls {signalled : String → Bool}
    (hname : trigger.programName = rule.programName)
    (haction : trigger.action = rule.action) :
    executeTrigger signalled trigger = ruleCalls signalled rule := by
  unfold executeTrigger ruleCalls
  rw [hname]
  exact calls_congr haction

/-! ## One event -/

theorem foldl_noteRule_eq {trigger : Option PendingTrigger} :
    rules.foldl (noteRule p now path) trigger =
      ((rules.filter fun rule => rule.programName = p && matchesRule rule path).map (path, ·)).foldl
        (fun trigger m => some (touch now m.1 m.2 trigger)) trigger := by
  induction rules generalizing trigger with
  | nil => rfl
  | cons rule rules ih =>
    rw [List.foldl_cons, ih, List.filter_cons]
    by_cases h : rule.programName = p ∧ matchesRule rule path = true
    · have hnote : noteRule p now path trigger rule = some (touch now path rule trigger) := if_pos h
      rw [hnote, if_pos (by simp [h])]
      rfl
    · have hnote : noteRule p now path trigger rule = trigger := if_neg h
      rw [hnote, if_neg (by simpa using h)]

/-- An event touches the trigger of a program once for each match. -/
theorem noteEvent_eq {trigger : Option PendingTrigger} :
    noteEvent p rules now event trigger =
      (matchesOf p rules event).foldl (fun trigger m =>
        some (touch now m.1 m.2 trigger)) trigger := by
  unfold noteEvent matchesOf
  by_cases hrelevant : isRelevantEvent event = true
  · rw [if_pos hrelevant, if_pos hrelevant]
    induction event.paths generalizing trigger with
    | nil => rfl
    | cons path paths ih =>
      rw [List.foldl_cons, ih, List.flatMap_cons, List.foldl_append, foldl_noteRule_eq]
  · rw [if_neg hrelevant, if_neg hrelevant]
    rfl

/-- Once touched, a trigger only changes its file within an event. -/
theorem foldl_touch {ms : List (WatchPath × WatchRule)}
    (hdeadline : trigger.deadline = now + trigger.debounceDuration) :
    ∃ path, ms.foldl (fun trigger m => some (touch now m.1 m.2 trigger)) (some trigger) =
      some { trigger with targetPath := path } := by
  induction ms generalizing trigger with
  | nil => exact ⟨trigger.targetPath, rfl⟩
  | cons m ms ih =>
    have htouch : (touch now m.1 m.2 (some trigger)).deadline =
        now + (touch now m.1 m.2 (some trigger)).debounceDuration := rfl
    obtain ⟨path, hpath⟩ := ih htouch
    refine ⟨path, hpath.trans ?_⟩
    simp [touch, hdeadline]

/-- The trigger of a program after an event that matches: as the first match leaves it, up to its
file. -/
theorem noteEvent_of_match {trigger : Option PendingTrigger} {m : WatchPath × WatchRule}
    {ms : List (WatchPath × WatchRule)} (h : matchesOf p rules event = m :: ms) :
    ∃ path, noteEvent p rules now event trigger =
      some { touch now m.1 m.2 trigger with targetPath := path } := by
  rw [noteEvent_eq, h, List.foldl_cons]
  refine foldl_touch ?_
  cases trigger <;> rfl

/-! ## Rules of a configuration -/

/-- The rules of a program wait for the same time. -/
def Coherent (rules : List WatchRule) : Prop :=
  ∀ rule ∈ rules, ∀ rule' ∈ rules, rule.programName = rule'.programName →
    rule.debounceDuration = rule'.debounceDuration

/-- A rule carries the name and the debounce time of its program. -/
theorem of_mem_buildRules {env : WatchEnv} {configs : HashMap String ProgramConfig}
    {order : HashOrder String} (h : rule ∈ buildRules env configs order) :
    ∃ cfg, configs.lookup rule.programName = some cfg ∧
      rule.debounceDuration = cfg.restartDebounceSecs := by
  obtain ⟨⟨name, cfg⟩, hcfg, hrule⟩ := List.mem_flatMap.mp h
  suffices hname : rule.programName = name ∧ rule.debounceDuration = cfg.restartDebounceSecs by
    exact ⟨cfg, hname.1 ▸ HashMap.mem_iter.mp hcfg, hname.2⟩
  obtain hrule | hrule := List.mem_append.mp hrule
  · have hbinary := Option.mem_toList.mp hrule
    unfold binaryRule at hbinary
    split at hbinary
    · obtain ⟨resolved, -, hparent⟩ := Option.bind_eq_some_iff.mp hbinary
      obtain ⟨parentDir, -, hrule⟩ := Option.bind_eq_some_iff.mp hparent
      obtain rfl := Option.some.inj hrule
      exact ⟨rfl, rfl⟩
    · cases hbinary
  · have hdirectory := Option.mem_toList.mp hrule
    obtain ⟨dir, -, hrule⟩ := Option.bind_eq_some_iff.mp hdirectory
    obtain rfl := Option.some.inj hrule
    exact ⟨rfl, rfl⟩

theorem coherent_buildRules {env : WatchEnv} {configs : HashMap String ProgramConfig}
    {order : HashOrder String} : Coherent (buildRules env configs order) := by
  intro rule hrule rule' hrule' hname
  obtain ⟨cfg, hcfg, hdebounce⟩ := of_mem_buildRules hrule
  obtain ⟨cfg', hcfg', hdebounce'⟩ := of_mem_buildRules hrule'
  rw [hname, hcfg', Option.some.injEq] at hcfg
  rw [hdebounce, hdebounce', hcfg]

/-! ## Invariants -/

/-- Triggers are stored under their programs, the rules of a program wait for the same time, and
each trigger has the action of a rule of its program. -/
structure Sound (s : WatchState) : Prop where
  keyed : Keyed s.pendingTriggers
  coherent : Coherent s.rules
  current : ∀ p trigger, s.pendingTriggers.lookup p = some trigger →
    ∃ rule ∈ s.rules, rule.programName = p ∧ rule.action = trigger.action

theorem mem_rules_of_mem_matchesOf {m : WatchPath × WatchRule} (h : m ∈ matchesOf p rules event) :
    m.2 ∈ rules ∧ m.2.programName = p := by
  unfold matchesOf at h
  split at h
  · obtain ⟨path, -, hm⟩ := List.mem_flatMap.mp h
    obtain ⟨rule, hrule, rfl⟩ := List.mem_map.mp hm
    obtain ⟨hmem, hmatch⟩ := List.mem_filter.mp hrule
    exact ⟨hmem, of_decide_eq_true (Bool.and_eq_true_iff.mp hmatch).1⟩
  · cases h

/-- An event without matches leaves the trigger of the program. -/
theorem noteEvent_of_no_match {trigger : Option PendingTrigger} (h : matchesOf p rules event = []) :
    noteEvent p rules now event trigger = trigger := by
  rw [noteEvent_eq, h]
  rfl

/-- What an event that agrees leaves of a match: a trigger with the action of the rule, which waits
from now on and for no longer than the rule says. -/
theorem exists_trigger_of_match (hcoherent : Coherent s.rules)
    (hagrees : Agrees s (.event now event))
    (hmatch : (path, rule) ∈ matchesOf p s.rules event) :
    ∃ trigger, noteEvent p s.rules now event (s.pendingTriggers.lookup p) = some trigger ∧
      trigger.action = rule.action ∧ trigger.debounceDuration ≤ rule.debounceDuration ∧
      trigger.deadline = now + trigger.debounceDuration := by
  cases hmatches : matchesOf p s.rules event with
  | nil =>
    rw [hmatches] at hmatch
    cases hmatch
  | cons first ms =>
    obtain ⟨file, hnote⟩ : ∃ file, noteEvent p s.rules now event (s.pendingTriggers.lookup p) =
        some { touch now first.1 first.2 (s.pendingTriggers.lookup p) with targetPath := file } :=
      noteEvent_of_match hmatches
    have hfirst : first ∈ matchesOf p s.rules event := hmatches ▸ List.mem_cons_self
    obtain ⟨hpending, hsame⟩ := hagrees p _ hmatch
    refine ⟨_, hnote, ?_⟩
    cases hlookup : s.pendingTriggers.lookup p with
    | some trigger =>
      obtain ⟨haction, hdebounce⟩ := hpending trigger hlookup
      exact ⟨haction, hdebounce, rfl⟩
    | none =>
      obtain ⟨hrule, hname⟩ := mem_rules_of_mem_matchesOf hmatch
      obtain ⟨hrule', hname'⟩ := mem_rules_of_mem_matchesOf hfirst
      have hdebounce := hcoherent _ hrule' _ hrule (hname'.trans hname.symm)
      exact ⟨hsame first hfirst, Nat.le_of_eq hdebounce, rfl⟩

/-- A trigger that is still there after a deadline has come, where no file is waited for, was there
before and was not due; else it is executed. -/
theorem settle_cases {env : ExpiryEnv}
    (hready : Due now trigger → waitsForFile (env.check p) trigger = false) :
    (¬ Due now trigger ∧ settle p now env (some trigger) = (some trigger, [])) ∨
      (Due now trigger ∧
        settle p now env (some trigger) = (none, executeTrigger env.signalled trigger)) := by
  by_cases hdue : Due now trigger
  · refine .inr ⟨hdue, ?_⟩
    rw [settle, if_pos hdue, hready hdue]
    rfl
  · exact .inl ⟨hdue, if_neg hdue⟩

/-- A step that agrees keeps the invariant. -/
theorem Sound.next (h : Sound s) (hagrees : Agrees s i) : Sound (machine.next s i).1 := by
  have hspec := fun p => next_spec (p := p) i h.keyed
  refine ⟨keyed_next i h.keyed, ?_, fun p trigger htrigger => ?_⟩
  · cases i with
    | expired => exact h.coherent
    | event => exact h.coherent
    | reload => exact coherent_buildRules
  · have hlookup := hspec p
    rw [htrigger] at hlookup
    cases i with
    | expired now env =>
      cases hbefore : s.pendingTriggers.lookup p with
      | none =>
        rw [hbefore] at hlookup
        cases hlookup
      | some before =>
        rw [hbefore] at hlookup
        obtain ⟨-, hsettle⟩ | ⟨-, hsettle⟩ := settle_cases (hagrees p before hbefore)
        · obtain ⟨hsame, -⟩ := Prod.mk.inj (hlookup.trans hsettle)
          exact Option.some.inj hsame ▸ h.current p before hbefore
        · cases (Prod.mk.inj (hlookup.trans hsettle)).1
    | event now event =>
      obtain ⟨hnote, -⟩ := Prod.mk.inj hlookup
      cases hmatches : matchesOf p s.rules event with
      | nil =>
        rw [noteEvent_of_no_match hmatches] at hnote
        exact h.current p trigger hnote.symm
      | cons m ms =>
        have hm : m ∈ matchesOf p s.rules event := hmatches ▸ List.mem_cons_self
        obtain ⟨hrule, hname⟩ := mem_rules_of_mem_matchesOf hm
        have hmatch : (m.1, m.2) ∈ matchesOf m.2.programName s.rules event := hname.symm ▸ hm
        obtain ⟨trigger', hnote', haction, -⟩ := exists_trigger_of_match h.coherent hagrees hmatch
        rw [hname, ← hnote, Option.some.injEq] at hnote'
        exact ⟨m.2, hrule, hname, hnote' ▸ haction.symm⟩
    | reload new =>
      obtain ⟨hsame, -⟩ := Prod.mk.inj hlookup
      exact hagrees p trigger hsame.symm

theorem lastMatch_concat :
    lastMatch p s (is ++ [i]) = (matchTime p (machine.after s is) i).or (lastMatch p s is) := by
  induction is generalizing s with
  | nil => exact (Option.none_or).trans (Option.or_none).symm
  | cons j is ih =>
    rw [List.cons_append, lastMatch, ih, Option.or_assoc]
    rfl

theorem Executed.concat (h : Executed rule s is) : Executed rule s (is ++ [i]) := by
  obtain ⟨before, now, env, behind, rfl, hcalls⟩ := h
  exact ⟨before, now, env, behind ++ [i], by simp, hcalls⟩

/-- From an event on that matches a rule, the action of the rule is executed, or it is pending and
waits from the last matching event on. -/
theorem executed_or_pending (hsound : Sound s) (hagrees : Agrees s (.event now event))
    (hmatch : (path, rule) ∈ matchesOf rule.programName s.rules event)
    (his : machine.Along Agrees (machine.next s (.event now event)).1 is) :
    Executed rule (machine.next s (.event now event)).1 is ∨
      ∃ trigger last,
        (machine.after (machine.next s (.event now event)).1 is).pendingTriggers.lookup
          rule.programName = some trigger ∧
        trigger.action = rule.action ∧ trigger.debounceDuration ≤ rule.debounceDuration ∧
        lastMatch rule.programName s (.event now event :: is) = some last ∧
        trigger.deadline = last + trigger.debounceDuration := by
  induction is using List.reverseRecOn with
  | nil =>
    obtain ⟨trigger, hnote, haction, hdebounce, hdeadline⟩ :=
      exists_trigger_of_match hsound.coherent hagrees hmatch
    refine .inr ⟨trigger, now, ?_, haction, hdebounce, ?_, hdeadline⟩
    · exact lookup_handleEvent.trans hnote
    · exact if_neg fun hnil => List.not_mem_nil (hnil ▸ hmatch)
  | append_singleton is i ih =>
    obtain ⟨hbefore, hi, -⟩ := Transducer.along_append.mp his
    obtain hexecuted | ⟨trigger, last, hlookup, haction, hdebounce, hlast, hdeadline⟩ := ih hbefore
    · exact .inl hexecuted.concat
    generalize hs' : machine.after (machine.next s (.event now event)).1 is = s' at hlookup hi
    have hsound' : Sound s' := by
      rw [← hs']
      exact hbefore.invariant (fun _ _ h hguard => h.next hguard) (hsound.next hagrees)
    have hspec := next_spec (p := rule.programName) i hsound'.keyed
    have hlast' : lastMatch rule.programName s (.event now event :: (is ++ [i])) =
        (matchTime rule.programName s' i).or (some last) := by
      rw [← List.cons_append, lastMatch_concat, Transducer.after_cons, hs', hlast]
    rw [Transducer.after_append, hs', Transducer.after_cons, Transducer.after_nil, hlast']
    cases i with
    | expired now' env =>
      rw [hlookup] at hspec
      obtain ⟨-, hsettle⟩ | ⟨-, hsettle⟩ := settle_cases (hi rule.programName trigger hlookup)
      · obtain ⟨hsame, -⟩ := Prod.mk.inj (hspec.trans hsettle)
        exact .inr ⟨trigger, last, hsame, haction, hdebounce, rfl, hdeadline⟩
      · obtain ⟨-, hcalls⟩ := Prod.mk.inj (hspec.trans hsettle)
        refine .inl ⟨is, now', env, [], rfl, ?_⟩
        rw [hs', hcalls, executeTrigger_eq_ruleCalls (hsound'.keyed _ trigger hlookup) haction]
    | event now' event' =>
      obtain ⟨hnote, -⟩ := Prod.mk.inj hspec
      rw [hlookup] at hnote
      cases hmatches : matchesOf rule.programName s'.rules event' with
      | nil =>
        rw [noteEvent_of_no_match hmatches] at hnote
        refine .inr ⟨trigger, last, hnote, haction, hdebounce, ?_, hdeadline⟩
        rw [matchTime, if_pos hmatches]
        rfl
      | cons m ms =>
        obtain ⟨file, hfile⟩ : ∃ file, noteEvent rule.programName s'.rules now' event'
            (some trigger) = some { touch now' m.1 m.2 (some trigger) with targetPath := file } :=
          noteEvent_of_match hmatches
        refine .inr ⟨_, now', hnote.trans hfile, haction, hdebounce, ?_, rfl⟩
        rw [matchTime, if_neg (by simp [hmatches])]
        rfl
    | reload new =>
      obtain ⟨hsame, -⟩ := Prod.mk.inj hspec
      exact .inr ⟨trigger, last, hsame.trans hlookup, haction, hdebounce, rfl, hdeadline⟩

/-- In a run whose steps agree, from the start with any configuration on, what is executed is the
action of a rule in force, and after the window of the last matching event the action of each
matched rule has been executed. -/
theorem followsRules_of_agrees (new : WatchReload) (is : List WatchInput)
    (his : machine.Along Agrees (start new) is) : FollowsRules (start new) is := by
  have hstart : Sound (start new) := by
    refine ⟨fun p trigger h => ?_, coherent_buildRules, fun p trigger h => ?_⟩
    · cases (AList.lookup_empty (α := String) (β := fun _ => PendingTrigger) p).symm.trans h
    · cases (AList.lookup_empty (α := String) (β := fun _ => PendingTrigger) p).symm.trans h
  have hsound : ∀ before, machine.Along Agrees (start new) before →
      Sound (machine.after (start new) before) :=
    fun before hbefore => hbefore.invariant (fun _ _ h hguard => h.next hguard) hstart
  refine ⟨?_, ?_⟩
  · rintro before now env behind p rfl hcalls
    obtain ⟨hbefore, hi, -⟩ := Transducer.along_append.mp his
    have hs := hsound before hbefore
    have hspec := next_spec (p := p) (.expired now env) hs.keyed
    cases hlookup : (machine.after (start new) before).pendingTriggers.lookup p with
    | none =>
      rw [hlookup] at hspec
      exact absurd (Prod.mk.inj hspec).2 hcalls
    | some trigger =>
      rw [hlookup] at hspec
      obtain ⟨-, hsettle⟩ | ⟨-, hsettle⟩ := settle_cases (hi p trigger hlookup)
      · exact absurd (Prod.mk.inj (hspec.trans hsettle)).2 hcalls
      · obtain ⟨rule, hrule, hname, haction⟩ := hs.current p trigger hlookup
        refine ⟨rule, hrule, hname, (Prod.mk.inj (hspec.trans hsettle)).2.trans ?_⟩
        exact executeTrigger_eq_ruleCalls ((hs.keyed p trigger hlookup).trans hname.symm)
          haction.symm
  · rintro before at' event behind now env behind' path rule last rfl hmatch hlast hwindow
    obtain ⟨hfirst, hdue, -⟩ := Transducer.along_append.mp his
    obtain ⟨hbefore, hevent, hbehind⟩ := Transducer.along_append.mp hfirst
    have hs := hsound before hbefore
    have hafter : machine.after (start new) (before ++ [.event at' event]) =
        (machine.next (machine.after (start new) before) (.event at' event)).1 :=
        Transducer.after_append
    have hlater : machine.after (start new) (before ++ .event at' event :: behind) =
        machine.after (machine.next (machine.after (start new) before) (.event at' event)).1
        behind :=
      Transducer.after_append
    rw [hafter]
    obtain hexecuted | ⟨trigger, last', hlookup, haction, hdebounce, hlast', hdeadline⟩ :=
      executed_or_pending hs hevent hmatch hbehind
    · exact hexecuted.concat
    · -- The trigger is due: it has waited since the last matching event.
      obtain rfl := Option.some.inj (hlast'.symm.trans hlast)
      have htime : Due now trigger := by
        show trigger.deadline ≤ now
        rw [hdeadline]
        exact (Nat.add_le_add_left hdebounce _).trans hwindow
      have hs' := hsound _ hfirst
      rw [hlater] at hs' hdue
      have hspec := next_spec (p := rule.programName) (.expired now env) hs'.keyed
      rw [hlookup] at hspec
      obtain ⟨hnot, -⟩ | ⟨-, hsettle⟩ := settle_cases (hdue rule.programName trigger hlookup)
      · exact absurd htime hnot
      · refine ⟨behind, now, env, [], rfl, (Prod.mk.inj (hspec.trans hsettle)).2.trans ?_⟩
        exact executeTrigger_eq_ruleCalls (hs'.keyed _ trigger hlookup) haction

/-- A program that is restarted when its executable changes and signalled when its files do. -/
def restartOrSignal : WatchReload where
  env := ⟨"/", [], fun _ => true, fun _ => true⟩
  configs := (∅ : HashMap String ProgramConfig).insert "app"
    { name := "app", command := "/opt/app", restartWhenBinaryChanged := true,
      restartDirectoryMonitor := some "/etc/app", restartSignalWhenFileChanged := some .hup }
  configOrder := .stored
  currentOrder := .stored
  targetOrder := .stored

/-- One of the files is written. -/
def fileWritten : WatchInput :=
  .event 0 ⟨.modify, [[.rootDir, .normal "etc", .normal "app", .normal "x"]]⟩

/-- The executable is written, one second later. -/
def executableWritten : WatchInput :=
  .event (Duration.fromSecs 1) ⟨.modify, [[.rootDir, .normal "opt", .normal "app"]]⟩

/-- The deadline of what was written last. -/
def deadlineCome : WatchInput :=
  .expired (Duration.fromSecs 6) ⟨.stored, fun _ => ⟨true, true, Duration.fromSecs 6⟩,
    fun _ => true⟩

/-- The rule for the executable. -/
def restartRule : WatchRule :=
  .binary "app" [.rootDir, .normal "opt", .normal "app"] [.rootDir, .normal "opt"] none
    (Duration.fromSecs 5) none none

theorem followsRules_of_file_written :
    FollowsRules (start restartOrSignal) [fileWritten, deadlineCome] := by
  have hnames : ∀ rule ∈ (start restartOrSignal).rules, rule.programName =
      "app" := by decide +kernel
  refine followsRules_of_agrees restartOrSignal _ ⟨fun p m hm => ?_, fun p trigger _ _ => ?_,
    trivial⟩
  · obtain ⟨hrule, rfl⟩ := mem_rules_of_mem_matchesOf hm
    refine ⟨fun trigger h => ?_, fun m' hm' => ?_⟩
    · cases (AList.lookup_empty (α := String) (β := fun _ => PendingTrigger) _).symm.trans h
    · rw [hnames _ hrule] at hm hm'
      have hall : ∀ m ∈ matchesOf "app" (start restartOrSignal).rules
          ⟨.modify, [[.rootDir, .normal "etc", .normal "app", .normal "x"]]⟩,
          m.2.action = .signal .hup := by decide +kernel
      exact (hall m' hm').trans (hall m hm).symm
  · simp [waitsForFile]

/-- The executable was written while the program was due to be signalled: it is not restarted. -/
theorem not_followsRules_of_merged :
    ¬ FollowsRules (start restartOrSignal) [fileWritten, executableWritten, deadlineCome] := by
  intro h
  obtain ⟨before, now, env, behind, heq, hcalls⟩ :=
    h.complete [fileWritten] _ _ [] _ _ [] [.rootDir, .normal "opt", .normal "app"] restartRule
      (Duration.fromSecs 1) rfl (by decide +kernel) (by decide +kernel) (by decide +kernel)
  obtain _ | ⟨first, before⟩ := before
  · obtain ⟨hinput, -⟩ := List.cons.inj heq
    obtain ⟨rfl, rfl⟩ := WatchInput.expired.inj hinput
    exact absurd hcalls (by decide +kernel)
  · have hlength := congrArg List.length heq
    simp at hlength

end WatchService

end Rsupervisord
