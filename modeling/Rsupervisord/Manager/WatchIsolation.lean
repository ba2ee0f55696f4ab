import Rsupervisord.Manager.Watch

/-!
# Isolation of watch actions

Whether the watch service acts on a program should depend on the changes that the program's own
rules are about: of the very file its binary rule resolved to, and of matching files under its
monitored directory. A binary rule, however, also matches each path that ends in the name of its
file.

* `WatchService.Isolated`: what the service does to a program comes from the program's own paths,
  and nothing else makes a difference.
* `WatchService.isolated_of_ownNames`: this holds in every run in which no path ends in the name of
  an executable of the program without being one of the program's own paths.
-/

namespace Rsupervisord

namespace WatchService

/-- A path a rule is about. -/
def isOwnPath (rule : WatchRule) (path : WatchPath) : Bool :=
  match rule with
  | .binary _ targetPath .. => path = targetPath
  | .directory .. => matchesRule rule path

/-- The rules of a program. -/
def rulesOf (p : String) (rules : List WatchRule) : List WatchRule :=
  rules.filter (·.programName = p)

/-- A path that some rule of the program is about. -/
def owns (p : String) (rules : List WatchRule) (path : WatchPath) : Bool :=
  (rulesOf p rules).any (isOwnPath · path)

/-- The paths of an event that are a program's own. -/
def ownPaths (p : String) (rules : List WatchRule) (event : FsEvent) : List WatchPath :=
  if isRelevantEvent event then event.paths.filter (owns p rules) else []

/-- An input that concerns none of the program's own paths. -/
def Foreign (p : String) (s : WatchState) : WatchInput → Prop
  | .event _ event => ownPaths p s.rules event = []
  | _ => False

/-- Inputs that are the same as far as the program is concerned. -/
def AlikeFor (p : String) (s : WatchState) (i : WatchInput) (t : WatchState)
    (j : WatchInput) : Prop :=
  match i, j with
  | .expired now env, .expired now' env' =>
      now = now' ∧ env.check p = env'.check p ∧ env.signalled p = env'.signalled p
  | .event now event, .event now' event' =>
      now = now' ∧ ownPaths p s.rules event = ownPaths p t.rules event'
  | .reload new, .reload new' =>
      rulesOf p (buildRules new.env new.configs new.configOrder) =
        rulesOf p (buildRules new'.env new'.configs new'.configOrder)
  | _, _ => False

/-- An event with an own path of the program was handled, and the program has not been acted on
since. -/
def Caused (p : String) (s : WatchState) (is : List WatchInput) : Prop :=
  ∃ before now event behind, is = before ++ .event now event :: behind ∧
    ownPaths p (machine.after s before).rules event ≠ [] ∧
    callsFor p (machine.outputs (machine.after s (before ++ [.event now event])) behind) = []

/-- Each action on the program was caused. -/
def Attributed (p : String) (s : WatchState) (is : List WatchInput) : Prop :=
  ∀ before i behind, is = before ++ i :: behind →
    callsFor p (machine.next (machine.after s before) i).2 ≠ [] → Caused p s before

/-- The name of the executable of a binary rule. -/
def executableName : WatchRule → Option String
  | .binary _ targetPath .. => UnixPath.fileName targetPath
  | .directory .. => none

/-- Each path that ends in the name of an executable of the program is one of its own paths. -/
def OnlyOwnNames (p : String) (s : WatchState) : WatchInput → Prop
  | .event _ event =>
      isRelevantEvent event = true → ∀ path ∈ event.paths, ∀ rule ∈ rulesOf p s.rules, ∀ name,
        executableName rule = some name → UnixPath.fileName path = some name →
        owns p s.rules path = true
  | _ => True

variable {p : String} {s t : WatchState} {rules : List WatchRule} {now : Instant} {path : WatchPath}
  {event : FsEvent} {trigger : Option PendingTrigger} {is js : List WatchInput} {i j : WatchInput}

/-! ## One event -/

/-- Only the program's own rules count. -/
theorem foldl_noteRule_rulesOf :
    rules.foldl (noteRule p now path) trigger =
      (rulesOf p rules).foldl (noteRule p now path) trigger := by
  induction rules generalizing trigger with
  | nil => rfl
  | cons rule rules ih =>
    rw [List.foldl_cons, ih, rulesOf, rulesOf, List.filter_cons]
    split
    next => rfl
    next hp =>
      have hnote : noteRule p now path trigger rule = trigger :=
        if_neg fun h => hp (decide_eq_true h.1)
      rw [hnote]

/-- A path that no rule of the program matches leaves its trigger. -/
theorem foldl_noteRule_of_not_matches (h : ∀ rule ∈ rules, matchesRule rule path = false) :
    rules.foldl (noteRule p now path) trigger = trigger := by
  induction rules with
  | nil => rfl
  | cons rule rules ih =>
    obtain ⟨hrule, hrules⟩ := List.forall_mem_cons.mp h
    have hnote : noteRule p now path trigger rule = trigger :=
      if_neg fun h => Bool.false_ne_true (hrule.symm.trans h.2)
    rw [List.foldl_cons, hnote, ih hrules]

/-- A rule matches the paths it is about, and those that end in the name of its executable. -/
theorem matchesRule_cases {rule : WatchRule} (h : matchesRule rule path = true) :
    isOwnPath rule path = true ∨
      ∃ name, executableName rule = some name ∧ UnixPath.fileName path = some name := by
  cases rule with
  | binary _ targetPath =>
    obtain heq | hname := Bool.or_eq_true_iff.mp h
    · exact .inl heq
    · obtain ⟨hsome, heq⟩ := Bool.and_eq_true_iff.mp hname
      obtain ⟨name, hpath⟩ := Option.isSome_iff_exists.mp hsome
      refine .inr ⟨name, ?_, hpath⟩
      rw [← hpath]
      exact (of_decide_eq_true heq).symm
  | directory => exact .inl h

/-- An event without foreign paths of the name of an executable concerns a program by its own
paths. -/
theorem noteEvent_eq_ownPaths (hown : OnlyOwnNames p s (.event now event)) :
    noteEvent p s.rules now event trigger =
      (ownPaths p s.rules event).foldl
        (fun trigger path => (rulesOf p s.rules).foldl (noteRule p now path) trigger) trigger := by
  unfold noteEvent ownPaths
  by_cases hrelevant : isRelevantEvent event = true
  · rw [if_pos hrelevant, if_pos hrelevant]
    have hpaths := hown hrelevant
    generalize event.paths = paths at hpaths ⊢
    induction paths generalizing trigger with
    | nil => rfl
    | cons path paths ih =>
      obtain ⟨hpath, hrest⟩ := List.forall_mem_cons.mp hpaths
      rw [List.foldl_cons, ih hrest, foldl_noteRule_rulesOf, List.filter_cons]
      split
      next => rfl
      next hnot =>
        congr 1
        refine foldl_noteRule_of_not_matches fun rule hrule => ?_
        rw [← Bool.not_eq_true]
        intro hmatch
        apply hnot
        obtain hself | ⟨name, hname, hfile⟩ := matchesRule_cases hmatch
        · exact List.any_eq_true.mpr ⟨rule, hrule, hself⟩
        · exact hpath rule hrule name hname hfile
  · rw [if_neg hrelevant, if_neg hrelevant]
    rfl

/-- A foreign event leaves the trigger of the program. -/
theorem noteEvent_of_foreign (hown : OnlyOwnNames p s (.event now event))
    (hforeign : ownPaths p s.rules event = []) : noteEvent p s.rules now event trigger =
    trigger := by
  rw [noteEvent_eq_ownPaths hown, hforeign]
  rfl

/-! ## Attribution -/

/-- What the program is due to stays so while nothing is done to it. -/
theorem Caused.concat (h : Caused p s is)
    (hnone : callsFor p (machine.next (machine.after s is) i).2 = []) :
    Caused p s (is ++ [i]) := by
  obtain ⟨before, now, event, behind, rfl, hown, hcalls⟩ := h
  refine ⟨before, now, event, behind ++ [i], by simp, hown, ?_⟩
  have hafter : machine.after (machine.after s (before ++ [.event now event])) behind =
      machine.after s (before ++ .event now event :: behind) := by
    rw [← Transducer.after_append, List.append_assoc]
    rfl
  rw [Transducer.outputs_append, hafter, callsFor, List.filter_append, Transducer.outputs_cons,
    List.filter_append]
  show callsFor p _ ++ (callsFor p _ ++ []) = []
  rw [hcalls, hnone]
  rfl

/-- A trigger comes from an event with an own path, and the program has not been acted on since. -/
theorem caused_of_pending
    (hpending : s.pendingTriggers = ∅) (hown : machine.Along (OnlyOwnNames p) s is)
    {trigger : PendingTrigger}
    (htrigger : (machine.after s is).pendingTriggers.lookup p = some trigger) : Caused p s is := by
  induction is using List.reverseRecOn generalizing trigger with
  | nil =>
    rw [Transducer.after_nil, hpending, AList.lookup_empty] at htrigger
    cases htrigger
  | append_singleton is i ih =>
    obtain ⟨hbefore, hguard, -⟩ := Transducer.along_append.mp hown
    have hkeyed : Keyed (machine.after s is).pendingTriggers := by
      refine keyed_after fun p trigger h => ?_
      rw [hpending, AList.lookup_empty] at h
      cases h
    have hspec := next_spec (p := p) i hkeyed
    rw [Transducer.after_append, Transducer.after_cons, Transducer.after_nil] at htrigger
    rw [htrigger] at hspec
    -- Where the trigger was there before the step, what caused it did so then.
    have hstays : ∀ {before : PendingTrigger},
        (machine.after s is).pendingTriggers.lookup p = some before →
        callsFor p (machine.next (machine.after s is) i).2 = [] → Caused p s (is ++ [i]) :=
      fun hlookup hnone => (ih hbefore hlookup).concat hnone
    cases i with
    | expired now env =>
      cases hlookup : (machine.after s is).pendingTriggers.lookup p with
      | none =>
        rw [hlookup] at hspec
        cases hspec
      | some before =>
        refine hstays hlookup ?_
        simp only [hlookup, settle] at hspec
        split at hspec
        · split at hspec
          · exact (Prod.mk.inj hspec).2
          · cases (Prod.mk.inj hspec).1
        · exact (Prod.mk.inj hspec).2
    | event now event =>
      obtain ⟨hnote, hnone⟩ := Prod.mk.inj hspec
      by_cases hforeign : ownPaths p (machine.after s is).rules event = []
      · rw [noteEvent_of_foreign hguard hforeign] at hnote
        exact hstays hnote.symm hnone
      · exact ⟨is, now, event, [], rfl, hforeign, rfl⟩
    | reload new =>
      obtain ⟨hlookup, hnone⟩ := Prod.mk.inj hspec
      exact hstays hlookup.symm hnone

/-- Acting on a program takes a trigger of the program. -/
theorem exists_trigger_of_calls (hkeyed : Keyed s.pendingTriggers)
    (hcalls : callsFor p (machine.next s i).2 ≠ []) :
    ∃ trigger, s.pendingTriggers.lookup p = some trigger := by
  have hspec := next_spec (p := p) i hkeyed
  cases i with
  | expired now env =>
    cases hlookup : s.pendingTriggers.lookup p with
    | none =>
      rw [hlookup] at hspec
      exact absurd (Prod.mk.inj hspec).2 hcalls
    | some trigger => exact ⟨trigger, rfl⟩
  | event now event => exact absurd (Prod.mk.inj hspec).2 hcalls
  | reload new => exact absurd (Prod.mk.inj hspec).2 hcalls

theorem attributed_of_ownNames (hpending : s.pendingTriggers = ∅)
    (hown : machine.Along (OnlyOwnNames p) s is) : Attributed p s is := by
  rintro before i behind rfl hcalls
  have hkeyed : Keyed (machine.after s before).pendingTriggers := by
    refine keyed_after fun p trigger h => ?_
    rw [hpending, AList.lookup_empty] at h
    cases h
  obtain ⟨trigger, htrigger⟩ := exists_trigger_of_calls hkeyed hcalls
  exact caused_of_pending hpending (Transducer.along_append.mp hown).1 htrigger

/-! ## Two runs -/

/-- States with the same rules and the same trigger of the program. -/
structure SameFor (p : String) (s t : WatchState) : Prop where
  left : Keyed s.pendingTriggers
  right : Keyed t.pendingTriggers
  rules : rulesOf p s.rules = rulesOf p t.rules
  trigger : s.pendingTriggers.lookup p = t.pendingTriggers.lookup p

theorem SameFor.symm (h : SameFor p s t) : SameFor p t s :=
  ⟨h.right, h.left, h.rules.symm, h.trigger.symm⟩

/-- A foreign event makes no difference. -/
theorem SameFor.foreign (h : SameFor p s t) (hown : OnlyOwnNames p s i) (hforeign : Foreign p s i) :
    SameFor p (machine.next s i).1 t ∧ callsFor p (machine.next s i).2 = [] := by
  have hspec := next_spec (p := p) i h.left
  cases i with
  | expired => exact hforeign.elim
  | reload => exact hforeign.elim
  | event now event =>
    obtain ⟨hnote, hnone⟩ := Prod.mk.inj hspec
    rw [noteEvent_of_foreign hown hforeign] at hnote
    exact ⟨⟨keyed_next _ h.left, h.right, h.rules, hnote.trans h.trigger⟩, hnone⟩

/-- What is called for depends on the program's own answer only. -/
theorem executeTrigger_congr {signalled signalled' : String → Bool} {trigger : PendingTrigger}
    (h : signalled trigger.programName = signalled' trigger.programName) :
    executeTrigger signalled trigger = executeTrigger signalled' trigger := by
  unfold executeTrigger calls
  rw [h]

/-- The program's own changes have the same effect in both. -/
theorem SameFor.alike (h : SameFor p s t) (hs : OnlyOwnNames p s i) (ht : OnlyOwnNames p t j)
    (halike : AlikeFor p s i t j) :
    SameFor p (machine.next s i).1 (machine.next t j).1 ∧
      callsFor p (machine.next s i).2 = callsFor p (machine.next t j).2 := by
  have hspecs := next_spec (p := p) i h.left
  have hspect := next_spec (p := p) j h.right
  cases i with
  | expired now env =>
    cases j with
    | event => exact halike.elim
    | reload => exact halike.elim
    | expired now' env' =>
      obtain ⟨rfl, hcheck, hsignalled⟩ := halike
      have hsettle : settle p now env (s.pendingTriggers.lookup p) =
          settle p now env' (t.pendingTriggers.lookup p) := by
        rw [← h.trigger]
        cases hlookup : s.pendingTriggers.lookup p with
        | none => rfl
        | some trigger =>
          obtain rfl := h.left p trigger hlookup
          rw [settle, settle, hcheck, executeTrigger_congr hsignalled]
      obtain ⟨htrigger, hcalls⟩ := Prod.mk.inj (hspecs.trans (hsettle.trans hspect.symm))
      exact ⟨⟨keyed_next _ h.left, keyed_next _ h.right, h.rules, htrigger⟩, hcalls⟩
  | event now event =>
    cases j with
    | expired => exact halike.elim
    | reload => exact halike.elim
    | event now' event' =>
      obtain ⟨rfl, hpaths⟩ := halike
      obtain ⟨hnotes, hnones⟩ := Prod.mk.inj hspecs
      obtain ⟨hnotet, hnonet⟩ := Prod.mk.inj hspect
      refine ⟨⟨keyed_next _ h.left, keyed_next _ h.right, h.rules, ?_⟩, hnones.trans hnonet.symm⟩
      rw [hnotes, hnotet, noteEvent_eq_ownPaths hs, noteEvent_eq_ownPaths ht, hpaths, h.rules,
        h.trigger]
  | reload new =>
    cases j with
    | expired => exact halike.elim
    | event => exact halike.elim
    | reload new' =>
      obtain ⟨htriggers, hnones⟩ := Prod.mk.inj hspecs
      obtain ⟨htriggert, hnonet⟩ := Prod.mk.inj hspect
      exact ⟨⟨keyed_next _ h.left, keyed_next _ h.right, halike,
        htriggers.trans (h.trigger.trans htriggert.symm)⟩, hnones.trans hnonet.symm⟩

/-- In a run in which no path ends in the name of an executable of the program without being the
program's own, each action on the program is caused by an own path since the action before; and a
run of this kind that differs in events without own paths, in the files and answers for other
programs and in the rules of other programs calls for the same about the program. -/
theorem isolated_of_ownNames (p : String) (s : WatchState) (is : List WatchInput)
    (hpending : s.pendingTriggers = ∅) (hs : machine.Along (OnlyOwnNames p) s is) :
    Attributed p s is ∧
      ∀ t js, t.pendingTriggers = ∅ → rulesOf p s.rules = rulesOf p t.rules →
        machine.Along (OnlyOwnNames p) t js →
        machine.Aligned (Foreign p) (AlikeFor p) s is t js →
        callsFor p (machine.outputs s is) = callsFor p (machine.outputs t js) := by
  refine ⟨attributed_of_ownNames hpending hs, fun t js hpending' hrules ht haligned => ?_⟩
  have hkeyed : Keyed (∅ : HashMap String PendingTrigger) := by
    intro p trigger h
    rw [AList.lookup_empty] at h
    cases h
  have hsame : SameFor p s t :=
    ⟨hpending ▸ hkeyed, hpending' ▸ hkeyed, hrules, by rw [hpending, hpending']⟩
  refine (Transducer.Aligned.unwind ?_ ?_ ?_ haligned hsame hs ht).2
  · exact fun _ _ _ h hown hforeign => h.foreign hown hforeign
  · exact fun _ _ _ h hown hforeign =>
      ⟨(h.symm.foreign hown hforeign).1.symm, (h.symm.foreign hown hforeign).2⟩
  · exact fun _ _ _ _ h hs ht halike => h.alike hs ht halike

/-- Two programs with an executable of the same name. -/
def twoServers : WatchState where
  rules :=
    [.binary "api" [.rootDir, .normal "api", .normal "server"] [.rootDir, .normal "api"] none
      (.fromSecs 5) none none,
    .binary "web" [.rootDir, .normal "web", .normal "server"] [.rootDir, .normal "web"] none
      (.fromSecs 5) none none]
  registry := {}

/-- A file is written. -/
def writeTo (path : WatchPath) : WatchInput := .event 0 ⟨.modify, [path]⟩

/-- Six seconds later all files can be read. -/
def afterSixSeconds : WatchInput :=
  .expired (Duration.fromSecs 6) ⟨.stored, fun _ => ⟨true, true, Duration.fromSecs 6⟩,
    fun _ => true⟩

/-- The executable of the program itself is replaced. -/
theorem isolated_of_own_file :
    machine.Along (OnlyOwnNames "api") twoServers
        [writeTo [.rootDir, .normal "api", .normal "server"], afterSixSeconds] ∧
      Attributed "api" twoServers
        [writeTo [.rootDir, .normal "api", .normal "server"], afterSixSeconds] := by
  have hown : machine.Along (OnlyOwnNames "api") twoServers
      [writeTo [.rootDir, .normal "api", .normal "server"], afterSixSeconds] := by
    refine ⟨fun _ path hpath _ _ _ _ _ => ?_, trivial, trivial⟩
    obtain rfl := List.mem_singleton.mp hpath
    decide +kernel
  exact ⟨hown, (isolated_of_ownNames "api" twoServers _ rfl hown).1⟩

/-- When the executable of the one program is replaced, the other is restarted as well. -/
theorem not_isolated_twoServers :
    ¬ Attributed "api" twoServers
        [writeTo [.rootDir, .normal "web", .normal "server"], afterSixSeconds] ∧
      machine.Aligned (Foreign "api") (AlikeFor "api")
        twoServers [writeTo [.rootDir, .normal "web", .normal "server"], afterSixSeconds]
        twoServers [afterSixSeconds] ∧
      callsFor "api" (machine.outputs twoServers
        [writeTo [.rootDir, .normal "web", .normal "server"], afterSixSeconds]) ≠
      callsFor "api" (machine.outputs twoServers [afterSixSeconds]) := by
  refine ⟨fun h => ?_, ?_, by decide +kernel⟩
  · obtain ⟨before, now, event, behind, heq, hown, -⟩ :=
      h [writeTo [.rootDir, .normal "web", .normal "server"]] afterSixSeconds [] rfl
      (by decide +kernel)
    obtain _ | ⟨first, before⟩ := before
    · obtain ⟨hinput, -⟩ := List.cons.inj heq
      obtain ⟨-, rfl⟩ := WatchInput.event.inj hinput
      exact hown (by decide +kernel)
    · have hlength := congrArg List.length heq
      simp at hlength
  · have hforeign :
        Foreign "api" twoServers (writeTo [.rootDir, .normal "web", .normal "server"]) := by
      show ownPaths "api" twoServers.rules _ = []
      decide +kernel
    exact .left hforeign (.both ⟨rfl, rfl, rfl⟩ (.nil _ _))

end WatchService

end Rsupervisord
