import Rsupervisord.Manager.MultiTarget
import Rsupervisord.Manager.ReloadOrder

/-!
# The order of a group operation

A group operation sorts its targets by priority and calls them in this order, a stop in the reverse
one. The dependencies have no part in it. `GroupBefore` is the order that the sort guarantees for
every iteration of the hash maps.

## Main results

* `ManagerActor.groupRespects_iff`: starts follow and stops precede those of the dependencies, in
  every environment, exactly when the priorities agree with the dependencies.
-/

namespace Rsupervisord

namespace ManagerActor

variable {m : ManagerActor} {env : ManagerEnv} {group p q : String}

/-! ## The guaranteed order -/

/-- The targets of a group are members found by their group name and listed by name: the pattern is
neither the name of a program nor does it cover one. -/
def ListedByName (m : ManagerActor) (group : String) : Prop :=
  Text.trim (m.groupPattern .plain group) ∉ m.programs ∧
    ProgramConfigs.inGroup m.configs .stored (Text.trim (m.groupPattern .plain group)) = []

instance (m : ManagerActor) (group : String) : Decidable (m.ListedByName group) :=
  inferInstanceAs (Decidable (_ ∧ _))

/-- The order of two targets that every iteration of the hash maps agrees on. -/
def GroupBefore (m : ManagerActor) (group q p : String) : Prop :=
  DependencyGraph.priorityOf m.configs q < DependencyGraph.priorityOf m.configs p ∨
    DependencyGraph.priorityOf m.configs q = DependencyGraph.priorityOf m.configs p ∧
      m.ListedByName group ∧ q < p

instance (m : ManagerActor) (group q p : String) : Decidable (m.GroupBefore group q p) :=
  inferInstanceAs (Decidable (_ ∨ _))

/-- Whether a pattern has targets does not depend on the iteration. -/
theorem groupPattern_eq (hkeys : ∀ name, name ∈ m.configs ↔ name ∈ m.programs)
    (env env' : ManagerEnv) (group : String) :
    m.groupPattern env group = m.groupPattern env' group := by
  have hempty (env : ManagerEnv) : (m.findMatch env (group ++ ":*")).isEmpty = true ↔
      ∀ name, ¬ m.configs.Selects (Text.trim (group ++ ":*")) name := by
    rw [List.isEmpty_iff, List.eq_nil_iff_forall_not_mem]
    simp only [mem_findMatch env hkeys]
  have hsame : (m.findMatch env (group ++ ":*")).isEmpty =
      (m.findMatch env' (group ++ ":*")).isEmpty := by
    rw [Bool.eq_iff_iff, hempty env, hempty env']
  rw [groupPattern, groupPattern, hsame]

/-- The targets do not depend on the iteration, only their order does. -/
theorem mem_groupOrder_iff (hkeys : ∀ name, name ∈ m.configs ↔ name ∈ m.programs)
    (env env' : ManagerEnv) {name : String} :
    name ∈ m.groupOrder env group ↔ name ∈ m.groupOrder env' group := by
  rw [mem_groupOrder hkeys, mem_groupOrder hkeys, groupPattern_eq hkeys env env']

theorem priority_le_of_pair (h : [p, q].Sublist (m.groupOrder env group)) :
    DependencyGraph.priorityOf m.configs p ≤ DependencyGraph.priorityOf m.configs q := by
  have hsorted := List.pairwise_insertionSort
    (fun a b => DependencyGraph.priorityOf m.configs a ≤ DependencyGraph.priorityOf m.configs b)
    (m.findMatch env (m.groupPattern env group))
  simpa using hsorted.sublist h

/-- Whether a pattern covers a program does not depend on the iteration. -/
theorem inGroup_eq_nil_iff {o o' : HashOrder String} {trimmed : String} :
    ProgramConfigs.inGroup m.configs o trimmed = [] ↔
      ProgramConfigs.inGroup m.configs o' trimmed = [] := by
  rw [← List.isEmpty_iff, ← List.isEmpty_iff, ProgramConfigs.inGroup_isEmpty_iff,
    ProgramConfigs.inGroup_isEmpty_iff]

/-- Targets in the guaranteed order are called in this order. -/
theorem pair_of_groupBefore (hkeys : ∀ name, name ∈ m.configs ↔ name ∈ m.programs)
    (hp : p ∈ m.groupOrder env group) (hq : q ∈ m.groupOrder env group)
    (h : m.GroupBefore group q p) : [q, p].Sublist (m.groupOrder env group) := by
  obtain hlt | ⟨htie, ⟨hnot, hcovers⟩, hname⟩ := h
  · obtain rfl | hqp | hpq := pair_sublist_total hq hp
    · exact absurd hlt (lt_irrefl _)
    · exact hqp
    · exact absurd (priority_le_of_pair hpq) (not_le.mpr hlt)
  · -- The resolver has sorted the members by name, and the sort by priority is stable.
    rw [groupPattern_eq hkeys _ env] at hnot hcovers
    have hmatch := findMatch_of_notMem env hnot
    rw [inGroup_eq_nil_iff.mp hcovers] at hmatch
    rw [groupOrder, List.mem_insertionSort] at hp hq
    rw [groupOrder]
    refine List.pair_sublist_insertionSort htie.le ?_
    rw [hmatch] at hp hq ⊢
    simp only [List.isEmpty_nil, Bool.not_true, Bool.false_eq_true, if_false] at hp hq ⊢
    obtain rfl | hqp | hpq := pair_sublist_total hq hp
    · exact absurd hname (lt_irrefl _)
    · exact hqp
    · have hsorted := (List.pairwise_insertionSort (fun a b : String => a ≤ b) _).sublist hpq
      rw [List.pairwise_pair] at hsorted
      exact absurd hsorted (not_le.mpr hname)

/-- Targets that are not in the guaranteed order are called the other way round in some
environment. -/
theorem exists_pair_of_not_groupBefore (hkeys : ∀ name, name ∈ m.configs ↔ name ∈ m.programs)
    (hp : p ∈ m.groupOrder .plain group) (hq : q ∈ m.groupOrder .plain group) (hne : p ≠ q)
    (h : ¬ m.GroupBefore group q p) :
    ∃ o : HashOrder String, ∀ env : ManagerEnv, env.orders.configs = o →
      [p, q].Sublist (m.groupOrder env group) := by
  rw [GroupBefore, not_or, not_lt] at h
  obtain ⟨hle, htie⟩ := h
  refine ⟨.leading p, ?_⟩
  intro env ho
  rw [mem_groupOrder_iff hkeys .plain env] at hp hq
  obtain rfl | hpq | hqp := pair_sublist_total hp hq
  · exact absurd rfl hne
  · exact hpq
  · have heq := le_antisymm (priority_le_of_pair hqp) hle
    rw [groupOrder, List.mem_insertionSort] at hp hq
    rw [groupOrder]
    refine List.pair_sublist_insertionSort heq.ge ?_
    by_cases hname : Text.trim (m.groupPattern env group) ∈ m.programs
    · -- A pattern that names a program has one target.
      rw [findMatch, if_pos hname, List.mem_singleton] at hp hq
      exact absurd (hp.trans hq.symm) hne
    have hmatch := findMatch_of_notMem env hname
    rw [hmatch] at hp hq ⊢
    by_cases hcovers : ProgramConfigs.inGroup m.configs env.orders.configs
        (Text.trim (m.groupPattern env group)) = []
    · -- The members are sorted by name, so that the name decides the tie.
      have hlisted : m.ListedByName group := by
        rw [ListedByName, groupPattern_eq hkeys .plain env]
        exact ⟨hname, inGroup_eq_nil_iff.mp hcovers⟩
      have hpq : p ≤ q := by
        by_contra hqp
        exact htie ⟨heq, hlisted, not_le.mp hqp⟩
      rw [hcovers] at hp hq ⊢
      simp only [List.isEmpty_nil, Bool.not_true, Bool.false_eq_true, if_false] at hp hq ⊢
      obtain rfl | hpair | hswap := pair_sublist_total hp hq
      · exact absurd rfl hne
      · exact hpair
      · have hsorted := (List.pairwise_insertionSort (fun a b : String => a ≤ b) _).sublist hswap
        rw [List.pairwise_pair] at hsorted
        exact absurd (le_antisymm hpq hsorted) hne
    · -- The covered programs stand in the order of the iteration.
      have hsome : (!(ProgramConfigs.inGroup m.configs env.orders.configs
          (Text.trim (m.groupPattern env group))).isEmpty) = true := by
        simpa using hcovers
      rw [if_pos hsome] at hp hq ⊢
      obtain rfl | hpair | hswap := pair_sublist_total hp hq
      · exact absurd rfl hne
      · exact hpair
      · have hsub : ((ProgramConfigs.inGroup m.configs env.orders.configs
            (Text.trim (m.groupPattern env group))).map Prod.fst).Sublist
              (env.orders.configs.arrange m.configs.keys) := by
          rw [← HashMap.map_fst_iter]
          unfold ProgramConfigs.inGroup
          split
          · exact List.filter_sublist.map _
          · exact List.nil_sublist _
        have hmem (name : String) (h : name ∈ (ProgramConfigs.inGroup m.configs
            env.orders.configs (Text.trim (m.groupPattern env group))).map Prod.fst) :
            name ∈ m.configs.keys :=
          (env.orders.configs.perm _).mem_iff.mp (hsub.subset h)
        have hlead : [p, q].Sublist (env.orders.configs.arrange m.configs.keys) := by
          rw [ho]
          exact HashOrder.pair_arrange_leading (hmem p hp) (hmem q hq) hne
        have hnodup : (env.orders.configs.arrange m.configs.keys).Nodup :=
          (env.orders.configs.perm _).nodup_iff.mpr m.configs.keys_nodup
        exact absurd (hswap.trans hsub) (not_pair_sublist_swap hnodup hlead)

/-! ## The order of the calls -/

/-- In its calls an operation follows a relation of its members: what must come before a call that
is issued is issued before it. -/
def MultiTarget.Respects (op : MultiTarget) (m : ManagerActor) (env : ManagerEnv)
    (Before : String → String → Prop) : Prop :=
  ∀ p ∈ op.members m env, ∀ q ∈ op.members m env, Before q p →
    ∀ x, m.programs.lookup p = some x → ∀ y, m.programs.lookup q = some y →
      ⟨x.id, op.call m p⟩ ∈ (op.execute m env).requests.drop m.requests.length →
        [⟨y.id, op.call m q⟩, ⟨x.id, op.call m p⟩].Sublist
          ((op.execute m env).requests.drop m.requests.length)

/-- The calls that an operation issues. -/
theorem MultiTarget.issued_eq (op : MultiTarget) :
    (op.execute m env).requests.drop m.requests.length =
      attempts (fun calls => (env.result calls).isOk) m.requests (op.planned m env) := by
  rw [op.execute_requests, List.drop_left]

/-- Members that stand in the order of a relation are called in this order. -/
theorem MultiTarget.respects_of_members {op : MultiTarget} {Before : String → String → Prop}
    (hinv : m.managed.Invariant)
    (h : ∀ p ∈ op.members m env, ∀ q ∈ op.members m env, Before q p →
      [q, p].Sublist (op.members m env)) : op.Respects m env Before := by
  intro p hp q hq hbefore x hx y hy hissued
  rw [op.issued_eq] at hissued ⊢
  have hplanned : [⟨y.id, op.call m q⟩, ⟨x.id, op.call m p⟩].Sublist (op.planned m env) := by
    apply pair_sublist_filterMap_iff.mpr
    refine ⟨q, p, ?_, ?_, h p hp q hq hbefore⟩
    · rw [requestOf, hy]
      rfl
    · rw [requestOf, hx]
      rfl
  exact pair_sublist_of_prefix (nodup_requests hinv (op.call m) (op.nodup_members m env))
    (prefix_attempts _ _ _) hissued hplanned

/-- When no call fails, members that are called in the order of a relation stand in this order. -/
theorem MultiTarget.members_of_respects {op : MultiTarget} {Before : String → String → Prop}
    (hinv : m.managed.Invariant) (hkeys : ∀ name ∈ op.members m env, name ∈ m.programs)
    (hok : ∀ calls, (env.result calls).isOk = true) (h : op.Respects m env Before)
    (hp : p ∈ op.members m env) (hq : q ∈ op.members m env) (hbefore : Before q p) :
    [q, p].Sublist (op.members m env) := by
  obtain ⟨x, hx⟩ := HashMap.mem_iff_lookup.mp (hkeys p hp)
  obtain ⟨y, hy⟩ := HashMap.mem_iff_lookup.mp (hkeys q hq)
  have hcalls := h p hp q hq hbefore x hx y hy
  rw [op.issued_eq, attempts_eq_self hok] at hcalls
  have hcalled : ⟨x.id, op.call m p⟩ ∈ op.planned m env := by
    refine List.mem_filterMap.mpr ⟨p, hp, ?_⟩
    rw [requestOf, hx]
    rfl
  obtain ⟨a, b, ha, hb, hsub⟩ := pair_sublist_filterMap_iff.mp (hcalls hcalled)
  -- A request tells whose it is.
  have hname {name name' : String} {prog : ProgramInstance} {r : Request}
      (hprog : m.programs.lookup name = some prog) (hr : r.target = prog.id)
      (hrequest : m.requestOf (op.call m) name' = some r) : name' = name := by
    obtain ⟨prog', hprog', rfl⟩ := Option.map_eq_some_iff.mp hrequest
    exact hinv.id_inj hprog' hprog hr
  rwa [hname hy rfl ha, hname hx rfl hb] at hsub

/-- The exact condition: group operations follow the dependencies in every environment exactly when
the guaranteed order of the targets does. -/
theorem groupRespects_iff (h : system.Reachable m) (group : String) :
    ((∀ env, (MultiTarget.startGroup group).Respects m env fun q p => m.configs.Needs p q) ∧
      ∀ env gracePeriod, (MultiTarget.stopGroup group gracePeriod).Respects m env
        fun q p => m.configs.Needs q p) ↔
      ∀ p ∈ m.groupOrder .plain group, ∀ q ∈ m.groupOrder .plain group,
        m.configs.Needs p q → m.GroupBefore group q p := by
  have hinv := invariant_of_reachable h
  have hkeys (name : String) : name ∈ m.configs ↔ name ∈ m.programs :=
    Managed.mem_configs_iff hinv.config_eq
  constructor
  · rintro ⟨hstart, -⟩ p hp q hq hneeds
    have hpair (env : ManagerEnv) (hok : ∀ calls, (env.result calls).isOk = true) :
        [q, p].Sublist (m.groupOrder env group) := by
      have hmembers (name : String) (hname : name ∈ (MultiTarget.startGroup group).members m env) :
          name ∈ m.programs :=
        (hkeys name).mp ((mem_groupOrder hkeys).mp hname).mem
      have hcalled := MultiTarget.members_of_respects hinv hmembers hok (hstart env)
        ((mem_groupOrder_iff hkeys .plain env).mp hp)
        ((mem_groupOrder_iff hkeys .plain env).mp hq) hneeds
      exact hcalled
    have hnodup (env : ManagerEnv) : (m.groupOrder env group).Nodup := nodup_groupOrder group
    by_contra hnot
    have hne : p ≠ q := by
      rintro rfl
      have hself := hpair .plain fun _ => rfl
      exact not_pair_sublist_swap (hnodup .plain) hself hself
    obtain ⟨o, hswap⟩ := exists_pair_of_not_groupBefore hkeys hp hq hne hnot
    -- In this iteration of the map the program comes before what it needs.
    let env : ManagerEnv :=
      { ManagerEnv.plain with orders := { ManagerEnv.plain.orders with configs := o } }
    exact not_pair_sublist_swap (hnodup env) (hpair env fun _ => rfl) (hswap env rfl)
  · intro horder
    have hpair (env : ManagerEnv) {p q : String} (hp : p ∈ m.groupOrder env group)
        (hq : q ∈ m.groupOrder env group) (hneeds : m.configs.Needs p q) :
        [q, p].Sublist (m.groupOrder env group) := by
      apply pair_of_groupBefore hkeys hp hq
      exact horder p ((mem_groupOrder_iff hkeys env .plain).mp hp) q
        ((mem_groupOrder_iff hkeys env .plain).mp hq) hneeds
    constructor
    · intro env
      apply MultiTarget.respects_of_members hinv
      exact fun p hp q hq => hpair env hp hq
    · intro env gracePeriod
      apply MultiTarget.respects_of_members hinv
      intro p hp q hq hneeds
      -- A stop goes through the targets from the last one to the first.
      rw [MultiTarget.members, List.mem_reverse] at hp hq
      exact (hpair env hq hp hneeds).reverse

/-- A web server of this priority and a database that it needs, in one group. -/
def siteConfig (priority : ℕ) : SupervisorConfig where
  programs := HashMap.extend ∅
    [("db", { command := "postgres", group := some "site" }),
      ("web", { command := "nginx", group := some "site", dependsOn := ["db"],
                priority := some priority })]

/-- The web server has a higher priority number than the database. -/
theorem groupRespects_of_priorities :
    ∃ m, system.Reachable m ∧ m.configs.Needs "web" "db" ∧
      (∀ env, (MultiTarget.startGroup "site").Respects m env fun q p => m.configs.Needs p q) ∧
      ∀ env gracePeriod, (MultiTarget.stopGroup "site" gracePeriod).Respects m env
        fun q p => m.configs.Needs q p := by
  obtain ⟨m, hbuild, hdep, honly, hbefore⟩ := exists_build (fun m =>
    "db" ∈ DependencyGraph.deps m.configs "web" ∧ DependencyOnly m.configs "db" "web" ∧
      m.GroupBefore "site" "db" "web") (siteConfig 100) .plain (by decide +kernel)
  have hreach : system.Reachable m := .init ⟨siteConfig 100, .plain, hbuild⟩
  refine ⟨m, hreach, .single hdep, (groupRespects_iff hreach "site").mpr ?_⟩
  intro p _ q _ hneeds
  obtain ⟨rfl, rfl⟩ := honly.eq_of_needs hneeds
  exact hbefore

/-- The priorities win over the dependencies: the web server is started before its database and
the database is stopped before the web server. -/
theorem exists_not_groupRespects :
    ∃ m, system.Reachable m ∧
      (¬ (MultiTarget.startGroup "site").Respects m .plain fun q p => m.configs.Needs p q) ∧
      ¬ (MultiTarget.stopGroup "site" (some 5)).Respects m .plain
        fun q p => m.configs.Needs q p := by
  obtain ⟨m, hbuild, hdep, horder, hweb, hdb, hstart, hstop⟩ := exists_build (fun m =>
    "db" ∈ DependencyGraph.deps m.configs "web" ∧ m.groupOrder .plain "site" = ["web", "db"] ∧
      (m.programs.lookup "web").map (·.id) = some 1 ∧
      (m.programs.lookup "db").map (·.id) = some 0 ∧
      ((MultiTarget.startGroup "site").execute m .plain).requests.drop m.requests.length =
        [⟨1, .start⟩, ⟨0, .start⟩] ∧
      ((MultiTarget.stopGroup "site" (some 5)).execute m .plain).requests.drop m.requests.length =
        [⟨0, .stop 5⟩, ⟨1, .stop 5⟩]) (siteConfig 1) .plain (by decide +kernel)
  obtain ⟨web, hweb, hwebId⟩ := Option.map_eq_some_iff.mp hweb
  obtain ⟨db, hdb, hdbId⟩ := Option.map_eq_some_iff.mp hdb
  have hneeds : m.configs.Needs "web" "db" := .single hdep
  have hmember (name : String) (h : name ∈ ["web", "db"]) : name ∈ m.groupOrder .plain "site" :=
    horder ▸ h
  refine ⟨m, .init ⟨siteConfig 1, .plain, hbuild⟩, ?_, ?_⟩
  · intro hrespects
    have hcalls := hrespects "web" (hmember "web" (by decide)) "db" (hmember "db" (by decide))
      hneeds web hweb db hdb
    rw [hstart, hwebId, hdbId] at hcalls
    have hswapped :
        ¬ [(⟨0, .start⟩ : Request), ⟨1, .start⟩].Sublist [⟨1, .start⟩, ⟨0, .start⟩] := by
      decide
    exact hswapped (hcalls List.mem_cons_self)
  · intro hrespects
    have hcalls := hrespects "db" (List.mem_reverse.mpr (hmember "db" (by decide)))
      "web" (List.mem_reverse.mpr (hmember "web" (by decide))) hneeds db hdb web hweb
    rw [hstop, hwebId, hdbId] at hcalls
    have hswapped :
        ¬ [(⟨1, .stop 5⟩ : Request), ⟨0, .stop 5⟩].Sublist [⟨0, .stop 5⟩, ⟨1, .stop 5⟩] := by
      decide
    exact hswapped (hcalls List.mem_cons_self)

end ManagerActor

end Rsupervisord
