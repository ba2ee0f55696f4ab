import Rsupervisord.Manager.DagCorrectness
import Rsupervisord.Manager.Reload
import Rsupervisord.Support.ConcurrentCalls

/-!
# The order of a reload

A reload works through the removed, the modified and the added programs, each list by name, and
waits for every call before it issues the next one. The order of its calls is therefore an order of
names, and not one of dependencies.

## Main results

* `ManagerActor.reload_follows_dependencies_iff`: the calls of a reload follow the dependencies
  exactly when these agree with the order of the lists.
-/

namespace Rsupervisord

open DependencyGraph

/-- A program depends on another one, directly or through others. -/
def ProgramConfigs.Needs (programs : ProgramConfigs) (p q : String) : Prop :=
  Relation.TransGen (fun b a => b ∈ deps programs a) q p

/-- A program of the map that the other map does not have with the same configuration. -/
def ProgramConfigs.Differs (programs others : ProgramConfigs) (name : String) : Prop :=
  name ∈ programs ∧ programs.lookup name ≠ others.lookup name

/-- A program of the map that starts by itself. -/
def ProgramConfigs.Autostarts (programs : ProgramConfigs) (name : String) : Prop :=
  ∃ cfg, programs.lookup name = some cfg ∧ cfg.autostart

instance (programs others : ProgramConfigs) (name : String) :
    Decidable (programs.Differs others name) :=
  inferInstanceAs (Decidable (_ ∧ _))

instance (programs : ProgramConfigs) (name : String) : Decidable (programs.Autostarts name) :=
  decidable_of_iff ((programs.lookup name).any (·.autostart) = true) (Option.any_eq_true _ _)

/-! ## The order of the lists -/

/-- The order of two lists of names one after the other, each of them by name, when the names of the
first one have the property. -/
def ListedBefore (first : String → Prop) (a b : String) : Prop :=
  first a ∧ ¬ first b ∨ (first a ↔ first b) ∧ a < b

instance (first : String → Prop) [DecidablePred first] (a b : String) :
    Decidable (ListedBefore first a b) :=
  inferInstanceAs (Decidable (_ ∨ _))

section Listed

variable {P : String → Prop} {a b : String} {l l' : List String}

/-- The order is asymmetric. -/
theorem ListedBefore.asymm (h : ListedBefore P a b) : ¬ ListedBefore P b a := by
  rintro (⟨hb, ha⟩ | ⟨hiff, hlt⟩)
  · rcases h with ⟨ha', _⟩ | ⟨hiff, _⟩
    · exact ha ha'
    · exact ha (hiff.mpr hb)
  · rcases h with ⟨ha, hb⟩ | ⟨_, hlt'⟩
    · exact hb (hiff.mpr ha)
    · exact lt_asymm hlt hlt'

/-- Two ordered lists one after the other are in this order. -/
theorem pairwise_listedBefore (hl : l.Pairwise (· < ·)) (hl' : l'.Pairwise (· < ·))
    (hfirst : ∀ a ∈ l, P a) (hlast : ∀ a ∈ l', ¬ P a) :
    (l ++ l').Pairwise (ListedBefore P) := by
  refine List.pairwise_append.mpr ⟨?_, ?_, fun a ha b hb => .inl ⟨hfirst a ha, hlast b hb⟩⟩
  · exact hl.imp_of_mem fun ha hb hlt => .inr ⟨iff_of_true (hfirst _ ha) (hfirst _ hb), hlt⟩
  · exact hl'.imp_of_mem fun ha hb hlt => .inr ⟨iff_of_false (hlast _ ha) (hlast _ hb), hlt⟩

end Listed

namespace ManagerActor

variable {m m' : ManagerActor} {env : ManagerEnv} {newConfig : SupervisorConfig}
  {newPrograms : ProgramConfigs} {name name' : String} {e : String × ProgramInstance}

/-! ## The calls of a reload -/

/-- Stop an instance and shut it down. -/
def stopRequests (prog : Option ProgramInstance) (gracePeriod : Duration) : List Request :=
  match prog with
  | some prog => [⟨prog.id, .stop gracePeriod⟩, ⟨prog.id, .shutdown⟩]
  | none => []

/-- Start an instance if it is configured to. -/
def startRequests (prog : ProgramInstance) : List Request :=
  if prog.config.autostart then [⟨prog.id, .start⟩] else []

/-- Removing a program stops its instance. -/
theorem removeProgram_requests (m : ManagerActor) (name : String) :
    (m.removeProgram name).requests =
      m.requests ++ stopRequests (m.programs.lookup name) defaultStopWait := by
  unfold removeProgram
  cases m.programs.lookup name with
  | none => exact (List.append_nil _).symm
  | some prog => exact List.append_assoc _ _ _

/-- Removing a program leaves the other ones alone. -/
theorem removeProgram_lookup (m : ManagerActor) (h : name' ≠ name) :
    (m.removeProgram name).programs.lookup name' = m.programs.lookup name' := by
  unfold removeProgram
  cases m.programs.lookup name with
  | none => rfl
  | some prog =>
      change (m.programs.erase name).lookup name' = _
      rw [HashMap.lookup_erase, if_neg h]

/-- Adding a program starts its instance. -/
theorem addProgram_requests (m : ManagerActor) (e : String × ProgramInstance) :
    (m.addProgram e).requests = m.requests ++ startRequests e.2 := by
  unfold addProgram startRequests
  by_cases hstart : e.2.config.autostart
  · rw [if_pos hstart, if_pos hstart]
    rfl
  · rw [if_neg hstart, if_neg hstart, List.append_nil]

/-- Adding a program leaves the other ones alone. -/
theorem addProgram_lookup (m : ManagerActor) (h : name ≠ e.1) :
    (m.addProgram e).programs.lookup name = m.programs.lookup name := by
  unfold addProgram
  by_cases hstart : e.2.config.autostart
  · rw [if_pos hstart]
    exact (HashMap.lookup_insert ..).trans (if_neg h)
  · rw [if_neg hstart]
    exact (HashMap.lookup_insert ..).trans (if_neg h)

/-- Replacing a program stops the old instance and starts the new one. -/
theorem replaceProgram_requests (m : ManagerActor) (e : String × ProgramInstance) :
    (m.replaceProgram e).requests = m.requests ++
      (stopRequests (m.programs.lookup e.1) e.2.config.stopWaitSecs ++ startRequests e.2) := by
  rw [replaceProgram, addProgram_requests, ← List.append_assoc]
  congr 1
  cases m.programs.lookup e.1 with
  | none => exact (List.append_nil _).symm
  | some prog => exact List.append_assoc _ _ _

/-- Replacing a program leaves the other ones alone. -/
theorem replaceProgram_lookup (m : ManagerActor) (h : name ≠ e.1) :
    (m.replaceProgram e).programs.lookup name = m.programs.lookup name := by
  rw [replaceProgram, addProgram_lookup _ h]
  cases m.programs.lookup e.1 <;> rfl

/-- The calls of a fold over programs with distinct names, each step of which calls instances of its
own program. -/
theorem foldl_requests {α : Type} {f : ManagerActor → α → ManagerActor} {key : α → String}
    {requests : Option ProgramInstance → α → List Request}
    (hrequests : ∀ m a, (f m a).requests =
      m.requests ++ requests (m.programs.lookup (key a)) a)
    (hlookup : ∀ m a name, name ≠ key a →
      (f m a).programs.lookup name = m.programs.lookup name) {l : List α}
    (hnodup : (l.map key).Nodup) :
    (l.foldl f m).requests =
        m.requests ++ l.flatMap (fun a => requests (m.programs.lookup (key a)) a) ∧
      ∀ name ∉ l.map key, (l.foldl f m).programs.lookup name = m.programs.lookup name := by
  induction l generalizing m with
  | nil => exact ⟨(List.append_nil _).symm, fun _ _ => rfl⟩
  | cons a l ih =>
      rw [List.map_cons, List.nodup_cons] at hnodup
      obtain ⟨hcalls, hother⟩ := ih (m := f m a) hnodup.2
      refine ⟨?_, fun name hname => ?_⟩
      · -- The first step has left the programs of the other steps alone.
        have hrest : l.flatMap (fun b => requests ((f m a).programs.lookup (key b)) b) =
            l.flatMap fun b => requests (m.programs.lookup (key b)) b := by
          refine List.flatMap_congr fun b hb => ?_
          rw [hlookup m a (key b) fun heq => hnodup.1 (heq ▸ List.mem_map_of_mem hb)]
        rw [List.foldl_cons, hcalls, hrequests, hrest, List.flatMap_cons, List.append_assoc]
      · rw [List.map_cons, List.mem_cons, not_or] at hname
        rw [List.foldl_cons, hother name hname.2, hlookup m a name hname.1]

/-- The calls of a reload. -/
def reloadRequests (m : ManagerActor) (removed : List String)
    (modified added : List (String × ProgramInstance)) : List Request :=
  removed.flatMap (fun name => stopRequests (m.programs.lookup name) defaultStopWait) ++
    modified.flatMap (fun e => stopRequests (m.programs.lookup e.1) e.2.config.stopWaitSecs ++
      startRequests e.2) ++
    added.flatMap fun e => startRequests e.2

/-- A commit of programs with distinct names issues these calls. -/
theorem commitReload_requests {newDag : DependencyGraph} {st : Staging}
    {modified added : List (String × ProgramInstance)}
    (hremoved : (m.reloadDiff env newPrograms).removed.Nodup)
    (hmodified : (modified.map Prod.fst).Nodup) (hadded : (added.map Prod.fst).Nodup)
    (hdisjoint : ∀ name ∈ modified.map Prod.fst, name ∉ (m.reloadDiff env newPrograms).removed) :
    (m.commitReload newConfig env newPrograms newDag modified added st).requests =
      m.requests ++ m.reloadRequests (m.reloadDiff env newPrograms).removed modified added := by
  rw [commitReload]
  simp only
  rw [(finishReload_requests ..).1]
  obtain ⟨hadd, _⟩ := @foldl_requests ((modified.foldl replaceProgram
      ((m.reloadDiff env newPrograms).removed.foldl removeProgram
        { m.setPending newPrograms with eventPools := st.eventPools, nextId := st.nextId }))) _
    addProgram Prod.fst (fun _ e => startRequests e.2) addProgram_requests
    (fun m _ _ h => addProgram_lookup m h) added hadded
  obtain ⟨hreplace, _⟩ := @foldl_requests
    ((m.reloadDiff env newPrograms).removed.foldl removeProgram
      { m.setPending newPrograms with eventPools := st.eventPools, nextId := st.nextId }) _
    replaceProgram Prod.fst
    (fun prog e => stopRequests prog e.2.config.stopWaitSecs ++ startRequests e.2)
    replaceProgram_requests (fun m _ _ h => replaceProgram_lookup m h) modified hmodified
  obtain ⟨hremove, hother⟩ := @foldl_requests
    { m.setPending newPrograms with eventPools := st.eventPools, nextId := st.nextId } _
    removeProgram id (fun prog _ => stopRequests prog defaultStopWait) removeProgram_requests
    (fun m _ _ h => removeProgram_lookup m h) (m.reloadDiff env newPrograms).removed
    (by rwa [List.map_id])
  have hold : modified.flatMap (fun e => stopRequests
        (((m.reloadDiff env newPrograms).removed.foldl removeProgram { m.setPending newPrograms with
          eventPools := st.eventPools, nextId := st.nextId }).programs.lookup e.1)
        e.2.config.stopWaitSecs ++ startRequests e.2) =
      modified.flatMap fun e => stopRequests (m.programs.lookup e.1) e.2.config.stopWaitSecs ++
        startRequests e.2 := by
    refine List.flatMap_congr fun e he => ?_
    rw [hother e.1 (by
      rw [List.map_id]
      exact hdisjoint e.1 (List.mem_map_of_mem he))]
    rfl
  rw [hadd, hreplace, hremove, hold, reloadRequests, List.append_assoc, List.append_assoc,
    List.append_assoc]
  rfl

/-! ## Starts and stops -/

/-- The instance that a call starts. -/
def startedId (r : Request) : Option ℕ :=
  match r.call with
  | .start => some r.target
  | _ => none

/-- The instance that a call stops. -/
def stoppedId (r : Request) : Option ℕ :=
  match r.call with
  | .stop _ => some r.target
  | _ => none

/-- A call that starts an instance. -/
theorem startedId_eq_some_iff {r : Request} {id : ℕ} :
    startedId r = some id ↔ r = ⟨id, .start⟩ := by
  obtain ⟨target, call⟩ := r
  cases call <;> simp [startedId]

/-- A call that stops an instance. -/
theorem stoppedId_eq_some_iff {r : Request} {id : ℕ} :
    stoppedId r = some id ↔ ∃ gracePeriod, r = ⟨id, .stop gracePeriod⟩ := by
  obtain ⟨target, call⟩ := r
  cases call <;> simp [stoppedId]

/-- The instance of an entry, when it is configured to start. -/
def autostartId (e : String × ProgramInstance) : Option ℕ :=
  if e.2.config.autostart then some e.2.id else none

/-- No instance is started to stop a program. -/
@[simp]
theorem filterMap_startedId_stopRequests (prog : Option ProgramInstance) (gracePeriod : Duration) :
    (stopRequests prog gracePeriod).filterMap startedId = [] := by
  cases prog <;> rfl

/-- The old instance is stopped. -/
@[simp]
theorem filterMap_stoppedId_stopRequests (prog : Option ProgramInstance) (gracePeriod : Duration) :
    (stopRequests prog gracePeriod).filterMap stoppedId = (prog.map (·.id)).toList := by
  cases prog <;> rfl

/-- The new instance is started if it is configured to. -/
@[simp]
theorem filterMap_startedId_startRequests (e : String × ProgramInstance) :
    (startRequests e.2).filterMap startedId = (autostartId e).toList := by
  unfold startRequests autostartId
  split <;> rfl

/-- No instance is stopped to start a program. -/
@[simp]
theorem filterMap_stoppedId_startRequests (prog : ProgramInstance) :
    (startRequests prog).filterMap stoppedId = [] := by
  unfold startRequests
  split <;> rfl

/-- A reload starts the modified and then the added programs. -/
theorem filterMap_startedId_reloadRequests (m : ManagerActor) (removed : List String)
    (modified added : List (String × ProgramInstance)) :
    (m.reloadRequests removed modified added).filterMap startedId =
      (modified ++ added).filterMap autostartId := by
  simp only [reloadRequests, List.filterMap_append, List.filterMap_flatMap,
    filterMap_startedId_stopRequests, filterMap_startedId_startRequests, List.nil_append]
  rw [List.filterMap_eq_flatMap_toList, List.filterMap_eq_flatMap_toList]
  simp

/-- A reload stops the removed and then the modified programs. -/
theorem filterMap_stoppedId_reloadRequests (m : ManagerActor) (removed : List String)
    (modified added : List (String × ProgramInstance)) :
    (m.reloadRequests removed modified added).filterMap stoppedId =
      (removed ++ modified.map Prod.fst).filterMap fun name =>
        (m.programs.lookup name).map (·.id) := by
  simp only [reloadRequests, List.filterMap_append, List.filterMap_flatMap, List.filterMap_map,
    filterMap_stoppedId_stopRequests, filterMap_stoppedId_startRequests, List.append_nil]
  rw [List.filterMap_eq_flatMap_toList, List.filterMap_eq_flatMap_toList]
  simp

/-! ## Reloads -/

/-- The executions of the calls between two states when each call is awaited. -/
def AwaitedTrace (m m' : ManagerActor) (trace : List (CallEvent Request)) : Prop :=
  BatchesTrace (fun (_ : Unit) r => [r]) (fun s _ =>
    s) () (m'.requests.drop m.requests.length) trace

/-- Between the states, an added or modified program is started after the starts of the added or
modified programs that it needs have completed. -/
def StartsFollow (m m' : ManagerActor) (newPrograms : ProgramConfigs) : Prop :=
  ∀ trace, AwaitedTrace m m' trace → ∀ p q x y,
    newPrograms.Differs m.configs p → newPrograms.Differs m.configs q →
    newPrograms.Autostarts p → newPrograms.Autostarts q → newPrograms.Needs p q →
    m'.programs.lookup p = some x → m'.programs.lookup q = some y →
    [.completed ⟨y.id, .start⟩, .issued ⟨x.id, .start⟩].Sublist trace

/-- Between the states, the old instance of a removed or modified program is stopped after the stops
of the old instances of the removed or modified programs that needed it have completed. -/
def StopsFollow (m m' : ManagerActor) (newPrograms : ProgramConfigs) : Prop :=
  ∀ trace, AwaitedTrace m m' trace → ∀ p q x y,
    m.configs.Differs newPrograms p → m.configs.Differs newPrograms q → m.configs.Needs p q →
    m.programs.lookup p = some x → m.programs.lookup q = some y →
    ∃ gracePeriod gracePeriod', [.completed ⟨x.id, .stop gracePeriod⟩,
      .issued ⟨y.id, .stop gracePeriod'⟩].Sublist trace

/-- What a program needs stands before it in the lists of modified and added programs. -/
def StartsListed (oldPrograms newPrograms : ProgramConfigs) : Prop :=
  ∀ p q, newPrograms.Differs oldPrograms p → newPrograms.Differs oldPrograms q →
    newPrograms.Autostarts p → newPrograms.Autostarts q → newPrograms.Needs p q →
    ListedBefore (· ∈ oldPrograms) q p

/-- What needs a program stands before it in the lists of removed and modified programs. -/
def StopsListed (oldPrograms newPrograms : ProgramConfigs) : Prop :=
  ∀ p q, oldPrograms.Differs newPrograms p → oldPrograms.Differs newPrograms q →
    oldPrograms.Needs p q → ListedBefore (· ∉ newPrograms) p q

/-- The names of the staged programs of a reload. -/
theorem stageReload_names {croner : Croner} {serverIdentifier : String} {diff : ConfigDiff}
    {st st' : Staging} {modified added : List (String × ProgramInstance)}
    (h : stageReload croner serverIdentifier diff st = .ok (modified, added, st')) :
    modified.map Prod.fst = diff.modified.map (·.name) ∧
      added.map Prod.fst = diff.added.map (·.name) := by
  simp only [stageReload, Except.bind_eq_ok] at h
  obtain ⟨⟨modified', st₁⟩, hmodified, ⟨added', st₂⟩, hadded, h⟩ := h
  obtain ⟨rfl, rfl, rfl⟩ : modified' = modified ∧ added' = added ∧ st₂ = st' := by
    simpa using Except.ok.inj h
  rw [Managed.map_fst_of_configsOf (stage_staged hmodified).entries_eq,
    Managed.map_fst_of_configsOf (stage_staged hadded).entries_eq, List.map_map, List.map_map]
  exact ⟨rfl, rfl⟩

/-- The calls between two states, one after the other, have one trace. -/
theorem AwaitedTrace.sublist_iff {trace : List (CallEvent Request)} (h : AwaitedTrace m m' trace)
    {r r' : Request} : [.completed r, .issued r'].Sublist trace ↔
      [r, r'].Sublist (m'.requests.drop m.requests.length) := by
  rw [BatchesTrace.eq_sequentialTrace h, completed_issued_sublist_iff]

/-- There is an execution. -/
theorem exists_awaitedTrace (m m' : ManagerActor) : ∃ trace, AwaitedTrace m m' trace :=
  BatchesTrace.exists_trace ..

section Reload

variable {modified added : List (String × ProgramInstance)} {st : Staging}

/-- The modified and the added entries are listed by name. -/
theorem pairwise_staged (hnew : newPrograms.WellFormed)
    (hstage : stageReload env.croner m.serverIdentifier (m.reloadDiff env newPrograms)
      ⟨m.eventPools, m.nextId⟩ = .ok (modified, added, st)) :
    (modified ++ added).Pairwise fun e e' => ListedBefore (· ∈ m.configs) e.1 e'.1 := by
  obtain ⟨hmodified, hadded⟩ := stageReload_names hstage
  have hsorted : ((m.reloadDiff env newPrograms).modified.map (·.name)).Pairwise (· < ·) :=
    ConfigDiff.sorted_modified hnew
  have hsorted' : ((m.reloadDiff env newPrograms).added.map (·.name)).Pairwise (· < ·) :=
    ConfigDiff.sorted_added hnew
  have hlisted := pairwise_listedBefore hsorted hsorted' (P := (· ∈ m.configs))
    (fun name hname => by
      obtain ⟨_, _, oldCfg, hold, _⟩ := (ConfigDiff.mem_names_modified hnew).mp hname
      exact HashMap.mem_iff_lookup.mpr ⟨oldCfg, hold⟩)
    fun name hname => ((ConfigDiff.mem_names_added hnew).mp hname).2
  rw [← hmodified, ← hadded, ← List.map_append] at hlisted
  exact List.pairwise_map.mp hlisted

/-- The removed and the modified names are listed by name. -/
theorem pairwise_stopped (hnew : newPrograms.WellFormed)
    (hstage : stageReload env.croner m.serverIdentifier (m.reloadDiff env newPrograms)
      ⟨m.eventPools, m.nextId⟩ = .ok (modified, added, st)) :
    ((m.reloadDiff env newPrograms).removed ++ modified.map Prod.fst).Pairwise
      (ListedBefore (· ∉ newPrograms)) := by
  rw [(stageReload_names hstage).1]
  refine pairwise_listedBefore ConfigDiff.sorted_removed (ConfigDiff.sorted_modified hnew)
    (fun name hname => (ConfigDiff.mem_removed.mp hname).2) fun name hname hnot => hnot ?_
  obtain ⟨cfg, hcfg, _⟩ := (ConfigDiff.mem_names_modified hnew).mp hname
  exact HashMap.mem_iff_lookup.mpr ⟨cfg, hcfg⟩

/-- An added or modified program is staged with its new configuration. -/
theorem exists_staged (hnew : newPrograms.WellFormed)
    (hchange : m.managed.Change (m.reloadDiff env newPrograms).removed
      (m.reloadEntries env newPrograms) m.eventPools (modified ++ added) m'.managed)
    (hdiffers : newPrograms.Differs m.configs name) (hstart : newPrograms.Autostarts name) :
    ∃ prog, (name, prog) ∈ modified ++ added ∧ prog.config.autostart ∧
      m'.programs.lookup name = some prog := by
  obtain ⟨cfg, hcfg, hstart⟩ := hstart
  have hentry : (name, cfg) ∈ m.reloadEntries env newPrograms :=
    (mem_reloadEntries hnew).mpr ⟨hcfg, fun hold => hdiffers.2 (hcfg.trans hold.symm)⟩
  obtain ⟨prog, hprog, rfl⟩ := (Managed.mem_of_configsOf hchange.staged.entries_eq).mp hentry
  exact ⟨prog, hprog, hstart, (hchange.replaces.registered _ hprog).1⟩

/-- The starts follow the dependencies exactly when the lists do. -/
theorem startsFollow_iff (hnew : newPrograms.WellFormed)
    (hstage : stageReload env.croner m.serverIdentifier (m.reloadDiff env newPrograms)
      ⟨m.eventPools, m.nextId⟩ = .ok (modified, added, st))
    (hchange : m.managed.Change (m.reloadDiff env newPrograms).removed
      (m.reloadEntries env newPrograms) m.eventPools (modified ++ added) m'.managed)
    (hrequests : m'.requests = m.requests ++
      m.reloadRequests (m.reloadDiff env newPrograms).removed modified added) :
    StartsFollow m m' newPrograms ↔ StartsListed m.configs newPrograms := by
  have hkey : ∀ {p q x y trace}, AwaitedTrace m m' trace → (p, x) ∈ modified ++ added →
      (q, y) ∈ modified ++ added → x.config.autostart → y.config.autostart →
      ([.completed ⟨y.id, .start⟩, .issued ⟨x.id, .start⟩].Sublist trace ↔
        ListedBefore (· ∈ m.configs) q p) := by
    intro p q x y trace htrace hx hy hxStart hyStart
    rw [htrace.sublist_iff, hrequests, List.drop_left]
    have hids : [(⟨y.id, .start⟩ : Request), ⟨x.id, .start⟩].Sublist
          (m.reloadRequests (m.reloadDiff env newPrograms).removed modified added) ↔
        [y.id, x.id].Sublist ((modified ++ added).filterMap autostartId) := by
      rw [← filterMap_startedId_reloadRequests, pair_sublist_filterMap_iff]
      simp only [startedId_eq_some_iff]
      constructor
      · exact fun hsub => ⟨_, _, rfl, rfl, hsub⟩
      · rintro ⟨_, _, rfl, rfl, hsub⟩
        exact hsub
    rw [hids, pair_sublist_filterMap_iff]
    have hlisted := pair_sublist_iff (fun _ _ h => h.asymm) (pairwise_staged hnew hstage) hy hx
    rw [← hlisted]
    constructor
    · rintro ⟨e, e', he, he', hsub⟩
      -- An instance is staged under one name.
      have hsame : ∀ {e e' : String × ProgramInstance}, e ∈ modified ++ added →
          e' ∈ modified ++ added → autostartId e = some e'.2.id → e = e' := by
        intro e e' hmem hmem' hid
        unfold autostartId at hid
        split at hid
        next => exact hchange.staged.id_inj e hmem e' hmem' (Option.some.inj hid)
        next => cases hid
      have hmem := hsub.subset List.mem_cons_self
      have hmem' := hsub.subset (List.mem_cons_of_mem _ List.mem_cons_self)
      rw [hsame hmem hy he, hsame hmem' hx he'] at hsub
      exact hsub
    · exact fun hsub => ⟨(q, y), (p, x), if_pos hyStart, if_pos hxStart, hsub⟩
  constructor
  · intro hfollow p q hp hq hpStart hqStart hneeds
    obtain ⟨x, hx, hxStart, hxLookup⟩ := exists_staged hnew hchange hp hpStart
    obtain ⟨y, hy, hyStart, hyLookup⟩ := exists_staged hnew hchange hq hqStart
    obtain ⟨trace, htrace⟩ := exists_awaitedTrace m m'
    exact (hkey htrace hx hy hxStart hyStart).mp
      (hfollow trace htrace p q x y hp hq hpStart hqStart hneeds hxLookup hyLookup)
  · intro hlisted trace htrace p q x y hp hq hpStart hqStart hneeds hxLookup hyLookup
    obtain ⟨x', hx, hxStart, hxLookup'⟩ := exists_staged hnew hchange hp hpStart
    obtain ⟨y', hy, hyStart, hyLookup'⟩ := exists_staged hnew hchange hq hqStart
    obtain rfl : x' = x := Option.some.inj (hxLookup'.symm.trans hxLookup)
    obtain rfl : y' = y := Option.some.inj (hyLookup'.symm.trans hyLookup)
    exact (hkey htrace hx hy hxStart hyStart).mpr (hlisted p q hp hq hpStart hqStart hneeds)

/-- A removed or modified program is in one of the lists. -/
theorem mem_stopped (hnew : newPrograms.WellFormed)
    (hstage : stageReload env.croner m.serverIdentifier (m.reloadDiff env newPrograms)
      ⟨m.eventPools, m.nextId⟩ = .ok (modified, added, st))
    (hdiffers : m.configs.Differs newPrograms name) :
    name ∈ (m.reloadDiff env newPrograms).removed ++ modified.map Prod.fst := by
  rw [(stageReload_names hstage).1, List.mem_append]
  obtain ⟨hmem, hne⟩ := hdiffers
  by_cases hstays : name ∈ newPrograms
  · obtain ⟨cfg, hcfg⟩ := HashMap.mem_iff_lookup.mp hstays
    obtain ⟨oldCfg, hold⟩ := HashMap.mem_iff_lookup.mp hmem
    refine .inr ((ConfigDiff.mem_names_modified hnew).mpr ⟨cfg, hcfg, oldCfg, hold, ?_⟩)
    rintro rfl
    exact hne (hold.trans hcfg.symm)
  · exact .inl (ConfigDiff.mem_removed.mpr ⟨hmem, hstays⟩)

/-- The stops follow the dependencies exactly when the lists do. -/
theorem stopsFollow_iff (hinv : m.managed.Invariant) (hnew : newPrograms.WellFormed)
    (hstage : stageReload env.croner m.serverIdentifier (m.reloadDiff env newPrograms)
      ⟨m.eventPools, m.nextId⟩ = .ok (modified, added, st))
    (hrequests : m'.requests = m.requests ++
      m.reloadRequests (m.reloadDiff env newPrograms).removed modified added) :
    StopsFollow m m' newPrograms ↔ StopsListed m.configs newPrograms := by
  have hkey : ∀ {p q x y trace}, AwaitedTrace m m' trace →
      m.configs.Differs newPrograms p → m.configs.Differs newPrograms q →
      m.programs.lookup p = some x → m.programs.lookup q = some y →
      ((∃ gracePeriod gracePeriod', [.completed ⟨x.id, .stop gracePeriod⟩,
          .issued ⟨y.id, .stop gracePeriod'⟩].Sublist trace) ↔
        ListedBefore (· ∉ newPrograms) p q) := by
    intro p q x y trace htrace hp hq hx hy
    simp only [htrace.sublist_iff, hrequests, List.drop_left]
    have hids : (∃ gracePeriod gracePeriod',
          [(⟨x.id, .stop gracePeriod⟩ : Request), ⟨y.id, .stop gracePeriod'⟩].Sublist
            (m.reloadRequests (m.reloadDiff env newPrograms).removed modified added)) ↔
        [x.id, y.id].Sublist (((m.reloadDiff env newPrograms).removed ++
          modified.map Prod.fst).filterMap fun name => (m.programs.lookup name).map (·.id)) := by
      rw [← filterMap_stoppedId_reloadRequests _ _ _ added, pair_sublist_filterMap_iff]
      simp only [stoppedId_eq_some_iff]
      constructor
      · rintro ⟨g, g', hsub⟩
        exact ⟨_, _, ⟨g, rfl⟩, ⟨g', rfl⟩, hsub⟩
      · rintro ⟨_, _, ⟨g, rfl⟩, ⟨g', rfl⟩, hsub⟩
        exact ⟨g, g', hsub⟩
    rw [hids, pair_sublist_filterMap_iff]
    have hlisted := pair_sublist_iff (fun _ _ h => h.asymm) (pairwise_stopped hnew hstage)
      (mem_stopped hnew hstage hp) (mem_stopped hnew hstage hq)
    rw [← hlisted]
    constructor
    · rintro ⟨name, name', hid, hid', hsub⟩
      -- An instance is managed under one name.
      have hsame : ∀ {name name' prog}, m.programs.lookup name' = some prog →
          (m.programs.lookup name).map (·.id) = some prog.id → name = name' := by
        intro name name' prog hprog hid
        obtain ⟨prog', hprog', hid⟩ := Option.map_eq_some_iff.mp hid
        exact hinv.id_inj hprog' hprog hid
      rwa [hsame hx hid, hsame hy hid'] at hsub
    · exact fun hsub => ⟨p, q, congrArg (Option.map _) hx, congrArg (Option.map _) hy, hsub⟩
  constructor
  · intro hfollow p q hp hq hneeds
    have hmanaged : ∀ {name}, name ∈ m.configs → ∃ prog, m.programs.lookup name = some prog :=
      fun hname => HashMap.mem_iff_lookup.mp ((Managed.mem_configs_iff hinv.config_eq).mp hname)
    obtain ⟨x, hx⟩ := hmanaged hp.1
    obtain ⟨y, hy⟩ := hmanaged hq.1
    obtain ⟨trace, htrace⟩ := exists_awaitedTrace m m'
    exact (hkey htrace hp hq hx hy).mp (hfollow trace htrace p q x y hp hq hneeds hx hy)
  · intro hlisted trace htrace p q x y hp hq hneeds hx hy
    exact (hkey htrace hp hq hx hy).mpr (hlisted p q hp hq hneeds)

end Reload

/-- The starts of a successful reload follow the dependencies of the new configuration exactly when
the lists of modified and added programs do, and the stops follow those of the old one exactly when
the lists of removed and modified programs do. -/
theorem reload_follows_dependencies_iff {summary : ReloadSummary} (hreach : system.Reachable m)
    (hresolve : newConfig.resolvePrograms env.resolve = .ok newPrograms)
    (h : m.executeReloadConfig newConfig env = (.ok summary, m')) :
    (StartsFollow m m' newPrograms ↔ StartsListed m.configs newPrograms) ∧
      (StopsFollow m m' newPrograms ↔ StopsListed m.configs newPrograms) := by
  have hinv := invariant_of_reachable hreach
  have hnew := SupervisorConfig.resolvePrograms_wellFormed hresolve
  rcases m.executeReloadConfig_cases newConfig env with ⟨_, hres⟩ |
    ⟨newPrograms', newDag, hresolve', _, ⟨_, _, hres⟩ | ⟨modified, added, st, hstage, hres⟩⟩
  · rw [hres] at h
    cases h
  · rw [hres] at h
    cases h
  obtain rfl : newPrograms' = newPrograms := Except.ok.inj (hresolve'.symm.trans hresolve)
  rw [hres] at h
  obtain rfl : commitReload _ _ _ _ _ _ _ _ = m' := (Prod.mk.inj h).2
  have hchange := commitReload_change newConfig newDag hnew hstage
  obtain ⟨hmodified, hadded⟩ := stageReload_names hstage
  have hdisjoint : ∀ name ∈ modified.map Prod.fst,
      name ∉ (m.reloadDiff env newPrograms').removed := by
    rw [hmodified]
    intro name hname hremoved
    obtain ⟨cfg, hcfg, _⟩ := (ConfigDiff.mem_names_modified hnew).mp hname
    exact (ConfigDiff.mem_removed.mp hremoved).2 (HashMap.mem_iff_lookup.mpr ⟨cfg, hcfg⟩)
  have hrequests := @commitReload_requests m env newConfig newPrograms' newDag st modified added
    ConfigDiff.nodup_removed (hmodified ▸ ConfigDiff.nodup_modified hnew)
    (hadded ▸ ConfigDiff.nodup_added hnew) hdisjoint
  exact ⟨startsFollow_iff hnew hstage hchange hrequests, stopsFollow_iff hinv hnew hstage hrequests⟩

/-- A program and another one that depends on it. -/
def dependencyConfig (dependency dependent : String) : SupervisorConfig where
  programs := HashMap.extend ∅
    [(dependency, { command := "server" }),
      (dependent, { command := "client", dependsOn := [dependency] })]

/-- There is one dependency. -/
def DependencyOnly (programs : ProgramConfigs) (dependency dependent : String) : Prop :=
  dependency ≠ dependent ∧
    ∀ a ∈ programs.keys, ∀ b ∈ deps programs a, b = dependency ∧ a = dependent

instance (programs : ProgramConfigs) (dependency dependent : String) :
    Decidable (DependencyOnly programs dependency dependent) :=
  inferInstanceAs (Decidable (_ ∧ _))

/-- With one dependency, one program needs one other. -/
theorem DependencyOnly.eq_of_needs {programs : ProgramConfigs} {dependency dependent p q : String}
    (h : DependencyOnly programs dependency dependent) (hneeds : programs.Needs p q) :
    q = dependency ∧ p = dependent := by
  have hone : ∀ {a b}, b ∈ deps programs a → b = dependency ∧ a = dependent := by
    intro a b hb
    refine h.2 a (AList.mem_keys.mp (HashMap.mem_iff_lookup.mpr ?_)) b hb
    rcases hlookup : programs.lookup a with _ | cfg
    · rw [deps, hlookup] at hb
      cases hb
    · exact ⟨cfg, rfl⟩
  induction hneeds with
  | single hdep => exact hone hdep
  | tail _ hdep ih => exact absurd ((hone hdep).1.symm.trans ih.2) h.1

/-- A reload removes an application and its database, and adds a web server and its cache: the
application is stopped before the database, and the cache is started before the web server. -/
theorem reload_follows_dependencies :
    ∃ m m' summary newPrograms, system.Reachable m ∧
      (dependencyConfig "cache" "web").resolvePrograms .plain = .ok newPrograms ∧
      m.executeReloadConfig (dependencyConfig "cache" "web") .plain = (.ok summary, m') ∧
      summary.removed = ["app", "db"] ∧ summary.added = ["cache", "web"] ∧
      StartsFollow m m' newPrograms ∧ StopsFollow m m' newPrograms := by
  obtain ⟨m, hbuild, hok, hnew, hold⟩ := exists_build (fun m =>
    (m.executeReloadConfig (dependencyConfig "cache" "web") .plain).1.toOption.any (fun summary =>
      decide (summary.removed = ["app", "db"] ∧ summary.added = ["cache", "web"])) = true ∧
    ((dependencyConfig "cache" "web").resolvePrograms .plain).toOption.any (fun newPrograms =>
      decide (DependencyOnly newPrograms "cache" "web" ∧
        ListedBefore (· ∈ m.configs) "cache" "web" ∧
        ListedBefore (· ∉ newPrograms) "app" "db")) = true ∧
    DependencyOnly m.configs "db" "app")
    (dependencyConfig "db" "app") .plain (by decide +kernel)
  obtain ⟨newPrograms, hresolve, hnew⟩ := Except.exists_eq_ok_of_any hnew
  obtain ⟨hneeds, hstart, hstop⟩ := of_decide_eq_true hnew
  obtain ⟨summary, hsummary, hlists⟩ := Except.exists_eq_ok_of_any hok
  obtain ⟨hremoved, hadded⟩ := of_decide_eq_true hlists
  have hinit : system.Reachable m := .init ⟨_, _, hbuild⟩
  obtain ⟨hstarts, hstops⟩ := reload_follows_dependencies_iff hinit hresolve
    (Prod.ext hsummary rfl : m.executeReloadConfig _ .plain = (.ok summary, _))
  refine ⟨m, _, summary, newPrograms, hinit, hresolve, Prod.ext hsummary rfl, hremoved, hadded,
    hstarts.mpr ?_, hstops.mpr ?_⟩
  · intro p q _ _ _ _ hpq
    obtain ⟨rfl, rfl⟩ := hneeds.eq_of_needs hpq
    exact hstart
  · intro p q _ _ hpq
    obtain ⟨rfl, rfl⟩ := hold.eq_of_needs hpq
    exact hstop

/-- A reload removes a web server and its database, and adds an application and its cache: the
database is stopped before the web server, and the application is started before the cache. -/
theorem exists_reload_against_dependencies :
    ∃ m m' summary newPrograms, system.Reachable m ∧
      (dependencyConfig "cache" "app").resolvePrograms .plain = .ok newPrograms ∧
      m.executeReloadConfig (dependencyConfig "cache" "app") .plain = (.ok summary, m') ∧
      ¬ StartsFollow m m' newPrograms ∧ ¬ StopsFollow m m' newPrograms := by
  obtain ⟨m, hbuild, hok, hnew, hdeps, hstarted, hstopped⟩ := exists_build (fun m =>
    let r := m.executeReloadConfig (dependencyConfig "cache" "app") .plain
    let issued := r.2.requests.drop m.requests.length
    r.1.toOption.isSome = true ∧
    ((dependencyConfig "cache" "app").resolvePrograms .plain).toOption.any (fun newPrograms =>
      decide (newPrograms.Differs m.configs "app" ∧ newPrograms.Differs m.configs "cache" ∧
        newPrograms.Autostarts "app" ∧ newPrograms.Autostarts "cache" ∧
        "cache" ∈ deps newPrograms "app" ∧ m.configs.Differs newPrograms "web" ∧
        m.configs.Differs newPrograms "db")) = true ∧
    "db" ∈ deps m.configs "web" ∧
    (r.2.programs.lookup "app").any (fun x => (r.2.programs.lookup "cache").any fun y =>
      decide (¬ [⟨y.id, .start⟩, ⟨x.id, .start⟩].Sublist issued)) = true ∧
    (m.programs.lookup "web").any (fun x => (m.programs.lookup "db").any fun y =>
      decide (¬ [x.id, y.id].Sublist (issued.filterMap stoppedId))) = true)
    (dependencyConfig "db" "web") .plain (by decide +kernel)
  obtain ⟨newPrograms, hresolve, hnew⟩ := Except.exists_eq_ok_of_any hnew
  obtain ⟨happ, hcache, happStart, hcacheStart, happDeps, hweb, hdb⟩ := of_decide_eq_true hnew
  obtain ⟨x, hx, hstarted⟩ := (Option.any_eq_true _ _).mp hstarted
  obtain ⟨y, hy, hstarted⟩ := (Option.any_eq_true _ _).mp hstarted
  obtain ⟨x', hx', hstopped⟩ := (Option.any_eq_true _ _).mp hstopped
  obtain ⟨y', hy', hstopped⟩ := (Option.any_eq_true _ _).mp hstopped
  rw [decide_eq_true_eq] at hstarted hstopped
  generalize hres : m.executeReloadConfig (dependencyConfig "cache" "app") .plain = r at *
  obtain ⟨result, m'⟩ := r
  cases result with
  | error e => cases hok
  | ok summary =>
      obtain ⟨trace, htrace⟩ := exists_awaitedTrace m m'
      refine ⟨m, m', summary, newPrograms, .init ⟨_, _, hbuild⟩, hresolve, hres, fun hfollow => ?_,
        fun hfollow => ?_⟩
      · exact hstarted (htrace.sublist_iff.mp (hfollow trace htrace "app" "cache" x y happ hcache
          happStart hcacheStart (.single happDeps) hx hy))
      · obtain ⟨_, _, hsub⟩ :=
          hfollow trace htrace "web" "db" x' y' hweb hdb (.single hdeps) hx' hy'
        exact hstopped ((htrace.sublist_iff.mp hsub).filterMap stoppedId)

end ManagerActor

end Rsupervisord
