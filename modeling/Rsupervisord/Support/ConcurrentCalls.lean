import Mathlib.Data.List.Forall2

/-!
# Concurrent calls

The calls of a batch are issued in order and then run at the same time, each for as long as it
takes. Batches follow each other: the next one begins when every call of the one before it has
completed, and what it calls depends on the state at that time. A trace is what an observer sees of
an execution.

## Main results

* `BatchesTrace.separates`: calls in later batches only are issued after the earlier ones completed.
* `BatchesTrace.exists_not_separates`: two calls of one batch may overlap.
-/

/-- What is seen of a call to `a`. -/
inductive CallEvent (α : Type*)
  | issued (a : α)
  | completed (a : α)

namespace CallEvent

variable {α : Type*}

/-- The target of a call that is issued. -/
def issued? : CallEvent α → Option α
  | .issued a => some a
  | .completed _ => none

/-- The target of a call that completes. -/
def completed? : CallEvent α → Option α
  | .issued _ => none
  | .completed a => some a

/-- A call that is issued. -/
theorem mem_issued {a : α} {trace : List (CallEvent α)} :
    a ∈ trace.filterMap issued? ↔ .issued a ∈ trace := by
  rw [List.mem_filterMap]
  constructor
  · rintro ⟨e, he, hissued⟩
    cases e with
    | issued b =>
        obtain rfl := Option.some.inj hissued
        exact he
    | completed b => cases hissued
  · exact fun he => ⟨_, he, rfl⟩

/-- A call that completes. -/
theorem mem_completed {a : α} {trace : List (CallEvent α)} :
    a ∈ trace.filterMap completed? ↔ .completed a ∈ trace := by
  rw [List.mem_filterMap]
  constructor
  · rintro ⟨e, he, hcompleted⟩
    cases e with
    | issued b => cases hcompleted
    | completed b =>
        obtain rfl := Option.some.inj hcompleted
        exact he
  · exact fun he => ⟨_, he, rfl⟩

end CallEvent

/-- No `late` call is issued before an `early` one has completed. -/
def Separates {α : Type*} (early late : α → Prop) (trace : List (CallEvent α)) : Prop :=
  trace.Pairwise fun e e' => ∀ a b, e = .issued b → e' = .completed a → late b → ¬ early a

/-! ## One batch -/

/-- The traces of a batch of calls, of which `pending` are still to be issued and `running` were
issued and have not completed. -/
inductive BatchTrace {α : Type*} : List α → List α → List (CallEvent α) → Prop
  | done : BatchTrace [] [] []
  | issue {a : α} {pending running : List α} {trace : List (CallEvent α)} :
      BatchTrace pending (a :: running) trace →
      BatchTrace (a :: pending) running (.issued a :: trace)
  | complete {a : α} {pending running rest : List α} {trace : List (CallEvent α)} :
      running.Perm (a :: rest) → BatchTrace pending rest trace →
      BatchTrace pending running (.completed a :: trace)

namespace BatchTrace

variable {α : Type*} {pending running : List α} {trace : List (CallEvent α)} {early late : α → Prop}

/-- The calls are issued in order. -/
theorem issued_eq (h : BatchTrace pending running trace) :
    trace.filterMap CallEvent.issued? = pending := by
  induction h with
  | done => rfl
  | issue _ ih => exact congrArg (List.cons _) ih
  | complete _ _ ih => exact ih

/-- Each call completes once. -/
theorem completed_perm (h : BatchTrace pending running trace) :
    (trace.filterMap CallEvent.completed?).Perm (pending ++ running) := by
  induction h with
  | done => exact .nil
  | issue _ ih => exact ih.trans List.perm_middle
  | complete hperm _ ih =>
      exact (ih.cons _).trans (List.perm_middle.symm.trans (hperm.symm.append_left _))

/-- All running calls complete. -/
theorem completeAll (running : List α) : BatchTrace [] running (running.map .completed) := by
  induction running with
  | nil => exact .done
  | cons a running ih => exact .complete (.refl _) ih

/-- All calls are issued before the first one completes. -/
theorem issueAll (pending running : List α) : BatchTrace pending running
    (pending.map .issued ++ (pending.reverse ++ running).map .completed) := by
  induction pending generalizing running with
  | nil => exact completeAll running
  | cons a pending ih =>
      rw [List.reverse_cons, List.append_assoc]
      exact .issue (ih (a :: running))

/-- A batch separates early and late calls when it does not have both. -/
theorem separates (h : BatchTrace pending [] trace)
    (hsep : ∀ b ∈ pending, ∀ a ∈ pending, late b → ¬ early a) : Separates early late trace := by
  apply List.pairwise_of_forall_mem_list
  rintro _ he _ he' a b rfl rfl
  have hb := CallEvent.mem_issued.mpr he
  have ha := h.completed_perm.mem_iff.mp (CallEvent.mem_completed.mpr he')
  rw [h.issued_eq] at hb
  rw [List.append_nil] at ha
  exact hsep b hb a ha

/-- A batch with an early and a late call may issue the late one before the early one completes. -/
theorem not_separates_issueAll {a b : α} (ha : a ∈ pending) (hb : b ∈ pending) (hearly : early a)
    (hlate : late b) : ¬ Separates early late
      (pending.map .issued ++ (pending.reverse ++ []).map .completed) := by
  intro hsep
  refine (List.pairwise_append.mp hsep).2.2 (.issued b) (List.mem_map_of_mem hb)
    (.completed a) ?_ a b
    rfl rfl hlate hearly
  rw [List.append_nil]
  exact List.mem_map_of_mem (List.mem_reverse.mpr ha)

end BatchTrace

/-! ## Batches one after the other -/

section Batches

variable {σ β α : Type*} {calls : σ → β → List α} {step : σ → β → σ}

/-- The traces of batches, each of which begins when the one before it has completed. -/
inductive BatchesTrace (calls : σ → β → List α) (step : σ → β → σ) :
    σ → List β → List (CallEvent α) → Prop
  | nil {s : σ} : BatchesTrace calls step s [] []
  | cons {s : σ} {b : β} {bs : List β} {trace trace' : List (CallEvent α)} :
      BatchTrace (calls s b) [] trace → BatchesTrace calls step (step s b) bs trace' →
      BatchesTrace calls step s (b :: bs) (trace ++ trace')

namespace BatchesTrace

variable {s : σ} {bs : List β} {trace : List (CallEvent α)} {early late : α → Prop}

/-- There is an execution. -/
theorem exists_trace (calls : σ → β → List α) (step : σ → β → σ) (s : σ) (bs : List β) :
    ∃ trace, BatchesTrace calls step s bs trace := by
  induction bs generalizing s with
  | nil => exact ⟨[], .nil⟩
  | cons b bs ih =>
      obtain ⟨trace, htrace⟩ := ih (step s b)
      exact ⟨_, .cons (.issueAll (calls s b) []) htrace⟩

/-- What a log of the calls holds after an execution. -/
theorem log_eq {γ : Type*} {log : σ → List γ} {entry : α → γ}
    (hlog : ∀ s b, log (step s b) = log s ++ (calls s b).map entry)
    (h : BatchesTrace calls step s bs trace) :
    log (bs.foldl step s) = log s ++ (trace.filterMap CallEvent.issued?).map entry := by
  induction h with
  | nil => exact (List.append_nil _).symm
  | cons hbatch _ ih =>
      rw [List.foldl_cons, ih, hlog, List.filterMap_append, hbatch.issued_eq, List.map_append,
        List.append_assoc]

/-- What is called stands in one of the batches. -/
theorem exists_mem_of_completed {I : σ → Prop} {P : β → α → Prop}
    (hstep : ∀ s b, I s → I (step s b)) (hs : I s)
    (hcalls : ∀ s, I s → ∀ b, ∀ a ∈ calls s b, P b a)
    (h : BatchesTrace calls step s bs trace) {a : α} (ha : .completed a ∈ trace) :
    ∃ b ∈ bs, P b a := by
  induction h with
  | nil => cases ha
  | @cons s b bs trace trace' hbatch _ ih =>
      rcases List.mem_append.mp ha with ha | ha
      · have hmem := hbatch.completed_perm.mem_iff.mp (CallEvent.mem_completed.mpr ha)
        rw [List.append_nil] at hmem
        exact ⟨b, List.mem_cons_self, hcalls s hs b a hmem⟩
      · obtain ⟨b', hb', ha'⟩ := ih (hstep s b hs) ha
        exact ⟨b', List.mem_cons_of_mem _ hb', ha'⟩

/-- An execution separates early and late calls, when no late call is in the batch of an early one
or in a batch before it. -/
theorem separates {I : σ → Prop} {P : β → α → Prop} (hstep : ∀ s b, I s → I (step s b))
    (hs : I s) (hcalls : ∀ s, I s → ∀ b, ∀ a ∈ calls s b, P b a)
    (hself : ∀ b ∈ bs, ∀ x y, P b x → P b y → late x → ¬ early y)
    (horder : bs.Pairwise fun b b' => ∀ x y, P b x → P b' y → late x → ¬ early y)
    (h : BatchesTrace calls step s bs trace) : Separates early late trace := by
  induction h with
  | nil => exact .nil
  | @cons s b bs trace trace' hbatch hrest ih =>
      have hbatchCalls := hcalls s hs b
      rw [List.pairwise_cons] at horder
      refine List.pairwise_append.mpr ⟨?_, ?_, ?_⟩
      · exact hbatch.separates fun x hx y hy => hself b List.mem_cons_self x y (hbatchCalls x hx)
          (hbatchCalls y hy)
      · exact ih (hstep s b hs) (fun b hb => hself b (List.mem_cons_of_mem _ hb)) horder.2
      · -- The late call is in this batch, and the early one in a batch behind it.
        rintro _ he _ he' y x rfl rfl
        have hx := CallEvent.mem_issued.mpr he
        rw [hbatch.issued_eq] at hx
        obtain ⟨b', hb', hy⟩ := hrest.exists_mem_of_completed hstep (hstep s b hs) hcalls he'
        exact horder.1 b' hb' x y (hbatchCalls x hx) hy

/-- When an early and a late call are always in one batch, some execution does not separate them. -/
theorem exists_not_separates (step : σ → β → σ) {I : σ → Prop} {b : β} {x y : α}
    (hstep : ∀ s b, I s → I (step s b)) (hs : I s) (hb : b ∈ bs) (hx : ∀ s, I s →
      x ∈ calls s b) (hy : ∀ s, I s → y ∈ calls s b)
    (hlate : late x) (hearly : early y) :
    ∃ trace, BatchesTrace calls step s bs trace ∧ ¬ Separates early late trace := by
  induction bs generalizing s with
  | nil => cases hb
  | cons b' bs ih =>
      rcases List.mem_cons.mp hb with rfl | hb
      · obtain ⟨trace, htrace⟩ := exists_trace calls step (step s b) bs
        refine ⟨_, .cons (.issueAll (calls s b) []) htrace, fun hsep => ?_⟩
        exact BatchTrace.not_separates_issueAll (hy s hs) (hx s hs) hearly hlate
          (List.pairwise_append.mp hsep).1
      · obtain ⟨trace, htrace, hnot⟩ := ih (hstep s b' hs) hb
        refine ⟨_, .cons (.issueAll (calls s b') []) htrace, fun hsep => hnot ?_⟩
        exact (List.pairwise_append.mp hsep).2.1

end BatchesTrace

end Batches

/-! ## Calls one after the other -/

section Sequential

variable {α : Type*} {calls : List α} {a b : α}

/-- The trace of calls that are issued one after the other. -/
def sequentialTrace (calls : List α) : List (CallEvent α) :=
  calls.flatMap fun a => [.issued a, .completed a]

/-- A batch with one call has one trace. -/
theorem BatchTrace.eq_of_singleton {trace : List (CallEvent α)} (h : BatchTrace [a] [] trace) :
    trace = [.issued a, .completed a] := by
  cases h with
  | issue h =>
      cases h with
      | @complete c _ _ rest _ hperm h =>
          obtain ⟨rfl, rfl⟩ := List.cons.inj (List.singleton_perm.mp hperm)
          cases h with
          | done => rfl
          | complete hperm _ => cases List.nil_perm.mp hperm
  | complete hperm _ => cases List.nil_perm.mp hperm

/-- Batches with one call each have one trace. -/
theorem BatchesTrace.eq_sequentialTrace {σ : Type*} {step : σ → α → σ} {s : σ}
    {trace : List (CallEvent α)} (h : BatchesTrace (fun _ a => [a]) step s calls trace) :
    trace = sequentialTrace calls := by
  induction h with
  | nil => rfl
  | cons hbatch _ ih => rw [hbatch.eq_of_singleton, ih, sequentialTrace, sequentialTrace,
      List.flatMap_cons]

/-- A call has completed when a later one is issued. -/
theorem completed_issued_sublist_iff :
    [.completed a, .issued b].Sublist (sequentialTrace calls) ↔ [a, b].Sublist calls := by
  have hissued : ∀ calls : List α,
      [CallEvent.issued b].Sublist (sequentialTrace calls) ↔ [b].Sublist calls := by
    intro calls
    rw [List.singleton_sublist, List.singleton_sublist, sequentialTrace, List.mem_flatMap]
    constructor
    · rintro ⟨c, hc, hmem⟩
      rcases List.mem_pair.mp hmem with heq | heq
      · obtain rfl := CallEvent.issued.inj heq
        exact hc
      · cases heq
    · exact fun hb => ⟨b, hb, List.mem_cons_self⟩
  induction calls with
  | nil => simp [sequentialTrace]
  | cons c calls ih =>
      change List.Sublist _ (.issued c :: .completed c :: sequentialTrace calls) ↔ _
      simp only [List.cons_sublist_cons', ih, hissued, CallEvent.completed.injEq, reduceCtorEq,
        false_and, or_false]

/-- In a list that an asymmetric relation orders, two elements stand in its order. -/
theorem pair_sublist_iff {R : α → α → Prop} (hR : ∀ a b, R a b → ¬ R b a) (h : calls.Pairwise R)
    (ha : a ∈ calls) (hb : b ∈ calls) : [a, b].Sublist calls ↔ R a b := by
  constructor
  · exact fun hsub => List.pairwise_pair.mp (h.sublist hsub)
  · intro hab
    induction calls with
    | nil => cases ha
    | cons c calls ih =>
        rw [List.pairwise_cons] at h
        rcases List.mem_cons.mp ha with rfl | haRest
        · rcases List.mem_cons.mp hb with rfl | hbRest
          · exact absurd hab (hR _ _ hab)
          · exact (List.singleton_sublist.mpr hbRest).cons_cons a
        · rcases List.mem_cons.mp hb with rfl | hbRest
          · exact absurd (h.1 a haRest) (hR _ _ hab)
          · exact (ih h.2 haRest hbRest).cons c

/-- Two results stand in the order of what they come from. -/
theorem pair_sublist_filterMap_iff {β : Type*} {f : α → Option β} {x y : β} :
    [x, y].Sublist (calls.filterMap f) ↔
      ∃ a b, f a = some x ∧ f b = some y ∧ [a, b].Sublist calls := by
  constructor
  · intro h
    induction calls with
    | nil => cases h
    | cons c calls ih =>
        have hlater : [x, y].Sublist (calls.filterMap f) →
            ∃ a b, f a = some x ∧ f b = some y ∧ [a, b].Sublist (c :: calls) := by
          intro h
          obtain ⟨a, b, ha, hb, hab⟩ := ih h
          exact ⟨a, b, ha, hb, hab.cons c⟩
        rw [List.filterMap_cons] at h
        split at h
        next => exact hlater h
        next z hz =>
          rw [List.cons_sublist_cons'] at h
          rcases h with h | ⟨rfl, hy⟩
          · exact hlater h
          · obtain ⟨b, hb, hfb⟩ := List.mem_filterMap.mp (List.singleton_sublist.mp hy)
            exact ⟨c, b, hz, hfb, (List.singleton_sublist.mpr hb).cons_cons c⟩
  · rintro ⟨a, b, ha, hb, hab⟩
    have hsub := hab.filterMap f
    rwa [List.filterMap_cons_some ha, List.filterMap_cons_some hb] at hsub

end Sequential
