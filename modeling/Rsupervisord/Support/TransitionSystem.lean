import Mathlib.Logic.Relation

/-!
# Labelled transition systems

A labelled transition system has initial states and labelled steps. The module fixes the
three ways in which a development speaks about its executions and the rules that prove
facts about them:

* `Run s ls s'`: the labels `ls` lead from `s` to `s'`.
* `Reachable s`: some execution from an initial state ends in `s`.
* `ReachableWhile G s`: some execution from an initial state ends in `s` and each of its
  steps, taken from `a` under the label `l`, satisfies the guard `G a l`.

## Main results

* `ReachableWhile.invariant`: an inductive invariant holds in every state reached by guarded
  steps. The step obligation may use that the source state is itself reached that way.
* `Run.invariant`: an inductive invariant is carried along every run.
* `Run.eq_of_step`: a quantity that no step of a run changes is the same at both ends.
-/

/-- A labelled transition system: a predicate of initial states and a labelled step relation. -/
structure TransitionSystem (σ ℓ : Type*) where
  /-- The states in which an execution may begin. -/
  init : σ → Prop
  /-- `step s l s'`: the label `l` may take `s` to `s'`. -/
  step : σ → ℓ → σ → Prop

namespace TransitionSystem

variable {σ ℓ : Type*} (T : TransitionSystem σ ℓ)

/-- `T.Run s ls s'`: the labels `ls`, in order, lead from `s` to `s'`. -/
inductive Run : σ → List ℓ → σ → Prop
  | nil (s : σ) : Run s [] s
  | cons {s t u : σ} {l : ℓ} {ls : List ℓ} : T.step s l t → Run t ls u → Run s (l :: ls) u

/-- States reached from an initial state by steps that all satisfy the guard `G`. -/
inductive ReachableWhile (G : σ → ℓ → Prop) : σ → Prop
  | init {s : σ} : T.init s → ReachableWhile G s
  | step {s t : σ} {l : ℓ} : ReachableWhile G s → G s l → T.step s l t → ReachableWhile G t

/-- States reached from an initial state by any steps. -/
abbrev Reachable (s : σ) : Prop := T.ReachableWhile (fun _ _ => True) s

variable {T}

/-- A run whose steps all satisfy the guard `G`. -/
inductive RunWhile (G : σ → ℓ → Prop) : σ → List ℓ → σ → Prop
  | nil (s : σ) : RunWhile G s [] s
  | cons {s t u : σ} {l : ℓ} {ls : List ℓ} :
      G s l → T.step s l t → RunWhile G t ls u → RunWhile G s (l :: ls) u

/-- Weakening the guard keeps a state reachable. -/
theorem ReachableWhile.mono {G H : σ → ℓ → Prop} (hGH : ∀ s l, G s l → H s l) {s : σ}
    (h : T.ReachableWhile G s) : T.ReachableWhile H s := by
  induction h with
  | init hinit => exact .init hinit
  | step _ hG hstep ih => exact .step ih (hGH _ _ hG) hstep

/-- A state reached by guarded steps is reachable. -/
theorem ReachableWhile.reachable {G : σ → ℓ → Prop} {s : σ}
    (h : T.ReachableWhile G s) : T.Reachable s :=
  h.mono fun _ _ _ => trivial

/-- The invariant rule: `I` holds initially and every guarded step from a state that is itself
reached by guarded steps preserves it. -/
theorem ReachableWhile.invariant {G : σ → ℓ → Prop} {I : σ → Prop}
    (hinit : ∀ s, T.init s → I s)
    (hstep : ∀ s l t, T.ReachableWhile G s → I s → G s l → T.step s l t → I t) {s : σ}
    (h : T.ReachableWhile G s) : I s := by
  induction h with
  | init hs => exact hinit _ hs
  | step hreach hG hs ih => exact hstep _ _ _ hreach ih hG hs

/-- Two runs that meet make one. -/
theorem Run.append {s t u : σ} {ls ls' : List ℓ} (hrun : T.Run s ls t) (hrun' : T.Run t ls' u) :
    T.Run s (ls ++ ls') u := by
  induction hrun with
  | nil => exact hrun'
  | cons hstep _ ih => exact .cons hstep (ih hrun')

/-- A run is a run of every system that has its steps. -/
theorem Run.mono {U : TransitionSystem σ ℓ} {s t : σ} {ls : List ℓ}
    (hstep : ∀ a l b, T.step a l b → U.step a l b) (hrun : T.Run s ls t) : U.Run s ls t := by
  induction hrun with
  | nil => exact .nil _
  | cons h _ ih => exact .cons (hstep _ _ _ h) ih

/-- Reachability extends along a run. -/
theorem Run.reachable {s t : σ} {ls : List ℓ} (hrun : T.Run s ls t) (h : T.Reachable s) :
    T.Reachable t := by
  induction hrun with
  | nil => exact h
  | cons hstep _ ih => exact ih (.step h trivial hstep)

/-- The run rule: an invariant that every step of the run preserves is carried along it. The
step obligation may use that its label occurs in the run. -/
theorem Run.invariant {I : σ → Prop} {s t : σ} {ls : List ℓ}
    (hstep : ∀ a l b, l ∈ ls → I a → T.step a l b → I b) (hrun : T.Run s ls t) (hs : I s) :
    I t := by
  induction hrun with
  | nil => exact hs
  | cons h _ ih =>
      refine ih (fun a l b hl => hstep a l b (List.mem_cons_of_mem _ hl)) ?_
      exact hstep _ _ _ List.mem_cons_self hs h

/-- The rule for guarded runs: an invariant that every guarded step preserves is carried along. -/
theorem RunWhile.invariant {G : σ → ℓ → Prop} {I : σ → Prop} {s t : σ} {ls : List ℓ}
    (hstep : ∀ a l b, G a l → I a → T.step a l b → I b) (hrun : T.RunWhile G s ls t) (hs : I s) :
    I t := by
  induction hrun with
  | nil => exact hs
  | cons hG h _ ih => exact ih (hstep _ _ _ hG hs h)

/-- A guard may be replaced by one that follows from it in reachable states. -/
theorem RunWhile.mono {G H : σ → ℓ → Prop} {s t : σ} {ls : List ℓ}
    (hGH : ∀ a l b, T.Reachable a → T.step a l b → G a l → H a l) (hs : T.Reachable s)
    (hrun : T.RunWhile G s ls t) : T.RunWhile H s ls t := by
  induction hrun with
  | nil => exact .nil _
  | cons hG hstep _ ih =>
    exact .cons (hGH _ _ _ hs hstep hG) hstep (ih (.step hs trivial hstep))

/-- Two guarded runs that meet make one. -/
theorem RunWhile.append {G : σ → ℓ → Prop} {s t u : σ} {ls ls' : List ℓ}
    (hrun : T.RunWhile G s ls t) (hrun' : T.RunWhile G t ls' u) :
    T.RunWhile G s (ls ++ ls') u := by
  induction hrun with
  | nil => exact hrun'
  | cons hG hstep _ ih => exact .cons hG hstep (ih hrun')

/-- A quantity that no step of a run changes while the invariant `I` holds is the same at both
ends of the run. -/
theorem Run.eq_of_step {α : Type*} {I : σ → Prop} {f : σ → α} {s t : σ} {ls : List ℓ}
    (hstep : ∀ a l b, l ∈ ls → I a → T.step a l b → I b ∧ f b = f a) (hrun : T.Run s ls t)
    (hs : I s) : f t = f s := by
  have h : I t ∧ f t = f s := by
    refine Run.invariant (I := fun a => I a ∧ f a = f s) ?_ hrun ⟨hs, rfl⟩
    intro a l b hl ha hab
    obtain ⟨hI, hf⟩ := hstep a l b hl ha.1 hab
    exact ⟨hI, hf.trans ha.2⟩
  exact h.2

/-! ## Systems given by a step function

A guarded, executable step function `next` returns `none` when a label is not enabled. A sequence
of labels is then replayed by evaluation, which produces runs and reachable states for concrete
executions. -/

/-- The transition system of a step function, started in the state `i`. -/
def ofNext (i : σ) (next : σ → ℓ → Option σ) : TransitionSystem σ ℓ where
  init s := s = i
  step s l s' := next s l = some s'

/-- Replay the labels `ls` from `s`; `none` when one of them is not enabled. -/
def replay (next : σ → ℓ → Option σ) (s : σ) : List ℓ → Option σ
  | [] => some s
  | l :: ls =>
      match next s l with
      | some t => replay next t ls
      | none => none

/-- Replay the labels `ls` from `s`; `none` when one of them is not enabled or fails the guard. -/
def replayWhile (G : σ → ℓ → Prop) [∀ s l, Decidable (G s l)] (next : σ → ℓ → Option σ) (s : σ) :
    List ℓ → Option σ
  | [] => some s
  | l :: ls =>
      if G s l then
        match next s l with
        | some t => replayWhile G next t ls
        | none => none
      else none

/-- A successful replay is a run. -/
theorem run_of_replay {i s t : σ} {next : σ → ℓ → Option σ} {ls : List ℓ}
    (h : replay next s ls = some t) : (ofNext i next).Run s ls t := by
  induction ls generalizing s with
  | nil =>
      simp only [replay, Option.some.injEq] at h
      subst h
      exact .nil s
  | cons l ls ih =>
      simp only [replay] at h
      split at h
      next u hu => exact .cons hu (ih h)
      next => cases h

/-- A guarded replay of steps of the system leads from a state reached by guarded steps to a state
reached by guarded steps. -/
theorem ReachableWhile.of_replayWhile {G : σ → ℓ → Prop} [∀ s l, Decidable (G s l)] {s t : σ}
    {f : σ → ℓ → Option σ} {ls : List ℓ} (hf : ∀ s l t, f s l = some t → T.step s l t)
    (hs : T.ReachableWhile G s) (h : replayWhile G f s ls = some t) : T.ReachableWhile G t := by
  induction ls generalizing s with
  | nil =>
      simp only [replayWhile, Option.some.injEq] at h
      exact h ▸ hs
  | cons l ls ih =>
      simp only [replayWhile] at h
      split at h
      next hG =>
        split at h
        next u hu => exact ih (.step hs hG (hf _ _ _ hu)) h
        next => cases h
      next => cases h

/-- A guarded replay that ends in a state with the decidable property `P` reaches such a state by
guarded steps. -/
theorem exists_reachableWhile {G : σ → ℓ → Prop} [∀ s l, Decidable (G s l)] {i : σ}
    {f : σ → ℓ → Option σ} (P : σ → Prop) [DecidablePred P] (ls : List ℓ)
    (h : (replayWhile G f i ls).any (fun t => decide (P t)) = true) :
    ∃ t, (ofNext i f).ReachableWhile G t ∧ P t := by
  obtain ⟨t, hreplay, hP⟩ := (Option.any_eq_true _ _).mp h
  exact ⟨t, .of_replayWhile (fun _ _ _ hstep => hstep) (.init rfl) hreplay, of_decide_eq_true hP⟩

end TransitionSystem
