import Mathlib.Tactic.Common

/-!
# Fallible computations on a state

A computation changes a state and returns a value or fails; what it did to the state before it
failed stays. The module gives such computations pre- and postconditions, with one postcondition for
values and one for failures.

* `Triple P m Q E`: from a state in `P`, `m` returns a value as `Q` says or fails as `E` says.
* `Keeps P m`: `m` keeps `P`, also when it fails.
-/

namespace FallibleState

variable {ε σ τ α β : Type}

/-- Run `m`; a failure becomes a value. -/
def attempt (m : EStateM ε σ α) : EStateM ε σ (Except ε α) := fun s =>
  match m s with
  | .ok a s' => .ok (.ok a) s'
  | .error e s' => .ok (.error e) s'

/-- Run `m` on a part of the state. -/
def onPart (view : σ → τ) (update : σ → τ → σ) (m : EStateM ε τ α) : EStateM ε σ α := fun s =>
  match m (view s) with
  | .ok a t => .ok a (update s t)
  | .error e t => .error e (update s t)

/-- The state that a run leaves. -/
def finalState : EStateM.Result ε σ α → σ
  | .ok _ s => s
  | .error _ s => s

/-- A run of `m` from a state in `P` returns a value as `Q` says or fails as `E` says. -/
def Triple (P : σ → Prop) (m : EStateM ε σ α) (Q : α → σ → Prop) (E : ε → σ → Prop) : Prop :=
  ∀ s, P s → match m s with
    | .ok a s' => Q a s'
    | .error e s' => E e s'

/-- `m` keeps `P`, also when it fails. -/
abbrev Keeps (P : σ → Prop) (m : EStateM ε σ α) : Prop := Triple P m (fun _ => P) (fun _ => P)

/-- Reading the state leaves it. -/
theorem get_apply (s : σ) : (get : EStateM ε σ σ) s = .ok s s := rfl

variable {P P' : σ → Prop} {Q Q' : α → σ → Prop} {E E' : ε → σ → Prop} {m : EStateM ε σ α}

namespace Triple

/-- A triple holds with a stronger precondition and weaker postconditions. -/
theorem weaken (h : Triple P m Q E) (hP : ∀ s, P' s → P s) (hQ : ∀ a s, Q a s → Q' a s)
    (hE : ∀ e s, E e s → E' e s) : Triple P' m Q' E' := by
  intro s hs
  have hrun := h s (hP s hs)
  generalize m s = result at hrun ⊢
  match result with
  | .ok a s' => exact hQ a s' hrun
  | .error e s' => exact hE e s' hrun

/-- A value is returned in the state as it is. -/
theorem pure {a : α} (h : ∀ s, P s → Q a s) : Triple P (pure a : EStateM ε σ α) Q E :=
  fun s hs => h s hs

/-- A failure leaves the state as it is. -/
theorem throw {e : ε} (h : ∀ s, P s → E e s) : Triple P (throw e : EStateM ε σ α) Q E :=
  fun s hs => h s hs

/-- The state is read as it is. -/
theorem get {Q : σ → σ → Prop} (h : ∀ s, P s → Q s s) : Triple P (get : EStateM ε σ σ) Q E :=
  fun s hs => h s hs

/-- The state becomes another one. -/
theorem modify {f : σ → σ} {Q : PUnit → σ → Prop} (h : ∀ s, P s → Q ⟨⟩ (f s)) :
    Triple P (modify f : EStateM ε σ PUnit) Q E :=
  fun s hs => h s hs

/-- The second computation goes on where the first returned a value. -/
theorem bind {R : α → σ → Prop} {f : α → EStateM ε σ β} {Q : β → σ → Prop} (hm : Triple P m R E)
    (hf : ∀ a, Triple (R a) (f a) Q E) : Triple P (m >>= f) Q E := by
  intro s hs
  have hrun := hm s hs
  show match EStateM.bind m f s with
    | .ok a s' => Q a s'
    | .error e s' => E e s'
  unfold EStateM.bind
  generalize m s = result at hrun
  match result with
  | .ok a s' => exact hf a s' hrun
  | .error e s' => exact hrun

/-- A failure that is caught is a value. -/
theorem attempt {Q : Except ε α → σ → Prop}
    (hm : Triple P m (fun a => Q (.ok a)) fun e => Q (.error e)) :
    Triple P (attempt m) Q E := by
  intro s hs
  have hrun := hm s hs
  unfold FallibleState.attempt
  generalize m s = result at hrun
  match result with
  | .ok a s' => exact hrun
  | .error e s' => exact hrun

/-- A run on a part of the state changes this part only. -/
theorem onPart {view : σ → τ} {update : σ → τ → σ} {m : EStateM ε τ α}
    (hm : ∀ s, P s → Triple (fun t => t = view s) m (fun a t => Q a (update s t))
      fun e t => E e (update s t)) :
    Triple P (onPart view update m) Q E := by
  intro s hs
  have hrun := hm s hs (view s) rfl
  unfold FallibleState.onPart
  generalize m (view s) = result at hrun
  match result with
  | .ok a s' => exact hrun
  | .error e s' => exact hrun

/-- What holds of the state before does not depend on the run. -/
theorem of_forall_eq (h : ∀ s, P s → Triple (fun t => t = s) m Q E) : Triple P m Q E :=
  fun s hs => h s hs s rfl

end Triple

namespace Keeps

/-- Two computations that keep a property keep it one after the other. -/
theorem bind {f : α → EStateM ε σ β} (hm : Keeps P m) (hf : ∀ a, Keeps P (f a)) :
    Keeps P (m >>= f) := Triple.bind hm hf

/-- A computation whose failure is caught keeps what it keeps otherwise. -/
theorem attempt (hm : Keeps P m) : Keeps P (attempt m) := Triple.attempt hm

/-- A loop keeps what its passes keep. -/
theorem forM {l : List β} {f : β → EStateM ε σ PUnit} (hf : ∀ b ∈ l, Keeps P (f b)) :
    Keeps P (forM l f) := by
  induction l with
  | nil => exact .pure fun _ hs => hs
  | cons b l ih =>
    rw [List.forM_cons]
    exact (hf b List.mem_cons_self).bind fun _ => ih fun b hb => hf b (List.mem_cons_of_mem _ hb)

/-- What is kept holds of the state that a run leaves. -/
theorem finalState (hm : Keeps P m) {s : σ} (hs : P s) : P (finalState (m s)) := by
  have hrun := hm s hs
  generalize m s = result at hrun ⊢
  match result with
  | .ok a s' => exact hrun
  | .error e s' => exact hrun

end Keeps

end FallibleState
