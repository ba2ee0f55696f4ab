import Mathlib.Data.List.Basic
import Mathlib.Tactic.Common

/-!
# Transducers

A deterministic machine that takes inputs one after the other and answers each with a list of
outputs.

* `Along.invariant`: what every guarded step keeps holds after a run of guarded steps.
* `Aligned.unwind`: two runs that differ in steps an observer does not see have the outputs he sees
  in common.
-/

/-- A machine that answers inputs. -/
structure Transducer (σ ι ο : Type*) where
  /-- The state after an input, and the outputs that answer it. -/
  next : σ → ι → σ × List ο

namespace Transducer

variable {σ ι ο : Type*} (T : Transducer σ ι ο)

/-- The state after some inputs. -/
def after (s : σ) (is : List ι) : σ := is.foldl (fun s i => (T.next s i).1) s

/-- The outputs that answer some inputs. -/
def outputs : σ → List ι → List ο
  | _, [] => []
  | s, i :: is => (T.next s i).2 ++ outputs (T.next s i).1 is

/-- Each input meets the guard in the state in which it is taken. -/
def Along (G : σ → ι → Prop) : σ → List ι → Prop
  | _, [] => True
  | s, i :: is => G s i ∧ Along G (T.next s i).1 is

/-- Two runs, side by side: each of them may make silent steps by itself, and both make the other
steps together, with inputs that are alike. -/
inductive Aligned (silent : σ → ι → Prop) (alike : σ → ι → σ → ι → Prop) :
    σ → List ι → σ → List ι → Prop
  | nil (s t : σ) : Aligned silent alike s [] t []
  | left {s t : σ} {i : ι} {is js : List ι} (hsilent : silent s i)
      (rest : Aligned silent alike (T.next s i).1 is t js) : Aligned silent alike s (i :: is) t js
  | right {s t : σ} {j : ι} {is js : List ι} (hsilent : silent t j)
      (rest : Aligned silent alike s is (T.next t j).1 js) : Aligned silent alike s is t (j :: js)
  | both {s t : σ} {i j : ι} {is js : List ι} (halike : alike s i t j)
      (rest : Aligned silent alike (T.next s i).1 is (T.next t j).1 js) :
      Aligned silent alike s (i :: is) t (j :: js)

variable {T} {G : σ → ι → Prop} {s t : σ} {i : ι} {is js : List ι}

@[simp]
theorem after_nil : T.after s [] = s := rfl

@[simp]
theorem after_cons : T.after s (i :: is) = T.after (T.next s i).1 is := rfl

theorem after_append : T.after s (is ++ js) = T.after (T.after s is) js := List.foldl_append

@[simp]
theorem outputs_cons : T.outputs s (i :: is) = (T.next s i).2 ++ T.outputs (T.next s i).1 is := rfl

theorem outputs_append : T.outputs s (is ++ js) = T.outputs s is ++
    T.outputs (T.after s is) js := by
  induction is generalizing s with
  | nil => rfl
  | cons i is ih =>
      rw [List.cons_append, outputs_cons, outputs_cons, ih, List.append_assoc, after_cons]

theorem along_append : T.Along G s (is ++ js) ↔ T.Along G s is ∧ T.Along G (T.after s is) js := by
  induction is generalizing s with
  | nil => exact ⟨fun h => ⟨trivial, h⟩, And.right⟩
  | cons i is ih => exact (and_congr_right fun _ => ih).trans and_assoc.symm

/-- An invariant of the guarded steps holds after a guarded run. -/
theorem Along.invariant {I : σ → Prop} (hstep : ∀ s i, I s → G s i → I (T.next s i).1)
    (h : T.Along G s is) (hs : I s) : I (T.after s is) := by
  induction is generalizing s with
  | nil => exact hs
  | cons i is ih => exact ih h.2 (hstep s i hs h.1)

/-- Guards that say the same under an invariant of all steps hold along the same runs. -/
theorem along_congr {G' : σ → ι → Prop} {I : σ → Prop} (hstep : ∀ s i, I s → I (T.next s i).1)
    (hG : ∀ s i, I s → (G s i ↔ G' s i)) (hs : I s) : T.Along G s is ↔ T.Along G' s is := by
  induction is generalizing s with
  | nil => exact Iff.rfl
  | cons i is ih => exact and_congr (hG s i hs) (ih (hstep s i hs))

/-- The unwinding rule. A relation that silent steps of either run keep, without outputs that are
seen, and that steps with inputs alike keep, with the same outputs seen, holds at the end; and the
same outputs are seen. -/
theorem Aligned.unwind {silent : σ → ι → Prop} {alike : σ → ι → σ → ι → Prop} {R : σ → σ → Prop}
    {seen : ο → Bool}
    (hleft : ∀ s t i, R s t → G s i → silent s i →
      R (T.next s i).1 t ∧ (T.next s i).2.filter seen = [])
    (hright : ∀ s t j, R s t → G t j → silent t j →
      R s (T.next t j).1 ∧ (T.next t j).2.filter seen = [])
    (hboth : ∀ s t i j, R s t → G s i → G t j → alike s i t j →
      R (T.next s i).1 (T.next t j).1 ∧ (T.next s i).2.filter seen = (T.next t j).2.filter seen)
    (h : T.Aligned silent alike s is t js) (hR : R s t) (hs : T.Along G s is)
    (ht : T.Along G t js) :
    R (T.after s is) (T.after t js) ∧
      (T.outputs s is).filter seen = (T.outputs t js).filter seen := by
  induction h with
  | nil => exact ⟨hR, rfl⟩
  | left hsilent _ ih =>
    obtain ⟨hR', hnone⟩ := hleft _ _ _ hR hs.1 hsilent
    obtain ⟨hafter, hseen⟩ := ih hR' hs.2 ht
    refine ⟨hafter, ?_⟩
    rw [outputs_cons, List.filter_append, hnone, List.nil_append]
    exact hseen
  | right hsilent _ ih =>
    obtain ⟨hR', hnone⟩ := hright _ _ _ hR ht.1 hsilent
    obtain ⟨hafter, hseen⟩ := ih hR' hs ht.2
    refine ⟨hafter, ?_⟩
    rw [outputs_cons, List.filter_append, hnone, List.nil_append]
    exact hseen
  | both halike _ ih =>
    obtain ⟨hR', hsame⟩ := hboth _ _ _ _ hR hs.1 ht.1 halike
    obtain ⟨hafter, hseen⟩ := ih hR' hs.2 ht.2
    refine ⟨hafter, ?_⟩
    rw [outputs_cons, outputs_cons, List.filter_append, List.filter_append, hsame, hseen]

end Transducer
