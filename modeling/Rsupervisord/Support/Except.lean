import Mathlib.Data.List.Perm.Basic

/-!
# Computations that may fail

Rules for results of the `Except` monad that are known to be successful, and the agreement of two
results up to a relation of the values and whatever the errors are.

## Main results

* `mapM_perm`: whether the elements of a list can all be mapped does not depend on their order.
* `foldlM_bind_eq_ok_iff`: a fold whose steps compute a value first maps its list and then folds.
-/

namespace Except

variable {ε α β : Type}

/-- A sequence succeeds when both parts do. -/
theorem bind_eq_ok {x : Except ε α} {f : α → Except ε β} {b : β} :
    (x >>= f) = .ok b ↔ ∃ a, x = .ok a ∧ f a = .ok b := by
  cases x with
  | error e => exact iff_of_false (by rintro ⟨⟩) (by rintro ⟨_, ⟨⟩, _⟩)
  | ok a => exact ⟨fun h => ⟨a, rfl, h⟩, by rintro ⟨_, ⟨⟩, h⟩; exact h⟩

/-- What follows an error does not succeed. -/
theorem throw_bind_ne_ok {e : ε} {f : α → Except ε β} {b : β} : (throw e >>= f) ≠ .ok b := nofun

/-- A mapped result is a success when the result is one. -/
theorem map_eq_ok {x : Except ε α} {f : α → β} {b : β} :
    x.map f = .ok b ↔ ∃ a, x = .ok a ∧ f a = b := by
  cases x with
  | error e => exact iff_of_false (by rintro ⟨⟩) (by rintro ⟨_, ⟨⟩, _⟩)
  | ok a => exact ⟨fun h => ⟨a, rfl, Except.ok.inj h⟩, by rintro ⟨_, ⟨⟩, rfl⟩; rfl⟩

/-- A computation that returns a value with the property `p`. -/
theorem exists_eq_ok_of_any {x : Except ε α} {p : α → Bool} (h : x.toOption.any p = true) :
    ∃ a, x = .ok a ∧ p a = true := by
  cases x with
  | error e => cases h
  | ok a => exact ⟨a, rfl, h⟩

/-- What each step of a fold preserves, a successful fold preserves. -/
theorem foldlM_invariant {f : β → α → Except ε β} {I : β → Prop} {l : List α} {b b' : β}
    (hstep : ∀ b a b', a ∈ l → I b → f b a = .ok b' → I b') (hb : I b)
    (h : l.foldlM f b = .ok b') : I b' := by
  induction l generalizing b with
  | nil =>
      obtain rfl := Except.ok.inj h
      exact hb
  | cons a l ih =>
      rw [List.foldlM_cons, bind_eq_ok] at h
      obtain ⟨b₁, hhead, htail⟩ := h
      exact ih (fun b a b' ha => hstep b a b' (List.mem_cons_of_mem _ ha))
        (hstep b a b₁ List.mem_cons_self hb hhead) htail

/-- An action that succeeds on a list succeeds on each of its elements. -/
theorem eq_ok_of_forM {f : α → Except ε Unit} {l : List α} (h : l.forM f = .ok ()) {a : α}
    (ha : a ∈ l) : f a = .ok () := by
  induction l with
  | nil => contradiction
  | cons b l ih =>
    obtain ⟨_, hhead, htail⟩ := bind_eq_ok.mp h
    obtain rfl | ha := List.mem_cons.mp ha
    · exact hhead
    · exact ih htail ha

/-- A list is mapped when each of its elements is. -/
theorem mapM_eq_ok_iff {f : α → Except ε β} {l : List α} {bs : List β} :
    l.mapM f = .ok bs ↔ List.Forall₂ (fun a b => f a = .ok b) l bs := by
  induction l generalizing bs with
  | nil =>
    rw [List.forall₂_nil_left_iff]
    constructor
    · intro h
      exact (Except.ok.inj h).symm
    · rintro rfl
      rfl
  | cons a l ih =>
    rw [List.mapM_cons, bind_eq_ok, List.forall₂_cons_left_iff]
    refine exists_congr fun b => ?_
    rw [bind_eq_ok]
    constructor
    · rintro ⟨hhead, bs', htail, hbs⟩
      exact ⟨bs', hhead, ih.mp htail, (Except.ok.inj hbs).symm⟩
    · rintro ⟨bs', hhead, htail, rfl⟩
      exact ⟨hhead, bs', ih.mpr htail, rfl⟩

/-- What a function preserves of each element is preserved of the list. -/
theorem map_eq_of_mapM {γ : Type} {f : α → Except ε β} {key : α → γ} {key' : β → γ} {l : List α}
    {bs : List β} (hf : ∀ a ∈ l, ∀ b, f a = .ok b → key' b = key a) (hl : l.mapM f = .ok bs) :
    bs.map key' = l.map key := by
  rw [mapM_eq_ok_iff] at hl
  induction hl with
  | nil => rfl
  | cons hhead _ ih =>
    rw [List.forall_mem_cons] at hf
    rw [List.map_cons, List.map_cons, ih hf.2, hf.1 _ hhead]

/-- Each element of a list that is mapped has its value among the results. -/
theorem exists_mem_of_mapM {f : α → Except ε β} {l : List α} {bs : List β}
    (hl : l.mapM f = .ok bs) {a : α} (ha : a ∈ l) : ∃ b ∈ bs, f a = .ok b := by
  rw [mapM_eq_ok_iff] at hl
  induction hl with
  | nil => contradiction
  | cons hhead _ ih =>
    obtain rfl | ha := List.mem_cons.mp ha
    · exact ⟨_, List.mem_cons_self, hhead⟩
    · obtain ⟨b, hb, hfa⟩ := ih ha
      exact ⟨b, List.mem_cons_of_mem _ hb, hfa⟩

/-- The results are the values of the elements. -/
theorem mem_iff_of_mapM {f : α → Except ε β} {l : List α} {bs : List β}
    (hl : l.mapM f = .ok bs) {b : β} : b ∈ bs ↔ ∃ a ∈ l, f a = .ok b := by
  rw [mapM_eq_ok_iff] at hl
  constructor
  · intro hb
    induction hl with
    | nil => contradiction
    | cons hhead _ ih =>
      obtain rfl | hb := List.mem_cons.mp hb
      · exact ⟨_, List.mem_cons_self, hhead⟩
      · obtain ⟨a, ha, hfa⟩ := ih hb
        exact ⟨a, List.mem_cons_of_mem _ ha, hfa⟩
  · rintro ⟨a, ha, hfa⟩
    obtain ⟨b', hb', hfa'⟩ := exists_mem_of_mapM (mapM_eq_ok_iff.mpr hl) ha
    exact Except.ok.inj (hfa'.symm.trans hfa) ▸ hb'

/-- Each element of a list has a related one in a related list, and the other way round. -/
theorem exists_related {γ : Type} {R : γ → β → Prop} {l : List γ} {bs : List β}
    (h : List.Forall₂ R l bs) :
    (∀ a ∈ l, ∃ b ∈ bs, R a b) ∧ ∀ b ∈ bs, ∃ a ∈ l, R a b := by
  induction h with
  | nil => exact ⟨fun _ ha => absurd ha List.not_mem_nil, fun _ hb => absurd hb List.not_mem_nil⟩
  | cons hhead _ ih =>
    refine ⟨List.forall_mem_cons.mpr ⟨⟨_, List.mem_cons_self, hhead⟩, fun a ha => ?_⟩,
      List.forall_mem_cons.mpr ⟨⟨_, List.mem_cons_self, hhead⟩, fun b hb => ?_⟩⟩
    · obtain ⟨b, hb, hab⟩ := ih.1 a ha
      exact ⟨b, List.mem_cons_of_mem _ hb, hab⟩
    · obtain ⟨a, ha, hab⟩ := ih.2 b hb
      exact ⟨a, List.mem_cons_of_mem _ ha, hab⟩

/-- Lists that a function relates to lists stay related when all are joined. -/
theorem forall₂_flatten_of_mapM {γ : Type} {R : γ → β → Prop} {f : α → Except ε (List β)}
    {g : α → List γ} {l : List α} {bss : List (List β)}
    (hf : ∀ a ∈ l, ∀ bs, f a = .ok bs → List.Forall₂ R (g a) bs) (hl : l.mapM f = .ok bss) :
    List.Forall₂ R (l.flatMap g) bss.flatten := by
  rw [mapM_eq_ok_iff] at hl
  induction hl with
  | nil => exact .nil
  | cons hhead _ ih =>
    rw [List.forall_mem_cons] at hf
    exact List.rel_append (hf.1 _ hhead) (ih hf.2)

/-- Whether a list can be mapped does not depend on its order. -/
theorem mapM_perm {f : α → Except ε β} {l l' : List α} {bs : List β} (h : l.Perm l')
    (hl : l.mapM f = .ok bs) : ∃ bs', l'.mapM f = .ok bs' ∧ bs.Perm bs' := by
  obtain ⟨bs', hl', hbs⟩ := List.perm_comp_forall₂ h.symm (mapM_eq_ok_iff.mp hl)
  exact ⟨bs', mapM_eq_ok_iff.mpr hl', hbs.symm⟩

/-- A list is mapped by another function that succeeds with the same values. -/
theorem mapM_of_forall {f f' : α → Except ε β} {l : List α} {bs : List β}
    (hf : ∀ a ∈ l, ∀ b, f a = .ok b → f' a = .ok b) (hl : l.mapM f = .ok bs) :
    l.mapM f' = .ok bs := by
  rw [mapM_eq_ok_iff] at hl ⊢
  induction hl with
  | nil => exact .nil
  | cons hhead _ ih =>
    refine .cons (hf _ List.mem_cons_self _ hhead) (ih ?_)
    exact fun a ha => hf a (List.mem_cons_of_mem _ ha)

/-- A fold whose steps compute a value of the element first: all values are computed, and they are
folded. -/
theorem foldlM_bind_eq_ok_iff {σ : Type} {f : σ → α → Except ε σ} {g : α → Except ε β}
    {h : σ → β → Except ε σ} {l : List α} {s s' : σ}
    (hf : ∀ s a s', f s a = .ok s' ↔ ∃ b, g a = .ok b ∧ h s b = .ok s') :
    l.foldlM f s = .ok s' ↔ ∃ bs, l.mapM g = .ok bs ∧ bs.foldlM h s = .ok s' := by
  induction l generalizing s with
  | nil =>
    constructor
    · exact fun hs => ⟨[], rfl, hs⟩
    · rintro ⟨bs, hbs, hs⟩
      obtain rfl := Except.ok.inj hbs
      exact hs
  | cons a l ih =>
    rw [List.foldlM_cons, bind_eq_ok]
    simp only [hf, ih, List.mapM_cons, bind_eq_ok]
    constructor
    · rintro ⟨s₁, ⟨b, hb, hs₁⟩, bs, hbs, hs'⟩
      refine ⟨b :: bs, ⟨b, hb, bs, hbs, rfl⟩, ?_⟩
      rw [List.foldlM_cons, bind_eq_ok]
      exact ⟨s₁, hs₁, hs'⟩
    · rintro ⟨_, ⟨b, hb, bs, hbs, hcons⟩, hs'⟩
      obtain rfl := Except.ok.inj hcons
      rw [List.foldlM_cons, bind_eq_ok] at hs'
      obtain ⟨s₁, hs₁, hs'⟩ := hs'
      exact ⟨s₁, ⟨b, hb, hs₁⟩, bs, hbs, hs'⟩

/-- A fold whose steps compute a value of the element first and cannot fail behind it. -/
theorem foldlM_eq_map_mapM {σ : Type} {f : σ → α → Except ε σ} {g : α → Except ε β}
    {h : σ → β → σ} {l : List α} (hf : ∀ s a, f s a = (g a).map (h s)) (s : σ) :
    l.foldlM f s = (l.mapM g).map fun bs => bs.foldl h s := by
  induction l generalizing s with
  | nil => rfl
  | cons a l ih =>
    rw [List.foldlM_cons, List.mapM_cons, hf]
    cases g a with
    | error e => rfl
    | ok b =>
      show l.foldlM f (h s b) = _
      rw [ih]
      cases l.mapM g with
      | error e => rfl
      | ok bs => rfl

/-- Mapping a list fails with the error of the first element that fails. -/
theorem mapM_eq_error_iff {f : α → Except ε β} {l : List α} {e : ε} :
    l.mapM f = .error e ↔ ∃ before a behind, l = before ++ a :: behind ∧
      (∀ a' ∈ before, ∃ b, f a' = .ok b) ∧ f a = .error e := by
  induction l with
  | nil => simp [pure, Except.pure]
  | cons a l ih =>
    rw [List.mapM_cons]
    constructor
    · intro h
      cases ha : f a with
      | error e' =>
        rw [ha] at h
        obtain rfl := Except.error.inj (h : Except.error e' = .error e)
        exact ⟨[], a, l, rfl, by simp, ha⟩
      | ok b =>
        rw [ha] at h
        cases hl : l.mapM f with
        | ok bs =>
          rw [hl] at h
          cases h
        | error e' =>
          rw [hl] at h
          obtain rfl := Except.error.inj h
          obtain ⟨before, a', behind, rfl, hbefore, ha'⟩ := ih.mp hl
          exact ⟨a :: before, a', behind, rfl, List.forall_mem_cons.mpr ⟨⟨b, ha⟩, hbefore⟩, ha'⟩
    · rintro ⟨before, a', behind, hl, hbefore, ha'⟩
      cases before with
      | nil =>
        obtain ⟨rfl, rfl⟩ := List.cons.inj hl
        rw [ha']
        rfl
      | cons a'' before =>
        obtain ⟨rfl, rfl⟩ := List.cons.inj hl
        obtain ⟨⟨b, hb⟩, hbefore⟩ := List.forall_mem_cons.mp hbefore
        rw [hb, ih.mpr ⟨before, a', behind, rfl, hbefore, ha'⟩]
        rfl

/-- Folding lists one after the other is folding their concatenation. -/
theorem foldlM_flatten {σ : Type} {f : σ → α → Except ε σ} {ls : List (List α)} {s : σ} :
    ls.foldlM (fun s l => l.foldlM f s) s = ls.flatten.foldlM f s := by
  induction ls generalizing s with
  | nil => rfl
  | cons l ls ih =>
    rw [List.foldlM_cons, List.flatten_cons, List.foldlM_append]
    exact congrArg _ (funext fun s => ih)

/-! ## Agreement -/

/-- Two computations fail both, or succeed both with related values. -/
def Agree (R : α → β → Prop) : Except ε α → Except ε β → Prop
  | .ok a, .ok b => R a b
  | .error _, .error _ => True
  | _, _ => False

/-- Computations agree when a success of each is one of the other. -/
theorem agree_iff {R : α → β → Prop} {x : Except ε α} {y : Except ε β} :
    Agree R x y ↔ (∀ a, x = .ok a → ∃ b, y = .ok b ∧ R a b) ∧
      ∀ b, y = .ok b → ∃ a, x = .ok a ∧ R a b := by
  match x, y with
  | .ok a, .ok b => simp [Agree]
  | .ok a, .error _ => simp [Agree]
  | .error _, .ok b => simp [Agree]
  | .error _, .error _ => simp [Agree]

end Except
