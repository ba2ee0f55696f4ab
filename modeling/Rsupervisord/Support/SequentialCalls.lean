import Mathlib.Data.List.Infix
import Mathlib.Data.List.Nodup

/-!
# Sequential calls

Calls made one after the other until one of them fails. Whether a call fails may depend on all the
calls before it.

## Main results

* `concat_prefix_attempts_iff`: a call is made exactly when all planned calls before it succeed.
* `forall_mem_attempts_iff`: the calls that matter are all made exactly when none of them has a
  failing call before it.
* `pair_sublist_total` and `not_pair_sublist_swap`: of two different calls one is made before the
  other, and not after it.
-/

variable {α : Type*} {ok : List α → Bool} {l p : List α} {a b : α}

/-- The calls that are made of a list of planned ones, up to and including the first that fails.
`ok` tells whether the last call of a history succeeded. -/
def attempts (ok : List α → Bool) : List α → List α → List α
  | _, [] => []
  | before, a :: rest =>
      if ok (before ++ [a]) then a :: attempts ok (before ++ [a]) rest else [a]

/-- What is made is a prefix of what was planned. -/
theorem prefix_attempts (ok : List α → Bool) (before l : List α) :
    attempts ok before l <+: l := by
  induction l generalizing before with
  | nil => exact List.nil_prefix
  | cons a rest ih =>
    rw [attempts]
    split
    · exact (List.prefix_cons_inj a).mpr (ih _)
    · exact (List.prefix_cons_inj a).mpr List.nil_prefix

/-- When no call fails, all planned calls are made. -/
theorem attempts_eq_self {before : List α} (h : ∀ calls, ok calls = true) :
    attempts ok before l = l := by
  induction l generalizing before with
  | nil => rfl
  | cons a rest ih => rw [attempts, if_pos (h _), ih]

/-- A planned call is made exactly when all planned calls before it succeed. -/
theorem concat_prefix_attempts_iff {before : List α} :
    p ++ [a] <+: attempts ok before l ↔
      p ++ [a] <+: l ∧ ∀ made, made <+: p → made ≠ [] → ok (before ++ made) = true := by
  induction l generalizing before p with
  | nil => simp [attempts]
  | cons b rest ih =>
    match p with
    | [] =>
      -- The first call is always made.
      have hmade : ∀ made : List α, made <+: [] → made ≠ [] → ok (before ++ made) = true :=
        fun made hbegin hne => absurd (List.prefix_nil.mp hbegin) hne
      rw [attempts]
      split <;> simp only [List.nil_append, List.cons_prefix_cons, List.nil_prefix, and_true] <;>
        exact ⟨fun h => ⟨h, hmade⟩, fun h => h.1⟩
    | c :: p =>
      rw [attempts, List.cons_append]
      split
      next hok =>
        rw [List.cons_prefix_cons, List.cons_prefix_cons, ih]
        constructor
        · rintro ⟨rfl, hp, hmade⟩
          refine ⟨⟨rfl, hp⟩, ?_⟩
          intro made hbegin hne
          match made with
          | d :: made =>
            obtain ⟨rfl, htail⟩ := List.cons_prefix_cons.mp hbegin
            by_cases hnil : made = []
            · subst hnil
              exact hok
            · have hrest := hmade made htail hnil
              rwa [List.append_assoc] at hrest
        · rintro ⟨⟨rfl, hp⟩, hmade⟩
          refine ⟨rfl, hp, ?_⟩
          intro made hbegin _
          have hrest := hmade (c :: made) (List.cons_prefix_cons.mpr ⟨rfl, hbegin⟩)
            (List.cons_ne_nil _ _)
          rwa [List.append_assoc]
      next hfail =>
        constructor
        · intro hbegin
          have hlen := hbegin.length_le
          simp at hlen
        · rintro ⟨hbegin, hmade⟩
          obtain ⟨rfl, -⟩ := List.cons_prefix_cons.mp hbegin
          have hok := hmade [c] (List.cons_prefix_cons.mpr ⟨rfl, List.nil_prefix⟩)
            (List.cons_ne_nil _ _)
          exact absurd hok hfail

/-- A member of a list stands behind one of its prefixes. -/
theorem exists_concat_prefix (h : a ∈ l) : ∃ p, p ++ [a] <+: l := by
  obtain ⟨p, rest, rfl⟩ := List.append_of_mem h
  exact ⟨p, rest, by rw [List.append_assoc]; rfl⟩

/-- In a list of distinct elements it stands behind one prefix only. -/
theorem concat_prefix_inj {p' : List α} (hl : l.Nodup) (hp : p ++ [a] <+: l)
    (hp' : p' ++ [a] <+: l) : p = p' := by
  have key : ∀ {p p' : List α}, p' ++ [a] <+: l → p ++ [a] <+: p' ++ [a] → p = p' := by
    intro p p' hp' hbegin
    obtain heq | hshort := List.prefix_concat_iff.mp hbegin
    · exact List.append_cancel_right heq
    · -- A shorter prefix would put the element into the list twice.
      have hmem : a ∈ p' := hshort.subset (List.mem_append_right _ List.mem_cons_self)
      have hnodup := hl.sublist hp'.sublist
      exact absurd rfl ((List.nodup_append.mp hnodup).2.2 a hmem a List.mem_cons_self)
  obtain hle | hle := List.prefix_or_prefix_of_prefix hp hp'
  · exact key hp' hle
  · exact (key hp hle).symm

/-- The planned calls that matter are all made exactly when none of them has a failing call before
it. -/
theorem forall_mem_attempts_iff {before : List α} {needed : α → Prop} (hl : l.Nodup) :
    (∀ a ∈ l, needed a → a ∈ attempts ok before l) ↔
      ∀ p a, p ++ [a] <+: l → needed a →
        ∀ made, made <+: p → made ≠ [] → ok (before ++ made) = true := by
  constructor
  · intro hall p a hp hneeded
    have hmem : a ∈ l := hp.subset (List.mem_append_right _ List.mem_cons_self)
    obtain ⟨p', hp'⟩ := exists_concat_prefix (hall a hmem hneeded)
    obtain rfl : p = p' :=
      concat_prefix_inj hl hp (hp'.trans (prefix_attempts ok before l))
    exact (concat_prefix_attempts_iff.mp hp').2
  · intro hmade a hmem hneeded
    obtain ⟨p, hp⟩ := exists_concat_prefix hmem
    have hbegin := concat_prefix_attempts_iff.mpr ⟨hp, hmade p a hp hneeded⟩
    exact hbegin.subset (List.mem_append_right _ List.mem_cons_self)

/-! ## The order of two calls -/

/-- Of two different elements of a list one stands before the other. -/
theorem pair_sublist_total (ha : a ∈ l) (hb : b ∈ l) :
    a = b ∨ [a, b].Sublist l ∨ [b, a].Sublist l := by
  induction l with
  | nil => contradiction
  | cons c l ih =>
    obtain rfl | haRest := List.mem_cons.mp ha
    · obtain rfl | hbRest := List.mem_cons.mp hb
      · exact .inl rfl
      · exact .inr (.inl ((List.singleton_sublist.mpr hbRest).cons_cons a))
    · obtain rfl | hbRest := List.mem_cons.mp hb
      · exact .inr (.inr ((List.singleton_sublist.mpr haRest).cons_cons b))
      · obtain heq | hab | hba := ih haRest hbRest
        · exact .inl heq
        · exact .inr (.inl (hab.cons c))
        · exact .inr (.inr (hba.cons c))

/-- In a list of distinct elements none stands before and after another, or before itself. -/
theorem not_pair_sublist_swap (hl : l.Nodup) (h : [a, b].Sublist l) : ¬ [b, a].Sublist l := by
  induction l with
  | nil => simp at h
  | cons c l ih =>
    obtain ⟨hc, hrest⟩ := List.nodup_cons.mp hl
    intro h'
    -- The head of the list would have to occur once more behind itself.
    obtain hsub | ⟨r, hr, hsub⟩ := List.sublist_cons_iff.mp h
    · obtain hsub' | ⟨r', hr', hsub'⟩ := List.sublist_cons_iff.mp h'
      · exact ih hrest hsub hsub'
      · obtain ⟨rfl, rfl⟩ := List.cons_eq_cons.mp hr'
        exact hc (hsub.subset (List.mem_cons_of_mem _ List.mem_cons_self))
    · obtain ⟨rfl, rfl⟩ := List.cons_eq_cons.mp hr
      obtain hsub' | ⟨r', hr', hsub'⟩ := List.sublist_cons_iff.mp h'
      · exact hc (hsub'.subset (List.mem_cons_of_mem _ List.mem_cons_self))
      · obtain ⟨rfl, rfl⟩ := List.cons_eq_cons.mp hr'
        exact hc (List.singleton_sublist.mp hsub)

/-- What stands before an element of a prefix stands in the prefix. -/
theorem pair_sublist_of_prefix (hl : l.Nodup) (hp : p <+: l) (hb : b ∈ p)
    (h : [a, b].Sublist l) : [a, b].Sublist p := by
  obtain ⟨rest, rfl⟩ := hp
  have hnodup := List.nodup_append.mp hl
  have ha : a ∈ p ++ rest := h.subset List.mem_cons_self
  obtain ha | ha := List.mem_append.mp ha
  · obtain rfl | hab | hba := pair_sublist_total ha hb
    · exact absurd h (not_pair_sublist_swap hl h)
    · exact hab
    · exact absurd (hba.trans (List.sublist_append_left p rest)) (not_pair_sublist_swap hl h)
  · -- An element of the rest stands behind the prefix.
    have hba : [b, a].Sublist (p ++ rest) :=
      (List.singleton_sublist.mpr hb).append (List.singleton_sublist.mpr ha)
    exact absurd hba (not_pair_sublist_swap hl h)
