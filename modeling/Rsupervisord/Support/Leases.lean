import Rsupervisord.Support.HashMap

/-!
# Leases

A lease on a key is granted for a fixed time and renewed for that time by each use. A store of
leases keeps a deadline for each key. Whoever looks a lease up reads the clock first and may find
the clock later than that when it looks, and entries that are past their deadline are removed from
time to time. The history tells what was done, so that what the store knows can be compared with
what happened.

## Main definitions

* `LeaseStore`: the deadlines and the history.
* `Held`: by the history, a lease was granted, not revoked, and used before each deadline.

## Main results

* `LeaseStore.Sound`: the store knows no lease that is not held, and each use in the past was that
  of a lease that was held. The operations keep this.
* `LeaseStore.Complete`: the store knows each lease that is held and not at its end, and no lookup
  of such a lease was in vain. The operations keep this when no clock reading is from the future.
-/

/-- Something that was done with a lease, and by whom. Times are those of the clock reading. -/
inductive LeaseEvent (κ ω : Type*)
  | granted (k : κ) (w : ω) (now : ℕ)
  | renewed (k : κ) (w : ω) (now : ℕ)
  | revoked (k : κ) (w : ω)
  /-- A lease was looked up in vain. The time is that of the lookup. -/
  | refused (k : κ) (w : ω) (clock : ℕ)
  deriving DecidableEq, Repr

/-- The deadlines of leases, and what happened, the latest event first. -/
structure LeaseStore (κ ω : Type*) where
  leases : HashMap κ ℕ
  history : List (LeaseEvent κ ω)

variable {κ ω : Type*}

/-- By the history, the lease on `k` was granted and not revoked since, and each use came in time.
The last of these uses was at `t`. -/
inductive Held (ttl : ℕ) (k : κ) : List (LeaseEvent κ ω) → ℕ → Prop
  | granted (w : ω) (now : ℕ) (older : List (LeaseEvent κ ω)) :
      Held ttl k (.granted k w now :: older) now
  | renewed {t : ℕ} {older : List (LeaseEvent κ ω)} (w : ω) (now : ℕ) (hin : now < t + ttl) :
      Held ttl k older t → Held ttl k (.renewed k w now :: older) now
  | grantedOther {t : ℕ} {older : List (LeaseEvent κ ω)} {k' : κ} (w : ω) (now : ℕ) (hne : k' ≠ k) :
      Held ttl k older t → Held ttl k (.granted k' w now :: older) t
  | renewedOther {t : ℕ} {older : List (LeaseEvent κ ω)} {k' : κ} (w : ω) (now : ℕ) (hne : k' ≠ k) :
      Held ttl k older t → Held ttl k (.renewed k' w now :: older) t
  | revokedOther {t : ℕ} {older : List (LeaseEvent κ ω)} {k' : κ} (w : ω) (hne : k' ≠ k) :
      Held ttl k older t → Held ttl k (.revoked k' w :: older) t
  | refused {t : ℕ} {older : List (LeaseEvent κ ω)} (k' : κ) (w : ω) (clock : ℕ) :
      Held ttl k older t → Held ttl k (.refused k' w clock :: older) t

variable {ttl t t' : ℕ} {k k' : κ} {w : ω} {now clock : ℕ} {older : List (LeaseEvent κ ω)}

/-- A lease on `k` after it was granted. -/
theorem held_granted : Held ttl k (.granted k w now :: older) t ↔ t = now := by
  constructor
  · intro h
    cases h with
    | granted => rfl
    | grantedOther _ _ hne => exact absurd rfl hne
  · rintro rfl
    exact .granted _ _ _

/-- A lease on `k` after it was used. -/
theorem held_renewed : Held ttl k (.renewed k w now :: older) t ↔
    t = now ∧ ∃ t', Held ttl k older t' ∧ now < t' + ttl := by
  constructor
  · intro h
    cases h with
    | renewed _ _ hin h => exact ⟨rfl, _, h, hin⟩
    | renewedOther _ _ hne => exact absurd rfl hne
  · rintro ⟨rfl, t', h, hin⟩
    exact .renewed _ _ hin h

/-- A lease on `k` after another one was granted. -/
theorem held_granted_of_ne (hne : k' ≠ k) :
    Held ttl k (.granted k' w now :: older) t ↔ Held ttl k older t := by
  constructor
  · intro h
    cases h with
    | granted => exact absurd rfl hne
    | grantedOther _ _ _ h => exact h
  · exact .grantedOther _ _ hne

/-- A lease on `k` after another one was used. -/
theorem held_renewed_of_ne (hne : k' ≠ k) :
    Held ttl k (.renewed k' w now :: older) t ↔ Held ttl k older t := by
  constructor
  · intro h
    cases h with
    | renewed => exact absurd rfl hne
    | renewedOther _ _ _ h => exact h
  · exact .renewedOther _ _ hne

/-- A lease that was revoked is not held. -/
theorem held_revoked : Held ttl k (.revoked k' w :: older) t ↔ k' ≠ k ∧ Held ttl k older t := by
  constructor
  · intro h
    cases h with
    | revokedOther _ hne h => exact ⟨hne, h⟩
  · exact fun ⟨hne, h⟩ => .revokedOther _ hne h

/-- A lookup in vain changes nothing. -/
theorem held_refused : Held ttl k (.refused k' w clock :: older) t ↔ Held ttl k older t := by
  constructor
  · intro h
    cases h with
    | refused _ _ _ h => exact h
  · exact .refused _ _ _

/-- The last use of a lease that is held is determined. -/
theorem Held.unique {history : List (LeaseEvent κ ω)} (h : Held ttl k history t)
    (h' : Held ttl k history t') : t = t' := by
  induction h with
  | granted => exact (held_granted.mp h').symm
  | renewed => exact (held_renewed.mp h').1.symm
  | grantedOther _ _ hne _ ih => exact ih ((held_granted_of_ne hne).mp h')
  | renewedOther _ _ hne _ ih => exact ih ((held_renewed_of_ne hne).mp h')
  | revokedOther _ _ _ ih => exact ih (held_revoked.mp h').2
  | refused _ _ _ _ ih => exact ih (held_refused.mp h')

/-- A lease that is held was granted. -/
theorem Held.exists_granted {history : List (LeaseEvent κ ω)} (h : Held ttl k history t) :
    ∃ w now, LeaseEvent.granted k w now ∈ history := by
  induction h with
  | granted w now => exact ⟨w, now, List.mem_cons_self⟩
  | renewed _ _ _ _ ih => exact ih.imp fun _ => .imp fun _ => List.mem_cons_of_mem _
  | grantedOther _ _ _ _ ih => exact ih.imp fun _ => .imp fun _ => List.mem_cons_of_mem _
  | renewedOther _ _ _ _ ih => exact ih.imp fun _ => .imp fun _ => List.mem_cons_of_mem _
  | revokedOther _ _ _ ih => exact ih.imp fun _ => .imp fun _ => List.mem_cons_of_mem _
  | refused _ _ _ _ ih => exact ih.imp fun _ => .imp fun _ => List.mem_cons_of_mem _

namespace LeaseStore

variable [DecidableEq κ] {s : LeaseStore κ ω}

/-- Grant a lease on `k`. -/
def grant (s : LeaseStore κ ω) (ttl : ℕ) (k : κ) (w : ω) (now : ℕ) : LeaseStore κ ω :=
  ⟨s.leases.insert k (now + ttl), .granted k w now :: s.history⟩

/-- Renew a lease on `k`. -/
def renew (s : LeaseStore κ ω) (ttl : ℕ) (k : κ) (w : ω) (now : ℕ) : LeaseStore κ ω :=
  ⟨s.leases.insert k (now + ttl), .renewed k w now :: s.history⟩

/-- Remove the lease on `k`. -/
def revoke (s : LeaseStore κ ω) (k : κ) (w : ω) : LeaseStore κ ω :=
  ⟨s.leases.erase k, .revoked k w :: s.history⟩

/-- The lease on `k` was looked up in vain. -/
def refuse (s : LeaseStore κ ω) (k : κ) (w : ω) (clock : ℕ) : LeaseStore κ ω :=
  { s with history := .refused k w clock :: s.history }

/-- Remove what is past its deadline, among the keys that `p` selects. -/
def prune (s : LeaseStore κ ω) (p : κ → Bool) (now : ℕ) : LeaseStore κ ω :=
  { s with leases := s.leases.retain fun k deadline => !p k || decide (now < deadline) }

@[simp] theorem leases_grant : (s.grant ttl k w now).leases = s.leases.insert k (now + ttl) := rfl

@[simp] theorem leases_renew : (s.renew ttl k w now).leases = s.leases.insert k (now + ttl) := rfl

@[simp] theorem leases_revoke : (s.revoke k w).leases = s.leases.erase k := rfl

omit [DecidableEq κ] in
@[simp] theorem leases_refuse : (s.refuse k w clock).leases = s.leases := rfl

/-- The lease under a key after the entries of some keys were pruned. -/
theorem lookup_prune {p : κ → Bool} {deadline : ℕ} :
    (s.prune p now).leases.lookup k = some deadline ↔
      s.leases.lookup k = some deadline ∧ (p k = true → now < deadline) := by
  rw [prune, HashMap.lookup_retain]
  simp [imp_iff_not_or]

/-- Every event of a history satisfies `P`, together with the events before it. -/
def Each (P : LeaseEvent κ ω → List (LeaseEvent κ ω) → Prop) : List (LeaseEvent κ ω) → Prop
  | [] => True
  | e :: older => P e older ∧ Each P older

omit [DecidableEq κ] in
/-- What holds of every event holds of one in the middle of the history. -/
theorem Each.split {P : LeaseEvent κ ω → List (LeaseEvent κ ω) → Prop}
    {newer : List (LeaseEvent κ ω)} {e : LeaseEvent κ ω} (h : Each P (newer ++ e :: older)) :
    P e older := by
  induction newer with
  | nil => exact h.1
  | cons _ newer ih => exact ih h.2

/-! ### Leases in the store are held -/

/-- A use is that of a lease that is held. -/
def UsedInTime (ttl : ℕ) : LeaseEvent κ ω → List (LeaseEvent κ ω) → Prop
  | .renewed k _ now, older => ∃ t, Held ttl k older t ∧ now < t + ttl
  | _, _ => True

/-- Every lease in the store is held and ends in time after its last use, and so it was for each
use in the past. -/
structure Sound (ttl : ℕ) (s : LeaseStore κ ω) : Prop where
  held : ∀ {k deadline}, s.leases.lookup k = some deadline →
    ∃ t, Held ttl k s.history t ∧ deadline = t + ttl
  used : Each (UsedInTime ttl) s.history

/-- No lease is known at first. -/
theorem sound_empty : Sound ttl (⟨∅, []⟩ : LeaseStore κ ω) where
  held h := by cases h
  used := trivial

/-- A new lease is held. -/
theorem Sound.grant (h : Sound ttl s) (k : κ) (w : ω) (now : ℕ) :
    Sound ttl (s.grant ttl k w now) where
  held {k' deadline} hlookup := by
    rw [leases_grant, HashMap.lookup_insert] at hlookup
    split at hlookup
    next heq =>
      subst heq
      exact ⟨now, .granted _ _ _, (Option.some.inj hlookup).symm⟩
    next hne =>
      obtain ⟨t, hheld, hdeadline⟩ := h.held hlookup
      exact ⟨t, .grantedOther _ _ (Ne.symm hne) hheld, hdeadline⟩
  used := ⟨trivial, h.used⟩

/-- A lease in the store that is renewed before its deadline stays held. -/
theorem Sound.renew (h : Sound ttl s) {deadline : ℕ} (hlookup : s.leases.lookup k = some deadline)
    (hnow : now < deadline) (w : ω) : Sound ttl (s.renew ttl k w now) := by
  obtain ⟨t, hheld, rfl⟩ := h.held hlookup
  refine ⟨fun {k' deadline} hlookup' => ?_, ⟨t, hheld, hnow⟩, h.used⟩
  rw [leases_renew, HashMap.lookup_insert] at hlookup'
  split at hlookup'
  next heq =>
    subst heq
    exact ⟨now, .renewed _ _ hnow hheld, (Option.some.inj hlookup').symm⟩
  next hne =>
    obtain ⟨t', hheld', hdeadline⟩ := h.held hlookup'
    exact ⟨t', .renewedOther _ _ (Ne.symm hne) hheld', hdeadline⟩

/-- What is left after a removal is still held. -/
theorem Sound.revoke (h : Sound ttl s) (k : κ) (w : ω) : Sound ttl (s.revoke k w) where
  held {k' deadline} hlookup := by
    rw [leases_revoke, HashMap.lookup_erase] at hlookup
    split at hlookup
    next => cases hlookup
    next hne =>
      obtain ⟨t, hheld, hdeadline⟩ := h.held hlookup
      exact ⟨t, .revokedOther _ (Ne.symm hne) hheld, hdeadline⟩
  used := ⟨trivial, h.used⟩

/-- A lookup in vain takes no lease away. -/
theorem Sound.refuse (h : Sound ttl s) (k : κ) (w : ω) (clock : ℕ) :
    Sound ttl (s.refuse k w clock) where
  held hlookup := by
    obtain ⟨t, hheld, hdeadline⟩ := h.held hlookup
    exact ⟨t, .refused _ _ _ hheld, hdeadline⟩
  used := ⟨trivial, h.used⟩

/-- What is left after the entries of some keys were pruned is still held. -/
theorem Sound.prune (h : Sound ttl s) (p : κ → Bool) (now : ℕ) : Sound ttl (s.prune p now) where
  held hlookup := h.held (lookup_prune.mp hlookup).1
  used := h.used

/-! ### Leases that are held are in the store -/

/-- A lease that was looked up in vain is not held, or at its end. -/
def RefusedInTime (ttl : ℕ) : LeaseEvent κ ω → List (LeaseEvent κ ω) → Prop
  | .refused k _ clock, older => ∀ t, Held ttl k older t → t + ttl ≤ clock
  | _, _ => True

/-- Every lease that is held and not at its end at the time `clock` is in the store, and so it was
for each lookup in the past. -/
structure Complete (ttl clock : ℕ) (s : LeaseStore κ ω) : Prop where
  lookup : ∀ {k t}, Held ttl k s.history t → clock < t + ttl → s.leases.lookup k = some (t + ttl)
  refused : Each (RefusedInTime ttl) s.history

/-- No lease is held at first. -/
theorem complete_empty : Complete ttl clock (⟨∅, []⟩ : LeaseStore κ ω) where
  lookup h := by cases h
  refused := trivial

/-- Fewer leases are in force when time goes on. -/
theorem Complete.mono {clock' : ℕ} (h : Complete ttl clock s) (hle : clock ≤ clock') :
    Complete ttl clock' s where
  lookup hheld hlt := h.lookup hheld (by omega)
  refused := h.refused

/-- A new lease is in the store. -/
theorem Complete.grant (h : Complete ttl clock s) (k : κ) (w : ω) (now : ℕ) :
    Complete ttl clock (s.grant ttl k w now) where
  lookup {k' t} hheld hlt := by
    rw [leases_grant, HashMap.lookup_insert]
    split
    next heq =>
      subst heq
      rw [held_granted.mp hheld]
    next hne => exact h.lookup ((held_granted_of_ne (Ne.symm hne)).mp hheld) hlt
  refused := ⟨trivial, h.refused⟩

/-- A renewed lease is in the store with its new deadline. -/
theorem Complete.renew (h : Complete ttl clock s) (k : κ) (w : ω) (now : ℕ) :
    Complete ttl clock (s.renew ttl k w now) where
  lookup {k' t} hheld hlt := by
    rw [leases_renew, HashMap.lookup_insert]
    split
    next heq =>
      subst heq
      rw [(held_renewed.mp hheld).1]
    next hne => exact h.lookup ((held_renewed_of_ne (Ne.symm hne)).mp hheld) hlt
  refused := ⟨trivial, h.refused⟩

/-- Only the lease that is revoked leaves the store. -/
theorem Complete.revoke (h : Complete ttl clock s) (k : κ) (w : ω) :
    Complete ttl clock (s.revoke k w) where
  lookup {k' t} hheld hlt := by
    obtain ⟨hne, hheld⟩ := held_revoked.mp hheld
    rw [leases_revoke, HashMap.lookup_erase, if_neg (Ne.symm hne)]
    exact h.lookup hheld hlt
  refused := ⟨trivial, h.refused⟩

/-- A lease that is not in the store is refused with good reason. -/
theorem Complete.refuse (h : Complete ttl clock s) (hlookup : s.leases.lookup k = none) (w : ω) :
    Complete ttl clock (s.refuse k w clock) where
  lookup hheld hlt := h.lookup (held_refused.mp hheld) hlt
  refused := by
    refine ⟨fun t hheld => ?_, h.refused⟩
    by_contra hlt
    rw [h.lookup hheld (by omega)] at hlookup
    cases hlookup

/-- Leases in force are not pruned when the clock reading is not from the future. -/
theorem Complete.prune (h : Complete ttl clock s) (p : κ → Bool) (hle : now ≤ clock) :
    Complete ttl clock (s.prune p now) where
  lookup hheld hlt := lookup_prune.mpr ⟨h.lookup hheld hlt, fun _ => by omega⟩
  refused := h.refused

end LeaseStore
