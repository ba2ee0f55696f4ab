import Mathlib.Data.List.Range
import Mathlib.Logic.Function.Basic

/-!
# Stores of files

Regular files by their names, and the operations on them that do not fail. A chain of files is
numbered; renaming each one to the next number, the last one first, moves the whole chain.

* `renameOver_of_free`: a rename to a name that is not in use.
* `foldl_renameOver_key`: the chain behind the first file is moved by one.
* `contents`: the bytes of a chain, the file of the highest number first.
-/

namespace FileStore

variable {κ β : Type} [DecidableEq κ]

/-- Files by their names. -/
abbrev Store (κ β : Type) := κ → Option (List β)

/-- `name` holds `bytes`. -/
def put (s : Store κ β) (name : κ) (bytes : List β) : Store κ β :=
  fun n => if n = name then some bytes else s n

/-- `name` is no longer in use. -/
def remove (s : Store κ β) (name : κ) : Store κ β :=
  fun n => if n = name then none else s n

/-- Bytes behind those of `name`. -/
def append (s : Store κ β) (name : κ) (bytes : List β) : Store κ β :=
  put s name ((s name).getD [] ++ bytes)

/-- `src` becomes `dst`. -/
def rename (s : Store κ β) (src dst : κ) : Store κ β :=
  if src = dst then s else fun n => if n = dst then s src else if n = src then none else s n

/-- Rename a file that exists, and remove an existing one of the new name first. -/
def renameOver (s : Store κ β) (src dst : κ) : Store κ β :=
  if (s src).isSome then
    rename (if (s dst).isSome then remove s dst else s) src dst
  else s

@[simp]
theorem put_self (s : Store κ β) (name : κ) (bytes : List β) :
    put s name bytes name = some bytes := if_pos rfl

theorem put_of_ne (s : Store κ β) {name n : κ} (bytes : List β) (h : n ≠ name) :
    put s name bytes n = s n := if_neg h

@[simp]
theorem remove_self (s : Store κ β) (name : κ) : remove s name name = none := if_pos rfl

theorem remove_of_ne (s : Store κ β) {name n : κ} (h : n ≠ name) : remove s name n = s n :=
  if_neg h

/-- Removing a file if it exists. -/
theorem ite_remove_apply (s : Store κ β) (name n : κ) :
    (if (s name).isSome then remove s name else s) n = if n = name then none else s n := by
  split
  next => rfl
  next hnone =>
    split
    next hn =>
      rw [hn]
      simpa using hnone
    next => rfl

theorem append_of_ne (s : Store κ β) {name n : κ} (bytes : List β) (h : n ≠ name) :
    append s name bytes n = s n := put_of_ne s _ h

/-- The files after a rename; what had the new name is gone in any case. -/
theorem rename_apply (s : Store κ β) {src dst : κ} (h : src ≠ dst) (n : κ) :
    rename s src dst n = if n = dst then s src else if n = src then none else s n := by
  rw [rename, if_neg h]

/-- A rename to a name that is not in use, whether or not the file exists. -/
theorem renameOver_of_free (s : Store κ β) {src dst : κ} (h : src ≠ dst) (hfree : s dst = none)
    (n : κ) :
    renameOver s src dst n = if n = dst then s src else if n = src then none else s n := by
  have hdst : (s dst).isSome = false := by rw [hfree]; rfl
  simp only [renameOver, hdst, Bool.false_eq_true, if_false]
  split
  next => exact rename_apply s h n
  next hnone =>
    have hsrc : s src = none := by simpa using hnone
    split
    next hn => rw [hn, hfree, hsrc]
    next =>
      split
      next hn => rw [hn, hsrc]
      next => rfl

/-- A rename does not concern other files. -/
theorem renameOver_of_ne (s : Store κ β) {src dst n : κ} (hsrc : n ≠ src) (hdst : n ≠ dst) :
    renameOver s src dst n = s n := by
  have hremove : (if (s dst).isSome then remove s dst else s) n = s n := by
    rw [ite_remove_apply, if_neg hdst]
  rw [renameOver]
  split
  next =>
    by_cases hne : src = dst
    · rw [rename, if_pos hne, hremove]
    · rw [rename_apply _ hne, if_neg hdst, if_neg hsrc, hremove]
  next => rfl

/-! ## Chains -/

section Chain

variable {key : ℕ → κ}

/-- Renaming the files `1` to `m`, the last one first, when the number `m + 1` is not in use: each
of them has the next number afterwards. -/
theorem foldl_renameOver_key (hkey : Function.Injective key) (m : ℕ) (s : Store κ β)
    (hfree : s (key (m + 1)) = none) (i : ℕ) :
    (List.range' 1 m).reverse.foldl (fun s i => renameOver s (key i) (key (i + 1))) s (key i) =
      if i = 0 ∨ m + 1 < i then s (key i) else if i = 1 then none else s (key (i - 1)) := by
  induction m generalizing s with
  | zero =>
    rcases eq_or_ne i 1 with rfl | hi
    · simpa using hfree
    · rw [if_pos (by omega)]
      rfl
  | succ m ih =>
    have hne : key (m + 1) ≠ key (m + 1 + 1) := hkey.ne (by omega)
    have hstep := renameOver_of_free s hne hfree
    have hlast : (List.range' 1 (m + 1)).reverse = (m + 1) :: (List.range' 1 m).reverse := by
      rw [List.range'_concat, List.reverse_append]
      simp [Nat.add_comm]
    -- The file `m + 1` is moved first; those below it follow.
    rw [hlast, List.foldl_cons, ih _ (by rw [hstep, if_neg hne, if_pos rfl])]
    simp only [hstep, hkey.eq_iff]
    rcases (by omega : (i = 0 ∨ m + 1 + 1 < i) ∨ i = m + 1 + 1 ∨ i = 1 ∨ 1 < i ∧ i ≤ m + 1)
      with hout | rfl | rfl | hmid
    · rw [if_pos (c := i = 0 ∨ m + 1 < i) (by omega), if_neg (c := i = m + 1 + 1) (by omega),
        if_neg (c := i = m + 1) (by omega), if_pos hout]
    · rw [if_pos (c := m + 1 + 1 = 0 ∨ m + 1 < m + 1 + 1) (by omega), if_pos rfl,
        if_neg (by omega), if_neg (by omega)]
      rfl
    · rw [if_neg (c := 1 = 0 ∨ m + 1 < 1) (by omega),
        if_neg (c := 1 = 0 ∨ m + 1 + 1 < 1) (by omega)]
      rfl
    · rw [if_neg (c := i = 0 ∨ m + 1 < i) (by omega), if_neg (c := i = 1) (by omega),
        if_neg (c := i - 1 = m + 1 + 1) (by omega), if_neg (c := i - 1 = m + 1) (by omega),
        if_neg (c := i = 0 ∨ m + 1 + 1 < i) (by omega), if_neg (c := i = 1) (by omega)]

/-- Files outside the chain stay. -/
theorem foldl_renameOver_of_ne {n : κ} (hn : ∀ i, n ≠ key i) (is : List ℕ) (s : Store κ β) :
    is.foldl (fun s i => renameOver s (key i) (key (i + 1))) s n = s n := by
  induction is generalizing s with
  | nil => rfl
  | cons i is ih =>
    rw [List.foldl_cons, ih, renameOver_of_ne s (hn i) (hn (i + 1))]

/-- The bytes of the files `n` to `0`, those of a missing file left out. -/
def contents (key : ℕ → κ) (n : ℕ) (s : Store κ β) : List β :=
  (List.range (n + 1)).reverse.flatMap fun i => (s (key i)).getD []

/-- Bytes that are appended to the file `0` come last. -/
theorem contents_append (hkey : Function.Injective key) (n : ℕ) (s : Store κ β) (bytes : List β) :
    contents key n (append s (key 0) bytes) = contents key n s ++ bytes := by
  have hrest : ∀ i, append s (key 0) bytes (key (i + 1)) = s (key (i + 1)) := fun i =>
    append_of_ne s bytes (hkey.ne (by omega))
  simp only [contents, List.range_succ_eq_map, List.reverse_cons, List.flatMap_append,
    ← List.map_reverse, List.flatMap_map, Nat.succ_eq_add_one, hrest, List.flatMap_singleton]
  rw [append, put_self, Option.getD_some, List.append_assoc]

omit [DecidableEq κ] in
/-- Moving the chain by one drops the bytes of its last file, when its first one is empty then. -/
theorem contents_shift (n : ℕ) {s s' : Store κ β} (hfirst : (s' (key 0)).getD [] = [])
    (hrest : ∀ i < n, s' (key (i + 1)) = s (key i)) :
    (s (key n)).getD [] ++ contents key n s' = contents key n s := by
  have hmoved : (List.range n).reverse.flatMap (fun i => (s' (key (i + 1))).getD []) =
      (List.range n).reverse.flatMap fun i => (s (key i)).getD [] := by
    apply List.flatMap_congr
    intro i hi
    rw [hrest i (by simpa using hi)]
  have hnew : contents key n s' =
      (List.range n).reverse.flatMap (fun i => (s' (key (i + 1))).getD []) := by
    simp only [contents, List.range_succ_eq_map, List.reverse_cons, List.flatMap_append,
      ← List.map_reverse, List.flatMap_map, Nat.succ_eq_add_one, List.flatMap_singleton, hfirst,
      List.append_nil]
  rw [hnew, hmoved, contents, List.range_succ, List.reverse_append]
  rfl

end Chain

end FileStore
