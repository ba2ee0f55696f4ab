import Mathlib.Data.List.Basic
import Mathlib.Data.Nat.ModEq

/-!
# Circular stores

A sequence that only grows is kept in a fixed number of cells: the element at offset `o` of the
sequence lives in cell `o % c`, where `c` is the number of cells. A block is written by at most two
copies into the cells, and a window is read by at most two copies out of them.

* `Holds cells lo xs`: the cells hold the block `xs` at the offsets from `lo` on.
* `Holds.writeAt`: a block of at most `c` elements written behind the block `xs` leaves the last `c`
  elements of both in the cells.
* `Holds.readFrom`: a window of the block is read back.
-/

namespace CircularStore

variable {α : Type*}

/-- Copy `xs` over the cells from index `start` on. -/
def overwrite (cells : List α) (start : ℕ) (xs : List α) : List α :=
  cells.take start ++ xs ++ cells.drop (start + xs.length)

@[simp]
theorem length_overwrite {cells xs : List α} {start : ℕ}
    (h : start + xs.length ≤ cells.length) :
    (overwrite cells start xs).length = cells.length := by
  simp only [overwrite, List.length_append, List.length_take, List.length_drop]
  omega

/-- After a copy, a cell holds the element copied over it or what it held before. -/
theorem getElem?_overwrite {cells xs : List α} {start : ℕ}
    (h : start + xs.length ≤ cells.length) (i : ℕ) :
    (overwrite cells start xs)[i]? =
      if start ≤ i ∧ i < start + xs.length then xs[i - start]? else cells[i]? := by
  have hstart : min start cells.length = start := by omega
  rw [overwrite, List.getElem?_append, List.getElem?_append]
  simp only [List.length_append, List.length_take, hstart, List.getElem?_take, List.getElem?_drop]
  rcases lt_or_ge i start with hlt | hge
  · rw [if_pos (by omega), if_pos hlt, if_pos hlt, if_neg (by omega)]
  · rcases lt_or_ge i (start + xs.length) with hlt' | hge'
    · rw [if_pos hlt', if_neg (by omega), if_pos ⟨hge, hlt'⟩]
    · rw [if_neg (by omega), if_neg (by omega)]
      congr 1
      omega

/-- Copy a block that reaches the last cell: up to the last cell, then from the first cell on. -/
def overwriteWrapped (cells : List α) (start : ℕ) (ys : List α) : List α :=
  let first := cells.length - start
  overwrite (overwrite cells start (ys.take first)) 0 (ys.drop first)

/-- Write the block `ys` at the offset `off`. -/
def writeAt (cells : List α) (off : ℕ) (ys : List α) : List α :=
  let start := off % cells.length
  if start + ys.length ≤ cells.length then overwrite cells start ys
  else overwriteWrapped cells start ys

/-- The cells of `len` consecutive offsets from `off` on, in two copies when they pass the last
cell. -/
def readFrom (cells : List α) (off len : ℕ) : List α :=
  let start := off % cells.length
  if start + len ≤ cells.length then (cells.drop start).take len
  else cells.drop start ++ cells.take (len - (cells.length - start))

/-- `cells` hold the block `xs` at the offsets from `lo` on. -/
def Holds (cells : List α) (lo : ℕ) (xs : List α) : Prop :=
  ∀ i, i < xs.length → cells[(lo + i) % cells.length]? = xs[i]?

/-- `cells'` are `cells` after the block `ys` was written at the offset `off`: the cell of the
`i`-th offset from `off` on holds the `i`-th element of the block, and past the block what it held
before. -/
def Writes (cells : List α) (off : ℕ) (ys cells' : List α) : Prop :=
  cells'.length = cells.length ∧ ∀ i, i < cells.length →
    cells'[(off + i) % cells.length]? =
      if i < ys.length then ys[i]? else cells[(off + i) % cells.length]?

variable {cells xs ys : List α} {lo off : ℕ}

/-! ## Cells of consecutive offsets -/

/-- The cell of an offset that does not pass the last cell. -/
theorem add_mod_of_lt {c i : ℕ} (h : off % c + i < c) : (off + i) % c = off % c + i := by
  rw [Nat.add_mod, Nat.mod_eq_of_lt (a := i) (by omega), Nat.mod_eq_of_lt h]

/-- The cell of an offset that passes the last cell once. -/
theorem add_mod_of_le {c i : ℕ} (h : c ≤ off % c + i) (hi : i ≤ c) (hc : 0 < c) :
    (off + i) % c = off % c + i - c := by
  have hlt : off % c < c := Nat.mod_lt _ hc
  rcases Nat.lt_or_eq_of_le hi with hi' | rfl
  · rw [Nat.add_mod, Nat.mod_eq_of_lt (a := i) hi', Nat.mod_eq_sub_mod h]
    exact Nat.mod_eq_of_lt (by omega)
  · rw [Nat.add_mod_right]
    omega

/-! ## Writing -/

/-- The first of the two copies stays within the cells. -/
theorem length_overwrite_take {start : ℕ} (hstart : start ≤ cells.length) :
    (overwrite cells start (ys.take (cells.length - start))).length = cells.length := by
  apply length_overwrite
  rw [List.length_take]
  omega

theorem length_overwriteWrapped {start : ℕ} (hstart : start ≤ cells.length)
    (h : ys.length ≤ cells.length) : (overwriteWrapped cells start ys).length = cells.length := by
  simp only [overwriteWrapped]
  rw [length_overwrite, length_overwrite_take hstart]
  rw [length_overwrite_take hstart, List.length_drop]
  omega

/-- A cell after a copy in two parts. -/
theorem getElem?_overwriteWrapped {start : ℕ} (hstart : start ≤ cells.length)
    (h : ys.length ≤ cells.length) (i : ℕ) :
    (overwriteWrapped cells start ys)[i]? =
      if i < ys.length - (cells.length - start) then ys[cells.length - start + i]?
      else if start ≤ i ∧ i < start + min (cells.length - start) ys.length then ys[i - start]?
      else cells[i]? := by
  have hfirst : start + (ys.take (cells.length - start)).length ≤ cells.length := by
    rw [List.length_take]
    omega
  have hsecond : 0 + (ys.drop (cells.length - start)).length ≤
      (overwrite cells start (ys.take (cells.length - start))).length := by
    rw [length_overwrite_take hstart, List.length_drop]
    omega
  simp only [overwriteWrapped]
  rw [getElem?_overwrite hsecond, getElem?_overwrite hfirst, List.getElem?_drop,
    List.getElem?_take, List.length_drop, List.length_take, Nat.zero_add, Nat.sub_zero]
  simp only [Nat.zero_le, true_and]
  split
  next => rfl
  next =>
    split
    next hin => rw [if_pos (by omega)]
    next => rfl

/-- A copy in two parts writes its block when the block reaches the last cell. -/
theorem writes_overwriteWrapped (hpos : 0 < cells.length) (h : ys.length ≤ cells.length)
    (hwrap : cells.length ≤ off % cells.length + ys.length) :
    Writes cells off ys (overwriteWrapped cells (off % cells.length) ys) := by
  have hlt : off % cells.length < cells.length := Nat.mod_lt _ hpos
  refine ⟨length_overwriteWrapped hlt.le h, fun i hi => ?_⟩
  rw [getElem?_overwriteWrapped hlt.le h]
  -- Whether the offset passes the last cell decides which of the two copies has written its cell.
  rcases lt_or_ge (off % cells.length + i) cells.length with hbefore | hbehind
  · rw [add_mod_of_lt hbefore, if_neg (by omega), if_pos (by omega), if_pos (by omega),
      Nat.add_sub_cancel_left]
  · rw [add_mod_of_le hbehind hi.le hpos]
    rcases lt_or_ge i ys.length with hy | hy
    · rw [if_pos (by omega), if_pos hy]
      congr 1
      omega
    · rw [if_neg (by omega), if_neg (by omega), if_neg (by omega)]

/-- A write puts its block into the cells of its offsets. -/
theorem writes_writeAt (hpos : 0 < cells.length) (h : ys.length ≤ cells.length) :
    Writes cells off ys (writeAt cells off ys) := by
  have hlt : off % cells.length < cells.length := Nat.mod_lt _ hpos
  simp only [writeAt]
  split
  next hfit =>
    refine ⟨length_overwrite hfit, fun i hi => ?_⟩
    rw [getElem?_overwrite hfit]
    rcases lt_or_ge (off % cells.length + i) cells.length with hbefore | hbehind
    · rw [add_mod_of_lt hbefore]
      rcases lt_or_ge i ys.length with hy | hy
      · rw [if_pos ⟨by omega, by omega⟩, if_pos hy, Nat.add_sub_cancel_left]
      · rw [if_neg (by omega), if_neg (by omega)]
    · rw [add_mod_of_le hbehind hi.le hpos, if_neg (by omega), if_neg (by omega)]
  next hwrap => exact writes_overwriteWrapped hpos h (by omega)

/-- Without elements there is nothing to hold. -/
theorem Holds.nil : Holds cells lo ([] : List α) := nofun

/-- A block written behind a held block leaves in the cells the last elements of both, as many as
there are cells. -/
theorem Holds.append (hxs : Holds cells lo xs) {cells' : List α}
    (hwrite : Writes cells (lo + xs.length) ys cells')
    (hys : ys.length ≤ cells.length) {k : ℕ} (hk : xs.length + ys.length ≤ k + cells.length) :
    Holds cells' (lo + k) ((xs ++ ys).drop k) := by
  obtain ⟨hlength, hcells⟩ := hwrite
  intro i hi
  rw [List.length_drop, List.length_append] at hi
  rw [hlength, List.getElem?_drop, Nat.add_assoc]
  rcases lt_or_ge (k + i) xs.length with hx | hx
  · -- An old element that stays: its cell lies behind the written block.
    have hcell := hcells (k + i + cells.length - xs.length) (by omega)
    have hmod : (lo + xs.length + (k + i + cells.length - xs.length)) % cells.length =
        (lo + (k + i)) % cells.length := by
      rw [show lo + xs.length + (k + i + cells.length - xs.length) =
        lo + (k + i) + cells.length by omega, Nat.add_mod_right]
    rw [hmod, if_neg (by omega)] at hcell
    rw [hcell, hxs (k + i) hx, List.getElem?_append_left hx]
  · -- A new element.
    have hcell := hcells (k + i - xs.length) (by omega)
    have hoff : lo + xs.length + (k + i - xs.length) = lo + (k + i) := by omega
    rw [hoff, if_pos (by omega)] at hcell
    rw [hcell, List.getElem?_append_right hx]

/-- The last elements of a held block are held. -/
theorem Holds.drop (hxs : Holds cells lo xs) (k : ℕ) : Holds cells (lo + k) (xs.drop k) := by
  intro i hi
  rw [List.length_drop] at hi
  rw [List.getElem?_drop, Nat.add_assoc]
  exact hxs (k + i) (by omega)

/-! ## Reading -/

/-- The `i`-th element of a window is in the cell of its offset. -/
theorem getElem?_readFrom (hpos : 0 < cells.length) {len : ℕ} (hlen : len ≤ cells.length) (i : ℕ) :
    (readFrom cells off len)[i]? = if i < len then cells[(off + i) % cells.length]? else none := by
  have hlt : off % cells.length < cells.length := Nat.mod_lt _ hpos
  simp only [readFrom]
  split
  next hfit =>
    rw [List.getElem?_take, List.getElem?_drop]
    split
    next hi => rw [add_mod_of_lt (by omega)]
    next => rfl
  next hwrap =>
    rw [List.getElem?_append, List.length_drop, List.getElem?_drop, List.getElem?_take]
    split
    next hi => rw [if_pos (by omega), add_mod_of_lt (by omega)]
    next hi =>
      rcases lt_or_ge i len with hlt' | hge
      · rw [if_pos (by omega), if_pos hlt', add_mod_of_le (by omega) (by omega) hpos]
        congr 1
        omega
      · rw [if_neg (by omega), if_neg (by omega)]

/-- A window of a held block is read back. -/
theorem Holds.readFrom (hxs : Holds cells lo xs) (hpos : 0 < cells.length) {i len : ℕ}
    (hle : i + len ≤ xs.length) (hlen : len ≤ cells.length) :
    readFrom cells (lo + i) len = (xs.drop i).take len := by
  apply List.ext_getElem?
  intro j
  rw [getElem?_readFrom hpos hlen, List.getElem?_take, List.getElem?_drop]
  split
  next hj =>
    rw [Nat.add_assoc]
    exact hxs (i + j) (by omega)
  next => rfl

end CircularStore
