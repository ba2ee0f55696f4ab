import Rsupervisord.Logging.Rotator
import Rsupervisord.Support.Text
import Mathlib.Data.Set.Card
import Mathlib.Order.Interval.Finset.Nat

/-!
# Log rotation keeps the tail of the log

The files of a rotator form a chain: the log file, and the backups behind it. `Rotation` describes
what writes do to the files: bytes go behind those of the log file while it has room for them, and
when it is full the chain is moved by one, which drops its last file.

* `numbered`: the chain.
* `rotateOnDisk_numbered`: `rotate_on_disk` moves the chain.
* `Rotation`: writes and rotations.
* `writeLoop_spec`: the loop of `write_all` terminates and is such a sequence.
* `runWrites_spec`: all writes of a rotator.
-/

namespace Rsupervisord

open FileStore

namespace LogRotator

/-- The files of a rotator: the log file is the first one, the backups have its number behind. -/
def numbered (path : String) : ℕ → String
  | 0 => path
  | i + 1 => backupPath path (i + 1)

theorem toList_backupPath (path : String) (i : ℕ) :
    (backupPath path i).toList = path.toList ++ '.' :: (toString i).toList := by
  have h : backupPath path i = path ++ "." ++ toString i := rfl
  rw [h, String.toList_append, String.toList_append, List.append_assoc]
  rfl

/-- Numbers of the files are read off their paths. -/
theorem numbered_injective (path : String) : Function.Injective (numbered path) := by
  have hne : ∀ i, path ≠ backupPath path (i + 1) := by
    intro i h
    have hlen := congrArg (fun s => s.toList.length) h
    simp only [toList_backupPath, List.length_append, List.length_cons] at hlen
    omega
  intro i j h
  match i, j with
  | 0, 0 => rfl
  | 0, j + 1 => exact absurd h (hne j)
  | i + 1, 0 => exact absurd h.symm (hne i)
  | i + 1, j + 1 =>
    have htext := congrArg String.toList h
    simp only [numbered, toList_backupPath, List.append_cancel_left_eq, List.cons.injEq,
      true_and] at htext
    have hvalue := congrArg Text.digitsValue htext
    rw [Text.digitsValue_toString, Text.digitsValue_toString] at hvalue
    exact Option.some.inj hvalue

section RotateOnDisk

variable {path : String} {backups : ℕ} {files : Files}

/-- The files after the oldest backup was removed and the others were renamed. -/
def shifted (path : String) (b : ℕ) (files : Files) : Files :=
  (List.range' 1 b).reverse.foldl
    (fun files i => renameOver files (backupPath path i) (backupPath path (i + 1)))
    (if (files (backupPath path (b + 1))).isSome then remove files (backupPath path (b + 1))
      else files)

theorem shifted_eq (path : String) (b : ℕ) (files : Files) :
    shifted path b files = (List.range' 1 b).reverse.foldl
      (fun files i => renameOver files (numbered path i) (numbered path (i + 1)))
      (if (files (numbered path (b + 1))).isSome then remove files (numbered path (b + 1))
        else files) := by
  refine List.foldl_ext _ _ _ fun s i hi => ?_
  obtain ⟨j, rfl⟩ : ∃ j, i = j + 1 := by
    rw [List.mem_reverse, List.mem_range'_1] at hi
    exact ⟨i - 1, by omega⟩
  rfl

theorem shifted_numbered (path : String) (b : ℕ) (files : Files) (i : ℕ) :
    shifted path b files (numbered path i) =
      if i = 0 ∨ b + 1 < i then files (numbered path i)
      else if i = 1 then none else files (numbered path (i - 1)) := by
  have hinj := numbered_injective path
  have hoff : ∀ j, j ≠ b + 1 → numbered path j ≠ numbered path (b + 1) := fun j hj => hinj.ne hj
  rw [shifted_eq, foldl_renameOver_key hinj b _ (by rw [ite_remove_apply, if_pos rfl])]
  simp only [ite_remove_apply]
  split
  next hout => rw [if_neg (hoff i (by omega))]
  next hin =>
    split
    next => rfl
    next => rw [if_neg (hoff (i - 1) (by omega))]

theorem rotateOnDisk_succ (hpath : (files path).isSome) (b : ℕ) :
    rotateOnDisk path (b + 1) files = rename (shifted path b files) path (backupPath path 1) := by
  have hfirst : shifted path b files (backupPath path 1) = none := by
    have h := shifted_numbered path b files 1
    rwa [if_neg (by omega), if_pos rfl] at h
  have hsome : (files path).isNone = false := by
    rw [← Option.not_isSome, hpath]
    rfl
  rw [rotateOnDisk, hsome, if_neg Bool.false_ne_true, if_neg (Nat.succ_ne_zero b)]
  show rename (if (shifted path b files (backupPath path 1)).isSome then _ else
    shifted path b files) path (backupPath path 1) = _
  rw [hfirst]
  rfl

theorem rotateOnDisk_zero (hpath : (files path).isSome) :
    rotateOnDisk path 0 files = remove files path := by
  have hsome : (files path).isNone = false := by
    rw [← Option.not_isSome, hpath]
    rfl
  rw [rotateOnDisk, hsome, if_neg Bool.false_ne_true, if_pos rfl]

/-- `rotate_on_disk` moves the chain by one, up to the last backup. -/
theorem rotateOnDisk_numbered (hpath : (files path).isSome) (i : ℕ) :
    rotateOnDisk path backups files (numbered path i) =
      if i = 0 then none
      else if i ≤ backups then files (numbered path (i - 1)) else files (numbered path i) := by
  have hinj := numbered_injective path
  cases backups with
  | zero =>
    rw [rotateOnDisk_zero hpath]
    show (if numbered path i = numbered path 0 then none else files (numbered path i)) = _
    simp only [hinj.eq_iff]
    split
    next => rfl
    next hi => rw [if_neg (by omega)]
  | succ b =>
    have hne : numbered path 0 ≠ numbered path 1 := hinj.ne (by decide)
    rw [rotateOnDisk_succ hpath]
    show rename (shifted path b files) (numbered path 0) (numbered path 1) (numbered path i) = _
    rw [rename_apply _ hne]
    simp only [hinj.eq_iff, shifted_numbered]
    rcases (by omega : i = 0 ∨ i = 1 ∨ 1 < i ∧ i ≤ b + 1 ∨ b + 1 < i) with rfl | rfl | hi | hi
    · rfl
    · rw [if_pos rfl, if_pos (.inl trivial), if_neg (by decide), if_pos (by omega)]
    · rw [if_neg (by omega), if_neg (by omega), if_neg (by omega), if_neg (by omega),
        if_neg (by omega), if_pos hi.2]
    · rw [if_neg (by omega), if_neg (by omega), if_pos (.inr hi), if_neg (by omega),
        if_neg (by omega)]

/-- Other files are left alone. -/
theorem rotateOnDisk_of_ne (hpath : (files path).isSome) {p : String}
    (hp : ∀ i ≤ backups, p ≠ numbered path i) : rotateOnDisk path backups files p = files p := by
  by_cases hnumbered : ∃ i, p = numbered path i
  · obtain ⟨i, rfl⟩ := hnumbered
    have hi : backups < i := Nat.lt_of_not_le fun hle => hp i hle rfl
    rw [rotateOnDisk_numbered hpath, if_neg (by omega), if_neg (by omega)]
  · have hne : ∀ i, p ≠ numbered path i := fun i hi => hnumbered ⟨i, hi⟩
    cases backups with
    | zero =>
      rw [rotateOnDisk_zero hpath]
      exact remove_of_ne files (hne 0)
    | succ b =>
      have hfirst : numbered path 0 ≠ numbered path 1 := (numbered_injective path).ne (by decide)
      rw [rotateOnDisk_succ hpath]
      show rename (shifted path b files) (numbered path 0) (numbered path 1) p = _
      rw [rename_apply _ hfirst, if_neg (hne 1), if_neg (hne 0), shifted_eq,
        foldl_renameOver_of_ne hne, ite_remove_apply, if_neg (hne (b + 1))]

end RotateOnDisk

/-! ## Writes and rotations -/

/-- What happens to the files of a rotator: bytes are written behind those of the log file, which
has room for them, or the full log file is rotated. `written` are the bytes written so far, and
`lost` those of the files that were dropped. -/
inductive Rotation (path : String) (maxBytes backups : ℕ) (files : Files) :
    List UInt8 → List UInt8 → Files → Prop
  | refl : Rotation path maxBytes backups files [] [] files
  | write {written lost : List UInt8} {files' : Files} {log : List UInt8} (bytes : List UInt8)
      (hrun : Rotation path maxBytes backups files written lost files')
      (hlog : files' path = some log) (hroom : log.length + bytes.length ≤ maxBytes) :
      Rotation path maxBytes backups files (written ++ bytes) lost (append files' path bytes)
  | rotate {written lost : List UInt8} {files' : Files} {log : List UInt8}
      (hrun : Rotation path maxBytes backups files written lost files')
      (hlog : files' path = some log) (hfull : maxBytes ≤ log.length) :
      Rotation path maxBytes backups files written
        (lost ++ (files' (numbered path backups)).getD [])
        (put (rotateOnDisk path backups files') path [])

namespace Rotation

variable {path : String} {maxBytes backups : ℕ} {files files' : Files} {written lost : List UInt8}

theorem trans {files'' : Files} {written' lost' : List UInt8}
    (h : Rotation path maxBytes backups files written lost files')
    (h' : Rotation path maxBytes backups files' written' lost' files'') :
    Rotation path maxBytes backups files (written ++ written') (lost ++ lost') files'' := by
  induction h' with
  | refl => simpa using h
  | write bytes _ hlog hroom ih =>
    rw [← List.append_assoc]
    exact ih.write bytes hlog hroom
  | rotate _ hlog hfull ih =>
    rw [← List.append_assoc]
    exact ih.rotate hlog hfull

/-- The chain after a rotation. -/
theorem put_rotateOnDisk_numbered {log : List UInt8} (hlog : files path = some log) (i : ℕ) :
    put (rotateOnDisk path backups files) path [] (numbered path i) =
      if i = 0 then some []
      else if i ≤ backups then files (numbered path (i - 1)) else files (numbered path i) := by
  have hsome : (files path).isSome := by
    rw [hlog]
    rfl
  rcases eq_or_ne i 0 with rfl | hi
  · exact if_pos rfl
  · have hne : numbered path i ≠ path := (numbered_injective path).ne hi
    rw [put_of_ne _ _ hne, rotateOnDisk_numbered hsome, if_neg hi, if_neg hi]

/-- Nothing is lost but the dropped files, and nothing is duplicated: the bytes in the chain are the
rest of what was there and what was written. -/
theorem contents_eq (h : Rotation path maxBytes backups files written lost files') :
    lost ++ contents (numbered path) backups files' =
      contents (numbered path) backups files ++ written := by
  induction h with
  | refl => simp
  | @write _ _ files' _ bytes _ _ _ ih =>
    have happend : contents (numbered path) backups (append files' path bytes) =
        contents (numbered path) backups files' ++ bytes :=
      contents_append (numbered_injective path) backups files' bytes
    rw [happend, ← List.append_assoc, ih, List.append_assoc]
  | @rotate _ _ files' _ _ hlog _ ih =>
    have hfirst : (put (rotateOnDisk path backups files') path [] (numbered path 0)).getD [] =
        [] := by
      rw [put_rotateOnDisk_numbered hlog]
      rfl
    have hrest : ∀ i < backups, put (rotateOnDisk path backups files') path []
        (numbered path (i + 1)) = files' (numbered path i) := by
      intro i hi
      rw [put_rotateOnDisk_numbered hlog, if_neg (Nat.succ_ne_zero i),
        if_pos (Nat.succ_le_of_lt hi)]
      rfl
    have hshift := contents_shift backups hfirst hrest
    rw [List.append_assoc, hshift, ih]

/-- Other files are left alone, also those with higher numbers. -/
theorem eq_of_ne (h : Rotation path maxBytes backups files written lost files') {p : String}
    (hp : ∀ i ≤ backups, p ≠ numbered path i) : files' p = files p := by
  have hpath : p ≠ path := hp 0 (Nat.zero_le _)
  induction h with
  | refl => rfl
  | write bytes _ _ _ ih => rw [append_of_ne _ _ hpath, ih]
  | @rotate _ _ files' _ _ hlog _ ih =>
    have hsome : (files' path).isSome := by
      rw [hlog]
      rfl
    rw [put_of_ne _ _ hpath, rotateOnDisk_of_ne hsome hp, ih]

/-- The files of the chain are not longer than allowed, but for backups that were there before. -/
theorem length_le (h : Rotation path maxBytes backups files written lost files')
    (hpath : ∀ log, files path = some log → log.length ≤ maxBytes) {i : ℕ} (hi : i ≤ backups)
    {bytes : List UInt8} (hfile : files' (numbered path i) = some bytes) :
    bytes.length ≤ maxBytes ∨ ∃ j, 1 ≤ j ∧ j ≤ i ∧ files (numbered path j) = some bytes := by
  induction h generalizing i bytes with
  | refl =>
    rcases eq_or_ne i 0 with rfl | hne
    · exact .inl (hpath bytes hfile)
    · exact .inr ⟨i, by omega, le_rfl, hfile⟩
  | @write _ _ files' log data _ hlog hroom ih =>
    rcases eq_or_ne i 0 with rfl | hne
    · left
      have hnew : append files' path data path = some bytes := hfile
      rw [append, put_self, hlog, Option.some.injEq] at hnew
      rw [← hnew]
      simpa using hroom
    · have hoff : numbered path i ≠ path := (numbered_injective path).ne hne
      rw [append_of_ne _ _ hoff] at hfile
      exact ih hi hfile
  | @rotate _ _ files' _ _ hlog _ ih =>
    rw [put_rotateOnDisk_numbered hlog] at hfile
    rcases eq_or_ne i 0 with rfl | hne
    · left
      rw [if_pos rfl, Option.some.injEq] at hfile
      rw [← hfile]
      exact Nat.zero_le _
    · rw [if_neg hne, if_pos hi] at hfile
      rcases ih (by omega) hfile with hle | ⟨j, hj, hji, hold⟩
      · exact .inl hle
      · exact .inr ⟨j, hj, by omega, hold⟩

end Rotation

/-! ## The loop -/

/-- The loop of `write_all` terminates: it needs two passes for each byte at most, and one more
while the log file is full. What it does to the files are writes and rotations. -/
theorem writeLoop_spec {path : String} {maxBytes : ℕ} (hmax : 0 < maxBytes) (backups : ℕ)
    {fuel : ℕ} {files : Files} {data log : List UInt8} (hlog : files path = some log)
    (hfuel : 2 * data.length + (if maxBytes ≤ log.length then 1 else 0) < fuel) :
    ∃ log' files' lost,
      writeLoop path maxBytes backups fuel (some path) log.length files data =
        some (.ok (some path, log'.length, files')) ∧
      files' path = some log' ∧ Rotation path maxBytes backups files data lost files' := by
  induction fuel generalizing files data log with
  | zero => omega
  | succ fuel ih =>
    rcases eq_or_ne data [] with rfl | hdata
    · exact ⟨log, files, [], rfl, hlog, .refl⟩
    have hne : data.isEmpty = false := by simpa using hdata
    have hlen : 0 < data.length := List.length_pos_iff.mpr hdata
    simp only [writeLoop, hne]
    rw [if_neg Bool.false_ne_true]
    by_cases hover : log.length + data.length > maxBytes
    · rw [if_pos hover]
      -- The log file is filled up, then the chain is rotated.
      obtain ⟨piece, rest, files₁, log₁, hfilled, hsplit, hrun, hlog₁, hfull, hless⟩ :
          ∃ piece rest files₁ log₁,
            (if maxBytes - log.length > 0 then
              Except.ok (append files path (data.take (maxBytes - log.length)),
                data.drop (maxBytes - log.length))
            else (.ok (files, data) : Except String (Files × List UInt8))) = .ok (files₁, rest) ∧
            data = piece ++ rest ∧ Rotation path maxBytes backups files piece [] files₁ ∧
            files₁ path = some log₁ ∧ maxBytes ≤ log₁.length ∧ 2 * rest.length < fuel := by
        by_cases hroom : maxBytes - log.length > 0
        · have htake : (data.take (maxBytes - log.length)).length = maxBytes - log.length := by
            rw [List.length_take]
            omega
          refine ⟨data.take (maxBytes - log.length), data.drop (maxBytes - log.length), _,
            log ++ data.take (maxBytes - log.length), if_pos hroom,
            (List.take_append_drop _ data).symm, Rotation.refl.write _ hlog (by omega), ?_, ?_, ?_⟩
          · rw [append, put_self, hlog]
            rfl
          · rw [List.length_append]
            omega
          · rw [List.length_drop]
            omega
        · rw [if_pos (by omega)] at hfuel
          exact ⟨[], data, files, log, if_neg hroom, rfl, .refl, hlog, by omega, by omega⟩
      rw [hfilled]
      obtain ⟨log', files', lost, hresult, hlog', hrest⟩ :=
        @ih (put (rotateOnDisk path backups files₁) path []) rest []
          (put_self _ _ _) (by
            rw [List.length_nil, if_neg (by omega)]
            omega)
      rw [hsplit]
      exact ⟨log', files', _, hresult, hlog', (hrun.rotate hlog₁ hfull).trans hrest⟩
    · rw [if_neg hover]
      refine ⟨log ++ data, append files path data, [], ?_, ?_, ?_⟩
      · rw [List.length_append]
      · rw [append, put_self, hlog]
        rfl
      · exact Rotation.refl.write data hlog (by omega)

/-! ## All writes -/

/-- Writes one after another. -/
def runWrites (r : LogRotator) (files : Files) :
    List (List UInt8) → Option (Except String (LogRotator × Files))
  | [] => some (.ok (r, files))
  | data :: writes =>
      match r.writeAll files data with
      | none => none
      | some (.error e) => some (.error e)
      | some (.ok (r, files)) => r.runWrites files writes

/-- A rotator whose handle is that of its log file and whose size is right. -/
def Ready (r : LogRotator) (files : Files) : Prop :=
  ∃ log, files r.path = some log ∧ r.inner = .active (some r.path) log.length

/-- The step lemma: a write succeeds. -/
theorem Ready.writeAll {r : LogRotator} {files : Files} (h : r.Ready files)
    (hmax : 0 < r.maxBytes) (data : List UInt8) :
    ∃ inner files' lost, r.writeAll files data = some (.ok ({ r with inner }, files')) ∧
      Ready { r with inner } files' ∧
      Rotation r.path r.maxBytes r.backups files data lost files' := by
  obtain ⟨log, hlog, hinner⟩ := h
  have hfuel : 2 * data.length + (if r.maxBytes ≤ log.length then 1 else 0) < passes data := by
    simp only [passes]
    split <;> omega
  obtain ⟨log', files', lost, hresult, hlog', hrun⟩ := writeLoop_spec hmax r.backups hlog hfuel
  refine ⟨.active (some r.path) log'.length, files', lost, ?_, ⟨log', hlog', rfl⟩, hrun⟩
  rw [LogRotator.writeAll, hinner]
  show (if r.maxBytes = 0 then _ else _) = _
  rw [if_neg hmax.ne', hresult]
  rfl

/-- The run lemma. -/
theorem Ready.runWrites {r : LogRotator} {files : Files} (h : r.Ready files)
    (hmax : 0 < r.maxBytes) (writes : List (List UInt8)) :
    ∃ inner files' lost, r.runWrites files writes = some (.ok ({ r with inner }, files')) ∧
      Ready { r with inner } files' ∧
      Rotation r.path r.maxBytes r.backups files writes.flatten lost files' := by
  induction writes generalizing r files with
  | nil => exact ⟨r.inner, files, [], rfl, h, .refl⟩
  | cons data writes ih =>
    obtain ⟨inner₁, files₁, lost₁, hfirst, hready, hrun₁⟩ := h.writeAll hmax data
    obtain ⟨inner, files', lost, hrest, hready', hrun⟩ := ih hready hmax
    refine ⟨inner, files', lost₁ ++ lost, ?_, hready', hrun₁.trans hrun⟩
    rw [LogRotator.runWrites, hfirst]
    exact hrest

/-- The rotator that `new` opens is ready, and it only has created its log file. -/
theorem new_ready (path : String) {maxBytes : ℕ} (hmax : 0 < maxBytes) (backups : ℕ)
    (files : Files) :
    (new path maxBytes backups files).2 = append files path [] ∧
      (new path maxBytes backups files).1.Ready (append files path []) := by
  refine ⟨rfl, (files path).getD [], ?_, ?_⟩
  · show append files path [] path = _
    rw [append, put_self, List.append_nil]
  · show RotatorInner.active (some path) (if maxBytes > 0 then _ else 0) = _
    rw [if_pos hmax, openAppend, append, put_self, List.append_nil]
    rfl

/-- A rotator with numbered backups keeps the tail of the log: whatever files there are and whatever
is written, the writes succeed, what they do to the files are writes and rotations, and the bytes in
the backups and the log file are those that were there and those that were written, without the
files that rotations dropped. No file outside the chain is created or changed, so that there are not
more backups than configured, and none is longer than allowed when the log file was not. -/
theorem runWrites_spec (path : String) {maxBytes : ℕ} (hmax : 0 < maxBytes) (backups : ℕ)
    (files : Files) (writes : List (List UInt8)) :
    let opened := new path maxBytes backups files
    ∃ r files' lost, opened.1.runWrites opened.2 writes = some (.ok (r, files')) ∧
      Rotation path maxBytes backups opened.2 writes.flatten lost files' ∧
      lost ++ contents (numbered path) backups files' =
        contents (numbered path) backups files ++ writes.flatten ∧
      (∀ p, (∀ i ≤ backups, p ≠ numbered path i) → files' p = files p) ∧
      {i | 1 ≤ i ∧ (files' (backupPath path i)).isSome ∧
        ¬ (backups < i ∧ (files (backupPath path i)).isSome)}.ncard ≤ backups ∧
      ((∀ log, files path = some log → log.length ≤ maxBytes) → ∀ i ≤ backups, ∀ bytes,
        files' (numbered path i) = some bytes →
          bytes.length ≤ maxBytes ∨ ∃ j, 1 ≤ j ∧ j ≤ i ∧ files (numbered path j) = some bytes) := by
  intro opened
  obtain ⟨hopened, hready⟩ := new_ready path hmax backups files
  have hfiles : opened.2 = append files path [] := hopened
  rw [← hopened] at hready
  obtain ⟨inner, files', lost, hresult, -, hrun⟩ := hready.runWrites hmax writes
  have hrun' : Rotation path maxBytes backups opened.2 writes.flatten lost files' := hrun
  have hother : ∀ p, (∀ i ≤ backups, p ≠ numbered path i) → files' p = files p := by
    intro p hp
    have hpath : p ≠ path := hp 0 (Nat.zero_le _)
    rw [hrun'.eq_of_ne hp, hfiles, append_of_ne _ _ hpath]
  refine ⟨_, files', lost, hresult, hrun', ?_, hother, ?_, ?_⟩
  · have hcreated : contents (numbered path) backups opened.2 =
        contents (numbered path) backups files ++ [] := by
      rw [hfiles]
      exact contents_append (numbered_injective path) backups files []
    rw [hrun'.contents_eq, hcreated, List.append_nil]
  · have hsub : {i | 1 ≤ i ∧ (files' (backupPath path i)).isSome ∧
        ¬ (backups < i ∧ (files (backupPath path i)).isSome)} ⊆ (Finset.Icc 1 backups : Set ℕ) := by
      rintro i ⟨hone, hsome, hnew⟩
      rw [Finset.coe_Icc, Set.mem_Icc]
      refine ⟨hone, Nat.le_of_not_lt fun hlt => hnew ⟨hlt, ?_⟩⟩
      have hi : backupPath path i = numbered path i := by
        obtain ⟨j, rfl⟩ : ∃ j, i = j + 1 := ⟨i - 1, by omega⟩
        rfl
      rw [← hother (backupPath path i), hsome]
      intro j hj heq
      rw [hi] at heq
      have := numbered_injective path heq
      omega
    calc _ ≤ (Finset.Icc 1 backups : Set ℕ).ncard := Set.ncard_le_ncard hsub (Finset.finite_toSet _)
      _ = backups := by rw [Set.ncard_coe_finset, Nat.card_Icc, Nat.add_sub_cancel]
  · intro hshort i hi bytes hbytes
    have hopenedShort : ∀ log, opened.2 path = some log → log.length ≤ maxBytes := by
      intro log hlog
      rw [hfiles, append, put_self, List.append_nil, Option.some.injEq] at hlog
      subst hlog
      cases hold : files path with
      | none => exact Nat.zero_le _
      | some old => exact hshort old hold
    refine (hrun'.length_le hopenedShort hi hbytes).imp_right ?_
    rintro ⟨j, hone, hj, hold⟩
    refine ⟨j, hone, hj, ?_⟩
    have hne : numbered path j ≠ path := (numbered_injective path).ne (show j ≠ 0 by omega)
    rwa [hfiles, append_of_ne _ _ hne] at hold

/-- `runWrites_spec` for five bytes in files of two bytes and one backup. -/
theorem runWrites_of_five_bytes :
    ∃ r files' lost,
      (new "log" 2 1 fun _ => none).1.runWrites (new "log" 2 1 fun _ => none).2 [[1, 2, 3],
        [4, 5]] =
        some (.ok (r, files')) ∧
      lost ++ contents (numbered "log") 1 files' = [1, 2, 3, 4, 5] := by
  obtain ⟨r, files', lost, hresult, -, hcontents, -⟩ :=
    runWrites_spec "log" (show 0 < 2 by decide) 1 (fun _ => none) [[1, 2, 3], [4, 5]]
  exact ⟨r, files', lost, hresult, hcontents⟩

example :
    ((new "log" 2 1 fun _ => none).1.runWrites (new "log" 2 1 fun _ => none).2
      [[1, 2, 3], [4, 5]]).map (·.map fun result => contents (numbered "log") 1 result.2) =
        some (.ok [3, 4, 5]) := by decide

end LogRotator

end Rsupervisord
