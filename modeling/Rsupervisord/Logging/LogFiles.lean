import Rsupervisord.Logging.Pump
import Rsupervisord.Logging.Rotation
import Rsupervisord.Support.HashMap
import Rsupervisord.Support.TransitionSystem

/-!
# The log files of the daemon

The pumps of all programs write to the log files of the daemon in any order, each pump to all files
of its composite back end, while the files are rotated.

## Main definitions

* `LogFiles.next`: the step of a pump, which reads a line or gives it to the next back end.
* `LogFiles.Apart`: no two rotators have a file in common.

## Main results

* `LogFiles.contents_of_reachable`: what is in the files of a rotator, and that no other file is
  touched.
-/

namespace Rsupervisord

open FileStore LogRotator

/-- What the task of a pump does next: a line is given to those back ends that are `left`. -/
inductive FileWriterPhase
  | reading
  | writing (chunk : List UInt8) (left : List ℕ)
  | ended
  deriving DecidableEq, Repr

/-- A pump with the back ends that are behind its composite back end. -/
structure LogWriter where
  input : List UInt8
  unread : List UInt8
  backends : List ℕ
  phase : FileWriterPhase
  /-- The lines that its back end was given, with their newlines. -/
  given : List (List UInt8)
  deriving DecidableEq, Repr

/-- A line that was written to the files of a back end. -/
structure FileWrite where
  backend : ℕ
  writer : ℕ
  chunk : List UInt8
  deriving DecidableEq, Repr

/-- The files of the daemon, the rotators and the pumps that write to them. -/
structure LogFiles where
  files : Files
  rotators : HashMap ℕ LogRotator
  writers : HashMap ℕ LogWriter
  /-- All writes, in their order. -/
  writes : List FileWrite
  /-- What the files of a rotator held when it was opened. -/
  held : ℕ → List UInt8

/-- What happens to the log files. -/
inductive FileLabel
  | openRotator (d : ℕ) (path : String) (maxBytes backups : ℕ)
  | spawn (i : ℕ) (input : List UInt8) (backends : List ℕ)
  | step (i : ℕ)
  /-- A read fails, or the task is aborted. -/
  | abort (i : ℕ)

namespace LogFiles

variable (s : LogFiles)

/-- A line with its newline, as a back end is given it. -/
def terminated (line : List UInt8) : List UInt8 := line ++ [10]

/-- The lines that were written to the files of a back end. -/
def writesTo (d : ℕ) : List (List UInt8) :=
  (s.writes.filter fun w => w.backend = d).map FileWrite.chunk

/-- The lines that one pump has written to the files of a back end. -/
def writesOf (d i : ℕ) : List (List UInt8) :=
  (s.writes.filter fun w => w.backend = d ∧ w.writer = i).map FileWrite.chunk

/-- The next step of a pump: `write_chunk` of the composite back end goes on after a back end that
fails. -/
def stepWriter (i : ℕ) (w : LogWriter) : FileWriterPhase → Option LogFiles
  | .reading =>
      let (buf, unread) := LogPump.readUntil maxPumpChunkSize w.unread
      if buf = [] then some { s with writers := s.writers.insert i { w with phase := .ended } }
      else
        let chunk := terminated (LogPump.strip buf)
        some { s with
          writers := s.writers.insert i
            { w with
              unread := unread
              phase := .writing chunk w.backends
              given := w.given ++ [chunk] } }
  | .writing _ [] => some { s with writers := s.writers.insert i { w with phase := .reading } }
  | .writing chunk (d :: left) =>
      (s.rotators.lookup d).bind fun r =>
        match r.writeAll s.files chunk with
        | some (.ok (r', files)) =>
            some { s with
              files := files
              rotators := s.rotators.insert d r'
              writes := s.writes ++ [⟨d, i, chunk⟩]
              writers := s.writers.insert i { w with phase := .writing chunk left } }
        | some (.error _) =>
            some { s with writers := s.writers.insert i { w with phase := .writing chunk left } }
        | none => none
  | .ended => none

/-- The next state of the log files. The file operations do not fail. -/
def next : LogFiles → FileLabel → Option LogFiles
  | s, .openRotator d path maxBytes backups =>
      if d ∈ s.rotators then none
      else
        let (r, files) := LogRotator.new path maxBytes backups s.files
        some { s with
          files := files
          rotators := s.rotators.insert d r
          held := fun d' => if d' = d then contents (numbered path) backups s.files else s.held d' }
  | s, .spawn i input backends =>
      if i ∈ s.writers ∨ ¬ backends.Nodup ∨ ∃ d ∈ backends, d ∉ s.rotators then none
      else some { s with writers := s.writers.insert i ⟨input, input, backends, .reading, []⟩ }
  | s, .step i => (s.writers.lookup i).bind fun w => s.stepWriter i w w.phase
  | s, .abort i =>
      (s.writers.lookup i).map fun w =>
        { s with writers := s.writers.insert i { w with phase := .ended } }

/-- The daemon before the first log file is opened. -/
def start (files : Files) : LogFiles := ⟨files, ∅, ∅, [], fun _ => []⟩

/-- The log files as a transition system. -/
def system (files : Files) : TransitionSystem LogFiles FileLabel := .ofNext (start files) next

/-- The chains of two rotators have no file in common. -/
def Disjoint (path path' : String) (backups backups' : ℕ) : Prop :=
  ∀ i ≤ backups, ∀ j ≤ backups', numbered path i ≠ numbered path' j

/-- A rotator is opened on files that no other rotator has. -/
def Apart (s : LogFiles) : FileLabel → Prop
  | .openRotator _ path _ backups =>
      ∀ d r, s.rotators.lookup d = some r → Disjoint path r.path backups r.backups
  | _ => True

variable {s} {t : LogFiles} {files : Files} {d i : ℕ} {r : LogRotator} {w : LogWriter}

theorem Disjoint.symm {path path' : String} {backups backups' : ℕ}
    (h : Disjoint path path' backups backups') : Disjoint path' path backups' backups :=
  fun i hi j hj heq => h j hj i hi heq.symm

/-! ## One rotator -/

/-- The handle of a rotator is that of its log file, whose size it knows when it needs to. -/
def Opened (r : LogRotator) (files : Files) : Prop :=
  ∃ log n, files r.path = some log ∧ r.inner = .active (some r.path) n ∧
    (0 < r.maxBytes → n = log.length)

theorem opened_new (path : String) (maxBytes backups : ℕ) (files : Files) :
    Opened (LogRotator.new path maxBytes backups files).1 (append files path []) := by
  refine ⟨(files path).getD [], _, ?_, rfl, fun hmax => ?_⟩
  · show append files path [] path = _
    rw [append, put_self, List.append_nil]
  · have hpos : maxBytes > 0 := hmax
    show (if maxBytes > 0 then _ else 0) = _
    rw [if_pos hpos, openAppend, append, put_self, List.append_nil]

/-- A write succeeds, and only the oldest bytes of the chain are lost. -/
theorem Opened.writeAll (h : Opened r files) (data : List UInt8) :
    ∃ inner files' lost, r.writeAll files data = some (.ok ({ r with inner }, files')) ∧
      Opened { r with inner } files' ∧
      lost ++ contents (numbered r.path) r.backups files' =
        contents (numbered r.path) r.backups files ++ data ∧
      ∀ p, (∀ i ≤ r.backups, p ≠ numbered r.path i) → files' p = files p := by
  obtain ⟨log, n, hlog, hinner, hsize⟩ := h
  by_cases hmax : 0 < r.maxBytes
  · obtain rfl := hsize hmax
    obtain ⟨inner, files', lost, hwrite, ⟨log', hlog', hinner'⟩, hrun⟩ :=
      Ready.writeAll ⟨log, hlog, hinner⟩ hmax data
    exact ⟨inner, files', lost, hwrite, ⟨log', _, hlog', hinner', fun _ => rfl⟩, hrun.contents_eq,
      fun p hp => hrun.eq_of_ne hp⟩
  · -- The log file grows without a bound.
    have hzero : r.maxBytes = 0 := Nat.eq_zero_of_not_pos hmax
    refine ⟨.active (some r.path) (n + data.length), append files r.path data, [], ?_, ?_, ?_, ?_⟩
    · rw [LogRotator.writeAll, hinner]
      show (if r.maxBytes = 0 then _ else _) = _
      rw [if_pos hzero]
    · refine ⟨log ++ data, _, ?_, rfl, fun hpos => absurd hpos hmax⟩
      show append files r.path data r.path = _
      rw [append, put_self, hlog, Option.getD_some]
    · exact contents_append (numbered_injective r.path) r.backups files data
    · exact fun p hp => append_of_ne _ _ (hp 0 (Nat.zero_le _))

/-! ## All rotators -/

/-- The files of a rotator hold what they held and what was written to them, but for the oldest
bytes. -/
structure RotatorFits (s : LogFiles) (d : ℕ) (r : LogRotator) : Prop where
  opened : Opened r s.files
  holds : ∃ lost, lost ++ contents (numbered r.path) r.backups s.files =
    s.held d ++ (s.writesTo d).flatten

/-- A step that leaves the files of a rotator alone. -/
theorem RotatorFits.frame (h : RotatorFits s d r)
    (hfiles : ∀ i ≤ r.backups, t.files (numbered r.path i) = s.files (numbered r.path i))
    (hheld : t.held d = s.held d) (hwrites : t.writesTo d = s.writesTo d) :
    RotatorFits t d r := by
  obtain ⟨⟨log, n, hlog, hinner⟩, lost, hholds⟩ := h
  refine ⟨⟨log, n, (hfiles 0 (Nat.zero_le _)).trans hlog, hinner⟩, lost, ?_⟩
  rw [hheld, hwrites, ← hholds, contents, contents]
  congr 1
  refine List.flatMap_congr fun i hi => ?_
  rw [List.mem_reverse, List.mem_range] at hi
  rw [hfiles i (by omega)]

/-- Each rotator has its own files, and the files of no rotator are as they were. -/
structure RotatorsFit (files : Files) (s : LogFiles) : Prop where
  fits : ∀ {d r}, s.rotators.lookup d = some r → RotatorFits s d r
  apart : ∀ {d d' r r'}, s.rotators.lookup d = some r → s.rotators.lookup d' = some r' → d ≠ d' →
    Disjoint r.path r'.path r.backups r'.backups
  known : ∀ w ∈ s.writes, w.backend ∈ s.rotators
  others : ∀ p, (∀ d r, s.rotators.lookup d = some r → ∀ i ≤ r.backups, p ≠ numbered r.path i) →
    s.files p = files p

theorem rotatorsFit_start (files : Files) : RotatorsFit files (start files) where
  fits := by simp [start]
  apart := by simp [start]
  known := by simp [start]
  others := by simp [start]

theorem RotatorsFit.frame (h : RotatorsFit files s) (hfiles : t.files = s.files)
    (hrotators : t.rotators = s.rotators) (hheld : t.held = s.held)
    (hwrites : t.writes = s.writes) : RotatorsFit files t := by
  refine ⟨fun {d r} hr => ?_, ?_, ?_, ?_⟩
  · rw [hrotators] at hr
    exact (h.fits hr).frame (fun _ _ => by rw [hfiles]) (by rw [hheld])
      (by rw [writesTo, writesTo, hwrites])
  · rw [hrotators]
    exact h.apart
  · rw [hrotators, hwrites]
    exact h.known
  · rw [hrotators, hfiles]
    exact h.others

theorem writesTo_concat (s : LogFiles) (d : ℕ) (w : FileWrite) :
    ((s.writes ++ [w]).filter fun w => w.backend = d).map FileWrite.chunk =
      s.writesTo d ++ if w.backend = d then [w.chunk] else [] := by
  rw [writesTo, List.filter_append, List.map_append]
  split_ifs with h <;> simp [h]

/-- A back end that is opened. -/
theorem RotatorsFit.openRotator (h : RotatorsFit files s) {path : String} {maxBytes backups : ℕ}
    (hnew : d ∉ s.rotators) (hapart : s.Apart (.openRotator d path maxBytes backups)) :
    RotatorsFit files { s with
      files := append s.files path []
      rotators := s.rotators.insert d (LogRotator.new path maxBytes backups s.files).1
      held := fun d' =>
        if d' = d then contents (numbered path) backups s.files else s.held d' } := by
  have hother : ∀ {d' r}, s.rotators.lookup d' = some r → d' ≠ d := by
    rintro d' r hr rfl
    exact hnew (HashMap.mem_iff_lookup.mpr ⟨r, hr⟩)
  refine ⟨fun {d' r} hr => ?_, fun {d₁ d₂ r₁ r₂} hr₁ hr₂ hne => ?_, fun w hw => ?_, fun p hp => ?_⟩
  · rw [HashMap.lookup_insert] at hr
    split_ifs at hr with hd
    -- Nothing was written to the new rotator yet, and it opens its file as it is.
    · obtain rfl := Option.some.inj hr
      refine ⟨opened_new path maxBytes backups s.files, [], ?_⟩
      have hnone : s.writesTo d' = [] := by
        rw [writesTo, List.filter_eq_nil_iff.mpr, List.map_nil]
        intro w hw hbackend
        rw [decide_eq_true_eq] at hbackend
        exact hnew (hd ▸ hbackend ▸ h.known w hw)
      have hcontents : contents (numbered path) backups (append s.files path []) =
          contents (numbered path) backups s.files ++ [] :=
        contents_append (numbered_injective path) backups s.files []
      show [] ++ contents (numbered path) backups (append s.files path []) =
        (if d' = d then _ else _) ++ (s.writesTo d').flatten
      rw [hcontents, hnone, if_pos hd]
      rfl
    -- The other rotators have other files.
    · refine (h.fits hr).frame (fun i hi => ?_) (if_neg hd) rfl
      exact append_of_ne _ _ fun heq => hapart d' r hr 0 (Nat.zero_le _) i hi heq.symm
  · rw [HashMap.lookup_insert] at hr₁ hr₂
    split_ifs at hr₁ hr₂ with hd₁ hd₂ hd₂
    · exact absurd (hd₁.trans hd₂.symm) hne
    · obtain rfl := Option.some.inj hr₁
      exact hapart d₂ r₂ hr₂
    · obtain rfl := Option.some.inj hr₂
      exact (hapart d₁ r₁ hr₁).symm
    · exact h.apart hr₁ hr₂ hne
  · exact (AList.mem_insert _).mpr (.inr (h.known w hw))
  · have hpath : p ≠ path := hp d _ (AList.lookup_insert _) 0 (Nat.zero_le _)
    show append s.files path [] p = files p
    rw [append_of_ne _ _ hpath]
    refine h.others p fun d' r hr => hp d' r ?_
    rw [HashMap.lookup_insert, if_neg (hother hr), hr]

/-- A line that is written to a back end. -/
theorem RotatorsFit.write (h : RotatorsFit files s) (hr : s.rotators.lookup d = some r)
    (chunk : List UInt8) :
    ∃ inner files', r.writeAll s.files chunk = some (.ok ({ r with inner }, files')) ∧
      ∀ writers, RotatorsFit files { s with
        files := files'
        rotators := s.rotators.insert d { r with inner }
        writes := s.writes ++ [⟨d, i, chunk⟩]
        writers := writers } := by
  obtain ⟨hopened, lost, hholds⟩ := h.fits hr
  obtain ⟨inner, files', lost', hwrite, hopened', hcontents, hothers⟩ := hopened.writeAll chunk
  refine ⟨inner, files', hwrite, fun writers => ⟨fun {d' r'} hr' => ?_,
    fun {d₁ d₂ r₁ r₂} hr₁ hr₂ hne => ?_, fun w hw => ?_, fun p hp => ?_⟩⟩
  · rw [HashMap.lookup_insert] at hr'
    split_ifs at hr' with hd
    · obtain rfl := Option.some.inj hr'
      -- What the write drops comes behind what was dropped before.
      refine ⟨hopened', lost ++ lost', ?_⟩
      show lost ++ lost' ++ contents (numbered r.path) r.backups files' =
        s.held d' ++
          (((s.writes ++ [(⟨d, i, chunk⟩ : FileWrite)]).filter _).map FileWrite.chunk).flatten
      rw [writesTo_concat, if_pos hd.symm, List.append_assoc, hcontents, ← List.append_assoc, hd,
        hholds]
      simp
    -- The write changes the files of its own chain only.
    · refine (h.fits hr').frame (fun i hi => hothers _ fun j hj => ?_) rfl ?_
      · exact h.apart hr' hr hd i hi j hj
      · show ((s.writes ++ [(⟨d, i, chunk⟩ : FileWrite)]).filter _).map FileWrite.chunk = _
        rw [writesTo_concat, if_neg (Ne.symm hd), List.append_nil]
  · rw [HashMap.lookup_insert] at hr₁ hr₂
    split_ifs at hr₁ hr₂ with hd₁ hd₂ hd₂
    · exact absurd (hd₁.trans hd₂.symm) hne
    · obtain rfl := Option.some.inj hr₁
      have hapart := h.apart hr hr₂ (Ne.symm hd₂)
      exact hapart
    · obtain rfl := Option.some.inj hr₂
      have hapart := h.apart hr₁ hr hd₁
      exact hapart
    · exact h.apart hr₁ hr₂ hne
  · rw [AList.mem_insert]
    obtain hw | hw := List.mem_append.mp hw
    · exact .inr (h.known w hw)
    · obtain rfl := List.mem_singleton.mp hw
      exact .inl rfl
  · show files' p = files p
    have hchain : ∀ i ≤ r.backups, p ≠ numbered r.path i :=
      hp d { r with inner } (AList.lookup_insert _)
    rw [hothers p hchain]
    refine h.others p fun d' r' hr' => ?_
    by_cases hd : d' = d
    · subst hd
      rw [hr] at hr'
      exact Option.some.inj hr' ▸ hchain
    · refine hp d' r' ?_
      rw [HashMap.lookup_insert, if_neg hd, hr']

/-! ## The pumps -/

/-- The lines that a pump has read but not written to a back end. -/
def AtHand (d : ℕ) : FileWriterPhase → List (List UInt8) → Prop
  | .reading, l => l = []
  | .writing chunk left, l => l = if d ∈ left then [chunk] else []
  | .ended, l => l.length ≤ 1

/-- Where the lines of a pump are. -/
structure WriterFits (s : LogFiles) (i : ℕ) (w : LogWriter) : Prop where
  input : (LogPump.chunks maxPumpChunkSize w.input).map terminated =
    w.given ++ (LogPump.chunks maxPumpChunkSize w.unread).map terminated
  writes : ∀ d ∈ w.backends, ∃ atHand, w.given = s.writesOf d i ++ atHand ∧ AtHand d w.phase atHand
  left : ∀ chunk left, w.phase = .writing chunk left → left <:+ w.backends
  nodup : w.backends.Nodup
  known : ∀ d ∈ w.backends, d ∈ s.rotators

/-- Each pump has written what its back end was given, and each write has its pump. -/
structure WritersFit (s : LogFiles) : Prop where
  fits : ∀ {i w}, s.writers.lookup i = some w → WriterFits s i w
  known : ∀ x ∈ s.writes, x.writer ∈ s.writers

theorem writersFit_start (files : Files) : WritersFit (start files) where
  fits := by simp [start]
  known := by simp [start]

theorem writesOf_concat (s : LogFiles) (d i : ℕ) (x : FileWrite) :
    ((s.writes ++ [x]).filter fun w => w.backend = d ∧ w.writer = i).map FileWrite.chunk =
      s.writesOf d i ++ if x.backend = d ∧ x.writer = i then [x.chunk] else [] := by
  rw [writesOf, List.filter_append, List.map_append]
  split_ifs with h <;> simp [h]

/-- What is left when a task ends holds the line at hand at most. -/
theorem AtHand.ended {phase : FileWriterPhase} {l : List (List UInt8)} (h : AtHand d phase l) :
    AtHand d .ended l := by
  cases phase with
  | reading =>
    obtain rfl := h
    exact Nat.zero_le _
  | writing chunk left =>
    obtain rfl := h
    show (if d ∈ left then _ else _ : List (List UInt8)).length ≤ 1
    split_ifs <;> simp
  | ended => exact h

/-- A step of another pump. -/
theorem WriterFits.frame (h : WriterFits s i w)
    (hwrites : ∀ d, t.writesOf d i = s.writesOf d i)
    (hrotators : ∀ d, d ∈ s.rotators → d ∈ t.rotators) : WriterFits t i w := by
  refine ⟨h.input, fun d hd => ?_, h.left, h.nodup, fun d hd => hrotators d (h.known d hd)⟩
  rw [hwrites]
  exact h.writes d hd

/-- A pump that goes on while no line is written. -/
theorem WritersFit.update (h : WritersFit s) {w' : LogWriter} (hfits : WriterFits s i w') :
    WritersFit { s with writers := s.writers.insert i w' } := by
  refine ⟨fun {j v} hv => ?_, fun x hx => (AList.mem_insert _).mpr (.inr (h.known x hx))⟩
  rw [HashMap.lookup_insert] at hv
  split_ifs at hv with hj
  · obtain rfl := Option.some.inj hv
    rw [hj]
    exact hfits.frame (fun _ => rfl) fun _ hd => hd
  · exact (h.fits hv).frame (fun _ => rfl) fun _ hd => hd

/-- A pump reads a line, or the end of its input. -/
theorem WritersFit.read (h : WritersFit s) (hw : s.writers.lookup i = some w)
    (hphase : w.phase = .reading) (hstep : s.stepWriter i w .reading = some t) :
    WritersFit t := by
  have hfits := h.fits hw
  have hwrites : ∀ d ∈ w.backends, w.given = s.writesOf d i := by
    intro d hd
    obtain ⟨atHand, hgiven, hhand⟩ := hfits.writes d hd
    rw [hphase] at hhand
    obtain rfl := hhand
    rw [hgiven, List.append_nil]
  simp only [stepWriter] at hstep
  split_ifs at hstep with hread
  · obtain rfl := Option.some.inj hstep
    refine h.update ⟨hfits.input, fun d hd => ?_, nofun, hfits.nodup, hfits.known⟩
    obtain ⟨atHand, hgiven, hhand⟩ := hfits.writes d hd
    exact ⟨atHand, hgiven, hhand.ended⟩
  · obtain rfl := Option.some.inj hstep
    refine h.update ⟨?_, fun d hd => ?_, ?_, hfits.nodup, hfits.known⟩
    · rw [hfits.input, LogPump.chunks_of_read rfl hread]
      simp
    · refine ⟨_, congrArg (· ++ _) (hwrites d hd), ?_⟩
      show [_] = if d ∈ w.backends then _ else _
      rw [if_pos hd]
    · rintro chunk left hwriting
      obtain ⟨-, rfl⟩ := FileWriterPhase.writing.inj hwriting
      exact List.suffix_rfl

/-- A pump has given its line to the back end `d`. -/
theorem WritersFit.write (h : WritersFit s) (hw : s.writers.lookup i = some w)
    {chunk : List UInt8} {left : List ℕ} (hphase : w.phase = .writing chunk (d :: left))
    (rotators : HashMap ℕ LogRotator) (hrotators : ∀ d, d ∈ s.rotators → d ∈ rotators)
    (files' : Files) :
    WritersFit { s with
      files := files'
      rotators := rotators
      writes := s.writes ++ [⟨d, i, chunk⟩]
      writers := s.writers.insert i { w with phase := .writing chunk left } } := by
  have hfits := h.fits hw
  have hsuffix := hfits.left _ _ hphase
  have hnodup : (d :: left).Nodup := hfits.nodup.sublist hsuffix.sublist
  refine ⟨fun {j v} hv => ?_, fun x hx => ?_⟩
  · rw [HashMap.lookup_insert] at hv
    split_ifs at hv with hj
    · obtain rfl := Option.some.inj hv
      subst hj
      refine ⟨hfits.input, fun d' hd' => ?_, ?_, hfits.nodup,
        fun d' hd' => hrotators d' (hfits.known d' hd')⟩
      -- The line is written to `d`, which waits for it no more; the others wait as before.
      · obtain ⟨atHand, hgiven, hhand⟩ := hfits.writes d' hd'
        rw [hphase] at hhand
        have hhand : atHand = if d' ∈ d :: left then [chunk] else [] := hhand
        refine ⟨if d' ∈ left then [chunk] else [], ?_, rfl⟩
        show w.given = ((s.writes ++ [(⟨d, j, chunk⟩ : FileWrite)]).filter _).map _ ++ _
        rw [writesOf_concat, hgiven, hhand]
        by_cases hd : d' = d
        · subst hd
          simp [(List.nodup_cons.mp hnodup).1]
        · simp [hd, Ne.symm hd]
      · rintro chunk' left' hwriting
        obtain ⟨-, rfl⟩ := FileWriterPhase.writing.inj hwriting
        exact (List.suffix_cons d left).trans hsuffix
    · refine (h.fits hv).frame (fun d' => ?_) hrotators
      show ((s.writes ++ [(⟨d, i, chunk⟩ : FileWrite)]).filter _).map _ = _
      rw [writesOf_concat, if_neg fun heq => hj heq.2.symm, List.append_nil]
  · rw [AList.mem_insert]
    obtain hx | hx := List.mem_append.mp hx
    · exact .inr (h.known x hx)
    · obtain rfl := List.mem_singleton.mp hx
      exact .inl rfl

/-! ## All steps -/

/-- All of this holds of the log files. -/
structure Invariant (files : Files) (s : LogFiles) : Prop where
  rotators : RotatorsFit files s
  writers : WritersFit s

theorem Invariant.stepWriter (h : Invariant files s) (hw : s.writers.lookup i = some w)
    (hstep : s.stepWriter i w w.phase = some t) : Invariant files t := by
  have hfits := h.writers.fits hw
  generalize hphase : w.phase = phase at hstep
  match phase with
  | .reading =>
    refine ⟨?_, h.writers.read hw hphase hstep⟩
    simp only [LogFiles.stepWriter] at hstep
    split_ifs at hstep
    · exact Option.some.inj hstep ▸ h.rotators.frame rfl rfl rfl rfl
    · exact Option.some.inj hstep ▸ h.rotators.frame rfl rfl rfl rfl
  | .writing chunk [] =>
    obtain rfl := Option.some.inj hstep
    refine ⟨h.rotators.frame rfl rfl rfl rfl, h.writers.update
      ⟨hfits.input, fun d hd => ?_, nofun, hfits.nodup, hfits.known⟩⟩
    obtain ⟨atHand, hgiven, hhand⟩ := hfits.writes d hd
    rw [hphase] at hhand
    exact ⟨atHand, hgiven, hhand⟩
  | .writing chunk (d :: left) =>
    obtain ⟨r, hr, hstep⟩ := Option.bind_eq_some_iff.mp hstep
    obtain ⟨inner, files', hwrite, hrotators⟩ := h.rotators.write (i := i) hr chunk
    rw [hwrite] at hstep
    obtain rfl := Option.some.inj hstep
    refine ⟨hrotators _, h.writers.write hw hphase _ (fun d' hd' => ?_) files'⟩
    exact (AList.mem_insert _).mpr (.inr hd')
  | .ended => cases hstep

theorem Invariant.next {l : FileLabel} (h : Invariant files s) (hapart : s.Apart l)
    (hstep : next s l = some t) : Invariant files t := by
  cases l with
  | openRotator d path maxBytes backups =>
    rw [LogFiles.next] at hstep
    split_ifs at hstep with hnew
    obtain rfl := Option.some.inj hstep
    refine ⟨h.rotators.openRotator hnew hapart, fun {i w} hw => ?_, h.writers.known⟩
    exact (h.writers.fits hw).frame (fun _ => rfl) fun d' hd' => (AList.mem_insert _).mpr (.inr hd')
  | spawn i input backends =>
    rw [LogFiles.next] at hstep
    split_ifs at hstep with hbad
    obtain rfl := Option.some.inj hstep
    push Not at hbad
    obtain ⟨hnew, hnodup, hknown⟩ := hbad
    refine ⟨h.rotators.frame rfl rfl rfl rfl, fun {j v} hv => ?_,
      fun x hx => (AList.mem_insert _).mpr (.inr (h.writers.known x hx))⟩
    rw [HashMap.lookup_insert] at hv
    split_ifs at hv with hj
    · obtain rfl := Option.some.inj hv
      refine ⟨rfl, fun d hd => ⟨[], ?_, rfl⟩, nofun, hnodup, hknown⟩
      -- The pump would be known if it had written something.
      have hnone : s.writesOf d j = [] := by
        rw [writesOf, List.filter_eq_nil_iff.mpr, List.map_nil]
        intro x hx hwriter
        rw [decide_eq_true_eq] at hwriter
        exact hnew (hj ▸ hwriter.2 ▸ h.writers.known x hx)
      exact (congrArg (· ++ []) hnone).symm
    · exact (h.writers.fits hv).frame (fun _ => rfl) fun _ hd => hd
  | step i =>
    obtain ⟨w, hw, hstep⟩ := Option.bind_eq_some_iff.mp hstep
    exact h.stepWriter hw hstep
  | abort i =>
    obtain ⟨w, hw, rfl⟩ := Option.map_eq_some_iff.mp hstep
    have hfits := h.writers.fits hw
    refine ⟨h.rotators.frame rfl rfl rfl rfl, h.writers.update
      ⟨hfits.input, fun d hd => ?_, nofun, hfits.nodup, hfits.known⟩⟩
    obtain ⟨atHand, hgiven, hhand⟩ := hfits.writes d hd
    exact ⟨atHand, hgiven, hhand.ended⟩

theorem invariant (h : (system files).ReachableWhile Apart s) : Invariant files s := by
  refine h.invariant (fun s hinit => ?_) fun s l t _ hs hapart hstep => hs.next hapart hstep
  obtain rfl := hinit
  exact ⟨rotatorsFit_start files, writersFit_start files⟩

/-- As long as no two rotators have a file in common, the files of each hold what they held before
and, behind it, the lines that were written to them, but for the oldest bytes. These are, pump by
pump, the lines of what the pump has read, each with a newline, in their order and without a gap; at
most its last line is still to be written. The files of no rotator are left alone. -/
theorem contents_of_reachable (h : (system files).ReachableWhile Apart s)
    (hr : s.rotators.lookup d = some r) :
    (∃ lost, lost ++ contents (numbered r.path) r.backups s.files =
      s.held d ++ (s.writesTo d).flatten) ∧
      (∀ i w, s.writers.lookup i = some w → d ∈ w.backends → ∃ atHand, atHand.length ≤ 1 ∧
        (LogPump.chunks maxPumpChunkSize w.input).map terminated = s.writesOf d i ++ atHand ++
          (LogPump.chunks maxPumpChunkSize w.unread).map terminated ∧
        (w.phase = .reading → atHand = [])) ∧
      ∀ p, (∀ d r, s.rotators.lookup d = some r → ∀ i ≤ r.backups, p ≠ numbered r.path i) →
        s.files p = files p := by
  have hinv := invariant h
  refine ⟨(hinv.rotators.fits hr).holds, fun i w hw hd => ?_, hinv.rotators.others⟩
  have hfits := hinv.writers.fits hw
  obtain ⟨atHand, hgiven, hhand⟩ := hfits.writes d hd
  refine ⟨atHand, hhand.ended, ?_, fun hphase => ?_⟩
  · rw [hfits.input, hgiven]
  · rwa [hphase] at hhand

/-- Two log files, one of them rotated at four bytes. -/
theorem reachable_twoFiles : ∃ s r, (system fun _ => none).ReachableWhile Apart s ∧
    s.rotators.lookup 0 = some r ∧ r.path = "a.log" ∧ r.backups = 1 ∧ s.held 0 = [] ∧
    s.writesTo 0 = [[104, 105, 10], [33, 10]] := by
  have hopen : (system fun _ => none).ReachableWhile Apart _ :=
    .step (l := .openRotator 0 "a.log" 4 1) (.init rfl) (by simp [Apart, start]) rfl
  have hapart : ∀ {s : LogFiles}, (∀ d r, s.rotators.lookup d = some r → r.path = "a.log") →
      Apart s (.openRotator 1 "b.log" 0 0) := by
    intro s hpaths d r hr i hi j _ heq
    obtain rfl := Nat.le_zero.mp hi
    rw [hpaths d r hr] at heq
    -- The paths differ in their first character.
    have hfirst := congrArg (fun path => path.toList.head?) heq
    cases j with
    | zero => exact absurd hfirst (by decide)
    | succ j =>
      rw [numbered, numbered, toList_backupPath] at hfirst
      cases hfirst
  have hboth : (system fun _ => none).ReachableWhile Apart _ :=
    .step (l := .openRotator 1 "b.log" 0 0) hopen (hapart fun d r hr => by
      rw [HashMap.lookup_insert] at hr
      by_cases hd : d = 0
      · rw [if_pos hd] at hr
        obtain rfl := Option.some.inj hr
        rfl
      · rw [if_neg hd] at hr
        cases hr) rfl
  have hstep : ∀ {s t : LogFiles}, (system fun _ => none).ReachableWhile Apart s →
      next s (.step 0) = some t → (system fun _ => none).ReachableWhile Apart t :=
    fun hs h => .step (l := .step 0) hs trivial h
  have hspawn : (system fun _ => none).ReachableWhile Apart _ :=
    .step (l := .spawn 0 [104, 105, 10, 33, 10] [0, 1]) hboth trivial rfl
  have hfirst := hstep (hstep (hstep (hstep hspawn rfl) rfl) rfl) rfl
  exact ⟨_, _, hstep (hstep hfirst rfl) rfl, rfl, rfl, rfl, rfl, rfl⟩

/-- The bytes of both lines are in the chain of the rotated file, but for the oldest ones. -/
theorem contents_of_twoFiles : ∃ s lost, (system fun _ => none).ReachableWhile Apart s ∧
    lost ++ contents (numbered "a.log") 1 s.files = [104, 105, 10, 33, 10] := by
  obtain ⟨s, r, hreach, hr, hpath, hbackups, hheld, hwrites⟩ := reachable_twoFiles
  obtain ⟨⟨lost, hlost⟩, -⟩ := contents_of_reachable hreach hr
  rw [hpath, hbackups, hheld, hwrites] at hlost
  exact ⟨s, lost, hreach, hlost⟩

end LogFiles

end Rsupervisord
