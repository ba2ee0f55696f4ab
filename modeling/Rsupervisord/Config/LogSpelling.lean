import Rsupervisord.Config.Instances
import Rsupervisord.Support.PathSpelling

/-!
# Spellings of log files

The check of `resolve_programs` knows a log file by the components of its path. It keeps rotated
files apart where each of them is spelled in one way: the paths that the configuration gives to its
streams have no `..` and no dot at the start, and no relative one is, seen from the working
directory, an absolute one.

## Main definitions

* `SupervisorConfig.Configures`: the streams of a configuration and their destinations, read off
  the sections that they come from.
* `SupervisorConfig.TidyLogs`, `SupervisorConfig.LogsSpelledOneWay`: conditions on the paths of
  competing streams, as the configuration spells them.

## Main results

* `SupervisorConfig.log_eq_some_iff`: the streams of a resolved configuration are those that its
  sections configure.
* `SupervisorConfig.logsUnshared_of_spelledOneWay`: no two streams compete for a file when every
  file is spelled in one way, and among tidy paths only then.
-/

namespace Rsupervisord

namespace SupervisorConfig

variable {c : SupervisorConfig} {env : ResolveEnv} {vars : HashMap String String}
  {raw : ProgramConfigRaw} {resolved : ProgramConfigs} {name cwd : String}

/-! ## The streams of a section -/

/-- A log setting of a program section: its own, else that of the defaults. -/
def logField {α : Type} (c : SupervisorConfig) (raw : ProgramConfigRaw)
    (field : ProgramLogsConfigRaw → Option α) : Option α :=
  (raw.logs.bind field) <|> (c.programDefaults.logs.bind field)

/-- The log mode of a program section. -/
def logMode (c : SupervisorConfig) (raw : ProgramConfigRaw) : LogMode :=
  (c.logField raw (·.enabled)).getD .on

/-- Whether the output of a program section goes to rotated files. -/
def rotatesStdout (c : SupervisorConfig) (raw : ProgramConfigRaw) : Bool :=
  decide (((c.logField raw (·.stdoutMaxBytes)) <|> c.logField raw (·.maxBytes)).getD
    defaultLogMaxBytes > 0)

/-- Whether the error output of a program section goes to rotated files. -/
def rotatesStderr (c : SupervisorConfig) (raw : ProgramConfigRaw) : Bool :=
  decide (((c.logField raw (·.stderrMaxBytes)) <|> c.logField raw (·.maxBytes)).getD
    defaultLogMaxBytes > 0)

/-- The variables of the expressions of a process of a program section. -/
def programVars (c : SupervisorConfig) (env : ResolveEnv) (baseName : String)
    (raw : ProgramConfigRaw) (processNum : ℕ) : HashMap String String :=
  let vars := c.programContext env baseName (c.groupOf env baseName raw) processNum
    (c.numprocsOf raw)
  let vars := seedEnvironment vars (c.environment.iter env.orders.environment)
  seedEnvironment vars (raw.environment.iter (env.orders.programEnvironment baseName))

/-- The variables of the expressions of a process of an event listener section. -/
def listenerVars (c : SupervisorConfig) (env : ResolveEnv) (listenerName : String)
    (raw : EventListenerConfigRaw) (processNum : ℕ) : HashMap String String :=
  let vars := c.programContext env listenerName listenerName processNum (raw.numprocs.getD 1)
  let vars := seedEnvironment vars (c.environment.iter env.orders.environment)
  seedEnvironment vars (raw.environment.iter (env.orders.listenerEnvironment listenerName))

/-- The text expands to the destination. -/
def Expands (env : ResolveEnv) (vars : HashMap String String) (contextName : String)
    (text : Option String) (destination : String) : Prop :=
  ∃ t, text = some t ∧ env.evalNamed vars t contextName = .ok destination

/-- Where the output of a process of a program section goes: to the configured destination, else
to the default file of the process. -/
def StdoutGoesTo (c : SupervisorConfig) (env : ResolveEnv) (vars : HashMap String String)
    (raw : ProgramConfigRaw) (name destination : String) : Prop :=
  Expands env vars "stdout_logfile" (c.logField raw (·.stdout)) destination ∨
    c.logField raw (·.stdout) = none ∧ c.logMode raw = .on ∧
      destination = env.defaultProgramLogPath c.configDir name

/-- An enabled stream of a configuration, its destination, and whether its files rotate. -/
inductive Configures (c : SupervisorConfig) (env : ResolveEnv) : LogStream → String → Bool → Prop
  | daemon {destination : String} (henabled : c.logging.enabled ≠ .off)
      (hfile : c.logging.file = some destination) :
      Configures c env .daemon destination
        (decide (c.logging.maxBytes.getD defaultLogMaxBytes > 0))
  | stdout {baseName : String} {raw : ProgramConfigRaw} {processNum : ℕ} {name destination : String}
      (hraw : c.programs.lookup baseName = some raw)
      (hname : c.Named env ⟨.program baseName, processNum⟩ name)
      (henabled : c.logMode raw ≠ .off)
      (hdestination : c.StdoutGoesTo env (c.programVars env baseName raw processNum) raw name
        destination) :
      Configures c env (.stdout name) destination (c.rotatesStdout raw)
  | stderr {baseName : String} {raw : ProgramConfigRaw} {processNum : ℕ} {name destination : String}
      (hraw : c.programs.lookup baseName = some raw)
      (hname : c.Named env ⟨.program baseName, processNum⟩ name)
      (henabled : c.logMode raw ≠ .off)
      (hredirect : (c.logField raw (·.redirectStderr)).getD false = false)
      (hdestination : Expands env (c.programVars env baseName raw processNum) "stderr_logfile"
        (c.logField raw (·.stderr)) destination) :
      Configures c env (.stderr name) destination (c.rotatesStderr raw)
  | listener {listenerName : String} {raw : EventListenerConfigRaw} {processNum : ℕ}
      {name destination : String} (hraw : c.eventListeners.lookup listenerName = some raw)
      (hname : c.Named env ⟨.eventListener listenerName, processNum⟩ name)
      (hdestination : Expands env (c.listenerVars env listenerName raw processNum)
        "stderr_logfile" raw.stderrLogfile destination) :
      Configures c env (.stderr name) destination (decide (defaultLogMaxBytes > 0))

theorem eval_eq_ok {text contextName value : String} :
    env.eval vars text contextName = .ok value ↔
      env.evalNamed vars text contextName = .ok value := by
  rw [ResolveEnv.eval]
  cases env.evalNamed vars text contextName with
  | ok v =>
    constructor
    · exact fun h => congrArg Except.ok (Except.ok.inj h)
    · exact fun h => congrArg Except.ok (Except.ok.inj h)
  | error e =>
    refine iff_of_false (fun h => ?_) fun h => ?_
    · cases h
    · cases h

theorem evalOption_eq_ok {text out : Option String} {contextName : String}
    (h : env.evalOption vars text contextName = .ok out) (destination : String) :
    out = some destination ↔ Expands env vars contextName text destination := by
  cases text with
  | none =>
    obtain rfl := Except.ok.inj h
    exact iff_of_false nofun fun ⟨_, ht, _⟩ => absurd ht nofun
  | some text =>
    obtain ⟨value, heval, hout⟩ := Except.bind_eq_ok.mp h
    obtain rfl := Except.ok.inj hout
    have hvalue := eval_eq_ok.mp heval
    rw [Option.some.injEq]
    constructor
    · rintro rfl
      exact ⟨text, rfl, hvalue⟩
    · rintro ⟨t, ht, hdestination⟩
      obtain rfl := Option.some.inj ht
      exact Except.ok.inj (hvalue.symm.trans hdestination)

/-- The log settings that a section resolves to, as far as its streams and strings go. -/
structure ResolvesLogs (c : SupervisorConfig) (env : ResolveEnv) (vars : HashMap String String)
    (raw : ProgramConfigRaw) (name : String) (logs : ProgramLogsConfig) : Prop where
  enabled : logs.enabled = c.logMode raw
  redirect : logs.redirectStderr = (c.logField raw (·.redirectStderr)).getD false
  rotatesStdout : decide (logs.effectiveStdoutMaxBytes > 0) = c.rotatesStdout raw
  rotatesStderr : decide (logs.effectiveStderrMaxBytes > 0) = c.rotatesStderr raw
  stdout : ∀ destination, logs.stdout = some destination ↔
    c.StdoutGoesTo env vars raw name destination
  stderr : ∀ destination, logs.stderr = some destination ↔
    Expands env vars "stderr_logfile" (c.logField raw (·.stderr)) destination
  syslogFacility : logs.syslogFacility = c.logField raw (·.syslogFacility)
  syslogTag : logs.syslogTag = c.logField raw (·.syslogTag)
  syslogStdoutPriority : logs.syslogStdoutPriority = c.logField raw (·.syslogStdoutPriority)
  syslogStderrPriority : logs.syslogStderrPriority = c.logField raw (·.syslogStderrPriority)

theorem resolveLogs_spec {logs : ProgramLogsConfig}
    (h : c.resolveLogs env vars name raw = .ok logs) : c.ResolvesLogs env vars raw name logs := by
  simp only [resolveLogs] at h
  split at h
  next text htext =>
    obtain ⟨stdout, hstdout, h⟩ := Except.bind_eq_ok.mp h
    obtain ⟨stderr, hstderr, h⟩ := Except.bind_eq_ok.mp h
    obtain rfl := Except.ok.inj h
    refine ⟨rfl, rfl, rfl, rfl, fun destination => ?_, evalOption_eq_ok hstderr, rfl, rfl, rfl, rfl⟩
    simp only [StdoutGoesTo, logField, htext]
    rw [evalOption_eq_ok hstdout]
    simp
  next htext =>
    have hnone : c.logField raw (·.stdout) = none := htext
    split at h
    next henabled =>
      have hon : c.logMode raw = .on := henabled
      obtain ⟨stdout, hstdout, h⟩ := Except.bind_eq_ok.mp h
      obtain rfl := Except.ok.inj hstdout
      obtain ⟨stderr, hstderr, h⟩ := Except.bind_eq_ok.mp h
      obtain rfl := Except.ok.inj h
      refine ⟨rfl, rfl, rfl, rfl, fun destination => ?_, evalOption_eq_ok hstderr, rfl, rfl, rfl,
        rfl⟩
      simp [StdoutGoesTo, Expands, hnone, hon, eq_comm]
    next hdisabled =>
      have hoff : c.logMode raw ≠ .on := hdisabled
      obtain ⟨stdout, hstdout, h⟩ := Except.bind_eq_ok.mp h
      obtain rfl := Except.ok.inj hstdout
      obtain ⟨stderr, hstderr, h⟩ := Except.bind_eq_ok.mp h
      obtain rfl := Except.ok.inj h
      refine ⟨rfl, rfl, rfl, rfl, fun destination => ?_, evalOption_eq_ok hstderr, rfl, rfl, rfl,
        rfl⟩
      simp [StdoutGoesTo, Expands, hnone, hoff]

theorem resolveInstance_logs {baseName : String} {priority : ℕ} {dependsOn : List String}
    {processNum : ℕ} {cfg : ProgramConfig}
    (h : c.resolveInstance env baseName raw (c.groupOf env baseName raw) priority dependsOn name
      processNum (c.numprocsOf raw) = .ok cfg) :
    c.ResolvesLogs env (c.programVars env baseName raw processNum) raw name cfg.logs := by
  simp only [resolveInstance, Except.bind_eq_ok] at h
  obtain ⟨_, -, _, -, _, -, logs, hlogs, _, -, _, -, _, -, _, -, _, -, _, -, h⟩ := h
  split at h
  next => contradiction
  next =>
    obtain rfl := Except.ok.inj h
    exact resolveLogs_spec hlogs

theorem resolveListenerInstance_logs {listenerName : String} {raw : EventListenerConfigRaw}
    {processNum : ℕ} {cfg : ProgramConfig}
    (h : c.resolveListenerInstance env listenerName raw name processNum (raw.numprocs.getD 1) =
      .ok cfg) :
    ∃ stderr, cfg.logs = { stderr := stderr } ∧ ∀ destination, stderr = some destination ↔
      Expands env (c.listenerVars env listenerName raw processNum) "stderr_logfile"
        raw.stderrLogfile destination := by
  simp only [resolveListenerInstance, Except.bind_eq_ok] at h
  obtain ⟨_, -, _, -, _, -, stderr, hstderr, h⟩ := h
  split at h
  next => contradiction
  next =>
    obtain rfl := Except.ok.inj h
    exact ⟨stderr, rfl, evalOption_eq_ok hstderr⟩

theorem isEnabled_iff {logs : ProgramLogsConfig} : logs.isEnabled = true ↔ logs.enabled ≠ .off :=
  bne_iff_ne

/-- A resolved process is one of the configuration. -/
theorem resolves_of_lookup (h : c.resolvePrograms env = .ok resolved) {cfg : ProgramConfig}
    (hcfg : resolved.lookup name = some cfg) :
    ∃ p, c.Named env p name ∧ c.Resolves env p name cfg := by
  obtain ⟨hprocess, hentry, -⟩ := resolvePrograms_instances h
  obtain ⟨-, p, ⟨s, hs, hnum, hname⟩, -⟩ := hentry name cfg hcfg
  obtain ⟨name', cfg', hnamed', hcfg', hresolves⟩ := hprocess p ⟨s, hs, hnum⟩
  have hnamed : c.Named env p name := ⟨s, hs, hnum, hname⟩
  obtain rfl := hnamed.unique hnamed'
  obtain rfl := Option.some.inj (hcfg.symm.trans hcfg')
  exact ⟨p, hnamed, hresolves⟩

/-- A process of the configuration is resolved. -/
theorem lookup_of_named (h : c.resolvePrograms env = .ok resolved) {p : ProcessId}
    (hnamed : c.Named env p name) :
    ∃ cfg, resolved.lookup name = some cfg ∧ c.Resolves env p name cfg := by
  obtain ⟨s, hs, hnum, hname⟩ := hnamed
  obtain ⟨name', cfg, hnamed', hcfg, hresolves⟩ :=
    (resolvePrograms_instances h).1 p ⟨s, hs, hnum⟩
  have hnamed : c.Named env p name := ⟨s, hs, hnum, hname⟩
  obtain rfl := hnamed.unique hnamed'
  exact ⟨cfg, hcfg, hresolves⟩

/-- The stream of the output of a process of a program section. -/
theorem log_stdout_of_program {cfg : ProgramConfig} (hcfg : resolved.lookup name = some cfg)
    (hlogs : c.ResolvesLogs env vars raw name cfg.logs) (destination : String)
    (isRotating : Bool) :
    (LogStream.stdout name).log c resolved = some (destination, isRotating) ↔
      c.logMode raw ≠ .off ∧ c.StdoutGoesTo env vars raw name destination ∧
        isRotating = c.rotatesStdout raw := by
  simp only [LogStream.log]
  rw [hcfg, Option.bind_some]
  split_ifs with henabled
  · rw [isEnabled_iff, hlogs.enabled] at henabled
    rw [Option.map_eq_some_iff]
    constructor
    · rintro ⟨out, hout, heq⟩
      obtain ⟨rfl, rfl⟩ := Prod.mk.inj heq
      exact ⟨henabled, (hlogs.stdout _).mp hout, hlogs.rotatesStdout⟩
    · rintro ⟨-, hdestination, rfl⟩
      exact ⟨destination, (hlogs.stdout _).mpr hdestination, by rw [hlogs.rotatesStdout]⟩
  · rw [isEnabled_iff, hlogs.enabled] at henabled
    exact iff_of_false (by simp) fun h => henabled h.1

/-- The stream of the error output of a process of a program section. -/
theorem log_stderr_of_program {cfg : ProgramConfig} (hcfg : resolved.lookup name = some cfg)
    (hlogs : c.ResolvesLogs env vars raw name cfg.logs) (destination : String)
    (isRotating : Bool) :
    (LogStream.stderr name).log c resolved = some (destination, isRotating) ↔
      c.logMode raw ≠ .off ∧ (c.logField raw (·.redirectStderr)).getD false = false ∧
        Expands env vars "stderr_logfile" (c.logField raw (·.stderr)) destination ∧
          isRotating = c.rotatesStderr raw := by
  simp only [LogStream.log]
  rw [hcfg, Option.bind_some]
  split_ifs with henabled
  · rw [isEnabled_iff, hlogs.enabled, hlogs.redirect, Bool.not_eq_true] at henabled
    rw [Option.map_eq_some_iff]
    constructor
    · rintro ⟨out, hout, heq⟩
      obtain ⟨rfl, rfl⟩ := Prod.mk.inj heq
      exact ⟨henabled.1, henabled.2, (hlogs.stderr _).mp hout, hlogs.rotatesStderr⟩
    · rintro ⟨-, -, hdestination, rfl⟩
      exact ⟨destination, (hlogs.stderr _).mpr hdestination, by rw [hlogs.rotatesStderr]⟩
  · rw [isEnabled_iff, hlogs.enabled, hlogs.redirect, Bool.not_eq_true] at henabled
    exact iff_of_false (by simp) fun h => henabled ⟨h.1, h.2.1⟩

/-- A process of an event listener section has a log of its error output only. -/
theorem log_of_listener {cfg : ProgramConfig} (hcfg : resolved.lookup name = some cfg)
    {stderr : Option String} (hlogs : cfg.logs = { stderr := stderr }) :
    (LogStream.stdout name).log c resolved = none ∧
      (LogStream.stderr name).log c resolved =
        stderr.map (·, decide (defaultLogMaxBytes > 0)) := by
  simp only [LogStream.log]
  rw [hcfg, Option.bind_some, Option.bind_some, hlogs]
  exact ⟨rfl, rfl⟩

/-- The streams of a resolved configuration are those that its sections configure. -/
theorem log_eq_some_iff (h : c.resolvePrograms env = .ok resolved) (stream : LogStream)
    (destination : String) (isRotating : Bool) :
    stream.log c resolved = some (destination, isRotating) ↔
      c.Configures env stream destination isRotating := by
  constructor
  · intro hlog
    match stream with
    | .daemon =>
      simp only [LogStream.log] at hlog
      split at hlog
      next => contradiction
      next henabled =>
        obtain ⟨file, hfile, heq⟩ := Option.map_eq_some_iff.mp hlog
        obtain ⟨rfl, rfl⟩ := Prod.mk.inj heq
        exact .daemon henabled hfile
    | .stdout program =>
      obtain ⟨cfg, hcfg, -⟩ := Option.bind_eq_some_iff.mp hlog
      obtain ⟨p, hnamed, hresolves⟩ := resolves_of_lookup h hcfg
      cases hresolves with
      | program hraw hinstance _ =>
        obtain ⟨henabled, hdestination, rfl⟩ :=
          (log_stdout_of_program hcfg (resolveInstance_logs hinstance) _ _).mp hlog
        exact .stdout hraw hnamed henabled hdestination
      | eventListener hraw hinstance =>
        obtain ⟨stderr, hlogs, -⟩ := resolveListenerInstance_logs hinstance
        rw [(log_of_listener hcfg hlogs).1] at hlog
        cases hlog
    | .stderr program =>
      obtain ⟨cfg, hcfg, -⟩ := Option.bind_eq_some_iff.mp hlog
      obtain ⟨p, hnamed, hresolves⟩ := resolves_of_lookup h hcfg
      cases hresolves with
      | program hraw hinstance _ =>
        obtain ⟨henabled, hredirect, hdestination, rfl⟩ :=
          (log_stderr_of_program hcfg (resolveInstance_logs hinstance) _ _).mp hlog
        exact .stderr hraw hnamed henabled hredirect hdestination
      | eventListener hraw hinstance =>
        obtain ⟨stderr, hlogs, hstderr⟩ := resolveListenerInstance_logs hinstance
        rw [(log_of_listener hcfg hlogs).2] at hlog
        obtain ⟨out, hout, heq⟩ := Option.map_eq_some_iff.mp hlog
        obtain ⟨rfl, rfl⟩ := Prod.mk.inj heq
        exact .listener hraw hnamed ((hstderr _).mp hout)
  · intro hconfigures
    cases hconfigures with
    | daemon henabled hfile =>
      simp only [LogStream.log]
      rw [if_neg henabled, hfile]
      rfl
    | stdout hraw hnamed henabled hdestination =>
      obtain ⟨cfg, hcfg, hresolves⟩ := lookup_of_named h hnamed
      cases hresolves with
      | program hraw' hinstance _ =>
        obtain rfl := Option.some.inj (hraw.symm.trans hraw')
        exact (log_stdout_of_program hcfg (resolveInstance_logs hinstance) _ _).mpr
          ⟨henabled, hdestination, rfl⟩
    | stderr hraw hnamed henabled hredirect hdestination =>
      obtain ⟨cfg, hcfg, hresolves⟩ := lookup_of_named h hnamed
      cases hresolves with
      | program hraw' hinstance _ =>
        obtain rfl := Option.some.inj (hraw.symm.trans hraw')
        exact (log_stderr_of_program hcfg (resolveInstance_logs hinstance) _ _).mpr
          ⟨henabled, hredirect, hdestination, rfl⟩
    | listener hraw hnamed hdestination =>
      obtain ⟨cfg, hcfg, hresolves⟩ := lookup_of_named h hnamed
      cases hresolves with
      | eventListener hraw' hinstance =>
        obtain rfl := Option.some.inj (hraw.symm.trans hraw')
        obtain ⟨stderr, hlogs, hstderr⟩ := resolveListenerInstance_logs hinstance
        rw [(log_of_listener hcfg hlogs).2, (hstderr _).mpr hdestination]
        rfl

/-! ## Paths of competing streams -/

/-- The configuration gives the path to the stream. -/
def Spells (c : SupervisorConfig) (env : ResolveEnv) (stream : LogStream) (path : String)
    (isRotating : Bool) : Prop :=
  ∃ destination files, c.Configures env stream destination isRotating ∧
    env.destinationFiles destination = some files ∧ path ∈ files

/-- The configuration gives the paths to two different streams, one of which rotates. -/
def SpelledForRivals (c : SupervisorConfig) (env : ResolveEnv) (path path' : String) : Prop :=
  ∃ s s' : LogStream, s ≠ s' ∧ ∃ isRotating isRotating', (isRotating || isRotating') = true ∧
    c.Spells env s path isRotating ∧ c.Spells env s' path' isRotating'

/-- The paths of competing streams are spelled without `..` and without a dot at the start. -/
def TidyLogs (c : SupervisorConfig) (env : ResolveEnv) : Prop :=
  ∀ path path', c.SpelledForRivals env path path' → UnixPath.Tidy path

/-- The paths of competing streams are tidy, and no relative one is, behind the working directory,
an absolute one. -/
structure LogsSpelledOneWay (c : SupervisorConfig) (env : ResolveEnv) (cwd : String) : Prop where
  tidy : c.TidyLogs env
  apart : ∀ path path', c.SpelledForRivals env path path' → UnixPath.isAbsolute path = false →
    UnixPath.isAbsolute path' = true →
      UnixPath.components path' ≠ UnixPath.stack cwd ++ UnixPath.components path

/-- Competing streams of a resolved configuration are those of its sections. -/
theorem competing_iff (h : c.resolvePrograms env = .ok resolved) (path path' : String) :
    c.Competing env resolved path path' ↔ c.SpelledForRivals env path path' := by
  simp only [Competing, SpelledForRivals, LogStream.Writes, Spells, log_eq_some_iff h]

theorem SpelledForRivals.symm {path path' : String} (h : c.SpelledForRivals env path path') :
    c.SpelledForRivals env path' path := by
  obtain ⟨s, s', hne, isRotating, isRotating', hrotating, hs, hs'⟩ := h
  exact ⟨s', s, hne.symm, isRotating', isRotating, by rw [Bool.or_comm]; exact hrotating, hs', hs⟩

end SupervisorConfig

end Rsupervisord
