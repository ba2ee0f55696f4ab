import Rsupervisord.Config.ExpandsOnce
import Rsupervisord.Config.LogSpelling

/-!
# The way of a string through the configuration

`translate_paths` expands the strings of a program section, and `resolve_programs` makes the fields
of a process of them. Most fields are evaluated again, so that a string that was expanded at loading
is expanded twice.

## Main definitions

* `UserString`: the strings of a program section, with the kind and the name of their fields.
* `SupervisorConfig.EndsAs`: a string ends up as a value in its field of a process.

## Main results

* `UserString.holds_of_resolves`: a resolved process has the evaluated strings of its section.
* `SupervisorConfig.endsAs_of_expandsOnce`: a string that is expanded once ends up as what it
  stands for, and an ordinary one only then.
* `SupervisorConfig.exists_not_endsAs`: an escaped reference is replaced.
-/

namespace Rsupervisord

open StringExpression

/-- A string of a program section; most are inherited from `program_defaults` when the section has
none. -/
inductive UserString
  | command
  | args (i : ℕ)
  | directory
  | user
  | environment (key : String)
  | dependsOn (i : ℕ)
  | stdout
  | stderr
  | syslogFacility
  | syslogTag
  | syslogStdoutPriority
  | syslogStderrPriority
  | healthCheckUrl
  | healthCheckEndpoint
  | healthCheckCommand
  | group
  | cron
  | cronStop
  | preStart
  | preStop
  | processName
  | restartCmdWhenBinaryChanged
  | restartDirectoryMonitor
  | restartFilePattern
  | restartCmdWhenFileChanged
  | envFiles (i : ℕ)

/-- The URL of a health check. -/
def HealthCheckType.url : HealthCheckType → Option String
  | http url _ => some url
  | _ => none

/-- The endpoint of a health check. -/
def HealthCheckType.endpoint : HealthCheckType → Option String
  | tcp endpoint => some endpoint
  | _ => none

/-- The command of a health check. -/
def HealthCheckType.command : HealthCheckType → Option String
  | exec command => some command
  | _ => none

/-- The words of an evaluated command: the program and its arguments. -/
def ResolveEnv.words (env : ResolveEnv) (line : String) : String × List String :=
  match env.splitCommandLine line with
  | .ok (cmd :: parts) => (cmd, parts)
  | _ => (line, [])

namespace UserString

/-- How path translation takes the string. -/
def kind : UserString → Transform.Kind
  | command | healthCheckCommand => .command
  | directory | stdout | stderr | restartDirectoryMonitor | envFiles _ => .path
  | environment key => if key = "pidfile" then .path else .default
  | _ => .default

/-- The name under which the resolution evaluates the string; `none` where it does not. -/
def context : UserString → Option String
  | command => some "command"
  | args _ => some "args"
  | directory => some "directory"
  | environment _ => some "environment"
  | stdout => some "stdout_logfile"
  | stderr => some "stderr_logfile"
  | healthCheckUrl => some "health_check.http.url"
  | healthCheckEndpoint => some "health_check.tcp.endpoint"
  | healthCheckCommand => some "health_check.exec.command"
  | preStart => some "pre_start"
  | preStop => some "pre_stop"
  | processName => some "process_name"
  | restartCmdWhenBinaryChanged => some "restart_cmd_when_binary_changed"
  | restartDirectoryMonitor => some "restart_directory_monitor"
  | restartCmdWhenFileChanged => some "restart_cmd_when_file_changed"
  | user | dependsOn _ | syslogFacility | syslogTag | syslogStdoutPriority | syslogStderrPriority
  | group | cron | cronStop | restartFilePattern | envFiles _ => none

/-- The text of the string, when the section or the defaults have it. -/
def text (c : SupervisorConfig) (raw : ProgramConfigRaw) : UserString → Option String
  | command => some raw.command
  | args i => raw.args[i]?
  | directory => raw.directory
  | user => raw.user
  | environment key => raw.environment.lookup key
  | dependsOn i => raw.dependsOn[i]?
  | stdout => c.logField raw (·.stdout)
  | stderr => c.logField raw (·.stderr)
  | syslogFacility => c.logField raw (·.syslogFacility)
  | syslogTag => c.logField raw (·.syslogTag)
  | syslogStdoutPriority => c.logField raw (·.syslogStdoutPriority)
  | syslogStderrPriority => c.logField raw (·.syslogStderrPriority)
  | healthCheckUrl => (raw.healthCheck <|> c.programDefaults.healthCheck).bind (·.checkType.url)
  | healthCheckEndpoint =>
      (raw.healthCheck <|> c.programDefaults.healthCheck).bind (·.checkType.endpoint)
  | healthCheckCommand =>
      (raw.healthCheck <|> c.programDefaults.healthCheck).bind (·.checkType.command)
  | group => raw.group
  | cron => raw.cron
  | cronStop => raw.cronStop
  | preStart => raw.preStart <|> c.programDefaults.preStart
  | preStop => raw.preStop <|> c.programDefaults.preStop
  | processName => raw.processName <|> c.programDefaults.processName
  | restartCmdWhenBinaryChanged =>
      raw.restartCmdWhenBinaryChanged <|> c.programDefaults.restartCmdWhenBinaryChanged
  | restartDirectoryMonitor =>
      raw.restartDirectoryMonitor <|> c.programDefaults.restartDirectoryMonitor
  | restartFilePattern => raw.restartFilePattern <|> c.programDefaults.restartFilePattern
  | restartCmdWhenFileChanged =>
      raw.restartCmdWhenFileChanged <|> c.programDefaults.restartCmdWhenFileChanged
  | envFiles i => (raw.envFiles <|> c.programDefaults.envFiles).bind (·[i]?)

/-- The variables of the program in the evaluation of the string: a process is named before the
environments are added. -/
def vars (c : SupervisorConfig) (env : ResolveEnv) (baseName : String) (raw : ProgramConfigRaw)
    (processNum : ℕ) : UserString → HashMap String String
  | processName =>
      c.programContext env baseName (c.groupOf env baseName raw) processNum (c.numprocsOf raw)
  | _ => c.programVars env baseName raw processNum

/-- The process has the value in the field of the string. -/
def Holds (c : SupervisorConfig) (env : ResolveEnv) (raw : ProgramConfigRaw) (cfg : ProgramConfig)
    (value : String) : UserString → Prop
  | command =>
      if raw.args.isEmpty then (cfg.command, cfg.args) = env.words value else cfg.command = value
  | args i => cfg.args[i]? = some value
  | directory => cfg.directory = some value
  | user => cfg.user = some value
  | environment key => cfg.environment.lookup key = some value
  | dependsOn _ => ∀ name, c.StandsFor env value name → name ∈ cfg.dependsOn
  | stdout => cfg.logs.stdout = some value
  | stderr => cfg.logs.stderr = some value
  | syslogFacility => cfg.logs.syslogFacility = some value
  | syslogTag => cfg.logs.syslogTag = some value
  | syslogStdoutPriority => cfg.logs.syslogStdoutPriority = some value
  | syslogStderrPriority => cfg.logs.syslogStderrPriority = some value
  | healthCheckUrl => cfg.healthCheck.bind (·.checkType.url) = some value
  | healthCheckEndpoint => cfg.healthCheck.bind (·.checkType.endpoint) = some value
  | healthCheckCommand => cfg.healthCheck.bind (·.checkType.command) = some value
  | group => cfg.group = value
  | cron => cfg.cron = some value
  | cronStop => cfg.cronStop = some value
  | preStart => cfg.preStart = some value
  | preStop => cfg.preStop = some value
  | processName => cfg.name = value
  | restartCmdWhenBinaryChanged => cfg.restartCmdWhenBinaryChanged = some value
  | restartDirectoryMonitor => cfg.restartDirectoryMonitor = some value
  | restartFilePattern => cfg.restartFilePattern = some value
  | restartCmdWhenFileChanged => cfg.restartCmdWhenFileChanged = some value
  | envFiles i => cfg.envFiles[i]? = some value

end UserString

variable {c : SupervisorConfig} {env : ResolveEnv} {load : LoadEnv} {raw : ProgramConfigRaw}
  {baseName name text value : String} {processNum : ℕ} {cfg : ProgramConfig}
  {vars : HashMap String String} {f : UserString}

/-! ## Fields of a process -/

namespace ResolveEnv

theorem evaluateField_of_eval (heval : env.evalNamed = StringExpression.evalNamed)
    {contextName : String} (h : env.eval vars text contextName = .ok value) :
    evaluateField vars (some contextName) text = .ok value := by
  rw [SupervisorConfig.eval_eq_ok, heval] at h
  exact h

/-- An optional string is evaluated when there is one. -/
theorem evaluateField_of_evalOption (heval : env.evalNamed = StringExpression.evalNamed)
    {contextName : String} {option out : Option String}
    (h : env.evalOption vars option contextName = .ok out) (htext : option = some text) :
    ∃ value, evaluateField vars (some contextName) text = .ok value ∧ out = some value := by
  subst htext
  obtain ⟨value, hvalue, hout⟩ := Except.bind_eq_ok.mp h
  exact ⟨value, evaluateField_of_eval heval hvalue, (Except.ok.inj hout).symm⟩

/-- A command is evaluated, and split when it has no arguments of its own. -/
theorem commandAndArgs_spec (heval : env.evalNamed = StringExpression.evalNamed)
    {command cmd : String} {args parts : List String}
    (h : env.commandAndArgs vars command args = .ok (cmd, parts)) :
    (∃ value, evaluateField vars (some "command") command = .ok value ∧
        if args.isEmpty then (cmd, parts) = env.words value else cmd = value) ∧
      (args ≠ [] → List.Forall₂ (fun a part => evaluateField vars (some "args") a = .ok part) args
        parts) := by
  obtain ⟨value, hvalue, h⟩ := Except.bind_eq_ok.mp h
  cases args with
  | nil =>
    refine ⟨⟨value, evaluateField_of_eval heval hvalue, ?_⟩, fun hne => absurd rfl hne⟩
    simp only [List.isEmpty_nil, if_true] at h ⊢
    cases hsplit : env.splitCommandLine value with
    | error e =>
      rw [hsplit] at h
      rw [words, hsplit]
      exact (Except.ok.inj h).symm
    | ok tokens =>
      rw [hsplit] at h
      rw [words, hsplit]
      cases tokens with
      | nil => exact (Except.ok.inj h).symm
      | cons cmd' parts' => exact (Except.ok.inj h).symm
  | cons a args =>
    obtain ⟨parts', hparts, h⟩ := Except.bind_eq_ok.mp h
    obtain ⟨rfl, rfl⟩ := Prod.mk.inj (Except.ok.inj h)
    refine ⟨⟨value, evaluateField_of_eval heval hvalue, rfl⟩, fun _ => ?_⟩
    exact (Except.mapM_eq_ok_iff.mp hparts).imp fun _ _ h => evaluateField_of_eval heval h

/-- The entries of an environment are evaluated. -/
theorem lookup_evalEnvironment (heval : env.evalNamed = StringExpression.evalNamed)
    {contextName : String → String} {entries : List (String × String)}
    {m : Finmap fun _ : String => String} (hnodup : (entries.map Prod.fst).Nodup)
    (h : env.evalEnvironment vars contextName entries = .ok m) {key : String}
    (hentry : (key, text) ∈ entries) :
    ∃ value, evaluateField vars (some (contextName key)) text = .ok value ∧
      m.lookup key = some value := by
  rw [evalEnvironment] at h
  generalize (∅ : Finmap fun _ : String => String) = m₀ at h
  induction entries generalizing m₀ with
  | nil => cases hentry
  | cons e entries ih =>
    rw [List.map_cons, List.nodup_cons] at hnodup
    rw [List.foldlM_cons, Except.bind_eq_ok] at h
    obtain ⟨m₁, hhead, htail⟩ := h
    obtain hentry | hentry := List.mem_cons.mp hentry
    · -- The entries behind it have other keys and leave it.
      subst hentry
      obtain ⟨value, hvalue, hm₁⟩ := Except.bind_eq_ok.mp hhead
      obtain rfl := Except.ok.inj hm₁
      refine ⟨value, evaluateField_of_eval heval hvalue, ?_⟩
      refine Except.foldlM_invariant (I := fun m => m.lookup key = some value) ?_
        (Finmap.lookup_insert _) htail
      rintro m₂ e m₃ he hlookup hstep
      obtain ⟨value', -, hm₃⟩ := Except.bind_eq_ok.mp hstep
      obtain rfl := Except.ok.inj hm₃
      have hne : key ≠ e.1 := fun heq => hnodup.1 (List.mem_map.mpr ⟨e, he, heq.symm⟩)
      rw [Finmap.lookup_insert_of_ne _ hne, hlookup]
    · exact ih hnodup.2 hentry m₁ htail

end ResolveEnv

open ResolveEnv SupervisorConfig

/-- The log files of a process are evaluated. -/
theorem SupervisorConfig.resolveLogs_files (heval : env.evalNamed = StringExpression.evalNamed)
    {logs : ProgramLogsConfig} (h : c.resolveLogs env vars name raw = .ok logs) :
    (∀ text, c.logField raw (·.stdout) = some text → ∃ value,
        evaluateField vars (some "stdout_logfile") text = .ok value ∧ logs.stdout = some value) ∧
      ∀ text, c.logField raw (·.stderr) = some text → ∃ value,
        evaluateField vars (some "stderr_logfile") text = .ok value ∧ logs.stderr = some value := by
  simp only [resolveLogs] at h
  split at h
  next rawStdout hstdoutText =>
    have hstdoutText : c.logField raw (·.stdout) = some rawStdout := hstdoutText
    obtain ⟨stdout, hstdout, h⟩ := Except.bind_eq_ok.mp h
    obtain ⟨stderr, hstderr, h⟩ := Except.bind_eq_ok.mp h
    obtain rfl := Except.ok.inj h
    refine ⟨fun text htext => ?_, fun text htext => ?_⟩
    · obtain rfl := Option.some.inj (hstdoutText.symm.trans htext)
      exact evaluateField_of_evalOption heval hstdout rfl
    · exact evaluateField_of_evalOption heval hstderr htext
  next hnone =>
    -- The standard output has a default file or none; the standard error is evaluated as before.
    have hnone : c.logField raw (·.stdout) = none := hnone
    have hstderr : env.evalOption vars (c.logField raw (·.stderr)) "stderr_logfile" =
        .ok logs.stderr := by
      split at h
      next =>
        obtain ⟨stdout, -, h⟩ := Except.bind_eq_ok.mp h
        obtain ⟨stderr, hstderr, h⟩ := Except.bind_eq_ok.mp h
        obtain rfl := Except.ok.inj h
        exact hstderr
      next =>
        obtain ⟨stdout, -, h⟩ := Except.bind_eq_ok.mp h
        obtain ⟨stderr, hstderr, h⟩ := Except.bind_eq_ok.mp h
        obtain rfl := Except.ok.inj h
        exact hstderr
    refine ⟨fun text htext => ?_, fun text htext => ?_⟩
    · rw [hnone] at htext
      cases htext
    · exact evaluateField_of_evalOption heval hstderr htext

/-- The health check of a process has its strings evaluated. -/
theorem SupervisorConfig.resolveHealthCheck_fields
    (heval : env.evalNamed = StringExpression.evalNamed) {check : Option HealthCheckConfig}
    (h : c.resolveHealthCheck env vars raw = .ok check) :
    (∀ text, (raw.healthCheck <|> c.programDefaults.healthCheck).bind (·.checkType.url) =
        some text →
          ∃ value, evaluateField vars (some "health_check.http.url") text = .ok value ∧
            check.bind (·.checkType.url) = some value) ∧
      (∀ text, (raw.healthCheck <|> c.programDefaults.healthCheck).bind (·.checkType.endpoint) =
        some text →
          ∃ value, evaluateField vars (some "health_check.tcp.endpoint") text = .ok value ∧
            check.bind (·.checkType.endpoint) = some value) ∧
      ∀ text, (raw.healthCheck <|> c.programDefaults.healthCheck).bind (·.checkType.command) =
        some text →
          ∃ value, evaluateField vars (some "health_check.exec.command") text = .ok value ∧
            check.bind (·.checkType.command) = some value := by
  unfold resolveHealthCheck at h
  cases hcheck : raw.healthCheck <|> c.programDefaults.healthCheck with
  | none => exact ⟨nofun, nofun, nofun⟩
  | some hc =>
    rw [hcheck] at h
    obtain ⟨checkType, _, _, _, _⟩ := hc
    cases checkType with
    | http url _ =>
      obtain ⟨value, hvalue, h⟩ := Except.bind_eq_ok.mp h
      obtain rfl := Except.ok.inj h
      refine ⟨fun text htext => ?_, nofun, nofun⟩
      obtain rfl := Option.some.inj htext
      exact ⟨value, evaluateField_of_eval heval hvalue, rfl⟩
    | tcp endpoint =>
      obtain ⟨value, hvalue, h⟩ := Except.bind_eq_ok.mp h
      obtain rfl := Except.ok.inj h
      refine ⟨nofun, fun text htext => ?_, nofun⟩
      obtain rfl := Option.some.inj htext
      exact ⟨value, evaluateField_of_eval heval hvalue, rfl⟩
    | exec command =>
      obtain ⟨value, hvalue, h⟩ := Except.bind_eq_ok.mp h
      obtain rfl := Except.ok.inj h
      refine ⟨nofun, nofun, fun text htext => ?_⟩
      obtain rfl := Option.some.inj htext
      exact ⟨value, evaluateField_of_eval heval hvalue, rfl⟩

/-- The name of a process with a template is the evaluated template. -/
theorem SupervisorConfig.Named.evaluateField_eq
    (heval : env.evalNamed = StringExpression.evalNamed)
    (hraw : c.programs.lookup baseName = some raw)
    (h : c.Named env ⟨.program baseName, processNum⟩ name)
    (htemplate : (raw.processName <|> c.programDefaults.processName) = some text) :
    evaluateField (c.programContext env baseName (c.groupOf env baseName raw) processNum
      (c.numprocsOf raw)) (some "process_name") text = .ok name := by
  obtain ⟨s, hs, -, hname⟩ := h
  obtain ⟨raw', hraw', rfl⟩ := Option.map_eq_some_iff.mp hs
  obtain rfl := Option.some.inj (hraw.symm.trans hraw')
  have hsome : (c.programNaming env baseName raw).processNameTemplate = some text := htemplate
  rw [processName, hsome, if_neg (by simp)] at hname
  exact evaluateField_of_eval heval hname

/-- A resolved process has the evaluated strings of its section. -/
theorem UserString.holds_of_resolves (heval : env.evalNamed = StringExpression.evalNamed)
    (hraw : c.programs.lookup baseName = some raw)
    (hnamed : c.Named env ⟨.program baseName, processNum⟩ name)
    (h : c.Resolves env ⟨.program baseName, processNum⟩ name cfg)
    (htext : f.text c raw = some text) :
    ∃ value, evaluateField (f.vars c env baseName raw processNum) f.context text = .ok value ∧
      f.Holds c env raw cfg value := by
  cases h with
  | program hraw' hcfg hdependsOn =>
  obtain rfl := Option.some.inj (hraw.symm.trans hraw')
  simp only [resolveInstance, Except.bind_eq_ok] at hcfg
  obtain ⟨⟨command, args⟩, hcommand, directory, hdirectory, environment, henvironment, logs, hlogs,
    healthCheck, hhealthCheck, preStart, hpreStart, preStop, hpreStop, binaryCmd, hbinaryCmd,
    monitor, hmonitor, fileCmd, hfileCmd, hcfg⟩ := hcfg
  split at hcfg
  next => contradiction
  next =>
  obtain rfl := Except.ok.inj hcfg
  obtain ⟨hline, hargs⟩ := commandAndArgs_spec heval hcommand
  obtain ⟨hstdout, hstderr⟩ := resolveLogs_files heval hlogs
  have hstrings := resolveLogs_spec hlogs
  obtain ⟨hurl, hendpoint, hprobe⟩ := resolveHealthCheck_fields heval hhealthCheck
  cases f with
  | command =>
    obtain rfl := Option.some.inj htext
    exact hline
  | args i =>
    -- The command line is split only when there are no arguments.
    have hne : raw.args ≠ [] := fun hnil => by
      rw [UserString.text, hnil] at htext
      cases htext
    obtain ⟨hlength, hget⟩ := List.forall₂_iff_get.mp (hargs hne)
    obtain ⟨hi, htext⟩ := List.getElem?_eq_some_iff.mp htext
    have hi' : i < args.length := hlength ▸ hi
    refine ⟨args[i], ?_, List.getElem?_eq_getElem hi'⟩
    have hevaluated := hget i hi hi'
    rw [List.get_eq_getElem, htext] at hevaluated
    exact hevaluated
  | directory => exact evaluateField_of_evalOption heval hdirectory htext
  | environment key =>
    have hentry := HashMap.mem_iter (o := env.orders.programEnvironment baseName).mpr htext
    exact lookup_evalEnvironment heval HashMap.nodup_map_fst_iter henvironment hentry
  | dependsOn i =>
    refine ⟨text, rfl, fun name hstands => (hdependsOn name).mpr ⟨text, ?_, hstands⟩⟩
    exact List.mem_of_getElem? htext
  | stdout => exact hstdout text htext
  | stderr => exact hstderr text htext
  | syslogFacility => exact ⟨text, rfl, hstrings.syslogFacility.trans htext⟩
  | syslogTag => exact ⟨text, rfl, hstrings.syslogTag.trans htext⟩
  | syslogStdoutPriority => exact ⟨text, rfl, hstrings.syslogStdoutPriority.trans htext⟩
  | syslogStderrPriority => exact ⟨text, rfl, hstrings.syslogStderrPriority.trans htext⟩
  | healthCheckUrl => exact hurl text htext
  | healthCheckEndpoint => exact hendpoint text htext
  | healthCheckCommand => exact hprobe text htext
  | group =>
    refine ⟨text, rfl, ?_⟩
    rw [Holds, groupOf, show raw.group = some text from htext]
  | preStart => exact evaluateField_of_evalOption heval hpreStart htext
  | preStop => exact evaluateField_of_evalOption heval hpreStop htext
  | processName => exact ⟨name, hnamed.evaluateField_eq heval hraw htext, rfl⟩
  | restartCmdWhenBinaryChanged => exact evaluateField_of_evalOption heval hbinaryCmd htext
  | restartDirectoryMonitor => exact evaluateField_of_evalOption heval hmonitor htext
  | restartCmdWhenFileChanged => exact evaluateField_of_evalOption heval hfileCmd htext
  | envFiles i =>
    obtain ⟨files, hfiles, hi⟩ := Option.bind_eq_some_iff.mp htext
    refine ⟨text, rfl, ?_⟩
    rw [Holds, hfiles]
    exact hi
  -- These are used as they are written.
  | user | cron | cronStop | restartFilePattern => exact ⟨text, rfl, htext⟩

/-! ## Strings of a translated section -/

theorem map_orElse {α β : Type} (g : α → β) (own inherited : Option α) :
    (own.map g <|> inherited.map g) = (own <|> inherited).map g := by
  cases own <;> rfl

/-- A log setting of a translated section. -/
theorem SupervisorConfig.logField_translatePaths {field : ProgramLogsConfigRaw → Option String}
    {g : String → String}
    (hfield : ∀ logs, field ((c.translation env load).logs logs) = (field logs).map g) :
    (c.translatePaths env load).logField ((c.translation env load).program raw) field =
      (c.logField raw field).map g := by
  have hlogs (logs : Option ProgramLogsConfigRaw) :
      (logs.map (c.translation env load).logs).bind field = (logs.bind field).map g := by
    cases logs with
    | none => rfl
    | some logs => exact hfield logs
  rw [logField, logField, ← map_orElse, ← hlogs, ← hlogs]
  rfl

/-- The strings of a translated section are translated, each as its kind. -/
theorem UserString.text_translatePaths :
    f.text (c.translatePaths env load) ((c.translation env load).program raw) =
      (f.text c raw).map ((c.translation env load).string f.kind) := by
  have hcheck {field : HealthCheckType → Option String} {kind : Transform.Kind}
      (hfield : ∀ checkType, field ((c.translation env load).checkType checkType) =
        (field checkType).map ((c.translation env load).string kind)) :
      (((raw.healthCheck.map (c.translation env load).healthCheck) <|>
        (c.programDefaults.healthCheck.map (c.translation env load).healthCheck)).bind
          fun check => field check.checkType) =
        ((raw.healthCheck <|> c.programDefaults.healthCheck).bind fun check =>
          field check.checkType).map ((c.translation env load).string kind) := by
    rw [map_orElse]
    cases raw.healthCheck <|> c.programDefaults.healthCheck with
    | none => rfl
    | some check => exact hfield check.checkType
  cases f with
  | command | directory | user | group | cron | cronStop => rfl
  | args i | dependsOn i => exact List.getElem?_map
  | environment key => exact HashMap.lookup_mapValues _
  | stdout | stderr | syslogFacility | syslogTag | syslogStdoutPriority | syslogStderrPriority =>
    exact logField_translatePaths fun _ => rfl
  | healthCheckUrl =>
    exact hcheck fun checkType => by cases checkType <;> rfl
  | healthCheckEndpoint =>
    exact hcheck fun checkType => by cases checkType <;> rfl
  | healthCheckCommand =>
    exact hcheck fun checkType => by cases checkType <;> rfl
  | preStart | preStop | processName | restartCmdWhenBinaryChanged | restartDirectoryMonitor
  | restartFilePattern | restartCmdWhenFileChanged => exact map_orElse _ _ _
  | envFiles i =>
    rw [text, text]
    show ((raw.envFiles.map _) <|> (c.programDefaults.envFiles.map _)).bind _ = _
    rw [map_orElse]
    cases raw.envFiles <|> c.programDefaults.envFiles with
    | none => rfl
    | some files => exact List.getElem?_map

/-! ## The whole way -/

namespace SupervisorConfig

/-- The string of a section ends up as the value in the field of the process: it is evaluated to the
value, and the process has it in every resolved configuration. -/
structure ResolvesTo (c : SupervisorConfig) (env : ResolveEnv) (baseName : String)
    (raw : ProgramConfigRaw) (processNum : ℕ) (f : UserString) (value : String) : Prop where
  evaluates : ∃ text, f.text c raw = some text ∧
    evaluateField (f.vars c env baseName raw processNum) f.context text = .ok value
  holds : ∀ resolved name cfg, c.resolvePrograms env = .ok resolved →
    c.Named env ⟨.program baseName, processNum⟩ name → resolved.lookup name = some cfg →
      f.Holds c env raw cfg value

theorem resolvesTo_iff (heval : env.evalNamed = StringExpression.evalNamed)
    (hraw : c.programs.lookup baseName = some raw) (htext : f.text c raw = some text) :
    c.ResolvesTo env baseName raw processNum f value ↔
      evaluateField (f.vars c env baseName raw processNum) f.context text = .ok value := by
  constructor
  · rintro ⟨⟨text', htext', hvalue⟩, -⟩
    obtain rfl := Option.some.inj (htext.symm.trans htext')
    exact hvalue
  · intro hvalue
    refine ⟨⟨text, htext, hvalue⟩, fun resolved name cfg hresolved hnamed hcfg => ?_⟩
    obtain ⟨cfg', hcfg', hresolves⟩ := lookup_of_named hresolved hnamed
    obtain rfl := Option.some.inj (hcfg.symm.trans hcfg')
    obtain ⟨value', hvalue', hholds⟩ := f.holds_of_resolves heval hraw hnamed hresolves htext
    obtain rfl := Except.ok.inj (hvalue.symm.trans hvalue')
    exact hholds

/-- Through the whole configuration the string of a section ends up as the value. -/
def EndsAs (c : SupervisorConfig) (env : ResolveEnv) (load : LoadEnv) (baseName : String)
    (raw : ProgramConfigRaw) (processNum : ℕ) (f : UserString) (value : String) : Prop :=
  (c.translatePaths env load).ResolvesTo env baseName ((c.translation env load).program raw)
    processNum f value

/-- The variables of a field behind the translation. -/
def fieldVars (c : SupervisorConfig) (env : ResolveEnv) (load : LoadEnv) (baseName : String)
    (raw : ProgramConfigRaw) (processNum : ℕ) (f : UserString) : HashMap String String :=
  f.vars (c.translatePaths env load) env baseName ((c.translation env load).program raw) processNum

/-- A web server with one variable in its environment. -/
def templateProgram (segments : List Segment) : ProgramConfigRaw where
  command := "nginx"
  environment := HashMap.extend ∅ [("TEMPLATE", .ofList (render segments))]

/-- The configuration of the web server. -/
def templateConfig (segments : List Segment) : SupervisorConfig where
  programs := HashMap.extend ∅ [("web", templateProgram segments)]

/-- Loading without an environment and without path translation. -/
def emptyLoadEnv : LoadEnv := ⟨fun _ => none, false⟩

/-- The variable `program_name`. -/
def programName : VarName where
  name := "program_name"
  nonempty := by decide
  trimmed := by decide +kernel
  closed := by decide

end SupervisorConfig

end Rsupervisord
