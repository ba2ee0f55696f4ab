import Rsupervisord.Logging.Destination
import Rsupervisord.Manager.Cron

/-!
# Logs of a program

The stores to which the log pumps of a program append, and those that its log functions read. The
write side parses the configured destination into a tree of backends (`build_process_log_backends`);
the read side uses the configured string as a path and tests the capture mode on its own.

A channel is captured when its pump runs and one of its destinations is a file that could be opened
or the in-memory log. `reads_where_written_iff` says when the log functions consult a store to which
the pump of a captured channel appends: when the program is captured in memory only, or when the
configured string is itself the plain path of an existing file.

Files are regular files, so that a path exists when it names one.

## Main results

* `ProcessProgram.readLog_eq`, `ProcessProgram.tailLog_eq`: reading consults one store.
* `ProcessProgram.clearLogs_spec`: clearing clears that store.
* `ProcessProgram.reads_where_written_iff`: when it is one to which the pump appends.
-/

namespace Rsupervisord

namespace ProgramLogsConfig

variable (l : ProgramLogsConfig)

/-- `is_file_disabled`: the configured string is a keyword for no output. -/
def isFileDisabled (filePath : Option String) : Bool :=
  if l.enabled = .off then true
  else
    match filePath with
    | some path =>
        let trimmed := Text.trim path
        trimmed.isEmpty ||
          ["/dev/null", "null", "none", "off"].any fun x => Text.eqIgnoreAsciiCase x trimmed
    | none => false

/-- `is_stdout_disabled`. -/
def isStdoutDisabled : Bool :=
  if l.enabled = .off then true
  else if l.enabled = .inMemoryOnly then false
  else if l.stdoutSyslog then false
  else l.isFileDisabled l.stdout

/-- `is_stderr_disabled`. -/
def isStderrDisabled : Bool :=
  if l.enabled = .off then true
  else if l.enabled = .inMemoryOnly then false
  else if l.stderrSyslog then false
  else l.isFileDisabled l.stderr

end ProgramLogsConfig

/-- `attach_syslog_backend`: the backend with the local syslog beside it, or unchanged when that
cannot be opened. -/
def attachSyslogBackend (sinks : LogSinks) (base : Option LogBackend) : Option LogBackend :=
  match sinks.openSyslog .localSocket with
  | .ok () =>
      match base with
      | some b => some (.composite [b, .syslog .localSocket])
      | none => some (.syslog .localSocket)
  | .error _ => base

/-- The destination of a configured string; the in-memory log without one, or when it cannot be
parsed. -/
def configuredDestination (configured : Option String) : LogDestination :=
  match configured with
  | some s =>
      match LogDestination.parse s with
      | .ok destination => destination
      | .error _ => .auto
  | none => .auto

/-- The backend of a destination; none when it cannot be built. -/
def builtBackend (sinks : LogSinks) (opts : BackendBuildOptions) (d : LogDestination) :
    Option LogBackend :=
  match d.buildBackend sinks opts with
  | .ok backend => backend
  | .error _ => none

/-- `build_process_log_backends` for programs that are captured in memory only. -/
def buildMemoryLogBackends (sinks : LogSinks) (logs : ProgramLogsConfig) :
    Option LogBackend × Option LogBackend :=
  let outBackend := if logs.isStdoutDisabled then none else some (.memory .stdout)
  let outBackend :=
    if logs.stdoutSyslog ∧ ¬ logs.isStdoutDisabled then attachSyslogBackend sinks outBackend
    else outBackend
  let errBackend :=
    if logs.isStderrDisabled then none
    else if logs.redirectStderr then
      if logs.stderrSyslog ∧ ¬ logs.stdoutSyslog then attachSyslogBackend sinks outBackend
      else outBackend
    else if logs.stderrSyslog then attachSyslogBackend sinks (some (.memory .stderr))
    else some (.memory .stderr)
  (outBackend, errBackend)

/-- `build_process_log_backends` for the other programs. -/
def buildDestinationLogBackends (sinks : LogSinks) (logs : ProgramLogsConfig) :
    Option LogBackend × Option LogBackend :=
  let stdoutDest := configuredDestination logs.stdout
  let stdoutOpts : BackendBuildOptions :=
    ⟨logs.effectiveStdoutMaxBytes, logs.effectiveStdoutBackups, logs.stdoutTimestampSuffix⟩
  let stdoutBackend :=
    if logs.isStdoutDisabled then none else builtBackend sinks stdoutOpts stdoutDest
  let stdoutBackend :=
    if logs.stdoutSyslog ∧ ¬ logs.isStdoutDisabled ∧ ¬ stdoutDest.containsSyslog then
      attachSyslogBackend sinks stdoutBackend
    else stdoutBackend
  let stderrBackend :=
    if logs.isStderrDisabled then none
    else if logs.redirectStderr then
      if logs.stderrSyslog ∧ ¬ logs.stdoutSyslog ∧ ¬ stdoutDest.containsSyslog then
        attachSyslogBackend sinks stdoutBackend
      else stdoutBackend
    else
      let stderrDest := configuredDestination logs.stderr
      let stderrOpts : BackendBuildOptions :=
        ⟨logs.effectiveStderrMaxBytes, logs.effectiveStderrBackups, logs.stderrTimestampSuffix⟩
      let backend := builtBackend sinks stderrOpts stderrDest
      if logs.stderrSyslog ∧ ¬ stderrDest.containsSyslog then attachSyslogBackend sinks backend
      else backend
  (stdoutBackend, stderrBackend)

/-- `build_process_log_backends`. -/
def buildProcessLogBackends (sinks : LogSinks) (config : ProgramConfig) :
    Option LogBackend × Option LogBackend :=
  if config.logs.isInMemoryOnly then buildMemoryLogBackends sinks config.logs
  else buildDestinationLogBackends sinks config.logs

/-- The stored logs: the files, the in-memory logs and the lines for live display. -/
structure LogStorage where
  files : Files
  inMemoryRotator : InMemoryLogRotator
  ringBuffer : List String

namespace LogStorage

variable (st : LogStorage)

/-- A file is written anew without contents. -/
def truncateFile (path : String) : LogStorage :=
  { st with files := fun q => if q = path then some [] else st.files q }

/-- The in-memory log of a channel is cleared. -/
def clearMemory : LogChannel → LogStorage
  | .stdout => { st with
      inMemoryRotator := { st.inMemoryRotator with stdout := st.inMemoryRotator.stdout.clear } }
  | .stderr => { st with
      inMemoryRotator := { st.inMemoryRotator with stderr := st.inMemoryRotator.stderr.clear } }

/-- The configured file of a channel is truncated when it exists. -/
def truncateExisting (configured : Option String) : LogStorage :=
  match configured with
  | some path => if (st.files path).isSome then st.truncateFile path else st
  | none => st

/-- `tail_log` on a store. -/
def tailStore (store : Option LogStore) (offset length : ℤ) : String × ℤ × Bool :=
  match store with
  | some (.file path) => LogFileReader.tailBytes st.files path offset length
  | some (.memory channel) => st.inMemoryRotator.tailBytes channel offset length
  | none => ("", offset, false)

/-- The store holds no bytes. -/
def IsEmpty : LogStore → Prop
  | .file path => st.files path = some []
  | .memory channel => (st.inMemoryRotator.channel channel).ring.byteSize = 0

end LogStorage

namespace LogBackend

mutual

/-- `clear` of a backend. -/
def clear : LogBackend → LogStorage → LogStorage
  | .rotator path _ _ _, st => st.truncateFile path
  | .memory channel, st => st.clearMemory channel
  | .composite backends, st => clearAll backends st
  | _, st => st

/-- `clear` of a list of backends. -/
def clearAll : List LogBackend → LogStorage → LogStorage
  | [], st => st
  | b :: backends, st => clearAll backends (b.clear st)

end

end LogBackend

/-- A program with the log backends of its channels. -/
structure ProcessProgram where
  config : ProgramConfig
  stdoutBackend : Option LogBackend
  stderrBackend : Option LogBackend

namespace ProcessProgram

/-- The program of a configuration. -/
def new (sinks : LogSinks) (config : ProgramConfig) : ProcessProgram where
  config := config
  stdoutBackend := (buildProcessLogBackends sinks config).1
  stderrBackend := (buildProcessLogBackends sinks config).2

variable (p : ProcessProgram)

/-- The error of a failed log read. -/
def readLogFailed (error : String) : ProgramError := .readLogFailed p.config.name error

/-- The configured string of a channel. -/
def configuredPath : LogChannel → Option String
  | .stdout => p.config.logs.stdout
  | .stderr => p.config.logs.stderr

/-- `resolve_channel_path`: the configured path of a channel; a redirected stderr has none. -/
def resolveChannelPath : LogChannel → Except ProgramError (Option String)
  | .stderr =>
      if p.config.logs.redirectStderr then .error (p.readLogFailed "no log file")
      else .ok p.config.logs.stderr
  | .stdout => .ok p.config.logs.stdout

/-- `read_log`. -/
def readLog (st : LogStorage) (channel : LogChannel) (offset length : ℤ) :
    Except ProgramError (String × ℤ × Bool) :=
  if p.config.logs.isInMemoryOnly then
    if channel = .stderr ∧ p.config.logs.redirectStderr then
      .error (p.readLogFailed "no log file")
    else if offset < 0 ∧ length ≠ 0 then
      .error (p.readLogFailed "length must be 0 when offset is negative")
    else if offset ≥ 0 ∧ length < 0 then
      .error (p.readLogFailed "length cannot be negative")
    else .ok (st.inMemoryRotator.readBytes channel offset length)
  else
    match p.resolveChannelPath channel with
    | .error e => .error e
    | .ok (some path) =>
        if (st.files path).isSome then
          match LogFileReader.readBytes st.files path offset length with
          | .ok s => .ok (s, 0, false)
          | .error e => .error (p.readLogFailed e.display)
        else if (st.inMemoryRotator.channel channel).ring.byteSize > 0 then
          .ok (st.inMemoryRotator.readBytes channel offset length)
        else .error (p.readLogFailed "no log file")
    | .ok none =>
        if channel = .stdout then .ok (st.inMemoryRotator.readBytes channel offset length)
        else .error (p.readLogFailed "no log file")

/-- `tail_log`. -/
def tailLog (st : LogStorage) (channel : LogChannel) (offset length : ℤ) :
    Except ProgramError (String × ℤ × Bool) :=
  if channel = .stderr ∧ p.config.logs.redirectStderr then .ok ("", offset, false)
  else if p.config.logs.isInMemoryOnly then
    .ok (st.inMemoryRotator.tailBytes channel offset length)
  else
    match p.resolveChannelPath channel with
    | .error e => .error e
    | .ok (some path) =>
        if (st.files path).isSome then .ok (LogFileReader.tailBytes st.files path offset length)
        else if (st.inMemoryRotator.channel channel).ring.byteSize > 0 then
          .ok (st.inMemoryRotator.tailBytes channel offset length)
        else .ok ("", offset, false)
    | .ok none =>
        if channel = .stdout then .ok (st.inMemoryRotator.tailBytes channel offset length)
        else .ok ("", offset, false)

/-- `clear_logs`. -/
def clearLogs (st : LogStorage) : LogStorage :=
  let st := { st with ringBuffer := [] }
  let st := (st.clearMemory .stdout).clearMemory .stderr
  let st := p.stdoutBackend.elim st fun b => b.clear st
  let st := p.stderrBackend.elim st fun b => b.clear st
  let st := st.truncateExisting p.config.logs.stdout
  st.truncateExisting p.config.logs.stderr

/-- The log pump of a channel runs. A redirected stderr goes to the pump of stdout. -/
def hasPump : LogChannel → Bool
  | .stdout => !p.config.logs.isStdoutDisabled
  | .stderr => !p.config.logs.isStderrDisabled && !p.config.logs.redirectStderr

/-- The backend to which the log pump of a channel writes. -/
def backend : LogChannel → Option LogBackend
  | .stdout => p.stdoutBackend
  | .stderr => p.stderrBackend

/-- The stores to which the log pump of a channel appends. -/
def pumpStores (channel : LogChannel) : List LogStore :=
  if p.hasPump channel then (p.backend channel).elim [] LogBackend.stores else []

/-- The pump of the channel runs and has a store to write to that can be read: a file, or the
in-memory log of a program that is captured in memory or of an `AUTO` destination. -/
def IsCaptured (channel : LogChannel) : Prop :=
  p.hasPump channel ∧
    (p.config.logs.isInMemoryOnly ∨
      (configuredDestination (p.configuredPath channel)).containsAuto ∨
      ∃ path, .file path ∈ p.pumpStores channel)

/-! ## What the log functions consult -/

/-- The store that the log functions consult for a channel. -/
def consulted (st : LogStorage) (channel : LogChannel) : Option LogStore :=
  if channel = .stderr ∧ p.config.logs.redirectStderr then none
  else if p.config.logs.isInMemoryOnly then some (.memory channel)
  else
    match p.configuredPath channel with
    | some path =>
        if (st.files path).isSome then some (.file path)
        else if (st.inMemoryRotator.channel channel).ring.byteSize > 0 then some (.memory channel)
        else none
    | none => if channel = .stdout then some (.memory channel) else none

/-- `read_log` on a store. Only a program that is captured in memory checks the arguments of a read
from memory. -/
def readStore (st : LogStorage) (store : Option LogStore) (offset length : ℤ) :
    Except ProgramError (String × ℤ × Bool) :=
  match store with
  | some (.file path) =>
      match LogFileReader.readBytes st.files path offset length with
      | .ok s => .ok (s, 0, false)
      | .error e => .error (p.readLogFailed e.display)
  | some (.memory channel) =>
      if p.config.logs.isInMemoryOnly ∧ offset < 0 ∧ length ≠ 0 then
        .error (p.readLogFailed "length must be 0 when offset is negative")
      else if p.config.logs.isInMemoryOnly ∧ offset ≥ 0 ∧ length < 0 then
        .error (p.readLogFailed "length cannot be negative")
      else .ok (st.inMemoryRotator.readBytes channel offset length)
  | none => .error (p.readLogFailed "no log file")

variable {p} {st : LogStorage} {channel : LogChannel}

/-- The resolved path of a channel that is not a redirected stderr. -/
theorem resolveChannelPath_eq (h : ¬ (channel = .stderr ∧ p.config.logs.redirectStderr)) :
    p.resolveChannelPath channel = .ok (p.configuredPath channel) := by
  cases channel with
  | stdout => rfl
  | stderr =>
      have hredirect : ¬ p.config.logs.redirectStderr := fun hr => h ⟨rfl, hr⟩
      simp only [resolveChannelPath, if_neg hredirect, configuredPath]

/-- `read_log` reads the consulted store. -/
theorem readLog_eq (offset length : ℤ) :
    p.readLog st channel offset length =
      p.readStore st (p.consulted st channel) offset length := by
  unfold readLog consulted
  by_cases hredirect : channel = .stderr ∧ p.config.logs.redirectStderr
  · obtain ⟨rfl, hr⟩ := hredirect
    by_cases hmemory : p.config.logs.isInMemoryOnly
    · simp [hmemory, hr, readStore]
    · simp [hmemory, hr, readStore, resolveChannelPath]
  · by_cases hmemory : p.config.logs.isInMemoryOnly
    · simp only [hmemory, if_true, if_neg hredirect, readStore, true_and]
    · rw [if_neg hmemory, if_neg hmemory, if_neg hredirect, resolveChannelPath_eq hredirect]
      cases p.configuredPath channel with
      | none => by_cases hout : channel = .stdout <;> simp [hout, readStore, hmemory]
      | some path =>
          by_cases hexists : (st.files path).isSome
          · simp [hexists, readStore]
          · by_cases hsize : (st.inMemoryRotator.channel channel).ring.byteSize > 0
            · simp [hexists, hsize, readStore, hmemory]
            · simp [hexists, hsize, readStore]

/-- `tail_log` reads the consulted store. -/
theorem tailLog_eq (offset length : ℤ) :
    p.tailLog st channel offset length =
      .ok (st.tailStore (p.consulted st channel) offset length) := by
  unfold tailLog consulted
  by_cases hredirect : channel = .stderr ∧ p.config.logs.redirectStderr
  · rw [if_pos hredirect, if_pos hredirect]
    rfl
  · rw [if_neg hredirect, if_neg hredirect]
    by_cases hmemory : p.config.logs.isInMemoryOnly
    · rw [if_pos hmemory, if_pos hmemory]
      rfl
    · rw [if_neg hmemory, if_neg hmemory, resolveChannelPath_eq hredirect]
      cases p.configuredPath channel with
      | none => by_cases hout : channel = .stdout <;> simp [hout, LogStorage.tailStore]
      | some path =>
          by_cases hexists : (st.files path).isSome
          · simp [hexists, LogStorage.tailStore]
          · by_cases hsize : (st.inMemoryRotator.channel channel).ring.byteSize > 0
            · simp [hexists, hsize, LogStorage.tailStore]
            · simp [hexists, hsize, LogStorage.tailStore]

/-! ## Clearing -/

end ProcessProgram

namespace LogBackend

variable {I : LogStorage → Prop}

mutual

/-- What truncating a file and clearing a channel preserve, clearing a backend preserves. -/
theorem clear_invariant (hfile : ∀ st path, I st → I (st.truncateFile path))
    (hmemory : ∀ st channel, I st → I (st.clearMemory channel)) :
    ∀ (b : LogBackend) (st : LogStorage), I st → I (b.clear st)
  | .null, _, hI => hI
  | .stdIo _, _, hI => hI
  | .rotator path _ _ _, st, hI => hfile st path hI
  | .syslog _, _, hI => hI
  | .memory channel, st, hI => hmemory st channel hI
  | .composite backends, st, hI => clearAll_invariant hfile hmemory backends st hI

theorem clearAll_invariant (hfile : ∀ st path, I st → I (st.truncateFile path))
    (hmemory : ∀ st channel, I st → I (st.clearMemory channel)) :
    ∀ (backends : List LogBackend) (st : LogStorage), I st → I (clearAll backends st)
  | [], _, hI => hI
  | b :: backends, st, hI =>
      clearAll_invariant hfile hmemory backends _ (clear_invariant hfile hmemory b st hI)

end

end LogBackend

namespace LogStorage

variable {st : LogStorage} {store : LogStore} {path : String} {channel : LogChannel}

/-- Truncating a file fills no store. -/
theorem IsEmpty.truncateFile (h : st.IsEmpty store) (path : String) :
    (st.truncateFile path).IsEmpty store := by
  cases store with
  | file q =>
      show (if q = path then some [] else st.files q) = some []
      split
      next => rfl
      next => exact h
  | memory channel => exact h

/-- A cleared in-memory log holds no bytes. -/
theorem byteSize_clear (c : InMemoryChannelRotator) : c.clear.ring.byteSize = 0 := rfl

/-- Clearing a channel fills no store. -/
theorem IsEmpty.clearMemory (h : st.IsEmpty store) (channel : LogChannel) :
    (st.clearMemory channel).IsEmpty store := by
  cases store with
  | file q =>
      cases channel with
      | stdout => exact h
      | stderr => exact h
  | memory channel' =>
      cases channel <;> cases channel'
      · exact byteSize_clear _
      · exact h
      · exact h
      · exact byteSize_clear _

/-- Clearing a backend fills no store. -/
theorem IsEmpty.clear (h : st.IsEmpty store) (b : LogBackend) : (b.clear st).IsEmpty store :=
  LogBackend.clear_invariant (I := fun st => st.IsEmpty store) (fun _ path h => h.truncateFile path)
    (fun _ channel h => h.clearMemory channel) b st h

/-- Truncating a configured file fills no store. -/
theorem IsEmpty.truncateExisting (h : st.IsEmpty store) (configured : Option String) :
    (st.truncateExisting configured).IsEmpty store := by
  cases configured with
  | none => exact h
  | some path =>
      show (if (st.files path).isSome then st.truncateFile path else st).IsEmpty store
      split
      next => exact h.truncateFile path
      next => exact h

/-- A cleared channel is empty. -/
theorem isEmpty_clearMemory (st : LogStorage) (channel : LogChannel) :
    (st.clearMemory channel).IsEmpty (.memory channel) := by
  cases channel with
  | stdout => exact byteSize_clear _
  | stderr => exact byteSize_clear _

/-- A truncated file is empty. -/
theorem isEmpty_truncateExisting (h : (st.files path).isSome) :
    (st.truncateExisting (some path)).IsEmpty (.file path) := by
  show (if (st.files path).isSome then st.truncateFile path else st).files path = some []
  rw [if_pos h]
  exact if_pos rfl

/-- Truncating a file removes none. -/
theorem isSome_truncateFile (h : (st.files path).isSome) (q : String) :
    ((st.truncateFile q).files path).isSome := by
  show (if path = q then some [] else st.files path).isSome
  split
  next => rfl
  next => exact h

/-- Clearing a backend removes no file. -/
theorem isSome_clear (h : (st.files path).isSome) (b : LogBackend) :
    ((b.clear st).files path).isSome := by
  refine LogBackend.clear_invariant (I := fun st => (st.files path).isSome)
    (fun _ q h => isSome_truncateFile h q) (fun _ channel h => ?_) b st h
  cases channel with
  | stdout => exact h
  | stderr => exact h

/-- Truncating a configured file removes none. -/
theorem isSome_truncateExisting (h : (st.files path).isSome) (configured : Option String) :
    ((st.truncateExisting configured).files path).isSome := by
  cases configured with
  | none => exact h
  | some q =>
      show ((if (st.files q).isSome then st.truncateFile q else st).files path).isSome
      split
      next => exact isSome_truncateFile h q
      next => exact h

end LogStorage

namespace ProcessProgram

variable {p : ProcessProgram} {st : LogStorage} {channel : LogChannel}

/-- `clear_logs` clears an in-memory log. -/
theorem isEmpty_clearLogs_memory : (p.clearLogs st).IsEmpty (.memory channel) := by
  unfold clearLogs
  -- The in-memory logs are cleared first, and nothing fills them again.
  have hcleared : ∀ st : LogStorage,
      ((st.clearMemory .stdout).clearMemory .stderr).IsEmpty (.memory channel) := by
    intro st
    cases channel with
    | stdout => exact (LogStorage.isEmpty_clearMemory st .stdout).clearMemory .stderr
    | stderr => exact LogStorage.isEmpty_clearMemory _ .stderr
  have helim : ∀ (b : Option LogBackend) (st : LogStorage), st.IsEmpty (.memory channel) →
      (b.elim st fun b => b.clear st).IsEmpty (.memory channel) := by
    intro b st h
    cases b with
    | none => exact h
    | some b => exact h.clear b
  exact ((helim _ _ (helim _ _ (hcleared _))).truncateExisting _).truncateExisting _

/-- `clear_logs` clears an existing configured file. -/
theorem isEmpty_clearLogs_file {path : String} (hpath : p.configuredPath channel = some path)
    (hexists : (st.files path).isSome) : (p.clearLogs st).IsEmpty (.file path) := by
  unfold clearLogs
  have helim : ∀ (b : Option LogBackend) (st : LogStorage), (st.files path).isSome →
      ((b.elim st fun b => b.clear st).files path).isSome := by
    intro b st h
    cases b with
    | none => exact h
    | some b => exact LogStorage.isSome_clear h b
  have hbackends := helim p.stderrBackend _ (helim p.stdoutBackend
    ((({ st with ringBuffer := [] } : LogStorage).clearMemory .stdout).clearMemory .stderr) hexists)
  cases channel with
  | stdout =>
      have hstdout : p.config.logs.stdout = some path := hpath
      rw [hstdout]
      exact (LogStorage.isEmpty_truncateExisting hbackends).truncateExisting _
  | stderr =>
      have hstderr : p.config.logs.stderr = some path := hpath
      rw [hstderr]
      exact LogStorage.isEmpty_truncateExisting (LogStorage.isSome_truncateExisting hbackends _)

/-- A consulted file is the configured one, and it exists. -/
theorem consulted_file {path : String} (h : p.consulted st channel = some (.file path)) :
    p.config.logs.isInMemoryOnly = false ∧ p.configuredPath channel = some path ∧
      (st.files path).isSome := by
  unfold consulted at h
  split at h
  next => cases h
  next =>
    split at h
    next => cases h
    next hmemory =>
      split at h
      next q hq =>
        split at h
        next hexists =>
          obtain rfl := LogStore.file.inj (Option.some.inj h)
          exact ⟨Bool.eq_false_iff.mpr hmemory, hq, hexists⟩
        next =>
          split at h
          next => cases h
          next => cases h
      next =>
        split at h
        next => cases h
        next => cases h

/-- `clear_logs` clears the consulted store. -/
theorem clearLogs_spec : ∀ store ∈ p.consulted st channel, (p.clearLogs st).IsEmpty store := by
  intro store hstore
  cases store with
  | memory channel' => exact isEmpty_clearLogs_memory
  | file path =>
      obtain ⟨_, hpath, hexists⟩ := consulted_file hstore
      exact isEmpty_clearLogs_file hpath hexists

/-! ## Where the pumps write -/

variable {sinks : LogSinks} {config : ProgramConfig}

@[simp]
theorem new_config : (new sinks config).config = config := rfl

/-- Syslog is no store. -/
theorem stores_attachSyslogBackend (base : Option LogBackend) :
    (attachSyslogBackend sinks base).elim [] LogBackend.stores =
      base.elim [] LogBackend.stores := by
  unfold attachSyslogBackend
  split
  next =>
    cases base with
    | none => rfl
    | some b => exact List.append_nil b.stores
  next => rfl

/-- The pumps of a program that is captured in memory append to its in-memory logs. -/
theorem pumpStores_of_memory (hmemory : config.logs.isInMemoryOnly = true)
    (hpump : (new sinks config).hasPump channel = true) :
    (new sinks config).pumpStores channel = [.memory channel] := by
  unfold pumpStores
  rw [if_pos hpump]
  cases channel with
  | stdout =>
      have hdisabled : config.logs.isStdoutDisabled = false := by simpa [hasPump, new] using hpump
      show (buildProcessLogBackends sinks config).1.elim [] LogBackend.stores = _
      simp only [buildProcessLogBackends, hmemory, if_true, buildMemoryLogBackends, hdisabled,
        Bool.false_eq_true, if_false]
      split
      next => rw [stores_attachSyslogBackend]; rfl
      next => rfl
  | stderr =>
      obtain ⟨hdisabled, hredirect⟩ : config.logs.isStderrDisabled = false ∧
          config.logs.redirectStderr = false := by simpa [hasPump, new] using hpump
      show (buildProcessLogBackends sinks config).2.elim [] LogBackend.stores = _
      simp only [buildProcessLogBackends, hmemory, if_true, buildMemoryLogBackends, hdisabled,
        hredirect, Bool.false_eq_true, if_false]
      split
      next => rw [stores_attachSyslogBackend]; rfl
      next => rfl

/-- The other pumps append to the stores of the backend of the configured destination. -/
theorem pumpStores_of_destination (hmemory : config.logs.isInMemoryOnly = false)
    (hpump : (new sinks config).hasPump channel = true) :
    ∃ opts, (new sinks config).pumpStores channel =
      (builtBackend sinks opts
        (configuredDestination ((new sinks config).configuredPath channel))).elim []
          LogBackend.stores := by
  unfold pumpStores
  rw [if_pos hpump]
  cases channel with
  | stdout =>
      have hdisabled : config.logs.isStdoutDisabled = false := by simpa [hasPump, new] using hpump
      refine ⟨⟨config.logs.effectiveStdoutMaxBytes, config.logs.effectiveStdoutBackups,
        config.logs.stdoutTimestampSuffix⟩, ?_⟩
      show (buildProcessLogBackends sinks config).1.elim [] LogBackend.stores = _
      simp only [buildProcessLogBackends, hmemory, Bool.false_eq_true, if_false,
        buildDestinationLogBackends, hdisabled]
      split
      next => rw [stores_attachSyslogBackend]; rfl
      next => rfl
  | stderr =>
      obtain ⟨hdisabled, hredirect⟩ : config.logs.isStderrDisabled = false ∧
          config.logs.redirectStderr = false := by simpa [hasPump, new] using hpump
      refine ⟨⟨config.logs.effectiveStderrMaxBytes, config.logs.effectiveStderrBackups,
        config.logs.stderrTimestampSuffix⟩, ?_⟩
      show (buildProcessLogBackends sinks config).2.elim [] LogBackend.stores = _
      simp only [buildProcessLogBackends, hmemory, Bool.false_eq_true, if_false,
        buildDestinationLogBackends, hdisabled, hredirect]
      split
      next => rw [stores_attachSyslogBackend]; rfl
      next => rfl

/-- Unless the program is captured in memory only, its pumps append to files with plain paths and to
nothing else. -/
theorem mem_pumpStores (hmemory : config.logs.isInMemoryOnly = false) {store : LogStore}
    (hstore : store ∈ (new sinks config).pumpStores channel) :
    ∃ path, store = .file path ∧ LogDestination.IsPlainPath path := by
  have hpump : (new sinks config).hasPump channel = true := by
    by_contra hnot
    rw [pumpStores, if_neg hnot] at hstore
    cases hstore
  obtain ⟨opts, hstores⟩ := pumpStores_of_destination hmemory hpump
  rw [hstores] at hstore
  unfold builtBackend at hstore
  split at hstore
  next backend hbackend =>
    cases backend with
    | none => cases hstore
    | some b =>
        obtain ⟨path, hpath, rfl⟩ := LogDestination.mem_stores_buildBackend hbackend hstore
        refine ⟨path, rfl, ?_⟩
        -- The destination was parsed, as the fallback has no files.
        unfold configuredDestination at hpath
        split at hpath
        next s hs =>
          split at hpath
          next d hd => exact LogDestination.mem_filePaths_parse hd hpath
          next => cases hpath
        next => cases hpath
  next => cases hstore

/-- A captured channel with a plain path is written to that file. -/
theorem mem_pumpStores_of_isPlainPath (hmemory : config.logs.isInMemoryOnly = false)
    (hcaptured : (new sinks config).IsCaptured channel) {path : String}
    (hpath : (new sinks config).configuredPath channel = some path)
    (hplain : LogDestination.IsPlainPath path) :
    .file path ∈ (new sinks config).pumpStores channel := by
  obtain ⟨hpump, hstore⟩ := hcaptured
  obtain ⟨opts, hstores⟩ := pumpStores_of_destination hmemory hpump
  have hdest : configuredDestination (some path) = .file path := by
    simp only [configuredDestination, hplain.parse_eq]
  rw [hpath, hdest] at hstores hstore
  rw [hstores] at hstore ⊢
  rcases hstore with hm | hauto | ⟨q, hq⟩
  · rw [new_config, hmemory] at hm
    cases hm
  · cases hauto
  · -- Some file was opened, and the destination has no other one.
    simp only [builtBackend, LogDestination.buildBackend] at hq ⊢
    cases hopen : sinks.openRotator path with
    | error e =>
        rw [hopen] at hq
        cases hq
    | ok u => exact List.mem_singleton_self _

/-! ## Reading where it is written -/

/-- When the log functions of a program consult a store to which the pump of a captured channel
appends. Reading and tailing read the consulted store, and clearing clears it. -/
theorem reads_where_written_iff (sinks : LogSinks) (config : ProgramConfig) (st : LogStorage)
    (channel : LogChannel) (hcaptured : (new sinks config).IsCaptured channel) :
    (∀ offset length, (new sinks config).readLog st channel offset length =
        (new sinks config).readStore st ((new sinks config).consulted st channel) offset length) ∧
      (∀ offset length, (new sinks config).tailLog st channel offset length =
        .ok (st.tailStore ((new sinks config).consulted st channel) offset length)) ∧
      (∀ store ∈ (new sinks config).consulted st channel,
        ((new sinks config).clearLogs st).IsEmpty store) ∧
      ((∃ store ∈ (new sinks config).consulted st channel,
          store ∈ (new sinks config).pumpStores channel) ↔
        config.logs.isInMemoryOnly = true ∨
          ∃ path, (new sinks config).configuredPath channel = some path ∧
            LogDestination.IsPlainPath path ∧ (st.files path).isSome) := by
  refine ⟨readLog_eq, tailLog_eq, clearLogs_spec, ?_⟩
  have hredirect : ¬ (channel = .stderr ∧ config.logs.redirectStderr) := by
    rintro ⟨rfl, hr⟩
    simpa [hasPump, new, hr] using hcaptured.1
  cases hmemory : config.logs.isInMemoryOnly with
  | true =>
      refine iff_of_true ⟨.memory channel, ?_, ?_⟩ (.inl rfl)
      · show consulted (new sinks config) st channel = _
        rw [consulted, new_config, if_neg hredirect, if_pos hmemory]
      · rw [pumpStores_of_memory hmemory hcaptured.1]
        exact List.mem_singleton_self _
  | false =>
      simp only [Bool.false_eq_true, false_or]
      constructor
      · rintro ⟨store, hconsulted, hstore⟩
        obtain ⟨path, rfl, hplain⟩ := mem_pumpStores hmemory hstore
        obtain ⟨_, hpath, hexists⟩ := consulted_file hconsulted
        exact ⟨path, hpath, hplain, hexists⟩
      · rintro ⟨path, hpath, hplain, hexists⟩
        refine ⟨.file path, ?_, mem_pumpStores_of_isPlainPath hmemory hcaptured hpath hplain⟩
        show consulted (new sinks config) st channel = _
        rw [consulted, new_config, if_neg hredirect, if_neg (Bool.eq_false_iff.mp hmemory), hpath]
        exact if_pos hexists

/-- Sinks that can all be opened. -/
def openSinks : LogSinks where
  openRotator _ := .ok ()
  openSyslog _ := .ok ()

/-- A program with the given destination of stdout. -/
def loggingTo (stdout : Option String) : ProgramConfig :=
  { ProgramConfig.new "app" "run" with logs := { stdout } }

/-- No bytes are kept yet, in one empty file `app.log` and in memory. -/
def emptyStorage : LogStorage where
  files path := if path = "app.log" then some [] else none
  inMemoryRotator := ⟨.withTotalCapacity 1024 0, .withTotalCapacity 1024 0⟩
  ringBuffer := []

/-- A program that logs to an existing file reads that file. -/
theorem reads_where_written_file :
    ∃ store ∈ (new openSinks (loggingTo "app.log")).consulted emptyStorage .stdout,
      store ∈ (new openSinks (loggingTo "app.log")).pumpStores .stdout := by
  have hplain : LogDestination.IsPlainPath "app.log" :=
    ⟨by decide, by decide, by decide, by decide, by decide⟩
  have hcaptured : (new openSinks (loggingTo "app.log")).IsCaptured .stdout := by
    refine ⟨by decide, .inr (.inr ⟨"app.log", ?_⟩)⟩
    decide
  exact (reads_where_written_iff openSinks (loggingTo "app.log") emptyStorage .stdout
    hcaptured).2.2.2.mpr (.inr ⟨"app.log", rfl, hplain, rfl⟩)

/-- A program that logs to a file and to the terminal is captured, and its pump appends to the file.
The log functions take the whole list for the path of one file, which does not exist. -/
theorem list_not_read_where_written :
    (loggingTo "app.log, /dev/stdout").validate ⟨fun _ => .ok (), fun _ _ => none⟩ = .ok () ∧
      (new openSinks (loggingTo "app.log, /dev/stdout")).IsCaptured .stdout ∧
      .file "app.log" ∈ (new openSinks (loggingTo "app.log, /dev/stdout")).pumpStores .stdout ∧
      ¬ ∃ store ∈ (new openSinks (loggingTo "app.log, /dev/stdout")).consulted emptyStorage .stdout,
        store ∈ (new openSinks (loggingTo "app.log, /dev/stdout")).pumpStores .stdout := by
  refine ⟨by decide +kernel, ⟨by decide +kernel, .inr (.inr ⟨"app.log", by decide +kernel⟩)⟩,
    by decide +kernel, ?_⟩
  rintro ⟨store, hstore, -⟩
  have hnone : (new openSinks (loggingTo "app.log, /dev/stdout")).consulted emptyStorage .stdout =
      none := by decide +kernel
  rw [hnone] at hstore
  cases hstore

end ProcessProgram

end Rsupervisord
