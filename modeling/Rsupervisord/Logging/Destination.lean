import Rsupervisord.Logging.InMemoryRotator
import Rsupervisord.Program.State
import Rsupervisord.Support.Except

/-!
# Log destinations and log backends

`LogDestination::parse`: the destination of a log from its configured string, a keyword, a syslog
address or a path, or several of these between commas; and `LogDestination::build_backend`, the tree
of backends that a destination stands for.

A backend appends to log stores, which can be read again: files and the in-memory log of a channel.
Opening a file and a syslog socket may fail; `LogSinks` says what comes of it. The severity,
facility and tag of syslog messages are left out, as no store keeps them.

## Main results

* `mem_filePaths_parse`: the files of a destination are its tokens that are plain paths.
* `mem_stores_buildBackend`: a backend appends to files of its destination only.
-/

namespace Rsupervisord

/-- Transport of a remote syslog target. -/
inductive SyslogProto
  | udp
  | tcp
  deriving DecidableEq, Repr

/-- Where syslog messages go. -/
inductive SyslogTarget
  /-- The socket of the local daemon. -/
  | localSocket
  | remote (proto : SyslogProto) (host : String) (port : ℕ)
  deriving DecidableEq, Repr

/-- A parsed log destination. -/
inductive LogDestination
  /-- The in-memory log. -/
  | auto
  /-- Discarded. -/
  | null
  | devStdout
  | devStderr
  | file (path : String)
  | syslog (target : SyslogTarget)
  /-- Each destination of a list. -/
  | composite (list : List LogDestination)
  deriving Repr

namespace LogDestination

/-- The keywords of a destination, in lower case. -/
def keyword (lower : String) : Option LogDestination :=
  if lower ∈ ["none", "off", "null", "/dev/null"] then some .null
  else if lower ∈ ["auto", "memory"] then some .auto
  else if lower = "/dev/stdout" then some .devStdout
  else if lower = "/dev/stderr" then some .devStderr
  else if lower = "syslog" then some (.syslog .localSocket)
  else none

/-- The protocol of a remote address and the rest of it. A word before the first colon that is not a
protocol is an error. -/
def syslogProto (address : String) : Except ProgramError (SyslogProto × String) :=
  match Text.stripPrefix "udp:" address with
  | some rest => .ok (.udp, rest)
  | none =>
      match Text.stripPrefix "tcp:" address with
      | some rest => .ok (.tcp, rest)
      | none =>
          match Text.splitOnce ':' address with
          | some (first, _) =>
              if ¬ (address.toList.all fun c => c.isDigit || c = '.' || c = ':') ∧
                  '.' ∉ first.toList ∧ first.toList.all Char.isAlpha then
                .error (.configError
                  (s!"Unsupported syslog protocol '{first}' in 'syslog@{address}'. " ++
                    "Only 'udp' and 'tcp' are supported."))
              else .ok (.udp, address)
          | none => .ok (.udp, address)

/-- The host and the port of a remote address; the port of the protocol when there is none. -/
def syslogHostPort (address : String) (proto : SyslogProto) (hostPort : String) :
    Except ProgramError (String × ℕ) :=
  match Text.rsplitOnce ':' hostPort with
  | some (host, portText) =>
      match Text.parseUnsigned (2 ^ 16) portText with
      | some port => .ok (Text.trim host, port)
      | none => .error (.configError
          s!"Invalid port '{portText}' in syslog destination 'syslog@{address}'")
  | none => .ok (Text.trim hostPort, match proto with | .udp => 514 | .tcp => 6514)

/-- `parse_syslog_remote`: an address `[proto:]host[:port]`. -/
def parseSyslogRemote (address : String) : Except ProgramError LogDestination := do
  let (proto, rest) ← syslogProto address
  let (host, port) ← syslogHostPort address proto rest
  if host.isEmpty then
    .error (.configError s!"Host cannot be empty in syslog destination 'syslog@{address}'")
  else .ok (.syslog (.remote proto host port))

/-- `parse_single`: one trimmed token. -/
def parseSingle (token : String) : Except ProgramError LogDestination :=
  if token.isEmpty then .ok .null
  else
    let lower := Text.toAsciiLowercase token
    match keyword lower with
    | some destination => .ok destination
    | none =>
        match Text.stripPrefix "syslog@" lower with
        | some rest => parseSyslogRemote rest
        | none => .ok (.file token)

/-- The trimmed parts between the commas, without the empty ones. -/
def tokens (s : String) : List String :=
  ((Text.split ',' s).map Text.trim).filter fun token => ¬ token.isEmpty

/-- `LogDestination::parse`. -/
def parse (s : String) : Except ProgramError LogDestination :=
  let trimmed := Text.trim s
  if trimmed.isEmpty then .ok .null
  else if ',' ∈ trimmed.toList then
    match tokens trimmed with
    | [] => .ok .null
    | [token] => parseSingle token
    | tokens => (tokens.mapM parseSingle).map .composite
  else parseSingle trimmed

mutual

/-- `contains_syslog`. -/
def containsSyslog : LogDestination → Bool
  | .syslog _ => true
  | .composite list => anyContainsSyslog list
  | _ => false

/-- Some destination of the list targets syslog. -/
def anyContainsSyslog : List LogDestination → Bool
  | [] => false
  | d :: list => d.containsSyslog || anyContainsSyslog list

end

mutual

/-- `file_paths`: the files of a destination. -/
def filePaths : LogDestination → List String
  | .file path => [path]
  | .composite list => allFilePaths list
  | _ => []

/-- The files of a list of destinations. -/
def allFilePaths : List LogDestination → List String
  | [] => []
  | d :: list => d.filePaths ++ allFilePaths list

end

mutual

/-- The destination, or one in its list, is the in-memory log. -/
def containsAuto : LogDestination → Bool
  | .auto => true
  | .composite list => anyContainsAuto list
  | _ => false

/-- Some destination of the list is the in-memory log. -/
def anyContainsAuto : List LogDestination → Bool
  | [] => false
  | d :: list => d.containsAuto || anyContainsAuto list

end

end LogDestination

/-- A place where logs are kept and can be read again. -/
inductive LogStore
  | file (path : String)
  /-- The in-memory log of a channel. -/
  | memory (channel : LogChannel)
  deriving DecidableEq, Repr

/-- A tree of log backends. -/
inductive LogBackend
  /-- `NullLogBackend`. -/
  | null
  /-- `StdIoLogBackend`: a standard stream of the daemon. -/
  | stdIo (stream : LogChannel)
  /-- `LogRotator`. -/
  | rotator (path : String) (maxBytes backups : ℕ) (timestampSuffix : Bool)
  /-- `SyslogLogBackend`. -/
  | syslog (target : SyslogTarget)
  /-- `InMemoryChannelRotator`. -/
  | memory (channel : LogChannel)
  /-- `CompositeLogBackend`. -/
  | composite (backends : List LogBackend)
  deriving Repr

namespace LogBackend

mutual

/-- The stores to which `write_chunk` appends. -/
def stores : LogBackend → List LogStore
  | .rotator path _ _ _ => [.file path]
  | .memory channel => [.memory channel]
  | .composite backends => allStores backends
  | _ => []

/-- The stores of a list of backends, each of which writes the chunk. -/
def allStores : List LogBackend → List LogStore
  | [] => []
  | b :: backends => b.stores ++ allStores backends

end

end LogBackend

/-- What comes of opening a sink. -/
structure LogSinks where
  /-- `LogRotator::with_options` on a path. -/
  openRotator : String → Except ProgramError Unit
  /-- `SyslogLogBackend::new` on a target. -/
  openSyslog : SyslogTarget → Except ProgramError Unit

/-- Options of the backends of one channel. -/
structure BackendBuildOptions where
  maxBytes : ℕ
  backups : ℕ
  timestampSuffix : Bool
  deriving DecidableEq, Repr

namespace LogDestination

mutual

/-- `build_backend`. The in-memory log has no backend. -/
def buildBackend (sinks : LogSinks) (opts : BackendBuildOptions) :
    LogDestination → Except ProgramError (Option LogBackend)
  | .null => .ok (some .null)
  | .auto => .ok none
  | .devStdout => .ok (some (.stdIo .stdout))
  | .devStderr => .ok (some (.stdIo .stderr))
  | .file path =>
      (sinks.openRotator path).map fun _ =>
        some (.rotator path opts.maxBytes opts.backups opts.timestampSuffix)
  | .syslog target => (sinks.openSyslog target).map fun _ => some (.syslog target)
  | .composite list =>
      match buildBackends sinks opts list with
      | .ok [] => .ok none
      | .ok backends => .ok (some (.composite backends))
      | .error e => .error e

/-- The backends of a list of destinations; the first failure ends it. -/
def buildBackends (sinks : LogSinks) (opts : BackendBuildOptions) :
    List LogDestination → Except ProgramError (List LogBackend)
  | [] => .ok []
  | d :: list =>
      match d.buildBackend sinks opts with
      | .ok backend =>
          match buildBackends sinks opts list with
          | .ok backends => .ok (backend.toList ++ backends)
          | .error e => .error e
      | .error e => .error e

end

/-! ## Plain paths -/

/-- A configured string that names a file: no keyword, no syslog address, without white space around
it and without a comma. -/
structure IsPlainPath (path : String) : Prop where
  nonempty : path ≠ ""
  trimmed : Text.trim path = path
  noComma : ',' ∉ path.toList
  noKeyword : keyword (Text.toAsciiLowercase path) = none
  noSyslog : Text.stripPrefix "syslog@" (Text.toAsciiLowercase path) = none

variable {path token s : String} {d : LogDestination}

/-- A remote address is a syslog target. -/
theorem exists_syslog_of_parseSyslogRemote (h : parseSyslogRemote s = .ok d) :
    ∃ target, d = .syslog target := by
  unfold parseSyslogRemote at h
  obtain ⟨⟨proto, rest⟩, _, h⟩ := Except.bind_eq_ok.mp h
  obtain ⟨⟨host, port⟩, _, h⟩ := Except.bind_eq_ok.mp h
  simp only at h
  split at h
  next => cases h
  next =>
    obtain rfl := Except.ok.inj h
    exact ⟨_, rfl⟩

/-- The keywords are no files. -/
theorem filePaths_of_keyword (h : keyword s = some d) : d.filePaths = [] := by
  unfold keyword at h
  split_ifs at h <;> obtain rfl := Option.some.inj h <;> rfl

/-- A token is a file only when it is a plain path. -/
theorem mem_filePaths_parseSingle (h : parseSingle token = .ok d) (hpath : path ∈ d.filePaths)
    (htrim : Text.trim token = token) (hcomma : ',' ∉ token.toList) : IsPlainPath path := by
  unfold parseSingle at h
  split at h
  next =>
    obtain rfl := Except.ok.inj h
    cases hpath
  next hnonempty =>
    simp only at h
    split at h
    next destination hkeyword =>
      obtain rfl := Except.ok.inj h
      rw [filePaths_of_keyword hkeyword] at hpath
      cases hpath
    next hkeyword =>
      split at h
      next rest hsyslog =>
        obtain ⟨target, rfl⟩ := exists_syslog_of_parseSyslogRemote h
        cases hpath
      next hsyslog =>
        obtain rfl := Except.ok.inj h
        obtain rfl := List.mem_singleton.mp hpath
        exact ⟨by simpa using hnonempty, htrim, hcomma, hkeyword, hsyslog⟩

/-- The tokens of a list are trimmed and free of commas. -/
theorem of_mem_tokens (h : token ∈ tokens s) : Text.trim token = token ∧ ',' ∉ token.toList := by
  obtain ⟨part, hpart, rfl⟩ := List.mem_map.mp (List.mem_filter.mp h).1
  obtain ⟨cs, hcs, rfl⟩ := List.mem_map.mp hpart
  refine ⟨Text.trim_trim _, fun hcomma => Text.notMem_of_mem_splitOn hcs ?_⟩
  simpa using Text.mem_of_mem_trim hcomma

/-- The files of the destinations of a list of tokens are plain paths. -/
theorem mem_allFilePaths_mapM {l : List String} {ds : List LogDestination}
    (hl : ∀ token ∈ l, Text.trim token = token ∧ ',' ∉ token.toList)
    (h : l.mapM parseSingle = .ok ds) (hpath : path ∈ allFilePaths ds) : IsPlainPath path := by
  induction l generalizing ds with
  | nil =>
      obtain rfl := Except.ok.inj h
      cases hpath
  | cons token l ih =>
      rw [List.forall_mem_cons] at hl
      rw [List.mapM_cons] at h
      obtain ⟨d, hd, h⟩ := Except.bind_eq_ok.mp h
      obtain ⟨ds', hds', h⟩ := Except.bind_eq_ok.mp h
      obtain rfl := Except.ok.inj h
      rcases List.mem_append.mp hpath with hpath | hpath
      · exact mem_filePaths_parseSingle hd hpath hl.1.1 hl.1.2
      · exact ih hl.2 hds' hpath

/-- The files of a destination are plain paths. -/
theorem mem_filePaths_parse (h : parse s = .ok d) (hpath : path ∈ d.filePaths) :
    IsPlainPath path := by
  unfold parse at h
  simp only at h
  split at h
  next =>
    obtain rfl := Except.ok.inj h
    cases hpath
  next =>
    split at h
    next =>
      have htokens : ∀ token, token ∈ tokens (Text.trim s) →
          Text.trim token = token ∧ ',' ∉ token.toList :=
        fun _ => of_mem_tokens
      split at h
      next =>
        obtain rfl := Except.ok.inj h
        cases hpath
      next token htoken =>
        obtain ⟨htrim, hcomma⟩ := htokens token (htoken ▸ List.mem_singleton_self token)
        exact mem_filePaths_parseSingle h hpath htrim hcomma
      next =>
        obtain ⟨ds, hds, rfl⟩ := Except.map_eq_ok.mp h
        exact mem_allFilePaths_mapM htokens hds hpath
    next hcomma => exact mem_filePaths_parseSingle h hpath (Text.trim_trim s) hcomma

/-- A plain path is a file. -/
theorem IsPlainPath.parse_eq (h : IsPlainPath path) : parse path = .ok (.file path) := by
  have hnonempty : path.isEmpty = false := by
    simpa using h.nonempty
  simp only [parse, h.trimmed, hnonempty, Bool.false_eq_true, if_false, if_neg h.noComma,
    parseSingle, h.noKeyword, h.noSyslog]

/-! ## Stores of a backend -/

variable {sinks : LogSinks} {opts : BackendBuildOptions} {store : LogStore}

mutual

/-- A backend appends to files of its destination only. -/
theorem mem_stores_buildBackend : ∀ {d : LogDestination} {b : LogBackend},
    d.buildBackend sinks opts = .ok (some b) → store ∈ b.stores →
      ∃ path ∈ d.filePaths, store = .file path
  | .null, b, h, hstore => by
      obtain rfl := Option.some.inj (Except.ok.inj h)
      cases hstore
  | .auto, b, h, _ => by cases h
  | .devStdout, b, h, hstore => by
      obtain rfl := Option.some.inj (Except.ok.inj h)
      cases hstore
  | .devStderr, b, h, hstore => by
      obtain rfl := Option.some.inj (Except.ok.inj h)
      cases hstore
  | .file path, b, h, hstore => by
      obtain ⟨_, _, hb⟩ := Except.map_eq_ok.mp h
      obtain rfl := Option.some.inj hb
      exact ⟨path, List.mem_singleton_self path, List.mem_singleton.mp hstore⟩
  | .syslog target, b, h, hstore => by
      obtain ⟨_, _, hb⟩ := Except.map_eq_ok.mp h
      obtain rfl := Option.some.inj hb
      cases hstore
  | .composite list, b, h, hstore => by
      simp only [buildBackend] at h
      split at h
      next => cases h
      next backends hbackends =>
        obtain rfl := Option.some.inj (Except.ok.inj h)
        exact mem_allStores_buildBackends hbackends hstore
      next => cases h

theorem mem_allStores_buildBackends : ∀ {list : List LogDestination} {backends : List LogBackend},
    buildBackends sinks opts list = .ok backends → store ∈ LogBackend.allStores backends →
      ∃ path ∈ allFilePaths list, store = .file path
  | [], backends, h, hstore => by
      obtain rfl := Except.ok.inj h
      cases hstore
  | d :: list, backends, h, hstore => by
      simp only [buildBackends] at h
      split at h
      next backend hbackend =>
        split at h
        next rest hrest =>
          obtain rfl := Except.ok.inj h
          have hlist : store ∈ LogBackend.allStores rest →
              ∃ path ∈ allFilePaths list, store = .file path := mem_allStores_buildBackends hrest
          cases backend with
          | none =>
              obtain ⟨path, hpath, heq⟩ := hlist hstore
              exact ⟨path, List.mem_append_right _ hpath, heq⟩
          | some b =>
              rcases List.mem_append.mp hstore with hstore | hstore
              · obtain ⟨path, hpath, heq⟩ := mem_stores_buildBackend hbackend hstore
                exact ⟨path, List.mem_append_left _ hpath, heq⟩
              · obtain ⟨path, hpath, heq⟩ := hlist hstore
                exact ⟨path, List.mem_append_right _ hpath, heq⟩
        next => cases h
      next => cases h

end

end LogDestination

end Rsupervisord
