import Rsupervisord.Compat.Ini.Sections

/-!
# What a file is turned into

The tree of a file is put together from those of its sections. What is entered for a section depends
on this section alone, not on the order of the sections or on what is in the others.

## Main results

* `adaptIniTree_spec`: when a file has a tree, and what is in it.
-/

namespace Rsupervisord

namespace Ini

open Json (Apart atPath setPath setPaths)

variable {env : AdapterEnv} {ini : ParsedIni} {configDir : Option String}

/-! ## All settings of a file -/

/-- What a section without a name enters, if there is one. -/
def sectionSettings (ini : ParsedIni) (name : String)
    (settings : Section → Except ProgramError (List (List String × Json))) :
    Except ProgramError (List (List String × Json)) :=
  match ini.sections.lookup name with
  | some sec => settings sec
  | none => .ok []

/-- What a table enters for a section. -/
def tableSettings (env : AdapterEnv) (configDir : Option String) (context : String)
    (ms : List FieldMapping) (sec : Section) : Except ProgramError (List (List String × Json)) :=
  (ms.mapM (FieldMapping.setting env sec context configDir)).map List.reduceOption

/-- What `logfile` means: the switch of the daemon's log and its file. -/
def logfileValues (logfile : String) : Json × Json :=
  if Text.eqIgnoreAsciiCase logfile "NONE" then (.bool false, .null)
  else if isInMemoryLogSpec logfile then (.str "in_memory_only", .null)
  else (.bool true, .str logfile)

/-- What `logfile` enters. -/
def logfileSettings (sec : Section) : List (List String × Json) :=
  match sec.lookup "logfile" with
  | some logfile =>
      [(["logging", "enabled"], (logfileValues logfile).1),
        (["logging", "file"], (logfileValues logfile).2)]
  | none => []

/-- What a section with a name enters. -/
def namedSetting (env : AdapterEnv) (ini : ParsedIni) (configDir : Option String)
    (sectionName : String) : Except ProgramError (Option (List String × Json)) :=
  match namedSection sectionName, ini.sections.lookup sectionName with
  | some (kind, name), some sec =>
      (kind.tree env configDir name sec).map fun tree => some ([kind.field, name], .obj tree)
  | _, _ => .ok none

/-- All that the sections of a file enter. -/
def fileSettings (env : AdapterEnv) (ini : ParsedIni) (configDir : Option String) :
    Except ProgramError (List (List String × Json)) := do
  let unix ← sectionSettings ini "unix_http_server"
    (tableSettings env configDir "[unix_http_server]" serverUnixMappings)
  let inet ← sectionSettings ini "inet_http_server"
    (tableSettings env configDir "[inet_http_server]" serverInetMappings)
  let daemon ← sectionSettings ini "supervisord" fun sec =>
    (tableSettings env configDir "[supervisord]" supervisordMappings sec).map
      (logfileSettings sec ++ ·)
  let ctl ← sectionSettings ini "supervisorctl" fun sec =>
    (mapSection env sec [ctlMappings] "[supervisorctl]" configDir).map fun ctl =>
      [(["ctl"], .obj ctl)]
  let defaults ← sectionSettings ini "program-default" fun sec =>
    (programDefaultTree env configDir sec).map fun defs => [(["program_defaults"], .obj defs)]
  let named ← (ini.sectionOrder.mapM (namedSetting env ini configDir)).map List.reduceOption
  return unix ++ inet ++ daemon ++ ctl ++ defaults ++ named

/-- A section is applied by entering its settings. -/
theorem applySection_eq {name : String} {root : Json.Fields}
    {apply : Section → Json.Fields → Except ProgramError Json.Fields}
    {settings : Section → Except ProgramError (List (List String × Json))}
    (h : ∀ sec root, apply sec root = (settings sec).map fun ss => setPaths freshObject ss root) :
    applySection ini name root apply =
      (sectionSettings ini name settings).map fun ss => setPaths freshObject ss root := by
  rw [applySection, sectionSettings]
  cases ini.sections.lookup name with
  | none => rfl
  | some sec => exact h sec root

/-- The log file is applied by entering its settings. -/
theorem applyLogfile_eq (sec : Section) (root : Json.Fields) :
    applyLogfile sec root = setPaths freshObject (logfileSettings sec) root := by
  have henabled : Text.split '.' "logging.enabled" = ["logging", "enabled"] := by decide +kernel
  have hfile : Text.split '.' "logging.file" = ["logging", "file"] := by decide +kernel
  rw [applyLogfile, logfileSettings]
  simp only [setJsonPath, henabled, hfile]
  cases sec.lookup "logfile" with
  | none => rfl
  | some logfile =>
    dsimp only
    rw [logfileValues]
    split_ifs with hnone hmemory
    · rfl
    · rfl
    · rfl

/-- A table is applied by entering its settings. -/
theorem applyMappings_tableSettings {context : String} (ms : List FieldMapping) (sec : Section)
    (root : Json.Fields) :
    applyMappings env sec ms root context configDir =
      (tableSettings env configDir context ms sec).map fun ss =>
        setPaths freshObject ss root := by
  rw [applyMappings_eq, tableSettings]
  cases ms.mapM (FieldMapping.setting env sec context configDir) with
  | error e => rfl
  | ok ss => rfl

/-- The sections are entered one after the other. -/
theorem foldlM_adaptSection (order : List String) (root : Json.Fields) :
    order.foldlM (adaptSection env ini configDir) root =
      (order.mapM (namedSetting env ini configDir)).map fun ss =>
        setPaths freshObject ss.reduceOption root := by
  have hstep := Except.foldlM_eq_map_mapM (l := order) (f := adaptSection env ini configDir)
    (g := namedSetting env ini configDir) (h := enterSetting)
    (fun root sectionName => by
      rw [adaptSection, namedSetting]
      cases namedSection sectionName with
      | none => rfl
      | some section' =>
        obtain ⟨kind, name⟩ := section'
        cases ini.sections.lookup sectionName with
        | none => rfl
        | some sec =>
          have hfresh : freshObject kind.field = [] := by
            cases kind <;> rfl
          cases htree : kind.tree env configDir name sec with
          | error e => simp only [htree]; rfl
          | ok tree =>
            simp only [htree]
            show Except.ok (setPath (fun _ => []) (.obj tree) [kind.field, name] root) =
              .ok (setPath freshObject (.obj tree) [kind.field, name] root)
            simp only [setPath, Json.inner, hfresh]) root
  simp only [foldl_enterSetting] at hstep
  exact hstep

/-- The tree of a file is what all its sections enter. -/
theorem adaptIniTree_eq : adaptIniTree env ini configDir =
    (fileSettings env ini configDir).map fun ss => setPaths freshObject ss emptyRoot := by
  have htable : ∀ {name context : String} (ms : List FieldMapping) (root : Json.Fields),
      applySection ini name root
          (fun sec root => applyMappings env sec ms root context configDir) =
        (sectionSettings ini name (tableSettings env configDir context ms)).map fun ss =>
          setPaths freshObject ss root :=
    fun ms root => applySection_eq (applyMappings_tableSettings ms)
  have hdaemon : ∀ root, applySection ini "supervisord" root (fun sec root =>
        applyMappings env sec supervisordMappings (applyLogfile sec root) "[supervisord]"
          configDir) =
      (sectionSettings ini "supervisord" fun sec =>
        (tableSettings env configDir "[supervisord]" supervisordMappings sec).map
          (logfileSettings sec ++ ·)).map fun ss => setPaths freshObject ss root := by
    refine fun root => applySection_eq fun sec root => ?_
    rw [applyMappings_tableSettings, applyLogfile_eq]
    cases tableSettings env configDir "[supervisord]" supervisordMappings sec with
    | error e => rfl
    | ok ss => exact congrArg Except.ok (Json.setPaths_append _ _).symm
  have hctl : ∀ root, applySection ini "supervisorctl" root (fun sec root => do
        let ctl ← mapSection env sec [ctlMappings] "[supervisorctl]" configDir
        return Json.set "ctl" (.obj ctl) root) =
      (sectionSettings ini "supervisorctl" fun sec =>
        (mapSection env sec [ctlMappings] "[supervisorctl]" configDir).map fun ctl =>
          [(["ctl"], .obj ctl)]).map fun ss => setPaths freshObject ss root := by
    refine fun root => applySection_eq fun sec root => ?_
    cases mapSection env sec [ctlMappings] "[supervisorctl]" configDir with
    | error e => rfl
    | ok ctl => rfl
  have hdefaults : ∀ root, applySection ini "program-default" root (fun sec root => do
        let defs ← programDefaultTree env configDir sec
        return Json.set "program_defaults" (.obj defs) root) =
      (sectionSettings ini "program-default" fun sec =>
        (programDefaultTree env configDir sec).map fun defs =>
          [(["program_defaults"], .obj defs)]).map fun ss => setPaths freshObject ss root := by
    refine fun root => applySection_eq fun sec root => ?_
    cases programDefaultTree env configDir sec with
    | error e => rfl
    | ok defs => rfl
  -- Each part gives a list of settings; one that fails ends both computations.
  rw [adaptIniTree, fileSettings]
  simp only [htable, hdaemon, hctl, hdefaults, foldlM_adaptSection]
  generalize sectionSettings ini "unix_http_server" _ = unix
  generalize sectionSettings ini "inet_http_server" _ = inet
  generalize sectionSettings ini "supervisord" _ = daemon
  generalize sectionSettings ini "supervisorctl" _ = ctl
  generalize sectionSettings ini "program-default" _ = defaults
  generalize List.mapM (namedSetting env ini configDir) ini.sectionOrder = named
  cases unix with
  | error e => rfl
  | ok unix =>
    cases inet with
    | error e => rfl
    | ok inet =>
      cases daemon with
      | error e => rfl
      | ok daemon =>
        cases ctl with
        | error e => rfl
        | ok ctl =>
          cases defaults with
          | error e => rfl
          | ok defaults =>
            cases named with
            | error e => rfl
            | ok named =>
              refine congrArg Except.ok ?_
              simp only [Json.setPaths_append]

/-! ## Where the settings come from -/

/-- A section of the daemon's own settings: its name, the context of its errors and its table. -/
structure DaemonTable where
  name : String
  context : String
  table : List FieldMapping

/-- The sections of the daemon's own settings. -/
def daemonTables : List DaemonTable :=
  [⟨"unix_http_server", "[unix_http_server]", serverUnixMappings⟩,
    ⟨"inet_http_server", "[inet_http_server]", serverInetMappings⟩,
    ⟨"supervisord", "[supervisord]", supervisordMappings⟩]

/-- The sections enter the setting. -/
inductive Entered (env : AdapterEnv) (ini : ParsedIni) (configDir : Option String) :
    List String × Json → Prop
  | daemon {t sec m v} (ht : t ∈ daemonTables) (hsec : ini.sections.lookup t.name = some sec)
      (hm : m ∈ t.table) (hv : m.value env sec t.context configDir = .ok (some v)) :
      Entered env ini configDir (m.path, v)
  | logfile {sec s} (hsec : ini.sections.lookup "supervisord" = some sec)
      (hs : s ∈ logfileSettings sec) : Entered env ini configDir s
  | ctl {sec tree} (hsec : ini.sections.lookup "supervisorctl" = some sec)
      (htree : mapSection env sec [ctlMappings] "[supervisorctl]" configDir = .ok tree) :
      Entered env ini configDir (["ctl"], .obj tree)
  | programDefault {sec tree} (hsec : ini.sections.lookup "program-default" = some sec)
      (htree : programDefaultTree env configDir sec = .ok tree) :
      Entered env ini configDir (["program_defaults"], .obj tree)
  | named {kind name sec tree} (horder : NamedKind.header kind ++ name ∈ ini.sectionOrder)
      (hsec : ini.sections.lookup (kind.header ++ name) = some sec)
      (htree : kind.tree env configDir name sec = .ok tree) :
      Entered env ini configDir ([kind.field, name], .obj tree)

/-- A section is named by what is behind its header. -/
theorem namedSection_eq_some_iff {sectionName name : String} {kind : NamedKind} :
    namedSection sectionName = some (kind, name) ↔ sectionName = kind.header ++ name := by
  -- The headers differ in their first character.
  have hother : ∀ kind kind' : NamedKind, kind ≠ kind' → ∀ name,
      Text.stripPrefix kind'.header (kind.header ++ name) = none := by
    intro kind kind' hne name
    cases hstrip : Text.stripPrefix kind'.header (kind.header ++ name) with
    | none => rfl
    | some rest =>
      have hhead := congrArg (fun s : String => s.toList.head?)
        (Text.stripPrefix_eq_some_iff.mp hstrip)
      simp only [String.toList_append] at hhead
      cases kind <;> cases kind' <;> first | exact absurd rfl hne | cases hhead
  rw [namedSection]
  constructor
  · intro h
    obtain ⟨kind', -, h⟩ := List.exists_of_findSome?_eq_some h
    obtain ⟨rest, hrest, heq⟩ := Option.map_eq_some_iff.mp h
    obtain ⟨rfl, rfl⟩ := Prod.mk.inj heq
    exact Text.stripPrefix_eq_some_iff.mp hrest
  · rintro rfl
    cases kind with
    | program => simp [Text.stripPrefix_append]
    | group => simp [Text.stripPrefix_append, hother .group .program nofun]
    | eventListener =>
      simp [Text.stripPrefix_append, hother .eventListener .program nofun,
        hother .eventListener .group nofun]

/-- The settings of a section that is there. -/
theorem sectionSettings_of_lookup {name : String} {sec : Section}
    {settings : Section → Except ProgramError (List (List String × Json))}
    (h : ini.sections.lookup name = some sec) :
    sectionSettings ini name settings = settings sec := by
  rw [sectionSettings, h]

/-- The settings of a section are those of the section that is there. -/
theorem mem_sectionSettings {name : String}
    {settings : Section → Except ProgramError (List (List String × Json))}
    {ss : List (List String × Json)} (h : sectionSettings ini name settings = .ok ss)
    (s : List String × Json) :
    s ∈ ss ↔ ∃ sec ss', ini.sections.lookup name = some sec ∧ settings sec = .ok ss' ∧ s ∈ ss' := by
  rw [sectionSettings] at h
  cases hsec : ini.sections.lookup name with
  | none =>
    rw [hsec] at h
    obtain rfl := Except.ok.inj h
    simp
  | some sec =>
    rw [hsec] at h
    constructor
    · exact fun hs => ⟨sec, ss, rfl, h, hs⟩
    · rintro ⟨sec', ss', hsec', hss', hs⟩
      obtain rfl := Option.some.inj hsec'
      rwa [Except.ok.inj (h.symm.trans hss')]

/-- The settings of a table are the values of its mappings, at their paths. -/
theorem mem_tableSettings {context : String} {ms : List FieldMapping} {sec : Section}
    {ss : List (List String × Json)}
    (h : tableSettings env configDir context ms sec = .ok ss) (s : List String × Json) :
    s ∈ ss ↔ ∃ m ∈ ms, m.value env sec context configDir = .ok (some s.2) ∧ m.path = s.1 := by
  obtain ⟨ss', hss', rfl⟩ := Except.map_eq_ok.mp h
  exact mem_reduceOption hss'

/-- A named section is set under its name in the field of its kind. -/
theorem namedSetting_eq_some_iff {sectionName : String} {s : List String × Json} :
    namedSetting env ini configDir sectionName = .ok (some s) ↔
      ∃ kind name sec tree, sectionName = NamedKind.header kind ++ name ∧
        ini.sections.lookup sectionName = some sec ∧
        kind.tree env configDir name sec = .ok tree ∧ s = ([kind.field, name], .obj tree) := by
  rw [namedSetting]
  cases hnamed : namedSection sectionName with
  | none =>
    refine iff_of_false nofun ?_
    rintro ⟨kind, name, -, -, hname, -⟩
    rw [namedSection_eq_some_iff.mpr hname] at hnamed
    cases hnamed
  | some section' =>
    obtain ⟨kind, name⟩ := section'
    have hname := namedSection_eq_some_iff.mp hnamed
    cases hsec : ini.sections.lookup sectionName with
    | none => exact iff_of_false nofun fun ⟨_, _, _, _, _, h, _⟩ => nomatch h
    | some sec =>
      simp only [Except.map_eq_ok]
      constructor
      · rintro ⟨tree, htree, heq⟩
        exact ⟨kind, name, sec, tree, hname, rfl, htree, (Option.some.inj heq).symm⟩
      · rintro ⟨kind', name', sec', tree, hname', hsec', htree, rfl⟩
        rw [namedSection_eq_some_iff.mpr hname'] at hnamed
        obtain ⟨rfl, rfl⟩ := Prod.mk.inj (Option.some.inj hnamed)
        obtain rfl := Option.some.inj hsec'
        exact ⟨tree, htree, rfl⟩

/-- The settings of a file are those that its sections enter. -/
theorem mem_fileSettings {ss : List (List String × Json)}
    (h : fileSettings env ini configDir = .ok ss) (s : List String × Json) :
    s ∈ ss ↔ Entered env ini configDir s := by
  rw [fileSettings] at h
  obtain ⟨unix, hunix, h⟩ := Except.bind_eq_ok.mp h
  obtain ⟨inet, hinet, h⟩ := Except.bind_eq_ok.mp h
  obtain ⟨daemon, hdaemon, h⟩ := Except.bind_eq_ok.mp h
  obtain ⟨ctl, hctl, h⟩ := Except.bind_eq_ok.mp h
  obtain ⟨defaults, hdefaults, h⟩ := Except.bind_eq_ok.mp h
  obtain ⟨named, hnamed, h⟩ := Except.bind_eq_ok.mp h
  obtain rfl := Except.ok.inj h
  obtain ⟨named, horder, rfl⟩ := Except.map_eq_ok.mp hnamed
  have htable : ∀ {t : DaemonTable} {ss}, t ∈ daemonTables →
      sectionSettings ini t.name (tableSettings env configDir t.context t.table) = .ok ss →
      s ∈ ss → Entered env ini configDir s := by
    intro t ss ht hss hs
    obtain ⟨sec, ss', hsec, hss', hs⟩ := (mem_sectionSettings hss s).mp hs
    obtain ⟨m, hm, hv, hpath⟩ := (mem_tableSettings hss' s).mp hs
    obtain ⟨path, v⟩ := s
    obtain rfl : m.path = path := hpath
    exact .daemon ht hsec hm hv
  -- One alternative for each part of the list, in the order of the parts.
  simp only [List.mem_append]
  constructor
  · rintro (((((hs | hs) | hs) | hs) | hs) | hs)
    · exact htable (t := ⟨_, _, serverUnixMappings⟩) (by simp [daemonTables]) hunix hs
    · exact htable (t := ⟨_, _, serverInetMappings⟩) (by simp [daemonTables]) hinet hs
    · obtain ⟨sec, ss', hsec, hss', hs⟩ := (mem_sectionSettings hdaemon s).mp hs
      obtain ⟨ss', htable', rfl⟩ := Except.map_eq_ok.mp hss'
      obtain hs | hs := List.mem_append.mp hs
      · exact .logfile hsec hs
      · obtain ⟨m, hm, hv, hpath⟩ := (mem_tableSettings htable' s).mp hs
        obtain ⟨path, v⟩ := s
        obtain rfl : m.path = path := hpath
        exact .daemon (t := ⟨_, _, supervisordMappings⟩) (by simp [daemonTables]) hsec hm hv
    · obtain ⟨sec, ss', hsec, hss', hs⟩ := (mem_sectionSettings hctl s).mp hs
      obtain ⟨tree, htree, rfl⟩ := Except.map_eq_ok.mp hss'
      obtain rfl := List.mem_singleton.mp hs
      exact .ctl hsec htree
    · obtain ⟨sec, ss', hsec, hss', hs⟩ := (mem_sectionSettings hdefaults s).mp hs
      obtain ⟨tree, htree, rfl⟩ := Except.map_eq_ok.mp hss'
      obtain rfl := List.mem_singleton.mp hs
      exact .programDefault hsec htree
    · obtain ⟨sectionName, hmem, hsetting⟩ :=
        (Except.mem_iff_of_mapM horder).mp (List.reduceOption_mem_iff.mp hs)
      obtain ⟨kind, name, sec, tree, rfl, hsec, htree, rfl⟩ :=
        namedSetting_eq_some_iff.mp hsetting
      exact .named hmem hsec htree
  · intro hs
    cases hs with
    | @daemon t sec m v ht hsec hm hv =>
      have hmem : ∀ {ss}, sectionSettings ini t.name
          (tableSettings env configDir t.context t.table) = .ok ss → (m.path, v) ∈ ss := by
        intro ss hss
        rw [sectionSettings_of_lookup hsec] at hss
        exact (mem_tableSettings hss _).mpr ⟨m, hm, hv, rfl⟩
      simp only [daemonTables, List.mem_cons, List.not_mem_nil, or_false] at ht
      obtain rfl | rfl | rfl := ht
      · exact .inl (.inl (.inl (.inl (.inl (hmem hunix)))))
      · exact .inl (.inl (.inl (.inl (.inr (hmem hinet)))))
      · rw [sectionSettings_of_lookup hsec] at hdaemon
        obtain ⟨ss', htable', rfl⟩ := Except.map_eq_ok.mp hdaemon
        refine .inl (.inl (.inl (.inr (List.mem_append_right _ ?_))))
        exact (mem_tableSettings htable' _).mpr ⟨m, hm, hv, rfl⟩
    | @logfile sec s hsec hs =>
      rw [sectionSettings_of_lookup hsec] at hdaemon
      obtain ⟨ss', -, rfl⟩ := Except.map_eq_ok.mp hdaemon
      exact .inl (.inl (.inl (.inr (List.mem_append_left _ hs))))
    | ctl hsec htree =>
      rw [sectionSettings_of_lookup hsec, htree] at hctl
      obtain rfl := Except.ok.inj hctl
      exact .inl (.inl (.inr (List.mem_singleton_self _)))
    | programDefault hsec htree =>
      rw [sectionSettings_of_lookup hsec, htree] at hdefaults
      obtain rfl := Except.ok.inj hdefaults
      exact .inl (.inr (List.mem_singleton_self _))
    | named hmem hsec htree =>
      refine .inr (List.reduceOption_mem_iff.mpr ((Except.mem_iff_of_mapM horder).mpr ?_))
      exact ⟨_, hmem, namedSetting_eq_some_iff.mpr ⟨_, _, _, _, rfl, hsec, htree, rfl⟩⟩

/-! ## The places of the settings -/

/-- The tables of the daemon's own settings as one, each setting with its section. -/
def daemonMappings : List (DaemonTable × FieldMapping) :=
  daemonTables.flatMap fun t => t.table.map fun m => (t, m)

/-- The places of the daemon's own settings. -/
def daemonPaths : List (List String) :=
  [["logging", "enabled"], ["logging", "file"]] ++ daemonMappings.map fun e => e.2.path

/-- The fields of the root that the other sections are entered into. -/
def ownFields : List String :=
  ["ctl", "program_defaults", "programs", "groups", "event_listeners"]

/-- None of the places leads to another, and none to those of the other sections. -/
theorem daemonPaths_apart : daemonPaths.Pairwise Apart ∧
    ∀ path ∈ daemonPaths, ∀ name ∈ path.head?, name ∉ ownFields := by
  decide +kernel

/-- The mappings of the daemon have the paths of the daemon. -/
theorem path_mem_daemonPaths {t : DaemonTable} {m : FieldMapping} (ht : t ∈ daemonTables)
    (hm : m ∈ t.table) : m.path ∈ daemonPaths :=
  List.mem_append_right _ (List.mem_map.mpr
    ⟨(t, m), List.mem_flatMap.mpr ⟨t, ht, List.mem_map_of_mem hm⟩, rfl⟩)

/-- The log file sets the switch and the file of the log. -/
theorem mem_logfileSettings {sec : Section} {s : List String × Json} :
    s ∈ logfileSettings sec ↔ ∃ logfile, sec.lookup "logfile" = some logfile ∧
      (s = (["logging", "enabled"], (logfileValues logfile).1) ∨
        s = (["logging", "file"], (logfileValues logfile).2)) := by
  rw [logfileSettings]
  cases sec.lookup "logfile" with
  | none => simp
  | some logfile => simp

/-- The places of the settings of the other sections. -/
inductive OwnPlace : List String → Prop
  | ctl : OwnPlace ["ctl"]
  | programDefault : OwnPlace ["program_defaults"]
  | named (kind : NamedKind) (name : String) : OwnPlace [kind.field, name]

/-- A place of its own is in a field that no table of the daemon has. -/
theorem OwnPlace.head_mem {path : List String} (h : OwnPlace path) :
    ∃ name rest, path = name :: rest ∧ name ∈ ownFields := by
  cases h with
  | ctl => exact ⟨_, _, rfl, by decide⟩
  | programDefault => exact ⟨_, _, rfl, by decide⟩
  | named kind name => exact ⟨_, _, rfl, by cases kind <;> decide⟩

/-- The kinds of named sections have fields of their own. -/
theorem field_inj {kind kind' : NamedKind} (h : kind.field = kind'.field) : kind = kind' := by
  cases kind <;> cases kind' <;> first | rfl | exact absurd h (by decide)

/-- Different places of their own are apart. -/
theorem OwnPlace.apart {path path' : List String} (h : OwnPlace path) (h' : OwnPlace path')
    (hne : path ≠ path') : Apart path path' := by
  by_cases hhead : path.head? = path'.head?
  · cases h with
    | ctl =>
      cases h' with
      | ctl => exact absurd rfl hne
      | programDefault => exact absurd hhead (by decide)
      | named kind name => exact absurd hhead (by cases kind <;> simp [NamedKind.field])
    | programDefault =>
      cases h' with
      | ctl => exact absurd hhead (by decide)
      | programDefault => exact absurd rfl hne
      | named kind name => exact absurd hhead (by cases kind <;> simp [NamedKind.field])
    | named kind name =>
      cases h' with
      | ctl => exact absurd hhead (by cases kind <;> simp [NamedKind.field])
      | programDefault => exact absurd hhead (by cases kind <;> simp [NamedKind.field])
      | named kind' name' =>
        obtain rfl := field_inj (Option.some.inj hhead)
        have hname : name ≠ name' := fun heq => hne (by rw [heq])
        constructor
        · simpa using hname
        · simpa using hname.symm
  · refine .of_head ?_ ?_ hhead
    · obtain ⟨name, rest, rfl, -⟩ := h.head_mem
      exact List.cons_ne_nil _ _
    · obtain ⟨name, rest, rfl, -⟩ := h'.head_mem
      exact List.cons_ne_nil _ _

/-- They are apart from the paths of the daemon. -/
theorem daemonPaths_apart_own {path path' : List String} (h : path ∈ daemonPaths)
    (h' : OwnPlace path') : Apart path path' := by
  obtain ⟨name, rest, rfl, hname⟩ := h'.head_mem
  cases path with
  | nil => exact absurd h (by decide +kernel)
  | cons name' path =>
    refine .of_head (by simp) (by simp) fun hhead => ?_
    exact daemonPaths_apart.2 _ h name' rfl (Option.some.inj hhead ▸ hname)

/-- A path is not apart from itself. -/
theorem not_apart_self (path : List String) : ¬ Apart path path :=
  fun h => h.1 List.prefix_rfl

/-- The paths that the log file sets. -/
theorem path_mem_of_logfile {sec : Section} {s : List String × Json}
    (hs : s ∈ logfileSettings sec) : s.1 ∈ [["logging", "enabled"], ["logging", "file"]] := by
  obtain ⟨logfile, -, rfl | rfl⟩ := mem_logfileSettings.mp hs
  · simp
  · simp

/-- A setting is at one of the places. -/
theorem Entered.place {s : List String × Json} (h : Entered env ini configDir s) :
    s.1 ∈ daemonPaths ∨ OwnPlace s.1 := by
  cases h with
  | daemon ht _ hm _ => exact .inl (path_mem_daemonPaths ht hm)
  | logfile _ hs => exact .inl (List.mem_append_left _ (path_mem_of_logfile hs))
  | ctl => exact .inr .ctl
  | programDefault => exact .inr .programDefault
  | named => exact .inr (.named _ _)

/-- Settings at different places do not overlap. -/
theorem Entered.apart {s s' : List String × Json} (h : Entered env ini configDir s)
    (h' : Entered env ini configDir s') (hne : s.1 ≠ s'.1) : Apart s.1 s'.1 := by
  obtain hplace | hplace := h.place
  · obtain hplace' | hplace' := h'.place
    · have : Std.Symm (Apart) := ⟨fun _ _ happart => happart.symm⟩
      exact daemonPaths_apart.1.forall hplace hplace' hne
    · exact daemonPaths_apart_own hplace hplace'
  · obtain hplace' | hplace' := h'.place
    · exact (daemonPaths_apart_own hplace' hplace).symm
    · exact hplace.apart hplace' hne

/-- The daemon's own settings are entered by one section each. -/
theorem daemon_unique {t t' : DaemonTable} {m m' : FieldMapping} (ht : t ∈ daemonTables)
    (ht' : t' ∈ daemonTables) (hm : m ∈ t.table) (hm' : m' ∈ t'.table)
    (hpath : m.path = m'.path) : t = t' ∧ m = m' := by
  have hmem : ∀ {t : DaemonTable} {m : FieldMapping}, t ∈ daemonTables → m ∈ t.table →
      (t, m) ∈ daemonMappings := fun ht hm =>
    List.mem_flatMap.mpr ⟨_, ht, List.mem_map_of_mem hm⟩
  -- Different settings are apart, and no place is apart from itself.
  by_contra hne
  have : Std.Symm fun e e' : DaemonTable × FieldMapping => Apart e.2.path e'.2.path :=
    ⟨fun _ _ happart => happart.symm⟩
  obtain ⟨-, hdaemon, -⟩ := List.pairwise_append.mp daemonPaths_apart.1
  have happart := (List.pairwise_map.mp hdaemon).forall (hmem ht hm) (hmem ht' hm')
    fun heq => hne (Prod.mk.inj heq)
  rw [hpath] at happart
  exact not_apart_self _ happart

/-- No table of the daemon sets them. -/
theorem path_ne_of_logfile {t : DaemonTable} {m : FieldMapping} {sec : Section}
    {s : List String × Json} (ht : t ∈ daemonTables) (hm : m ∈ t.table)
    (hs : s ∈ logfileSettings sec) : m.path ≠ s.1 := by
  intro hpath
  obtain ⟨-, -, hmixed⟩ := List.pairwise_append.mp daemonPaths_apart.1
  have happart := hmixed s.1 (path_mem_of_logfile hs) m.path (List.mem_map.mpr
    ⟨(t, m), List.mem_flatMap.mpr ⟨t, ht, List.mem_map_of_mem hm⟩, rfl⟩)
  rw [hpath] at happart
  exact not_apart_self _ happart

/-- A setting is the only one at its place. -/
theorem Entered.unique {s s' : List String × Json} (h : Entered env ini configDir s)
    (h' : Entered env ini configDir s') (hpath : s.1 = s'.1) : s = s' := by
  -- The daemon's own settings are not at the places of the other sections.
  have hown : ∀ {path path' : List String}, path ∈ daemonPaths → OwnPlace path' →
      path ≠ path' := fun hd ho heq => not_apart_self _ (heq ▸ daemonPaths_apart_own hd ho)
  have hdaemon : ∀ {t : DaemonTable} {m : FieldMapping}, t ∈ daemonTables → m ∈ t.table →
      ∀ {path'}, OwnPlace path' → m.path ≠ path' :=
    fun ht hm => hown (path_mem_daemonPaths ht hm)
  have hlogfile : ∀ {sec : Section} {s : List String × Json}, s ∈ logfileSettings sec →
      ∀ {path'}, OwnPlace path' → s.1 ≠ path' :=
    fun hs => hown (List.mem_append_left _ (path_mem_of_logfile hs))
  cases h with
  | @daemon t sec m v ht hsec hm hv =>
    cases h' with
    | @daemon t' sec' m' v' ht' hsec' hm' hv' =>
      obtain ⟨rfl, rfl⟩ := daemon_unique ht ht' hm hm' hpath
      obtain rfl := Option.some.inj (hsec.symm.trans hsec')
      rw [hv] at hv'
      obtain rfl := Option.some.inj (Except.ok.inj hv')
      rfl
    -- The table of the section has no place for what `logfile` enters.
    | logfile _ hs' => exact absurd hpath (path_ne_of_logfile ht hm hs')
    | ctl => exact absurd hpath (hdaemon ht hm .ctl)
    | programDefault => exact absurd hpath (hdaemon ht hm .programDefault)
    | named => exact absurd hpath (hdaemon ht hm (.named _ _))
  | @logfile sec s hsec hs =>
    cases h' with
    | daemon ht' _ hm' _ => exact absurd hpath.symm (path_ne_of_logfile ht' hm' hs)
    | @logfile sec' s' hsec' hs' =>
      obtain rfl := Option.some.inj (hsec.symm.trans hsec')
      obtain ⟨logfile, hlookup, hs⟩ := mem_logfileSettings.mp hs
      obtain ⟨logfile', hlookup', hs'⟩ := mem_logfileSettings.mp hs'
      obtain rfl := Option.some.inj (hlookup.symm.trans hlookup')
      obtain rfl | rfl := hs
      · obtain rfl | rfl := hs'
        · rfl
        · exact absurd hpath (by simp)
      · obtain rfl | rfl := hs'
        · exact absurd hpath (by simp)
        · rfl
    | ctl => exact absurd hpath (hlogfile hs .ctl)
    | programDefault => exact absurd hpath (hlogfile hs .programDefault)
    | named => exact absurd hpath (hlogfile hs (.named _ _))
  | @ctl sec tree hsec htree =>
    cases h' with
    | daemon ht' _ hm' _ => exact absurd hpath.symm (hdaemon ht' hm' .ctl)
    | logfile _ hs' => exact absurd hpath.symm (hlogfile hs' .ctl)
    | @ctl sec' tree' hsec' htree' =>
      obtain rfl := Option.some.inj (hsec.symm.trans hsec')
      obtain rfl := Except.ok.inj (htree.symm.trans htree')
      rfl
    | programDefault => exact absurd hpath (by simp)
    | named => exact absurd hpath (by simp)
  | @programDefault sec tree hsec htree =>
    cases h' with
    | daemon ht' _ hm' _ => exact absurd hpath.symm (hdaemon ht' hm' .programDefault)
    | logfile _ hs' => exact absurd hpath.symm (hlogfile hs' .programDefault)
    | ctl => exact absurd hpath (by simp)
    | @programDefault sec' tree' hsec' htree' =>
      obtain rfl := Option.some.inj (hsec.symm.trans hsec')
      obtain rfl := Except.ok.inj (htree.symm.trans htree')
      rfl
    | named => exact absurd hpath (by simp)
  | @named kind name sec tree _ hsec htree =>
    cases h' with
    | daemon ht' _ hm' _ => exact absurd hpath.symm (hdaemon ht' hm' (.named _ _))
    | logfile _ hs' => exact absurd hpath.symm (hlogfile hs' (.named _ _))
    | ctl => exact absurd hpath (by simp)
    | programDefault => exact absurd hpath (by simp)
    | @named kind' name' sec' tree' _ hsec' htree' =>
      obtain ⟨hfield, hname⟩ := List.cons.inj hpath
      obtain rfl := field_inj hfield
      obtain rfl := (List.cons.inj hname).1
      obtain rfl := Option.some.inj (hsec.symm.trans hsec')
      obtain rfl := Except.ok.inj (htree.symm.trans htree')
      rfl

/-- Two settings are the same, or at places that are apart. -/
theorem Entered.eq_or_apart {s s' : List String × Json} (h : Entered env ini configDir s)
    (h' : Entered env ini configDir s') : s' = s ∨ Apart s'.1 s.1 := by
  by_cases hpath : s'.1 = s.1
  · exact .inl (h'.unique h hpath)
  · exact .inr (h'.apart h hpath)

/-! ## The tree -/

/-- The settings of all sections can be converted. -/
structure Convertible (env : AdapterEnv) (ini : ParsedIni) (configDir : Option String) :
    Prop where
  daemon : ∀ t ∈ daemonTables, ∀ sec, ini.sections.lookup t.name = some sec →
    ∀ m ∈ t.table, ∃ v, m.value env sec t.context configDir = .ok v
  ctl : ∀ sec, ini.sections.lookup "supervisorctl" = some sec →
    ∃ tree, mapSection env sec [ctlMappings] "[supervisorctl]" configDir = .ok tree
  programDefault : ∀ sec, ini.sections.lookup "program-default" = some sec →
    ∃ tree, programDefaultTree env configDir sec = .ok tree
  named : ∀ kind name sec, NamedKind.header kind ++ name ∈ ini.sectionOrder →
    ini.sections.lookup (kind.header ++ name) = some sec →
    ∃ tree, kind.tree env configDir name sec = .ok tree

/-- A list is mapped when each of its elements is. -/
theorem exists_mapM {α β : Type} {f : α → Except ProgramError β} {l : List α} :
    (∃ bs, l.mapM f = .ok bs) ↔ ∀ a ∈ l, ∃ b, f a = .ok b := by
  constructor
  · rintro ⟨bs, hbs⟩ a ha
    obtain ⟨b, -, hb⟩ := Except.exists_mem_of_mapM hbs ha
    exact ⟨b, hb⟩
  · intro h
    cases hl : l.mapM f with
    | ok bs => exact ⟨bs, rfl⟩
    | error e =>
      obtain ⟨before, a, behind, rfl, -, ha⟩ := Except.mapM_eq_error_iff.mp hl
      obtain ⟨b, hb⟩ := h a (by simp)
      rw [hb] at ha
      cases ha

/-- A result is mapped when there is one. -/
theorem exists_map {α β : Type} {x : Except ProgramError α} {f : α → β} :
    (∃ b, x.map f = .ok b) ↔ ∃ a, x = .ok a := by
  simp only [Except.map_eq_ok]
  exact ⟨fun ⟨_, a, ha, _⟩ => ⟨a, ha⟩, fun ⟨a, ha⟩ => ⟨_, a, ha, rfl⟩⟩

/-- A section has settings when it is not there, or its own are read. -/
theorem exists_sectionSettings {name : String}
    {settings : Section → Except ProgramError (List (List String × Json))} :
    (∃ ss, sectionSettings ini name settings = .ok ss) ↔
      ∀ sec, ini.sections.lookup name = some sec → ∃ ss, settings sec = .ok ss := by
  rw [sectionSettings]
  cases ini.sections.lookup name with
  | none => simp
  | some sec => simp

/-- A table has settings when each of its mappings has a value or none. -/
theorem exists_tableSettings {context : String} {ms : List FieldMapping} {sec : Section} :
    (∃ ss, tableSettings env configDir context ms sec = .ok ss) ↔
      ∀ m ∈ ms, ∃ v, m.value env sec context configDir = .ok v := by
  rw [tableSettings, exists_map, exists_mapM]
  simp only [exists_setting]

/-- A named section has a setting when its tree is read. -/
theorem exists_namedSetting {sectionName : String} :
    (∃ s, namedSetting env ini configDir sectionName = .ok s) ↔
      ∀ kind name sec, sectionName = NamedKind.header kind ++ name →
        ini.sections.lookup sectionName = some sec →
        ∃ tree, kind.tree env configDir name sec = .ok tree := by
  rw [namedSetting]
  cases hnamed : namedSection sectionName with
  | none =>
    refine iff_of_true ⟨_, rfl⟩ fun kind name sec hname => ?_
    rw [namedSection_eq_some_iff.mpr hname] at hnamed
    cases hnamed
  | some section' =>
    obtain ⟨kind, name⟩ := section'
    obtain rfl := namedSection_eq_some_iff.mp hnamed
    cases ini.sections.lookup (kind.header ++ name) with
    | none => exact iff_of_true ⟨_, rfl⟩ fun _ _ _ _ h => nomatch h
    | some sec =>
      rw [exists_map]
      constructor
      · rintro ⟨tree, htree⟩ kind' name' sec' hname hsec
        rw [namedSection_eq_some_iff.mpr hname] at hnamed
        obtain ⟨rfl, rfl⟩ := Prod.mk.inj (Option.some.inj hnamed)
        obtain rfl := Option.some.inj hsec
        exact ⟨tree, htree⟩
      · exact fun h => h kind name sec rfl rfl

/-- There is a list of settings when all sections can be converted. -/
theorem exists_fileSettings :
    (∃ ss, fileSettings env ini configDir = .ok ss) ↔ Convertible env ini configDir := by
  have htables : (∀ t ∈ daemonTables, ∀ sec, ini.sections.lookup t.name = some sec →
        ∀ m ∈ t.table, ∃ v, m.value env sec t.context configDir = .ok v) ↔
      (∃ ss, sectionSettings ini "unix_http_server"
        (tableSettings env configDir "[unix_http_server]" serverUnixMappings) = .ok ss) ∧
      (∃ ss, sectionSettings ini "inet_http_server"
        (tableSettings env configDir "[inet_http_server]" serverInetMappings) = .ok ss) ∧
      ∃ ss, (sectionSettings ini "supervisord" fun sec =>
        (tableSettings env configDir "[supervisord]" supervisordMappings sec).map
          (logfileSettings sec ++ ·)) = .ok ss := by
    simp only [exists_sectionSettings, exists_map, exists_tableSettings, daemonTables,
      List.forall_mem_cons, List.not_mem_nil, IsEmpty.forall_iff, implies_true, and_true]
  have hctl : (∃ ss, (sectionSettings ini "supervisorctl" fun sec =>
        (mapSection env sec [ctlMappings] "[supervisorctl]" configDir).map fun ctl =>
          [(["ctl"], Json.obj ctl)]) = .ok ss) ↔
      ∀ sec, ini.sections.lookup "supervisorctl" = some sec →
        ∃ tree, mapSection env sec [ctlMappings] "[supervisorctl]" configDir = .ok tree := by
    simp only [exists_sectionSettings, exists_map]
  have hdefaults : (∃ ss, (sectionSettings ini "program-default" fun sec =>
        (programDefaultTree env configDir sec).map fun defs =>
          [(["program_defaults"], Json.obj defs)]) = .ok ss) ↔
      ∀ sec, ini.sections.lookup "program-default" = some sec →
        ∃ tree, programDefaultTree env configDir sec = .ok tree := by
    simp only [exists_sectionSettings, exists_map]
  have hnamed : (∃ ss, ini.sectionOrder.mapM (namedSetting env ini configDir) = .ok ss) ↔
      ∀ kind name sec, NamedKind.header kind ++ name ∈ ini.sectionOrder →
        ini.sections.lookup (kind.header ++ name) = some sec →
        ∃ tree, kind.tree env configDir name sec = .ok tree := by
    rw [exists_mapM]
    simp only [exists_namedSetting]
    exact ⟨fun h kind name sec hmem hsec => h _ hmem kind name sec rfl hsec,
      fun h sectionName hmem kind name sec hname hsec =>
        h kind name sec (hname ▸ hmem) (hname ▸ hsec)⟩
  -- No part depends on what another one enters.
  constructor
  · rintro ⟨ss, h⟩
    rw [fileSettings] at h
    obtain ⟨unix, hunix, h⟩ := Except.bind_eq_ok.mp h
    obtain ⟨inet, hinet, h⟩ := Except.bind_eq_ok.mp h
    obtain ⟨daemon, hdaemon, h⟩ := Except.bind_eq_ok.mp h
    obtain ⟨ctl, hctl', h⟩ := Except.bind_eq_ok.mp h
    obtain ⟨defaults, hdefaults', h⟩ := Except.bind_eq_ok.mp h
    obtain ⟨named, hnamed', -⟩ := Except.bind_eq_ok.mp h
    obtain ⟨named, horder, -⟩ := Except.map_eq_ok.mp hnamed'
    exact ⟨htables.mpr ⟨⟨_, hunix⟩, ⟨_, hinet⟩, ⟨_, hdaemon⟩⟩, hctl.mp ⟨_, hctl'⟩,
      hdefaults.mp ⟨_, hdefaults'⟩, hnamed.mp ⟨_, horder⟩⟩
  · intro h
    obtain ⟨⟨unix, hunix⟩, ⟨inet, hinet⟩, ⟨daemon, hdaemon⟩⟩ := htables.mp h.daemon
    obtain ⟨ctl, hctl⟩ := hctl.mpr h.ctl
    obtain ⟨defaults, hdefaults⟩ := hdefaults.mpr h.programDefault
    obtain ⟨named, hnamed⟩ := hnamed.mpr h.named
    rw [fileSettings, hunix, hinet, hdaemon, hctl, hdefaults, hnamed]
    exact ⟨_, rfl⟩

/-- No setting is entered into the settings of the logs of a program: a place with these on its way
ends there. -/
theorem Entered.logs_last {s : List String × Json} (h : Entered env ini configDir s)
    {dir : List String} (hdir : dir ++ ["logs"] <+: s.1) : s.1 = dir ++ ["logs"] := by
  have hmem : "logs" ∈ s.1 := hdir.subset (by simp)
  obtain hplace | hplace := h.place
  · exact absurd hmem ((by decide +kernel : ∀ path ∈ daemonPaths, "logs" ∉ path) _ hplace)
  · generalize s.1 = path at hdir hmem hplace
    cases hplace with
    | ctl => exact absurd hmem (by simp)
    | programDefault => exact absurd hmem (by simp)
    | named kind name =>
      cases dir with
      | nil =>
        have hhead := (List.cons_prefix_cons.mp hdir).1
        cases kind <;> exact absurd hhead (by decide)
      -- A program may be named `logs`; its section is such a place.
      | cons field dir =>
        refine (hdir.eq_of_length_le ?_).symm
        simp

/-- A file has a tree when the settings of all its sections can be converted. The tree holds what
the sections enter, each at a place of its own, whatever the order of the sections; all else in it
is on the way to these places or inside of them, or in the tree before the sections. -/
theorem adaptIniTree_spec :
    ((∃ root, adaptIniTree env ini configDir = .ok root) ↔ Convertible env ini configDir) ∧
    ∀ root, adaptIniTree env ini configDir = .ok root →
      (∀ s, Entered env ini configDir s → atPath s.1 (.obj root) = some s.2) ∧
      ∀ q w, atPath q (.obj root) = some w →
        atPath q (.obj emptyRoot) = some w ∨ ∃ s, Entered env ini configDir s ∧ ¬ Apart s.1 q := by
  rw [adaptIniTree_eq]
  constructor
  · rw [exists_map, exists_fileSettings]
  · intro root hroot
    obtain ⟨ss, hss, rfl⟩ := Except.map_eq_ok.mp hroot
    have hmem := mem_fileSettings hss
    constructor
    · intro s hs
      have hpath : s.1 ≠ [] := by
        obtain hplace | hplace := hs.place
        · exact fun h => absurd (h ▸ hplace) (by decide +kernel)
        · obtain ⟨name, rest, heq, -⟩ := hplace.head_mem
          exact heq ▸ List.cons_ne_nil _ _
      exact Json.atPath_setPaths ((hmem s).mpr hs) hpath fun s' hs' =>
        hs.eq_or_apart ((hmem s').mp hs')
    · intro q w hw
      by_cases hset : ∃ s ∈ ss, ¬ Apart s.1 q
      · obtain ⟨s, hs, hnot⟩ := hset
        exact .inr ⟨s, (hmem s).mp hs, hnot⟩
      · push Not at hset
        obtain hbefore | ⟨s, hs, dir, name, rest, rfl, hdir, hrest⟩ :=
          Json.origin_of_atPath_setPaths hset hw
        · exact .inl hbefore
        -- Only new log settings begin with something, and none are made.
        cases rest with
        | nil => exact absurd hdir (hset s hs).2
        | cons field rest =>
          rw [Json.atPath_cons] at hrest
          obtain ⟨v, hfield, -⟩ := Option.bind_eq_some_iff.mp hrest
          rw [freshObject] at hfield
          split_ifs at hfield with hname
          · subst hname
            have heq := ((hmem s).mp hs).logs_last hdir
            refine absurd ?_ (hset s hs).1
            rw [heq]
            exact ⟨field :: rest, by simp⟩
          · cases hfield

/-- A file with a group and a port. -/
def siteFile : ParsedIni where
  sections := ((∅ : HashMap String Section).insert "group:site"
    ((∅ : Section).insert "programs" "db, web")).insert "inet_http_server"
      ((∅ : Section).insert "port" ":9001")
  sectionOrder := ["inet_http_server", "group:site"]

/-- A file with a group and programs is placed in the tree. -/
theorem adaptIniTree_spec_site : ∃ root, adaptIniTree .decimal siteFile none = .ok root ∧
    atPath ["groups", "site"] (.obj root) =
      some (.obj [("programs", .arr [.str "db", .str "web"])]) ∧
    atPath ["server", "path_translation"] (.obj root) = some (.bool false) := by
  obtain ⟨root, hroot⟩ : ∃ root, adaptIniTree .decimal siteFile none = .ok root := ⟨_, rfl⟩
  have hentered := (adaptIniTree_spec.2 root hroot).1
  refine ⟨root, hroot, ?_, ?_⟩
  · exact hentered _ (@Entered.named _ siteFile none .group "site" _ _ (by decide +kernel) rfl rfl)
  · obtain rfl := Except.ok.inj hroot
    rfl

end Ini

end Rsupervisord
