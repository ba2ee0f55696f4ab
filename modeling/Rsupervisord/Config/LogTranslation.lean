import Mathlib.Data.List.Forall2
import Rsupervisord.Config.Transform
import Rsupervisord.Logging.Destination

/-!
# Translated log destinations

The path translation takes the string of a log destination for one path. Its members are parsed
behind it, with a grammar of their own.

## Main definitions

* `LogDestination.members`: the members of a destination.
* `Transform.SameMember`: a member means the same behind the translation, up to the directory of its
  file.

## Main results

* `LogDestination.parse_eq_collect`: a destination is made of its members.
* `Transform.parse_eq_mapPaths_iff`: two strings mean the same, up to the directory of their files,
  when their members do.
-/

namespace Rsupervisord

namespace LogDestination

mutual

/-- The destination with its files at other paths. -/
def mapPaths (f : String → String) : LogDestination → LogDestination
  | .file path => .file (f path)
  | .composite list => .composite (mapAllPaths f list)
  | d => d

/-- The destinations of a list with their files at other paths. -/
def mapAllPaths (f : String → String) : List LogDestination → List LogDestination
  | [] => []
  | d :: list => d.mapPaths f :: mapAllPaths f list

end

/-- The members of a destination: what is between the commas, trimmed and not empty. -/
def members (s : String) : List String := tokens (Text.trim s)

/-- The destination of some members. -/
def collect : List LogDestination → LogDestination
  | [] => .null
  | [d] => d
  | ds => .composite ds

/-- What the parser makes of a member that is no path: a keyword, or the target of a syslog
address. -/
def label (token : String) : Option LogDestination × Option (Except ProgramError LogDestination) :=
  let lower := Text.toAsciiLowercase token
  (keyword lower, (Text.stripPrefix "syslog@" lower).map parseSyslogRemote)

/-- A member that is a path. -/
def IsPath (token : String) : Prop := label token = (none, none)

/-- Nothing is logged: there is no member, or a null keyword alone. -/
def IsNull (s : String) : Prop :=
  members s = [] ∨ ∃ token, members s = [token] ∧ (label token).1 = some .null

variable {s token : String} {d : LogDestination} {ds es : List LogDestination}
  {f : String → String}

theorem mapAllPaths_eq_map : mapAllPaths f ds = ds.map (mapPaths f) := by
  induction ds with
  | nil => rfl
  | cons d ds ih =>
    rw [mapAllPaths, ih]
    rfl

theorem mapPaths_collect : (collect ds).mapPaths f = collect (ds.map (mapPaths f)) := by
  match ds with
  | [] => rfl
  | [d] => rfl
  | d :: d' :: ds =>
    rw [collect, mapPaths, mapAllPaths_eq_map]
    · rfl
    all_goals simp

/-- A destination without commas is its own member. -/
theorem members_of_notMem (h : ',' ∉ (Text.trim s).toList) :
    members s = if Text.trim s = "" then [] else [Text.trim s] := by
  have hsplit : Text.split ',' (Text.trim s) = [Text.trim s] := by
    rw [Text.split, List.splitOn_eq_singleton h, List.map_singleton, String.ofList_toList]
  rw [members, tokens, hsplit, List.map_singleton, Text.trim_trim, List.filter_singleton]
  simp

theorem collect_of_two (h : 2 ≤ ds.length) : collect ds = .composite ds := by
  match ds with
  | [] | [_] => simp at h
  | _ :: _ :: _ => rfl

/-- The parser takes a list apart by its length. -/
theorem map_collect_mapM (l : List String) :
    (l.mapM parseSingle).map collect =
      match l with
      | [] => .ok .null
      | [token] => parseSingle token
      | l => (l.mapM parseSingle).map .composite := by
  match l with
  | [] => rfl
  | [token] =>
    simp only [List.mapM_cons, List.mapM_nil]
    cases parseSingle token with
    | error e => rfl
    | ok d => rfl
  | token :: token' :: l =>
    simp only
    cases h : (token :: token' :: l).mapM parseSingle with
    | error e => rfl
    | ok ds =>
      have hlength := (Except.mapM_eq_ok_iff.mp h).length_eq
      refine congrArg Except.ok (collect_of_two ?_)
      simp only [List.length_cons] at hlength
      omega

/-- A destination is made of its members. -/
theorem parse_eq_collect (s : String) :
    parse s = ((members s).mapM parseSingle).map collect := by
  rw [map_collect_mapM]
  by_cases hempty : Text.trim s = ""
  · have hmembers : members s = [] := by rw [members_of_notMem (by simp [hempty]), if_pos hempty]
    rw [parse, hmembers, hempty]
    rfl
  · by_cases hcomma : ',' ∈ (Text.trim s).toList
    · rcases htokens : tokens (Text.trim s) with _ | ⟨_, _ | ⟨_, _⟩⟩ <;>
        simp [parse, members, hempty, hcomma, htokens]
    · have hmembers : members s = [Text.trim s] := by
        rw [members_of_notMem hcomma, if_neg hempty]
      rw [parse, hmembers]
      simp [hempty, hcomma]

/-! ## Members -/

/-- The parser sees the label of a member. -/
theorem parseSingle_eq (hne : token ≠ "") :
    parseSingle token =
      match label token with
      | (some keyword, _) => .ok keyword
      | (none, some target) => target
      | (none, none) => .ok (.file token) := by
  rw [parseSingle, label]
  simp only [String.isEmpty_iff, hne, if_false]
  cases keyword (Text.toAsciiLowercase token) with
  | some k => rfl
  | none =>
    cases Text.stripPrefix "syslog@" (Text.toAsciiLowercase token) with
    | none => rfl
    | some rest => rfl

/-- A keyword is no file, no remote target and no list. -/
theorem cases_of_keyword (h : keyword s = some d) :
    d = .null ∨ d = .auto ∨ d = .devStdout ∨ d = .devStderr ∨ d = .syslog .localSocket := by
  unfold keyword at h
  split_ifs at h <;> obtain rfl := Option.some.inj h <;> simp

/-- A keyword is no syslog address. -/
theorem label_of_keyword (h : (label token).1 = some d) : label token = (some d, none) := by
  have hlower : keyword (Text.toAsciiLowercase token) = some d := h
  have hsyslog : Text.stripPrefix "syslog@" (Text.toAsciiLowercase token) = none := by
    unfold keyword at hlower
    split_ifs at hlower with h₁ h₂ h₃ h₄ h₅
    · simp only [List.mem_cons, List.not_mem_nil, or_false] at h₁
      obtain h₁ | h₁ | h₁ | h₁ := h₁ <;> rw [h₁] <;> decide
    · simp only [List.mem_cons, List.not_mem_nil, or_false] at h₂
      obtain h₂ | h₂ := h₂ <;> rw [h₂] <;> decide
    · rw [h₃]
      decide
    · rw [h₄]
      decide
    · rw [h₅]
      decide
  rw [label, hlower, hsyslog]
  rfl

theorem exists_remote_of_parseSyslogRemote (h : parseSyslogRemote s = .ok d) :
    ∃ proto host port, d = .syslog (.remote proto host port) := by
  unfold parseSyslogRemote at h
  obtain ⟨⟨proto, rest⟩, _, h⟩ := Except.bind_eq_ok.mp h
  obtain ⟨⟨host, port⟩, _, h⟩ := Except.bind_eq_ok.mp h
  simp only at h
  split at h
  next => cases h
  next =>
    obtain rfl := Except.ok.inj h
    exact ⟨_, _, _, rfl⟩

/-- A syslog address that is accepted is a remote target. -/
theorem exists_remote_of_label (h : (label token).2 = some (.ok d)) :
    ∃ proto host port, d = .syslog (.remote proto host port) := by
  obtain ⟨rest, _, hrest⟩ := Option.map_eq_some_iff.mp h
  exact exists_remote_of_parseSyslogRemote hrest

/-- A member is no list. -/
theorem parseSingle_ne_composite (h : parseSingle token = .ok d) (list : List LogDestination) :
    d ≠ .composite list := by
  rintro rfl
  by_cases hne : token = ""
  · simp [parseSingle, hne] at h
  · rw [parseSingle_eq hne] at h
    rcases hlabel : label token with ⟨_ | k, _ | target⟩
    · rw [hlabel] at h
      cases Except.ok.inj h
    · rw [hlabel] at h
      obtain ⟨_, _, _, hremote⟩ := exists_remote_of_label
        ((congrArg Prod.snd hlabel).trans (congrArg some h))
      cases hremote
    all_goals
      rw [hlabel] at h
      obtain rfl := Except.ok.inj h
      have hcases := cases_of_keyword (congrArg Prod.fst hlabel)
      simp at hcases

/-- A list of members is its destination, but for the ways to log nothing. -/
theorem collect_eq_collect_iff (hds : ∀ d ∈ ds, ∀ list, d ≠ .composite list)
    (hes : ∀ d ∈ es, ∀ list, d ≠ .composite list) :
    collect ds = collect es ↔ ds = es ∨ collect ds = .null ∧ collect es = .null := by
  constructor
  · intro h
    match ds, es with
    | [], [] => exact .inl rfl
    | [], [e] => exact .inr ⟨rfl, h.symm⟩
    | [], _ :: _ :: _ => cases h
    | [d], [] => exact .inr ⟨h, rfl⟩
    | [d], [e] => exact .inl (congrArg (fun d => [d]) h)
    | [d], _ :: _ :: _ => exact absurd h (hds d (List.mem_singleton_self d) _)
    | _ :: _ :: _, [] => cases h
    | _ :: _ :: _, [e] => exact absurd h.symm (hes e (List.mem_singleton_self e) _)
    | _ :: _ :: _, _ :: _ :: _ => exact .inl (LogDestination.composite.inj h)
  · rintro (rfl | ⟨h, h'⟩)
    · rfl
    · rw [h, h']

/-- No member is a list. -/
theorem ne_composite_of_forall₂ {ms : List String}
    (h : List.Forall₂ (fun a d => parseSingle a = .ok d) ms ds) :
    ∀ d ∈ ds, ∀ list, d ≠ .composite list := by
  induction h with
  | nil => exact nofun
  | cons hd _ ih => exact List.forall_mem_cons.mpr ⟨parseSingle_ne_composite hd, ih⟩

theorem ne_empty_of_mem_members (h : token ∈ members s) : token ≠ "" := by
  have hne := (List.mem_filter.mp h).2
  simpa using hne

/-- Nothing is logged exactly to the null destination. -/
theorem parse_eq_null_iff : parse s = .ok .null ↔ IsNull s := by
  rw [parse_eq_collect, Except.map_eq_ok]
  constructor
  · rintro ⟨ds, hds, hnull⟩
    have hforall := Except.mapM_eq_ok_iff.mp hds
    match ds with
    | [] => exact .inl (List.forall₂_nil_right_iff.mp hforall)
    | [d] =>
      obtain ⟨token, rest, htoken, hrest, hmembers⟩ := List.forall₂_cons_right_iff.mp hforall
      obtain rfl := List.forall₂_nil_right_iff.mp hrest
      have hne := ne_empty_of_mem_members (hmembers ▸ List.mem_singleton_self token)
      obtain rfl : d = .null := hnull
      refine .inr ⟨token, hmembers, ?_⟩
      rw [parseSingle_eq hne] at htoken
      match hlabel : label token with
      | (some k, _) =>
        rw [hlabel] at htoken
        exact congrArg some (Except.ok.inj htoken)
      | (none, some target) =>
        rw [hlabel] at htoken
        obtain ⟨_, _, _, hremote⟩ := exists_remote_of_label
          ((congrArg Prod.snd hlabel).trans (congrArg some htoken))
        cases hremote
      | (none, none) =>
        rw [hlabel] at htoken
        cases Except.ok.inj htoken
    | _ :: _ :: _ => cases hnull
  · rintro (hmembers | ⟨token, hmembers, hlabel⟩)
    · rw [hmembers]
      exact ⟨[], rfl, rfl⟩
    · have hne := ne_empty_of_mem_members (hmembers ▸ List.mem_singleton_self token)
      refine ⟨[.null], ?_, rfl⟩
      rw [hmembers, Except.mapM_eq_ok_iff]
      refine .cons ?_ .nil
      rw [parseSingle_eq hne, label_of_keyword hlabel]

end LogDestination

namespace Transform

open LogDestination

/-- A member means the same behind the translation: a path is made absolute, and anything else stays
what it is. -/
def SameMember (configDir : Option String) (a b : String) : Prop :=
  label a = label b ∧ (IsPath a → b = if isAbsLike a then a else anchored configDir a)

variable {configDir : Option String} {a b s : String} {d : LogDestination}

/-- A path among the members is kept only when it looks absolute. -/
theorem isVerbatim_member (htrim : Text.trim a = a) (hne : a ≠ "") (hpath : IsPath a) :
    isVerbatim a = isAbsLike a := by
  have hkeyword : keyword (Text.toAsciiLowercase a) = none := congrArg Prod.fst hpath
  have hauto : Text.eqIgnoreAsciiCase a "AUTO" = false := by
    rw [Text.eqIgnoreAsciiCase, decide_eq_false_iff_not]
    intro h
    rw [h] at hkeyword
    revert hkeyword
    decide
  have hnone : Text.eqIgnoreAsciiCase a "NONE" = false := by
    rw [Text.eqIgnoreAsciiCase, decide_eq_false_iff_not]
    intro h
    rw [h] at hkeyword
    revert hkeyword
    decide
  simp [isVerbatim, htrim, hne, hauto, hnone]

/-- What is parsed behind the translation is a member with the same meaning. -/
theorem parseSingle_mapPaths_iff (htrim : Text.trim a = a) (ha : a ≠ "") (hb : b ≠ "")
    (hd : parseSingle a = .ok d) :
    parseSingle b = .ok (d.mapPaths (absolutize · configDir)) ↔ SameMember configDir a b := by
  rw [SameMember, IsPath]
  rw [parseSingle_eq ha] at hd
  rw [parseSingle_eq hb]
  match hlabel : label a with
  | (some k, target) =>
    rw [hlabel] at hd
    obtain rfl := Except.ok.inj hd
    obtain rfl : target = none :=
      (congrArg Prod.snd ((label_of_keyword (congrArg Prod.fst hlabel)).symm.trans hlabel)).symm
    have hk := cases_of_keyword (congrArg Prod.fst hlabel)
    have hpaths : k.mapPaths (absolutize · configDir) = k := by
      obtain rfl | rfl | rfl | rfl | rfl := hk <;> rfl
    rw [hpaths]
    match hlabel' : label b with
    | (some k', target') =>
      obtain rfl : target' = none :=
        (congrArg Prod.snd ((label_of_keyword (congrArg Prod.fst hlabel')).symm.trans hlabel')).symm
      constructor
      · intro h
        obtain rfl := Except.ok.inj h
        exact ⟨rfl, nofun⟩
      · rintro ⟨h, -⟩
        obtain rfl := Option.some.inj (Prod.mk.inj h).1
        rfl
    | (none, some target') =>
      have hne : target' ≠ .ok k := by
        rintro rfl
        obtain ⟨_, _, _, rfl⟩ := exists_remote_of_label (congrArg Prod.snd hlabel')
        simp at hk
      simp [hne]
    | (none, none) =>
      have hne : LogDestination.file b ≠ k := by
        rintro rfl
        simp at hk
      simp [hne]
  | (none, some target) =>
    rw [hlabel] at hd
    obtain rfl : target = .ok d := hd
    obtain ⟨proto, host, port, rfl⟩ := exists_remote_of_label (congrArg Prod.snd hlabel)
    match hlabel' : label b with
    | (some k', target') =>
      have hk' := cases_of_keyword (congrArg Prod.fst hlabel')
      have hne : k' ≠ .syslog (.remote proto host port) := by
        rintro rfl
        simp at hk'
      simp [mapPaths, hne]
    | (none, some target') =>
      constructor
      · intro h
        obtain rfl : target' = .ok _ := h
        exact ⟨rfl, nofun⟩
      · rintro ⟨h, -⟩
        exact (Option.some.inj (Prod.mk.inj h).2).symm
    | (none, none) => simp [mapPaths]
  | (none, none) =>
    rw [hlabel] at hd
    obtain rfl := Except.ok.inj hd
    have habsolutize : absolutize a configDir =
        if isAbsLike a then a else anchored configDir a := by
      rw [absolutize, isVerbatim_member htrim ha hlabel]
    match hlabel' : label b with
    | (some k', target') =>
      have hk' := cases_of_keyword (congrArg Prod.fst hlabel')
      have hne : k' ≠ .file (absolutize a configDir) := by
        rintro rfl
        simp at hk'
      simp [mapPaths, hne]
    | (none, some target') =>
      have hne : target' ≠ .ok (.file (absolutize a configDir)) := by
        rintro rfl
        obtain ⟨_, _, _, hremote⟩ := exists_remote_of_label (congrArg Prod.snd hlabel')
        cases hremote
      simp [mapPaths, hne]
    | (none, none) => simp [mapPaths, habsolutize]

/-- The members behind the translation are parsed one by one. -/
theorem forall₂_sameMember_iff (configDir : Option String) {ms mu : List String}
    {ds : List LogDestination} (hms : ∀ a ∈ ms, Text.trim a = a ∧ a ≠ "") (hmu : ∀ b ∈ mu, b ≠ "")
    (hs : List.Forall₂ (fun a d => parseSingle a = .ok d) ms ds) :
    List.Forall₂ (fun b e => parseSingle b = .ok e) mu
        (ds.map (mapPaths (absolutize · configDir))) ↔
      List.Forall₂ (SameMember configDir) ms mu := by
  induction hs generalizing mu with
  | nil => rw [List.map_nil, List.forall₂_nil_right_iff, List.forall₂_nil_left_iff]
  | @cons a d ms ds hd _ ih =>
    obtain ⟨⟨htrim, hne⟩, hms⟩ := List.forall_mem_cons.mp hms
    match mu with
    | [] => simp
    | b :: mu =>
      obtain ⟨hb, hmu⟩ := List.forall_mem_cons.mp hmu
      rw [List.map_cons, List.forall₂_cons, List.forall₂_cons, ih hms hmu,
        parseSingle_mapPaths_iff htrim hne hb hd]

theorem mapPaths_eq_null_iff {f : String → String} : d.mapPaths f = .null ↔ d = .null := by
  cases d <;> simp [mapPaths]

/-- The translation keeps what a destination means, member by member, or nothing is logged before
and behind it. -/
theorem parse_eq_mapPaths_iff {u : String} (hd : parse s = .ok d) :
    parse u = .ok (d.mapPaths (absolutize · configDir)) ↔
      List.Forall₂ (SameMember configDir) (members s) (members u) ∨ IsNull s ∧ IsNull u := by
  have hparse := hd
  rw [parse_eq_collect, Except.map_eq_ok] at hd
  obtain ⟨ds, hds, rfl⟩ := hd
  rw [Except.mapM_eq_ok_iff] at hds
  have hmembers : ∀ a ∈ members s, Text.trim a = a ∧ a ≠ "" := fun a ha =>
    ⟨(of_mem_tokens ha).1, ne_empty_of_mem_members ha⟩
  have hmembers' : ∀ b ∈ members u, b ≠ "" := fun b hb => ne_empty_of_mem_members hb
  have hforall := forall₂_sameMember_iff configDir hmembers hmembers' hds
  constructor
  · intro h
    rw [parse_eq_collect, Except.map_eq_ok] at h
    obtain ⟨es, hes, hcollect⟩ := h
    have hes' := Except.mapM_eq_ok_iff.mp hes
    have hsimple : ∀ d ∈ ds.map (mapPaths (absolutize · configDir)), ∀ list,
        d ≠ .composite list := by
      intro e he list heq
      obtain ⟨d, hd, rfl⟩ := List.mem_map.mp he
      have hne := ne_composite_of_forall₂ hds d hd
      cases d <;> simp_all [mapPaths]
    rw [mapPaths_collect, collect_eq_collect_iff (ne_composite_of_forall₂ hes') hsimple] at hcollect
    obtain rfl | ⟨hu, hs⟩ := hcollect
    · exact .inl (hforall.mp hes')
    · rw [← mapPaths_collect, mapPaths_eq_null_iff] at hs
      refine .inr ⟨parse_eq_null_iff.mp (hs ▸ hparse), parse_eq_null_iff.mp ?_⟩
      rw [parse_eq_collect, hes, ← hu]
      rfl
  · rintro (h | ⟨hs, hu⟩)
    · have hes := Except.mapM_eq_ok_iff.mpr (hforall.mpr h)
      rw [parse_eq_collect, hes, mapPaths_collect]
      rfl
    · rw [← parse_eq_null_iff, hparse, Except.ok.injEq] at hs
      rw [hs, mapPaths]
      · exact parse_eq_null_iff.mpr hu
      all_goals simp

end Transform

end Rsupervisord
