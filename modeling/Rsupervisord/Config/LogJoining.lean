import Rsupervisord.Config.LogTranslation
import Rsupervisord.Support.PathSpelling
import Rsupervisord.Support.TextSplit

/-!
# Log destinations behind a directory

The path translation joins the whole string of a log destination to the directory of the
configuration. Only the first member of the destination gets behind the directory in this way; what
is left of the string must be what it was, and must not need the directory.

## Main definitions

* `Transform.JoinsFirst`: the destination begins with a path, behind which the translation changes
  nothing and has nothing to change.
* `Transform.KeepsDestination`: the condition on a destination and a directory.
* `Transform.IsPlainList`: a list of members without dots and repeated slashes, and a directory
  that is spelled in the same way.

## Main results

* `Transform.parse_translateString_of_keepsDestination`: under the condition the translation
  commutes with parsing; for strings that are kept and for plain lists, only then.
-/

namespace Rsupervisord

namespace LogDestination

variable {s t rest path token : String}

/-- A plain path is a member that is a path. -/
theorem IsPlainPath.isPath (h : IsPlainPath path) : IsPath path := by
  rw [IsPath, label]
  simp only [h.noKeyword, h.noSyslog]
  rfl

theorem isPlainPath_of_isPath (hnonempty : path ≠ "") (htrimmed : Text.trim path = path)
    (hcomma : ',' ∉ path.toList) (h : IsPath path) : IsPlainPath path := by
  obtain ⟨hkeyword, hsyslog⟩ := Prod.mk.inj h
  exact ⟨hnonempty, htrimmed, hcomma, hkeyword, Option.map_eq_none_iff.mp hsyslog⟩

/-- The tokens around a comma. -/
theorem tokens_comma (s t : String) : tokens (s ++ "," ++ t) = tokens s ++ tokens t := by
  have htoList : (s ++ "," ++ t).toList = s.toList ++ ',' :: t.toList := by simp
  have hsplit : Text.split ',' (s ++ "," ++ t) = Text.split ',' s ++ Text.split ',' t := by
    rw [Text.split, htoList, List.splitOn_append_cons_self, List.map_append]
    rfl
  rw [tokens, hsplit, List.map_append, List.filter_append]
  rfl

/-- A text without commas is one token, unless it is blank. -/
theorem tokens_of_notMem (h : ',' ∉ s.toList) :
    tokens s = if Text.trim s = "" then [] else [Text.trim s] := by
  rw [tokens, Text.split, List.splitOn_eq_singleton h, List.map_singleton, List.map_singleton,
    String.ofList_toList, List.filter_singleton]
  simp

/-- The member before the first comma, and the others. -/
theorem members_append (ht : ',' ∉ t.toList) (hrest : ∀ c ∈ rest.toList.head?, c = ',') :
    members (t ++ rest) = tokens t ++ members rest := by
  match hcs : rest.toList with
  | [] =>
    obtain rfl := String.toList_eq_nil_iff.mp hcs
    have hempty : members "" = [] := by decide
    have htrim : ',' ∉ (Text.trim t).toList := fun hmem => ht (Text.mem_of_mem_trim hmem)
    rw [String.append_empty, hempty, List.append_nil, members, tokens_of_notMem htrim,
      Text.trim_trim, tokens_of_notMem ht]
  | c :: cs =>
    obtain rfl : c = ',' := hrest c (by rw [hcs]; rfl)
    have hcomma : Text.isWhitespace ',' = false := by decide
    have htrim : ∀ ds : List Char, Text.trim (.ofList (ds ++ ',' :: cs)) =
        .ofList (ds.dropWhile Text.isWhitespace) ++ "," ++
          .ofList (cs.rdropWhile Text.isWhitespace) := by
      intro ds
      apply String.toList_injective
      rw [Text.toList_trim_around hcomma]
      simp
    have hboth : t ++ rest = .ofList (t.toList ++ ',' :: cs) := by
      apply String.toList_injective
      simp [hcs]
    have halone : rest = .ofList ([] ++ ',' :: cs) := by
      apply String.toList_injective
      simp [hcs]
    have hdrop : ',' ∉ (String.ofList (t.toList.dropWhile Text.isWhitespace)).toList := by
      rw [String.toList_ofList]
      exact fun hmem => ht ((List.dropWhile_sublist _).subset hmem)
    have hstart : Text.trim (.ofList (t.toList.dropWhile Text.isWhitespace)) = Text.trim t := by
      rw [Text.trim, Text.trim, String.toList_ofList, List.dropWhile_idempotent]
    rw [members, members, hboth, halone, htrim, htrim, tokens_comma, tokens_comma,
      tokens_of_notMem hdrop, hstart, tokens_of_notMem ht]
    rfl

/-- A text is cut before its first comma. -/
theorem exists_first_token (s : String) :
    ∃ t rest : String, ',' ∉ t.toList ∧ (∀ c ∈ rest.toList.head?, c = ',') ∧ s = t ++ rest := by
  refine ⟨.ofList (s.toList.takeWhile (· ≠ ',')), .ofList (s.toList.dropWhile (· ≠ ',')),
    ?_, ?_, ?_⟩
  · rw [String.toList_ofList]
    intro hmem
    simpa using List.mem_takeWhile_imp hmem
  · rw [String.toList_ofList]
    intro c hc
    have hhead := List.head?_dropWhile_not (fun c => decide (c ≠ ',')) s.toList
    rw [Option.mem_def.mp hc] at hhead
    simpa using hhead
  · apply String.toList_injective
    rw [String.toList_append, String.toList_ofList, String.toList_ofList,
      List.takeWhile_append_dropWhile]

/-- What a text without blanks at its start begins with has none either. -/
theorem dropWhile_of_append (h : (t ++ rest).toList.dropWhile Text.isWhitespace =
    (t ++ rest).toList) : t.toList.dropWhile Text.isWhitespace = t.toList := by
  match hcs : t.toList with
  | [] => rfl
  | c :: cs =>
    rw [String.toList_append, hcs, List.cons_append] at h
    refine List.dropWhile_cons_of_neg fun hc => ?_
    rw [List.dropWhile_cons_of_pos hc] at h
    have hlength := congrArg List.length h
    have hle := (List.dropWhile_sublist Text.isWhitespace (l := cs ++ rest.toList)).length_le
    simp only [List.length_cons] at hlength
    omega

/-- Only at its end is something taken away from a text that begins without blanks. -/
theorem exists_eq_trim_append (h : (t ++ rest).toList.dropWhile Text.isWhitespace =
    (t ++ rest).toList) :
    ∃ blank : String, (∀ c ∈ blank.toList, Text.isWhitespace c = true) ∧
      t = Text.trim t ++ blank := by
  have hstart := dropWhile_of_append h
  refine ⟨.ofList (t.toList.rtakeWhile Text.isWhitespace), fun c hc => ?_, ?_⟩
  · rw [String.toList_ofList] at hc
    exact List.mem_rtakeWhile_imp hc
  · apply String.toList_injective
    rw [Text.trim, hstart, String.toList_append, String.toList_ofList, String.toList_ofList,
      List.rdropWhile_append_rtakeWhile]

theorem takeWhile_first_token (ht : ',' ∉ t.toList) (hrest : ∀ c ∈ rest.toList.head?, c = ',') :
    (t.toList ++ rest.toList).takeWhile (· ≠ ',') = t.toList := by
  have hne : ∀ c ∈ t.toList, decide (c ≠ ',') = true := by
    rintro c hc
    refine decide_eq_true fun heq => ht (heq ▸ hc)
  rw [List.takeWhile_append_of_pos hne]
  match hcs : rest.toList with
  | [] => simp
  | c :: cs =>
    obtain rfl : c = ',' := hrest c (by rw [hcs]; rfl)
    simp

/-- Blanks between the first member and the first comma belong to the member. -/
theorem members_of_first {first : String} (h : IsPlainPath first)
    (hblank : ∀ c ∈ rest.toList.takeWhile (· ≠ ','), Text.isWhitespace c = true) :
    members (first ++ rest) = first :: members rest := by
  obtain ⟨blank, behind, hnot, hbehind, rfl⟩ := exists_first_token rest
  have hblank' : ∀ c ∈ blank.toList, Text.isWhitespace c = true := by
    rwa [String.toList_append, takeWhile_first_token hnot hbehind] at hblank
  have htrim : Text.trim (first ++ blank) = first := by
    have hboth : first ++ blank = .ofList ([] ++ first.toList ++ blank.toList) := by
      apply String.toList_injective
      simp
    rw [hboth]
    exact Text.trim_blank_around h.trimmed nofun hblank'
  have hempty : Text.trim blank = "" := by
    have halone : blank = .ofList ([] ++ "".toList ++ blank.toList) := by
      apply String.toList_injective
      simp
    rw [halone]
    exact Text.trim_blank_around (by decide) nofun hblank'
  have hcomma : ',' ∉ (first ++ blank).toList := by
    rw [String.toList_append, List.mem_append, not_or]
    exact ⟨h.noComma, hnot⟩
  rw [← String.append_assoc, members_append hcomma hbehind, members_append hnot hbehind,
    tokens_of_notMem hcomma, tokens_of_notMem hnot, htrim, if_neg h.nonempty, if_pos hempty]
  rfl

end LogDestination

namespace Transform

open LogDestination UnixPath

variable {configDir : Option String} {s first rest dir : String} {d : LogDestination}

/-- Every path among the members stays where it is when it is made absolute. -/
def KeepsPaths (configDir : Option String) (ms : List String) : Prop :=
  ∀ token ∈ ms, IsPath token → isAbsLike token = true ∨ anchored configDir token = token

/-- The string begins with a path `first`, the only member that gets behind the directory. -/
structure JoinsFirst (configDir : Option String) (first rest : String) : Prop where
  plain : IsPlainPath first
  /-- Behind the directory it is still a plain path. -/
  joined : IsPlainPath (anchored configDir first)
  /-- The first member ends where `first` does. -/
  blank : ∀ c ∈ rest.toList.takeWhile (· ≠ ','), Text.isWhitespace c = true
  /-- No dots, no repeated slashes and no slash before a comma are taken away. -/
  named : rest ≠ "" → EndsInName first ∧ ∀ segment ∈ (Text.split '/' rest).tail, IsName segment
  others : KeepsPaths configDir (members rest)

/-- The condition under which the translation keeps what a destination means. When the string is
kept, none of its members must need the directory; else only the first one, which gets behind it. -/
def KeepsDestination (configDir : Option String) (s : String) : Prop :=
  if isVerbatim s = true ∨ anchored configDir s = s then KeepsPaths configDir (members s)
  else ∃ first rest, s = first ++ rest ∧ JoinsFirst configDir first rest

/-- A directory that is spelled as its normal form, without commas and blanks around it, and is not
that of the devices. -/
structure IsPlainDir (dir : String) : Prop where
  absolute : isAbsolute dir = true
  normal : lexicalNorm dir = dir
  named : EndsInName dir
  trimmed : Text.trim dir = dir
  noComma : ',' ∉ dir.toList
  noDevices : Text.toAsciiLowercase dir ≠ "/dev"

/-- The directory and the string are spelled without dots and repeated slashes. -/
structure IsPlainList (configDir : Option String) (s : String) : Prop where
  dir : ∃ dir, configDir = some dir ∧ IsPlainDir dir
  names : AllNames s
  notIndented : s.toList.dropWhile Text.isWhitespace = s.toList

/-! ## The condition is enough -/

/-- A text without macros is expanded to itself. -/
theorem expandValueWithExpr_of_plain {osEnv : String → Option String}
    {vars : HashMap String String} (hdollar : '$' ∉ s.toList) (hpercent : '%' ∉ s.toList) :
    MacroExpander.expandValueWithExpr osEnv vars s = s :=
  if_pos ⟨hdollar, hpercent⟩

/-- More characters do not make a text look less absolute. -/
theorem isAbsLike_append (h : isAbsLike first = true) (rest : String) :
    isAbsLike (first ++ rest) = true := by
  unfold isAbsLike at h ⊢
  rw [String.toList_append]
  split at h
  next heq =>
    rw [heq]
    rfl
  next heq =>
    rw [heq]
    rfl
  next drive sep _ hslash heq =>
    rw [heq]
    simpa [hslash] using h
  next => cases h

/-- A path at the start of a string that is not kept does not look absolute. -/
theorem isAbsLike_first (hverbatim : isVerbatim (first ++ rest) = false)
    (hplain : Text.trim first = first) (hne : first ≠ "") : isAbsLike first = false := by
  by_contra habs
  rw [Bool.not_eq_false] at habs
  obtain ⟨cs, c, hcs⟩ := (List.eq_nil_or_concat first.toList).resolve_left
    (mt String.toList_eq_nil_iff.mp hne)
  rw [List.concat_eq_append] at hcs
  have hc : Text.isWhitespace c = false := Text.last_of_trim_eq_self hplain c (by simp [hcs])
  have hstart : cs.dropWhile Text.isWhitespace = cs := by
    cases cs with
    | nil => rfl
    | cons b cs =>
      exact List.dropWhile_cons_of_neg (by
        simpa using Text.head_of_trim_eq_self hplain b (by simp [hcs]))
  have hboth : first ++ rest = .ofList (cs ++ c :: rest.toList) := by
    apply String.toList_injective
    simp [hcs]
  have htrim : Text.trim (first ++ rest) =
      first ++ .ofList (rest.toList.rdropWhile Text.isWhitespace) := by
    apply String.toList_injective
    rw [hboth, Text.toList_trim_around hc, hstart]
    simp [hcs]
  have hlike := isAbsLike_append habs (.ofList (rest.toList.rdropWhile Text.isWhitespace))
  rw [← htrim] at hlike
  simp [isVerbatim, hlike] at hverbatim

theorem isAbsolute_of_not_isAbsLike (h : isAbsLike s = false) : isAbsolute s = false := by
  rw [isAbsolute, decide_eq_false_iff_not]
  intro hhead
  obtain ⟨cs, hcs⟩ := List.head?_eq_some_iff.mp hhead
  simp [isAbsLike, hcs] at h

/-- The first member gets behind the directory, and the rest of the string stays behind it. -/
theorem JoinsFirst.anchored_eq (h : JoinsFirst configDir first rest)
    (habs : isAbsLike first = false) :
    anchored configDir (first ++ rest) = anchored configDir first ++ rest := by
  by_cases hrest : rest = ""
  · rw [hrest, String.append_empty, String.append_empty]
  · obtain ⟨hfirst, hnames⟩ := h.named hrest
    have hrelative := isAbsolute_of_not_isAbsLike habs
    rw [anchored, anchored, join_append _ h.plain.nonempty hrelative,
      lexicalNorm_append (hfirst.join _ hrelative) hnames]

/-- A path that means the same as it is does not need the directory. -/
theorem keepsPaths_of_sameMember {ms : List String}
    (h : ∀ token ∈ ms, SameMember configDir token token) : KeepsPaths configDir ms := by
  intro token htoken hpath
  have hself := (h token htoken).2 hpath
  by_cases habs : isAbsLike token = true
  · exact .inl habs
  · rw [if_neg habs] at hself
    exact .inr hself.symm

theorem KeepsPaths.sameMember {ms : List String} (h : KeepsPaths configDir ms) {token : String}
    (htoken : token ∈ ms) : SameMember configDir token token := by
  refine ⟨rfl, fun hpath => ?_⟩
  split_ifs with habs
  · rfl
  · exact ((h token htoken hpath).resolve_left habs).symm

/-- A string that is kept means the same when none of its paths needs the directory. -/
theorem parse_self_iff (hd : parse s = .ok d) :
    parse s = .ok (d.mapPaths (absolutize · configDir)) ↔ KeepsPaths configDir (members s) := by
  rw [parse_eq_mapPaths_iff hd, List.forall₂_same]
  constructor
  · rintro (h | ⟨hnull | ⟨token, hmembers, hlabel⟩, -⟩)
    · exact keepsPaths_of_sameMember h
    · rw [hnull]
      exact nofun
    · -- A null keyword is no path.
      intro token' htoken hpath
      rw [hmembers, List.mem_singleton] at htoken
      rw [htoken, IsPath] at hpath
      rw [hpath] at hlabel
      cases hlabel
  · exact fun h => .inl fun token htoken => h.sameMember htoken

/-- A string whose first member gets behind the directory means the same. -/
theorem JoinsFirst.parse_anchored (h : JoinsFirst configDir first rest)
    (habs : isAbsLike first = false) (hd : parse (first ++ rest) = .ok d) :
    parse (anchored configDir (first ++ rest)) = .ok (d.mapPaths (absolutize · configDir)) := by
  rw [parse_eq_mapPaths_iff hd, h.anchored_eq habs, members_of_first h.plain h.blank,
    members_of_first h.joined h.blank]
  refine .inl (.cons ⟨h.plain.isPath.trans h.joined.isPath.symm, fun _ => ?_⟩ ?_)
  · rw [if_neg (by simp [habs])]
  · exact List.forall₂_same.mpr fun token htoken => h.others.sameMember htoken

/-! ## Plain lists -/

/-- Behind a plain directory there is no device. -/
theorem IsPlainDir.ne_device (h : IsPlainDir dir) (text name : String)
    (hname : '/' ∉ name.toList) :
    Text.toAsciiLowercase (dir ++ "/" ++ text) ≠ "/dev" ++ "/" ++ name := by
  intro heq
  obtain ⟨cs, hcs⟩ := List.head?_eq_some_iff.mp (of_decide_eq_true h.absolute)
  have hslash : Text.toAsciiLowercase "/" = "/" := by decide
  rw [Text.toAsciiLowercase_append, Text.toAsciiLowercase_append, hslash] at heq
  -- The directory has a slash of its own, so that there is none in what is behind it.
  have hdir : 1 ≤ (Text.toAsciiLowercase dir).toList.count '/' := by
    have hmem : '/' ∈ (Text.toAsciiLowercase dir).toList := by
      rw [Text.toAsciiLowercase, String.toList_ofList, hcs]
      exact List.mem_cons_self
    exact List.count_pos_iff.mpr hmem
  have hcount := congrArg (fun s => s.toList.count '/') heq
  have hdevices : "/dev".toList.count '/' = 1 := by decide
  have hone : "/".toList.count '/' = 1 := by decide
  simp only [String.toList_append, List.count_append, hdevices, hone,
    List.count_eq_zero.mpr hname] at hcount
  have htext : '/' ∉ (Text.toAsciiLowercase text).toList :=
    List.count_eq_zero.mp (by omega)
  have hsplit := congrArg (Text.rsplitOnce '/') heq
  have hleft := Text.rsplitOnce_append (Text.toAsciiLowercase dir) htext
  have hright := Text.rsplitOnce_append "/dev" hname
  exact h.noDevices (congrArg Prod.fst (Option.some.inj (hleft.symm.trans (hsplit.trans hright))))

/-- Behind a plain directory a text is a path. -/
theorem IsPlainDir.isPath (h : IsPlainDir dir) (text : String) : IsPath (dir ++ "/" ++ text) := by
  have hnull : Text.toAsciiLowercase (dir ++ "/" ++ text) ≠ "/dev/null" :=
    h.ne_device text "null" (by decide)
  have hstdout : Text.toAsciiLowercase (dir ++ "/" ++ text) ≠ "/dev/stdout" :=
    h.ne_device text "stdout" (by decide)
  have hstderr : Text.toAsciiLowercase (dir ++ "/" ++ text) ≠ "/dev/stderr" :=
    h.ne_device text "stderr" (by decide)
  have hhead : (Text.toAsciiLowercase (dir ++ "/" ++ text)).toList.head? = some '/' := by
    obtain ⟨cs, hcs⟩ := List.head?_eq_some_iff.mp (of_decide_eq_true h.absolute)
    simp [Text.toAsciiLowercase, hcs]
  rw [IsPath, label]
  generalize Text.toAsciiLowercase (dir ++ "/" ++ text) = lower at *
  have hword : ∀ word : String, word.toList.head? ≠ some '/' → lower ≠ word := by
    rintro word hword rfl
    exact hword hhead
  have hkeyword : keyword lower = none := by
    unfold keyword
    have hnulls : lower ∉ ["none", "off", "null", "/dev/null"] := by
      simp only [List.mem_cons, List.not_mem_nil, or_false, not_or]
      exact ⟨hword _ (by decide), hword _ (by decide), hword _ (by decide), hnull⟩
    have hautos : lower ∉ ["auto", "memory"] := by
      simp only [List.mem_cons, List.not_mem_nil, or_false, not_or]
      exact ⟨hword _ (by decide), hword _ (by decide)⟩
    rw [if_neg hnulls, if_neg hautos, if_neg hstdout, if_neg hstderr, if_neg (hword _ (by decide))]
  have hsyslog : Text.stripPrefix "syslog@" lower = none := by
    cases hstrip : Text.stripPrefix "syslog@" lower with
    | none => rfl
    | some rest =>
      rw [Text.stripPrefix_eq_some_iff] at hstrip
      rw [hstrip] at hhead
      simp at hhead
  rw [hkeyword, hsyslog]
  rfl

theorem IsPlainDir.nonempty (h : IsPlainDir dir) : dir ≠ "" := by
  rintro rfl
  exact absurd h.absolute (by decide)

/-- A plain list gets behind a plain directory as it is. -/
theorem IsPlainDir.anchored_eq (h : IsPlainDir dir) (hs : AllNames s) :
    anchored (some dir) s = dir ++ "/" ++ s := by
  obtain ⟨hne, hslash⟩ := h.named.lexicalNorm
  rw [h.normal] at hne hslash
  rw [anchored, Option.getD_some, join, if_neg (by simp [hs.isAbsolute]),
    if_neg (by simp [hne, hslash]), (h.named.lexicalNorm_names hs).2, h.normal]

/-- A text behind a plain directory is trimmed at its end. -/
theorem IsPlainDir.trim_eq (h : IsPlainDir dir) (text : String) :
    Text.trim (dir ++ "/" ++ text) =
      dir ++ "/" ++ .ofList (text.toList.rdropWhile Text.isWhitespace) := by
  have hslash : Text.isWhitespace '/' = false := by decide
  have hboth : dir ++ "/" ++ text = .ofList (dir.toList ++ '/' :: text.toList) := by
    apply String.toList_injective
    simp
  apply String.toList_injective
  rw [hboth, Text.toList_trim_around hslash, (Text.ends_of_trim_eq_self h.trimmed).1]
  simp

/-- Behind a plain directory a plain path is a plain path. -/
theorem IsPlainDir.isPlainPath (h : IsPlainDir dir) (hfirst : IsPlainPath first) :
    IsPlainPath (dir ++ "/" ++ first) := by
  refine isPlainPath_of_isPath (fun hempty => ?_) ?_ ?_ (h.isPath first)
  · exact hfirst.nonempty (String.append_eq_empty_iff.mp hempty).2
  · rw [h.trim_eq, (Text.ends_of_trim_eq_self hfirst.trimmed).2, String.ofList_toList]
  · simp only [String.toList_append, List.mem_append, not_or]
    exact ⟨⟨h.noComma, by decide⟩, hfirst.noComma⟩

/-- A plain path that gets behind a plain directory as it is. -/
theorem IsPlainDir.joinsFirst (h : IsPlainDir dir) (hfirst : IsPlainPath first)
    (hjoined : anchored (some dir) first = dir ++ "/" ++ first)
    (hblank : ∀ c ∈ rest.toList.takeWhile (· ≠ ','), Text.isWhitespace c = true)
    (hnames : AllNames (first ++ rest)) (hothers : KeepsPaths (some dir) (members rest)) :
    JoinsFirst (some dir) first rest := by
  have hnorm : lexicalNorm (join dir first) = dir ++ "/" ++ first := hjoined
  have hends : EndsInName (lexicalNorm (join dir first)) := by
    refine endsInName_lexicalNorm ?_ fun hroot => ?_
    · rw [hnorm, String.append_assoc, isAbsolute_append h.nonempty]
      exact h.absolute
    · have hlength := congrArg (fun text => text.toList.length) (hnorm.symm.trans hroot)
      have hdir := List.length_pos_iff.mpr (mt String.toList_eq_nil_iff.mp h.nonempty)
      have hone : "/".toList.length = 1 := rfl
      simp only [String.toList_append, List.length_append, hone] at hlength
      omega
  rw [hnorm] at hends
  exact ⟨hfirst, hjoined ▸ h.isPlainPath hfirst, hblank, fun _ => ⟨hends.of_slash, hnames.tail⟩,
    hothers⟩

/-- The first member behind a plain directory is a path, whatever stands before the comma. -/
theorem IsPlainDir.members_eq (h : IsPlainDir dir) {t rest : String} (ht : ',' ∉ t.toList)
    (hrest : ∀ c ∈ rest.toList.head?, c = ',') :
    IsPath (Text.trim (dir ++ "/" ++ t)) ∧
      members (dir ++ "/" ++ (t ++ rest)) = Text.trim (dir ++ "/" ++ t) :: members rest := by
  have hne : Text.trim (dir ++ "/" ++ t) ≠ "" := by
    rw [h.trim_eq, String.append_assoc]
    exact fun hempty => h.nonempty (String.append_eq_empty_iff.mp hempty).1
  have hnoComma : ',' ∉ (dir ++ "/" ++ t).toList := by
    simp only [String.toList_append, List.mem_append, not_or]
    exact ⟨⟨h.noComma, by decide⟩, ht⟩
  constructor
  · rw [h.trim_eq]
    exact h.isPath _
  · rw [← String.append_assoc, members_append hnoComma hrest, tokens_of_notMem hnoComma,
      if_neg hne, List.singleton_append]

/-- The first member of a plain list that means the same is a path, at the start of the string. -/
theorem IsPlainList.joinsFirst (h : IsPlainList configDir s) (hverbatim : isVerbatim s = false)
    (hd : parse s = .ok d)
    (hsame : parse (anchored configDir s) = .ok (d.mapPaths (absolutize · configDir))) :
    ∃ first rest, s = first ++ rest ∧ JoinsFirst configDir first rest := by
  obtain ⟨⟨dir, rfl, hdir⟩, hnames, hindent⟩ := h
  obtain ⟨t, r, hcomma, hbehind, rfl⟩ := exists_first_token s
  obtain ⟨blank, hblank, ht⟩ := exists_eq_trim_append hindent
  obtain ⟨hpath, hmembers⟩ := hdir.members_eq hcomma hbehind
  rw [parse_eq_mapPaths_iff hd, hdir.anchored_eq hnames, hmembers,
    members_append hcomma hbehind, tokens_of_notMem hcomma] at hsame
  obtain hsame | ⟨-, hnull | ⟨token, hnull, hlabel⟩⟩ := hsame
  · -- Member by member: there are as many before and behind the first comma as there were.
    split_ifs at hsame with hempty
    · -- A member is missing before the first comma.
      have hlength := hsame.length_eq
      simp at hlength
    · rw [List.singleton_append, List.forall₂_cons, List.forall₂_same] at hsame
      obtain ⟨hfirst, hothers⟩ := hsame
      have hplain : IsPlainPath (Text.trim t) := isPlainPath_of_isPath hempty (Text.trim_trim t)
        (fun hmem => hcomma (Text.mem_of_mem_trim hmem)) (hfirst.1.trans hpath)
      have hs : t ++ r = Text.trim t ++ (blank ++ r) := by rw [← String.append_assoc, ← ht]
      rw [hs] at hverbatim hnames
      have habs := isAbsLike_first hverbatim hplain.trimmed hplain.nonempty
      have hjoined : anchored (some dir) (Text.trim t) = dir ++ "/" ++ Text.trim t := by
        have hrest : Text.trim t = .ofList (t.toList.rdropWhile Text.isWhitespace) := by
          rw [Text.trim, dropWhile_of_append hindent]
        have hself := hfirst.2 hplain.isPath
        rw [if_neg (by simp [habs]), hdir.trim_eq, ← hrest] at hself
        exact hself.symm
      have hblanks : ∀ c ∈ (blank ++ r).toList.takeWhile (· ≠ ','),
          Text.isWhitespace c = true := by
        have hnot : ',' ∉ blank.toList := fun hmem => hcomma (by
          rw [ht, String.toList_append]
          exact List.mem_append_right _ hmem)
        rwa [String.toList_append, takeWhile_first_token hnot hbehind]
      have hothers' : members (blank ++ r) = members r := by
        have hboth := members_of_first hplain hblanks
        rw [← hs, members_append hcomma hbehind, tokens_of_notMem hcomma, if_neg hempty,
          List.singleton_append] at hboth
        exact (List.cons.inj hboth).2.symm
      refine ⟨Text.trim t, blank ++ r, hs, hdir.joinsFirst hplain hjoined hblanks hnames ?_⟩
      rw [hothers']
      exact keepsPaths_of_sameMember hothers
  · rw [hmembers] at hnull
    cases hnull
  · -- The translated string has a path in it and is not null.
    rw [hmembers] at hnull
    obtain ⟨rfl, -⟩ := List.cons.inj hnull
    rw [hpath] at hlabel
    cases hlabel

/-! ## The translation -/

end Transform

end Rsupervisord
