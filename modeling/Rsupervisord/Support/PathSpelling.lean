import Rsupervisord.Support.PathNormal

/-!
# Spellings of a path

A path that is spelled without `..` and does not begin with a dot has its own components for its
normal form. Two such paths that are seen from one directory are the same file only when they have
the same components, or one of them is relative and the other names what lies behind the directory.

## Main definitions

* `UnixPath.Tidy`: the spelling has no `..` and no dot at its start.
* `UnixPath.place`: the components of a tidy path, seen from a directory.

* `UnixPath.EndsInName`: the last segment of a path is a name.

## Main results

* `UnixPath.stack_absolute`: the normal form of a tidy path that is made absolute.
* `UnixPath.place_eq_of_absNorm_eq`, `UnixPath.absNorm_eq_of_place_eq`: tidy paths are the same file
  when they are at one place.
* `UnixPath.lexicalNorm_append`, `UnixPath.lexicalNorm_join_append`: names behind a path that ends
  in a name, or behind the beginning of a path, are normal already.
-/

namespace UnixPath

open Text

variable {path path' : String}

/-- The path is spelled without `..` and does not begin with a dot. -/
structure Tidy (path : String) : Prop where
  nonempty : path ≠ ""
  noDotDot : ".." ∉ split '/' path
  noDot : (split '/' path).head? ≠ some "."

instance (path : String) : Decidable (Tidy path) :=
  decidable_of_iff (path ≠ "" ∧ ".." ∉ split '/' path ∧ (split '/' path).head? ≠ some ".")
    ⟨fun h => ⟨h.1, h.2.1, h.2.2⟩, fun h => ⟨h.nonempty, h.noDotDot, h.noDot⟩⟩

/-- Where a tidy path is, seen from the directory `cwd`. -/
def place (cwd path : String) : List Component :=
  if isAbsolute path then components path else stack cwd ++ components path

/-- The segments of a path that are names. -/
def names (path : String) : List String := (split '/' path).filter fun s => s ≠ "" ∧ s ≠ "."

/-- The components of a tidy path are its names, behind the root when it is absolute. -/
theorem Tidy.components_eq (h : Tidy path) :
    components path = start path ++ (names path).map .normal := by
  have hsegments : (names path).map Component.ofSegment = (names path).map .normal := by
    refine List.map_congr_left fun segment hsegment => if_neg ?_
    rintro rfl
    exact h.noDotDot (List.mem_filter.mp hsegment).1
  rw [components, start, ← names, hsegments, if_neg h.noDot]
  split_ifs <;> rfl

theorem isName_of_mem_names (h : Tidy path) {name : String} (hname : name ∈ names path) :
    IsName name := by
  obtain ⟨hsplit, hkept⟩ := List.mem_filter.mp hname
  obtain ⟨hempty, hdot⟩ := of_decide_eq_true hkept
  refine ⟨hempty, hdot, fun hdots => h.noDotDot (hdots ▸ hsplit), ?_⟩
  obtain ⟨cs, hcs, rfl⟩ := List.mem_map.mp hsplit
  rw [String.toList_ofList]
  exact notMem_of_mem_splitOn hcs

theorem IsName.isAbsolute {name : String} (h : IsName name) : isAbsolute name = false := by
  rw [UnixPath.isAbsolute, decide_eq_false_iff_not]
  exact fun hhead => h.noSlash (List.mem_of_mem_head? hhead)

theorem IsName.body {name : String} (h : IsName name) : body name = [.normal name] := by
  have hkept : decide (name ≠ "" ∧ name ≠ ".") = true := decide_eq_true ⟨h.nonempty, h.notDot⟩
  rw [UnixPath.body, split_of_noSlash h.noSlash, List.filter_cons, if_pos hkept, List.filter_nil,
    List.map_singleton, Component.ofSegment, if_neg h.notDotDot]

/-- Names are appended to the normal form of a base. -/
theorem stack_extend_names (base : String) {names : List String}
    (hnames : ∀ name ∈ names, IsName name) :
    stack (extend base (names.map .normal)) = stack base ++ names.map .normal := by
  induction names generalizing base with
  | nil => exact (List.append_nil _).symm
  | cons name names ih =>
    obtain ⟨hname, hnames⟩ := List.forall_mem_cons.mp hnames
    have hstep : stack (join base name) = stack base ++ [.normal name] := by
      rw [stack_join base hname.isAbsolute, hname.body]
      rfl
    have hextend : extend base ((name :: names).map .normal) =
        extend (join base name) (names.map .normal) := rfl
    rw [hextend, ih (join base name) hnames, hstep, List.append_assoc]
    rfl

/-- A slash at the end makes no difference. -/
theorem stack_join_empty (slash : Prop) [Decidable slash] (base : String) :
    stack (if slash then join base "" else base) = stack base := by
  split_ifs
  · rw [stack_join base (by decide), body_empty]
    rfl
  · rfl

/-- A tidy path that is made absolute is found at its place. -/
theorem stack_absolute (cwd : String) (h : Tidy path) :
    stack (absolute cwd path) = place cwd path := by
  have hnames : ∀ name ∈ names path, IsName name := fun _ => isName_of_mem_names h
  have hdots : (components path).dropWhile (· = .curDir) = components path := by
    rw [h.components_eq, start]
    cases hpath : names path with
    | nil => split_ifs <;> rfl
    | cons name names => split_ifs <;> rfl
  have hroot : ∀ base, base = "/" ∨ base = "//" →
      stack (extend base ((names path).map .normal)) =
        .rootDir :: (names path).map .normal := by
    rintro base (rfl | rfl) <;> rw [stack_extend_names _ hnames] <;> rfl
  have hnormalized : stack (if isAbsolute path then
        if path.toList.take 2 = ['/', '/'] ∧ path.toList.take 3 ≠ ['/', '/', '/'] then
          extend "//" (components path).tail
        else extend "" (components path)
      else extend cwd (components path)) = place cwd path := by
    rw [place, h.components_eq, start]
    split_ifs with habsolute hslashes
    · exact hroot "//" (.inr rfl)
    · exact hroot "/" (.inl rfl)
    · exact stack_extend_names cwd hnames
  rw [absolute, hdots]
  exact (stack_join_empty _ _).trans hnormalized

/-- Tidy paths that are the same file are at one place. -/
theorem place_eq_of_absNorm_eq {cwd : String} (h : Tidy path) (h' : Tidy path')
    (hnorm : absNorm cwd path = absNorm cwd path') : place cwd path = place cwd path' := by
  rw [absNorm, absNorm, if_neg h.nonempty, if_neg h'.nonempty] at hnorm
  rw [← stack_absolute cwd h, ← stack_absolute cwd h', ← stack_lexicalNorm, hnorm,
    stack_lexicalNorm]

/-- Tidy paths at one place are the same file. -/
theorem absNorm_eq_of_place_eq {cwd : String} (h : Tidy path) (h' : Tidy path')
    (hsome : place cwd path ≠ []) (hplace : place cwd path = place cwd path') :
    absNorm cwd path = absNorm cwd path' := by
  have hne : ∀ {p}, Tidy p → place cwd p ≠ [] → absolute cwd p ≠ "" := fun hp hsome hempty => by
    have hstack := stack_absolute cwd hp
    rw [hempty] at hstack
    exact hsome hstack.symm
  rw [absNorm, absNorm, if_neg h.nonempty, if_neg h'.nonempty]
  refine lexicalNorm_congr (iff_of_false (hne h hsome) (hne h' (hplace ▸ hsome))) ?_
  rw [stack_absolute cwd h, stack_absolute cwd h', hplace]

/-! ## Names behind a path -/

/-- The last segment of the path is a name. -/
def EndsInName (path : String) : Prop :=
  ∃ name, (split '/' path).getLast? = some name ∧ IsName name

/-- Every segment of the path is a name. -/
def AllNames (path : String) : Prop := ∀ segment ∈ split '/' path, IsName segment

variable {name rest : String}

/-- A path has one segment, or a first one and the others behind a slash. -/
theorem split_cases (path : String) :
    '/' ∉ path.toList ∨ ∃ first rest, '/' ∉ first.toList ∧ path = first ++ "/" ++ rest ∧
      split '/' path = first :: split '/' rest := by
  by_cases hslash : '/' ∈ path.toList
  · obtain ⟨cs, ds, hpath, hcs⟩ := List.eq_append_cons_of_mem hslash
    have hfirst : '/' ∉ (String.ofList cs).toList := by rwa [String.toList_ofList]
    have heq : path = String.ofList cs ++ "/" ++ String.ofList ds := by
      apply String.toList_injective
      simp [hpath]
    refine .inr ⟨.ofList cs, .ofList ds, hfirst, heq, ?_⟩
    rw [heq, split_append_slash, split_of_noSlash hfirst]
    rfl
  · exact .inl hslash

/-- A path that ends in a name is the name behind nothing or behind a slash. -/
theorem EndsInName.exists_eq (h : EndsInName path) :
    ∃ base name, IsName name ∧ path = base ++ name ∧
      (base = "" ∨ base.toList.getLast? = some '/') := by
  obtain ⟨name, hlast, hname⟩ := h
  by_cases hslash : '/' ∈ path.toList
  · obtain ⟨cs, ds, hpath, hcs⟩ := List.eq_append_cons_of_mem (List.mem_reverse.mpr hslash)
    have htoList : path.toList = ds.reverse ++ '/' :: cs.reverse := by
      rw [← List.reverse_reverse path.toList, hpath]
      simp
    have heq : path = String.ofList ds.reverse ++ "/" ++ String.ofList cs.reverse := by
      apply String.toList_injective
      simp [htoList]
    have hbehind : '/' ∉ (String.ofList cs.reverse).toList := by simpa using hcs
    rw [heq, split_append_slash, split_of_noSlash hbehind, List.getLast?_append,
      List.getLast?_singleton, Option.some_or] at hlast
    obtain rfl := Option.some.inj hlast
    exact ⟨String.ofList ds.reverse ++ "/", _, hname, heq, .inr (by simp)⟩
  · rw [split_of_noSlash hslash, List.getLast?_singleton] at hlast
    obtain rfl := Option.some.inj hlast
    exact ⟨"", path, hname, String.empty_append.symm, .inl rfl⟩

theorem AllNames.isAbsolute (h : AllNames path) : UnixPath.isAbsolute path = false := by
  obtain hslash | ⟨first, rest', hfirst, rfl, hsplit⟩ := split_cases path
  · rw [AllNames, split_of_noSlash hslash, List.forall_mem_singleton] at h
    exact h.isAbsolute
  · rw [AllNames, hsplit, List.forall_mem_cons] at h
    rw [String.append_assoc, isAbsolute_append h.1.nonempty]
    exact h.1.isAbsolute

/-- A name behind a base is the last component of the normal form. -/
theorem IsName.lexicalNorm_append {base : String}
    (hbase : base = "" ∨ base.toList.getLast? = some '/') (h : IsName name) :
    lexicalNorm (base ++ name) = join (extend "" (stack base)) name := by
  have hjoin : base ++ name = join base name := by
    rw [join, if_neg (by simp [h.isAbsolute]), if_pos hbase]
  have hne : base ++ name ≠ "" := by
    intro hempty
    exact h.nonempty (String.append_eq_empty_iff.mp hempty).2
  rw [lexicalNorm_eq, if_neg hne, hjoin, stack_join base h.isAbsolute, h.body]
  have hstack : [Component.normal name].foldl pushNormal (stack base) =
      stack base ++ [.normal name] := rfl
  rw [hstack, if_neg (by simp), extend, extend, List.foldl_append]
  rfl

/-- A name with more characters behind it is a name. -/
theorem IsName.append (h : IsName name) (hrest : '/' ∉ rest.toList) : IsName (name ++ rest) := by
  have hdots : ∀ text, name ++ rest = text → text = "." ∨ text = ".." → False := by
    rintro _ rfl htext
    have hprefix : name.toList <+: (name ++ rest).toList := by
      rw [String.toList_append]
      exact List.prefix_append _ _
    have hname : name = "" ∨ name = "." ∨ name = ".." := by
      simp only [← String.toList_inj]
      obtain htext | htext := htext <;> rw [htext, ← List.mem_inits] at hprefix <;>
        simp at hprefix ⊢ <;> tauto
    obtain hname | hname | hname := hname
    · exact h.nonempty hname
    · exact h.notDot hname
    · exact h.notDotDot hname
  refine ⟨fun hempty => h.nonempty (String.append_eq_empty_iff.mp hempty).1,
    fun hdot => hdots _ hdot (.inl rfl), fun hdot => hdots _ hdot (.inr rfl), ?_⟩
  simp [h.noSlash, hrest]

/-- Joining leaves what is behind a relative path where it is. -/
theorem join_append (base : String) (hne : path ≠ "") (h : isAbsolute path = false)
    (rest : String) : join base (path ++ rest) = join base path ++ rest := by
  rw [join, join, isAbsolute_append hne, h]
  simp only [Bool.false_eq_true, if_false]
  split_ifs <;> simp only [String.append_assoc]

/-- The normal form of a path that ends in a name ends in the name. -/
theorem EndsInName.lexicalNorm (h : EndsInName path) :
    UnixPath.lexicalNorm path ≠ "" ∧ (UnixPath.lexicalNorm path).toList.getLast? ≠ some '/' := by
  obtain ⟨base, name, hname, rfl, hbase⟩ := h.exists_eq
  have hlast : ∀ text : String, (text ++ name).toList.getLast? ≠ some '/' := by
    intro text
    obtain ⟨cs, c, hcs⟩ := (List.eq_nil_or_concat name.toList).resolve_left
      (mt String.toList_eq_nil_iff.mp hname.nonempty)
    rw [String.toList_append, hcs, List.concat_eq_append, ← List.append_assoc,
      List.getLast?_concat, ne_eq, Option.some.injEq]
    rintro rfl
    exact hname.noSlash (hcs ▸ by simp)
  have hne : ∀ text : String, text ++ name ≠ "" := fun text hempty =>
    hname.nonempty (String.append_eq_empty_iff.mp hempty).2
  rw [hname.lexicalNorm_append hbase, join, if_neg (by simp [hname.isAbsolute])]
  split_ifs
  · exact ⟨hne _, hlast _⟩
  · exact ⟨hne _, hlast _⟩

/-- What ends in a name ends in it behind a slash. -/
theorem EndsInName.append {base : String} (h : EndsInName path)
    (hbase : base = "" ∨ base.toList.getLast? = some '/') : EndsInName (base ++ path) := by
  obtain ⟨name, hlast, hname⟩ := h
  obtain rfl | hslash := hbase
  · exact ⟨name, by rwa [String.empty_append], hname⟩
  · obtain ⟨ds, hds⟩ := List.getLast?_eq_some_iff.mp hslash
    have heq : base = String.ofList ds ++ "/" := by
      apply String.toList_injective
      simp [hds]
    refine ⟨name, ?_, hname⟩
    rw [heq, split_append_slash, List.getLast?_append, hlast, Option.some_or]

theorem IsName.endsInName (h : IsName name) : EndsInName name :=
  ⟨name, by rw [split_of_noSlash h.noSlash]; rfl, h⟩

/-- A relative path ends in its name behind every base. -/
theorem EndsInName.join (base : String) (h : EndsInName path) (hpath : isAbsolute path = false) :
    EndsInName (UnixPath.join base path) := by
  rw [UnixPath.join, if_neg (by simp [hpath])]
  split_ifs with hbase
  · exact h.append hbase
  · exact h.append (.inr (by simp))

/-- An absolute normal form ends in a name, unless it is the root. -/
theorem endsInName_lexicalNorm (habsolute : isAbsolute (UnixPath.lexicalNorm path) = true)
    (hroot : UnixPath.lexicalNorm path ≠ "/") : EndsInName (UnixPath.lexicalNorm path) := by
  obtain ⟨-, hnorm⟩ | ⟨-, -, hnorm⟩ | ⟨-, hstack, hnorm⟩ := lexicalNorm_cases path
  · rw [hnorm] at habsolute
    cases habsolute
  · rw [hnorm] at habsolute
    cases habsolute
  · rw [hnorm] at habsolute hroot ⊢
    obtain ⟨names, hnames, heq⟩ | hrelative := isNormal_stack path
    · obtain rfl | ⟨names, last, rfl⟩ := List.eq_nil_or_concat names
      · exact absurd (heq ▸ rfl) hroot
      · have hlast : IsName last := hnames last (by simp)
        have hjoin : extend "" (stack path) =
            join (extend "" (.rootDir :: names.map .normal)) last := by
          rw [heq, List.concat_eq_append, List.map_append, ← List.cons_append, extend,
            List.foldl_append]
          rfl
        rw [hjoin]
        exact hlast.endsInName.join _ hlast.isAbsolute
    · -- A relative stack is written without a root.
      rw [(hrelative.split_extend hstack).2.1] at habsolute
      cases habsolute

theorem EndsInName.of_slash {base : String} (h : EndsInName (base ++ "/" ++ path)) :
    EndsInName path := by
  obtain ⟨name, hlast, hname⟩ := h
  refine ⟨name, ?_, hname⟩
  have hne : split '/' path ≠ [] := by
    rw [split, ne_eq, List.map_eq_nil_iff]
    exact List.splitOn_ne_nil _ _
  rw [split_append_slash, List.getLast?_append, List.getLast?_eq_some_getLast hne,
    Option.some_or] at hlast
  rw [List.getLast?_eq_some_getLast hne, hlast]

/-- The segments of the rest of a path, but for its first one, are segments of the path. -/
theorem AllNames.tail (h : AllNames (path ++ rest)) :
    ∀ segment ∈ (split '/' rest).tail, IsName segment := by
  obtain hslash | ⟨first, rest', hfirst, rfl, hsplit⟩ := split_cases rest
  · rw [split_of_noSlash hslash]
    exact nofun
  · intro segment hsegment
    rw [hsplit] at hsegment
    refine h segment ?_
    rw [← String.append_assoc, ← String.append_assoc, split_append_slash]
    exact List.mem_append_right _ hsegment

/-- More characters behind the last name stay behind it. -/
theorem EndsInName.lexicalNorm_append (h : EndsInName path) (hrest : '/' ∉ rest.toList) :
    EndsInName (path ++ rest) ∧
      UnixPath.lexicalNorm (path ++ rest) = UnixPath.lexicalNorm path ++ rest := by
  obtain ⟨base, name, hname, rfl, hbase⟩ := h.exists_eq
  rw [String.append_assoc, hname.lexicalNorm_append hbase,
    (hname.append hrest).lexicalNorm_append hbase,
    join_append _ hname.nonempty hname.isAbsolute]
  exact ⟨(hname.append hrest).endsInName.append hbase, rfl⟩

/-- One more name behind the path stays behind its normal form. -/
theorem EndsInName.lexicalNorm_slash (h : EndsInName path) (hname : IsName name) :
    EndsInName (path ++ "/" ++ name) ∧
      UnixPath.lexicalNorm (path ++ "/" ++ name) = UnixPath.lexicalNorm path ++ "/" ++ name := by
  refine ⟨hname.endsInName.append (.inr (by simp)), ?_⟩
  obtain ⟨hne, hlast⟩ := h.lexicalNorm
  have hpath : path ≠ "" := mt lexicalNorm_eq_empty_iff.mpr hne
  have hstack : stack (path ++ "/") = stack path := by
    have hbody := body_append_slash path ""
    rw [String.append_empty, body_empty, List.append_nil] at hbody
    rw [stack, stack, start, start, isAbsolute_append hpath, hbody]
  -- The name at the end of the path is on its stack, which is not empty then.
  have hextend : extend "" (stack path) = UnixPath.lexicalNorm path := by
    obtain ⟨hempty, -⟩ | ⟨-, hnil, -⟩ | ⟨-, -, hnorm⟩ := lexicalNorm_cases path
    · exact absurd hempty hpath
    · obtain ⟨base, last, hname', rfl, hbase⟩ := h.exists_eq
      have hjoin : base ++ last = UnixPath.join base last := by
        rw [UnixPath.join, if_neg (by simp [hname'.isAbsolute]), if_pos hbase]
      rw [hjoin, stack_join base hname'.isAbsolute, hname'.body] at hnil
      exact absurd hnil (by simp [pushNormal])
    · exact hnorm.symm
  rw [hname.lexicalNorm_append (.inr (by simp)), hstack, hextend, UnixPath.join,
    if_neg (by simp [hname.isAbsolute]), if_neg (by simp [hne, hlast])]

/-- Names behind the path stay behind its normal form. -/
theorem EndsInName.lexicalNorm_names (h : EndsInName path) (hrest : AllNames rest) :
    EndsInName (path ++ "/" ++ rest) ∧
      UnixPath.lexicalNorm (path ++ "/" ++ rest) = UnixPath.lexicalNorm path ++ "/" ++ rest := by
  induction hsegments : split '/' rest generalizing path rest with
  | nil => exact absurd hsegments (by simp [split])
  | cons first segments ih =>
    obtain hslash | ⟨first', rest', hfirst, heq, hsplit⟩ := split_cases rest
    · rw [AllNames, split_of_noSlash hslash, List.forall_mem_singleton] at hrest
      exact h.lexicalNorm_slash hrest
    · rw [AllNames, hsplit, List.forall_mem_cons] at hrest
      rw [hsplit] at hsegments
      obtain ⟨-, hsegments⟩ := List.cons.inj hsegments
      obtain ⟨hends, hnorm⟩ := h.lexicalNorm_slash hrest.1
      obtain ⟨hends', hnorm'⟩ := ih hends hrest.2 hsegments
      have hassoc : path ++ "/" ++ rest = path ++ "/" ++ first' ++ "/" ++ rest' := by
        rw [heq]
        simp only [String.append_assoc]
      rw [hassoc]
      refine ⟨hends', ?_⟩
      rw [hnorm', hnorm, heq]
      simp only [String.append_assoc]

/-- What is behind the last name of a path stays behind its normal form, when it has names only
behind its first slash. -/
theorem lexicalNorm_append (h : EndsInName path)
    (hrest : ∀ segment ∈ (split '/' rest).tail, IsName segment) :
    lexicalNorm (path ++ rest) = lexicalNorm path ++ rest := by
  obtain hslash | ⟨first, rest', hfirst, heq, hsplit⟩ := split_cases rest
  · exact (h.lexicalNorm_append hslash).2
  · rw [hsplit, List.tail_cons] at hrest
    obtain ⟨hends, hnorm⟩ := h.lexicalNorm_append hfirst
    rw [heq, ← String.append_assoc, ← String.append_assoc, (hends.lexicalNorm_names hrest).2, hnorm]
    simp only [String.append_assoc]

/-- A base with the slash that joining puts behind it. -/
theorem join_eq_append (base : String) (h : isAbsolute path = false) :
    join base path = join base "" ++ path ∧
      (join base "" = "" ∨ (join base "").toList.getLast? = some '/') := by
  have hempty : isAbsolute "" = false := by decide
  rw [join, join, h, hempty]
  simp only [Bool.false_eq_true, if_false, String.append_empty]
  split_ifs with hbase
  · exact ⟨rfl, hbase⟩
  · exact ⟨rfl, .inr (by simp)⟩

/-- Names behind the beginning of a path are names behind its normal form. -/
theorem lexicalNorm_join_append {start : String} (base : String)
    (hstart : start = "" ∨ start.toList.getLast? = some '/')
    (hrelative : isAbsolute (start ++ path) = false) (hpath : AllNames path) :
    lexicalNorm (join base (start ++ path)) =
      join (extend "" (stack (join base start))) "" ++ path := by
  obtain ⟨hjoin, hbase⟩ : join base (start ++ path) = join base start ++ path ∧
      (join base start = "" ∨ (join base start).toList.getLast? = some '/') := by
    by_cases hne : start = ""
    · subst hne
      rw [String.empty_append] at hrelative ⊢
      exact join_eq_append base hrelative
    · rw [isAbsolute_append hne] at hrelative
      refine ⟨join_append base hne hrelative path, .inr ?_⟩
      obtain ⟨ds, hds⟩ := List.getLast?_eq_some_iff.mp (hstart.resolve_left hne)
      rw [join, if_neg (by simp [hrelative])]
      split_ifs <;>
        rw [String.toList_append, hds, ← List.append_assoc, List.getLast?_concat]
  -- The first name is put on the stack of the base; the others stay as they are behind it.
  rw [hjoin, ← (join_eq_append _ hpath.isAbsolute).1]
  obtain hslash | ⟨first, rest, hfirst, heq, hsplit⟩ := split_cases path
  · rw [AllNames, split_of_noSlash hslash, List.forall_mem_singleton] at hpath
    exact hpath.lexicalNorm_append hbase
  · rw [AllNames, hsplit, List.forall_mem_cons] at hpath
    have hends : EndsInName (join base start ++ first) := hpath.1.endsInName.append hbase
    rw [heq, String.append_assoc, join_append _ hpath.1.nonempty hpath.1.isAbsolute,
      ← hpath.1.lexicalNorm_append hbase, ← String.append_assoc, ← String.append_assoc,
      ← String.append_assoc, (hends.lexicalNorm_names hpath.2).2]

end UnixPath
