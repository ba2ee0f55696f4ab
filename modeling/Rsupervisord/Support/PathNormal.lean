import Rsupervisord.Support.UnixPath

/-!
# Normal paths

What a lexically normal path looks like, and how it is put together from the normal forms of a base
and of a relative path. Normalizing is a run over the components with the normal form so far as its
state, and this state is what the components so far do to any other state.

## Main definitions

* `UnixPath.stack`: the components of the normal form.
* `UnixPath.IsNormal`: a normal form.

## Main results

* `UnixPath.foldl_pushNormal_foldl`: a list of components acts as its normal form.
* `UnixPath.stack_join`: the normal form of a joined path.
* `UnixPath.components_extend`: a normal form is found again in its text.
-/

namespace UnixPath

open Text

/-- A segment that names an entry of a directory. -/
structure IsName (name : String) : Prop where
  nonempty : name ≠ ""
  notDot : name ≠ "."
  notDotDot : name ≠ ".."
  noSlash : '/' ∉ name.toList

/-- Some `..`, and names behind them. -/
def IsRelative (cs : List Component) : Prop :=
  ∃ (n : ℕ) (names : List String), (∀ name ∈ names, IsName name) ∧
    cs = List.replicate n .parentDir ++ names.map .normal

/-- The root with names behind it, or a relative path with its `..` at the start. -/
def IsNormal (cs : List Component) : Prop :=
  (∃ names : List String, (∀ name ∈ names, IsName name) ∧ cs = .rootDir :: names.map .normal) ∨
    IsRelative cs

/-- The component of a segment that is not left out. -/
def body (path : String) : List Component :=
  ((split '/' path).filter fun s => s ≠ "" ∧ s ≠ ".").map .ofSegment

/-- The components that a path begins with: the root or nothing. -/
def start (path : String) : List Component := if isAbsolute path then [.rootDir] else []

/-- The components of the normal form. -/
def stack (path : String) : List Component := (body path).foldl pushNormal (start path)

variable {path base : String} {cs ds : List Component} {c : Component}

/-- A dot at the start makes no difference. -/
theorem foldl_components (path : String) : (components path).foldl pushNormal [] = stack path := by
  rw [components, stack, start]
  split_ifs
  · rfl
  · rfl
  · rfl

theorem lexicalNorm_eq : lexicalNorm path =
    if path = "" then "" else if (stack path).isEmpty then "." else extend "" (stack path) := by
  rw [lexicalNorm, foldl_components]

/-! ## Components as steps -/

/-- The component of a segment between slashes. -/
def IsSegment (c : Component) : Prop := c = .parentDir ∨ ∃ name, IsName name ∧ c = .normal name

theorem isSegment_of_mem_body (h : c ∈ body path) : IsSegment c := by
  obtain ⟨segment, hsegment, rfl⟩ := List.mem_map.mp h
  obtain ⟨hsplit, hkept⟩ := List.mem_filter.mp hsegment
  obtain ⟨hempty, hdot⟩ := of_decide_eq_true hkept
  rw [Component.ofSegment]
  split_ifs with hdots
  · exact .inl rfl
  · obtain ⟨cs, hcs, rfl⟩ := List.mem_map.mp hsplit
    refine .inr ⟨_, ⟨hempty, hdot, hdots, ?_⟩, rfl⟩
    rw [String.toList_ofList]
    exact notMem_of_mem_splitOn hcs

/-- A `..` takes the name before it away. -/
theorem pushNormal_parentDir (cs : List Component) (name : String) :
    pushNormal (cs ++ [.normal name]) .parentDir = cs := by
  simp [pushNormal]

/-- A relative normal form stays one. -/
theorem IsRelative.pushNormal (h : IsRelative cs) (hc : IsSegment c) :
    IsRelative (pushNormal cs c) := by
  obtain ⟨n, names, hnames, rfl⟩ := h
  obtain rfl | ⟨name, hname, rfl⟩ := hc
  · obtain rfl | ⟨names, last, rfl⟩ := names.eq_nil_or_concat
    · refine ⟨n + 1, [], by simp, ?_⟩
      cases n with
      | zero => rfl
      | succ n => simp [UnixPath.pushNormal, List.replicate_succ']
    · refine ⟨n, names, fun name hname => hnames name (by simp [hname]), ?_⟩
      rw [List.concat_eq_append, List.map_append, ← List.append_assoc]
      exact pushNormal_parentDir _ last
  · refine ⟨n, names ++ [name], ?_, ?_⟩
    · intro name' hname'
      obtain hname' | hname' := List.mem_append.mp hname'
      · exact hnames name' hname'
      · exact List.mem_singleton.mp hname' ▸ hname
    · simp [UnixPath.pushNormal]

/-- A normal form stays one. -/
theorem IsNormal.pushNormal (h : IsNormal cs) (hc : IsSegment c) : IsNormal (pushNormal cs c) := by
  obtain ⟨names, hnames, rfl⟩ | h := h
  · obtain rfl | ⟨name, hname, rfl⟩ := hc
    · obtain rfl | ⟨names, last, rfl⟩ := names.eq_nil_or_concat
      · exact .inl ⟨[], hnames, rfl⟩
      · refine .inl ⟨names, fun name hname => hnames name (by simp [hname]), ?_⟩
        rw [List.concat_eq_append, List.map_append, ← List.cons_append]
        exact pushNormal_parentDir _ last
    · refine .inl ⟨names ++ [name], ?_, by simp [UnixPath.pushNormal]⟩
      intro name' hname'
      obtain hname' | hname' := List.mem_append.mp hname'
      · exact hnames name' hname'
      · exact List.mem_singleton.mp hname' ▸ hname
  · exact .inr (h.pushNormal hc)

theorem foldl_invariant {I : List Component → Prop}
    (hstep : ∀ cs c, I cs → IsSegment c → I (pushNormal cs c)) (hds : ∀ c ∈ ds, IsSegment c)
    (h : I cs) : I (ds.foldl pushNormal cs) := by
  induction ds generalizing cs with
  | nil => exact h
  | cons c ds ih =>
    obtain ⟨hc, hds⟩ := List.forall_mem_cons.mp hds
    exact ih hds (hstep cs c h hc)

theorem isRelative_nil : IsRelative [] := ⟨0, [], by simp, rfl⟩

theorem isNormal_stack (path : String) : IsNormal (stack path) := by
  apply foldl_invariant (fun cs c => IsNormal.pushNormal) fun c => isSegment_of_mem_body
  rw [start]
  split_ifs
  · exact .inl ⟨[], by simp, rfl⟩
  · exact .inr isRelative_nil

/-! ## Normal forms as steps -/

theorem foldl_pushNormal_names (names : List String) (cs : List Component) :
    (names.map Component.normal).foldl pushNormal cs = cs ++ names.map .normal := by
  induction names generalizing cs with
  | nil => simp
  | cons name names ih => rw [List.map_cons, List.foldl_cons, ih]; simp [pushNormal]

theorem foldl_pushNormal_replicate (n m : ℕ) :
    (List.replicate n Component.parentDir).foldl pushNormal (List.replicate m .parentDir) =
      List.replicate (m + n) .parentDir := by
  induction n generalizing m with
  | zero => rfl
  | succ n ih =>
    have hpush : pushNormal (List.replicate m .parentDir) .parentDir =
        List.replicate (m + 1) .parentDir := by
      cases m with
      | zero => rfl
      | succ m => simp [pushNormal, List.replicate_succ']
    rw [List.replicate_succ, List.foldl_cons, hpush, ih, Nat.add_assoc, Nat.add_comm 1]

/-- The components of a relative normal form make it up again. -/
theorem IsRelative.foldl_eq (h : IsRelative cs) : cs.foldl UnixPath.pushNormal [] = cs := by
  obtain ⟨n, names, -, rfl⟩ := h
  have hreplicate := foldl_pushNormal_replicate n 0
  rw [List.replicate_zero, Nat.zero_add] at hreplicate
  rw [List.foldl_append, hreplicate, foldl_pushNormal_names]

/-- Segments do to any state what their normal form does. -/
theorem foldl_pushNormal_foldl (hds : ∀ c ∈ ds, IsSegment c) (cs : List Component) :
    (ds.foldl pushNormal []).foldl pushNormal cs = ds.foldl pushNormal cs := by
  induction ds using List.reverseRecOn with
  | nil => rfl
  | append_singleton ds c ih =>
    have hinit : ∀ c ∈ ds, IsSegment c := fun c hc => hds c (List.mem_append_left _ hc)
    have hrelative : IsRelative (ds.foldl pushNormal []) :=
      foldl_invariant (fun cs c => IsRelative.pushNormal) hinit isRelative_nil
    rw [List.foldl_append, List.foldl_append, ← ih hinit]
    generalize ds.foldl pushNormal [] = form at hrelative
    obtain ⟨n, names, -, rfl⟩ := hrelative
    obtain rfl | ⟨name, -, rfl⟩ := hds c (by simp)
    · obtain rfl | ⟨names, last, rfl⟩ := names.eq_nil_or_concat
      · -- The `..` is added to those at the start.
        cases n with
        | zero => rfl
        | succ n => simp [pushNormal, List.replicate_succ', List.foldl_append]
      · -- The `..` takes the last name away, before and after.
        simp [pushNormal, List.foldl_append, ← List.append_assoc]
    · simp [pushNormal, List.foldl_append]

/-! ## Joined paths -/

theorem split_append_slash (s t : String) : split '/' (s ++ "/" ++ t) = split '/' s ++
    split '/' t := by
  have htoList : (s ++ "/" ++ t).toList = s.toList ++ '/' :: t.toList := by simp
  rw [split, htoList, List.splitOn_append_cons_self, List.map_append]
  rfl

theorem body_append_slash (s t : String) : body (s ++ "/" ++ t) = body s ++ body t := by
  rw [body, split_append_slash, List.filter_append, List.map_append]
  rfl

theorem body_empty : body "" = [] := by decide

theorem isAbsolute_append (h : base ≠ "") (t : String) : isAbsolute (base ++ t) =
    isAbsolute base := by
  obtain ⟨d, ds, hd⟩ := List.exists_cons_of_ne_nil (mt String.toList_eq_nil_iff.mp h)
  rw [isAbsolute, isAbsolute, String.toList_append, hd]
  rfl

/-- A relative path goes on from the normal form of its base. -/
theorem stack_join (base : String) (h : isAbsolute path = false) :
    stack (join base path) = (body path).foldl pushNormal (stack base) := by
  have hpath : ¬ isAbsolute path = true := by simp [h]
  rw [join, if_neg hpath]
  by_cases hempty : base = ""
  · subst hempty
    rw [if_pos (.inl rfl), String.empty_append, stack, start, if_neg hpath]
    rfl
  · by_cases hslash : base.toList.getLast? = some '/'
    · obtain ⟨ds, hds⟩ := List.getLast?_eq_some_iff.mp hslash
      have hbase : base = String.ofList ds ++ "/" ++ "" := by
        apply String.toList_injective
        simp [hds]
      have hjoin : base ++ path = String.ofList ds ++ "/" ++ path := by
        rw [hbase, String.append_empty]
      have hbody : body base = body (String.ofList ds) := by
        rw [hbase, body_append_slash, body_empty, List.append_nil]
      rw [if_pos (.inr hslash), stack, start, isAbsolute_append hempty, hjoin, body_append_slash,
        List.foldl_append, ← hbody]
      rfl
    · have hcondition : ¬ (base = "" ∨ base.toList.getLast? = some '/') := by simp [hempty, hslash]
      rw [if_neg hcondition, stack, start, body_append_slash, List.foldl_append,
        String.append_assoc,
        isAbsolute_append hempty]
      rfl

/-! ## The text of a normal form -/

theorem IsSegment.toPath (h : IsSegment c) :
    c.toPath ≠ "" ∧ c.toPath ≠ "." ∧ '/' ∉ c.toPath.toList ∧ .ofSegment c.toPath = c := by
  obtain rfl | ⟨name, hname, rfl⟩ := h
  · exact ⟨by decide, by decide, by decide, rfl⟩
  · exact ⟨hname.nonempty, hname.notDot, hname.noSlash, if_neg hname.notDotDot⟩

theorem split_of_noSlash {s : String} (h : '/' ∉ s.toList) : split '/' s = [s] := by
  rw [split, List.splitOn_eq_singleton h, List.map_singleton, String.ofList_toList]

/-- Segments are appended one by one to a base that does not end in a slash. -/
theorem split_extend (hbase : base ≠ "" ∧ base.toList.getLast? ≠ some '/')
    (hcs : ∀ c ∈ cs, IsSegment c) :
    split '/' (extend base cs) = split '/' base ++ cs.map Component.toPath ∧
      isAbsolute (extend base cs) = isAbsolute base ∧ extend base cs ≠ "" := by
  induction cs generalizing base with
  | nil => exact ⟨by simp [extend], rfl, hbase.1⟩
  | cons c cs ih =>
    obtain ⟨hc, hcs⟩ := List.forall_mem_cons.mp hcs
    obtain ⟨hempty, -, hslash, -⟩ := hc.toPath
    have hrelative : ¬ isAbsolute c.toPath = true := by
      intro habsolute
      exact hslash (List.mem_of_mem_head? (of_decide_eq_true habsolute))
    have hcondition : ¬ (base = "" ∨ base.toList.getLast? = some '/') := by simp [hbase]
    have hjoin : join base c.toPath = base ++ "/" ++ c.toPath := by
      rw [join, if_neg hrelative, if_neg hcondition]
    have hnext : base ++ "/" ++ c.toPath ≠ "" ∧
        (base ++ "/" ++ c.toPath).toList.getLast? ≠ some '/' := by
      refine ⟨by simp, fun hlast => hslash ?_⟩
      obtain ⟨d, hd⟩ := Option.isSome_iff_exists.mp
        (List.getLast?_isSome.mpr (mt String.toList_eq_nil_iff.mp hempty))
      rw [String.toList_append, List.getLast?_append, hd, Option.some_or] at hlast
      obtain rfl := Option.some.inj hlast
      exact List.mem_of_mem_getLast? hd
    obtain ⟨hsplit, habsolute, hne⟩ := ih hnext hcs
    have hextend : extend base (c :: cs) = extend (base ++ "/" ++ c.toPath) cs :=
      congrArg (extend · cs) hjoin
    rw [hextend]
    refine ⟨?_, ?_, hne⟩
    · rw [hsplit, split_append_slash, split_of_noSlash hslash, List.append_assoc]
      rfl
    · rw [habsolute, String.append_assoc, isAbsolute_append hbase.1]

/-- The components are found again between empty segments. -/
theorem body_of_split {text : String} (xs ys : List String)
    (h : split '/' text = xs ++ cs.map Component.toPath ++ ys) (hxs : ∀ x ∈ xs, x = "")
    (hys : ∀ y ∈ ys, y = "") (hcs : ∀ c ∈ cs, IsSegment c) : body text = cs := by
  have hempty : ∀ {zs : List String}, (∀ z ∈ zs, z = "") →
      zs.filter (fun s => s ≠ "" ∧ s ≠ ".") = [] := by
    intro zs hzs
    rw [List.filter_eq_nil_iff]
    intro z hz
    simp [hzs z hz]
  have hkept : (cs.map Component.toPath).filter (fun s => s ≠ "" ∧ s ≠ ".") =
      cs.map Component.toPath := by
    rw [List.filter_eq_self, List.forall_mem_map]
    intro c hc
    obtain ⟨hempty, hdot, -⟩ := (hcs c hc).toPath
    exact decide_eq_true ⟨hempty, hdot⟩
  have hback : (cs.map Component.toPath).map Component.ofSegment = cs := by
    rw [List.map_map]
    conv_rhs => rw [← List.map_id cs]
    exact List.map_congr_left fun c hc => (hcs c hc).toPath.2.2.2
  rw [body, h, List.filter_append, List.filter_append, hempty hxs, hempty hys, hkept,
    List.nil_append, List.append_nil, hback]

theorem IsRelative.isSegment (h : IsRelative cs) : ∀ c ∈ cs, IsSegment c := by
  obtain ⟨n, names, hnames, rfl⟩ := h
  intro c hc
  obtain hc | hc := List.mem_append.mp hc
  · exact .inl (List.eq_of_mem_replicate hc)
  · obtain ⟨name, hname, rfl⟩ := List.mem_map.mp hc
    exact .inr ⟨name, hnames name hname, rfl⟩

/-- A segment with segments appended. -/
theorem split_extend_segment (hc : IsSegment c) (hcs : ∀ c ∈ cs, IsSegment c) :
    split '/' (extend c.toPath cs) = (c :: cs).map Component.toPath ∧
      isAbsolute (extend c.toPath cs) = false ∧ extend c.toPath cs ≠ "" := by
  obtain ⟨hempty, -, hslash, -⟩ := hc.toPath
  have hbase : c.toPath ≠ "" ∧ c.toPath.toList.getLast? ≠ some '/' :=
    ⟨hempty, fun hlast => hslash (List.mem_of_mem_getLast? hlast)⟩
  obtain ⟨hsplit, habsolute, hne⟩ := split_extend hbase hcs
  refine ⟨?_, ?_, hne⟩
  · rw [hsplit, split_of_noSlash hslash]
    rfl
  · rw [habsolute, isAbsolute, decide_eq_false_iff_not]
    exact fun hhead => hslash (List.mem_of_mem_head? hhead)

theorem join_empty (path : String) : join "" path = path := by
  rw [join]
  split_ifs with habsolute hbase
  · rfl
  · exact String.empty_append
  · exact absurd (.inl rfl) hbase

theorem IsRelative.split_extend (h : IsRelative cs) (hne : cs ≠ []) :
    split '/' (extend "" cs) = cs.map Component.toPath ∧ isAbsolute (extend "" cs) = false ∧
      extend "" cs ≠ "" := by
  obtain ⟨c, cs, rfl⟩ := List.exists_cons_of_ne_nil hne
  obtain ⟨hc, hcs⟩ := List.forall_mem_cons.mp h.isSegment
  have hextend : extend "" (c :: cs) = extend c.toPath cs :=
    congrArg (extend · cs) (join_empty c.toPath)
  rw [hextend]
  exact split_extend_segment hc hcs

theorem split_extend_root {names : List String} (hnames : ∀ name ∈ names, IsName name) :
    ∃ ys, (∀ y ∈ ys, y = "") ∧
      split '/' (extend "" (.rootDir :: names.map .normal)) = "" :: names ++ ys ∧
      isAbsolute (extend "" (.rootDir :: names.map .normal)) = true ∧
      extend "" (.rootDir :: names.map .normal) ≠ "" := by
  cases names with
  | nil => exact ⟨[""], by simp, by decide, by decide, by decide⟩
  | cons name names =>
    obtain ⟨hname, hnames⟩ := List.forall_mem_cons.mp hnames
    have hcs : ∀ c ∈ names.map Component.normal, IsSegment c := by
      rw [List.forall_mem_map]
      exact fun name hname => .inr ⟨name, hnames name hname, rfl⟩
    have hrelative : ¬ isAbsolute name = true := fun habsolute =>
      hname.noSlash (List.mem_of_mem_head? (of_decide_eq_true habsolute))
    have hjoin : join "/" name = "/" ++ name := by
      rw [join, if_neg hrelative]
      exact if_pos (.inr (by decide))
    have hbase : "/" ++ name ≠ "" ∧ ("/" ++ name).toList.getLast? ≠ some '/' := by
      refine ⟨by simp, fun hlast => hname.noSlash ?_⟩
      obtain ⟨d, hd⟩ := Option.isSome_iff_exists.mp
        (List.getLast?_isSome.mpr (mt String.toList_eq_nil_iff.mp hname.nonempty))
      rw [String.toList_append, List.getLast?_append, hd, Option.some_or] at hlast
      obtain rfl := Option.some.inj hlast
      exact List.mem_of_mem_getLast? hd
    have hextend : extend "" (.rootDir :: (name :: names).map .normal) =
        extend ("/" ++ name) (names.map .normal) := by
      have hroot : join "" Component.rootDir.toPath = "/" := join_empty "/"
      rw [← hjoin, ← hroot]
      rfl
    have hfirst : split '/' ("/" ++ name) = ["", name] := by
      have hempty : "/" ++ name = "" ++ "/" ++ name := by rw [String.empty_append]
      rw [hempty, split_append_slash, split_of_noSlash hname.noSlash]
      rfl
    obtain ⟨hsplit, habsolute, hne⟩ := UnixPath.split_extend hbase hcs
    rw [hextend]
    refine ⟨[], by simp, ?_, ?_, hne⟩
    · rw [hsplit, hfirst, List.append_nil, List.map_map]
      exact congrArg (["", name] ++ ·) (List.map_id names)
    · rw [habsolute, isAbsolute_append (by decide)]
      decide

/-- A normal form is found again in its text. -/
theorem stack_extend (h : IsNormal cs) (hne : cs ≠ []) :
    stack (extend "" cs) = cs ∧ extend "" cs ≠ "" := by
  obtain ⟨names, hnames, rfl⟩ | h := h
  · obtain ⟨ys, hys, hsplit, habsolute, hnonempty⟩ := split_extend_root hnames
    have hcs : ∀ c ∈ names.map Component.normal, IsSegment c := by
      rw [List.forall_mem_map]
      exact fun name hname => .inr ⟨name, hnames name hname, rfl⟩
    have hnormal : names = (names.map Component.normal).map Component.toPath := by
      rw [List.map_map]
      exact (List.map_id names).symm
    have hbody : body (extend "" (.rootDir :: names.map .normal)) = names.map .normal := by
      refine body_of_split [""] ys ?_ (by simp) hys hcs
      rw [hsplit, ← hnormal]
      rfl
    refine ⟨?_, hnonempty⟩
    rw [stack, start, if_pos habsolute, hbody, foldl_pushNormal_names]
    rfl
  · obtain ⟨hsplit, habsolute, hnonempty⟩ := h.split_extend hne
    have hbody : body (extend "" cs) = cs := by
      refine body_of_split [] [] ?_ (by simp) (by simp) h.isSegment
      rw [hsplit, List.nil_append, List.append_nil]
    refine ⟨?_, hnonempty⟩
    rw [stack, start, habsolute, hbody]
    exact h.foldl_eq

/-! ## Normal paths -/

/-- The text of a normal path. -/
theorem lexicalNorm_cases (path : String) :
    (path = "" ∧ lexicalNorm path = "") ∨
      (path ≠ "" ∧ stack path = [] ∧ lexicalNorm path = ".") ∨
      path ≠ "" ∧ stack path ≠ [] ∧ lexicalNorm path = extend "" (stack path) := by
  rw [lexicalNorm_eq]
  by_cases hempty : path = ""
  · exact .inl ⟨hempty, if_pos hempty⟩
  · rw [if_neg hempty]
    by_cases hstack : stack path = []
    · exact .inr (.inl ⟨hempty, hstack, by rw [hstack]; rfl⟩)
    · refine .inr (.inr ⟨hempty, hstack, if_neg ?_⟩)
      rwa [List.isEmpty_iff]

theorem stack_lexicalNorm (path : String) : stack (lexicalNorm path) = stack path := by
  obtain ⟨rfl, hnorm⟩ | ⟨-, hstack, hnorm⟩ | ⟨-, hstack, hnorm⟩ := lexicalNorm_cases path
  · rw [hnorm]
  · rw [hnorm, hstack]
    decide
  · rw [hnorm, (stack_extend (isNormal_stack path) hstack).1]

theorem lexicalNorm_eq_empty_iff : lexicalNorm path = "" ↔ path = "" := by
  obtain ⟨hempty, hnorm⟩ | ⟨hempty, -, hnorm⟩ | ⟨hempty, hstack, hnorm⟩ := lexicalNorm_cases path
  · exact iff_of_true hnorm hempty
  · rw [hnorm]
    exact iff_of_false (by decide) hempty
  · rw [hnorm]
    exact iff_of_false (stack_extend (isNormal_stack path) hstack).2 hempty

/-- Paths with one normal form have one normal path. -/
theorem lexicalNorm_congr {path' : String} (hempty : path = "" ↔ path' = "")
    (h : stack path = stack path') : lexicalNorm path = lexicalNorm path' := by
  rw [lexicalNorm_eq, lexicalNorm_eq, h]
  simp only [hempty]

theorem lexicalNorm_lexicalNorm (path : String) :
    lexicalNorm (lexicalNorm path) = lexicalNorm path :=
  lexicalNorm_congr lexicalNorm_eq_empty_iff (stack_lexicalNorm path)

theorem isRelative_stack (h : isAbsolute path = false) : IsRelative (stack path) := by
  apply foldl_invariant (fun cs c => IsRelative.pushNormal) fun c => isSegment_of_mem_body
  rw [start, h]
  exact isRelative_nil

theorem isAbsolute_lexicalNorm (h : isAbsolute path = false) :
    isAbsolute (lexicalNorm path) = false := by
  obtain ⟨-, hnorm⟩ | ⟨-, -, hnorm⟩ | ⟨-, hstack, hnorm⟩ := lexicalNorm_cases path
  · rw [hnorm]
    decide
  · rw [hnorm]
    decide
  · rw [hnorm]
    exact ((isRelative_stack h).split_extend hstack).2.1

theorem join_eq_empty_iff (h : isAbsolute path = false) :
    join base path = "" ↔ base = "" ∧ path = "" := by
  rw [join, if_neg (by simp [h])]
  split_ifs with hbase
  · simp
  · have hempty : base ≠ "" := fun hempty => hbase (.inl hempty)
    simp [hempty]

/-- A relative path goes on from a base as its normal path does. -/
theorem lexicalNorm_join (base : String) (h : isAbsolute path = false) :
    lexicalNorm (join base path) = lexicalNorm (join (lexicalNorm base) (lexicalNorm path)) := by
  have hnorm := isAbsolute_lexicalNorm h
  apply lexicalNorm_congr
  · rw [join_eq_empty_iff h, join_eq_empty_iff hnorm, lexicalNorm_eq_empty_iff,
      lexicalNorm_eq_empty_iff]
  · have hacts : ∀ {p : String}, isAbsolute p = false → ∀ cs,
        (stack p).foldl pushNormal cs = (body p).foldl pushNormal cs := by
      intro p hp cs
      rw [stack, start, hp]
      exact foldl_pushNormal_foldl (fun c => isSegment_of_mem_body) cs
    rw [stack_join base h, stack_join _ hnorm, stack_lexicalNorm, ← hacts h, ← hacts hnorm,
      stack_lexicalNorm]

/-- The segments of a normal path: each `..` is at the start of a relative path, and the only dot
is the path that is one. -/
theorem split_lexicalNorm (path : String) :
    ∃ n segments, split '/' (lexicalNorm path) = List.replicate n ".." ++ segments ∧
      ".." ∉ segments ∧ (isAbsolute (lexicalNorm path) = true → n = 0) ∧
      ("." ∈ segments → lexicalNorm path = ".") := by
  have hnames : ∀ {names : List String}, (∀ name ∈ names, IsName name) →
      ".." ∉ names ∧ "." ∉ names := fun h =>
    ⟨fun hmem => (h _ hmem).notDotDot rfl, fun hmem => (h _ hmem).notDot rfl⟩
  obtain ⟨-, hnorm⟩ | ⟨-, -, hnorm⟩ | ⟨-, hstack, hnorm⟩ := lexicalNorm_cases path
  · rw [hnorm]
    exact ⟨0, [""], by decide, by decide, by decide, by decide⟩
  · rw [hnorm]
    exact ⟨0, ["."], by decide, by decide, by decide, fun _ => rfl⟩
  · rw [hnorm]
    obtain ⟨names, hnamed, hroot⟩ | hrelative := isNormal_stack path
    · obtain ⟨ys, hys, hsplit, -, -⟩ := split_extend_root hnamed
      obtain ⟨hdots, hdot⟩ := hnames hnamed
      rw [hroot]
      refine ⟨0, "" :: names ++ ys, hsplit, ?_, fun _ => rfl, fun hmem => absurd hmem ?_⟩
      · simp only [List.cons_append, List.mem_cons, List.mem_append, not_or]
        exact ⟨by decide, hdots, fun hmem => absurd (hys _ hmem) (by decide)⟩
      · simp only [List.cons_append, List.mem_cons, List.mem_append, not_or]
        exact ⟨by decide, hdot, fun hmem => absurd (hys _ hmem) (by decide)⟩
    · obtain ⟨hsplit, habsolute, -⟩ := hrelative.split_extend hstack
      obtain ⟨n, names, hnamed, heq⟩ := hrelative
      obtain ⟨hdots, hdot⟩ := hnames hnamed
      refine ⟨n, names, ?_, hdots, fun h => absurd (habsolute.symm.trans h) (by decide),
        fun hmem => absurd hmem hdot⟩
      rw [hsplit, heq, List.map_append, List.map_replicate, List.map_map]
      exact congrArg (List.replicate n ".." ++ ·) (List.map_id names)

end UnixPath
