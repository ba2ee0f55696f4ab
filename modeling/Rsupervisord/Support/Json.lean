import Mathlib.Data.List.Basic
import Mathlib.Data.List.Infix
import Mathlib.Tactic.Cases

/-!
# JSON trees

JSON values, and the values at paths of field names. A value is set at a path by entering it into
the object that the path leads to; objects that are missing on the way are made.

## Main definitions

* `Json.atPath`: the value at a path.
* `Json.setPath`: set the value at a path.
* `Json.setPaths`: set several values, one after the other.

## Main results

* `Json.atPath_setPaths`: a value is there when the others are set elsewhere.
* `Json.origin_of_atPath_setPaths`: nothing else is there, but for what new objects begin with.
-/

/-- A JSON value. The order of the fields of an object does not matter. -/
inductive Json where
  | null
  | bool (b : Bool)
  | num (n : ℤ)
  | str (s : String)
  | arr (items : List Json)
  | obj (fields : List (String × Json))

namespace Json

/-- The fields of an object. -/
abbrev Fields := List (String × Json)

variable {fresh : String → Fields} {fields : Fields} {name : String} {path q : List String}
  {v w : Json}

/-- Enter a field. -/
def set (name : String) (v : Json) (fields : Fields) : Fields :=
  (name, v) :: fields.filter fun f => f.1 ≠ name

@[simp]
theorem lookup_set (name' : String) :
    (set name v fields).lookup name' = if name' = name then some v else fields.lookup name' := by
  have hrest : name' ≠ name →
      (fields.filter fun f => f.1 ≠ name).lookup name' = fields.lookup name' := by
    intro hne
    induction fields with
    | nil => rfl
    | cons f fields ih =>
      obtain ⟨name'', v'⟩ := f
      by_cases h : name'' = name
      · have hf : (name' == name'') = false := by simpa [h] using hne
        rw [List.filter_cons_of_neg (by simpa using h), ih, List.lookup_cons, hf]
      · rw [List.filter_cons_of_pos (by simpa using h), List.lookup_cons, List.lookup_cons, ih]
  unfold set
  rw [List.lookup_cons]
  by_cases h : name' = name
  · simp [h]
  · have hf : (name' == name) = false := by simpa using h
    rw [if_neg h, hf, hrest h]

/-! ## Values at paths -/

/-- The value at a path of field names. -/
def atPath : List String → Json → Option Json
  | [], v => some v
  | name :: path, .obj fields => (fields.lookup name).bind (atPath path)
  | _ :: _, _ => none

@[simp] theorem atPath_nil (v : Json) : atPath [] v = some v := by
  rw [atPath]

@[simp] theorem atPath_cons (name : String) (path : List String) (fields : Fields) :
    atPath (name :: path) (.obj fields) = (fields.lookup name).bind (atPath path) := by
  rw [atPath]

/-- Only an object has something behind it. -/
theorem exists_obj_of_atPath (h : atPath (name :: q) v = some w) : ∃ fields, v = .obj fields := by
  cases v with
  | obj fields => exact ⟨fields, rfl⟩
  | null => cases h
  | bool b => cases h
  | num n => cases h
  | str s => cases h
  | arr items => cases h

/-! ## Setting values -/

/-- The fields of the object that is the value of a field; where there is none, those that a new one
begins with. -/
def inner (fresh : String → Fields) (name : String) (fields : Fields) : Fields :=
  match fields.lookup name with
  | some (.obj inner) => inner
  | _ => fresh name

/-- Set the value at a path. -/
def setPath (fresh : String → Fields) (v : Json) : List String → Fields → Fields
  | [], fields => fields
  | [name], fields => set name v fields
  | name :: next :: path, fields =>
      set name (.obj (setPath fresh v (next :: path) (inner fresh name fields))) fields

/-- Neither path leads to the other. -/
def Apart (p q : List String) : Prop := ¬ p <+: q ∧ ¬ q <+: p

instance (p q : List String) : Decidable (Apart p q) := inferInstanceAs (Decidable (_ ∧ _))

theorem Apart.of_head {p q : List String} (hp : p ≠ []) (hq : q ≠ []) (h : p.head? ≠ q.head?) :
    Apart p q := by
  cases p with
  | nil => exact absurd rfl hp
  | cons name p =>
    cases q with
    | nil => exact absurd rfl hq
    | cons name' q =>
      refine ⟨fun hle => h ?_, fun hle => h ?_⟩
      · rw [List.head?_cons, List.head?_cons, (List.cons_prefix_cons.mp hle).1]
      · rw [List.head?_cons, List.head?_cons, (List.cons_prefix_cons.mp hle).1]

theorem Apart.symm {p q : List String} (h : Apart p q) : Apart q p := ⟨h.2, h.1⟩

theorem Apart.of_cons {p q : List String} (h : Apart (name :: p) (name :: q)) : Apart p q :=
  ⟨fun hpq => h.1 ((List.prefix_cons_inj name).mpr hpq),
    fun hqp => h.2 ((List.prefix_cons_inj name).mpr hqp)⟩

theorem inner_of_atPath {next : String} (h : atPath (name :: next :: q) (.obj fields) = some w) :
    atPath (next :: q) (.obj (inner fresh name fields)) = some w := by
  rw [atPath_cons] at h
  obtain ⟨u, hu, hw⟩ := Option.bind_eq_some_iff.mp h
  obtain ⟨inner', rfl⟩ := exists_obj_of_atPath hw
  rw [inner, hu]
  exact hw

/-- The value is there. -/
theorem atPath_setPath (hpath : path ≠ []) :
    atPath path (.obj (setPath fresh v path fields)) = some v := by
  induction path generalizing fields with
  | nil => exact absurd rfl hpath
  | cons name path ih =>
    cases path with
    | nil => simp [setPath]
    | cons next path => simpa [setPath] using ih (by simp)

/-- The values at other paths stay. -/
theorem atPath_setPath_of_apart (h : Apart path q) (hq : atPath q (.obj fields) = some w) :
    atPath q (.obj (setPath fresh v path fields)) = some w := by
  induction path generalizing q fields with
  | nil => exact absurd List.nil_prefix h.1
  | cons name path ih =>
    cases q with
    | nil => exact absurd List.nil_prefix h.2
    | cons name' q =>
      by_cases hname : name' = name
      · subst hname
        have hrest := h.of_cons
        cases path with
        | nil => exact absurd List.nil_prefix hrest.1
        | cons next path =>
          cases q with
          | nil => exact absurd List.nil_prefix hrest.2
          | cons next' q =>
            rw [setPath, atPath_cons, lookup_set, if_pos rfl]
            exact ih hrest (inner_of_atPath hq)
      · cases path with
        | nil => simpa [setPath, hname] using hq
        | cons next path => simpa [setPath, hname] using hq

/-- What else is there was there before, or a new object on the way begins with it. -/
theorem origin_of_atPath_setPath (h : Apart path q)
    (hq : atPath q (.obj (setPath fresh v path fields)) = some w) :
    atPath q (.obj fields) = some w ∨
      ∃ dir name rest, q = dir ++ name :: rest ∧ dir ++ [name] <+: path ∧
        atPath rest (.obj (fresh name)) = some w := by
  induction path generalizing q fields with
  | nil => exact absurd List.nil_prefix h.1
  | cons name path ih =>
    cases q with
    | nil => exact absurd List.nil_prefix h.2
    | cons name' q =>
      by_cases hname : name' = name
      · subst hname
        have hrest := h.of_cons
        cases path with
        | nil => exact absurd List.nil_prefix hrest.1
        | cons next path =>
          rw [setPath, atPath_cons, lookup_set, if_pos rfl] at hq
          obtain hq | ⟨dir, name, rest, rfl, hdir, hrest'⟩ := ih hrest hq
          · -- The inner object was there, or it is new.
            rw [inner] at hq
            split at hq
            next inner' hinner =>
              refine .inl ?_
              rw [atPath_cons, hinner]
              exact hq
            next => exact .inr ⟨[], name', q, rfl, by simp, hq⟩
          · exact .inr ⟨name' :: dir, name, rest, rfl,
              (List.prefix_cons_inj name').mpr hdir, hrest'⟩
      · refine .inl ?_
        cases path with
        | nil => simpa [setPath, hname] using hq
        | cons next path => simpa [setPath, hname] using hq

/-! ## Setting several values -/

/-- Set several values, one after the other. -/
def setPaths (fresh : String → Fields) (settings : List (List String × Json)) (fields : Fields) :
    Fields :=
  settings.foldl (fun fields s => setPath fresh s.2 s.1 fields) fields

variable {settings : List (List String × Json)}

theorem setPaths_concat (s : List String × Json) :
    setPaths fresh (settings ++ [s]) fields =
      setPath fresh s.2 s.1 (setPaths fresh settings fields) := by
  simp [setPaths]

theorem setPaths_append (settings settings' : List (List String × Json)) :
    setPaths fresh (settings ++ settings') fields =
      setPaths fresh settings' (setPaths fresh settings fields) := by
  rw [setPaths, List.foldl_append]
  rfl

/-- What is there stays when values are set elsewhere. -/
theorem atPath_setPaths_of_apart (h : ∀ s ∈ settings, Apart s.1 q)
    (hq : atPath q (.obj fields) = some w) :
    atPath q (.obj (setPaths fresh settings fields)) = some w := by
  induction settings generalizing fields with
  | nil => exact hq
  | cons s settings ih =>
    exact ih (fun s' hs' => h s' (List.mem_cons_of_mem s hs'))
      (atPath_setPath_of_apart (h s List.mem_cons_self) hq)

/-- A value is there when all others are set at paths that do not lead to it. -/
theorem atPath_setPaths {s : List String × Json} (hs : s ∈ settings) (hpath : s.1 ≠ [])
    (h : ∀ s' ∈ settings, s' = s ∨ Apart s'.1 s.1) :
    atPath s.1 (.obj (setPaths fresh settings fields)) = some s.2 := by
  induction settings using List.reverseRecOn with
  | nil => exact absurd hs List.not_mem_nil
  | append_singleton settings s' ih =>
    rw [setPaths_concat]
    obtain rfl | hs' := h s' (by simp)
    · exact atPath_setPath hpath
    · have hmem : s ∈ settings := by
        obtain hs | hs := List.mem_append.mp hs
        · exact hs
        · rw [List.mem_singleton.mp hs] at hs'
          exact absurd List.prefix_rfl hs'.1
      exact atPath_setPath_of_apart hs' (ih hmem fun s'' hs'' => h s'' (by simp [hs'']))

/-- What a new object begins with is there when a value is set in it, unless it is set, too. -/
theorem atPath_setPaths_fresh {field : String} (hfresh : (fresh name).lookup field = some w)
    (hnew : fields.lookup name = none) (h : ∀ s ∈ settings, Apart s.1 [name, field])
    (hset : ∃ s ∈ settings, ∃ path, s.1 = name :: path) :
    atPath [name, field] (.obj (setPaths fresh settings fields)) = some w := by
  induction settings generalizing fields with
  | nil =>
    obtain ⟨s, hs, -⟩ := hset
    exact absurd hs List.not_mem_nil
  | cons s settings ih =>
    have hs := h s List.mem_cons_self
    have hbehind : ∀ s' ∈ settings, Apart s'.1 [name, field] :=
      fun s' hs' => h s' (List.mem_cons_of_mem s hs')
    rw [setPaths, List.foldl_cons]
    obtain ⟨path, v⟩ := s
    cases path with
    | nil => exact absurd List.nil_prefix hs.1
    | cons name' path =>
      by_cases hname : name' = name
      · subst hname
        cases path with
        | nil => exact absurd (by simp) hs.1
        | cons next path =>
          -- The object is new here.
          have hinner : inner fresh name' fields = fresh name' := by
            rw [inner, hnew]
          refine atPath_setPaths_of_apart hbehind ?_
          rw [setPath, hinner, atPath_cons, lookup_set, if_pos rfl]
          exact atPath_setPath_of_apart hs.of_cons (by simp [hfresh])
      · have hlookup : (setPath fresh v (name' :: path) fields).lookup name = none := by
          cases path with
          | nil => simp [setPath, Ne.symm hname, hnew]
          | cons next path => simp [setPath, Ne.symm hname, hnew]
        refine ih hlookup hbehind ?_
        obtain ⟨s', hs', path', hpath'⟩ := hset
        obtain rfl | hs' := List.mem_cons.mp hs'
        · exact absurd (List.cons.inj hpath').1 hname
        · exact ⟨s', hs', path', hpath'⟩

/-- Nothing else is there, but for what new objects begin with. -/
theorem origin_of_atPath_setPaths (h : ∀ s ∈ settings, Apart s.1 q)
    (hq : atPath q (.obj (setPaths fresh settings fields)) = some w) :
    atPath q (.obj fields) = some w ∨
      ∃ s ∈ settings, ∃ dir name rest, q = dir ++ name :: rest ∧ dir ++ [name] <+: s.1 ∧
        atPath rest (.obj (fresh name)) = some w := by
  induction settings using List.reverseRecOn with
  | nil => exact .inl hq
  | append_singleton settings s ih =>
    rw [setPaths_concat] at hq
    obtain hq | horigin := origin_of_atPath_setPath (h s (by simp)) hq
    · obtain hq | ⟨s', hs', horigin⟩ := ih (fun s' hs' => h s' (by simp [hs'])) hq
      · exact .inl hq
      · exact .inr ⟨s', by simp [hs'], horigin⟩
    · exact .inr ⟨s, by simp, horigin⟩

end Json
