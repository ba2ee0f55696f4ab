import Rsupervisord.Support.Base64
import Rsupervisord.Support.TextSplit
import Rsupervisord.Support.Utf8

/-!
# HTTP libraries

What a server takes from the libraries below it: the texts of header fields, base64, and a router
that finds the handler of a path among those of its routes.

* `HttpLibrary`: the functions of the libraries and what is known of them.
* `HttpLibrary.standard`: libraries that follow the standards.
-/

namespace Http

open Text

/-- The method of a request. -/
inductive Method
  | get
  | head
  | post
  | put
  | delete
  | other (name : String)
  deriving DecidableEq, Repr

/-! ## Routes -/

/-- A part of the path of a route between two slashes. -/
inductive RouteSegment
  | literal (text : String)
  | param (name : String)
  deriving DecidableEq, Repr

namespace RouteSegment

/-- A segment of a path is the text of the segment of a route, or any text but the empty one. -/
def accepts : RouteSegment → String → Bool
  | literal text, s => s = text
  | param _, s => s ≠ ""

/-- The segments of a path are accepted one by one. -/
def acceptAll : List RouteSegment → List String → Bool
  | [], [] => true
  | p :: ps, s :: ss => p.accepts s && acceptAll ps ss
  | _, _ => false

end RouteSegment

/-- The handlers of a route. `get` is that of `HEAD` as well. -/
structure RouteEntry (H : Type) where
  path : List RouteSegment
  methods : List (Method × H)

/-- Where a router sends a request. -/
inductive Route (H : Type)
  | handler (h : H)
  | methodNotAllowed
  | fallback
  deriving DecidableEq, Repr

/-- The handler is one of a route that accepts the path. -/
def Serves {H : Type} (routes : List (RouteEntry H)) (path : String) (h : H) : Prop :=
  ∃ entry ∈ routes, RouteSegment.acceptAll entry.path (split '/' path) = true ∧
    ∃ m, (m, h) ∈ entry.methods

/-- The characters of a field that are visible, or blank. -/
def IsVisibleText (s : String) : Prop := ∀ c ∈ s.toList, 32 ≤ c.toNat ∧ c.toNat < 127

end Http

open Http

/-- The functions of the libraries below a server. -/
structure HttpLibrary where
  /-- The text of the value of a header field. -/
  toStr : List UInt8 → Option String
  /-- The value of a header field with a text. -/
  fromStr : String → Option (List UInt8)
  /-- The base64 engine with the standard alphabet and padding. -/
  base64 : Base64Engine
  /-- The handler for a method and a path. -/
  route {H : Type} (routes : List (RouteEntry H)) (method : Method) (path : String) : Route H
  /-- Visible text is read back from its field. -/
  toStr_utf8 {s : String} (h : IsVisibleText s) : toStr (Text.utf8 s) = some s
  /-- Visible text can be written to a field. -/
  fromStr_eq {s : String} (h : IsVisibleText s) : fromStr s = some (Text.utf8 s)
  /-- A handler that is found is one of a route that accepts the path. -/
  serves {H : Type} {routes : List (RouteEntry H)} {method : Method} {path : String} {h : H}
    (hroute : route routes method path = .handler h) : Serves routes path h

namespace Http

open Text

variable {s : String}

/-! ## Visible text -/

theorem isVisibleText_of_all (h : s.toList.all (fun c => 32 ≤ c.toNat && c.toNat < 127) = true) :
    IsVisibleText s := by
  intro c hc
  simpa using List.all_eq_true.mp h c hc

theorem isVisibleText_append {t : String} :
    IsVisibleText (s ++ t) ↔ IsVisibleText s ∧ IsVisibleText t := by
  simp only [IsVisibleText, String.toList_append, List.forall_mem_append]

theorem IsVisibleText.trim (h : IsVisibleText s) : IsVisibleText (trim s) :=
  fun c hc => h c (mem_of_mem_trim hc)

/-- A visible character is one byte. -/
theorem utf8EncodeChar_of_lt {c : Char} (h : c.toNat < 128) :
    String.utf8EncodeChar c = [UInt8.ofNat c.toNat] := by
  have hle : c.val.toNat ≤ 127 := Nat.le_of_lt_succ h
  rw [String.utf8EncodeChar, if_pos hle]
  rfl

/-- The bytes of visible text. -/
theorem bounds_of_mem_utf8 (h : IsVisibleText s) {b : UInt8} (hb : b ∈ utf8 s) :
    32 ≤ b ∧ b < 127 := by
  obtain ⟨c, hc, hb⟩ := List.mem_flatMap.mp hb
  obtain ⟨hlo, hhi⟩ := h c hc
  rw [utf8EncodeChar_of_lt (by omega), List.mem_singleton] at hb
  have hnat : b.toNat = c.toNat := by
    rw [hb, UInt8.toNat_ofNat']
    omega
  rw [UInt8.le_iff_toNat_le, UInt8.lt_iff_toNat_lt, hnat]
  exact ⟨hlo, hhi⟩

/-! ## Libraries that follow the standards -/

/-- The text of a value of visible characters, blanks and tabs. -/
def headerToStr (value : List UInt8) : Option String :=
  if value.all fun b => (32 ≤ b && b < 127) || b = 9 then fromUtf8 value else none

/-- The value with a text that has no control characters but tabs. -/
def headerFromStr (s : String) : Option (List UInt8) :=
  if (utf8 s).all fun b => (32 ≤ b && b ≠ 127) || b = 9 then some (utf8 s) else none

/-- The handler of a method among those of a route. -/
def handlerOf {H : Type} (methods : List (Method × H)) (method : Method) : Option H :=
  (methods.lookup method).or (if method = .head then methods.lookup .get else none)

/-- The handler of the first route that accepts the path. -/
def findRoute {H : Type} (routes : List (RouteEntry H)) (method : Method) (path : String) :
    Route H :=
  match routes.find? fun entry => RouteSegment.acceptAll entry.path (split '/' path) with
  | some entry => ((handlerOf entry.methods method).map .handler).getD .methodNotAllowed
  | none => .fallback

theorem headerToStr_utf8 (h : IsVisibleText s) : headerToStr (utf8 s) = some s := by
  have hall : (utf8 s).all (fun b => (32 ≤ b && b < 127) || b = 9) = true := by
    rw [List.all_eq_true]
    intro b hb
    simp [bounds_of_mem_utf8 h hb]
  rw [headerToStr, if_pos hall, fromUtf8_eq_some_iff]

theorem headerFromStr_eq (h : IsVisibleText s) : headerFromStr s = some (utf8 s) := by
  refine if_pos (List.all_eq_true.mpr fun b hb => ?_)
  obtain ⟨hlo, hhi⟩ := bounds_of_mem_utf8 h hb
  have hne : b ≠ 127 := by
    rintro rfl
    exact absurd hhi (by decide)
  simp [hlo, hne]

/-- The handler of a method is one of those of the route. -/
theorem mem_of_handlerOf {H : Type} {methods : List (Method × H)} {method : Method} {h : H}
    (hhandler : handlerOf methods method = some h) : ∃ m, (m, h) ∈ methods := by
  rw [handlerOf, Option.or_eq_some_iff] at hhandler
  obtain hlookup | ⟨-, hlookup⟩ := hhandler
  · obtain ⟨before, behind, rfl, -⟩ := List.lookup_eq_some_iff.mp hlookup
    exact ⟨method, List.mem_append_right _ List.mem_cons_self⟩
  · split at hlookup
    next =>
      obtain ⟨before, behind, rfl, -⟩ := List.lookup_eq_some_iff.mp hlookup
      exact ⟨.get, List.mem_append_right _ List.mem_cons_self⟩
    next => cases hlookup

theorem serves_findRoute {H : Type} {routes : List (RouteEntry H)} {method : Method}
    {path : String} {h : H} (hroute : findRoute routes method path = .handler h) :
    Serves routes path h := by
  unfold findRoute at hroute
  split at hroute
  next entry hentry =>
    refine ⟨entry, List.mem_of_find?_eq_some hentry,
      List.find?_some (p := fun e : RouteEntry H => RouteSegment.acceptAll e.path (split '/' path))
        hentry, ?_⟩
    cases hhandler : handlerOf entry.methods method with
    | some h' =>
      rw [hhandler] at hroute
      obtain rfl : h' = h := by simpa using hroute
      exact mem_of_handlerOf hhandler
    | none =>
      rw [hhandler] at hroute
      cases hroute
  next => cases hroute

end Http

/-- Libraries that follow the standards. -/
def HttpLibrary.standard : HttpLibrary where
  toStr := headerToStr
  fromStr := headerFromStr
  base64 := Base64.standard
  route := findRoute
  toStr_utf8 := headerToStr_utf8
  fromStr_eq := headerFromStr_eq
  serves := serves_findRoute
