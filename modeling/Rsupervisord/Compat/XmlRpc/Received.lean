import Mathlib.Data.Bool.AllAny
import Rsupervisord.Compat.XmlRpc.Wire
import Mathlib.Algebra.Order.BigOperators.Group.List

/-!
# Values as the parser receives them

The serializer escapes strings, date-times and member names. The parser takes them as they stand
in the document, without replacing references. So a value comes back with its texts escaped, and
the members of a struct sorted by their escaped names.

## Main results

* `escapeXml_eq_self`: escaping changes exactly the texts with a character to escape.
* `texts_received`: the texts of a received value are the escaped texts of the value.
* `received_eq_self`: a value is received unchanged if and only if none of its texts needs escaping.
-/

namespace Rsupervisord

namespace XmlRpc

/-- The characters that the serializer replaces by references. -/
def specialChars : List Char := ['<', '>', '&', '\'', '"']

/-- A character that the serializer replaces by a reference. -/
def isSpecial (c : Char) : Bool := specialChars.contains c

/-- A text without characters to escape. -/
def IsPlain (s : String) : Prop := ∀ c ∈ s.toList, isSpecial c = false

instance (s : String) : Decidable (IsPlain s) := List.decidableBAll _ _

/-- A text of characters that XML allows, without carriage returns. -/
def IsLegal (s : String) : Prop := ∀ c ∈ s.toList, Xml.isChar c = true ∧ c ≠ '\r'

instance (s : String) : Decidable (IsLegal s) := List.decidableBAll _ _

/-- A value without doubles, with legal texts and with the members of its structs in order. -/
inductive Value.IsWire : Value → Prop
  | int (i : Int32) : IsWire (.int i)
  | boolean (b : Bool) : IsWire (.boolean b)
  | string {s : String} (hs : IsLegal s) : IsWire (.string s)
  | dateTime {dt : String} (hdt : IsLegal dt) : IsWire (.dateTime dt)
  | base64 (b : List UInt8) : IsWire (.base64 b)
  | array {items : List Value} (hitems : ∀ item ∈ items, IsWire item) : IsWire (.array items)
  | struct {members : List (String × Value)} (hsorted : BTreeMap.IsSorted members)
      (hnames : ∀ m ∈ members, IsLegal m.1) (hmembers : ∀ m ∈ members, IsWire m.2) :
      IsWire (.struct members)
  | nil : IsWire .nil

mutual

/-- The strings, date-times and member names in a value. -/
def Value.texts : Value → List String
  | .string s => [s]
  | .dateTime dt => [dt]
  | .array items => textsItems items
  | .struct members => textsMembers members
  | _ => []

def Value.textsItems : List Value → List String
  | [] => []
  | item :: items => item.texts ++ textsItems items

def Value.textsMembers : List (String × Value) → List String
  | [] => []
  | m :: members => textsMember m ++ textsMembers members

def Value.textsMember : String × Value → List String
  | (k, v) => k :: v.texts

end

mutual

/-- The value that the parser makes of a serialized value. -/
def received : Value → Value
  | .string s => .string (escapeXml s)
  | .dateTime dt => .dateTime (escapeXml dt)
  | .array items => .array (receivedItems items)
  | .struct members =>
      .struct ((receivedMembers members).foldl (fun map m => BTreeMap.insert m.1 m.2 map) [])
  | v => v

def receivedItems : List Value → List Value
  | [] => []
  | item :: items => received item :: receivedItems items

def receivedMembers : List (String × Value) → List (String × Value)
  | [] => []
  | m :: members => receivedMember m :: receivedMembers members

def receivedMember : String × Value → String × Value
  | (k, v) => (escapeXml k, received v)

end

@[simp]
theorem textsItems_eq (items : List Value) : Value.textsItems items =
    items.flatMap Value.texts := by
  induction items with
  | nil => rfl
  | cons item items ih => rw [Value.textsItems, ih, List.flatMap_cons]

@[simp]
theorem textsMembers_eq (members : List (String × Value)) :
    Value.textsMembers members = members.flatMap fun m => m.1 :: m.2.texts := by
  induction members with
  | nil => rfl
  | cons m members ih =>
    obtain ⟨k, v⟩ := m
    rw [Value.textsMembers, ih, List.flatMap_cons]
    rfl

@[simp]
theorem receivedItems_eq (items : List Value) : receivedItems items = items.map received := by
  induction items with
  | nil => rfl
  | cons item items ih => rw [receivedItems, ih, List.map_cons]

@[simp]
theorem receivedMembers_eq (members : List (String × Value)) :
    receivedMembers members = members.map fun m => (escapeXml m.1, received m.2) := by
  induction members with
  | nil => rfl
  | cons m members ih =>
    obtain ⟨k, v⟩ := m
    rw [receivedMembers, ih, List.map_cons]
    rfl

/-! ### Escaping -/

/-- Other characters are not escaped. -/
theorem escapeChar_of_not_special {c : Char} (h : isSpecial c = false) : escapeChar c = [c] := by
  unfold escapeChar
  split
  · cases h
  · cases h
  · cases h
  · cases h
  · cases h
  · rfl

/-- A character to escape becomes a reference. -/
theorem escapeChar_of_special {c : Char} (h : isSpecial c = true) :
    ∃ name, Xml.isName name = true ∧ escapeChar c = Xml.reference name := by
  have hmem : c ∈ specialChars := List.contains_iff_mem.mp h
  simp only [specialChars, List.mem_cons, List.not_mem_nil, or_false] at hmem
  rcases hmem with rfl | rfl | rfl | rfl | rfl
  · exact ⟨"lt", by decide, rfl⟩
  · exact ⟨"gt", by decide, rfl⟩
  · exact ⟨"amp", by decide, rfl⟩
  · exact ⟨"apos", by decide, rfl⟩
  · exact ⟨"quot", by decide, rfl⟩

@[simp]
theorem toList_escapeXml (s : String) : (escapeXml s).toList = s.toList.flatMap escapeChar :=
  String.toList_ofList

/-- A plain text is not changed. -/
theorem escapeXml_of_isPlain {s : String} (h : IsPlain s) : escapeXml s = s := by
  have hchars : s.toList.flatMap escapeChar = s.toList.flatMap fun c => [c] :=
    List.flatMap_congr fun c hc => escapeChar_of_not_special (h c hc)
  unfold escapeXml
  rw [hchars, List.flatMap_singleton', String.ofList_toList]

/-- An escaped text that is not plain contains a reference. -/
theorem amp_mem_escapeXml {s : String} (h : ¬IsPlain s) : '&' ∈ (escapeXml s).toList := by
  unfold IsPlain at h
  push Not at h
  obtain ⟨c, hc, hspecial⟩ := h
  obtain ⟨name, -, hname⟩ := escapeChar_of_special (Bool.eq_true_of_not_eq_false hspecial)
  rw [toList_escapeXml, List.mem_flatMap]
  exact ⟨c, hc, hname ▸ List.mem_cons_self⟩

/-- Escaping makes no character vanish. -/
theorem one_le_length_escapeChar (c : Char) : 1 ≤ (escapeChar c).length := by
  cases h : isSpecial c with
  | false => rw [escapeChar_of_not_special h, List.length_singleton]
  | true =>
    obtain ⟨name, -, hname⟩ := escapeChar_of_special h
    rw [hname]
    exact Nat.succ_pos _

/-- An escaped text is at least as long as the text. -/
theorem length_le_length_flatMap (cs : List Char) :
    cs.length ≤ (cs.flatMap escapeChar).length := by
  induction cs with
  | nil => exact Nat.zero_le _
  | cons c cs ih =>
    have hc := one_le_length_escapeChar c
    rw [List.flatMap_cons, List.length_append, List.length_cons]
    omega

/-- An escaped text with a reference is longer than the text. -/
theorem length_lt_length_flatMap {cs : List Char} (h : ∃ c ∈ cs, isSpecial c = true) :
    cs.length < (cs.flatMap escapeChar).length := by
  obtain ⟨c, hc, hspecial⟩ := h
  obtain ⟨pre, post, rfl⟩ := List.append_of_mem hc
  obtain ⟨name, -, hname⟩ := escapeChar_of_special hspecial
  have hpre := length_le_length_flatMap pre
  have hpost := length_le_length_flatMap post
  rw [List.flatMap_append, List.flatMap_cons, hname, Xml.reference]
  simp only [List.length_append, List.length_cons, List.length_nil]
  omega

/-- The reference for a character is not the text of one that stays as it is. -/
theorem escapeChar_append_ne {c d : Char} {cs ds : List Char} (hc : isSpecial c = true)
    (hd : isSpecial d = false) : escapeChar c ++ cs ≠ escapeChar d ++ ds := by
  obtain ⟨name, -, hname⟩ := escapeChar_of_special hc
  rw [hname, escapeChar_of_not_special hd]
  intro h
  obtain rfl : '&' = d := (List.cons.inj h).1
  cases hd

/-- What an escaped character was is seen from the text that begins with it. -/
theorem escapeChar_append_inj {c d : Char} {cs ds : List Char}
    (h : escapeChar c ++ cs = escapeChar d ++ ds) : c = d ∧ cs = ds := by
  cases hc : isSpecial c with
  | false =>
    cases hd : isSpecial d with
    | false =>
      rw [escapeChar_of_not_special hc, escapeChar_of_not_special hd] at h
      exact List.cons.inj h
    | true => exact absurd h.symm (escapeChar_append_ne hd hc)
  | true =>
    cases hd : isSpecial d with
    | false => exact absurd h (escapeChar_append_ne hc hd)
    | true =>
      -- No reference is the beginning of another one.
      have hall : (specialChars.all fun c => specialChars.all fun d =>
          decide (escapeChar c <+: escapeChar d → c = d)) = true := by decide
      have hbegins : ∀ c ∈ specialChars, ∀ d ∈ specialChars,
          escapeChar c <+: escapeChar d → c = d := fun c hc d hd =>
        of_decide_eq_true (List.all_eq_true.mp (List.all_eq_true.mp hall c hc) d hd)
      have hpre := List.prefix_append (escapeChar c) cs
      rw [h] at hpre
      obtain rfl : c = d := by
        rcases List.prefix_or_prefix_of_prefix hpre (List.prefix_append _ ds) with hcd | hdc
        · exact hbegins c (List.contains_iff_mem.mp hc) d (List.contains_iff_mem.mp hd) hcd
        · exact (hbegins d (List.contains_iff_mem.mp hd) c (List.contains_iff_mem.mp hc) hdc).symm
      exact ⟨rfl, List.append_cancel_left h⟩

/-- Different texts stay different. -/
theorem escapeXml_injective : Function.Injective escapeXml := by
  intro s t h
  have hchars : ∀ cs ds : List Char,
      cs.flatMap escapeChar = ds.flatMap escapeChar → cs = ds := by
    intro cs
    induction cs with
    | nil =>
      intro ds h
      cases ds with
      | nil => rfl
      | cons d ds =>
        have hd := one_le_length_escapeChar d
        have hlength := congrArg List.length h
        rw [List.flatMap_nil, List.flatMap_cons, List.length_append, List.length_nil] at hlength
        omega
    | cons c cs ih =>
      intro ds h
      cases ds with
      | nil =>
        have hc := one_le_length_escapeChar c
        have hlength := congrArg List.length h
        rw [List.flatMap_nil, List.flatMap_cons, List.length_append, List.length_nil] at hlength
        omega
      | cons d ds =>
        rw [List.flatMap_cons, List.flatMap_cons] at h
        obtain ⟨rfl, htail⟩ := escapeChar_append_inj h
        rw [ih ds htail]
  apply String.toList_injective
  apply hchars
  rw [← toList_escapeXml, ← toList_escapeXml, h]

/-- Escaping changes exactly the texts with a character to escape. -/
theorem escapeXml_eq_self {s : String} : escapeXml s = s ↔ IsPlain s := by
  constructor
  · intro h c hc
    by_contra hspecial
    have hlt := length_lt_length_flatMap ⟨c, hc, Bool.eq_true_of_not_eq_false hspecial⟩
    rw [← toList_escapeXml, h] at hlt
    exact lt_irrefl _ hlt
  · exact escapeXml_of_isPlain

/-! ### Received values -/

/-- The texts of a received value are the escaped texts of the value. -/
theorem texts_received {v : Value} (hv : v.IsWire) :
    (received v).texts.Perm (v.texts.map escapeXml) := by
  induction hv with
  | int i => exact .refl _
  | boolean b => exact .refl _
  | string hs => exact .refl _
  | dateTime hdt => exact .refl _
  | base64 b => exact .refl _
  | @array items _ ih =>
    show (Value.textsItems (receivedItems items)).Perm ((Value.textsItems items).map escapeXml)
    rw [receivedItems_eq, textsItems_eq, textsItems_eq, List.flatMap_map, List.map_flatMap]
    exact List.Perm.flatMap_left _ ih
  | @struct members hsorted _ _ ih =>
    -- Escaped names are different names, so no member is lost.
    have hnodup : ((members.map fun m => (escapeXml m.1, received m.2)).map Prod.fst).Nodup := by
      have hnames : (members.map Prod.fst).Nodup :=
        List.pairwise_map.mpr (hsorted.imp fun h => ne_of_lt h)
      have h := hnames.map escapeXml_injective
      rwa [List.map_map] at h ⊢
    have hperm := BTreeMap.foldl_insert_perm (m := []) hnodup
    show (Value.textsMembers ((receivedMembers members).foldl _ [])).Perm
      ((Value.textsMembers members).map escapeXml)
    rw [receivedMembers_eq, textsMembers_eq, textsMembers_eq, List.map_flatMap]
    refine (hperm.flatMap_right _).trans ?_
    rw [List.nil_append, List.flatMap_map]
    exact List.Perm.flatMap_left _ fun m hm => (ih m hm).cons (escapeXml m.1)
  | nil => exact .refl _

/-- A value is received unchanged if and only if none of its texts needs escaping. -/
theorem received_eq_self {v : Value} (hv : v.IsWire) :
    received v = v ↔ ∀ s ∈ v.texts, IsPlain s := by
  constructor
  · intro h s hs
    by_contra hplain
    -- The texts would have become longer.
    have hperm := texts_received hv
    rw [h] at hperm
    have hsum := (hperm.map fun s => s.toList.length).sum_eq
    rw [List.map_map] at hsum
    have hlonger : ∃ c ∈ s.toList, isSpecial c = true := by
      unfold IsPlain at hplain
      push Not at hplain
      simpa using hplain
    have hlt := List.sum_lt_sum (l := v.texts) (fun s => s.toList.length)
      (fun s => (s.toList.flatMap escapeChar).length) (fun s _ => length_le_length_flatMap _)
      ⟨s, hs, length_lt_length_flatMap hlonger⟩
    simp only [Function.comp_def, toList_escapeXml] at hsum
    exact absurd hsum (ne_of_lt hlt)
  · intro h
    induction hv with
    | int i => rfl
    | boolean b => rfl
    | string hs =>
        exact congrArg Value.string (escapeXml_of_isPlain (h _ (List.mem_singleton_self _)))
    | dateTime hdt =>
      exact congrArg Value.dateTime (escapeXml_of_isPlain (h _ (List.mem_singleton_self _)))
    | base64 b => rfl
    | @array items _ ih =>
      show Value.array (receivedItems items) = _
      have h' : ∀ s ∈ Value.textsItems items, IsPlain s := h
      rw [textsItems_eq] at h'
      rw [receivedItems_eq, List.map_congr_left fun item hitem =>
        ih item hitem fun s hs => h' s (List.mem_flatMap.mpr ⟨item, hitem, hs⟩), List.map_id']
    | @struct members hsorted _ _ ih =>
      have h' : ∀ s ∈ Value.textsMembers members, IsPlain s := h
      rw [textsMembers_eq] at h'
      have hsame : (members.map fun m => (escapeXml m.1, received m.2)) = members := by
        have hm : ∀ m ∈ members, (escapeXml m.1, received m.2) = m := by
          intro m hm
          have htexts : ∀ s ∈ m.1 :: m.2.texts, IsPlain s :=
            fun s hs => h' s (List.mem_flatMap.mpr ⟨m, hm, hs⟩)
          rw [escapeXml_of_isPlain (htexts _ List.mem_cons_self),
            ih m hm fun s hs => htexts s (List.mem_cons_of_mem _ hs)]
        rw [List.map_congr_left hm, List.map_id']
      show Value.struct ((receivedMembers members).foldl _ []) = _
      rw [receivedMembers_eq, hsame, BTreeMap.foldl_insert_of_isSorted (m := []) hsorted,
        List.nil_append]
    | nil => rfl

end XmlRpc

end Rsupervisord
