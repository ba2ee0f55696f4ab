import Rsupervisord.Server.Auth

/-!
# Credentials on the wire

A session is sent to the browser in a `Set-Cookie` field and comes back in a `Cookie` field, among
other cookies. A token or a name with a password comes in an `Authorization` field.

## Main results

* `sessionIdFromHeaders_browser`: the session that a login sets is the one that comes back.
* `attemptsFromRequest_bearer`, `attemptsFromRequest_basic`: what the server reads from the field
  that a token, or a name and a password, were written to.
-/

namespace Rsupervisord

open Text Http

variable {http : HttpLibrary} {s : String}

/-! ## Cookies -/

theorem hexDigit_mem (n : ℕ) : hexDigit n ∈ "0123456789abcdef".toList := by
  rw [hexDigit]
  rcases Nat.lt_or_ge n 16 with h | h
  · rw [List.getD_eq_getElem _ _ h]
    exact List.getElem_mem h
  · rw [List.getD_eq_default _ _ h]
    decide

theorem mem_toHex {c : Char} {bytes : List UInt8} (h : c ∈ (toHex bytes).toList) :
    c ∈ "0123456789abcdef".toList := by
  rw [toHex, String.toList_ofList] at h
  obtain ⟨b, -, hc⟩ := List.mem_flatMap.mp h
  obtain rfl | hc := List.mem_cons.mp hc
  · exact hexDigit_mem _
  · rw [List.mem_singleton.mp hc]
    exact hexDigit_mem _

theorem isVisibleText_toHex (bytes : List UInt8) : IsVisibleText (toHex bytes) := by
  have h : IsVisibleText "0123456789abcdef" := isVisibleText_of_all rfl
  exact fun c hc => h c (mem_toHex hc)

theorem blank_semicolon_toHex {c : Char} {bytes : List UInt8} (h : c ∈ (toHex bytes).toList) :
    isWhitespace c = false ∧ c ≠ ';' := by
  have hdigits : "0123456789abcdef".toList.all (fun c => !isWhitespace c && c ≠ ';') = true := rfl
  simpa using List.all_eq_true.mp hdigits c (mem_toHex h)

/-- The text of a session has no separator of cookies. -/
theorem semicolon_notMem_toHex (bytes : List UInt8) : ';' ∉ (toHex bytes).toList :=
  fun h => (blank_semicolon_toHex h).2 rfl

theorem toHex_ne_empty {bytes : List UInt8} (h : bytes ≠ []) : toHex bytes ≠ "" := by
  obtain ⟨b, bytes, rfl⟩ := List.exists_cons_of_ne_nil h
  intro heq
  have htoList := congrArg String.toList heq
  simp [toHex] at htoList

/-- The cookie of a session without its attributes. -/
def sessionCookie (id : String) : String := sessionCookieName ++ "=" ++ id

/-- A cookie is read as the session that it was made of, with blanks around it. -/
theorem sessionOfPart_sessionCookie {id : String} (hne : id ≠ "")
    (hblank : ∀ c ∈ id.toList, isWhitespace c = false) {part : String}
    (hpart : trim part = trim (sessionCookie id)) : sessionOfPart part = some id := by
  have hname : ∀ c ∈ (sessionCookieName ++ "=").toList, isWhitespace c = false := by
    have h : (sessionCookieName ++ "=").toList.all (fun c => !isWhitespace c) = true := rfl
    intro c hc
    simpa using List.all_eq_true.mp h c hc
  have htrim : trim (sessionCookie id) = sessionCookieName ++ String.ofList ['='] ++ id := by
    refine trim_eq_self fun c hc => ?_
    rw [sessionCookie, String.toList_append, List.mem_append] at hc
    exact hc.elim (hname c) (hblank c)
  have hsplit : splitOnce '=' (trim part) = some (sessionCookieName, id) := by
    rw [hpart, htrim]
    exact splitOnce_append (by decide) id
  have htrimName : trim sessionCookieName = sessionCookieName :=
    trim_eq_self fun c hc => hname c (by simp [hc])
  rw [sessionOfPart, hsplit]
  simp only [htrimName, ne_eq, hne, not_false_eq_true, and_true, if_true]

/-- The cookie of a session can be written to its field. -/
theorem cookieHeader_buildSessionCookie (fill : List UInt8) (req : HttpRequest) :
    cookieHeader http (buildSessionCookie http (toHex fill) req) =
      utf8 (buildSessionCookie http (toHex fill) req) := by
  have hsecure : IsVisibleText (secureAttribute http req) := by
    unfold secureAttribute
    split
    next => exact isVisibleText_of_all rfl
    next => exact isVisibleText_of_all rfl
  have hcookie : IsVisibleText (buildSessionCookie http (toHex fill) req) := by
    simp only [buildSessionCookie, isVisibleText_append]
    exact ⟨⟨⟨⟨⟨isVisibleText_of_all rfl, isVisibleText_of_all rfl⟩, isVisibleText_toHex fill⟩,
      isVisibleText_of_all rfl⟩, isVisibleText_of_all rfl⟩, hsecure⟩
  rw [cookieHeader, http.fromStr_eq hcookie]
  rfl

/-- What a browser keeps of a `Set-Cookie` field to send it back. -/
def browserCookie (setCookie : String) : Option String := (splitOnce ';' setCookie).map Prod.fst

theorem browserCookie_buildSessionCookie {id : String} (hid : ';' ∉ id.toList)
    (req : HttpRequest) :
    browserCookie (buildSessionCookie http id req) = some (sessionCookie id) := by
  have hname : ';' ∉ (sessionCookieName ++ "=").toList := by decide
  have hcookie : ';' ∉ (sessionCookie id).toList := by
    rw [sessionCookie, String.toList_append, List.mem_append]
    exact not_or.mpr ⟨hname, hid⟩
  have hset : buildSessionCookie http id req = sessionCookie id ++ String.ofList [';'] ++
      (" Path=/; HttpOnly; SameSite=Strict; Max-Age=" ++ toString (sessionTtl / 1000000000) ++
        secureAttribute http req) := by
    apply String.toList_injective
    simp [buildSessionCookie, sessionCookie]
  rw [browserCookie, hset, splitOnce_append hcookie]
  rfl

/-- The `Cookie` field of a browser: its cookies, one after the other. -/
def cookieField (cookies : List String) : String :=
  .ofList ([';', ' '].intercalate (cookies.map String.toList))

theorem intercalate_blank (c : List Char) (cs : List (List Char)) :
    [';', ' '].intercalate (c :: cs) = [';'].intercalate (c :: cs.map (' ' :: ·)) := by
  induction cs generalizing c with
  | nil => simp
  | cons d cs ih => simp [ih]

/-- The parts of a `Cookie` field are the cookies, all but the first one behind a blank. -/
theorem split_cookieField {cookie : String} {cookies : List String}
    (h : ∀ c ∈ cookie :: cookies, ';' ∉ c.toList) :
    split ';' (cookieField (cookie :: cookies)) = cookie :: cookies.map (" " ++ ·) := by
  rw [cookieField, split, String.toList_ofList, List.map_cons, intercalate_blank,
    List.splitOn_intercalate]
  · simp [Function.comp_def]
  · intro l hl
    obtain rfl | hl := List.mem_cons.mp hl
    · exact h _ List.mem_cons_self
    · simp only [List.map_map, List.mem_map, Function.comp_apply] at hl
      obtain ⟨c, hc, rfl⟩ := hl
      have hsep := h c (List.mem_cons_of_mem _ hc)
      simp [hsep]
  · simp

theorem isVisibleText_cookieField {cookies : List String} (h : ∀ c ∈ cookies, IsVisibleText c) :
    IsVisibleText (cookieField cookies) := by
  have hcs : ∀ cs ∈ cookies.map String.toList, ∀ c ∈ cs, 32 ≤ c.toNat ∧ c.toNat < 127 := by
    intro cs hcs
    obtain ⟨c, hc, rfl⟩ := List.mem_map.mp hcs
    exact h c hc
  rw [IsVisibleText, cookieField, String.toList_ofList]
  generalize cookies.map String.toList = lists at hcs
  induction lists with
  | nil => simp
  | cons cs lists ih =>
    obtain ⟨hfirst, hrest⟩ := List.forall_mem_cons.mp hcs
    cases lists with
    | nil => simpa using hfirst
    | cons ds lists =>
      rw [List.intercalate_cons_cons, List.forall_mem_append, List.forall_mem_append]
      exact ⟨⟨hfirst, by simp⟩, ih hrest⟩

theorem sessionOfPart_blank (c : String) : sessionOfPart (" " ++ c) = sessionOfPart c := by
  have htrim : trim (" " ++ c) = trim c := by
    have hblank : isWhitespace ' ' = true := rfl
    simp [trim, hblank]
  rw [sessionOfPart, sessionOfPart, htrim]

/-- The session in a field of cookies. -/
theorem sessionIdFromHeaders_cookieField {headers : HeaderMap} {cookies : List String}
    (hget : headers.get "cookie" = some (utf8 (cookieField cookies)))
    (h : ∀ c ∈ cookies, IsVisibleText c ∧ ';' ∉ c.toList) :
    sessionIdFromHeaders http headers = cookies.findSome? sessionOfPart := by
  have hvisible := isVisibleText_cookieField fun c hc => (h c hc).1
  simp only [sessionIdFromHeaders, hget, Option.bind_some, http.toStr_utf8 hvisible,
    Option.bind_eq_bind]
  cases cookies with
  | nil => decide
  | cons cookie cookies =>
    rw [split_cookieField fun c hc => (h c hc).2, List.findSome?_cons, List.findSome?_cons,
      List.findSome?_map]
    simp only [Function.comp_def, sessionOfPart_blank]

/-- The session that a login sets comes back from the browser, among other cookies. -/
theorem sessionIdFromHeaders_browser {req : HttpRequest} {headers : HeaderMap} {fill : List UInt8}
    {cookie : String} {before after : List String} (hfill : fill ≠ [])
    (hcookie : browserCookie (buildSessionCookie http (toHex fill) req) = some cookie)
    (hget : headers.get "cookie" = some (utf8 (cookieField (before ++ cookie :: after))))
    (hothers : ∀ c ∈ before ++ after, IsVisibleText c ∧ ';' ∉ c.toList)
    (hbefore : ∀ c ∈ before, sessionOfPart c = none) :
    sessionIdFromHeaders http headers = some (toHex fill) := by
  rw [browserCookie_buildSessionCookie (semicolon_notMem_toHex fill)] at hcookie
  obtain rfl := Option.some.inj hcookie
  rw [sessionIdFromHeaders_cookieField hget, List.findSome?_append,
    List.findSome?_eq_none_iff.mpr hbefore, Option.none_or, List.findSome?_cons,
    sessionOfPart_sessionCookie (toHex_ne_empty hfill) 
      (fun c hc => (blank_semicolon_toHex hc).1) rfl]
  rw [List.forall_mem_append] at hothers ⊢
  refine ⟨hothers.1, List.forall_mem_cons.mpr ⟨⟨?_, ?_⟩, hothers.2⟩⟩
  · exact isVisibleText_append.mpr ⟨isVisibleText_of_all rfl, isVisibleText_toHex fill⟩
  · rw [sessionCookie, String.toList_append, List.mem_append]
    exact not_or.mpr ⟨by decide, semicolon_notMem_toHex fill⟩

/-! ## Tokens and passwords -/

theorem trim_eq_empty_iff : trim s = "" ↔ ∀ c ∈ s.toList, isWhitespace c = true := by
  constructor
  · intro h c hc
    by_contra hblank
    have hmem := mem_trim_of_not_isWhitespace hc (eq_false_of_ne_true hblank)
    rw [h] at hmem
    cases hmem
  · intro h
    rw [trim, List.dropWhile_eq_nil_iff.mpr h]
    rfl

/-- A word and what is behind it, without the blanks at the end. -/
theorem trim_behind_word {word : String} (hne : word ≠ "")
    (hword : ∀ c ∈ word.toList, isWhitespace c = false) (s : String) :
    trim (word ++ " " ++ s) =
      if trim s = "" then word
      else word ++ " " ++ .ofList (s.toList.rdropWhile isWhitespace) := by
  have hnil : word.toList ≠ [] := fun h => hne (String.toList_eq_nil_iff.mp h)
  obtain ⟨cs, c, hsplit⟩ := List.eq_nil_or_concat word.toList |>.resolve_left hnil
  rw [hsplit] at hword
  have hc : isWhitespace c = false := hword c (by simp)
  have hcs : cs.dropWhile isWhitespace = cs := by
    rw [List.dropWhile_eq_self_iff]
    intro hlt
    simp [hword cs[0] (by simp)]
  -- The blank in between goes when nothing but blanks is behind it.
  have hrest : (' ' :: s.toList).rdropWhile isWhitespace =
      if trim s = "" then [] else ' ' :: s.toList.rdropWhile isWhitespace := by
    rw [List.rdropWhile, List.reverse_cons, List.dropWhile_append]
    split
    next hall =>
      rw [List.isEmpty_iff, List.dropWhile_eq_nil_iff] at hall
      have hempty : trim s = "" := trim_eq_empty_iff.mpr fun c hc => hall c (by simpa using hc)
      rw [if_pos hempty]
      rfl
    next hall =>
      rw [List.isEmpty_iff, List.dropWhile_eq_nil_iff] at hall
      have hne : trim s ≠ "" := fun h =>
        hall fun c hc => trim_eq_empty_iff.mp h c (by simpa using hc)
      rw [if_neg hne, List.reverse_append]
      rfl
  apply String.toList_injective
  have hlist : word ++ " " ++ s = .ofList (cs ++ c :: ' ' :: s.toList) := by
    apply String.toList_injective
    simp [hsplit]
  rw [hlist, toList_trim_around hc, hcs, hrest]
  split
  next => rw [hsplit, List.concat_eq_append]
  next => simp [hsplit]

theorem rdropWhile_around {cs ds : List Char} {c : Char} (hc : isWhitespace c = false) :
    (cs ++ c :: ds).rdropWhile isWhitespace = cs ++ c :: ds.rdropWhile isWhitespace := by
  rw [List.rdropWhile, List.rdropWhile, List.reverse_append, List.reverse_cons, List.append_assoc,
    List.dropWhile_append]
  split
  next hall => simp [List.isEmpty_iff.mp hall, hc]
  next => simp

/-- Blanks at the end do not matter to what is trimmed. -/
theorem trim_rdropWhile (s : String) :
    trim (.ofList (s.toList.rdropWhile isWhitespace)) = trim s := by
  by_cases hblank : ∀ c ∈ s.toList, isWhitespace c = true
  · rw [List.rdropWhile_eq_nil_iff.mpr hblank, trim_eq_empty_iff.mpr hblank]
    rfl
  · simp only [not_forall, Bool.not_eq_true] at hblank
    obtain ⟨c, hmem, hc⟩ := hblank
    obtain ⟨cs, ds, hsplit⟩ := List.append_of_mem hmem
    have hs : s = .ofList (cs ++ c :: ds) := by rw [← hsplit, String.ofList_toList]
    apply String.toList_injective
    rw [hs, String.toList_ofList, rdropWhile_around hc, toList_trim_around hc,
      toList_trim_around hc, List.rdropWhile_idempotent]

theorem trim_bearer (token : String) : trim ("Bearer " ++ token) =
    if trim token = "" then "Bearer"
    else "Bearer " ++ .ofList (token.toList.rdropWhile isWhitespace) := by
  have hword : ∀ c ∈ "Bearer".toList, isWhitespace c = false := by simp [isWhitespace]
  have hbearer : "Bearer" ++ " " = "Bearer " := by decide
  exact hbearer ▸ trim_behind_word (by decide) hword token

/-- What a token is written to: blanks around it are lost, and a token of blanks is none. -/
theorem tokenOfHeader_bearer (token : String) :
    tokenOfHeader ("Bearer " ++ token) =
      some (if trim token = "" then "Bearer" else trim token) := by
  have htrim := trim_bearer token
  by_cases h : trim token = ""
  · rw [if_pos h] at htrim
    simp only [tokenOfHeader, htrim, if_pos h]
    simp [stripPrefix]
  · rw [if_neg h] at htrim
    simp only [tokenOfHeader, htrim, if_neg h, stripPrefix_append, Option.some_or,
      trim_rdropWhile]

/-- There is no name and no password in a field with a token. -/
theorem extractBasicAuth_bearer (token : String) :
    extractBasicAuth http (trim ("Bearer " ++ token)) = none := by
  rw [extractBasicAuth, trim_trim, trim_bearer]
  split
  next => rfl
  next => simp [stripPrefix]

section Basic

variable {bytes : List UInt8}

/-- The text of credentials is not empty and has no blanks. -/
theorem basic_payload (hbytes : bytes ≠ []) :
    (http.base64.encode bytes).toList ≠ [] ∧
      ∀ c ∈ (http.base64.encode bytes).toList, isWhitespace c = false ∧ 32 ≤ c.toNat ∧
        c.toNat < 127 := by
  refine ⟨?_, fun c hc => ?_⟩
  · -- The empty text is that of no bytes.
    intro hempty
    have hsame : http.base64.encode bytes = http.base64.encode [] := by
      rw [String.toList_eq_nil_iff.mp hempty, http.base64.encode_nil]
    have hdecode := http.base64.decode_encode bytes
    rw [hsame, http.base64.decode_encode] at hdecode
    exact hbytes (Except.ok.inj hdecode).symm
  · have hbounds : 33 ≤ c.toNat ∧ c.toNat < 127 := by
      obtain halnum | rfl | rfl | rfl := http.base64.mem_encode hc
      · simp only [Char.isAlphanum, Char.isAlpha, Char.isUpper, Char.isLower, Char.isDigit,
          Bool.or_eq_true, Bool.and_eq_true, decide_eq_true_eq, UInt32.le_iff_toNat_le] at halnum
        have hval : c.val.toNat = c.toNat := rfl
        have hbound : 'A'.val.toNat = 65 ∧ 'Z'.val.toNat = 90 ∧ 'a'.val.toNat = 97 ∧
            'z'.val.toNat = 122 ∧ '0'.val.toNat = 48 ∧ '9'.val.toNat = 57 := by decide
        simp only [hval, hbound] at halnum
        omega
      · decide
      · decide
      · decide
    refine ⟨?_, by omega, hbounds.2⟩
    simp only [isWhitespace, Bool.or_eq_false_iff, Bool.and_eq_false_iff, decide_eq_false_iff_not]
    omega

/-- The field of credentials has no blanks around it. -/
theorem trim_basic (hbytes : bytes ≠ []) :
    trim ("Basic " ++ http.base64.encode bytes) =
      "Basic " ++ http.base64.encode bytes := by
  obtain ⟨hne, hpayload⟩ := basic_payload hbytes
  refine trim_eq_self_of_ends (by simp [isWhitespace]) fun c hc => ?_
  rw [String.toList_append, List.getLast?_append_of_ne_nil _ hne] at hc
  exact (hpayload c (List.mem_of_getLast? hc)).1

theorem extractBasicAuth_basic (hbytes : bytes ≠ []) :
    extractBasicAuth http ("Basic " ++ http.base64.encode bytes) =
      (fromUtf8 bytes).bind (splitOnce ':') := by
  have htrim : trim (http.base64.encode bytes) = http.base64.encode bytes :=
    trim_eq_self fun c hc => ((basic_payload hbytes).2 c hc).1
  have hdecode : (http.base64.decode (http.base64.encode bytes)).toOption = some bytes := by
    rw [http.base64.decode_encode]
    rfl
  simp only [extractBasicAuth, trim_basic hbytes, stripPrefix_append, Option.some_or,
    Option.bind_eq_bind, Option.bind_some, htrim, hdecode]

theorem tokenOfHeader_basic (hbytes : bytes ≠ []) :
    tokenOfHeader ("Basic " ++ http.base64.encode bytes) = none := by
  have hne : ∀ t, stripPrefix "Bearer " ("Basic " ++ t) = none ∧
      stripPrefix "bearer " ("Basic " ++ t) = none := by
    intro t
    simp [stripPrefix]
  simp [tokenOfHeader, trim_basic hbytes, hne]

end Basic

variable {req : HttpRequest} {v : String}

/-- The credentials that a request brings in its `Authorization` field. -/
theorem attemptsFromRequest_eq (hv : IsVisibleText v)
    (hget : req.headers.get "authorization" = some (utf8 v)) :
    ServerAuthState.attemptsFromRequest http req =
      { basic := extractBasicAuth http (trim v)
        token := (tokenOfHeader v).or (req.query.bind queryToken)
        session := sessionIdFromHeaders http req.headers } := by
  simp only [ServerAuthState.attemptsFromRequest, hget, Option.bind_some, http.toStr_utf8 hv]

end Rsupervisord
