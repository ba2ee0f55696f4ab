import Rsupervisord.Server.PercentDecode
import Rsupervisord.Support.HttpLibrary

/-!
# Authentication of requests

The credentials that a listener asks for, those that a request or a login brings, and the routes
that are open without any. The hash function of passwords is a parameter `sha1`; header fields,
base64 and the router are those of a library.

## Main definitions

* `ServerAuthState.attemptsFromRequest`: the credentials of a request.
* `ServerAuthState.credentialsMatch`: what is accepted besides a session.
* `routes`: the handlers of the server and their paths.

## Main results

* `constantTimeEq_iff`: the comparison of secrets is that of their bytes.
* `isProtectedPath_of_serves`: each handler is behind a protected path, and those of a login behind
  an open one.
-/

namespace Rsupervisord

open Text Http

/-! ## Requests -/

/-- The fields of a request, with their names in lower case, in the order in which they came. -/
abbrev HeaderMap := List (String × List UInt8)

/-- `HeaderMap::get`: the first value of a field. -/
def HeaderMap.get (headers : HeaderMap) (name : String) : Option (List UInt8) :=
  headers.lookup name

/-- The JSON body that a login sends. -/
structure LoginRequest where
  username : Option String
  password : Option String
  token : Option String
  deriving DecidableEq, Repr

/-- A request. A body that is no `LoginRequest` is none. -/
structure HttpRequest where
  method : Method
  scheme : Option String
  path : String
  query : Option String
  headers : HeaderMap
  body : Option LoginRequest
  deriving DecidableEq, Repr

/-! ## Credentials -/

/-- A name and a password, or the hash that stands for it. -/
structure BasicAuthConfig where
  username : String
  password : String
  deriving DecidableEq, Repr

/-- `constant_time_eq`: the loop looks at all bytes. -/
def constantTimeEq (a b : List UInt8) : Bool :=
  if a.length ≠ b.length then false
  else (a.zip b).foldl (fun diff (x, y) => diff ||| (x ^^^ y)) 0 = 0

/-- A digit of a hexadecimal number. -/
def hexDigit (n : ℕ) : Char := "0123456789abcdef".toList.getD n '0'

/-- The bytes as hexadecimal numbers of two digits. -/
def toHex (bytes : List UInt8) : String :=
  .ofList (bytes.flatMap fun b => [hexDigit (b.toNat / 16), hexDigit (b.toNat % 16)])

namespace BasicAuthConfig

/-- `BasicAuthConfig::new`. -/
def new (username password : Option String) : Option BasicAuthConfig :=
  let u := username.getD ""
  let p := password.getD ""
  if u.isEmpty && p.isEmpty then none else some ⟨u, p⟩

/-- The hash that stands for the password. -/
def expectedSha (auth : BasicAuthConfig) : Option String :=
  (stripPrefix "{SHA}" auth.password).or (stripPrefix "{sha}" auth.password)

/-- `verify`. -/
def verify (auth : BasicAuthConfig) (sha1 : List UInt8 → List UInt8)
    (candidateUser candidatePass : String) : Bool :=
  if !constantTimeEq (utf8 auth.username) (utf8 candidateUser) then false
  else
    match auth.expectedSha with
    | some expected =>
      constantTimeEq (utf8 (toHex (sha1 (utf8 candidatePass))))
        (utf8 (toAsciiLowercase (trim expected)))
    | none => constantTimeEq (utf8 auth.password) (utf8 candidatePass)

end BasicAuthConfig

/-- `extract_basic_auth`. -/
def extractBasicAuth (http : HttpLibrary) (authHeader : String) : Option (String × String) := do
  let trimmed := trim authHeader
  let payload ← (stripPrefix "Basic " trimmed).or (stripPrefix "basic " trimmed)
  let decodedBytes ← (http.base64.decode (trim payload)).toOption
  let decodedStr ← fromUtf8 decodedBytes
  splitOnce ':' decodedStr

/-- The credentials that a request or a login brings. -/
structure AuthAttempts where
  basic : Option (String × String)
  token : Option String
  session : Option String
  deriving DecidableEq, Repr

/-- `SESSION_COOKIE_NAME`. -/
def sessionCookieName : String := "rsupervisord_session"

/-- The session in a part of a cookie field. -/
def sessionOfPart (part : String) : Option String :=
  match splitOnce '=' (trim part) with
  | some (name, value) => if trim name = sessionCookieName ∧ value ≠ "" then some value else none
  | none => none

/-- `session_id_from_headers`. -/
def sessionIdFromHeaders (http : HttpLibrary) (headers : HeaderMap) : Option String := do
  let cookie ← (headers.get "cookie").bind http.toStr
  (split ';' cookie).findSome? sessionOfPart

/-- The token in the authorization field. -/
def tokenOfHeader (authVal : String) : Option String :=
  let trimmed := trim authVal
  match (stripPrefix "Bearer " trimmed).or (stripPrefix "bearer " trimmed) with
  | some token => some (trim token)
  | none =>
    if (stripPrefix "Basic " trimmed).isNone ∧ (stripPrefix "basic " trimmed).isNone then
      some trimmed
    else none

/-! ## Listeners -/

/-- What a listener asks for. -/
structure ServerAuthState where
  basicAuth : Option BasicAuthConfig
  authToken : Option String
  deriving DecidableEq, Repr

namespace ServerAuthState

/-- `ServerAuthState::new`. -/
def new (basicAuth : Option BasicAuthConfig) (authToken : Option String) : ServerAuthState :=
  ⟨basicAuth, authToken.filter (· ≠ "")⟩

/-- `is_auth_configured`. -/
def isAuthConfigured (auth : ServerAuthState) : Bool :=
  auth.basicAuth.isSome || auth.authToken.isSome

/-- The token is the one that the listener asks for. -/
def tokenMatches (auth : ServerAuthState) (attempts : AuthAttempts) : Bool :=
  match auth.authToken, attempts.token with
  | some expected, some candidate => constantTimeEq (utf8 expected) (utf8 candidate)
  | _, _ => false

/-- The name and the password are those that the listener asks for. -/
def basicMatches (auth : ServerAuthState) (sha1 : List UInt8 → List UInt8)
    (attempts : AuthAttempts) : Bool :=
  match auth.basicAuth, attempts.basic with
  | some basic, some (user, pass) => basic.verify sha1 user pass
  | _, _ => false

/-- The part of `authorize` behind the session. -/
def credentialsMatch (auth : ServerAuthState) (sha1 : List UInt8 → List UInt8)
    (attempts : AuthAttempts) : Bool :=
  auth.tokenMatches attempts || auth.basicMatches sha1 attempts

/-- `attempts_from_request`. -/
def attemptsFromRequest (http : HttpLibrary) (req : HttpRequest) : AuthAttempts :=
  let authVal := (req.headers.get "authorization").bind http.toStr
  { basic := authVal.bind fun v => extractBasicAuth http (trim v)
    token := (authVal.bind tokenOfHeader).or (req.query.bind queryToken)
    session := sessionIdFromHeaders http req.headers }

end ServerAuthState

/-- The credentials in the body of a login. -/
def LoginRequest.attempts (payload : LoginRequest) : AuthAttempts where
  basic := payload.username.bind fun u => payload.password.map fun p => (u, p)
  token := payload.token.filter (· ≠ "")
  session := none

/-- The part of the configuration of the server that tells how to reach it. -/
structure ServerConfig where
  udsPath : String
  udsUsername : Option String
  udsPassword : Option String
  httpBind : Option String
  username : Option String
  password : Option String
  authToken : Option String
  ctlDefaults : Bool
  deriving DecidableEq, Repr

/-- A listener: the local socket, or the network. -/
inductive Listener
  | ipc
  | tcp
  deriving DecidableEq, Repr

/-- `ServerEngine::new`, for one listener. -/
def ServerConfig.authState (config : ServerConfig) : Listener → ServerAuthState
  | .ipc => .new (BasicAuthConfig.new config.udsUsername config.udsPassword) config.authToken
  | .tcp => .new (BasicAuthConfig.new config.username config.password) config.authToken

/-! ## Cookies -/

/-- `request_is_https`. -/
def requestIsHttps (http : HttpLibrary) (req : HttpRequest) : Bool :=
  req.scheme = some "https" ||
    (((req.headers.get "x-forwarded-proto").bind http.toStr).map
      fun v => eqIgnoreAsciiCase v "https").getD false

/-- The attribute of a cookie that is sent on secure connections only. -/
def secureAttribute (http : HttpLibrary) (req : HttpRequest) : String :=
  if requestIsHttps http req then "; Secure" else ""

/-- `SESSION_TTL`, in nanoseconds. -/
def sessionTtl : ℕ := 7 * 24 * 60 * 60 * 1000000000

/-- `build_session_cookie`. -/
def buildSessionCookie (http : HttpLibrary) (sessionId : String) (req : HttpRequest) : String :=
  sessionCookieName ++ "=" ++ sessionId ++ "; Path=/; HttpOnly; SameSite=Strict; Max-Age=" ++
    toString (sessionTtl / 1000000000) ++ secureAttribute http req

/-- `build_clear_cookie`. -/
def buildClearCookie (http : HttpLibrary) (req : HttpRequest) : String :=
  sessionCookieName ++ "=; Path=/; HttpOnly; SameSite=Strict; Max-Age=0" ++
    secureAttribute http req

/-- The value of the `Set-Cookie` field. -/
def cookieHeader (http : HttpLibrary) (cookie : String) : List UInt8 :=
  (http.fromStr cookie).getD (utf8 "invalid=1")

/-! ## Routes -/

/-- `is_protected_path`. -/
def isProtectedPath (path : String) : Bool :=
  (stripPrefix "/api/" path).isSome || path = "/RPC2"

/-- `is_public_auth_path`. -/
def isPublicAuthPath (path : String) : Bool :=
  path = "/api/v1/auth/config" || path = "/api/v1/auth/login" || path = "/api/v1/auth/logout"

/-- A handler of the server. -/
inductive Handler
  | getStatus
  | getProgramDetails
  | startProgram
  | stopProgram
  | restartProgram
  | startGroup
  | stopGroup
  | restartGroup
  | startAll
  | stopAll
  | reloadConfig
  | restartDaemon
  | streamSystemEvents
  | readAllLogs
  | clearAllLogs
  | streamAllLogs
  | readLogs
  | clearProgramLogs
  | streamLogs
  | sendStdin
  | systemInfo
  | authConfig
  | authLogin
  | authLogout
  | xmlrpcHandler
  deriving DecidableEq, Repr

/-- The handler is that of a login, a logout or the configuration of these. -/
def Handler.isAuth : Handler → Bool
  | authConfig | authLogin | authLogout => true
  | _ => false

/-- The segments of the path behind `/api/v1/`. -/
def api (path : List RouteSegment) : List RouteSegment :=
  .literal "" :: .literal "api" :: .literal "v1" :: path

open RouteSegment in
/-- The routes of `build_router`. -/
def routes : List (RouteEntry Handler) :=
  [⟨api [literal "status"], [(.get, .getStatus)]⟩,
    ⟨api [literal "programs", param "name"], [(.get, .getProgramDetails)]⟩,
    ⟨api [literal "programs", param "name", literal "start"], [(.post, .startProgram)]⟩,
    ⟨api [literal "programs", param "name", literal "stop"], [(.post, .stopProgram)]⟩,
    ⟨api [literal "programs", param "name", literal "restart"], [(.post, .restartProgram)]⟩,
    ⟨api [literal "groups", param "group", literal "start"], [(.post, .startGroup)]⟩,
    ⟨api [literal "groups", param "group", literal "stop"], [(.post, .stopGroup)]⟩,
    ⟨api [literal "groups", param "group", literal "restart"], [(.post, .restartGroup)]⟩,
    ⟨api [literal "all", literal "start"], [(.post, .startAll)]⟩,
    ⟨api [literal "all", literal "stop"], [(.post, .stopAll)]⟩,
    ⟨api [literal "config", literal "reload"], [(.post, .reloadConfig)]⟩,
    ⟨api [literal "config-reload"], [(.post, .reloadConfig)]⟩,
    ⟨api [literal "reload"], [(.post, .restartDaemon)]⟩,
    ⟨api [literal "restart"], [(.post, .restartDaemon)]⟩,
    ⟨api [literal "events"], [(.get, .streamSystemEvents)]⟩,
    ⟨api [literal "all", literal "logs"],
      [(.get, .readAllLogs), (.delete, .clearAllLogs), (.post, .clearAllLogs)]⟩,
    ⟨api [literal "logs", literal "stream"], [(.get, .streamAllLogs)]⟩,
    ⟨api [literal "programs", param "name", literal "logs"],
      [(.get, .readLogs), (.delete, .clearProgramLogs), (.post, .clearProgramLogs)]⟩,
    ⟨api [literal "programs", param "name", literal "logs", literal "stream"],
      [(.get, .streamLogs)]⟩,
    ⟨api [literal "programs", param "name", literal "stdin"], [(.post, .sendStdin)]⟩,
    ⟨api [literal "info"], [(.get, .systemInfo)]⟩,
    ⟨api [literal "system", literal "info"], [(.get, .systemInfo)]⟩,
    ⟨api [literal "auth", literal "config"], [(.get, .authConfig)]⟩,
    ⟨api [literal "auth", literal "login"], [(.post, .authLogin)]⟩,
    ⟨api [literal "auth", literal "logout"], [(.post, .authLogout)]⟩,
    ⟨[literal "", literal "RPC2"], [(.post, .xmlrpcHandler)]⟩]

/-! ## Results -/

section Secrets

/-- The loop finds a bit that differs, if there is one. -/
theorem foldl_xor_eq_zero (l : List (UInt8 × UInt8)) (diff : UInt8) :
    l.foldl (fun diff (x, y) => diff ||| (x ^^^ y)) diff = 0 ↔ diff = 0 ∧ ∀ e ∈ l, e.1 = e.2 := by
  induction l generalizing diff with
  | nil => simp
  | cons e l ih =>
    have hor : diff ||| (e.1 ^^^ e.2) = 0 ↔ diff = 0 ∧ e.1 = e.2 := by
      rw [UInt8.or_eq_zero_iff, UInt8.xor_eq_zero_iff]
    rw [List.foldl_cons, ih, hor, and_assoc, List.forall_mem_cons]

/-- The comparison of secrets is that of their bytes. -/
theorem constantTimeEq_iff {a b : List UInt8} : constantTimeEq a b = true ↔ a = b := by
  unfold constantTimeEq
  split
  next hlength => exact iff_of_false (by simp) fun h => hlength (congrArg List.length h)
  next hlength =>
    rw [decide_eq_true_iff, foldl_xor_eq_zero, ← List.forall₂_eq_eq_eq, List.forall₂_iff_zip]
    simp [not_not.mp hlength]

theorem utf8_inj {s t : String} : utf8 s = utf8 t ↔ s = t := by
  refine ⟨fun h => ?_, congrArg utf8⟩
  have hs : fromUtf8 (utf8 s) = some s := fromUtf8_eq_some_iff.mpr rfl
  rw [fromUtf8_eq_some_iff.mpr h] at hs
  exact (Option.some.inj hs).symm

end Secrets

section Routes

open RouteSegment

variable {path : String} {h : Handler} {segments : List String}

/-- A text is put together from its parts. -/
theorem toList_of_split {s : String} {c : Char} {parts : List String} (h : split c s = parts) :
    s.toList = [c].intercalate (parts.map String.toList) := by
  have hlists : parts.map String.toList = s.toList.splitOn c := by
    rw [← h, split, List.map_map]
    simp [Function.comp_def]
  rw [hlists, List.intercalate_splitOn]

theorem eq_of_split {s t : String} {c : Char} (h : split c s = split c t) : s = t :=
  String.toList_injective ((toList_of_split h).trans (toList_of_split rfl).symm)

/-- A path has a segment for each segment of its route. -/
theorem acceptAll_cons {p : RouteSegment} {ps : List RouteSegment} :
    acceptAll (p :: ps) segments = true ↔
      ∃ s rest, segments = s :: rest ∧ p.accepts s = true ∧ acceptAll ps rest = true := by
  cases segments <;> simp [acceptAll]

/-- The segments of a route without parameters are those of one path. -/
theorem acceptAll_literal {texts : List String} :
    acceptAll (texts.map .literal) segments = true ↔ segments = texts := by
  induction texts generalizing segments with
  | nil => cases segments <;> simp [acceptAll]
  | cons text texts ih =>
    cases segments with
    | nil => simp [acceptAll]
    | cons s segments => simp [acceptAll, accepts, ih]

/-- The segments of the paths that are open. -/
def publicSegments : List (List String) :=
  [["", "api", "v1", "auth", "config"], ["", "api", "v1", "auth", "login"],
    ["", "api", "v1", "auth", "logout"]]

/-- A path is open when its segments are those of an open path. -/
theorem isPublicAuthPath_iff :
    isPublicAuthPath path = true ↔ split '/' path ∈ publicSegments := by
  have hconfig : split '/' "/api/v1/auth/config" = ["", "api", "v1", "auth", "config"] := by decide
  have hlogin : split '/' "/api/v1/auth/login" = ["", "api", "v1", "auth", "login"] := by decide
  have hlogout : split '/' "/api/v1/auth/logout" = ["", "api", "v1", "auth", "logout"] := by decide
  have hinj : ∀ t, path = t ↔ split '/' path = split '/' t := fun t => ⟨congrArg _, eq_of_split⟩
  simp only [isPublicAuthPath, publicSegments, Bool.or_eq_true, decide_eq_true_eq, hinj, hconfig,
    hlogin, hlogout, List.mem_cons, List.not_mem_nil, or_false, or_assoc]

/-- A path with these segments is protected. -/
theorem isProtectedPath_of_split {s : String} {rest : List String}
    (h : split '/' path = "" :: "api" :: s :: rest) : isProtectedPath path = true := by
  have hpath : path.toList =
      "/api/".toList ++ ['/'].intercalate ((s :: rest).map String.toList) := by
    rw [toList_of_split h]
    simp [List.intercalate]
  rw [isProtectedPath, stripPrefix_eq_some hpath]
  rfl

/-- Every handler is behind a protected path, and the handlers of a login behind an open one. -/
theorem isProtectedPath_of_serves (hserves : Serves routes path h) :
    isProtectedPath path = true ∧ (isPublicAuthPath path = true ↔ h.isAuth = true) := by
  obtain ⟨entry, hentry, haccept, m, hm⟩ := hserves
  have hpublic : ∀ entry ∈ routes, ∀ segments ∈ publicSegments,
      acceptAll entry.path segments = true → ∀ e ∈ entry.methods, e.2.isAuth = true := by decide
  have hliteral : ∀ entry ∈ routes, ∀ e ∈ entry.methods, e.2.isAuth = true →
      ∃ texts ∈ publicSegments, entry.path = texts.map .literal := by decide
  have hprefix : ∀ entry ∈ routes, entry.path = ["", "RPC2"].map .literal ∨
      entry.path = api (entry.path.drop 3) := by decide
  refine ⟨?_, fun h => ?_, fun h => ?_⟩
  · obtain hrpc | hapi := hprefix entry hentry
    · rw [hrpc, acceptAll_literal] at haccept
      have hpath : path = "/RPC2" := eq_of_split (haccept.trans (by decide))
      rw [hpath]
      decide
    · rw [hapi, api] at haccept
      obtain ⟨s₁, segments₁, hsplit, h₁, haccept⟩ := acceptAll_cons.mp haccept
      obtain ⟨s₂, segments₂, rfl, h₂, haccept⟩ := acceptAll_cons.mp haccept
      obtain ⟨s₃, segments₃, rfl, -, -⟩ := acceptAll_cons.mp haccept
      obtain rfl : s₁ = "" := of_decide_eq_true h₁
      obtain rfl : s₂ = "api" := of_decide_eq_true h₂
      exact isProtectedPath_of_split hsplit
  · exact hpublic entry hentry _ (isPublicAuthPath_iff.mp h) haccept _ hm
  · obtain ⟨texts, htexts, heq⟩ := hliteral entry hentry _ hm h
    rw [heq, acceptAll_literal] at haccept
    exact isPublicAuthPath_iff.mpr (haccept ▸ htexts)

end Routes

end Rsupervisord
