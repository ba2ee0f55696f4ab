import Rsupervisord.Server.Credentials
import Rsupervisord.Support.Except

/-!
# Credentials of the command line client

The client takes its endpoints and credentials from its own section of the configuration or, without
one, from the section of the server, and from the command line. What it writes to the header of a
request is what the listener reads.

## Main definitions

* `resolveCtlChain`: the endpoints that the client tries, with their credentials.
* `authorization`: the field that the client sends.

## Main results

* `accepts_iff`: when the credentials of the server are accepted by its own listeners.
-/

namespace Rsupervisord

open Text Http

/-! ## Endpoints -/

/-- Where the client reaches a server. -/
inductive Endpoint
  | ipc (path : String)
  | namedPipe (path : String)
  | tcp (addr : String)
  deriving DecidableEq, Repr

namespace Endpoint

/-- `Endpoint::parse`. -/
def parse (s : String) : Endpoint :=
  let trimmed := trim s
  match (stripPrefix "http://" trimmed).or (stripPrefix "tcp://" trimmed) with
  | some rest => .tcp rest
  | none =>
    match stripPrefix "unix://" trimmed with
    | some rest => .ipc rest
    | none =>
      if (stripPrefix "\\\\.\\pipe\\" trimmed).isSome then .namedPipe trimmed
      else if ':' ∈ trimmed.toList ∧ '/' ∉ trimmed.toList ∧ '\\' ∉ trimmed.toList then .tcp trimmed
      else .ipc trimmed

/-- `is_tcp`. -/
def isTcp : Endpoint → Bool
  | tcp _ => true
  | _ => false

end Endpoint

/-! ## The configuration of the client -/

/-- The section of the client. -/
structure CtlConfig where
  serverurl : Option String
  username : Option String
  password : Option String
  authToken : Option String
  noColor : Option Bool
  deriving DecidableEq, Repr

namespace CtlConfig

/-- `vec_from_server`. -/
def vecFromServer (server : ServerConfig) : List CtlConfig :=
  ⟨some server.udsPath, server.udsUsername, server.udsPassword, server.authToken, none⟩ ::
    match server.httpBind.filter (· ≠ "") with
    | some bind =>
      [⟨some ("http://" ++ bind), server.username, server.password, server.authToken, none⟩]
    | none => []

end CtlConfig

/-- The options of the command line that tell how to reach the server. -/
structure CliArgs where
  server : Option String
  authToken : Option String
  user : Option String
  password : Option String
  noColor : Bool
  deriving DecidableEq, Repr

/-- `cli_basic_override`. -/
def cliBasicOverride (args : CliArgs) : Option (String × String) :=
  match args.user, args.password with
  | some u, some p => some (u, p)
  | some u, none => some (u, "")
  | none, some p => some ("", p)
  | none, none => none

/-- `CliArgs::apply`. -/
def CliArgs.apply (args : CliArgs) (ctl : CtlConfig) : CtlConfig :=
  { serverurl := args.server.or ctl.serverurl
    authToken := args.authToken.or ctl.authToken
    noColor := if args.noColor then some true else ctl.noColor
    username := ((cliBasicOverride args).map Prod.fst).or ctl.username
    password := ((cliBasicOverride args).map Prod.snd).or ctl.password }

/-- `PYTHON_DEFAULT_SERVERURL`. -/
def pythonDefaultServerurl : String := "http://localhost:9001"

/-- `resolve_ctl_chain`, where `localUrl` is `default_local_url`. -/
def resolveCtlChain (localUrl : String) (cfg : Option (ServerConfig × Option CtlConfig))
    (args : CliArgs) : Except String (List CtlConfig) := do
  let ctls ← match cfg with
    | none => pure [⟨some localUrl, none, none, none, none⟩,
        ⟨some pythonDefaultServerurl, none, none, none, none⟩]
    | some (_, some ctl) => pure [ctl]
    | some (server, none) =>
      if server.ctlDefaults then pure (CtlConfig.vecFromServer server)
      else throw ("configuration does not include a [supervisorctl] / ctl section " ++
        "(server.ctl_defaults is false and no section was provided)")
  let ctls := match args.server with
    | some url =>
      if 1 < ctls.length then
        let wantTcp := (Endpoint.parse url).isTcp
        let seed := ctls.find? fun c : CtlConfig =>
          (Endpoint.parse (c.serverurl.getD "")).isTcp == wantTcp
        (seed.or ctls.head?).toList
      else ctls
    | none => ctls
  pure (ctls.map args.apply)

/-- `basic_pair`. -/
def basicPair : Option String → Option String → Option (String × String)
  | some u, some p => if u ≠ "" ∨ p ≠ "" then some (u, p) else none
  | some u, none => if u ≠ "" then some (u, "") else none
  | none, some p => if p ≠ "" then some ("", p) else none
  | none, none => none

/-- An endpoint that the client tries, with its credentials. -/
structure EndpointCandidate where
  endpoint : Endpoint
  basic : Option (String × String)
  deriving DecidableEq, Repr

/-- `ctl_to_candidate`. -/
def ctlToCandidate (ctl : CtlConfig) : EndpointCandidate where
  endpoint := Endpoint.parse (ctl.serverurl.getD pythonDefaultServerurl)
  basic := basicPair ctl.username ctl.password

/-- The client: the endpoints that it tries, the token, and the credentials of the command line. -/
structure SupervisorClient where
  candidates : List EndpointCandidate
  authToken : Option String
  basicOverride : Option (String × String)
  deriving DecidableEq, Repr

/-- `resolve_endpoint_candidates`, for a configuration that was loaded. -/
def resolveEndpointCandidates (localUrl : String) (cfg : Option (ServerConfig × Option CtlConfig))
    (args : CliArgs) : Except String SupervisorClient := do
  let ctls ← resolveCtlChain localUrl cfg args
  pure ⟨ctls.map ctlToCandidate, ctls.head?.bind CtlConfig.authToken, cliBasicOverride args⟩

/-! ## Requests -/

namespace SupervisorClient

/-- The value of the field that `append_auth_header_with` writes. -/
def authorization (http : HttpLibrary) (client : SupervisorClient)
    (basic : Option (String × String)) : Option String :=
  match client.authToken, basic with
  | some token, _ => some ("Bearer " ++ token)
  | none, some (u, p) => some ("Basic " ++ http.base64.encode (utf8 (u ++ ":" ++ p)))
  | none, none => none

/-- The credentials on the stream that `open_stream` opened to a candidate. -/
def basicFor (client : SupervisorClient) (cand : EndpointCandidate) : Option (String × String) :=
  client.basicOverride.or cand.basic

end SupervisorClient

/-- The HTTP library hands the value of a visible field over, up to the blanks around it. -/
def Delivers (field : String → List UInt8) : Prop :=
  ∀ v, IsVisibleText v → ∃ v', field v = utf8 v' ∧ IsVisibleText v' ∧ trim v' = trim v

/-- What the server is handed of a request of the client. -/
def SupervisorClient.request (http : HttpLibrary) (client : SupervisorClient)
    (field : String → List UInt8) (cand : EndpointCandidate) (method : Method) (path : String) :
    HttpRequest where
  method := method
  scheme := none
  path := path
  query := none
  headers := match client.authorization http (client.basicFor cand) with
    | some value => [("authorization", field value)]
    | none => []
  body := none

/-- `authorize` of a request without a session. -/
def ServerAuthState.accepts (http : HttpLibrary) (auth : ServerAuthState)
    (sha1 : List UInt8 → List UInt8) (req : HttpRequest) : Bool :=
  !auth.isAuthConfigured || auth.credentialsMatch sha1 (attemptsFromRequest http req)

/-- The password is the one that is asked for. -/
def BasicAuthConfig.PasswordMatches (auth : BasicAuthConfig) (sha1 : List UInt8 → List UInt8)
    (pass : String) : Prop :=
  match auth.expectedSha with
  | some expected => toHex (sha1 (utf8 pass)) = toAsciiLowercase (trim expected)
  | none => auth.password = pass

section Results

variable {http : HttpLibrary} {sha1 : List UInt8 → List UInt8} {field : String → List UInt8}

theorem BasicAuthConfig.verify_iff {auth : BasicAuthConfig} {user pass : String} :
    auth.verify sha1 user pass = true ↔ auth.username = user ∧ auth.PasswordMatches sha1 pass := by
  have huser : constantTimeEq (utf8 auth.username) (utf8 user) = true ↔ auth.username = user := by
    rw [constantTimeEq_iff, utf8_inj]
  unfold verify PasswordMatches
  by_cases h : auth.username = user
  · rw [huser.mpr h]
    cases auth.expectedSha <;> simp [constantTimeEq_iff, utf8_inj, h]
  · rw [eq_false_of_ne_true fun heq => h (huser.mp heq)]
    simp [h]

/-- The client has credentials when the listener asks for some. -/
theorem basicPair_eq (u p : Option String) :
    basicPair u p = (BasicAuthConfig.new u p).map fun b => (b.username, b.password) := by
  cases u with
  | none =>
    cases p with
    | none => rfl
    | some p => by_cases hp : p = "" <;> simp [basicPair, BasicAuthConfig.new, hp]
  | some u =>
    cases p with
    | none => by_cases hu : u = "" <;> simp [basicPair, BasicAuthConfig.new, hu]
    | some p =>
      by_cases hu : u = "" <;> by_cases hp : p = "" <;>
        simp [basicPair, BasicAuthConfig.new, hu, hp]

/-- The credentials of a request without an `Authorization` field. -/
theorem attemptsFromRequest_nil (method : Method) (path : String) :
    ServerAuthState.attemptsFromRequest http ⟨method, none, path, none, [], none⟩ =
      ⟨none, none, none⟩ := rfl

section Requests

variable {client : SupervisorClient} {cand : EndpointCandidate} {method : Method}
  {path value : String}

/-- The credentials of a request that the client sent. -/
theorem attempts_request (hfield : Delivers field) (hvisible : IsVisibleText value)
    (hvalue : client.authorization http (client.basicFor cand) = some value) :
    ServerAuthState.attemptsFromRequest http (client.request http field cand method path) =
      ⟨extractBasicAuth http (trim value), tokenOfHeader value, none⟩ := by
  obtain ⟨v', hv', hvisible', htrim⟩ := hfield value hvisible
  have hget : (client.request http field cand method path).headers.get "authorization" =
      some (utf8 v') := by
    simp only [SupervisorClient.request, hvalue, HeaderMap.get, hv']
    rfl
  have hsession : sessionIdFromHeaders http (client.request http field cand method path).headers =
      none := by
    simp only [SupervisorClient.request, hvalue]
    rfl
  have htoken : tokenOfHeader v' = tokenOfHeader value := by
    rw [tokenOfHeader, tokenOfHeader, htrim]
  have hquery : (client.request http field cand method path).query = none := rfl
  rw [attemptsFromRequest_eq hvisible' hget, hsession, htrim, htoken, hquery, Option.bind_none,
    Option.or_none]

/-- A token is accepted when there are no blanks around it. -/
theorem credentialsMatch_bearer (hfield : Delivers field) {auth : ServerAuthState} {token : String}
    (hvisible : IsVisibleText token) (htoken : client.authToken = some token) :
    auth.credentialsMatch sha1 (ServerAuthState.attemptsFromRequest http
      (client.request http field cand method path)) = true ↔
        auth.authToken = some (if trim token = "" then "Bearer" else trim token) := by
  have hvalue : client.authorization http (client.basicFor cand) = some ("Bearer " ++ token) := by
    simp only [SupervisorClient.authorization, htoken]
  have hbearer : IsVisibleText "Bearer " := isVisibleText_of_all rfl
  have hbasic : extractBasicAuth http (trim ("Bearer " ++ token)) = none :=
    extractBasicAuth_bearer token
  rw [attempts_request hfield (isVisibleText_append.mpr ⟨hbearer, hvisible⟩) hvalue, hbasic,
    tokenOfHeader_bearer, ServerAuthState.credentialsMatch]
  have hnone : auth.basicMatches sha1
      ⟨none, some (if trim token = "" then "Bearer" else trim token), none⟩ = false := by
    unfold ServerAuthState.basicMatches
    cases auth.basicAuth <;> rfl
  rw [hnone, Bool.or_false]
  unfold ServerAuthState.tokenMatches
  cases auth.authToken with
  | none => simp
  | some expected => simp [constantTimeEq_iff, utf8_inj]

/-- A name and a password are read up to the first colon. -/
theorem credentialsMatch_basic (hfield : Delivers field) {auth : ServerAuthState} {u p : String}
    (htoken : client.authToken = none) (hbasic : client.basicFor cand = some (u, p)) :
    auth.credentialsMatch sha1 (ServerAuthState.attemptsFromRequest http
      (client.request http field cand method path)) = true ↔
        ∃ basic user pass, auth.basicAuth = some basic ∧
          splitOnce ':' (u ++ ":" ++ p) = some (user, pass) ∧ basic.username = user ∧
            basic.PasswordMatches sha1 pass := by
  have hvalue : client.authorization http (client.basicFor cand) =
      some ("Basic " ++ http.base64.encode (utf8 (u ++ ":" ++ p))) := by
    simp only [SupervisorClient.authorization, htoken, hbasic]
  have hbytes : utf8 (u ++ ":" ++ p) ≠ [] := by
    have hcolon : utf8 ":" = [58] := rfl
    simp [utf8_append, hcolon]
  have hvisible : IsVisibleText ("Basic " ++ http.base64.encode (utf8 (u ++ ":" ++ p))) :=
    isVisibleText_append.mpr
      ⟨isVisibleText_of_all rfl, fun c hc => ((basic_payload hbytes).2 c hc).2⟩
  have hread : fromUtf8 (utf8 (u ++ ":" ++ p)) = some (u ++ ":" ++ p) :=
    fromUtf8_eq_some_iff.mpr rfl
  rw [attempts_request hfield hvisible hvalue, trim_basic hbytes, extractBasicAuth_basic hbytes,
    tokenOfHeader_basic hbytes, hread, Option.bind_some, ServerAuthState.credentialsMatch]
  -- The field has no token, so that only the name and the password count.
  have hnone : auth.tokenMatches ⟨splitOnce ':' (u ++ ":" ++ p), none, none⟩ = false := by
    unfold ServerAuthState.tokenMatches
    cases auth.authToken <;> rfl
  rw [hnone, Bool.false_or]
  unfold ServerAuthState.basicMatches
  cases hauth : auth.basicAuth with
  | none => simp
  | some basic =>
    cases hsplit : splitOnce ':' (u ++ ":" ++ p) with
    | none => simp
    | some pair =>
      obtain ⟨user, pass⟩ := pair
      refine BasicAuthConfig.verify_iff.trans ⟨fun h => ⟨basic, user, pass, rfl, rfl, h⟩, ?_⟩
      rintro ⟨_, _, _, hbasic, hpair, h⟩
      cases hbasic
      cases hpair
      exact h

end Requests

/-- The client takes each endpoint with the credentials of its listener. -/
theorem credentials_of_server {server : ServerConfig} {localUrl : String} {noColor : Bool}
    {client : SupervisorClient} {l : Listener} {cand : EndpointCandidate}
    (hclient : resolveEndpointCandidates localUrl (some (server, none))
      ⟨none, none, none, none, noColor⟩ = .ok client)
    (hcand : (l, cand) ∈ [Listener.ipc, .tcp].zip client.candidates) :
    client.authToken = server.authToken ∧ client.basicFor cand =
      ((server.authState l).basicAuth.map fun b => (b.username, b.password)) := by
  by_cases hdefaults : server.ctlDefaults = true
  · have hresolve : resolveEndpointCandidates localUrl (some (server, none))
        ⟨none, none, none, none, noColor⟩ = .ok ⟨((CtlConfig.vecFromServer server).map
          (CliArgs.apply ⟨none, none, none, none, noColor⟩)).map ctlToCandidate,
            server.authToken, none⟩ := by
      simp only [resolveEndpointCandidates, resolveCtlChain, hdefaults, if_true]
      rfl
    obtain rfl := Except.ok.inj (hresolve.symm.trans hclient)
    refine ⟨rfl, ?_⟩
    rw [CtlConfig.vecFromServer] at hcand
    -- The network endpoint is there when an address is set.
    cases hbind : server.httpBind.filter (· ≠ "") with
    | none =>
      rw [hbind] at hcand
      obtain ⟨rfl, rfl⟩ := Prod.mk.inj (List.mem_singleton.mp hcand)
      exact basicPair_eq _ _
    | some bind =>
      rw [hbind] at hcand
      obtain h | h := List.mem_cons.mp hcand
      · obtain ⟨rfl, rfl⟩ := Prod.mk.inj h
        exact basicPair_eq _ _
      · obtain ⟨rfl, rfl⟩ := Prod.mk.inj (List.mem_singleton.mp h)
        exact basicPair_eq _ _
  · simp only [resolveEndpointCandidates, resolveCtlChain, hdefaults] at hclient
    cases hclient

/-- A name that is read up to the first colon is the whole name when there is none in it. -/
theorem splitOnce_colon {u p user pass : String}
    (h : splitOnce ':' (u ++ ":" ++ p) = some (user, pass)) :
    user = u ↔ ':' ∉ u.toList ∧ pass = p := by
  constructor
  · rintro rfl
    have hcolon := (eq_of_splitOnce h).2
    have hpair := h.symm.trans (splitOnce_append hcolon p)
    exact ⟨hcolon, (Prod.mk.inj (Option.some.inj hpair)).2⟩
  · rintro ⟨hcolon, -⟩
    have hpair := h.symm.trans (splitOnce_append hcolon p)
    exact (Prod.mk.inj (Option.some.inj hpair)).1

/-- A client that takes its credentials from the section of the server is accepted by a listener
that asks for some exactly when the token has no blanks around it and, without a token, the name
has no colon in it and the password, if it is given by its hash, is its own hash. -/
theorem accepts_iff {server : ServerConfig} {localUrl : String} {noColor : Bool}
    {client : SupervisorClient} {l : Listener} {cand : EndpointCandidate} {method : Method}
    {path : String} (hfield : Delivers field)
    (hvisible : ∀ t, server.authToken = some t → IsVisibleText t)
    (hclient : resolveEndpointCandidates localUrl (some (server, none))
      ⟨none, none, none, none, noColor⟩ = .ok client)
    (hcand : (l, cand) ∈ [Listener.ipc, .tcp].zip client.candidates) :
    (server.authState l).accepts http sha1 (client.request http field cand method path) = true ↔
      (server.authState l).isAuthConfigured = false ∨
        (∃ t, server.authToken = some t ∧ t ≠ "" ∧ trim t = t) ∨
          server.authToken = none ∧ ∃ basic, (server.authState l).basicAuth = some basic ∧
            ':' ∉ basic.username.toList ∧ basic.PasswordMatches sha1 basic.password := by
  obtain ⟨htoken, hbasic⟩ := credentials_of_server hclient hcand
  rw [ServerAuthState.accepts, Bool.or_eq_true, Bool.not_eq_true']
  refine or_congr_right ?_
  have hauth : (server.authState l).authToken = server.authToken.filter (· ≠ "") := by
    cases l <;> rfl
  cases hserver : server.authToken with
  | some t =>
    rw [credentialsMatch_bearer hfield (hvisible t hserver) (htoken.trans hserver), hauth, hserver]
    simp only [reduceCtorEq, false_and, or_false, Option.some.injEq, exists_eq_left']
    by_cases hempty : t = ""
    · simp [hempty]
    · rw [Option.filter_some, if_pos (by simpa using hempty), Option.some.injEq]
      split
      next hblank =>
        -- A token of blanks is read as the word in front of it.
        have hbearer : trim "Bearer" = "Bearer" := by decide
        refine iff_of_false (fun heq => ?_) fun h => hempty (h.2.symm.trans hblank)
        rw [heq, hbearer] at hblank
        exact absurd hblank (by decide)
      next => exact ⟨fun h => ⟨hempty, h.symm⟩, fun h => h.2.symm⟩
  | none =>
    simp only [reduceCtorEq, false_and, exists_false, true_and, false_or]
    rw [hserver] at htoken
    cases hconfigured : (server.authState l).basicAuth with
    | none =>
      rw [hconfigured] at hbasic
      have hnone : client.authorization http (client.basicFor cand) = none := by
        simp only [SupervisorClient.authorization, htoken, hbasic, Option.map_none]
      refine iff_of_false ?_ (by simp)
      simp only [SupervisorClient.request, hnone, attemptsFromRequest_nil,
        ServerAuthState.credentialsMatch, ServerAuthState.tokenMatches,
        ServerAuthState.basicMatches, hconfigured, hauth, hserver]
      simp
    | some basic =>
      rw [hconfigured] at hbasic
      rw [credentialsMatch_basic hfield htoken hbasic, hconfigured]
      constructor
      · rintro ⟨_, user, pass, hsome, hsplit, hname, hmatch⟩
        obtain rfl := Option.some.inj hsome
        obtain ⟨hcolon, rfl⟩ := (splitOnce_colon hsplit).mp hname.symm
        exact ⟨_, rfl, hcolon, hmatch⟩
      · rintro ⟨_, hsome, hcolon, hmatch⟩
        obtain rfl := Option.some.inj hsome
        exact ⟨_, _, _, rfl, splitOnce_append hcolon _, rfl, hmatch⟩

end Results

/-- A server that asks for a password on its local socket. -/
def passwordServer : ServerConfig :=
  ⟨"/run/supervisord.sock", some "admin", some "secret", none, none, none, none, true⟩

/-- Its client is let in. -/
theorem accepts_password : ∃ client cand,
    resolveEndpointCandidates "/run/supervisord.sock" (some (passwordServer, none))
      ⟨none, none, none, none, false⟩ = .ok client ∧
      (Listener.ipc, cand) ∈ [Listener.ipc, .tcp].zip client.candidates ∧
        (passwordServer.authState .ipc).accepts .standard (fun _ => [])
          (client.request .standard utf8 cand .get "/api/v1/status") = true := by
  -- The socket is the only endpoint, so its candidate is the only one that is tried.
  have hclient : resolveEndpointCandidates "/run/supervisord.sock" (some (passwordServer, none))
      ⟨none, none, none, none, false⟩ = .ok ⟨((CtlConfig.vecFromServer passwordServer).map
        (CliArgs.apply ⟨none, none, none, none, false⟩)).map ctlToCandidate, none, none⟩ := rfl
  refine ⟨_, _, hclient, List.mem_cons_self, ?_⟩
  have hutf8 : Delivers utf8 := fun v hv => ⟨v, rfl, hv, rfl⟩
  have htoken : ∀ t, passwordServer.authToken = some t → IsVisibleText t := by simp [passwordServer]
  refine (accepts_iff hutf8 htoken hclient List.mem_cons_self).mpr (.inr (.inr ⟨rfl, ?_⟩))
  refine ⟨(⟨"admin", "secret"⟩ : BasicAuthConfig), ?_, ?_, rfl⟩
  · simp [ServerConfig.authState, passwordServer, ServerAuthState.new, BasicAuthConfig.new]
  · decide

end Rsupervisord
