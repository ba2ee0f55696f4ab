import Rsupervisord.Server.Credentials
import Rsupervisord.Support.Leases
import Rsupervisord.Support.TransitionSystem

/-!
# Sessions of the web interface

A login issues a session, and a request that carries the cookie of a session is let through on each
listener. The sessions are kept in a concurrent map that is shared by the requests of all listeners.
Each operation on the map, which is divided into shards, is a step, and the steps of requests that
are served at the same time interleave. The clock goes on between any two steps.

## Main definitions

* `SessionServer`: the clock, the sessions and the requests.
* `Flight.Authorized`: what lets a request through.

## Main results

* `SessionServer.authorized_of_dispatched`: a request reaches a handler that it is not free to reach
  with the credentials of the listener only, or with a session that was issued for credentials of
  one of the listeners and whose uses are less than the lifetime of a session apart.
* `SessionServer.not_held_of_unauthorized`: while no request sleeps for such a time, a request with
  a session that is held is not turned away.
-/

namespace Rsupervisord

open Text Http

/-- `DashMap`: the shard of a key. -/
structure Sharding where
  count : ℕ
  shard : String → Fin count

/-- Who calls `validate_session`. -/
inductive Caller
  | middleware
  | authConfig
  deriving DecidableEq, Repr

/-- The answer to a request. -/
inductive HttpAnswer
  /-- The router took over, for another handler than those of a login. `static_handler` is the
  fallback, which is open. -/
  | dispatched (r : Route Handler)
  /-- The middleware turned the request away. -/
  | unauthorized (challenge : Bool) (error : String)
  /-- `auth_config`: the session is valid. -/
  | session (valid : Bool)
  /-- `auth_login`, with the cookie that it sets. -/
  | loggedIn (cookie : List UInt8)
  | loginRefused
  | loginFailed
  /-- The body is not that of a login. -/
  | badBody
  /-- `auth_logout`, with the cookie that it sets. -/
  | loggedOut (cookie : List UInt8)
  deriving DecidableEq, Repr

/-- Where a request is. -/
inductive Phase
  | arrived
  /-- `validate_session` read the clock and calls `retain`, which is about to look at a shard. -/
  | retaining (caller : Caller) (id : String) (now shard : ℕ)
  /-- `validate_session` is about to look the session up. -/
  | looking (caller : Caller) (id : String) (now : ℕ)
  /-- `validate_session` found a session past its end and is about to remove it. -/
  | removing (caller : Caller) (id : String)
  /-- `create_session` read the clock and is about to insert the session. -/
  | inserting (id : String) (now : ℕ)
  /-- `invalidate_session` is about to remove the session. -/
  | invalidating (id : String)
  | answered (a : HttpAnswer)
  deriving DecidableEq, Repr

/-- The clock reading that a phase goes on with, and how many shards were looked at since. -/
def Phase.reading (count : ℕ) : Phase → Option (ℕ × ℕ)
  | retaining _ _ now n => some (now, n)
  | looking _ _ now => some (now, count)
  | inserting _ now => some (now, 0)
  | _ => none

/-- A request at a listener. -/
structure Flight where
  listener : Listener
  req : HttpRequest
  phase : Phase
  deriving DecidableEq, Repr

/-- The server: its configuration, the HTTP libraries, the hash function and the shards of the
map. -/
structure ServerEnv where
  config : ServerConfig
  http : HttpLibrary
  sha1 : List UInt8 → List UInt8
  sharding : Sharding

namespace Flight

variable (env : ServerEnv) (f : Flight)

/-- What the listener asks for. -/
def auth : ServerAuthState := env.config.authState f.listener

/-- The credentials of the request. -/
def attempts : AuthAttempts := ServerAuthState.attemptsFromRequest env.http f.req

/-- The handler of the request. -/
def target : Route Handler := env.http.route routes f.req.method f.req.path

/-- The answer of the middleware to a request that it turns away. -/
def unauthorized : HttpAnswer :=
  let basic := (f.auth env).basicAuth.isSome
  .unauthorized (f.req.path = "/RPC2" && basic)
    (if basic then "Unauthorized: Invalid basic authentication credentials"
      else "Unauthorized: Invalid token")

/-- `authorize` of a login, which brings no session. -/
def loginPasses (payload : LoginRequest) : Bool :=
  !(f.auth env).isAuthConfigured || (f.auth env).credentialsMatch env.sha1 payload.attempts

/-- The beginning of `validate_session` of a session that is not empty. -/
def validate (caller : Caller) (id : String) (clock : ℕ) : Phase := .retaining caller id clock 0

/-- `auth_login`. The random bytes are `fill`. -/
def login (clock : ℕ) (fill : Option (Vector UInt8 32)) : Phase :=
  match f.req.body with
  | none => .answered .badBody
  | some payload =>
    if f.loginPasses env payload then
      match fill with
      | none => .answered .loginFailed
      | some buf => .inserting (toHex buf.toList) clock
    else .answered .loginRefused

/-- The handler takes over. -/
def dispatch (clock : ℕ) (fill : Option (Vector UInt8 32)) : Phase :=
  match f.target env with
  | .handler .authLogin => f.login env clock fill
  | .handler .authLogout =>
    match (f.attempts env).session with
    | some id => .invalidating id
    | none => .answered (.loggedOut (cookieHeader env.http (buildClearCookie env.http f.req)))
  | .handler .authConfig =>
    match (f.attempts env).session with
    | some id => validate .authConfig id clock
    | none => .answered (.session false)
  | r => .answered (.dispatched r)

/-- `authorize` behind the session, and the rest of the middleware. -/
def checkCredentials (clock : ℕ) (fill : Option (Vector UInt8 32)) : Phase :=
  if (f.auth env).credentialsMatch env.sha1 (f.attempts env) then f.dispatch env clock fill
  else .answered (f.unauthorized env)

/-- `http_auth_middleware`. -/
def middleware (clock : ℕ) (fill : Option (Vector UInt8 32)) : Phase :=
  if !isProtectedPath f.req.path || isPublicAuthPath f.req.path then f.dispatch env clock fill
  else if !(f.auth env).isAuthConfigured then f.dispatch env clock fill
  else
    match (f.attempts env).session with
    | some id => validate .middleware id clock
    | none => f.checkCredentials env clock fill

/-- What the caller of `validate_session` does with its result. -/
def validated (clock : ℕ) (fill : Option (Vector UInt8 32)) (valid : Bool) : Caller → Phase
  | .authConfig => .answered (.session valid)
  | .middleware => if valid then f.dispatch env clock fill else f.checkCredentials env clock fill

end Flight

/-- The sessions, each with its end, the clock, and the requests by their number. -/
structure SessionServer where
  clock : ℕ
  sessions : LeaseStore String ℕ
  flights : HashMap ℕ Flight

namespace SessionServer

/-- What happens to the server. -/
inductive Label
  /-- Time passes. -/
  | tick (n : ℕ)
  | arrive (i : ℕ) (listener : Listener) (req : HttpRequest)
  /-- A request takes a step. A login is given random bytes. -/
  | step (i : ℕ) (fill : Option (Vector UInt8 32))
  deriving DecidableEq, Repr

/-- The server when it starts. -/
def start : SessionServer := ⟨0, ⟨∅, []⟩, ∅⟩

/-- One step of the request of number `i`: its next phase and the sessions. -/
def advance (env : ServerEnv) (s : SessionServer) (i : ℕ) (f : Flight)
    (fill : Option (Vector UInt8 32)) : Option (Phase × LeaseStore String ℕ) :=
  match f.phase with
  | .arrived => some (f.middleware env s.clock fill, s.sessions)
  | .retaining caller id now n =>
    some (if n + 1 < env.sharding.count then .retaining caller id now (n + 1)
        else .looking caller id now,
      s.sessions.prune (fun k => (env.sharding.shard k).val = n) now)
  | .looking caller id now =>
    match s.sessions.leases.lookup id with
    | some expiresAt =>
      if now < expiresAt then
        some (f.validated env s.clock fill true caller, s.sessions.renew sessionTtl id i now)
      else some (.removing caller id, s.sessions)
    | none => some (f.validated env s.clock fill false caller, s.sessions.refuse id i s.clock)
  | .removing caller id =>
    some (f.validated env s.clock fill false caller,
      (s.sessions.revoke id i).refuse id i s.clock)
  | .inserting id now =>
    some (.answered (.loggedIn (cookieHeader env.http (buildSessionCookie env.http id f.req))),
      s.sessions.grant sessionTtl id i now)
  | .invalidating id =>
    some (.answered (.loggedOut (cookieHeader env.http (buildClearCookie env.http f.req))),
      s.sessions.revoke id i)
  | .answered _ => none

/-- The states of the server. -/
def next (env : ServerEnv) (s : SessionServer) : Label → Option SessionServer
  | .tick n => some { s with clock := s.clock + n }
  | .arrive i listener req =>
    if i ∈ s.flights then none
    else some { s with flights := s.flights.insert i ⟨listener, req, .arrived⟩ }
  | .step i fill => do
    let f ← s.flights.lookup i
    let (phase, sessions) ← s.advance env i f fill
    some { s with sessions := sessions, flights := s.flights.insert i { f with phase := phase } }

/-- The server as a transition system. -/
def system (env : ServerEnv) : TransitionSystem SessionServer Label :=
  .ofNext start (next env)

/-! ## Steps -/

variable {env : ServerEnv} {s t : SessionServer} {i : ℕ} {f : Flight}

/-- What a step of a request can do. -/
inductive Advance (env : ServerEnv) (s : SessionServer) (i : ℕ) (f : Flight)
    (fill : Option (Vector UInt8 32)) : Phase → LeaseStore String ℕ → Prop
  | arrived (hphase : f.phase = .arrived) :
      Advance env s i f fill (f.middleware env s.clock fill) s.sessions
  | retain {caller : Caller} {id : String} {now n : ℕ}
      (hphase : f.phase = .retaining caller id now n) (hn : n + 1 < env.sharding.count) :
      Advance env s i f fill (.retaining caller id now (n + 1))
        (s.sessions.prune (fun k => (env.sharding.shard k).val = n) now)
  | retainLast {caller : Caller} {id : String} {now n : ℕ}
      (hphase : f.phase = .retaining caller id now n) (hn : env.sharding.count ≤ n + 1) :
      Advance env s i f fill (.looking caller id now)
        (s.sessions.prune (fun k => (env.sharding.shard k).val = n) now)
  | renew {caller : Caller} {id : String} {now expiresAt : ℕ}
      (hphase : f.phase = .looking caller id now)
      (hlookup : s.sessions.leases.lookup id = some expiresAt) (hnow : now < expiresAt) :
      Advance env s i f fill (f.validated env s.clock fill true caller)
        (s.sessions.renew sessionTtl id i now)
  | expired {caller : Caller} {id : String} {now expiresAt : ℕ}
      (hphase : f.phase = .looking caller id now)
      (hlookup : s.sessions.leases.lookup id = some expiresAt) (hnow : expiresAt ≤ now) :
      Advance env s i f fill (.removing caller id) s.sessions
  | refuse {caller : Caller} {id : String} {now : ℕ} (hphase : f.phase = .looking caller id now)
      (hlookup : s.sessions.leases.lookup id = none) :
      Advance env s i f fill (f.validated env s.clock fill false caller)
        (s.sessions.refuse id i s.clock)
  | remove {caller : Caller} {id : String} (hphase : f.phase = .removing caller id) :
      Advance env s i f fill (f.validated env s.clock fill false caller)
        ((s.sessions.revoke id i).refuse id i s.clock)
  | insert {id : String} {now : ℕ} (hphase : f.phase = .inserting id now) :
      Advance env s i f fill
        (.answered (.loggedIn (cookieHeader env.http (buildSessionCookie env.http id f.req))))
        (s.sessions.grant sessionTtl id i now)
  | invalidate {id : String} (hphase : f.phase = .invalidating id) :
      Advance env s i f fill
        (.answered (.loggedOut (cookieHeader env.http (buildClearCookie env.http f.req))))
        (s.sessions.revoke id i)

/-- These are the steps of a request. -/
theorem advance_cases {fill : Option (Vector UInt8 32)} {phase : Phase}
    {sessions : LeaseStore String ℕ} (h : s.advance env i f fill = some (phase, sessions)) :
    Advance env s i f fill phase sessions := by
  unfold advance at h
  cases hphase : f.phase with
  | arrived =>
    simp only [hphase, Option.some.injEq, Prod.mk.injEq] at h
    obtain ⟨rfl, rfl⟩ := h
    exact .arrived hphase
  | retaining caller id now n =>
    simp only [hphase, Option.some.injEq, Prod.mk.injEq] at h
    obtain ⟨rfl, rfl⟩ := h
    split
    next hn => exact .retain hphase hn
    next hn => exact .retainLast hphase (by omega)
  | looking caller id now =>
    simp only [hphase] at h
    cases hlookup : s.sessions.leases.lookup id with
    | some expiresAt =>
      simp only [hlookup] at h
      split at h
      next hnow =>
        obtain ⟨rfl, rfl⟩ := Prod.mk.inj (Option.some.inj h)
        exact .renew hphase hlookup hnow
      next hnow =>
        obtain ⟨rfl, rfl⟩ := Prod.mk.inj (Option.some.inj h)
        exact .expired hphase hlookup (by omega)
    | none =>
      simp only [hlookup, Option.some.injEq, Prod.mk.injEq] at h
      obtain ⟨rfl, rfl⟩ := h
      exact .refuse hphase hlookup
  | removing caller id =>
    simp only [hphase, Option.some.injEq, Prod.mk.injEq] at h
    obtain ⟨rfl, rfl⟩ := h
    exact .remove hphase
  | inserting id now =>
    simp only [hphase, Option.some.injEq, Prod.mk.injEq] at h
    obtain ⟨rfl, rfl⟩ := h
    exact .insert hphase
  | invalidating id =>
    simp only [hphase, Option.some.injEq, Prod.mk.injEq] at h
    obtain ⟨rfl, rfl⟩ := h
    exact .invalidate hphase
  | answered a =>
    rw [hphase] at h
    cases h

/-- What a step of the server can do. -/
inductive Step (env : ServerEnv) (s : SessionServer) : Label → SessionServer → Prop
  | tick (n : ℕ) : Step env s (.tick n) { s with clock := s.clock + n }
  | arrive (i : ℕ) (listener : Listener) (req : HttpRequest) (hnew : i ∉ s.flights) :
      Step env s (.arrive i listener req)
        { s with flights := s.flights.insert i ⟨listener, req, .arrived⟩ }
  | step (i : ℕ) (fill : Option (Vector UInt8 32)) {f : Flight} {phase : Phase}
      {sessions : LeaseStore String ℕ} (hf : s.flights.lookup i = some f)
      (hadvance : Advance env s i f fill phase sessions) :
      Step env s (.step i fill)
        { s with sessions := sessions, flights := s.flights.insert i { f with phase := phase } }

/-- These are the steps of the server. -/
theorem next_cases {l : Label} (h : next env s l = some t) : Step env s l t := by
  cases l with
  | tick n =>
    obtain rfl := Option.some.inj h
    exact .tick n
  | arrive i listener req =>
    rw [next] at h
    split at h
    next => cases h
    next hnew =>
      obtain rfl := Option.some.inj h
      exact .arrive i listener req hnew
  | step i fill =>
    obtain ⟨f, hf, h⟩ := Option.bind_eq_some_iff.mp h
    obtain ⟨⟨phase, sessions⟩, hadvance, h⟩ := Option.bind_eq_some_iff.mp h
    obtain rfl := Option.some.inj h
    exact .step i fill hf (advance_cases hadvance)

/-! ## Where a request may be -/

end SessionServer

namespace Flight

variable {env : ServerEnv} {f : Flight} {clock : ℕ} {fill : Option (Vector UInt8 32)}

/-- The request asks for what is not open, at a listener that asks for credentials. -/
def Guarded (env : ServerEnv) (f : Flight) : Prop :=
  isProtectedPath f.req.path = true ∧ isPublicAuthPath f.req.path = false ∧
    (f.auth env).isAuthConfigured = true

/-- The request is a login with good credentials. -/
def IsLogin (env : ServerEnv) (f : Flight) : Prop :=
  f.target env = .handler .authLogin ∧ ∃ payload, f.req.body = some payload ∧
    f.loginPasses env payload = true

/-- The cookie is that of a session that was issued to the request. -/
def SetsCookie (env : ServerEnv) (f : Flight) (cookie : List UInt8)
    (history : List (LeaseEvent String ℕ)) (i : ℕ) : Prop :=
  ∃ (buf : Vector UInt8 32) (now : ℕ), .granted (toHex buf.toList) i now ∈ history ∧
    cookie = cookieHeader env.http (buildSessionCookie env.http (toHex buf.toList) f.req)

/-- The request is a logout from the session `id`. -/
def IsLogout (env : ServerEnv) (f : Flight) (id : String) : Prop :=
  f.target env = .handler .authLogout ∧ (f.attempts env).session = some id

/-- `validate_session` is called for the session of the request, and by the middleware only when it
guards the request. -/
def Validates (env : ServerEnv) (f : Flight) (caller : Caller) (id : String) : Prop :=
  (f.attempts env).session = some id ∧ (caller = .middleware → f.Guarded env)

/-- The phase is one that the request can be in. -/
def Fits (env : ServerEnv) (f : Flight) : Phase → Prop
  | .retaining caller id _ _ | .looking caller id _ | .removing caller id =>
    f.Validates env caller id
  | .inserting id _ => f.IsLogin env ∧ ∃ buf : Vector UInt8 32, id = toHex buf.toList
  | .invalidating id => f.IsLogout env id
  | .answered (.dispatched r) => r = f.target env ∧ ∀ h, r = .handler h → h.isAuth = false
  | .answered (.unauthorized challenge _) =>
    f.Guarded env ∧ (f.auth env).credentialsMatch env.sha1 (f.attempts env) = false ∧
      (challenge = true → f.req.path = "/RPC2")
  | _ => True

theorem fits_login (h : f.target env = .handler .authLogin) :
    f.Fits env (f.login env clock fill) := by
  unfold login
  split
  next => trivial
  next payload hbody =>
    split
    next hpass =>
      split
      next => trivial
      next buf => exact ⟨⟨h, payload, hbody, hpass⟩, buf, rfl⟩
    next => trivial

theorem fits_dispatch : f.Fits env (f.dispatch env clock fill) := by
  unfold dispatch
  split
  next h => exact fits_login h
  next h =>
    split
    next id hid => exact ⟨h, hid⟩
    next => trivial
  next h =>
    split
    next id hid => exact ⟨hid, nofun⟩
    next => trivial
  next r hlogin hlogout hconfig =>
    refine ⟨rfl, fun h hr => ?_⟩
    cases h <;> first | rfl | exact absurd hr (by assumption)

theorem fits_checkCredentials (h : f.Guarded env) :
    f.Fits env (f.checkCredentials env clock fill) := by
  unfold checkCredentials
  split
  next => exact fits_dispatch
  next hmatch =>
    refine ⟨h, eq_false_of_ne_true hmatch, fun hchallenge => ?_⟩
    rw [Bool.and_eq_true, decide_eq_true_eq] at hchallenge
    exact hchallenge.1

theorem fits_middleware : f.Fits env (f.middleware env clock fill) := by
  unfold middleware
  split
  next => exact fits_dispatch
  next hpath =>
    split
    next => exact fits_dispatch
    next hconfigured =>
      rw [Bool.or_eq_true, Bool.not_eq_true', not_or, Bool.not_eq_false, Bool.not_eq_true] at hpath
      rw [Bool.not_eq_true', Bool.not_eq_false] at hconfigured
      have hguarded : f.Guarded env := ⟨hpath.1, hpath.2, hconfigured⟩
      split
      next id hid => exact ⟨hid, fun _ => hguarded⟩
      next => exact fits_checkCredentials hguarded

theorem fits_validated {caller : Caller} {id : String} (h : f.Validates env caller id)
    (valid : Bool) : f.Fits env (f.validated env clock fill valid caller) := by
  cases caller with
  | authConfig => trivial
  | middleware =>
    rw [validated]
    split
    next => exact fits_dispatch
    next => exact fits_checkCredentials (h.2 rfl)

/-- A phase at the beginning of `validate_session` or `create_session`, if in one of these. -/
def Starts (clock count : ℕ) (phase : Phase) : Prop :=
  (∀ now n, phase.reading count = some (now, n) → now = clock ∧ n = 0) ∧
    ∀ caller id, phase ≠ .removing caller id

theorem starts_answered {count : ℕ} (a : HttpAnswer) : Starts clock count (.answered a) :=
  ⟨nofun, nofun⟩

theorem starts_validate {count : ℕ} (caller : Caller) (id : String) :
    Starts clock count (validate caller id clock) := by
  refine ⟨fun now n h => ?_, nofun⟩
  obtain ⟨rfl, rfl⟩ := Prod.mk.inj (Option.some.inj h)
  exact ⟨rfl, rfl⟩

theorem starts_dispatch {count : ℕ} : Starts clock count (f.dispatch env clock fill) := by
  unfold dispatch
  split
  next =>
    unfold login
    split
    next => exact starts_answered _
    next =>
      split
      next =>
        split
        next => exact starts_answered _
        next =>
          refine ⟨fun now n h => ?_, nofun⟩
          obtain ⟨rfl, rfl⟩ := Prod.mk.inj (Option.some.inj h)
          exact ⟨rfl, rfl⟩
      next => exact starts_answered _
  next =>
    split
    next => exact ⟨nofun, nofun⟩
    next => exact starts_answered _
  next =>
    split
    next => exact starts_validate _ _
    next => exact starts_answered _
  next => exact starts_answered _

theorem starts_checkCredentials {count : ℕ} :
    Starts clock count (f.checkCredentials env clock fill) := by
  unfold checkCredentials
  split
  next => exact starts_dispatch
  next => exact starts_answered _

theorem starts_middleware {n : ℕ} : Starts clock n (f.middleware env clock fill) := by
  unfold middleware
  split
  next => exact starts_dispatch
  next =>
    split
    next => exact starts_dispatch
    next =>
      split
      next => exact starts_validate _ _
      next => exact starts_checkCredentials

theorem starts_validated {n : ℕ} (valid : Bool) (caller : Caller) :
    Starts clock n (f.validated env clock fill valid caller) := by
  cases caller with
  | authConfig => exact starts_answered _
  | middleware =>
    rw [validated]
    split
    next => exact starts_dispatch
    next => exact starts_checkCredentials

/-- The answer of the middleware to a request that it turns away. -/
def IsUnauthorized : Phase → Prop
  | .answered (.unauthorized _ _) => True
  | _ => False

theorem not_isUnauthorized_dispatch : ¬ IsUnauthorized (f.dispatch env clock fill) := by
  unfold dispatch
  split
  next =>
    unfold login
    split
    next => exact id
    next =>
      split
      next => split <;> exact id
      next => exact id
  next => split <;> exact id
  next => split <;> exact id
  next => exact id

/-- The middleware turns a request away at once only when it has no session. -/
theorem session_of_isUnauthorized (h : IsUnauthorized (f.middleware env clock fill)) :
    (f.attempts env).session = none := by
  unfold middleware at h
  split at h
  next => exact absurd h not_isUnauthorized_dispatch
  next =>
    split at h
    next => exact absurd h not_isUnauthorized_dispatch
    next =>
      split at h
      next => exact h.elim
      next hnone => exact hnone

theorem not_isUnauthorized_validated (caller : Caller) :
    ¬ IsUnauthorized (f.validated env clock fill true caller) := by
  cases caller with
  | authConfig => exact id
  | middleware => exact not_isUnauthorized_dispatch

/-- A login is answered when its session was inserted, not before. -/
theorem dispatch_ne_loggedIn {cookie : List UInt8} :
    f.dispatch env clock fill ≠ .answered (.loggedIn cookie) := by
  unfold dispatch
  split
  next =>
    unfold login
    split
    next => nofun
    next =>
      split
      next => split <;> nofun
      next => nofun
  next => split <;> nofun
  next => split <;> nofun
  next => nofun

theorem checkCredentials_ne_loggedIn {cookie : List UInt8} :
    f.checkCredentials env clock fill ≠ .answered (.loggedIn cookie) := by
  unfold checkCredentials
  split
  next => exact dispatch_ne_loggedIn
  next => nofun

theorem middleware_ne_loggedIn {cookie : List UInt8} :
    f.middleware env clock fill ≠ .answered (.loggedIn cookie) := by
  unfold middleware
  split
  next => exact dispatch_ne_loggedIn
  next =>
    split
    next => exact dispatch_ne_loggedIn
    next =>
      split
      next => nofun
      next => exact checkCredentials_ne_loggedIn

theorem validated_ne_loggedIn {cookie : List UInt8} (valid : Bool) (caller : Caller) :
    f.validated env clock fill valid caller ≠ .answered (.loggedIn cookie) := by
  cases caller with
  | authConfig => nofun
  | middleware =>
    rw [validated]
    split
    next => exact dispatch_ne_loggedIn
    next => exact checkCredentials_ne_loggedIn

/-- What the middleware lets through at once is open, or has the credentials. -/
theorem of_middleware_dispatched {r : Route Handler}
    (h : f.middleware env clock fill = .answered (.dispatched r)) :
    ¬ f.Guarded env ∨ (f.auth env).credentialsMatch env.sha1 (f.attempts env) = true := by
  unfold middleware at h
  split at h
  next hopen =>
    refine .inl fun hguarded => ?_
    simp [hguarded.1, hguarded.2.1] at hopen
  next =>
    split at h
    next hconfigured =>
      refine .inl fun hguarded => ?_
      simp [hguarded.2.2] at hconfigured
    next =>
      split at h
      next => cases h
      next =>
        unfold checkCredentials at h
        split at h
        next hmatch => exact .inr hmatch
        next => cases h

theorem of_validated_dispatched {r : Route Handler} {caller : Caller}
    (h : f.validated env clock fill false caller = .answered (.dispatched r)) :
    (f.auth env).credentialsMatch env.sha1 (f.attempts env) = true := by
  cases caller with
  | authConfig => cases h
  | middleware =>
    simp only [validated, Bool.false_eq_true, if_false, checkCredentials] at h
    split at h
    next hmatch => exact hmatch
    next => cases h

end Flight

namespace SessionServer

variable {env : ServerEnv} {s t : SessionServer} {i j : ℕ} {f g : Flight} {id : String} {l : Label}

/-- A request stays with its listener. -/
theorem exists_lookup_of_step (h : Step env s l t) (hg : s.flights.lookup j = some g) :
    ∃ phase, t.flights.lookup j = some { g with phase := phase } := by
  cases h with
  | tick => exact ⟨g.phase, hg⟩
  | arrive i listener req hnew =>
    have hne : j ≠ i := by
      rintro rfl
      exact hnew (HashMap.mem_iff_lookup.mpr ⟨g, hg⟩)
    refine ⟨g.phase, ?_⟩
    rw [HashMap.lookup_insert, if_neg hne, hg]
  | step i fill hf hadvance =>
    rw [HashMap.lookup_insert]
    split
    next heq =>
      subst heq
      obtain rfl := Option.some.inj (hf.symm.trans hg)
      exact ⟨_, rfl⟩
    next => exact ⟨g.phase, hg⟩

/-- The request of a number after a step: as before, or new, or the one that took the step. -/
theorem lookup_of_step (h : Step env s l t) (hg : t.flights.lookup j = some g) :
    s.flights.lookup j = some g ∨ g.phase = .arrived ∨
      ∃ fill f, l = .step j fill ∧ s.flights.lookup j = some f ∧ g = { f with phase := g.phase } ∧
        Advance env s j f fill g.phase t.sessions := by
  cases h with
  | tick => exact .inl hg
  | arrive i listener req hnew =>
    rw [HashMap.lookup_insert] at hg
    split at hg
    next =>
      obtain rfl := Option.some.inj hg
      exact .inr (.inl rfl)
    next => exact .inl hg
  | @step i fill f phase sessions hf hadvance =>
    rw [HashMap.lookup_insert] at hg
    split at hg
    next heq =>
      subst heq
      obtain rfl := Option.some.inj hg
      exact .inr (.inr ⟨fill, f, rfl, hf, rfl, hadvance⟩)
    next => exact .inl hg

/-- Nothing that happened is forgotten. -/
theorem history_suffix (h : Step env s l t) : s.sessions.history <:+ t.sessions.history := by
  cases h with
  | tick => exact List.suffix_rfl
  | arrive => exact List.suffix_rfl
  | step i fill hf hadvance =>
    cases hadvance with
    | arrived | retain | retainLast | expired => exact List.suffix_rfl
    | renew | refuse | insert | invalidate => exact List.suffix_cons _ _
    | remove => exact (List.suffix_cons _ _).trans (List.suffix_cons _ _)

/-! ## Requests that are let through -/

/-- The sessions that the server knows are held, they were issued to logins, and each request that
was let through had a reason. -/
structure Invariant (env : ServerEnv) (s : SessionServer) : Prop where
  fits : ∀ {i f}, s.flights.lookup i = some f → f.Fits env f.phase
  sound : s.sessions.Sound sessionTtl
  granted : ∀ {id j now}, .granted id j now ∈ s.sessions.history →
    ∃ g, s.flights.lookup j = some g ∧ g.IsLogin env
  dispatched : ∀ {i f r}, s.flights.lookup i = some f → f.phase = .answered (.dispatched r) →
    ¬ f.Guarded env ∨ (f.auth env).credentialsMatch env.sha1 (f.attempts env) = true ∨
      ∃ id now, (f.attempts env).session = some id ∧ .renewed id i now ∈ s.sessions.history
  loggedIn : ∀ {i f cookie}, s.flights.lookup i = some f →
    f.phase = .answered (.loggedIn cookie) → f.SetsCookie env cookie s.sessions.history i

/-- The next phase of a request is one that it can be in. -/
theorem Advance.fits {fill : Option (Vector UInt8 32)} {phase : Phase}
    {sessions : LeaseStore String ℕ} (h : Advance env s i f fill phase sessions)
    (hf : f.Fits env f.phase) : f.Fits env phase := by
  cases h with
  | arrived => exact Flight.fits_middleware
  | retain hphase | retainLast hphase | expired hphase =>
    rw [hphase] at hf
    exact hf
  | renew hphase | refuse hphase | remove hphase =>
    rw [hphase] at hf
    exact Flight.fits_validated hf _
  | insert | invalidate => trivial

/-- The sessions that the server knows stay held. -/
theorem Advance.sound {fill : Option (Vector UInt8 32)} {phase : Phase}
    {sessions : LeaseStore String ℕ} (h : Advance env s i f fill phase sessions)
    (hs : s.sessions.Sound sessionTtl) : sessions.Sound sessionTtl := by
  cases h with
  | arrived | expired => exact hs
  | retain | retainLast => exact hs.prune _ _
  | renew _ hlookup hnow => exact hs.renew hlookup hnow _
  | refuse => exact hs.refuse _ _ _
  | remove => exact (hs.revoke _ _).refuse _ _ _
  | insert => exact hs.grant _ _ _
  | invalidate => exact hs.revoke _ _

/-- A session is issued by the request that inserts it. -/
theorem Advance.granted {fill : Option (Vector UInt8 32)} {phase : Phase}
    {sessions : LeaseStore String ℕ} {now : ℕ} (h : Advance env s i f fill phase sessions)
    (hmem : .granted id j now ∈ sessions.history) :
    .granted id j now ∈ s.sessions.history ∨ j = i ∧ f.phase = .inserting id now := by
  cases h with
  | arrived | expired => exact .inl hmem
  | retain | retainLast => exact .inl hmem
  | renew | refuse | invalidate =>
    obtain heq | hmem := List.mem_cons.mp hmem
    · cases heq
    · exact .inl hmem
  | remove =>
    obtain heq | hmem := List.mem_cons.mp hmem
    · cases heq
    · obtain heq | hmem := List.mem_cons.mp hmem
      · cases heq
      · exact .inl hmem
  | insert hphase =>
    obtain heq | hmem := List.mem_cons.mp hmem
    · cases heq
      exact .inr ⟨rfl, hphase⟩
    · exact .inl hmem

/-- A request that is logged in was just issued its session. -/
theorem Advance.loggedIn {fill : Option (Vector UInt8 32)} {cookie : List UInt8}
    {sessions : LeaseStore String ℕ}
    (h : Advance env s i f fill (.answered (.loggedIn cookie)) sessions)
    (hf : f.Fits env f.phase) : f.SetsCookie env cookie sessions.history i := by
  generalize hphase' : Phase.answered (.loggedIn cookie) = phase at h
  cases h with
  | arrived => exact absurd hphase'.symm Flight.middleware_ne_loggedIn
  | renew | refuse | remove => exact absurd hphase'.symm (Flight.validated_ne_loggedIn _ _)
  | retain | retainLast | expired | invalidate => simp at hphase'
  | insert hphase =>
    rw [hphase] at hf
    obtain ⟨-, buf, rfl⟩ := hf
    have hcookie := HttpAnswer.loggedIn.inj (Phase.answered.inj hphase')
    exact ⟨buf, _, List.mem_cons_self, hcookie⟩

/-- A request that is let through has the credentials, or just used its session. -/
theorem Advance.dispatched {fill : Option (Vector UInt8 32)} {r : Route Handler}
    {sessions : LeaseStore String ℕ}
    (h : Advance env s i f fill (.answered (.dispatched r)) sessions)
    (hf : f.Fits env f.phase) :
    ¬ f.Guarded env ∨ (f.auth env).credentialsMatch env.sha1 (f.attempts env) = true ∨
      ∃ id now, (f.attempts env).session = some id ∧ .renewed id i now ∈ sessions.history := by
  generalize hphase' : Phase.answered (.dispatched r) = phase at h
  cases h with
  | arrived => exact (Flight.of_middleware_dispatched hphase'.symm).imp_right .inl
  | renew hphase =>
    rw [hphase] at hf
    exact .inr (.inr ⟨_, _, hf.1, List.mem_cons_self⟩)
  | refuse | remove => exact .inr (.inl (Flight.of_validated_dispatched hphase'.symm))
  | retain | retainLast | expired | insert | invalidate => simp at hphase'

theorem invariant_start : Invariant env start where
  fits h := by cases h
  sound := LeaseStore.sound_empty
  granted h := by cases h
  dispatched h := by cases h
  loggedIn h := by cases h

theorem Invariant.step (h : Invariant env s) (hstep : Step env s l t) : Invariant env t where
  fits hf := by
    obtain hf | harrived | ⟨fill, f', -, hf', heq, hadvance⟩ := lookup_of_step hstep hf
    · exact h.fits hf
    · rw [harrived]
      trivial
    · rw [heq]
      exact hadvance.fits (h.fits hf')
  sound := by
    cases hstep with
    | tick | arrive => exact h.sound
    | step _ _ _ hadvance => exact hadvance.sound h.sound
  granted {id j now} hmem := by
    -- A login stays one: a step changes the phase of a request only.
    have hsame : .granted id j now ∈ s.sessions.history → ∃ g, t.flights.lookup j = some g ∧
        g.IsLogin env := by
      intro hmem
      obtain ⟨g, hg, hlogin⟩ := h.granted hmem
      obtain ⟨phase, hg'⟩ := exists_lookup_of_step hstep hg
      exact ⟨_, hg', hlogin⟩
    cases hstep with
    | tick | arrive => exact hsame hmem
    | step i fill hf hadvance =>
      obtain hmem | ⟨rfl, hphase⟩ := hadvance.granted hmem
      · exact hsame hmem
      · have hlogin := h.fits hf
        rw [hphase] at hlogin
        obtain ⟨phase, hg⟩ := exists_lookup_of_step (.step j fill hf hadvance) hf
        exact ⟨_, hg, hlogin.1⟩
  dispatched {i f r} hf hphase := by
    obtain hf | harrived | ⟨fill, f', -, hf', heq, hadvance⟩ := lookup_of_step hstep hf
    · obtain hopen | hmatch | ⟨id, now, hid, hmem⟩ := h.dispatched hf hphase
      · exact .inl hopen
      · exact .inr (.inl hmatch)
      · exact .inr (.inr ⟨id, now, hid, (history_suffix hstep).mem hmem⟩)
    · rw [harrived] at hphase
      cases hphase
    · rw [hphase] at hadvance
      rw [heq]
      exact hadvance.dispatched (h.fits hf')
  loggedIn {i f cookie} hf hphase := by
    obtain hf | harrived | ⟨fill, f', -, hf', heq, hadvance⟩ := lookup_of_step hstep hf
    · obtain ⟨buf, now, hmem, hcookie⟩ := h.loggedIn hf hphase
      exact ⟨buf, now, (history_suffix hstep).mem hmem, hcookie⟩
    · rw [harrived] at hphase
      cases hphase
    · rw [hphase] at hadvance
      rw [heq]
      exact hadvance.loggedIn (h.fits hf')

theorem invariant (h : (system env).Reachable s) : Invariant env s :=
  h.invariant (fun _ hinit => hinit ▸ invariant_start)
    fun _ _ _ _ hs _ hstep => hs.step (next_cases hstep)

/-- What lets a request through to a handler that is not open. -/
inductive Authorized (env : ServerEnv) (s : SessionServer) (i : ℕ) (f : Flight) : Prop
  | unconfigured (hconfigured : (f.auth env).isAuthConfigured = false)
  | credentials (hmatch : (f.auth env).credentialsMatch env.sha1 (f.attempts env) = true)
  /-- The session of the request was issued to a login at some listener, and used in time since,
  the last time by the request itself. -/
  | session {id : String} {newer older : List (LeaseEvent String ℕ)} {now t j issued : ℕ}
      {g : Flight} (hid : (f.attempts env).session = some id)
      (hhistory : s.sessions.history = newer ++ .renewed id i now :: older)
      (hheld : Held sessionTtl id older t) (hnow : now < t + sessionTtl)
      (hgranted : .granted id j issued ∈ older) (hg : s.flights.lookup j = some g)
      (hlogin : g.IsLogin env)

/-- A request reaches a handler of the API or of the RPC interface, other than those of a login,
only when it is authorized. The files of `static_handler` are open. -/
theorem authorized_of_dispatched (hreach : (system env).Reachable s)
    (hf : s.flights.lookup i = some f) {h : Handler}
    (hphase : f.phase = .answered (.dispatched (.handler h))) : Authorized env s i f := by
  have hinv := invariant hreach
  obtain hopen | hmatch | ⟨id, now, hid, hmem⟩ := hinv.dispatched hf hphase
  · have hfits := hinv.fits hf
    rw [hphase] at hfits
    -- The handler is behind a path that the middleware guards.
    obtain ⟨hprotected, hpublic⟩ := isProtectedPath_of_serves (env.http.serves hfits.1.symm)
    have hnotPublic : isPublicAuthPath f.req.path = false := by
      rw [← Bool.not_eq_true, hpublic, hfits.2 h rfl]
      simp
    refine .unconfigured (eq_false_of_ne_true fun hconfigured => ?_)
    exact hopen ⟨hprotected, hnotPublic, hconfigured⟩
  · exact .credentials hmatch
  · obtain ⟨newer, older, hhistory⟩ := List.append_of_mem hmem
    have hused := hinv.sound.used
    rw [hhistory] at hused
    obtain ⟨t, hheld, hnow⟩ := hused.split
    obtain ⟨j, issued, hgranted⟩ := hheld.exists_granted
    obtain ⟨g, hg, hlogin⟩ := hinv.granted
      (hhistory ▸ List.mem_append_right _ (List.mem_cons_of_mem _ hgranted))
    exact .session hid hhistory hheld hnow hgranted hg hlogin

/-! ## Requests that are turned away -/

/-- The clock reading of a request is not older than the lifetime of a session when the request
looks its session up or inserts one. -/
def IsPrompt (s : SessionServer) : Label → Prop
  | .step i _ => (s.flights.lookup i).all (fun f =>
      match f.phase with
      | .looking _ _ now | .inserting _ now => decide (s.clock < now + sessionTtl)
      | _ => true) = true
  | _ => True

instance : (l : Label) → Decidable (s.IsPrompt l)
  | .step _ _ => inferInstanceAs (Decidable (_ = true))
  | .tick _ | .arrive _ _ _ => .isTrue trivial

/-- Each session that is held is known, what was looked at by `retain` is not past its end, and a
request that was turned away had looked up its session. -/
structure PromptInvariant (env : ServerEnv) (s : SessionServer) : Prop where
  complete : s.sessions.Complete sessionTtl s.clock
  reading : ∀ {i f now n}, s.flights.lookup i = some f →
    f.phase.reading env.sharding.count = some (now, n) → now ≤ s.clock ∧
      ∀ {k e}, s.sessions.leases.lookup k = some e → (env.sharding.shard k).val < n → now < e
  not_removing : ∀ {i f caller id}, s.flights.lookup i = some f → f.phase ≠ .removing caller id
  refused : ∀ {i f id}, s.flights.lookup i = some f → Flight.IsUnauthorized f.phase →
    (f.attempts env).session = some id → ∃ time, .refused id i time ∈ s.sessions.history

/-- A session that is known after a step was known before it, or ends after the clock. -/
theorem Advance.lookup_sessions {fill : Option (Vector UInt8 32)} {phase : Phase}
    {sessions : LeaseStore String ℕ} {k : String} {e : ℕ}
    (h : Advance env s i f fill phase sessions) (hf : s.flights.lookup i = some f)
    (hprompt : s.IsPrompt (.step i fill)) (hlookup : sessions.leases.lookup k = some e) :
    s.sessions.leases.lookup k = some e ∨ s.clock < e := by
  rw [IsPrompt, hf, Option.all_some] at hprompt
  cases h with
  | arrived | expired | refuse => exact .inl hlookup
  | retain | retainLast => exact .inl (LeaseStore.lookup_prune.mp hlookup).1
  | renew hphase | insert hphase =>
    simp only [hphase, decide_eq_true_eq] at hprompt
    simp only [LeaseStore.leases_renew, LeaseStore.leases_grant, HashMap.lookup_insert] at hlookup
    split at hlookup
    next =>
      obtain rfl := Option.some.inj hlookup
      exact .inr hprompt
    next => exact .inl hlookup
  | remove | invalidate =>
    simp only [LeaseStore.leases_refuse, LeaseStore.leases_revoke, HashMap.lookup_erase] at hlookup
    split at hlookup
    next => cases hlookup
    next => exact .inl hlookup

/-- No session that is held is lost. -/
theorem Advance.complete {fill : Option (Vector UInt8 32)} {phase : Phase}
    {sessions : LeaseStore String ℕ} (h : Advance env s i f fill phase sessions)
    (hs : PromptInvariant env s) (hf : s.flights.lookup i = some f) :
    sessions.Complete sessionTtl s.clock := by
  have hle : ∀ {now n}, f.phase.reading env.sharding.count = some (now, n) → now ≤ s.clock :=
    fun h => (hs.reading hf h).1
  cases h with
  | arrived | expired => exact hs.complete
  | retain hphase | retainLast hphase => exact hs.complete.prune _ (hle (congrArg _ hphase))
  | renew => exact hs.complete.renew _ _ _
  | refuse _ hlookup => exact hs.complete.refuse hlookup _
  | remove hphase => exact absurd hphase (hs.not_removing hf)
  | insert => exact hs.complete.grant _ _ _
  | invalidate => exact hs.complete.revoke _ _

/-- After `retain` looked at all shards, the session that is looked up is not past its end. -/
theorem PromptInvariant.lt_of_looking {caller : Caller} {now e : ℕ} (hs : PromptInvariant env s)
    (hf : s.flights.lookup i = some f) (hphase : f.phase = .looking caller id now)
    (hlookup : s.sessions.leases.lookup id = some e) : now < e :=
  (hs.reading hf (congrArg (Phase.reading env.sharding.count) hphase)).2 hlookup
    (env.sharding.shard id).isLt

/-- Once `retain` looked at one more shard, no session in there is past its end. -/
theorem lt_of_pruned {k : String} {now n e : ℕ}
    (hpruned : s.sessions.leases.lookup k = some e → (env.sharding.shard k).val < n → now < e)
    (hlookup : (s.sessions.prune (fun k => (env.sharding.shard k).val = n) now).leases.lookup k =
      some e) (hlt : (env.sharding.shard k).val < n + 1) : now < e := by
  obtain ⟨hlookup, hnow⟩ := LeaseStore.lookup_prune.mp hlookup
  by_cases heq : (env.sharding.shard k).val = n
  · exact hnow (decide_eq_true heq)
  · exact hpruned hlookup (by omega)

/-- A request keeps the clock reading that it goes on with, and knows more shards. -/
theorem Advance.reading {fill : Option (Vector UInt8 32)} {phase : Phase}
    {sessions : LeaseStore String ℕ} (h : Advance env s i f fill phase sessions)
    (hs : PromptInvariant env s) (hf : s.flights.lookup i = some f) {now n : ℕ}
    (hreading : phase.reading env.sharding.count = some (now, n)) : now ≤ s.clock ∧
      ∀ {k e}, sessions.leases.lookup k = some e → (env.sharding.shard k).val < n → now < e := by
  have hstart : Flight.Starts s.clock env.sharding.count phase → now ≤ s.clock ∧
      ∀ {k e}, sessions.leases.lookup k = some e → (env.sharding.shard k).val < n → now < e := by
    intro hstarts
    obtain ⟨rfl, rfl⟩ := hstarts.1 _ _ hreading
    exact ⟨le_rfl, fun _ hlt => absurd hlt (Nat.not_lt_zero _)⟩
  cases h with
  | arrived => exact hstart Flight.starts_middleware
  | renew | refuse | remove => exact hstart (Flight.starts_validated _ _)
  | insert | invalidate => exact hstart (Flight.starts_answered _)
  | expired => cases hreading
  | retain hphase | retainLast hphase =>
    obtain ⟨rfl, rfl⟩ := Prod.mk.inj (Option.some.inj hreading)
    obtain ⟨hle, hpruned⟩ := hs.reading hf (congrArg (Phase.reading env.sharding.count) hphase)
    exact ⟨hle, fun hlookup hlt => lt_of_pruned hpruned hlookup (by omega)⟩

/-- No session past its end is found. -/
theorem Advance.not_removing {fill : Option (Vector UInt8 32)} {phase : Phase} {caller : Caller}
    {sessions : LeaseStore String ℕ} (h : Advance env s i f fill phase sessions)
    (hs : PromptInvariant env s) (hf : s.flights.lookup i = some f) :
    phase ≠ .removing caller id := by
  cases h with
  | arrived => exact (Flight.starts_middleware (n := env.sharding.count)).2 _ _
  | renew | refuse | remove =>
    exact (Flight.starts_validated (n := env.sharding.count) _ _).2 _ _
  | retain | retainLast | insert | invalidate => nofun
  | expired hphase hlookup hnow =>
    exact absurd (hs.lt_of_looking hf hphase hlookup) (by omega)

/-- A request with a session is turned away when it just looked the session up. -/
theorem Advance.refused {fill : Option (Vector UInt8 32)} {phase : Phase}
    {sessions : LeaseStore String ℕ} (h : Advance env s i f fill phase sessions)
    (hfits : f.Fits env f.phase) (hphase' : Flight.IsUnauthorized phase)
    (hid : (f.attempts env).session = some id) : ∃ time, .refused id i time ∈ sessions.history := by
  cases h with
  | arrived =>
    rw [Flight.session_of_isUnauthorized hphase'] at hid
    cases hid
  | renew => exact absurd hphase' (Flight.not_isUnauthorized_validated _)
  | refuse hphase | remove hphase =>
    rw [hphase] at hfits
    obtain rfl := Option.some.inj (hfits.1.symm.trans hid)
    exact ⟨_, List.mem_cons_self⟩
  | retain | retainLast | expired | insert | invalidate => exact hphase'.elim

theorem promptInvariant_start : PromptInvariant env start where
  complete := LeaseStore.complete_empty
  reading h := by cases h
  not_removing h := by cases h
  refused h := by cases h

theorem PromptInvariant.step (h : PromptInvariant env s) (hinv : Invariant env s)
    (hprompt : s.IsPrompt l) (hstep : Step env s l t) : PromptInvariant env t where
  complete := by
    cases hstep with
    | tick => exact h.complete.mono (Nat.le_add_right _ _)
    | arrive => exact h.complete
    | step _ _ hf hadvance => exact hadvance.complete h hf
  reading {j f now n} hf hreading := by
    obtain hf | harrived | ⟨fill, f', rfl, hf', heq, hadvance⟩ := lookup_of_step hstep hf
    · obtain ⟨hle, hpruned⟩ := h.reading hf hreading
      cases hstep with
      | tick n => exact ⟨hle.trans (Nat.le_add_right _ _), hpruned⟩
      | arrive => exact ⟨hle, hpruned⟩
      | step i fill hf' hadvance =>
        refine ⟨hle, fun {k e} hlookup hlt => ?_⟩
        -- What other requests insert meanwhile ends after the clock.
        obtain hold | hnew := hadvance.lookup_sessions hf' hprompt hlookup
        · exact hpruned hold hlt
        · omega
    · rw [harrived] at hreading
      cases hreading
    · have hclock : t.clock = s.clock := by
        cases hstep
        rfl
      rw [hclock]
      exact hadvance.reading h hf' hreading
  not_removing {i f caller id} hf := by
    obtain hf | harrived | ⟨fill, f', -, hf', -, hadvance⟩ := lookup_of_step hstep hf
    · exact h.not_removing hf
    · rw [harrived]
      nofun
    · exact hadvance.not_removing h hf'
  refused {i f id} hf hphase hid := by
    obtain hf | harrived | ⟨fill, f', -, hf', heq, hadvance⟩ := lookup_of_step hstep hf
    · obtain ⟨time, hmem⟩ := h.refused hf hphase hid
      exact ⟨time, (history_suffix hstep).mem hmem⟩
    · rw [harrived] at hphase
      exact hphase.elim
    · rw [heq] at hid
      exact hadvance.refused (hinv.fits hf') hphase hid

theorem promptInvariant (h : (system env).ReachableWhile IsPrompt s) : PromptInvariant env s := by
  refine h.invariant (fun _ hinit => hinit ▸ promptInvariant_start) ?_
  intro s l t hreach hs hprompt hstep
  exact hs.step (invariant hreach.reachable) hprompt (next_cases hstep)

/-- A session that was looked up for a request that is turned away was not held. -/
theorem exists_refused (hreach : (system env).ReachableWhile IsPrompt s)
    (hf : s.flights.lookup i = some f) (hphase : Flight.IsUnauthorized f.phase)
    (hid : (f.attempts env).session = some id) : ∃ newer older clock,
      s.sessions.history = newer ++ .refused id i clock :: older ∧
        ∀ t, Held sessionTtl id older t → t + sessionTtl ≤ clock := by
  have hprompt := promptInvariant hreach
  obtain ⟨clock, hmem⟩ := hprompt.refused hf hphase hid
  obtain ⟨newer, older, hhistory⟩ := List.append_of_mem hmem
  have hrefused := hprompt.complete.refused
  rw [hhistory] at hrefused
  exact ⟨newer, older, clock, hhistory, hrefused.split⟩

/-- A request that is turned away asked for what is not open, has no good credentials, and its
session was not held when it was looked up. -/
theorem not_held_of_unauthorized (hreach : (system env).ReachableWhile IsPrompt s)
    (hf : s.flights.lookup i = some f) {challenge : Bool} {error : String}
    (hphase : f.phase = .answered (.unauthorized challenge error)) :
    f.Guarded env ∧ (f.auth env).credentialsMatch env.sha1 (f.attempts env) = false ∧
      ∀ id, (f.attempts env).session = some id → ∃ newer older clock,
        s.sessions.history = newer ++ .refused id i clock :: older ∧
          ∀ t, Held sessionTtl id older t → t + sessionTtl ≤ clock := by
  have hfits := (invariant hreach.reachable).fits hf
  rw [hphase] at hfits
  exact ⟨hfits.1, hfits.2.1, fun id hid => exists_refused hreach hf (hphase ▸ trivial) hid⟩

/-- A browser that sends the cookie of a login back, among others, is turned away only when the
session of the login was not held. -/
theorem not_held_of_login_cookie (hreach : (system env).ReachableWhile IsPrompt s)
    (hg : s.flights.lookup j = some g) {text : String}
    (hlogin : g.phase = .answered (.loggedIn (utf8 text))) {cookie : String}
    (hcookie : browserCookie text = some cookie) (hf : s.flights.lookup i = some f)
    {before after : List String}
    (hget : f.req.headers.get "cookie" = some (utf8 (cookieField (before ++ cookie :: after))))
    (hothers : ∀ c ∈ before ++ after, IsVisibleText c ∧ ';' ∉ c.toList)
    (hbefore : ∀ c ∈ before, sessionOfPart c = none) {challenge : Bool} {error : String}
    (hphase : f.phase = .answered (.unauthorized challenge error)) :
    ∃ id issued newer older clock, .granted id j issued ∈ s.sessions.history ∧
      s.sessions.history = newer ++ .refused id i clock :: older ∧
        ∀ t, Held sessionTtl id older t → t + sessionTtl ≤ clock := by
  obtain ⟨buf, issued, hmem, htext⟩ := (invariant hreach.reachable).loggedIn hg hlogin
  rw [cookieHeader_buildSessionCookie, utf8_inj] at htext
  rw [htext] at hcookie
  have hbuf : buf.toList ≠ [] := by
    intro hnil
    have hlength := congrArg List.length hnil
    simp at hlength
  have hsession : (f.attempts env).session = some (toHex buf.toList) :=
    sessionIdFromHeaders_browser hbuf hcookie hget hothers hbefore
  obtain ⟨newer, older, clock, hhistory, hheld⟩ :=
    exists_refused hreach hf (hphase ▸ trivial) hsession
  exact ⟨_, issued, newer, older, clock, hmem, hhistory, hheld⟩

/-! ## A login on the local socket -/

/-- Credentials are asked for on the network, but not on the local socket. -/
def networkPassword : ServerEnv where
  config := ⟨"/run/supervisord.sock", none, none, some "127.0.0.1:9001", some "admin",
    some "secret", none, true⟩
  http := .standard
  sha1 _ := []
  sharding := ⟨1, fun _ => 0⟩

/-- The session of the login. -/
def localId : String := toHex (Vector.replicate 32 (1 : UInt8)).toList

/-- A login without credentials. -/
def loginRequest : HttpRequest :=
  ⟨.post, none, "/api/v1/auth/login", none, [], some ⟨none, none, none⟩⟩

/-- A request with the cookie of the login. -/
def statusRequest : HttpRequest :=
  ⟨.get, none, "/api/v1/status", none, [("cookie", utf8 (sessionCookie localId))], none⟩

/-- The request sends the cookie back. -/
theorem field_statusRequest : statusRequest.headers.get "cookie" =
    some (utf8 (cookieField ([] ++ sessionCookie localId :: []))) := by
  have hfield : cookieField [sessionCookie localId] = sessionCookie localId := by simp [cookieField]
  rw [List.nil_append, hfield]
  rfl

theorem session_statusRequest :
    (ServerAuthState.attemptsFromRequest .standard statusRequest).session = some localId := by
  have hne : (Vector.replicate 32 (1 : UInt8)).toList ≠ [] := List.cons_ne_nil _ _
  have hcookie : browserCookie (buildSessionCookie .standard localId loginRequest) =
      some (sessionCookie localId) :=
    browserCookie_buildSessionCookie (semicolon_notMem_toHex _) _
  exact sessionIdFromHeaders_browser hne hcookie field_statusRequest (by simp) (by simp)

theorem middleware_statusRequest (clock : ℕ) (fill : Option (Vector UInt8 32)) :
    Flight.middleware networkPassword ⟨.tcp, statusRequest, .arrived⟩ clock fill =
      .retaining .middleware localId clock 0 := by
  have hpath : (!isProtectedPath statusRequest.path || isPublicAuthPath statusRequest.path) =
      false := by
    simp [isProtectedPath, isPublicAuthPath, statusRequest, stripPrefix]
  have hconfigured : (networkPassword.config.authState .tcp).isAuthConfigured = true := by decide
  have hsession : (Flight.attempts networkPassword ⟨.tcp, statusRequest, .arrived⟩).session =
      some localId := session_statusRequest
  unfold Flight.middleware
  rw [if_neg (by rw [hpath]; simp), if_neg (by rw [Flight.auth, hconfigured]; simp), hsession]
  rfl

/-- The request of the session begins with its session. -/
theorem next_statusRequest
    (hlookup : s.flights.lookup 1 = some ⟨.tcp, statusRequest, .arrived⟩) :
    next networkPassword s (.step 1 none) = some { s with
      flights := s.flights.insert 1
        ⟨.tcp, statusRequest, .retaining .middleware localId s.clock 0⟩ } := by
  have hadvance : s.advance networkPassword 1 ⟨.tcp, statusRequest, .arrived⟩ none =
      some (.retaining .middleware localId s.clock 0, s.sessions) :=
    congrArg (fun phase => some (phase, s.sessions)) (middleware_statusRequest s.clock none)
  rw [next, hlookup, Option.bind_eq_bind, Option.bind_some, hadvance]
  rfl

theorem prompt_next (h : (system env).ReachableWhile IsPrompt s) (hprompt : s.IsPrompt l)
    (hnext : next env s l = some t) : (system env).ReachableWhile IsPrompt t :=
  h.step hprompt hnext

/-- The session that the login issued. -/
def localSession : LeaseStore String ℕ :=
  LeaseStore.grant ⟨∅, []⟩ sessionTtl localId 0 0

/-- The server at some time after the login, while a request with its session is served. -/
def localLogin (clock : ℕ) (sessions : LeaseStore String ℕ) (phase : Phase) : SessionServer where
  clock := clock
  sessions := sessions
  flights := ((∅ : HashMap ℕ Flight).insert 0 ⟨.ipc, loginRequest,
    .answered (.loggedIn
      (cookieHeader .standard (buildSessionCookie .standard localId loginRequest)))⟩).insert 1
      ⟨.tcp, statusRequest, phase⟩

/-- The request looks the session up when the sessions past their end are gone. -/
theorem prompt_localLogin (clock : ℕ) : (system networkPassword).ReachableWhile IsPrompt
    (localLogin clock
      (localSession.prune (fun k => (networkPassword.sharding.shard k).val = 0) clock)
      (.looking .middleware localId clock)) := by
  have h₀ : (system networkPassword).ReachableWhile IsPrompt start := .init rfl
  have h₁ := prompt_next (l := .arrive 0 .ipc loginRequest) h₀ trivial rfl
  have h₂ : (system networkPassword).ReachableWhile IsPrompt ⟨0, ⟨∅, []⟩,
      (∅ : HashMap ℕ Flight).insert 0 ⟨.ipc, loginRequest, .inserting localId 0⟩⟩ :=
    prompt_next (l := .step 0 (some (.replicate 32 1))) h₁ rfl rfl
  have hprompt : decide (0 < 0 + sessionTtl) = true := by decide
  have h₃ := prompt_next (l := .step 0 none) h₂ hprompt rfl
  have h₄ := prompt_next (l := .tick clock) h₃ trivial rfl
  have h₅ : (system networkPassword).ReachableWhile IsPrompt
      (localLogin clock localSession .arrived) :=
    prompt_next (l := .arrive 1 .tcp statusRequest) h₄ trivial
      (congrArg (fun n => some (localLogin n localSession .arrived)) (Nat.zero_add clock))
  have h₆ : (system networkPassword).ReachableWhile IsPrompt
      (localLogin clock localSession (.retaining .middleware localId clock 0)) :=
    prompt_next (l := .step 1 none) h₅ rfl (next_statusRequest rfl)
  exact prompt_next (l := .step 1 none) h₆ rfl rfl

/-- The session of a login that asked for no password passes where one is asked for. -/
theorem authorized_after_local_login : ∃ s f, (system networkPassword).Reachable s ∧
    s.flights.lookup 1 = some f ∧ f.listener = .tcp ∧
      f.phase = .answered (.dispatched (.handler .getStatus)) ∧
        Authorized networkPassword s 1 f := by
  have hreach : (system networkPassword).ReachableWhile IsPrompt (localLogin 0
      (localSession.renew sessionTtl localId 1 0)
        (.answered (.dispatched (.handler .getStatus)))) :=
    prompt_next (l := .step 1 none) (prompt_localLogin 0) rfl rfl
  exact ⟨_, ⟨.tcp, statusRequest, _⟩, hreach.reachable, rfl, rfl, rfl,
    authorized_of_dispatched hreach.reachable rfl rfl⟩

/-- The server after it turned a request away whose session was at its end. -/
def lateRequest : SessionServer :=
  localLogin sessionTtl
    ((localSession.prune (fun k => (networkPassword.sharding.shard k).val = 0) sessionTtl).refuse
      localId 1 sessionTtl)
    (.answered (.unauthorized false "Unauthorized: Invalid basic authentication credentials"))

theorem prompt_lateRequest : (system networkPassword).ReachableWhile IsPrompt lateRequest := by
  have hprompt : decide (sessionTtl < sessionTtl + sessionTtl) = true := by decide
  have hlookup : (localSession.prune (fun k => (networkPassword.sharding.shard k).val = 0)
      sessionTtl).leases.lookup localId = none := by
    by_contra h
    obtain ⟨deadline, h⟩ := Option.ne_none_iff_exists'.mp h
    obtain ⟨h, hlt⟩ := LeaseStore.lookup_prune.mp h
    rw [localSession, LeaseStore.leases_grant, AList.lookup_insert] at h
    have hnow := hlt rfl
    rw [← Option.some.inj h, Nat.zero_add] at hnow
    exact absurd hnow (Nat.lt_irrefl _)
  refine prompt_next (l := .step 1 none) (prompt_localLogin sessionTtl) hprompt ?_
  have hadvance : advance networkPassword (localLogin sessionTtl (localSession.prune
      (fun k => (networkPassword.sharding.shard k).val = 0) sessionTtl)
        (.looking .middleware localId sessionTtl)) 1
          ⟨.tcp, statusRequest, .looking .middleware localId sessionTtl⟩ none =
      some (.answered (.unauthorized false
        "Unauthorized: Invalid basic authentication credentials"), lateRequest.sessions) := by
    simp only [advance, localLogin, hlookup]
    rfl
  have hflight : (localLogin sessionTtl (localSession.prune
      (fun k => (networkPassword.sharding.shard k).val = 0) sessionTtl)
        (.looking .middleware localId sessionTtl)).flights.lookup 1 =
      some ⟨.tcp, statusRequest, .looking .middleware localId sessionTtl⟩ := rfl
  rw [next, hflight, Option.bind_eq_bind, Option.bind_some, hadvance]
  rfl

/-- A session at its end is refused. -/
theorem unauthorized_at_end : ∃ s f, (system networkPassword).ReachableWhile IsPrompt s ∧
    s.flights.lookup 1 = some f ∧ (f.attempts networkPassword).session = some localId ∧
      f.Guarded networkPassword ∧
        (f.auth networkPassword).credentialsMatch networkPassword.sha1
          (f.attempts networkPassword) = false ∧
          ∀ id, (f.attempts networkPassword).session = some id → ∃ newer older clock,
            s.sessions.history = newer ++ .refused id 1 clock :: older ∧
              ∀ t, Held sessionTtl id older t → t + sessionTtl ≤ clock :=
  ⟨lateRequest, ⟨.tcp, statusRequest, _⟩, prompt_lateRequest, rfl, session_statusRequest,
    not_held_of_unauthorized prompt_lateRequest rfl rfl⟩

/-- So is the cookie of the login. -/
theorem login_cookie_at_end : ∃ id issued newer older clock,
    .granted id 0 issued ∈ lateRequest.sessions.history ∧
      lateRequest.sessions.history = newer ++ .refused id 1 clock :: older ∧
        ∀ t, Held sessionTtl id older t → t + sessionTtl ≤ clock := by
  have hlogin : (Phase.answered
      (.loggedIn (cookieHeader .standard (buildSessionCookie .standard localId loginRequest)))) =
        .answered (.loggedIn (utf8 (buildSessionCookie .standard localId loginRequest))) := by
    rw [localId, cookieHeader_buildSessionCookie]
  have hcookie : browserCookie (buildSessionCookie .standard localId loginRequest) =
      some (sessionCookie localId) :=
    browserCookie_buildSessionCookie (semicolon_notMem_toHex _) _
  exact not_held_of_login_cookie (g := ⟨.ipc, loginRequest, _⟩) (f := ⟨.tcp, statusRequest, _⟩)
    prompt_lateRequest rfl hlogin hcookie rfl field_statusRequest
    (by simp) (by simp) rfl

end SessionServer

end Rsupervisord
