import RecruitingOs.Http.EnqueueRequest
import RecruitingOs.Http.Sessions
import RecruitingOs.Lib.Relational
import RecruitingOs.Lib.Routing

/-!
# The application's requests

`buildApp` of `src/http/app.ts`: its routes, and the `onRequest` hook that runs before every
handler.  The hook exempts requests by their raw path, the text of `request.url` before the
`?`; the router compares decoded segments (`Routing.route`).

The rate limiter is a port: `consume` is a program over the limiter's own state, and may
throw.  The hook reads the clock up to three times: for the first limit, for the session, and
for the second limit.
-/

namespace RecruitingOs

open Relational Routing

/-- `AppError`. -/
structure AppError where
  message : String
  statusCode : ℕ
  code : String
deriving Repr, DecidableEq

/-- `AuthenticationError`. -/
def authenticationError : AppError := ⟨"Authentication required", 401, "AUTHENTICATION_REQUIRED"⟩

/-- `RateLimitError`. -/
def rateLimitError : AppError := ⟨"Rate limit exceeded", 429, "RATE_LIMITED"⟩

def csrfError : AppError := ⟨"CSRF validation failed", 403, "CSRF_FAILED"⟩

/-- What the hook throws: an `AppError`, or what the rate limiter has thrown. -/
inductive HookError where
  | app (error : AppError)
  | limiter
deriving Repr, DecidableEq

/-- `RateLimitResult`. -/
structure RateLimitResult where
  allowed : Bool
  remaining : ℕ
  resetAt : ℤ
deriving Repr, DecidableEq

/-- `RateLimiter`: `consume(key, limit, windowMs)` at a reading of the clock. -/
structure RateLimiter (ρ : Type) where
  consume : ℤ → String → ℕ → ℕ → Program HookError ρ RateLimitResult

/-- What the hook reads of `AppConfig`. -/
structure HttpConfig where
  production : Bool
  metricsBearerToken : Option String
  requestsPerMinute : ℕ
  authIpRequestsPerMinute : ℕ
  authenticatedIpRequestsPerMinute : ℕ
deriving Repr, DecidableEq

/-- A request; its cookies are parsed. -/
structure Request where
  method : String
  url : String
  ip : String
  cookies : List (String × String)
  headers : List (String × HeaderValue)
deriving Repr, DecidableEq

namespace Request

/-- `request.url.split('?')[0]`. -/
def path (request : Request) : String := String.ofList (request.url.toList.takeWhile (· ≠ '?'))

/-- `headerString(request.headers[name])`. -/
def header (request : Request) (name : String) : Option String :=
  headerString (request.headers.lookup name)

end Request

/-! ### Routes -/

/-- The routes of `registerPublicRoutes`. -/
def publicRoutes : List Route :=
  [⟨"GET", "/health/live"⟩, ⟨"GET", "/health/ready"⟩, ⟨"GET", "/"⟩, ⟨"GET", "/assets/app.css"⟩,
    ⟨"GET", "/assets/app.js"⟩, ⟨"GET", "/favicon.ico"⟩]

def logoutRoute : Route := ⟨"POST", "/auth/logout"⟩

/-- The routes of `registerAuthRoutes`. -/
def authRoutes : List Route :=
  [⟨"GET", "/auth/login"⟩, ⟨"GET", "/auth/callback"⟩, ⟨"POST", "/auth/development"⟩, logoutRoute]

def providerCallbackRoute : Route := ⟨"GET", "/api/connectors/:provider/callback"⟩

/-- The routes of `registerConnectorRoutes`. -/
def connectorRoutes : List Route :=
  [⟨"POST", "/api/connectors/:provider/connect"⟩, providerCallbackRoute,
    ⟨"GET", "/api/connectors/:provider/status"⟩, ⟨"DELETE", "/api/connectors/:provider"⟩,
    ⟨"POST", "/api/connectors/:provider/sync"⟩]

def metricsRoute : Route := ⟨"GET", "/metrics"⟩

/-- The routes of `registerRecruitingRoutes`. -/
def recruitingRoutes : List Route :=
  [⟨"GET", "/api/me"⟩, ⟨"GET", "/api/admin/metrics"⟩, metricsRoute, ⟨"GET", "/api/dashboard"⟩,
    ⟨"GET", "/api/organizations/:id"⟩, ⟨"GET", "/api/admin/organizations/:id/evidence"⟩,
    ⟨"POST", "/api/admin/organizations/:id/opportunities/:opportunityId/override"⟩,
    ⟨"POST", "/api/organizations"⟩, ⟨"POST", "/api/ingest/url"⟩,
    ⟨"POST", "/api/ingest/screenshot"⟩]

/-- The routes of `registerPrivacyRoutes`. -/
def privacyRoutes : List Route := [⟨"GET", "/api/me/export"⟩, ⟨"DELETE", "/api/me"⟩]

/-- The routes of `buildApp`, in the order of their registration. -/
def appRoutes : List Route :=
  publicRoutes ++ authRoutes ++ connectorRoutes ++ recruitingRoutes ++ privacyRoutes

/-! ### The hook -/

def publicPaths : List String :=
  ["/", "/assets/app.css", "/assets/app.js", "/favicon.ico", "/health/live", "/health/ready"]

def authenticationPaths : List String := ["/auth/login", "/auth/callback", "/auth/development"]

def unsafeMethods : List String := ["POST", "PUT", "PATCH", "DELETE"]

def probePaths : List String := ["/health/live", "/health/ready"]

/-- `/^\/api\/connectors\/[^/]+\/callback$/`. -/
def isCallbackPath (path : String) : Bool :=
  match "/api/connectors/".toList.isPrefixOf? path.toList with
  | none => false
  | some rest =>
      rest.takeWhile (· ≠ '/') ≠ [] ∧ rest.dropWhile (· ≠ '/') = "/callback".toList

/-- `sessionCookieName(config)`. -/
def sessionCookieName (config : HttpConfig) : String :=
  if config.production then "__Host-recruiting_session" else "recruiting_session"

/-- `secureTokenMatches(candidate, expected)`. -/
def secureTokenMatches (sha256 : String → String) (candidate expected : Option String) : Bool :=
  match candidate.filter (· ≠ ""), expected.filter (· ≠ "") with
  | some candidate, some expected => sha256 candidate = sha256 expected
  | _, _ => false

/-- The candidate in an `Authorization` header. -/
def bearerToken (authorization : Option String) : Option String :=
  authorization.bind fun text => ("Bearer ".toList.isPrefixOf? text.toList).map String.ofList

/-- What the hook changes: the limiter, and the headers `x-ratelimit-remaining` and
`x-ratelimit-reset` of the reply. -/
structure HookState (ρ : Type) where
  limiter : ρ
  rateHeaders : Option (ℕ × ℤ)

/-- What the application is built from. -/
structure App (ρ : Type) where
  config : HttpConfig
  sha256 : String → String
  limiter : RateLimiter ρ

namespace App

variable {ρ : Type} (app : App ρ)

/-- `rateLimiter.consume(key, limit, 60_000)`. -/
def consume (now : ℤ) (key : String) (limit : ℕ) : Program HookError (HookState ρ) RateLimitResult :=
  fun s =>
    let outcome := exec (app.limiter.consume now key limit 60000) s.limiter
    (outcome.1, { s with limiter := outcome.2 })

/-- `setRateLimitHeaders(reply, rate)`. -/
def setRateLimitHeaders (rate : RateLimitResult) : Program HookError (HookState ρ) Unit :=
  fun s => (.ok (), { s with rateHeaders := some (rate.remaining, (rate.resetAt + 999) / 1000) })

/-- Consume, set the headers, and throw if it was too much. -/
def limited (now : ℤ) (key : String) (limit : ℕ) : Program HookError (HookState ρ) Unit := do
  let rate ← app.consume now key limit
  setRateLimitHeaders rate
  if rate.allowed then pure () else throw (.app rateLimitError)

/-- A request that is not authenticated. -/
def anonymous {α : Type} (now : ℤ) (request : Request) : Program HookError (HookState ρ) α := do
  app.limited now ("anonymous-ip:" ++ request.ip) app.config.requestsPerMinute
  throw (.app authenticationError)

/-- The hook once the session is known. -/
def grant (now : ℤ) (request : Request) (authentication : SessionAuthentication) :
    Program HookError (HookState ρ) (Option SessionAuthentication) := do
  app.limited now
    ("user:" ++ authentication.principal.tenantId ++ ":" ++ authentication.principal.userId)
    app.config.requestsPerMinute
  if request.method ∈ unsafeMethods ∧
      ¬ SessionService.verifyCsrf app.sha256 authentication (request.header "x-csrf-token") then
    throw (.app csrfError)
  else
    return some authentication

/-- The hook where nothing exempts the request. -/
def authenticateRequest (db : Database) (clock : ℕ → ℤ) (request : Request) :
    Program HookError (HookState ρ) (Option SessionAuthentication) :=
  match (request.cookies.lookup (sessionCookieName app.config)).filter (· ≠ "") with
  | none => app.anonymous (clock 0) request
  | some presented => do
      let rate ← app.consume (clock 0) ("authenticated-ip:" ++ request.ip)
        app.config.authenticatedIpRequestsPerMinute
      if rate.allowed then
        match SessionService.authenticate app.sha256 db (clock 1) (some presented) with
        | none => app.anonymous (clock 2) request
        | some authentication => app.grant (clock 2) request authentication
      else do
        setRateLimitHeaders rate
        throw (.app rateLimitError)

/-- The `onRequest` hook: what it leaves in `request.authentication`. -/
def onRequest (db : Database) (clock : ℕ → ℤ) (request : Request) :
    Program HookError (HookState ρ) (Option SessionAuthentication) :=
  let path := request.path
  if request.method = "GET" ∧ path ∈ probePaths then pure none
  else if request.method = "GET" ∧ path = "/metrics" then
    if secureTokenMatches app.sha256 (bearerToken (request.header "authorization"))
        app.config.metricsBearerToken then pure none
    else throw (.app authenticationError)
  else if path ∈ authenticationPaths ∨ request.method = "GET" ∧ isCallbackPath path then do
    app.limited (clock 0) ("authentication-ip:" ++ request.ip) app.config.authIpRequestsPerMinute
    return none
  else if path ∈ publicPaths ∨ request.method = "OPTIONS" then do
    app.limited (clock 0) ("anonymous-ip:" ++ request.ip) app.config.requestsPerMinute
    return none
  else app.authenticateRequest db clock request

/-- The handler of a route runs: the router sends the request to it, and the hook has not
thrown. -/
def Runs (decoder : Decoder) (db : Database) (clock : ℕ → ℤ) (request : Request)
    (s : HookState ρ) (handler : Route) : Prop :=
  route decoder appRoutes request.method request.path.toList = some handler ∧
    ∃ authentication t, exec (app.onRequest db clock request) s = (.ok authentication, t)

end App

end RecruitingOs
