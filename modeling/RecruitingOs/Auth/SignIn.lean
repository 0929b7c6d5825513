import Mathlib.Logic.Function.Basic
import RecruitingOs.Auth.RepositoryAgreement
import RecruitingOs.Auth.StateCookies
import RecruitingOs.Lib.Transition

/-!
# Signing in

The routes of `src/http/routes/auth.ts`, with the calls of `SessionService.issue` as steps of their
own, over the tables that both auth repositories stand for.  Browsers, the identity provider and
the server take steps in any order, and erasure and maintenance run between them.

A browser is `honest` if it keeps to itself what it is sent.  What is assumed of the rest:

* The random texts of the server are new.
* A cookie that is valid has been signed by the server (`PlantedCookie`).
* The identity provider puts the nonce of a request into the token that it issues on it, and nobody
  but an honest browser knows the nonce of its own request (`mayApprove`).
* A token that is accepted was issued for the code (`mayAnswer`).  The code of an honest browser is
  used by no other browser, unless it was issued on a request of that browser's own: such a code
  may leak.

`AuthRun.approvals`, `planted`, `requests`, `ended` and `history` are not stored by the program:
they remember what has happened.
-/

namespace RecruitingOs

/-- `config.auth.mode`. -/
inductive AuthMode where
  | oidc
  | development
deriving Repr, DecidableEq

/-- What the routes read of `config`. -/
structure AuthConfig where
  mode : AuthMode
  production : Bool
  issuer : Option String
  clientId : Option String
  clientSecret : Option String
  redirectUri : Option String
  allowedEmailDomain : String
  initialPlatformAdminEmails : List String
  defaultTenantId : String
  sessionTtlSeconds : ℕ
deriving Repr, DecidableEq

/-- The `OidcService` that `main` constructs. -/
def AuthConfig.oidc (config : AuthConfig) : Option OidcOptions :=
  match config.mode, config.issuer.filter (· ≠ ""), config.clientId.filter (· ≠ ""),
      config.redirectUri.filter (· ≠ "") with
  | .oidc, some issuer, some clientId, some redirectUri =>
      some
        { issuer, clientId, redirectUri
          clientSecret := config.clientSecret
          allowedEmailDomain := config.allowedEmailDomain }
  | _, _, _, _ => none

/-- The application, with the functions of the platform and of libraries. -/
structure AuthApp where
  config : AuthConfig
  lower : String → String
  parseUrl : String → Option HttpUrl
  /-- The parser of authorities that `safeRelativeReturnTo` calls. -/
  authority : List Char → Option String
  /-- `z.string().email()`. -/
  isEmail : String → Bool
  jwtVerify : JwtVerify
  signer : CookieSigner
  digest : String → String
  sha256 : String → String

/-- A browser that was redirected to the identity provider. -/
structure Login (β : Type) where
  browser : β
  state : OidcState
deriving Repr, DecidableEq

/-- The identity provider has signed in the user of a browser, and answered with a code. -/
structure Approval (β : Type) where
  browser : β
  code : String
  payload : Json
deriving Repr, DecidableEq

/-- How an identity was established. -/
inductive SignInVia (β : Type) where
  | development (email : String)
  | callback (state : OidcState) (approval : Approval β)
deriving Repr, DecidableEq

/-- How far `SessionService.issue` has come; the session is the row that it has created. -/
inductive IssuePhase where
  | accepted
  | identified
  | created (session : SessionRow)
  | returned (session : SessionRow)
  | failed (session : Option SessionRow)
deriving Repr, DecidableEq

/-- The session of a phase. -/
def IssuePhase.session? : IssuePhase → Option SessionRow
  | .accepted | .identified => none
  | .created session | .returned session => some session
  | .failed session => session

/-- A call of `SessionService.issue`, for the browser whose request it serves. -/
structure Issue (β : Type) where
  browser : β
  via : SignInVia β
  input : IdentityInput
  roles : List Role
  phase : IssuePhase
deriving Repr, DecidableEq

/-- An event that changes who is a member. -/
inductive MemberEvent (β : Type) where
  | signedIn (issue : Issue β)
  | erased (tenantId userId : String)
deriving Repr, DecidableEq

/-- A request that was authenticated. -/
structure AuthenticatedRequest where
  token : String
  now : ℤ
  session : AuthenticatedSession
deriving Repr, DecidableEq

/-- The state of the program and of its surroundings. -/
structure AuthRun (β : Type) where
  tables : AuthTables (Finset Role)
  /-- The promise that `getDiscovery` keeps, once it is settled. -/
  discovery : Option (Except OAuthError Discovery)
  logins : List (Login β)
  approvals : List (Approval β)
  /-- The state cookie of each browser. -/
  jar : β → Option String
  planted : List β
  issues : List (Issue β)
  requests : List AuthenticatedRequest
  /-- The sessions that a logout or an erasure has ended. -/
  ended : List String
  /-- The newest event comes first. -/
  history : List (MemberEvent β)

/-- Where a cookie comes from that somebody else puts into a browser. -/
inductive PlantedCookie (β : Type) where
  | login (login : Login β)
  | provider (state : ProviderOAuthState)
  | forged
deriving Repr, DecidableEq

/-- The value that was signed. -/
def PlantedCookie.value {β : Type} : PlantedCookie β → Option String
  | .login l => some l.state.toJson.stringify
  | .provider state => some state.toJson.stringify
  | .forged => none

/-- What happens, with the answers that it gets. -/
inductive AuthStep (β : Type) where
  | login (browser : β) (returnTo : Option String) (response : JsonResponse Json)
      (state nonce verifier : String)
  | plant (browser : β) (cookie : String) (source : PlantedCookie β)
  | approve (approval : Approval β)
  | callback (browser : β) (code state : String) (discovery tokens : JsonResponse Json)
      (approval : Approval β)
  | development (browser : β) (email : String) (displayName : Option String)
  | identify (i : ℕ)
  | create (i : ℕ) (id token csrfToken : String) (now : ℤ)
  | load (i : ℕ) (now : ℤ)
  | request (token : String) (now : ℤ)
  | logout (request : AuthenticatedRequest) (now : ℤ)
  | erase (tenantId userId : String)
  | expire (tenantId : String) (now : ℤ)

namespace Issue

variable {β : Type}

/-- The id of the user. -/
def userId (digest : String → String) (issue : Issue β) : String :=
  RecruitingOs.userId digest issue.input.identity

def session? (issue : Issue β) : Option SessionRow := issue.phase.session?

end Issue

namespace AuthRun

variable {β : Type} [DecidableEq β] (honest : β → Bool) (app : AuthApp) (s : AuthRun β)

/-- `getDiscovery()`. -/
def discovered (options : OidcOptions) (response : JsonResponse Json) :
    Except OAuthError Discovery :=
  s.discovery.getD (options.discover app.parseUrl response)

/-- The random texts of a login are new, also to the identity provider. -/
def freshLogin (state nonce verifier : String) : Bool :=
  state ≠ "" ∧ nonce ≠ "" ∧ verifier ≠ "" ∧ (s.logins.all fun l => l.state.nonce ≠ nonce) ∧
    s.approvals.all fun a => a.payload.get? "nonce" ≠ some (.str nonce)

/-- `GET /auth/login`. -/
def login (browser : β) (returnTo : Option String) (response : JsonResponse Json)
    (state nonce verifier : String) : Option (AuthRun β) :=
  app.config.oidc.bind fun options =>
    let discovery := s.discovered app options response
    match discovery with
    | .error _ => some { s with discovery := some discovery }
    | .ok _ =>
        if ¬ s.freshLogin state nonce verifier then none
        else
          let built : OidcState :=
            { state, nonce, verifier
              returnTo := safeRelativeReturnTo app.authority (returnTo.getD "/") "/" }
          some
            { s with
              discovery := some discovery
              logins := ⟨browser, built⟩ :: s.logins
              jar := Function.update s.jar browser (some (app.signer.sign built.toJson.stringify)) }

/-- A cookie that is put into a browser: the cookie of another browser's login only if that browser
is not honest. -/
def mayPlant (browser : β) : PlantedCookie β → Bool
  | .login l => l ∈ s.logins ∧ (¬ honest l.browser ∨ l.browser = browser)
  | .provider _ | .forged => true

def plant (browser : β) (cookie : String) (source : PlantedCookie β) : Option (AuthRun β) :=
  if app.signer.unsign cookie = source.value ∧ s.mayPlant honest browser source then
    some
      { s with
        jar := Function.update s.jar browser (some cookie)
        planted := browser :: s.planted }
  else none

/-- A token with the nonce of an honest browser's request is issued to that browser's user. -/
def mayApprove (approval : Approval β) : Bool :=
  (s.approvals.all fun a => a.code ≠ approval.code) ∧
    s.logins.all fun l => ¬ (honest l.browser ∧
      approval.payload.get? "nonce" = some (.str l.state.nonce)) ∨ approval.browser = l.browser

/-- The identity provider answers an authorization request. -/
def approve (approval : Approval β) : Option (AuthRun β) :=
  if s.mayApprove honest approval then some { s with approvals := approval :: s.approvals }
  else none

/-- A browser sends the code of an approval, and the token endpoint answers with its token. -/
def mayAnswer (browser : β) (code : String) (approval : Approval β) : Bool :=
  approval ∈ s.approvals ∧ approval.code = code ∧
    (approval.browser = browser ∨ ¬ honest approval.browser ∨
      s.logins.any fun l => l.browser = approval.browser ∧
        approval.payload.get? "nonce" = some (.str l.state.nonce))

/-- The state of the cookie that a browser sends with its callback. -/
def presentedState (browser : β) : Option OidcState :=
  (((s.jar browser).filter (· ≠ "")).bind app.signer.unsign).bind OidcState.ofText

/-- The issue that `GET /auth/callback` begins. -/
def callbackIssue (browser : β) (state : OidcState) (approval : Approval β) (claims : OidcClaims) :
    Issue β where
  browser := browser
  via := .callback state approval
  input := ⟨claims.identity, some claims.email, claims.displayName⟩
  roles := initialRolesForIdentity app.lower (some claims.email)
    app.config.initialPlatformAdminEmails
  phase := .accepted

/-- `GET /auth/callback`, up to the call of `issue`. -/
def callback (browser : β) (code state : String) (discovery tokens : JsonResponse Json)
    (approval : Approval β) : Option (AuthRun β) :=
  app.config.oidc.bind fun options =>
    if code = "" ∨ state = "" then none
    else (s.presentedState app browser).bind fun presented =>
      if presented.state ≠ state then none
      else
        let discovery := s.discovered app options discovery
        match discovery with
        | .error _ => some { s with discovery := some discovery }
        | .ok found =>
            match options.callback app.lower app.jwtVerify found tokens presented with
            | .error _ => some { s with discovery := some discovery }
            | .ok claims =>
                if options.acceptedPayload app.jwtVerify found tokens = some approval.payload ∧
                    s.mayAnswer honest browser code approval then
                  some
                    { s with
                      discovery := some discovery
                      issues := s.issues ++ [callbackIssue app browser presented approval claims] }
                else none

/-- The issue that `POST /auth/development` begins. -/
def developmentIssue (browser : β) (email : String) (displayName : Option String) : Issue β where
  browser := browser
  via := .development email
  input := ⟨⟨"development", app.lower email⟩, some (app.lower email), displayName⟩
  roles := [.platformAdmin]
  phase := .accepted

/-- `POST /auth/development`, up to the call of `issue`. -/
def development (browser : β) (email : String) (displayName : Option String) :
    Option (AuthRun β) :=
  if app.config.mode ≠ .development ∨ app.config.production then none
  else if ¬ (app.isEmail email ∧
      displayName.all fun name => 1 ≤ utf16Length name ∧ utf16Length name ≤ 120) then none
  else if ¬ endsWith (app.lower email) ("@" ++ app.lower app.config.allowedEmailDomain) then none
  else some { s with issues := s.issues ++ [developmentIssue app browser email displayName] }

/-- The `i`-th issue reaches a phase. -/
def reach (i : ℕ) (issue : Issue β) (phase : IssuePhase) : AuthRun β :=
  { s with issues := s.issues.set i { issue with phase := phase } }

/-- `repository.upsertIdentity(identity, tenantId, defaultRoles)`. -/
def identify (i : ℕ) : Option (AuthRun β) :=
  (s.issues[i]?).bind fun issue =>
    if issue.phase ≠ .accepted then none
    else
      match s.tables.upsertIdentity roleSets app.digest issue.input app.config.defaultTenantId
          issue.roles with
      | .error _ => some (s.reach i issue (.failed none))
      | .ok out =>
          some
            { s.reach i issue .identified with
              tables := out.1
              history := .signedIn issue :: s.history }

/-- The session that is created for an issue. -/
def sessionRow (issue : Issue β) (id token csrfToken : String) (now : ℤ) : SessionRow where
  id := id
  tenantId := app.config.defaultTenantId
  userId := issue.userId app.digest
  tokenHash := app.sha256 token
  csrfHash := app.sha256 csrfToken
  expiresAt := now + app.config.sessionTtlSeconds * 1000
  revokedAt := none

/-- No issue has the id, or a token with the digest. -/
def freshSession (id tokenHash : String) : Bool :=
  s.issues.all fun issue => issue.session?.all fun row => row.id ≠ id ∧ row.tokenHash ≠ tokenHash

/-- `repository.createSession(…)`. -/
def create (i : ℕ) (id token csrfToken : String) (now : ℤ) : Option (AuthRun β) :=
  (s.issues[i]?).bind fun issue =>
    if issue.phase ≠ .identified ∨ ¬ s.freshSession id (app.sha256 token) then none
    else
      let row := sessionRow app issue id token csrfToken now
      match s.tables.createSession row with
      | .error _ => some (s.reach i issue (.failed none))
      | .ok tables => some { s.reach i issue (.created row) with tables := tables }

/-- The jars once the reply to an issue has come: a callback clears the state cookie. -/
def clearedJar (issue : Issue β) : β → Option String :=
  match issue.via with
  | .callback _ _ => Function.update s.jar issue.browser none
  | .development _ => s.jar

/-- The `authenticateSession` of `issue`, and the reply. -/
def load (i : ℕ) (now : ℤ) : Option (AuthRun β) :=
  (s.issues[i]?).bind fun issue =>
    match issue.phase with
    | .created row =>
        match setAuth.authenticateSession s.tables row.tokenHash now with
        | none => some (s.reach i issue (.failed (some row)))
        | some _ => some { s.reach i issue (.returned row) with jar := s.clearedJar issue }
    | _ => none

/-- `authenticate(token)`, as the hook of a request calls it. -/
def authenticate (token : String) (now : ℤ) : Option AuthenticatedSession :=
  if token = "" then none else setAuth.authenticateSession s.tables (app.sha256 token) now

def request (token : String) (now : ℤ) : Option (AuthRun β) :=
  (s.authenticate app token now).map fun session =>
    { s with requests := ⟨token, now, session⟩ :: s.requests }

/-- `POST /auth/logout`, of a request that was authenticated. -/
def logout (request : AuthenticatedRequest) (now : ℤ) : Option (AuthRun β) :=
  if request ∈ s.requests then
    some
      { s with
        tables := s.tables.revokeSession request.session.sessionId
          request.session.principal.tenantId now
        ended := request.session.sessionId :: s.ended }
  else none

/-- The sessions of a user. -/
def sessionsOf (tenantId userId : String) : List String :=
  (s.tables.sessions.filter fun row => row.tenantId = tenantId ∧ row.userId = userId).map
    SessionRow.id

/-- `eraseAccount(tenantId, userId, …)`, of a member. -/
def erase (tenantId userId : String) : Option (AuthRun β) :=
  if (s.tables.member? tenantId userId).isSome then
    some
      { s with
        tables := s.tables.eraseAccount tenantId userId
        ended := s.sessionsOf tenantId userId ++ s.ended
        history := .erased tenantId userId :: s.history }
  else none

/-- One step. -/
def step : AuthStep β → Option (AuthRun β)
  | .login browser returnTo response state nonce verifier =>
      s.login app browser returnTo response state nonce verifier
  | .plant browser cookie source => s.plant honest app browser cookie source
  | .approve approval => s.approve honest approval
  | .callback browser code state discovery tokens approval =>
      s.callback honest app browser code state discovery tokens approval
  | .development browser email displayName => s.development app browser email displayName
  | .identify i => s.identify app i
  | .create i id token csrfToken now => s.create app i id token csrfToken now
  | .load i now => s.load i now
  | .request token now => s.request app token now
  | .logout request now => s.logout request now
  | .erase tenantId userId => s.erase tenantId userId
  | .expire tenantId now => some { s with tables := s.tables.expireSessions tenantId now }

/-- Nobody has signed in. -/
def start : AuthRun β := ⟨.empty, none, [], [], fun _ => none, [], [], [], [], []⟩

/-- The states of all runs. -/
def Reached : AuthRun β → Prop :=
  Transition.Reachable (fun s => s = start) fun s => step honest app s

end AuthRun

/-! ### A deployment in development -/

/-- The signer that marks what it has signed. -/
def markingSigner : CookieSigner where
  sign := fun value => String.ofList ('.' :: value.toList)
  unsign := fun cookie =>
    match cookie.toList with
    | '.' :: rest => some (String.ofList rest)
    | _ => none
  unsign_sign := fun value => by simp
  sign_ne := fun value h => by
    have hchars := congrArg String.toList h
    simp at hchars

/-- One user may sign in, by their email. -/
def developmentApp : AuthApp where
  config :=
    { mode := .development
      production := false
      issuer := none
      clientId := none
      clientSecret := none
      redirectUri := none
      allowedEmailDomain := "purdue.edu"
      initialPlatformAdminEmails := []
      defaultTenantId := "default"
      sessionTtlSeconds := 3600 }
  lower := fun text => text
  parseUrl := fun _ => none
  authority := fun _ => none
  isEmail := fun _ => true
  jwtVerify := fun _ _ _ => none
  signer := markingSigner
  digest := fun text => text
  sha256 := fun text => text

namespace AuthRun

/-- A sign-in in development, and a request with its token. -/
def developmentSteps (i : ℕ) (id token : String) : List (AuthStep Unit) :=
  [.development () "pete@purdue.edu" none, .identify i, .create i id token "csrf" 0, .load i 1,
    .request token 2]

def developmentRun : AuthRun Unit :=
  (Transition.exec (fun s => step (fun _ => true) developmentApp s) start
    (developmentSteps 0 "session" "token")).get rfl

theorem developmentRun_reached : Reached (fun _ => true) developmentApp developmentRun :=
  Transition.Reachable.of_exec (.start rfl) (Option.some_get _).symm

end AuthRun

end RecruitingOs
