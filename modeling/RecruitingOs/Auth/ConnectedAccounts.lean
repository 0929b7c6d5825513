import RecruitingOs.Auth.ProviderOAuth
import RecruitingOs.Auth.SignIn
import RecruitingOs.Privacy.Erase
import RecruitingOs.Vault.Revocation

/-!
# Connecting accounts

The routes `connect` and `callback` of `src/http/routes/connectors.ts`, with the call of
`providerOAuth.callback` and the call of `credentialVault.put` as steps of their own, next to the
refreshes and revocations of `VaultRun` and to erasures.  Browsers, providers and the server take
steps in any order.

The principal of a request is that of its session.  What is assumed of the rest:

* The random texts of the server are new.
* A cookie that is valid has been signed by the server (`mayPlant`); it may come from any browser.
* A provider that checks the challenge of a request answers a code only with its verifier.  At
  another provider codes do not leak: a code reaches the callback with the state of its request
  (`mayExchange`).
* The owners of different accounts are given different tokens (`freshTokens`), and a refresh token
  is answered with tokens for the same account.

`ConnectRun.connects`, `approvals` and `grants` are not stored by the program: they remember what
has happened.
-/

namespace RecruitingOs

open Database (CredentialKey)

/-- `DATA_POLICY_VERSION`. -/
def dataPolicyVersion : String := "2026-08-28"

/-- The application, with the functions of the platform and of libraries. -/
structure ConnectApp where
  configuration : ProviderConfiguration
  vault : Vault
  signer : CookieSigner
  /-- The parser of authorities that `safeRelativeReturnTo` calls. -/
  authority : List Char → Option String
  /-- `createHash('sha256').update(verifier).digest('base64url')`. -/
  challenge : String → String
  getTime : String → Option ℤ
  refreshSkewMs : ℤ
  /-- The providers that check the challenge. -/
  checksChallenge : OAuthProvider → Bool
  lawful : vault.crypto.Lawful
  parse_stringify : ∀ credential : ProviderCredential, credential.metadata = none →
    vault.crypto.parse credential.stringify = some credential

/-- The triple that the credential of a connection is stored under. -/
def ProviderOAuthState.key (state : ProviderOAuthState) : CredentialKey :=
  (state.tenantId, state.userId, state.provider.text)

/-- The event `connector.connect.start`. -/
def connectEvent (id requestId : String) (state : ProviderOAuthState) : AuditEventRow where
  id := id
  tenantId := state.tenantId
  actorId := some state.userId
  action := "connector.connect.start"
  resourceType := "connector"
  resourceId := some state.provider.text
  requestId := some requestId
  metadata := .obj [("consentToProcess", .bool true), ("policyVersion", .str dataPolicyVersion)]

/-- A request of `connect` that was answered. -/
structure Connect where
  state : ProviderOAuthState
  event : AuditEventRow
deriving Repr, DecidableEq

/-- The owner of an account has approved an authorization request, and a code was issued. -/
structure AccountApproval where
  provider : OAuthProvider
  account : String
  state : String
  challenge : String
  code : String
deriving Repr, DecidableEq

/-- Tokens that a provider has issued. -/
structure ProviderGrant where
  approval : AccountApproval
  accessToken : String
  refreshToken : Option String
deriving Repr, DecidableEq

/-- A credential that `callback` is about to put. -/
structure Exchanged where
  key : CredentialKey
  credential : ProviderCredential
deriving Repr, DecidableEq

/-- The state of the program and of its surroundings. -/
structure ConnectRun (β : Type) where
  vault : VaultRun
  /-- The state cookie of each browser. -/
  jar : β → Option String
  exchanged : List Exchanged
  connects : List Connect
  approvals : List AccountApproval
  grants : List ProviderGrant

/-- What happens, with the answers that it gets. -/
inductive ConnectStep (β : Type) where
  | connect (browser : β) (provider : OAuthProvider) (userId tenantId state verifier : String)
      (eventId requestId : String)
  | plant (browser : β) (cookie : String) (source : PlantedCookie β)
  | approve (approval : AccountApproval)
  | callback (browser : β) (provider : OAuthProvider) (userId tenantId code state : String)
      (answer : JsonResponse TokenAnswer) (approval : AccountApproval) (now : ℤ)
  /-- `credentialVault.put` of the `i`-th credential. -/
  | store (i : ℕ) (nonce : List UInt8)
  | get (c : ℕ) (key : CredentialKey) (now : ℤ)
  | refresh (c : ℕ) (token : TokenAnswer) (approval : AccountApproval) (now : ℤ)
  | put (c : ℕ) (nonce : List UInt8)
  | abort (c : ℕ)
  | revoke (key : CredentialKey) (now : ℤ)
  | erase (dialect : Dialect) (tenantId userId operationId : String) (now : ℤ)

namespace ConnectRun

variable {β : Type} [DecidableEq β] (app : ConnectApp) (s : ConnectRun β)

/-- The random texts of a connection are new, and so is the challenge. -/
def freshConnect (state verifier : String) : Bool :=
  state ≠ "" ∧ verifier ≠ "" ∧ s.connects.all fun c =>
    c.state.state ≠ state ∧ app.challenge c.state.verifier ≠ app.challenge verifier

/-- `POST /api/connectors/:provider/connect`, with the consent. -/
def connect (browser : β) (provider : OAuthProvider) (userId tenantId state verifier : String)
    (eventId requestId : String) : Option (ConnectRun β) :=
  if ¬ app.configuration.configured provider ∨ ¬ s.freshConnect app state verifier then none
  else
    match app.configuration.authorization app.authority app.challenge provider userId tenantId state
        verifier with
    | .error _ => none
    | .ok (built, _) =>
        let event := connectEvent eventId requestId built
        match Database.insertAudit s.vault.db.auditEvents event with
        | .error _ => none
        | .ok events =>
            some
              { s with
                vault := { s.vault with db := { s.vault.db with auditEvents := events } }
                connects := ⟨built, event⟩ :: s.connects
                jar := Function.update s.jar browser
                  (some (app.signer.sign built.toJson.stringify)) }

/-- A cookie that is put into a browser is a forged one, that of any connection, or that of a
sign-in. -/
def mayPlant : PlantedCookie β → Bool
  | .provider state => s.connects.any fun c => c.state = state
  | .login _ | .forged => true

def plant (browser : β) (cookie : String) (source : PlantedCookie β) : Option (ConnectRun β) :=
  if app.signer.unsign cookie = source.value ∧ s.mayPlant source then
    some { s with jar := Function.update s.jar browser (some cookie) }
  else none

/-- The owner of an account approves a request; the code is new. -/
def approve (approval : AccountApproval) : Option (ConnectRun β) :=
  if s.approvals.all fun a => a.code ≠ approval.code then
    some { s with approvals := approval :: s.approvals }
  else none

/-- The state of the cookie that a browser sends with its callback. -/
def presentedState (browser : β) : Option ProviderOAuthState :=
  (((s.jar browser).filter (· ≠ "")).bind app.signer.unsign).bind ProviderOAuthState.ofText

/-- The code of an approval is exchanged. -/
def mayExchange (code state verifier : String) (approval : AccountApproval) : Bool :=
  approval ∈ s.approvals ∧ approval.code = code ∧
    if app.checksChallenge approval.provider then approval.challenge = app.challenge verifier
    else approval.state = state

/-- The tokens of different approvals differ. -/
def freshTokens (new : ProviderGrant) : Bool :=
  s.grants.all fun grant => grant.approval = new.approval ∨
    (grant.accessToken ≠ new.accessToken ∧
      (new.refreshToken = none ∨ new.refreshToken = some "" ∨
        grant.refreshToken ≠ new.refreshToken))

/-- What a provider has issued with an answer. -/
def issued (approval : AccountApproval) (token : TokenAnswer) : ProviderGrant :=
  ⟨approval, token.accessToken.getD "", token.refreshToken⟩

/-- `GET /api/connectors/:provider/callback`, up to the credential. -/
def callback (browser : β) (provider : OAuthProvider) (userId tenantId code state : String)
    (answer : JsonResponse TokenAnswer) (approval : AccountApproval) (now : ℤ) :
    Option (ConnectRun β) :=
  if code = "" ∨ state = "" then none
  else (s.presentedState app browser).bind fun presented =>
    if presented.state ≠ state ∨ presented.provider ≠ provider ∨ presented.userId ≠ userId ∨
        presented.tenantId ≠ tenantId then none
    else
      match app.configuration.callback provider presented answer now with
      | .error _ => some s
      | .ok credential =>
          match answer with
          | .body token =>
              if approval.provider = provider ∧
                  s.mayExchange app code state presented.verifier approval ∧
                  s.freshTokens (issued approval token) then
                some
                  { s with
                    exchanged := s.exchanged ++ [⟨presented.key, credential⟩]
                    grants := issued approval token :: s.grants }
              else none
          | _ => none

/-- `credentialVault.put(state.tenantId, state.userId, provider, credential)`; the cookie is
cleared. -/
def store (i : ℕ) (nonce : List UInt8) : Option (ConnectRun β) :=
  (s.exchanged[i]?).bind fun exchanged =>
    if nonce.length ≠ 12 then none
    else
      (s.vault.step app.vault app.getTime app.refreshSkewMs
        (.callback exchanged.key exchanged.credential nonce)).map fun vault =>
          { s with vault := vault, exchanged := s.exchanged.eraseIdx i }

/-- The refresh token that a call presents. -/
def presentedToken (c : ℕ) : Option String :=
  (s.vault.call? c).bind fun call =>
    match call.phase with
    | .refreshing credential => credential.refreshToken.filter (· ≠ "")
    | .putting _ => none

/-- The provider answers a refresh, with tokens for the account of the refresh token. -/
def refresh (c : ℕ) (token : TokenAnswer) (approval : AccountApproval) (now : ℤ) :
    Option (ConnectRun β) :=
  if (s.grants.any fun grant => grant.approval = approval ∧ (s.presentedToken c).isSome ∧
      grant.refreshToken = s.presentedToken c) ∧ s.freshTokens (issued approval token) then
    (s.vault.step app.vault app.getTime app.refreshSkewMs (.refresh c token now)).map fun vault =>
      { s with vault := vault, grants := issued approval token :: s.grants }
  else none

/-- A step of the vault's users. -/
def vaultStep (label : VaultStep) : Option (ConnectRun β) :=
  (s.vault.step app.vault app.getTime app.refreshSkewMs label).map fun vault =>
    { s with vault := vault }

/-- An erasure that returns. -/
def erase (dialect : Dialect) (tenantId userId operationId : String) (now : ℤ) :
    Option (ConnectRun β) :=
  match Database.eraseAccount dialect app.vault.digest s.vault.db tenantId userId operationId
      now with
  | .error _ => none
  | .ok (db, _) => some { s with vault := { s.vault with db := db } }

/-- One step. -/
def step : ConnectStep β → Option (ConnectRun β)
  | .connect browser provider userId tenantId state verifier eventId requestId =>
      s.connect app browser provider userId tenantId state verifier eventId requestId
  | .plant browser cookie source => s.plant app browser cookie source
  | .approve approval => s.approve approval
  | .callback browser provider userId tenantId code state answer approval now =>
      s.callback app browser provider userId tenantId code state answer approval now
  | .store i nonce => s.store app i nonce
  | .get c key now => s.vaultStep app (.get c key now)
  | .refresh c token approval now => s.refresh app c token approval now
  | .put c nonce => if nonce.length = 12 then s.vaultStep app (.put c nonce) else none
  | .abort c => s.vaultStep app (.abort c)
  | .revoke key now => s.vaultStep app (.revoke key now)
  | .erase dialect tenantId userId operationId now =>
      s.erase app dialect tenantId userId operationId now

/-- No account was connected yet. -/
structure Initial (s : ConnectRun β) : Prop where
  credentials : s.vault.db.credentials = []
  calls : s.vault.calls = []
  jar : ∀ browser, s.jar browser = none
  exchanged : s.exchanged = []
  connects : s.connects = []
  approvals : s.approvals = []
  grants : s.grants = []

/-- The states of all runs. -/
def Reached : ConnectRun β → Prop :=
  Transition.Reachable Initial fun s => step app s

end ConnectRun

end RecruitingOs
