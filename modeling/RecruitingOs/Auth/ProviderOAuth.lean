import RecruitingOs.Auth.Oidc
import RecruitingOs.Vault.Binding

/-!
# The authorization of providers

`ProviderOAuthService` of `src/infrastructure/auth/provider-oauth-service.ts`: the request that a
browser is sent to a provider with, and the credential that an authorization code is exchanged
for.  Its `refresh` is `refreshCredential`.

The random texts and the code challenge are given by the caller, as for `OidcOptions`.
-/

namespace RecruitingOs

/-- `ProviderOAuthState`. -/
structure ProviderOAuthState where
  provider : OAuthProvider
  state : String
  verifier : String
  userId : String
  tenantId : String
  returnTo : String
deriving Repr, DecidableEq

/-- What a provider is configured with. -/
structure ProviderSettings where
  clientId : Option String
  clientSecret : Option String
  redirectUri : Option String
deriving Repr, DecidableEq

/-- `ProviderConfiguration`. -/
abbrev ProviderConfiguration := OAuthProvider → Option ProviderSettings

/-- `ProviderDefinition`. -/
structure ProviderDefinition where
  authorizationEndpoint : String
  tokenEndpoint : String
  scopes : List String
  extra : List (String × String)
  clientId : String
  clientSecret : Option String
  redirectUri : String
deriving Repr, DecidableEq

/-- `endpoints`. -/
def OAuthProvider.endpoints (provider : OAuthProvider) (clientId : String)
    (clientSecret : Option String) (redirectUri : String) : ProviderDefinition :=
  match provider with
  | .gmail =>
      { authorizationEndpoint := "https://accounts.google.com/o/oauth2/v2/auth"
        tokenEndpoint := "https://oauth2.googleapis.com/token"
        scopes := ["openid", "email", "https://www.googleapis.com/auth/gmail.readonly"]
        extra := [("access_type", "offline"), ("prompt", "consent")]
        clientId, clientSecret, redirectUri }
  | .groupme =>
      { authorizationEndpoint := "https://oauth.groupme.com/oauth/authorize"
        tokenEndpoint := "https://api.groupme.com/oauth/access_token"
        scopes := []
        extra := []
        clientId, clientSecret, redirectUri }
  | .instagram =>
      { authorizationEndpoint := "https://www.facebook.com/v24.0/dialog/oauth"
        tokenEndpoint := "https://graph.facebook.com/v24.0/oauth/access_token"
        scopes := ["instagram_basic", "pages_read_engagement"]
        extra := []
        clientId, clientSecret, redirectUri }
  | .linkedin =>
      { authorizationEndpoint := "https://www.linkedin.com/oauth/v2/authorization"
        tokenEndpoint := "https://www.linkedin.com/oauth/v2/accessToken"
        scopes := ["r_organization_social"]
        extra := []
        clientId, clientSecret, redirectUri }

namespace ProviderConfiguration

variable (configuration : ProviderConfiguration)

/-- `configured(provider)`. -/
def configured (provider : OAuthProvider) : Bool :=
  (configuration provider).any fun value =>
    (value.clientId.any (· ≠ "")) ∧ (value.redirectUri.any (· ≠ ""))

/-- `definition(provider)`. -/
def definition (provider : OAuthProvider) : Except OAuthError ProviderDefinition :=
  match configuration provider with
  | none => .error (.message (provider.text ++ " OAuth is not configured"))
  | some value =>
      match value.clientId.filter (· ≠ ""), value.redirectUri.filter (· ≠ "") with
      | some clientId, some redirectUri =>
          .ok (provider.endpoints clientId value.clientSecret redirectUri)
      | _, _ => .error (.message (provider.text ++ " OAuth is not configured"))

/-- The query that `authorization` adds to the authorization endpoint. -/
def authorizationQuery (challenge : String → String) (definition : ProviderDefinition)
    (state : ProviderOAuthState) : List (String × String) :=
  [("client_id", definition.clientId), ("redirect_uri", definition.redirectUri),
    ("response_type", "code")] ++
    (if definition.scopes = [] then [] else [("scope", " ".intercalate definition.scopes)]) ++
    [("state", state.state), ("code_challenge", challenge state.verifier),
      ("code_challenge_method", "S256")] ++ definition.extra

/-- `authorization(provider, userId, tenantId)`: the state, and the query that it is sent with. -/
def authorization (authority : List Char → Option String) (challenge : String → String)
    (provider : OAuthProvider) (userId tenantId state verifier : String) :
    Except OAuthError (ProviderOAuthState × List (String × String)) := do
  let definition ← configuration.definition provider
  let built : ProviderOAuthState :=
    { provider, state, verifier, userId, tenantId
      returnTo := safeRelativeReturnTo authority "/?connectors=1" "/?connectors=1" }
  return (built, authorizationQuery challenge definition built)

/-- The body that `callback` sends to the token endpoint. -/
def tokenRequest (definition : ProviderDefinition) (code : String) (state : ProviderOAuthState) :
    List (String × String) :=
  [("grant_type", "authorization_code"), ("code", code), ("client_id", definition.clientId),
    ("redirect_uri", definition.redirectUri), ("code_verifier", state.verifier)] ++
    ((definition.clientSecret.filter (· ≠ "")).map fun secret => ("client_secret", secret)).toList

/-- The credential of a token. -/
def issuedCredential (definition : ProviderDefinition) (accessToken : String) (token : TokenAnswer)
    (now : ℤ) : ProviderCredential where
  accessToken := accessToken
  refreshToken := token.refreshToken
  expiresAt := (token.expiresIn.filter (· ≠ 0)).map fun seconds =>
    IsoTime.toISOString (now + seconds * 1000)
  scopes := (token.scope.filter (· ≠ "")).elim definition.scopes splitScopes
  metadata := none

/-- `callback(provider, code, state)`, from the response of the token endpoint. -/
def callback (provider : OAuthProvider) (state : ProviderOAuthState)
    (response : JsonResponse TokenAnswer) (now : ℤ) : Except OAuthError ProviderCredential :=
  if provider ≠ state.provider then .error (.message "OAuth provider mismatch")
  else do
    let definition ← configuration.definition provider
    let token ← response.read "Provider token exchange"
    match token.accessToken.filter (· ≠ "") with
    | none => throw (.message "Provider did not return an access token")
    | some accessToken => return issuedCredential definition accessToken token now

end ProviderConfiguration

/-! ### What is accepted -/

namespace ProviderConfiguration

variable {configuration : ProviderConfiguration} {provider : OAuthProvider}

/-- A configured provider has a definition, and no other has. -/
theorem configured_iff :
    configuration.configured provider ↔ ∃ d, configuration.definition provider = .ok d := by
  unfold configured definition
  cases configuration provider with
  | none => simp
  | some value =>
      obtain ⟨clientId, clientSecret, redirectUri⟩ := value
      cases clientId with
      | none => simp
      | some client =>
          cases redirectUri with
          | none => by_cases hclient : client = "" <;> simp [hclient]
          | some redirect =>
              by_cases hclient : client = "" <;> by_cases hredirect : redirect = "" <;>
                simp [Option.filter, hclient, hredirect]

/-- The state of an authorization names who asked for it, and for what. -/
theorem authorization_ok {authority : List Char → Option String} {challenge : String → String}
    {userId tenantId state verifier : String} {built : ProviderOAuthState}
    {query : List (String × String)}
    (h : configuration.authorization authority challenge provider userId tenantId state verifier =
      .ok (built, query)) :
    built.provider = provider ∧ built.userId = userId ∧ built.tenantId = tenantId ∧
      built.state = state ∧ built.verifier = verifier ∧
      ("code_challenge", challenge verifier) ∈ query := by
  unfold authorization at h
  obtain ⟨definition, -, h⟩ := except_bind_eq_ok.mp h
  cases h
  refine ⟨rfl, rfl, rfl, rfl, rfl, ?_⟩
  unfold authorizationQuery
  simp

/-- A credential comes from a token of the provider that the state names. -/
theorem callback_ok {state : ProviderOAuthState} {response : JsonResponse TokenAnswer} {now : ℤ}
    {credential : ProviderCredential}
    (h : configuration.callback provider state response now = .ok credential) :
    provider = state.provider ∧ ∃ token, response = .body token ∧
      token.accessToken = some credential.accessToken ∧ credential.accessToken ≠ "" ∧
      credential.refreshToken = token.refreshToken ∧ credential.metadata = none := by
  unfold callback at h
  split at h
  · cases h
  · rename_i hprovider
    obtain ⟨definition, -, h⟩ := except_bind_eq_ok.mp h
    obtain ⟨token, htoken, h⟩ := except_bind_eq_ok.mp h
    split at h
    · cases h
    · rename_i accessToken haccess
      cases h
      obtain ⟨hsome, hne⟩ := Option.filter_eq_some_iff.mp haccess
      refine ⟨not_not.mp hprovider, token, ?_, hsome, of_decide_eq_true hne, rfl, rfl⟩
      cases response with
      | failed => cases htoken
      | refused status => cases htoken
      | unreadable => cases htoken
      | body value =>
          cases htoken
          rfl

end ProviderConfiguration

end RecruitingOs
