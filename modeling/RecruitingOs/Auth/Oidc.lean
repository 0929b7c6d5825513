import RecruitingOs.Http.App
import RecruitingOs.Http.OverrideRequest
import RecruitingOs.Http.ReturnTo
import RecruitingOs.Lib.Utf16

/-!
# The OpenID Connect client

`OidcService` of `src/infrastructure/auth/oidc-service.ts`: the discovery document, the request
that a browser is sent to the identity provider with, and what is checked of the answer.

The random texts are given by the caller.  Not part of the repository, and parameters here:
`new URL`, `toLowerCase`, the code challenge (SHA-256, base64url), and `jwtVerify` of `jose`,
which answers the claims of a token that it accepts for an issuer and an audience.
-/

namespace RecruitingOs

/-- What a `fetch` of JSON comes to. -/
inductive JsonResponse (α : Type) where
  /-- The request fails or is aborted. -/
  | failed
  | refused (status : ℕ)
  /-- The body is too large, or is no JSON. -/
  | unreadable
  | body (value : α)
deriving Repr, DecidableEq

/-- What a client throws: an error with a text of its own, or one of the platform. -/
inductive OAuthError where
  | message (text : String)
  | platform
deriving Repr, DecidableEq

/-- The body of a response; `what` names the request in the text of the error. -/
def JsonResponse.read {α : Type} (what : String) : JsonResponse α → Except OAuthError α
  | .failed | .unreadable => .error .platform
  | .refused status => .error (.message (what ++ " failed: " ++ toString status))
  | .body value => .ok value

/-- A blank, as `trim` removes it. -/
def isSpace (c : Char) : Bool := c.toNat < 65536 ∧ Utf16.isSpace c.toNat.toUInt16

/-- `text.trim()`. -/
def trim (text : String) : String :=
  String.ofList
    ((text.toList.dropWhile isSpace).reverse.dropWhile isSpace).reverse

/-- `Discovery`. -/
structure Discovery where
  authorizationEndpoint : String
  tokenEndpoint : String
  jwksUri : String
  issuer : String
deriving Repr, DecidableEq

/-- `OidcState`. -/
structure OidcState where
  state : String
  nonce : String
  verifier : String
  returnTo : String
deriving Repr, DecidableEq

/-- `OidcClaims`. -/
structure OidcClaims where
  issuer : String
  subject : String
  email : String
  displayName : Option String
deriving Repr, DecidableEq

def OidcClaims.identity (claims : OidcClaims) : OidcIdentity := ⟨claims.issuer, claims.subject⟩

/-- `OidcOptions`. -/
structure OidcOptions where
  issuer : String
  clientId : String
  clientSecret : Option String
  redirectUri : String
  allowedEmailDomain : String
deriving Repr, DecidableEq

/-! ### Discovery -/

/-- One endpoint of the document. -/
def validatedEndpoint (parseUrl : String → Option HttpUrl) (document : Json) (key : String) :
    Except OAuthError String :=
  match document.get? key with
  | some (.str endpoint) =>
      match parseUrl endpoint with
      | none => .error .platform
      | some url =>
          if url.protocol ≠ "https:" ∨ url.username ≠ "" ∨ url.password ≠ "" then
            .error (.message ("OIDC discovery " ++ key ++ " must be a credential-free HTTPS URL"))
          else .ok endpoint
  | _ => .error (.message ("OIDC discovery is missing " ++ key))

/-- `validatedDiscovery(value, configuredIssuer)`. -/
def validatedDiscovery (parseUrl : String → Option HttpUrl) (document : Json)
    (configuredIssuer : String) : Except OAuthError Discovery :=
  if ¬ document.isObject then .error (.message "OIDC discovery response is invalid")
  else if document.get? "issuer" ≠ some (.str configuredIssuer) then
    .error (.message "OIDC issuer mismatch")
  else do
    let authorizationEndpoint ← validatedEndpoint parseUrl document "authorization_endpoint"
    let tokenEndpoint ← validatedEndpoint parseUrl document "token_endpoint"
    let jwksUri ← validatedEndpoint parseUrl document "jwks_uri"
    return ⟨authorizationEndpoint, tokenEndpoint, jwksUri, configuredIssuer⟩

/-- `issuer.replace(/\/$/, '')`. -/
def OidcOptions.discoveryIssuer (options : OidcOptions) : String :=
  match options.issuer.toList.reverse with
  | '/' :: rest => String.ofList rest.reverse
  | _ => options.issuer

/-- What `getDiscovery` makes of the response to its request. -/
def OidcOptions.discover (options : OidcOptions) (parseUrl : String → Option HttpUrl)
    (response : JsonResponse Json) : Except OAuthError Discovery := do
  let document ← response.read "OIDC discovery"
  validatedDiscovery parseUrl document options.discoveryIssuer

/-! ### The requests -/

/-- The query that `authorization` adds to the authorization endpoint. -/
def OidcOptions.authorizationQuery (options : OidcOptions) (challenge : String → String)
    (state : OidcState) : List (String × String) :=
  [("client_id", options.clientId), ("redirect_uri", options.redirectUri),
    ("response_type", "code"), ("scope", "openid email profile"), ("state", state.state),
    ("nonce", state.nonce), ("code_challenge", challenge state.verifier),
    ("code_challenge_method", "S256")]

/-- The body that `callback` sends to the token endpoint. -/
def OidcOptions.tokenRequest (options : OidcOptions) (code : String) (state : OidcState) :
    List (String × String) :=
  [("grant_type", "authorization_code"), ("code", code), ("redirect_uri", options.redirectUri),
    ("client_id", options.clientId), ("code_verifier", state.verifier)] ++
    ((options.clientSecret.filter (· ≠ "")).map fun secret => ("client_secret", secret)).toList

/-! ### The identity -/

/-- `payload.email` without the blanks around it, or the empty text. -/
def payloadEmail (payload : Json) : String :=
  match payload.get? "email" with
  | some (.str email) => trim email
  | _ => ""

/-- `verifiedIdentityClaims(payload, issuer, allowedEmailDomain)`. -/
def verifiedIdentityClaims (lower : String → String) (payload : Json)
    (issuer allowedEmailDomain : String) : Except OAuthError OidcClaims :=
  match payload.get? "sub" with
  | some (.str subject) =>
      if trim subject = "" then .error (.message "OIDC subject is missing")
      else if payload.get? "email_verified" ≠ some (.bool true) then
        .error (.message "Verified email is required")
      else if ¬ endsWith (lower (payloadEmail payload)) ("@" ++ lower allowedEmailDomain) then
        .error (.message "Email domain is not allowed")
      else
        .ok
          { issuer := issuer
            subject := subject
            email := payloadEmail payload
            displayName := match payload.get? "name" with
              | some (.str name) => some name
              | _ => none }
  | _ => .error (.message "OIDC subject is missing")

/-- `jwtVerify(token, jwks, { issuer, audience })`: the claims of a token that is accepted. -/
abbrev JwtVerify := (token issuer audience : String) → Option Json

/-- The token of a response, `tokens.id_token`; a token that is no text is not accepted. -/
def idToken (tokens : Json) : Except OAuthError String :=
  match tokens with
  | .null => .error .platform
  | _ =>
      match tokens.get? "id_token" with
      | some (.str token) =>
          if token = "" then .error (.message "OIDC response did not include an ID token")
          else .ok token
      | some other =>
          if other.truthy then .error .platform
          else .error (.message "OIDC response did not include an ID token")
      | none => .error (.message "OIDC response did not include an ID token")

/-- The claims of the token of a response, where it is accepted. -/
def OidcOptions.acceptedPayload (options : OidcOptions) (jwtVerify : JwtVerify)
    (discovery : Discovery) (response : JsonResponse Json) : Option Json :=
  match response with
  | .body tokens =>
      (idToken tokens).toOption.bind fun token =>
        jwtVerify token discovery.issuer options.clientId
  | _ => none

/-- `callback(code, state)`, from the response of the token endpoint. -/
def OidcOptions.callback (options : OidcOptions) (lower : String → String)
    (jwtVerify : JwtVerify) (discovery : Discovery) (response : JsonResponse Json)
    (state : OidcState) : Except OAuthError OidcClaims := do
  let tokens ← response.read "OIDC token exchange"
  let token ← idToken tokens
  match jwtVerify token discovery.issuer options.clientId with
  | none => throw .platform
  | some payload =>
      if payload.get? "nonce" ≠ some (.str state.nonce) then
        throw (.message "OIDC nonce mismatch")
      else
        verifiedIdentityClaims lower payload discovery.issuer options.allowedEmailDomain

/-! ### What a client accepts -/

section Accepted

variable {lower : String → String} {jwtVerify : JwtVerify} {options : OidcOptions}
  {discovery : Discovery} {response : JsonResponse Json} {state : OidcState}
  {payload : Json} {claims : OidcClaims}

/-- The claims of an identity: a subject, and a verified address of the domain. -/
structure Verified (lower : String → String) (payload : Json) (issuer domain : String)
    (claims : OidcClaims) : Prop where
  issuer_eq : claims.issuer = issuer
  subject : payload.get? "sub" = some (.str claims.subject)
  subject_ne : trim claims.subject ≠ ""
  email_verified : payload.get? "email_verified" = some (.bool true)
  domain : endsWith (lower claims.email) ("@" ++ lower domain)

theorem verified_of_ok {issuer domain : String}
    (h : verifiedIdentityClaims lower payload issuer domain = .ok claims) :
    Verified lower payload issuer domain claims := by
  unfold verifiedIdentityClaims at h
  split at h
  · rename_i subject hsubject
    split at h
    · cases h
    · rename_i hblank
      split at h
      · cases h
      · rename_i hverified
        split at h
        · cases h
        · rename_i hdomain
          cases h
          exact ⟨rfl, hsubject, hblank, not_not.mp hverified, not_not.mp hdomain⟩
  · cases h

/-- A callback that returns has an accepted token with the nonce of its state. -/
theorem callback_ok (h : options.callback lower jwtVerify discovery response state = .ok claims) :
    ∃ payload, options.acceptedPayload jwtVerify discovery response = some payload ∧
      payload.get? "nonce" = some (.str state.nonce) ∧
      Verified lower payload discovery.issuer options.allowedEmailDomain claims := by
  obtain ⟨tokens, hread, h⟩ := except_bind_eq_ok.mp h
  obtain ⟨token, htoken, h⟩ := except_bind_eq_ok.mp h
  have hbody : response = .body tokens := by
    cases response with
    | failed => cases hread
    | refused status => cases hread
    | unreadable => cases hread
    | body value =>
        cases hread
        rfl
  cases hverify : jwtVerify token discovery.issuer options.clientId with
  | none =>
      rw [hverify] at h
      cases h
  | some payload =>
      rw [hverify] at h
      dsimp only at h
      split at h
      · cases h
      · rename_i hnonce
        refine ⟨payload, ?_, not_not.mp hnonce, verified_of_ok h⟩
        rw [hbody]
        show (idToken tokens).toOption.bind _ = _
        rw [htoken]
        exact hverify

/-- A document that is accepted names the configured issuer. -/
theorem discover_issuer {parseUrl : String → Option HttpUrl}
    (h : options.discover parseUrl response = .ok discovery) :
    discovery.issuer = options.discoveryIssuer := by
  unfold OidcOptions.discover at h
  obtain ⟨document, -, h⟩ := except_bind_eq_ok.mp h
  unfold validatedDiscovery at h
  split at h
  · cases h
  · split at h
    · cases h
    · obtain ⟨_, -, h⟩ := except_bind_eq_ok.mp h
      obtain ⟨_, -, h⟩ := except_bind_eq_ok.mp h
      obtain ⟨_, -, h⟩ := except_bind_eq_ok.mp h
      cases h
      rfl

end Accepted

end RecruitingOs
