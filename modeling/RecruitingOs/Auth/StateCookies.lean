import RecruitingOs.Auth.ProviderOAuth

/-!
# State cookies

Between the redirect to an identity provider and its callback, the state of an authorization is
kept in a signed cookie of the browser: `setSignedCookie` of `src/http/request-context.ts`, and the
schemas that read it back in `src/http/routes/auth.ts` and `src/http/routes/connectors.ts`.

Both flows sign with one secret.  What one of them has signed the other does not accept
(`oidcState_provider`, `providerState_oidc`).

`@fastify/cookie` is not part of the repository: `CookieSigner` has what the routes call.
-/

namespace RecruitingOs

/-- `sign` and `unsignCookie`; a cookie that is not valid has no value. -/
structure CookieSigner where
  sign : String → String
  unsign : String → Option String
  unsign_sign : ∀ value, unsign (sign value) = some value
  sign_ne : ∀ value, sign value ≠ ""

/-- A field that is `z.string().min(1)`. -/
def nonEmptyField (value : Json) (key : String) : Option String :=
  match value.get? key with
  | some (.str text) => if text = "" then none else some text
  | _ => none

/-- A field that is `z.string().startsWith('/')`. -/
def pathField (value : Json) (key : String) : Option String :=
  match value.get? key with
  | some (.str text) => if text.toList.head? = some '/' then some text else none
  | _ => none

/-- `z.enum(['gmail', 'groupme', 'instagram', 'linkedin'])`. -/
def OAuthProvider.ofText (text : String) : Option OAuthProvider :=
  [OAuthProvider.gmail, .groupme, .instagram, .linkedin].find? fun provider =>
    provider.text = text

theorem OAuthProvider.ofText_text (provider : OAuthProvider) :
    OAuthProvider.ofText provider.text = some provider := by
  cases provider <;> decide

namespace OidcState

def toJson (state : OidcState) : Json :=
  .obj
    [("state", .str state.state), ("nonce", .str state.nonce), ("verifier", .str state.verifier),
      ("returnTo", .str state.returnTo)]

/-- `oidcStateSchema`. -/
def ofJson (value : Json) : Option OidcState := do
  let state ← nonEmptyField value "state"
  let nonce ← nonEmptyField value "nonce"
  let verifier ← nonEmptyField value "verifier"
  let returnTo ← pathField value "returnTo"
  return { state, nonce, verifier, returnTo }

/-- `oidcStateSchema.parse(JSON.parse(text))`. -/
def ofText (text : String) : Option OidcState := (Json.parse text).bind ofJson

/-- The states that an authorization makes. -/
structure WellFormed (state : OidcState) : Prop where
  state_ne : state.state ≠ ""
  nonce_ne : state.nonce ≠ ""
  verifier_ne : state.verifier ≠ ""
  returnTo : state.returnTo.toList.head? = some '/'

end OidcState

namespace ProviderOAuthState

def toJson (state : ProviderOAuthState) : Json :=
  .obj
    [("provider", .str state.provider.text), ("state", .str state.state),
      ("verifier", .str state.verifier), ("userId", .str state.userId),
      ("tenantId", .str state.tenantId), ("returnTo", .str state.returnTo)]

/-- `providerStateSchema`. -/
def ofJson (value : Json) : Option ProviderOAuthState := do
  let provider ← (nonEmptyField value "provider").bind OAuthProvider.ofText
  let state ← nonEmptyField value "state"
  let verifier ← nonEmptyField value "verifier"
  let userId ← nonEmptyField value "userId"
  let tenantId ← nonEmptyField value "tenantId"
  let returnTo ← pathField value "returnTo"
  return { provider, state, verifier, userId, tenantId, returnTo }

/-- `providerStateSchema.parse(JSON.parse(text))`. -/
def ofText (text : String) : Option ProviderOAuthState := (Json.parse text).bind ofJson

/-- The states that an authorization makes. -/
structure WellFormed (state : ProviderOAuthState) : Prop where
  state_ne : state.state ≠ ""
  verifier_ne : state.verifier ≠ ""
  userId_ne : state.userId ≠ ""
  tenantId_ne : state.tenantId ≠ ""
  returnTo : state.returnTo.toList.head? = some '/'

end ProviderOAuthState

/-! ### Round trips -/

theorem nonEmptyField_of_get? {value : Json} {key text : String}
    (h : value.get? key = some (.str text)) (hne : text ≠ "") :
    nonEmptyField value key = some text := by
  unfold nonEmptyField
  rw [h]
  exact if_neg hne

theorem pathField_of_get? {value : Json} {key text : String}
    (h : value.get? key = some (.str text)) (hslash : text.toList.head? = some '/') :
    pathField value key = some text := by
  unfold pathField
  rw [h]
  exact if_pos hslash

theorem get?_of_nonEmptyField {value : Json} {key text : String}
    (h : nonEmptyField value key = some text) : value.get? key = some (.str text) := by
  unfold nonEmptyField at h
  split at h
  · rename_i found hfound
    split at h
    · cases h
    · cases h
      exact hfound
  · cases h

theorem get?_of_pathField {value : Json} {key text : String}
    (h : pathField value key = some text) : value.get? key = some (.str text) := by
  unfold pathField at h
  split at h
  · rename_i found hfound
    split at h
    · cases h
      exact hfound
    · cases h
  · cases h

namespace OidcState

variable {state other : OidcState}

theorem parse_stringify_toJson (state : OidcState) :
    Json.parse state.toJson.stringify = some state.toJson :=
  Json.parse_stringify rfl

/-- The state of a cookie is the one that was signed. -/
theorem ofText_stringify (h : state.WellFormed) : ofText state.toJson.stringify = some state := by
  unfold ofText
  rw [parse_stringify_toJson, Option.bind_some, ofJson,
    nonEmptyField_of_get? (show state.toJson.get? "state" = _ from rfl) h.state_ne,
    nonEmptyField_of_get? (show state.toJson.get? "nonce" = _ from rfl) h.nonce_ne,
    nonEmptyField_of_get? (show state.toJson.get? "verifier" = _ from rfl) h.verifier_ne,
    pathField_of_get? (show state.toJson.get? "returnTo" = _ from rfl) h.returnTo]
  rfl

/-- Whatever a cookie of a sign-in is read as, it is the state that was signed. -/
theorem eq_of_ofText (h : ofText state.toJson.stringify = some other) : other = state := by
  unfold ofText at h
  rw [parse_stringify_toJson, Option.bind_some, ofJson] at h
  simp only [Option.bind_eq_bind, Option.bind_eq_some_iff] at h
  obtain ⟨text, htext, nonce, hnonce, verifier, hverifier, returnTo, hreturnTo, h⟩ := h
  cases h
  cases get?_of_nonEmptyField htext
  cases get?_of_nonEmptyField hnonce
  cases get?_of_nonEmptyField hverifier
  cases get?_of_pathField hreturnTo
  rfl

end OidcState

namespace ProviderOAuthState

variable {state other : ProviderOAuthState}

theorem parse_stringify_toJson (state : ProviderOAuthState) :
    Json.parse state.toJson.stringify = some state.toJson :=
  Json.parse_stringify rfl

/-- The state of a cookie is the one that was signed. -/
theorem ofText_stringify (h : state.WellFormed) : ofText state.toJson.stringify = some state := by
  unfold ofText
  have hprovider : nonEmptyField state.toJson "provider" = some state.provider.text :=
    nonEmptyField_of_get? rfl (by cases state.provider <;> decide)
  rw [parse_stringify_toJson, Option.bind_some, ofJson, hprovider, Option.bind_some,
    OAuthProvider.ofText_text,
    nonEmptyField_of_get? (show state.toJson.get? "state" = _ from rfl) h.state_ne,
    nonEmptyField_of_get? (show state.toJson.get? "verifier" = _ from rfl) h.verifier_ne,
    nonEmptyField_of_get? (show state.toJson.get? "userId" = _ from rfl) h.userId_ne,
    nonEmptyField_of_get? (show state.toJson.get? "tenantId" = _ from rfl) h.tenantId_ne,
    pathField_of_get? (show state.toJson.get? "returnTo" = _ from rfl) h.returnTo]
  rfl

/-- Whatever a cookie of a connection is read as, it is the state that was signed. -/
theorem eq_of_ofText (h : ofText state.toJson.stringify = some other) : other = state := by
  unfold ofText at h
  rw [parse_stringify_toJson, Option.bind_some, ofJson] at h
  simp only [Option.bind_eq_bind, Option.bind_eq_some_iff] at h
  obtain ⟨provider, ⟨name, hname, hprovider⟩, text, htext, verifier, hverifier, userId, huser,
    tenantId, htenant, returnTo, hreturnTo, h⟩ := h
  cases h
  cases get?_of_nonEmptyField hname
  cases get?_of_nonEmptyField htext
  cases get?_of_nonEmptyField hverifier
  cases get?_of_nonEmptyField huser
  cases get?_of_nonEmptyField htenant
  cases get?_of_pathField hreturnTo
  rw [OAuthProvider.ofText_text] at hprovider
  cases hprovider
  rfl

end ProviderOAuthState

/-! ### One secret, two flows -/

/-- A cookie of a connection is no cookie of a sign-in: it has no nonce. -/
theorem oidcState_provider (state : ProviderOAuthState) :
    OidcState.ofText state.toJson.stringify = none := by
  unfold OidcState.ofText
  rw [ProviderOAuthState.parse_stringify_toJson, Option.bind_some, OidcState.ofJson]
  cases nonEmptyField state.toJson "state" with
  | none => rfl
  | some text => rfl

/-- A cookie of a sign-in is no cookie of a connection: it names no provider. -/
theorem providerState_oidc (state : OidcState) :
    ProviderOAuthState.ofText state.toJson.stringify = none := by
  unfold ProviderOAuthState.ofText
  rw [OidcState.parse_stringify_toJson, Option.bind_some, ProviderOAuthState.ofJson]
  rfl

end RecruitingOs
