import RecruitingOs.Store.Accounts

/-!
# Sessions

`SessionService` of `src/application/auth/session-service.ts` over `SqliteAuthRepository`:
how a cookie becomes an authentication, and how a token is compared with the session's.
`sha256` is the hexadecimal digest of `node:crypto`.
-/

namespace RecruitingOs

/-- The ids of an `AuthPrincipal`: who a request acts for. -/
structure SessionPrincipal where
  userId : String
  tenantId : String
  sessionId : String
deriving Repr, DecidableEq

/-- `SessionAuthentication`. -/
structure SessionAuthentication where
  principal : SessionPrincipal
  csrfHash : String
  expiresAt : ℤ
deriving Repr, DecidableEq

/-- A session that the query of `authenticateSession` finds. -/
def SessionRow.live (db : Database) (now : ℤ) (row : SessionRow) : Bool :=
  row.revokedAt = none ∧ now < row.expiresAt ∧
    db.memberships.any fun m => m.tenantId = row.tenantId ∧ m.userId = row.userId

/-- `authenticateSession(tokenHash)` of `SqliteAuthRepository`. -/
def Database.authenticateSession (db : Database) (tokenHash : String) (now : ℤ) :
    Option SessionAuthentication :=
  (db.sessions.find? fun row => row.tokenHash = tokenHash ∧ row.live db now).map fun row =>
    ⟨⟨row.userId, row.tenantId, row.id⟩, row.csrfHash, row.expiresAt⟩

namespace SessionService

/-- `authenticate(token)`. -/
def authenticate (sha256 : String → String) (db : Database) (now : ℤ) (token : Option String) :
    Option SessionAuthentication :=
  (token.filter (· ≠ "")).bind fun token => db.authenticateSession (sha256 token) now

/-- `verifyCsrf(authentication, provided)`. -/
def verifyCsrf (sha256 : String → String) (authentication : SessionAuthentication)
    (provided : Option String) : Bool :=
  (provided.filter (· ≠ "")).any fun provided => sha256 provided = authentication.csrfHash

variable {sha256 : String → String} {db : Database} {now : ℤ} {token : Option String}
  {authentication : SessionAuthentication}

/-- A request is authenticated by a live session whose token its cookie is. -/
theorem authenticate_eq_some
    (h : authenticate sha256 db now token = some authentication) :
    ∃ presented, token = some presented ∧ ∃ row ∈ db.sessions,
      row.tokenHash = sha256 presented ∧ row.live db now ∧
        authentication = ⟨⟨row.userId, row.tenantId, row.id⟩, row.csrfHash, row.expiresAt⟩ := by
  obtain ⟨presented, hpresented, hfound⟩ := Option.bind_eq_some_iff.mp h
  obtain ⟨row, hrow, rfl⟩ := Option.map_eq_some_iff.mp hfound
  have hmatches : row.tokenHash = sha256 presented ∧ row.live db now := by
    simpa using List.find?_some hrow
  exact ⟨presented, (Option.filter_eq_some_iff.mp hpresented).1, row,
    List.mem_of_find?_eq_some hrow, hmatches.1, hmatches.2, rfl⟩

theorem verifyCsrf_eq_true {provided : Option String} :
    verifyCsrf sha256 authentication provided ↔
      ∃ text, provided = some text ∧ text ≠ "" ∧ sha256 text = authentication.csrfHash := by
  cases provided with
  | none => simp [verifyCsrf]
  | some text =>
      by_cases htext : text = ""
      · simp [verifyCsrf, htext]
      · simp [verifyCsrf, htext]

end SessionService

end RecruitingOs
