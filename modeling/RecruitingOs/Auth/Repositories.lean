import Mathlib.Data.Finset.Dedup
import Mathlib.Data.Finset.Insert
import Mathlib.Data.Finset.Lattice.Basic
import RecruitingOs.Auth.Oidc
import RecruitingOs.Lib.JsonParse
import RecruitingOs.Resolver.Review

/-!
# The auth repositories

`sqlite-auth-repository.ts` and `postgres-auth-repository.ts`, with all the columns that they use.
They execute the same statements, except for the roles of a membership: one writes a column of JSON
texts, the other one of text arrays (`RoleColumn`), and each joins a session with its membership in
its own way.

`AuthTables (Finset Role)` is what both stand for: `AuthTables.map` takes the tables of either to
it, and every call of either to the same call there.
-/

namespace RecruitingOs

/-- A row of `users`. -/
structure IdentityRow where
  id : String
  issuer : String
  subject : String
  email : Option String
  displayName : Option String
deriving Repr, DecidableEq

/-- A row of `memberships`; `R` is what its column of roles holds. -/
structure MemberRow (R : Type) where
  tenantId : String
  userId : String
  roles : R
  organizationIds : List String
deriving Repr, DecidableEq

/-- The tables of the repositories. -/
structure AuthTables (R : Type) where
  users : List IdentityRow
  memberships : List (MemberRow R)
  sessions : List SessionRow
deriving Repr, DecidableEq

def AuthTables.empty {R : Type} : AuthTables R := ⟨[], [], []⟩

/-- The statements on a column of roles: the values of an `insert`, and the `update` of an identity
that is granted `platform_admin`. -/
structure RoleColumn (R : Type) where
  insert : List Role → R
  bootstrap : R → List Role → R

/-- `SessionAuthentication`. -/
structure AuthenticatedSession where
  principal : AuthPrincipal
  sessionId : String
  csrfHash : String
  expiresAt : ℤ
deriving Repr, DecidableEq

/-- An `OidcIdentity`, with the fields that are only stored. -/
structure IdentityInput where
  identity : OidcIdentity
  email : Option String
  displayName : Option String
deriving Repr, DecidableEq

/-! ### The statements -/

namespace AuthTables

variable {R : Type}

/-- `insert into users … on conflict(issuer,subject) do update set email=…,display_name=…`. -/
def upsertUser (tables : AuthTables R) (row : IdentityRow) : Except StoreError (AuthTables R) :=
  let same (old : IdentityRow) : Bool := old.issuer = row.issuer ∧ old.subject = row.subject
  if tables.users.any same then
    .ok { tables with
      users := Table.updateWhere same
        (fun old => { old with email := row.email, displayName := row.displayName }) tables.users }
  else
    match Table.insert IdentityRow.id tables.users row with
    | none => .error (.unique "users.id")
    | some users => .ok { tables with users := users }

/-- The row of a member. -/
def isMember (tenantId userId : String) (row : MemberRow R) : Bool :=
  row.tenantId = tenantId ∧ row.userId = userId

/-- `select … from memberships where tenant_id=? and user_id=?`. -/
def member? (tables : AuthTables R) (tenantId userId : String) : Option (MemberRow R) :=
  tables.memberships.find? (isMember tenantId userId)

/-- `insert into memberships … on conflict(tenant_id,user_id) do nothing`. -/
def addMembership (tables : AuthTables R) (row : MemberRow R) : Except StoreError (AuthTables R) :=
  if (tables.member? row.tenantId row.userId).isSome then .ok tables
  else if ¬ tables.users.any fun user => user.id = row.userId then .error (.foreignKey "memberships")
  else .ok { tables with memberships := tables.memberships ++ [row] }

/-- The `update memberships set roles=…` of `upsertIdentity`. -/
def grantRoles (column : RoleColumn R) (tables : AuthTables R) (tenantId userId : String)
    (defaultRoles : List Role) : AuthTables R :=
  { tables with
    memberships := Table.updateWhere (isMember tenantId userId)
      (fun row => { row with roles := column.bootstrap row.roles defaultRoles })
      tables.memberships }

/-- `upsertIdentity(identity, tenantId, defaultRoles)`: the tables, and the id of the user. -/
def upsertIdentity (column : RoleColumn R) (digest : String → String) (tables : AuthTables R)
    (input : IdentityInput) (tenantId : String) (defaultRoles : List Role) :
    Except StoreError (AuthTables R × String) := do
  let id := userId digest input.identity
  let tables ← tables.upsertUser
    ⟨id, input.identity.issuer, input.identity.subject, input.email, input.displayName⟩
  let tables ← tables.addMembership ⟨tenantId, id, column.insert defaultRoles, []⟩
  if .platformAdmin ∈ defaultRoles then
    return (tables.grantRoles column tenantId id defaultRoles, id)
  else
    return (tables, id)

/-- `createSession(input)`. -/
def createSession (tables : AuthTables R) (row : SessionRow) : Except StoreError (AuthTables R) :=
  if ¬ tables.users.any fun user => user.id = row.userId then .error (.foreignKey "sessions")
  else if tables.sessions.any fun old => old.tokenHash = row.tokenHash then
    .error (.unique "sessions.token_hash")
  else
    match Table.insert SessionRow.id tables.sessions row with
    | none => .error (.unique "sessions.id")
    | some sessions => .ok { tables with sessions := sessions }

/-- `s.token_hash=? and s.revoked_at is null and s.expires_at>?`. -/
def isLive (tokenHash : String) (now : ℤ) (row : SessionRow) : Bool :=
  row.tokenHash = tokenHash ∧ row.revokedAt = none ∧ now < row.expiresAt

/-- `update sessions set revoked_at=? where id=? and tenant_id=?`. -/
def revokeSession (tables : AuthTables R) (sessionId tenantId : String) (now : ℤ) : AuthTables R :=
  { tables with
    sessions := Table.updateWhere (fun row => row.id = sessionId ∧ row.tenantId = tenantId)
      (fun row => { row with revokedAt := some now }) tables.sessions }

/-- What `eraseAccount` does to these tables, with the foreign keys of a deleted user. -/
def eraseAccount (tables : AuthTables R) (tenantId userId : String) : AuthTables R :=
  if ¬ (tables.member? tenantId userId).isSome then tables
  else
    let sessions := tables.sessions.filter fun row =>
      ¬ (row.tenantId = tenantId ∧ row.userId = userId)
    let memberships := tables.memberships.filter fun row => ¬ isMember tenantId userId row
    let identityStays := memberships.any fun row => row.userId = userId
    { users := tables.users.filter fun user => identityStays ∨ user.id ≠ userId
      memberships := memberships
      sessions := sessions.filter fun row => identityStays ∨ row.userId ≠ userId }

/-- `delete from sessions where tenant_id=… and expires_at < now()` of `app.run_maintenance`. -/
def expireSessions (tables : AuthTables R) (tenantId : String) (now : ℤ) : AuthTables R :=
  { tables with
    sessions := tables.sessions.filter fun row => ¬ (row.tenantId = tenantId ∧ row.expiresAt < now) }

/-- The answer for a session and its membership; `read` reads the column of roles. -/
def authenticated (read : R → List Role) (row : SessionRow) (member : MemberRow R) :
    AuthenticatedSession where
  principal := ⟨row.userId, row.tenantId, read member.roles, member.organizationIds⟩
  sessionId := row.id
  csrfHash := row.csrfHash
  expiresAt := row.expiresAt

/-- A session is found first, then its membership. -/
def findSession (read : R → List Role) (tables : AuthTables R) (tokenHash : String) (now : ℤ) :
    Option AuthenticatedSession :=
  (tables.sessions.find? (isLive tokenHash now)).bind fun row =>
    (tables.member? row.tenantId row.userId).map (authenticated read row)

end AuthTables

/-! ### SQLite -/

/-- The text of a role. -/
def Role.text : Role → String
  | .student => "student"
  | .organizationEditor => "organization_editor"
  | .platformAdmin => "platform_admin"

/-- A role of an array of texts. -/
def Role.ofJson : Json → Option Role
  | .str text => [Role.student, .organizationEditor, .platformAdmin].find? fun role =>
      role.text = text
  | _ => none

namespace SqliteAuthRepository

/-- `JSON.stringify(roles)`. -/
def rolesText (roles : List Role) : String := (Json.arr (roles.map fun role => .str role.text)).stringify

/-- `parseJsonSafe<Role[]>(text, [])`. -/
def parseRoles (text : String) : List Role :=
  match Json.parse text with
  | some (.arr items) => items.filterMap Role.ofJson
  | _ => []

/-- `new Set(roles)` after `add('platform_admin')`, in the order of insertion. -/
def withAdmin (roles : List Role) : List Role :=
  if .platformAdmin ∈ roles then roles.eraseDups else roles.eraseDups ++ [.platformAdmin]

/-- The column `roles text`. -/
def column : RoleColumn String where
  insert := rolesText
  bootstrap text _ := rolesText (withAdmin (parseRoles text))

/-- `upsertIdentity(identity, tenantId, defaultRoles)`. -/
def upsertIdentity := AuthTables.upsertIdentity column

/-- `authenticateSession(tokenHash)`: the first row of sessions joined with memberships. -/
def authenticateSession (tables : AuthTables String) (tokenHash : String) (now : ℤ) :
    Option AuthenticatedSession :=
  tables.sessions.findSome? fun row =>
    if AuthTables.isLive tokenHash now row then
      (tables.member? row.tenantId row.userId).map (AuthTables.authenticated parseRoles row)
    else none

end SqliteAuthRepository

/-! ### Postgres -/

/-- `array(select distinct role from unnest(…))`, in an order that the database chooses. -/
structure Distinct where
  order : List Role → List Role
  mem_order : ∀ roles role, role ∈ order roles ↔ role ∈ roles
  nodup : ∀ roles, (order roles).Nodup

namespace PostgresAuthRepository

/-- The column `roles text[]`. -/
def column (distinct : Distinct) : RoleColumn (List Role) where
  insert roles := roles
  bootstrap roles defaultRoles := distinct.order (roles ++ defaultRoles)

/-- `upsertIdentity(identity, tenantId, defaultRoles)`. -/
def upsertIdentity (distinct : Distinct) := AuthTables.upsertIdentity (column distinct)

/-- `authenticateSession(tokenHash)`: `app.authenticate_session`, and then the membership. -/
def authenticateSession := AuthTables.findSession (R := List Role) fun roles => roles

end PostgresAuthRepository

/-! ### What both stand for -/

/-- The column as a set: what an identity is granted is added to it. -/
def roleSets : RoleColumn (Finset Role) where
  insert := List.toFinset
  bootstrap roles defaultRoles := roles ∪ defaultRoles.toFinset

/-- `initialRolesForIdentity(verifiedEmail, initialPlatformAdminEmails)`. -/
def initialRolesForIdentity (lower : String → String) (verifiedEmail : Option String)
    (initialPlatformAdminEmails : List String) : List Role :=
  match verifiedEmail.filter (· ≠ "") with
  | none => [.student]
  | some email =>
      if lower (trim email) ∈ initialPlatformAdminEmails then [.platformAdmin] else [.student]

/-- The roles that the routes pass: those of `initialRolesForIdentity`. -/
def grantable : List (List Role) := [[.student], [.platformAdmin]]

theorem initialRolesForIdentity_grantable {lower : String → String} {email : Option String}
    {admins : List String} : initialRolesForIdentity lower email admins ∈ grantable := by
  unfold initialRolesForIdentity
  split
  · exact List.mem_cons_self
  · split
    · exact List.mem_cons_of_mem _ List.mem_cons_self
    · exact List.mem_cons_self

namespace AuthTables

variable {R S : Type}

/-- The tables with another reading of the column of roles. -/
def map (f : R → S) (tables : AuthTables R) : AuthTables S where
  users := tables.users
  memberships := tables.memberships.map fun row =>
    ⟨row.tenantId, row.userId, f row.roles, row.organizationIds⟩
  sessions := tables.sessions

variable {f : R → S} {tables : AuthTables R}

@[simp] theorem map_users : (tables.map f).users = tables.users := rfl

@[simp] theorem map_sessions : (tables.map f).sessions = tables.sessions := rfl

@[simp] theorem map_empty : (empty : AuthTables R).map f = empty := rfl

theorem member?_map (tenantId userId : String) :
    (tables.map f).member? tenantId userId = (tables.member? tenantId userId).map fun row =>
      ⟨row.tenantId, row.userId, f row.roles, row.organizationIds⟩ := by
  unfold member? map
  rw [List.find?_map]
  rfl

theorem upsertUser_map (row : IdentityRow) :
    (tables.map f).upsertUser row = (tables.upsertUser row).map (map f) := by
  obtain ⟨users, memberships, sessions⟩ := tables
  unfold upsertUser map
  dsimp only
  by_cases hsame : users.any fun old => old.issuer = row.issuer ∧ old.subject = row.subject
  · simp only [hsame, if_true]
    rfl
  · simp only [hsame, Bool.false_eq_true, if_false]
    cases Table.insert IdentityRow.id users row with
    | none => rfl
    | some new => rfl

theorem addMembership_map (row : MemberRow R) :
    (tables.map f).addMembership ⟨row.tenantId, row.userId, f row.roles, row.organizationIds⟩ =
      (tables.addMembership row).map (map f) := by
  unfold addMembership
  rw [member?_map, map_users]
  cases tables.member? row.tenantId row.userId with
  | some old => rfl
  | none =>
      simp only [Option.map_none, Option.isSome_none, Bool.false_eq_true, if_false]
      by_cases huser : tables.users.any fun user => user.id = row.userId
      · simp [huser, Except.map, map]
      · simp [huser, Except.map]

/-- A column is read as another one, for the roles that are granted. -/
structure Reads (f : R → S) (column : RoleColumn R) (column' : RoleColumn S) : Prop where
  insert : ∀ roles ∈ grantable, f (column.insert roles) = column'.insert roles
  bootstrap : ∀ old, ∀ roles ∈ grantable, .platformAdmin ∈ roles →
    f (column.bootstrap old roles) = column'.bootstrap (f old) roles

theorem grantRoles_map {column : RoleColumn R} {column' : RoleColumn S} (h : Reads f column column')
    {tenantId userId : String} {roles : List Role} (hroles : roles ∈ grantable)
    (hadmin : .platformAdmin ∈ roles) :
    (tables.map f).grantRoles column' tenantId userId roles =
      (tables.grantRoles column tenantId userId roles).map f := by
  unfold grantRoles map
  simp only [Table.updateWhere, List.map_map]
  congr 1
  apply List.map_congr_left
  intro row _
  by_cases hrow : row.tenantId = tenantId ∧ row.userId = userId
  · simp [isMember, hrow, h.bootstrap row.roles roles hroles hadmin]
  · simp [isMember, hrow]

theorem upsertIdentity_map {column : RoleColumn R} {column' : RoleColumn S}
    (h : Reads f column column') {digest : String → String} {input : IdentityInput}
    {tenantId : String} {roles : List Role} (hroles : roles ∈ grantable) :
    (tables.map f).upsertIdentity column' digest input tenantId roles =
      (tables.upsertIdentity column digest input tenantId roles).map fun out =>
        (out.1.map f, out.2) := by
  unfold upsertIdentity
  dsimp only
  rw [upsertUser_map]
  cases tables.upsertUser _ with
  | error e => rfl
  | ok between =>
      have hrow := @addMembership_map R S f between
        ⟨tenantId, userId digest input.identity, column.insert roles, []⟩
      dsimp only at hrow
      rw [h.insert roles hroles] at hrow
      show Except.bind ((between.map f).addMembership _) _ =
        (Except.bind (between.addMembership _) _).map _
      rw [hrow]
      cases between.addMembership _ with
      | error e => rfl
      | ok after =>
          by_cases hadmin : .platformAdmin ∈ roles
          · simp [Except.bind, Except.map, hadmin, grantRoles_map h hroles hadmin, pure, Except.pure]
          · simp [Except.bind, Except.map, hadmin, pure, Except.pure]

theorem createSession_map (row : SessionRow) :
    (tables.map f).createSession row = (tables.createSession row).map (map f) := by
  obtain ⟨users, memberships, sessions⟩ := tables
  unfold createSession map
  dsimp only
  by_cases huser : users.any fun user => user.id = row.userId
  · by_cases hhash : sessions.any fun old => old.tokenHash = row.tokenHash
    · simp [huser, hhash, Except.map]
    · simp only [huser, hhash, not_true, Bool.false_eq_true, if_false]
      cases Table.insert SessionRow.id sessions row with
      | none => rfl
      | some new => rfl
  · simp [huser, Except.map]

theorem revokeSession_map (sessionId tenantId : String) (now : ℤ) :
    (tables.map f).revokeSession sessionId tenantId now =
      (tables.revokeSession sessionId tenantId now).map f := rfl

theorem expireSessions_map (tenantId : String) (now : ℤ) :
    (tables.map f).expireSessions tenantId now = (tables.expireSessions tenantId now).map f := rfl

theorem eraseAccount_map (tenantId userId : String) :
    (tables.map f).eraseAccount tenantId userId = (tables.eraseAccount tenantId userId).map f := by
  have hmemberships : (tables.map f).memberships.filter (fun row => ¬ isMember tenantId userId row) =
      (tables.memberships.filter fun row => ¬ isMember tenantId userId row).map fun row =>
        ⟨row.tenantId, row.userId, f row.roles, row.organizationIds⟩ := by
    unfold map
    rw [List.filter_map]
    rfl
  unfold eraseAccount
  rw [member?_map]
  cases tables.member? tenantId userId with
  | none => rfl
  | some row =>
      simp only [Option.map_some, Option.isSome_some, not_true, if_false, hmemberships]
      simp [map, List.any_map, Function.comp_def]

/-- The answer for a session has the roles that are read of its membership. -/
theorem findSession_map {read : S → List Role} (tokenHash : String) (now : ℤ) :
    (tables.map f).findSession read tokenHash now =
      tables.findSession (read ∘ f) tokenHash now := by
  unfold findSession
  rw [map_sessions]
  cases tables.sessions.find? (isLive tokenHash now) with
  | none => rfl
  | some row =>
      rw [Option.bind_some, Option.bind_some, member?_map, Option.map_map]
      rfl

end AuthTables

end RecruitingOs
