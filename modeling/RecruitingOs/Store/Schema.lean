import RecruitingOs.Queue.Model
import RecruitingOs.Store.Claims
import RecruitingOs.Store.Opportunities

/-!
# The database

The tables of `src/store.ts` and of `migrations/`, as far as the modelled functions
use their columns; the two schemas differ in constraints, not in these columns.
Columns that a function only sets to the current time are instants.

A constraint that refuses a statement is a `StoreError`, and the transaction that
executed the statement is rolled back.
-/

namespace RecruitingOs

/-- What a repository call throws. -/
inductive StoreError where
  | foreignKey (table : String)
  | unique (constraint : String)
  | notNull (column : String)
  | notMember
  | notReady
  | notStaged
  /-- A job payload that is `null`. -/
  | nullPayload
  | actorRequired
deriving Repr, DecidableEq

/-- The text of the thrown error. -/
def StoreError.message : StoreError → String
  | .foreignKey _ => "FOREIGN KEY constraint failed"
  | .unique constraint => "UNIQUE constraint failed: " ++ constraint
  | .notNull column => "NOT NULL constraint failed: " ++ column
  | .notMember => "Source contributor is not a tenant member"
  | .notReady => "Source version is not ready for processing"
  | .notStaged => "Cannot read properties of undefined (reading 'status')"
  | .nullPayload => "Cannot read properties of null (reading 'userId')"
  | .actorRequired => "Opportunity override actor is required"

/-- The database that the repository runs on: the schema of `src/store.ts`, or the
migrated one. -/
inductive Dialect where
  | sqlite
  | postgres
deriving Repr, DecidableEq

/-- A row of `users`. -/
structure UserRow where
  id : String
  issuer : String
  subject : String
deriving Repr, DecidableEq

/-- A row of `memberships`. -/
structure MembershipRow where
  tenantId : String
  userId : String
deriving Repr, DecidableEq

/-- A row of `organizations`. -/
structure OrganizationRow where
  tenantId : String
  id : String
deriving Repr, DecidableEq

/-- A row of `sources`. -/
structure SourceRow where
  id : String
  tenantId : String
  organizationId : String
  sourceType : SourceType
  identityKey : String
  externalId : Option String
  url : Option String
  title : Option String
deriving Repr, DecidableEq

/-- `unique(tenant_id,organization_id,source_type,identity_key)`. -/
def SourceRow.key (row : SourceRow) : String × String × SourceType × String :=
  (row.tenantId, row.organizationId, row.sourceType, row.identityKey)

/-- A row of `source_versions`. -/
structure SourceVersionRow where
  id : String
  sourceId : String
  tenantId : String
  organizationId : String
  contentHash : String
  rawText : String
  media : List Json
  publishedAt : Option String
  fetchedAt : String
  metadata : Json
  status : SourceVersionStatus
  attemptCount : ℕ
  nextAttemptAt : Option ℤ
  lastError : Option String
  startedAt : Option ℤ
  completedAt : Option ℤ
deriving Repr, DecidableEq

/-- A row of `source_version_contributors`. -/
structure ContributorRow where
  tenantId : String
  sourceVersionId : String
  userId : String
deriving Repr, DecidableEq

/-- A row of `opportunity_overrides`. -/
structure OverrideRow where
  override : OpportunityOverride
  revoked : Bool
deriving Repr, DecidableEq

/-- A row of `connector_state`. -/
structure ConnectorStateRow where
  tenantId : String
  connector : String
  scope : String
  cursor : Option String
  metadata : Json
  ownerUserId : Option String
deriving Repr, DecidableEq

/-- A row of `audit_events`. -/
structure AuditEventRow where
  id : String
  tenantId : String
  actorId : Option String
  action : String
  resourceType : String
  resourceId : Option String
  requestId : Option String
  metadata : Json
deriving Repr, DecidableEq

/-- A row of `sessions`. -/
structure SessionRow where
  id : String
  tenantId : String
  userId : String
  tokenHash : String
  csrfHash : String
  expiresAt : ℤ
  revokedAt : Option ℤ
deriving Repr, DecidableEq

/-- A row of `credentials`; the encrypted payload is the bytes that are stored. -/
structure CredentialRow where
  id : String
  tenantId : String
  userId : String
  provider : String
  encryptedPayload : List UInt8
  keyVersion : String
  scopes : List String
  expiresAt : Option String
  revokedAt : Option ℤ
deriving Repr, DecidableEq

/-- `unique(tenant_id,user_id,provider)`. -/
def CredentialRow.key (row : CredentialRow) : String × String × String :=
  (row.tenantId, row.userId, row.provider)

/-- All tables. -/
structure Database where
  users : List UserRow
  memberships : List MembershipRow
  organizations : List OrganizationRow
  sources : List SourceRow
  sourceVersions : List SourceVersionRow
  contributors : List ContributorRow
  claims : List Claim
  opportunities : List OpportunityRow
  overrides : List OverrideRow
  connectorState : List ConnectorStateRow
  auditEvents : List AuditEventRow
  sessions : List SessionRow
  credentials : List CredentialRow
  queue : Queue
deriving Repr, DecidableEq

/-- The database after the migrations. -/
def Database.empty : Database where
  users := []
  memberships := []
  organizations := []
  sources := []
  sourceVersions := []
  contributors := []
  claims := []
  opportunities := []
  overrides := []
  connectorState := []
  auditEvents := []
  sessions := []
  credentials := []
  queue := Queue.empty

/-- `select 1 from memberships where tenant_id=? and user_id=?`. -/
def Database.isMember (db : Database) (tenantId userId : String) : Bool :=
  db.memberships.any fun m => m.tenantId = tenantId ∧ m.userId = userId

end RecruitingOs
