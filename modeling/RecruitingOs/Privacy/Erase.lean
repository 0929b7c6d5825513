import RecruitingOs.Lib.Like
import RecruitingOs.Store.Schema

/-!
# Erasing an account

`eraseAccount` of `sqlite-privacy-repository.ts` and of `postgres-privacy-repository.ts`,
statement by statement; it is one transaction, so an error leaves the database as it
was.  The two differ in how they find orphaned versions, in the `like` and in the JSON
access of their database, and in what their schemas say about actors: `actor_id` of
`opportunity_overrides` is `not null` in `src/store.ts`, while the migrated schema lets
it be null and refers to `users` from it and from `audit_events`.

Each statement is a function on its table, and the database is put together at the end
of the transaction, with the effects of the foreign keys.
-/

namespace RecruitingOs

/-- `PRIVATE_SOURCE_TYPES`. -/
def SourceType.isPrivate : SourceType → Bool
  | .gmail | .groupme | .screenshot => true
  | _ => false

/-- A version that the user has contributed, with the type of its source. -/
structure ContributedVersion where
  id : String
  organizationId : String
  sourceType : SourceType
deriving Repr, DecidableEq

/-- `AccountErasureResult`. -/
structure AccountErasureResult where
  membershipDeleted : Bool
  identityDeleted : Bool
  credentialsDeleted : ℕ
  sessionsDeleted : ℕ
  jobsDeleted : ℕ
  connectorStatesDeleted : ℕ
  contributionsRemoved : ℕ
  privateSourceVersionsDeleted : ℕ
  claimsDeleted : ℕ
  affectedOrganizationIds : List String
  reconciliationJobIds : List String
deriving Repr, DecidableEq

/-- `emptyErasure()`. -/
def emptyErasure : AccountErasureResult := ⟨false, false, 0, 0, 0, 0, 0, 0, 0, [], []⟩

/-- `JSON.stringify(result)`. -/
def AccountErasureResult.toJson (r : AccountErasureResult) : Json :=
  let count (n : ℕ) : Json := .num (Nat.repr n)
  .obj
    [("membershipDeleted", .bool r.membershipDeleted), ("identityDeleted", .bool r.identityDeleted),
      ("credentialsDeleted", count r.credentialsDeleted),
      ("sessionsDeleted", count r.sessionsDeleted), ("jobsDeleted", count r.jobsDeleted),
      ("connectorStatesDeleted", count r.connectorStatesDeleted),
      ("contributionsRemoved", count r.contributionsRemoved),
      ("privateSourceVersionsDeleted", count r.privateSourceVersionsDeleted),
      ("claimsDeleted", count r.claimsDeleted),
      ("affectedOrganizationIds", .arr (r.affectedOrganizationIds.map .str)),
      ("reconciliationJobIds", .arr (r.reconciliationJobIds.map .str))]

namespace Dialect

/-- The rules of `like` in the database. -/
def likeRules : Dialect → Like.Rules
  | .sqlite => Like.sqlite
  | .postgres => Like.postgres

/-- `payload.userId === userId`, and `payload->>'userId'=$2`, where no user id is the
text of an array or of an object. -/
def isUsersPayload (dialect : Dialect) (userId : String) (payload : Json) : Bool :=
  match dialect with
  | .sqlite => payload.get? "userId" = some (.str userId)
  | .postgres =>
      match payload.get? "userId" with
      | some (.str text) | some (.num text) => text = userId
      | some (.bool b) => (if b then "true" else "false") = userId
      | _ => false

end Dialect

namespace Database

/-! ### The statements -/

/-- The versions that the user has contributed, one row for each link. -/
def contributed (db : Database) (tenantId userId : String) : List ContributedVersion :=
  (db.contributors.filter fun link => link.tenantId = tenantId ∧ link.userId = userId).flatMap
    fun link =>
      (db.sourceVersions.filter fun v =>
          v.id = link.sourceVersionId ∧ v.tenantId = link.tenantId).flatMap fun v =>
        (db.sources.filter fun s => s.id = v.sourceId ∧ s.tenantId = v.tenantId).map fun s =>
          ⟨v.id, v.organizationId, s.sourceType⟩

/-- `delete from source_version_contributors where tenant_id=? and user_id=?`. -/
def withoutLinks (links : List ContributorRow) (tenantId userId : String) : List ContributorRow :=
  links.filter fun link => ¬ (link.tenantId = tenantId ∧ link.userId = userId)

/-- `select 1 from source_version_contributors where tenant_id=? and source_version_id=?`. -/
def hasContributor (links : List ContributorRow) (tenantId versionId : String) : Bool :=
  links.any fun link => link.tenantId = tenantId ∧ link.sourceVersionId = versionId

/-- The private versions among `contributed` that nobody contributes any more, with
their organizations. -/
def orphaned (dialect : Dialect) (versions : List SourceVersionRow) (links : List ContributorRow)
    (tenantId : String) (contributed : List ContributedVersion) : List (String × String) :=
  match dialect with
  | .sqlite =>
      (contributed.eraseDups.filter fun row =>
        row.sourceType.isPrivate ∧ ¬ hasContributor links tenantId row.id).map fun row =>
          (row.id, row.organizationId)
  | .postgres =>
      let candidateIds :=
        (contributed.filter fun row => row.sourceType.isPrivate).map ContributedVersion.id
      (versions.filter fun v =>
        v.tenantId = tenantId ∧ v.id ∈ candidateIds ∧ ¬ hasContributor links tenantId v.id).map
          fun v => (v.id, v.organizationId)

/-- `delete from claims where tenant_id=? and source_version_id …`. -/
def withoutClaims (claims : List Claim) (tenantId : String) (versionIds : List String) :
    List Claim :=
  claims.filter fun claim => ¬ (claim.tenantId = tenantId ∧ claim.sourceItemId ∈ versionIds)

/-- `delete from source_versions where tenant_id=? and id …`. -/
def withoutVersions (versions : List SourceVersionRow) (tenantId : String)
    (versionIds : List String) : List SourceVersionRow :=
  versions.filter fun v => ¬ (v.tenantId = tenantId ∧ v.id ∈ versionIds)

/-- The version is one of those that `withoutVersions` deletes. -/
def versionGone (versions : List SourceVersionRow) (tenantId : String) (versionIds : List String)
    (id : String) : Bool :=
  versions.any fun v => v.id = id ∧ v.tenantId = tenantId ∧ v.id ∈ versionIds

/-- `delete from sources where tenant_id=? and not exists(…)`. -/
def withoutEmptySources (sources : List SourceRow) (versions : List SourceVersionRow)
    (tenantId : String) : List SourceRow :=
  sources.filter fun s => ¬ (s.tenantId = tenantId ∧ ¬ versions.any fun v => v.sourceId = s.id)

/-- The jobs of the user; in SQLite the loop reads the payload of every job of the tenant. -/
def withoutJobs (dialect : Dialect) (jobs : List JobRow) (tenantId userId : String) :
    Except StoreError (List JobRow) :=
  if dialect = .sqlite ∧ ∃ job ∈ jobs, job.tenantId = tenantId ∧ job.payload = .null then
    .error .nullPayload
  else .ok (jobs.filter fun job =>
    ¬ (job.tenantId = tenantId ∧ dialect.isUsersPayload userId job.payload))

/-- `scope=? or scope like ?`. -/
def isUsersScope (dialect : Dialect) (userId scope : String) : Bool :=
  scope = userId ∨ Like.like dialect.likeRules (userId ++ ":%") scope

/-- `delete from connector_state where tenant_id=? and (…)`. -/
def withoutCursors (dialect : Dialect) (rows : List ConnectorStateRow) (tenantId userId : String) :
    List ConnectorStateRow :=
  rows.filter fun row => ¬ (row.tenantId = tenantId ∧ isUsersScope dialect userId row.scope)

/-- An audit event, or an override, without its actor. -/
def anonymousEvent (event : AuditEventRow) : AuditEventRow := { event with actorId := none }

def anonymousOverride (row : OverrideRow) : OverrideRow :=
  { row with override := { row.override with actorId := none } }

/-- The override names the user as its actor. -/
def isUsersOverride (tenantId userId : String) (row : OverrideRow) : Bool :=
  row.override.tenantId = tenantId ∧ row.override.actorId = some userId

/-- `update opportunity_overrides set actor_id=null …`. -/
def anonymizeOverrides (dialect : Dialect) (rows : List OverrideRow) (tenantId userId : String) :
    Except StoreError (List OverrideRow) :=
  if dialect = .sqlite ∧ ∃ row ∈ rows, isUsersOverride tenantId userId row then
    .error (.notNull "opportunity_overrides.actor_id")
  else .ok (Table.updateWhere (isUsersOverride tenantId userId) anonymousOverride rows)

/-! ### The inserts -/

/-- `insert into jobs`. -/
def insertJob (jobs : List JobRow) (row : JobRow) : Except StoreError (List JobRow) :=
  match Table.insert JobRow.id jobs row, Table.insert JobRow.key jobs row with
  | none, _ => .error (.unique "jobs.id")
  | some _, none => .error (.unique "jobs.tenant_id, jobs.type, jobs.idempotency_key")
  | some out, some _ => .ok out

def insertJobs : List JobRow → List JobRow → Except StoreError (List JobRow)
  | jobs, [] => .ok jobs
  | jobs, row :: rest => do
      let jobs ← insertJob jobs row
      insertJobs jobs rest

/-- The key of the reconciliation of an organization. -/
def reconcileKey (userId operationId organizationId : String) : String :=
  "privacy:" ++ userId ++ ":" ++ operationId ++ ":" ++ organizationId

/-- The job that reconciles an organization. -/
def reconcileJob (digest : String → String) (tenantId userId operationId : String) (now : ℤ)
    (organizationId : String) : JobRow where
  id := jobId digest tenantId "privacy.reconcile" (reconcileKey userId operationId organizationId)
  tenantId := tenantId
  type := "privacy.reconcile"
  idempotencyKey := reconcileKey userId operationId organizationId
  payload := .obj [("organizationId", .str organizationId)]
  status := .queued
  priority := 10
  attemptCount := 0
  maxAttempts := 5
  availableAt := now
  leasedUntil := none
  leasedBy := none
  lastError := none
  createdAt := now
  updatedAt := now

/-- The id of the audit event of an erasure. -/
def eraseAuditId (digest : String → String) (tenantId userId operationId : String) : String :=
  stableId digest "aud" (tenantId ++ ":privacy.erase:" ++ userId ++ ":" ++ operationId)

/-- The audit event of an erasure. -/
def eraseAudit (digest : String → String) (tenantId userId operationId : String)
    (result : AccountErasureResult) : AuditEventRow where
  id := eraseAuditId digest tenantId userId operationId
  tenantId := tenantId
  actorId := none
  action := "privacy.erase"
  resourceType := "account"
  resourceId := none
  requestId := some operationId
  metadata := result.toJson

/-- `insert into audit_events`. -/
def insertAudit (events : List AuditEventRow) (event : AuditEventRow) :
    Except StoreError (List AuditEventRow) :=
  match Table.insert AuditEventRow.id events event with
  | none => .error (.unique "audit_events.id")
  | some events => .ok events

/-! ### The transaction -/

/-- The orphans of an erasure: the links are gone when it looks for them. -/
def orphans (dialect : Dialect) (db : Database) (tenantId userId : String) :
    List (String × String) :=
  orphaned dialect db.sourceVersions (withoutLinks db.contributors tenantId userId) tenantId
    (db.contributed tenantId userId)

/-- `eraseAccount(tenantId, userId, operationId)`. -/
def eraseAccount (dialect : Dialect) (digest : String → String) (db : Database)
    (tenantId userId operationId : String) (now : ℤ) :
    Except StoreError (Database × AccountErasureResult) :=
  if ¬ db.isMember tenantId userId then .ok (db, emptyErasure)
  else do
    let orphans := db.orphans dialect tenantId userId
    let versionIds := orphans.map Prod.fst
    let gone := versionGone db.sourceVersions tenantId versionIds
    let links := withoutLinks db.contributors tenantId userId
    let claims := withoutClaims db.claims tenantId versionIds
    let versions := withoutVersions db.sourceVersions tenantId versionIds
    let sources := withoutEmptySources db.sources versions tenantId
    let credentials := db.credentials.filter fun row =>
      ¬ (row.tenantId = tenantId ∧ row.userId = userId)
    let sessions := db.sessions.filter fun row => ¬ (row.tenantId = tenantId ∧ row.userId = userId)
    let jobs ← withoutJobs dialect db.queue.jobs tenantId userId
    let cursors := withoutCursors dialect db.connectorState tenantId userId
    let events := Table.updateWhere
      (fun event => event.tenantId = tenantId ∧ event.actorId = some userId) anonymousEvent
      db.auditEvents
    let overrides ← anonymizeOverrides dialect db.overrides tenantId userId
    let memberships := db.memberships.filter fun m =>
      ¬ (m.tenantId = tenantId ∧ m.userId = userId)
    let identityStays := memberships.any fun m => m.userId = userId
    let users := db.users.filter fun user => identityStays ∨ user.id ≠ userId
    let organizationIds := (orphans.map Prod.snd).eraseDups
    let reconciliation := organizationIds.map (reconcileJob digest tenantId userId operationId now)
    let allJobs ← insertJobs jobs reconciliation
    let result : AccountErasureResult :=
      { membershipDeleted := db.memberships.length - memberships.length = 1
        identityDeleted := db.users.length - users.length = 1
        credentialsDeleted := db.credentials.length - credentials.length
        sessionsDeleted := db.sessions.length - sessions.length
        jobsDeleted := db.queue.jobs.length - jobs.length
        connectorStatesDeleted := db.connectorState.length - cursors.length
        contributionsRemoved := db.contributors.length - links.length
        privateSourceVersionsDeleted := db.sourceVersions.length - versions.length
        claimsDeleted := db.claims.length - claims.length
        affectedOrganizationIds := organizationIds
        reconciliationJobIds := reconciliation.map JobRow.id }
    let foreignActor := dialect = .postgres ∧ ¬ identityStays
    let audited ← insertAudit
      (Table.updateWhere (fun event => foreignActor ∧ event.actorId = some userId) anonymousEvent
        events)
      (eraseAudit digest tenantId userId operationId result)
    -- with what the foreign keys delete or set to null along with versions, the
    -- membership and the identity
    return ({
      users := users
      memberships := memberships
      organizations := db.organizations
      sources := sources
      sourceVersions := versions
      contributors := links.filter fun link => ¬ gone link.sourceVersionId
      claims := claims.filter fun claim => ¬ gone claim.sourceItemId
      opportunities := db.opportunities
      overrides := Table.updateWhere
        (fun row => foreignActor ∧ row.override.actorId = some userId) anonymousOverride overrides
      connectorState := cursors.filter fun row =>
        ¬ (row.tenantId = tenantId ∧ row.ownerUserId = some userId)
      auditEvents := audited
      sessions := sessions.filter fun row => identityStays ∨ row.userId ≠ userId
      credentials := credentials.filter fun row => identityStays ∨ row.userId ≠ userId
      queue := { db.queue with jobs := allJobs } }, result)

end Database

namespace SqlitePrivacyRepository

/-- `SqlitePrivacyRepository.eraseAccount`. -/
def eraseAccount := Database.eraseAccount .sqlite

end SqlitePrivacyRepository

namespace PostgresPrivacyRepository

/-- `PostgresPrivacyRepository.eraseAccount`. -/
def eraseAccount := Database.eraseAccount .postgres

end PostgresPrivacyRepository

end RecruitingOs
