import Mathlib.Order.WithBot
import Mathlib.Data.String.Basic
import RecruitingOs.Lib.OrderBy
import RecruitingOs.Lib.Relational
import RecruitingOs.Repository.Port

/-!
# The repository over SQLite

`Store` of `src/store.ts`.  Timestamps are the texts that the callers pass, and a text that is
empty reads as `undefined`.  Only `stageSource` opens a transaction of its own: what
`putClaims` or `replaceOpportunities` has written stays when a later row is refused.

`inTransaction` is `transactionDepth > 0`.  A query is answered with any list that its
`order by` admits; SQLite sorts text byte-wise and `null` first.
-/

namespace RecruitingOs.Repository

open Relational Listing

/-- The hash of `node:crypto`, as hexadecimal digits and their first 24, and the tenant that
both stores are constructed with. -/
structure Options where
  digest : String → String
  sha256 : String → String
  defaultTenantId : String

/-! ### Programs of both stores -/

section Shared

variable {τ : Type}

/-- A program over the tables. -/
abbrev Session (τ α : Type) := Program Failure (Tables τ) α

/-- Execute a statement. -/
def execute (f : Tables τ → Option (Tables τ)) : Session τ Unit := statement .refused f

/-- The end of `stageSource`: queue the version if it has to be processed.  `missing` is what
is thrown where the version is not found. -/
def queueVersion (missing tenantId sourceId versionId : String) :
    Session τ (Answer τ) := do
  match ← read fun db => db.versions.find? (Tables.isVersion tenantId versionId) with
  | none => throw (.thrown missing)
  | some row => do
      let shouldProcess := Database.stageable row.status
      if shouldProcess then
        execute (Tables.updateVersion tenantId versionId fun old =>
          { old with status := .queued, nextAttemptAt := none })
      return .staged {
        sourceId := sourceId
        versionId := versionId
        status := if shouldProcess then .queued else row.status
        shouldProcess := shouldProcess
        unchanged := row.status ≠ .received
        attemptCount := row.attemptCount }

/-- `markSourceProcessing(versionId, tenantId)`; `fits` says which counts the column
`attempt_count` holds. -/
def markProcessing (fits : ℕ → Bool) (versionId tenantId : String) (now : ℤ) :
    Session τ (Answer τ) := do
  let ready (row : VersionRow τ) : Bool :=
    Tables.isVersion tenantId versionId row ∧ Database.processable row.status
  match ← read fun db => db.versions.find? ready with
  | none => throw (.thrown "Source version is not ready for processing")
  | some row => do
      let process (old : VersionRow τ) : VersionRow τ :=
        if Database.processable old.status then
          { old with
            status := .processing
            attemptCount := old.attemptCount + 1
            startedAt := some now
            lastError := none }
        else old
      execute fun db =>
        if fits (row.attemptCount + 1) then db.updateVersion tenantId versionId process else none
      return .attempt (row.attemptCount + 1)

/-- `markSourceSucceeded(versionId, tenantId)`. -/
def markSucceeded (versionId tenantId : String) (now : ℤ) : Session τ (Answer τ) := do
  execute (Tables.updateVersion tenantId versionId fun row =>
    { row with
      status := .succeeded, completedAt := some now, nextAttemptAt := none, lastError := none })
  return .done

/-- `markSourceFailed(versionId, failure, tenantId)`. -/
def markFailed (columns : Columns τ) (versionId : String) (failure : ProcessingFailure)
    (tenantId : String) (now : ℤ) : Session τ (Answer τ) := do
  execute fun db =>
    (columns.time? failure.nextAttemptAt).bind fun nextAttemptAt =>
      db.updateVersion tenantId versionId fun row =>
        { row with
          status := if failure.retryable then .retryableFailed else .terminalFailed
          lastError := some (String.ofList (failure.message.toList.take 500))
          nextAttemptAt := nextAttemptAt
          completedAt := some now }
  return .done

end Shared

namespace Store

/-- A text column keeps the text, and a JSON column the text that `JSON.stringify` wrote. -/
def columns : Columns String := ⟨some, id⟩

/-- `insert or ignore into source_versions`: a conflict of the id or of
`(source_id, content_hash)` is ignored, a missing source is not. -/
def insertVersion (row : VersionRow String) (db : Tables String) : Option (Tables String) :=
  if db.versions.any fun old =>
      old.id = row.id ∨ (old.sourceId = row.sourceId ∧ old.contentHash = row.contentHash) then
    some db
  else if db.sources.any fun s => s.id = row.sourceId then
    some { db with versions := db.versions ++ [row] }
  else none

/-- `insert or ignore into source_version_contributors`. -/
def insertContributor (row : ContributorRow) (db : Tables String) : Option (Tables String) :=
  if row ∈ db.contributors then some db
  else if db.versions.any (fun v => v.id = row.sourceVersionId) ∧
      db.isMember row.tenantId row.userId then
    some { db with contributors := db.contributors ++ [row] }
  else none

/-- `if (source.contributorUserId) …`. -/
def addContributor (tenantId versionId : String) (userId : Option String) :
    Session String Unit := do
  match userId.filter (· ≠ "") with
  | none => return
  | some userId => do
      let membership ← read fun db => db.isMember tenantId userId
      if membership then execute (insertContributor ⟨tenantId, versionId, userId⟩)
      else throw (.thrown "Source contributor is not a tenant member")

/-- `upsertOrganization(organization, tenantId)`. -/
def upsertOrganization (organization : Organization) (tenantId : String) :
    Session String (Answer String) := do
  execute (Tables.ensureTenant tenantId)
  execute (Tables.upsertOrganization (organization.row tenantId))
  return .done

/-- `stageSource(source, tenantId)`, the operation of its transaction. -/
def stageSource (options : Options) (source : SourceItem) (tenantId : String) :
    Session String (Answer String) := do
  let id := versionId options.digest options.sha256 tenantId source
  execute (Tables.upsertSource (Database.sourceRow options.digest tenantId source))
  execute fun db => (columns.version options.digest options.sha256 tenantId source).bind
    fun row => insertVersion row db
  addContributor tenantId id source.contributorUserId
  queueVersion "Cannot read properties of undefined (reading 'status')" tenantId
    (sourceId options.digest tenantId source) id

/-- The foreign key of `claims`. -/
def references (db : Tables String) (row : ClaimRow String) : Bool :=
  db.versions.any fun v => v.id = row.sourceVersionId

/-- The statement of `putClaims` for one claim. -/
def putClaim (tenantId : String) (claim : Claim) (db : Tables String) : Option (Tables String) :=
  (columns.claim tenantId claim).bind fun row =>
    db.upsertClaim sqliteSameValue references row

/-- `putClaims(claims, tenantId)`. -/
def putClaims (claims : List Claim) (tenantId : String) : Session String (Answer String) := do
  claims.forM fun claim => execute (putClaim tenantId claim)
  return .done

/-- The statement of `replaceOpportunities` for one opportunity. -/
def putOpportunity (tenantId : String) (opportunity : Opportunity) (db : Tables String) :
    Option (Tables String) :=
  (columns.opportunity "resolver-v1" tenantId opportunity).bind fun row =>
    db.insertOpportunity row

/-- `replaceOpportunities(organizationId, opportunities, tenantId)`. -/
def replaceOpportunities (organizationId : String) (opportunities : List Opportunity)
    (tenantId : String) : Session String (Answer String) := do
  execute (Tables.deleteOpportunities tenantId organizationId)
  opportunities.forM fun opportunity => execute (putOpportunity tenantId opportunity)
  return .done

/-- `putOpportunityOverride(override, tenantId)`. -/
def putOpportunityOverride (override : OpportunityOverride) (tenantId : String) :
    Session String (Answer String) :=
  if (override.actorId.filter (· ≠ "")).isNone then
    throw (.thrown "Opportunity override actor is required")
  else do
    execute fun db => (columns.override tenantId override).bind fun row => db.insertOverride row
    return .done

/-- `setConnectorState(connector, scope, cursor, metadata, tenantId, ownerUserId)`. -/
def setConnectorState (connector scope : String) (cursor : Option String)
    (metadata : Option Json) (tenantId : String) (ownerUserId : Option String) :
    Session String (Answer String) := do
  execute (Tables.upsertConnectorState
    (columns.connectorState connector scope cursor metadata tenantId ownerUserId))
  return .done

/-- A call that writes. -/
def update (options : Options) (inTransaction : Bool) (now : ℤ) (call : Update) :
    Session String (Answer String) :=
  let tenantId := call.tenant options.defaultTenantId
  match call with
  | .upsertOrganization organization _ => upsertOrganization organization tenantId
  | .stageSource source _ => atomically inTransaction (stageSource options source tenantId)
  | .markSourceProcessing versionId _ => markProcessing (fun _ => true) versionId tenantId now
  | .markSourceSucceeded versionId _ => markSucceeded versionId tenantId now
  | .markSourceFailed versionId failure _ => markFailed columns versionId failure tenantId now
  | .putClaims claims _ => putClaims claims tenantId
  | .replaceOpportunities organizationId opportunities _ =>
      replaceOpportunities organizationId opportunities tenantId
  | .putOpportunityOverride override _ => putOpportunityOverride override tenantId
  | .setConnectorState connector scope cursor metadata _ ownerUserId =>
      setConnectorState connector scope cursor metadata tenantId ownerUserId

/-! ### Queries -/

/-- `row.column ? String(row.column) : undefined`. -/
def text (column : Option String) : Option String := column.filter (· ≠ "")

/-- `mapOrganization(row)`. -/
def mapOrganization (row : OrganizationRow) : OrganizationRow :=
  { row with
    heelLifeUrl := text row.heelLifeUrl
    websiteUrl := text row.websiteUrl
    instagramHandle := text row.instagramHandle
    linkedinUrl := text row.linkedinUrl }

/-- What `getSource` makes of a version and its source. -/
def storedSource (row : VersionRow String × SourceRow) : StoredSource String where
  id := row.1.id
  tenantId := row.1.tenantId
  organizationId := row.1.organizationId
  sourceType := row.2.sourceType
  externalId := text row.2.externalId
  url := text row.2.url
  title := text row.2.title
  rawText := row.1.rawText
  media := row.1.media
  publishedAt := text row.1.publishedAt
  fetchedAt := row.1.fetchedAt
  metadata := row.1.metadata

/-- What `listClaims` makes of a row. -/
def listedClaim (row : ClaimRow String) : ClaimRow String :=
  { row with publishedAt := text row.publishedAt, evidence := text row.evidence }

/-- What `listOpportunities` makes of a row. -/
def listedOpportunity (row : OpportunityRow String) : OpportunityRow String :=
  { row with
    deadlineAt := text row.deadlineAt
    startsAt := text row.startsAt
    url := text row.url
    role := text row.role }

/-- What `listOpportunityOverrides` makes of a row. -/
def listedOverride (row : OverrideRow String) : OverrideRow String :=
  { row with actorId := text row.actorId }

/-- `source_versions v join sources s on s.id=v.source_id where v.tenant_id=? and (v.id=? or
s.id=?)`. -/
def sourceRows (db : Tables String) (tenantId id : String) :
    List (VersionRow String × SourceRow) :=
  (db.versions ×ˢ db.sources).filter fun (v, s) =>
    s.id = v.sourceId ∧ v.tenantId = tenantId ∧ (v.id = id ∨ s.id = id)

/-- `order by coalesce(deadline_at,starts_at)`: `null` comes first. -/
def opportunityKey (row : OpportunityRow String) : WithBot String :=
  row.deadlineAt.or row.startsAt

/-- The answers that a query may give. -/
def Answers (options : Options) (db : Tables String) (call : Query) (answer : Answer String) :
    Prop :=
  let tenantId := call.tenant options.defaultTenantId
  match call with
  | .getOrganization id _ =>
      answer = .organization
        ((db.organizations.find? fun o => o.key = (tenantId, id)).map mapOrganization)
  | .listOrganizations _ => ∃ listed,
      OrderedBy OrganizationRow.name (db.organizations.filter fun o => o.tenantId = tenantId)
        listed ∧ answer = .organizations (listed.map mapOrganization)
  | .getSource id _ => ∃ listed,
      OrderedBy (fun row => OrderDual.toDual row.1.fetchedAt) (sourceRows db tenantId id)
        listed ∧ answer = .source (listed.head?.map storedSource)
  | .listClaims organizationId _ => ∃ listed,
      OrderedBy (fun row : ClaimRow String => row.publishedAt.getD row.extractedAt)
        (db.claims.filter fun row => row.tenantId = tenantId ∧ row.organizationId = organizationId)
        listed ∧ answer = .claims (listed.map listedClaim)
  | .listOpportunities organizationId _ => ∃ listed,
      OrderedBy opportunityKey
        (db.opportunities.filter fun row => row.tenantId = tenantId ∧
          (organizationId.filter (· ≠ "")).all fun id => row.organizationId = id)
        listed ∧ answer = .opportunities (listed.map listedOpportunity)
  | .listOpportunityOverrides organizationId _ => ∃ listed,
      OrderedBy OverrideRow.createdAt
        (db.overrides.filter fun row => row.tenantId = tenantId ∧
          row.organizationId = organizationId ∧ row.revokedAt.isNone)
        listed ∧ answer = .overrides (listed.map listedOverride)
  | .getConnectorState connector scope _ =>
      answer = match db.connectorState.find? fun row => row.key = (tenantId, connector, scope) with
        | none => .connectorState none (.obj [])
        | some row => .connectorState (text row.cursor) row.metadata

end Store

end RecruitingOs.Repository
