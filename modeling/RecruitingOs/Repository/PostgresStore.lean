import Mathlib.Data.Int.ConditionallyCompleteOrder
import RecruitingOs.Repository.Store

/-!
# The repository over Postgres

`PostgresStore` of `src/infrastructure/database/postgres/postgres-store.ts`, on the tables of
`migrations/`.  A timestamp column keeps microseconds and is read as a `Date`, so an answer has
milliseconds; a JSON column keeps the `jsonb` value.

Every call is one transaction, or part of the one that is open.  Row-level security admits a
row only if it is of the tenant that the call sets, which is not empty; no text may have a
U+0000; and after a refused statement the open transaction refuses every other one.
-/

namespace RecruitingOs.Repository

open Relational Listing

/-- What the server makes of texts: which ones `timestamptz` accepts and the microsecond that
it keeps, and what the collation of the database compares, which tells texts apart. -/
structure Server where
  accepts : String → Bool
  micros : String → ℤ
  accepts_empty : accepts "" = false
  collate : String → List ℕ
  collate_injective : Function.Injective collate

/-- The transaction that a call finds. -/
structure Connection where
  inTransaction : Bool
  aborted : Bool
deriving Repr, DecidableEq

/-! ### What is bound to a call's statements -/

mutual

/-- The texts in a JSON value, its keys among them. -/
def docTexts : Json → List String
  | .str text => [text]
  | .arr items => itemsTexts items
  | .obj fields => fieldsTexts fields
  | .null | .bool _ | .num _ => []

def itemsTexts : List Json → List String
  | [] => []
  | item :: rest => docTexts item ++ itemsTexts rest

def fieldsTexts : List (String × Json) → List String
  | [] => []
  | (key, value) :: rest => key :: docTexts value ++ fieldsTexts rest

end

/-- A text that Postgres refuses. -/
def hasNul (text : String) : Bool := text.toList.any (· = Char.ofNat 0)

/-- The texts of a claim. -/
def Claim.texts (claim : Claim) : List String :=
  [claim.id, claim.organizationId, claim.sourceItemId] ++ claim.tenantId.toList ++
    docTexts claim.value ++ claim.evidence.toList ++ claim.supersedes.getD []

/-- The texts of an opportunity. -/
def Opportunity.texts (opportunity : Opportunity) : List String :=
  [opportunity.id, opportunity.organizationId, opportunity.title, opportunity.explanation] ++
    opportunity.tenantId.toList ++ opportunity.url.toList ++ opportunity.role.toList ++
    opportunity.sourceClaimIds ++ opportunity.resolverVersion.toList

/-- The texts that an update binds, its tenant apart. -/
def Update.texts : Update → List String
  | .upsertOrganization o _ =>
      [o.id, o.name, o.school] ++ o.heelLifeUrl.toList ++ o.websiteUrl.toList ++
        o.instagramHandle.toList ++ o.linkedinUrl.toList
  | .stageSource source _ =>
      [source.organizationId, sourceIdentity source, source.rawText] ++ source.externalId.toList ++
        source.url.toList ++ source.title.toList ++ itemsTexts source.media ++
        docTexts (source.metadata.getD (.obj [])) ++ source.contributorUserId.toList
  | .markSourceProcessing versionId _ | .markSourceSucceeded versionId _ => [versionId]
  | .markSourceFailed versionId failure _ =>
      [versionId, String.ofList (failure.message.toList.take 500)]
  | .putClaims claims _ => claims.flatMap Claim.texts
  | .replaceOpportunities organizationId opportunities _ =>
      organizationId :: opportunities.flatMap Opportunity.texts
  | .putOpportunityOverride override _ =>
      [override.id, override.opportunityId, override.organizationId, override.reason] ++
        override.actorId.toList ++ docTexts override.patch
  | .setConnectorState connector scope cursor metadata _ ownerUserId =>
      [connector, scope] ++ cursor.toList ++ docTexts (metadata.getD (.obj [])) ++
        ownerUserId.toList

/-- The texts that a query binds, its tenant apart. -/
def Query.texts : Query → List String
  | .getOrganization id _ | .getSource id _ => [id]
  | .listOrganizations _ => []
  | .listClaims organizationId _ | .listOpportunityOverrides organizationId _ =>
      [organizationId]
  | .listOpportunities organizationId _ => organizationId.toList
  | .getConnectorState connector scope _ => [connector, scope]

namespace PostgresStore

/-- A `timestamptz` column and a `jsonb` column. -/
def columns (server : Server) : Columns ℤ where
  time text := if server.accepts text then some (server.micros text) else none
  doc := Json.canonical

/-- `tenant_id = app.current_tenant_id()`. -/
def permits (tenantId rowTenantId : String) : Bool := tenantId ≠ "" ∧ rowTenantId = tenantId

/-- A statement that row-level security has to admit. -/
def permitted (tenantId rowTenantId : String) (f : Tables ℤ → Option (Tables ℤ))
    (db : Tables ℤ) : Option (Tables ℤ) :=
  if permits tenantId rowTenantId then f db else none

/-- `withTenant(tenantId, operation)`. -/
def withTenant {α : Type} (connection : Connection) (texts : List String)
    (operation : Session ℤ α) : Session ℤ α :=
  atomically connection.inTransaction
    (if connection.aborted ∨ texts.any hasNul then throw .refused else operation)

/-- `insert into source_versions … on conflict(source_id,content_hash) do nothing`. -/
def insertVersion (row : VersionRow ℤ) (db : Tables ℤ) : Option (Tables ℤ) :=
  if db.versions.any fun old =>
      old.sourceId = row.sourceId ∧ old.contentHash = row.contentHash then some db
  else if (db.sources.any fun s => s.id = row.sourceId) ∧ row.tenantId ∈ db.tenants ∧
      db.hasOrganization row.tenantId row.organizationId then
    (Table.insert VersionRow.id db.versions row).map fun versions =>
      { db with versions := versions }
  else none

/-- `insert into source_version_contributors`, for a member. -/
def insertContributor (row : ContributorRow) (db : Tables ℤ) : Option (Tables ℤ) :=
  if db.versions.any (Tables.isVersion row.tenantId row.sourceVersionId) then
    some { db with contributors := db.contributors ++ [row] }
  else none

/-- `if (source.contributorUserId) …`: a user whose link is there already need not be a
member. -/
def addContributor (tenantId versionId : String) (userId : Option String) : Session ℤ Unit := do
  match userId.filter (· ≠ "") with
  | none => return
  | some userId => do
      let linked ← read fun db => decide (⟨tenantId, versionId, userId⟩ ∈ db.contributors)
      let member ← read fun db => db.isMember tenantId userId
      if member ∧ ¬ linked then
        execute (permitted tenantId tenantId (insertContributor ⟨tenantId, versionId, userId⟩))
      else if ¬ linked then
        throw (.thrown "Source contributor is not a tenant member")

/-- The program of `upsertOrganization(organization, tenantId)`. -/
def upsertOrganization (organization : Organization) (tenantId : String) :
    Session ℤ (Answer ℤ) := do
  execute (Tables.ensureTenant tenantId)
  execute (permitted tenantId tenantId (Tables.upsertOrganization (organization.row tenantId)))
  return .done

/-- The program of `stageSource(source, tenantId)`. -/
def stageSource (options : Options) (server : Server) (source : SourceItem)
    (tenantId : String) : Session ℤ (Answer ℤ) := do
  let id := versionId options.digest options.sha256 tenantId source
  execute (permitted tenantId tenantId
    (Tables.upsertSource (Database.sourceRow options.digest tenantId source)))
  execute (permitted tenantId tenantId fun db =>
    ((columns server).version options.digest options.sha256 tenantId source).bind
      fun row => insertVersion row db)
  addContributor tenantId id source.contributorUserId
  queueVersion "Failed to stage source version" tenantId
    (sourceId options.digest tenantId source) id

/-- The foreign keys of `claims`. -/
def references (db : Tables ℤ) (row : ClaimRow ℤ) : Bool :=
  (db.versions.any fun v => v.id = row.sourceVersionId) ∧ row.tenantId ∈ db.tenants ∧
    db.hasOrganization row.tenantId row.organizationId

/-- The statement of `putClaims` for one claim: `jsonb` values are compared. -/
def putClaim (server : Server) (tenantId : String) (claim : Claim) (db : Tables ℤ) :
    Option (Tables ℤ) :=
  ((columns server).claim tenantId claim).bind fun row =>
    permitted tenantId row.tenantId
      (Tables.upsertClaim (fun a b => a = b) references row) db

/-- The program of `putClaims(claims, tenantId)`. -/
def putClaims (server : Server) (claims : List Claim) (tenantId : String) :
    Session ℤ (Answer ℤ) := do
  claims.forM fun claim => execute (putClaim server tenantId claim)
  return .done

/-- The statement of `replaceOpportunities` for one opportunity. -/
def putOpportunity (server : Server) (tenantId : String) (opportunity : Opportunity)
    (db : Tables ℤ) : Option (Tables ℤ) :=
  ((columns server).opportunity "resolver-v2" tenantId opportunity).bind fun row =>
    permitted tenantId row.tenantId (Tables.insertOpportunity row) db

/-- The program of `replaceOpportunities(organizationId, opportunities, tenantId)`. -/
def replaceOpportunities (server : Server) (organizationId : String)
    (opportunities : List Opportunity) (tenantId : String) : Session ℤ (Answer ℤ) := do
  execute (Tables.deleteOpportunities tenantId organizationId)
  opportunities.forM fun opportunity => execute (putOpportunity server tenantId opportunity)
  return .done

/-- The program of `putOpportunityOverride(override, tenantId)`: an actor is a user, and the
tenant of an override is a tenant. -/
def putOpportunityOverride (server : Server) (override : OpportunityOverride)
    (tenantId : String) : Session ℤ (Answer ℤ) := do
  execute fun db => ((columns server).override tenantId override).bind fun row =>
    permitted tenantId tenantId (fun db =>
      if tenantId ∈ db.tenants ∧ row.actorId.all fun user => user ∈ db.users then
        db.insertOverride row
      else none) db
  return .done

/-- The program of
`setConnectorState(connector, scope, cursor, metadata, tenantId, ownerUserId)`. -/
def setConnectorState (server : Server) (connector scope : String) (cursor : Option String)
    (metadata : Option Json) (tenantId : String) (ownerUserId : Option String) :
    Session ℤ (Answer ℤ) := do
  execute (permitted tenantId tenantId (Tables.upsertConnectorState
    ((columns server).connectorState connector scope cursor metadata tenantId ownerUserId)))
  return .done

/-- What an update executes in its transaction; `attempt_count` is a 32-bit integer. -/
def program (options : Options) (server : Server) (now : ℤ) (call : Update) :
    Session ℤ (Answer ℤ) :=
  let tenantId := call.tenant options.defaultTenantId
  match call with
  | .upsertOrganization organization _ => upsertOrganization organization tenantId
  | .stageSource source _ => stageSource options server source tenantId
  | .markSourceProcessing versionId _ => markProcessing (· < 2 ^ 31) versionId tenantId now
  | .markSourceSucceeded versionId _ => markSucceeded versionId tenantId now
  | .markSourceFailed versionId failure _ =>
      markFailed (columns server) versionId failure tenantId now
  | .putClaims claims _ => putClaims server claims tenantId
  | .replaceOpportunities organizationId opportunities _ =>
      replaceOpportunities server organizationId opportunities tenantId
  | .putOpportunityOverride override _ => putOpportunityOverride server override tenantId
  | .setConnectorState connector scope cursor metadata _ ownerUserId =>
      setConnectorState server connector scope cursor metadata tenantId ownerUserId

/-- `if (!override.actorId) …`, which is checked before the transaction. -/
def missingActor : Update → Bool
  | .putOpportunityOverride override _ => (override.actorId.filter (· ≠ "")).isNone
  | _ => false

/-- A call that writes. -/
def update (options : Options) (server : Server) (connection : Connection) (now : ℤ)
    (call : Update) : Session ℤ (Answer ℤ) :=
  if missingActor call then throw (.thrown "Opportunity override actor is required")
  else withTenant connection (call.tenant options.defaultTenantId :: call.texts)
    (program options server now call)

/-! ### Queries -/

/-- `toISOString()` of what the driver reads: the millisecond. -/
def toIso (micros : ℤ) : ℤ := micros / 1000

/-- What `getSource` makes of a version and its source. -/
def storedSource (row : VersionRow ℤ × SourceRow) : StoredSource ℤ where
  id := row.1.id
  tenantId := row.1.tenantId
  organizationId := row.1.organizationId
  sourceType := row.2.sourceType
  externalId := row.2.externalId
  url := row.2.url
  title := row.2.title
  rawText := row.1.rawText
  media := row.1.media
  publishedAt := row.1.publishedAt.map toIso
  fetchedAt := toIso row.1.fetchedAt
  metadata := row.1.metadata

/-- What `listClaims` makes of a row. -/
def listedClaim (row : ClaimRow ℤ) : ClaimRow ℤ :=
  { row with publishedAt := row.publishedAt.map toIso, extractedAt := toIso row.extractedAt }

/-- What `listOpportunities` makes of a row. -/
def listedOpportunity (row : OpportunityRow ℤ) : OpportunityRow ℤ :=
  { row with
    deadlineAt := row.deadlineAt.map toIso
    startsAt := row.startsAt.map toIso
    resolvedAt := toIso row.resolvedAt }

/-- What `listOpportunityOverrides` makes of a row. -/
def listedOverride (row : OverrideRow ℤ) : OverrideRow ℤ :=
  { row with createdAt := toIso row.createdAt, revokedAt := row.revokedAt.map toIso }

/-- `source_versions v join sources s on s.id=v.source_id where v.tenant_id=$1 and (v.id=$2 or
s.id=$2)`, of the sources that row-level security shows. -/
def sourceRows (db : Tables ℤ) (tenantId id : String) : List (VersionRow ℤ × SourceRow) :=
  (db.versions ×ˢ db.sources).filter fun (v, s) =>
    s.id = v.sourceId ∧ s.tenantId = tenantId ∧ v.tenantId = tenantId ∧ (v.id = id ∨ s.id = id)

/-- `order by coalesce(deadline_at,starts_at)`: `null` comes last. -/
def opportunityKey (row : OpportunityRow ℤ) : WithTop ℤ :=
  row.deadlineAt.or row.startsAt

/-- The answers that a query may give. -/
def Answers (options : Options) (server : Server) (connection : Connection) (db : Tables ℤ)
    (call : Query) (answer : Answer ℤ) : Prop :=
  let tenantId := call.tenant options.defaultTenantId
  if connection.aborted ∨ (tenantId :: call.texts).any hasNul then answer = .failed .refused
  else match call with
  | .getOrganization id _ =>
      answer = .organization (db.organizations.find? fun o => o.key = (tenantId, id))
  | .listOrganizations _ => ∃ listed,
      OrderedBy (fun o => server.collate o.name)
        (db.organizations.filter fun o => o.tenantId = tenantId) listed ∧
        answer = .organizations listed
  | .getSource id _ => ∃ listed,
      OrderedBy (fun row => OrderDual.toDual row.1.fetchedAt) (sourceRows db tenantId id)
        listed ∧ answer = .source (listed.head?.map storedSource)
  | .listClaims organizationId _ => ∃ listed,
      OrderedBy (fun row : ClaimRow ℤ => row.publishedAt.getD row.extractedAt)
        (db.claims.filter fun row => row.tenantId = tenantId ∧ row.organizationId = organizationId)
        listed ∧ answer = .claims (listed.map listedClaim)
  | .listOpportunities organizationId _ => ∃ listed,
      OrderedBy opportunityKey
        (db.opportunities.filter fun row => row.tenantId = tenantId ∧
          (organizationId.filter (· ≠ "")).all fun id => row.organizationId = id)
        listed ∧ answer = .opportunities (listed.map listedOpportunity)
  | .listOpportunityOverrides organizationId _ => ∃ listed,
      OrderedBy OverrideRow.createdAt
        (db.overrides.filter fun row => row.tenantId = tenantId ∧
          row.organizationId = organizationId ∧ row.revokedAt.isNone)
        listed ∧ answer = .overrides (listed.map listedOverride)
  | .getConnectorState connector scope _ =>
      answer = match db.connectorState.find? fun row => row.key = (tenantId, connector, scope) with
        | none => .connectorState none (.obj [])
        | some row => .connectorState row.cursor row.metadata

end PostgresStore

end RecruitingOs.Repository
