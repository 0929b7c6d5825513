import RecruitingOs.Store.ConnectorState
import RecruitingOs.Store.Sources

/-!
# The tables of the two repositories

The tables that `RecruitingRepository` reads and writes, over a type `τ` of what a timestamp
column keeps: the text in `src/store.ts`, an instant in the migrated database.  A JSON column
keeps a `Json`: in SQLite the value whose text `JSON.stringify` wrote, in Postgres the `jsonb`
value, with the keys of every object in one order.

The statements below are those that both stores execute.  `none` is a statement that a
constraint refuses; the constraints in which the two schemas differ are left to the stores.
-/

namespace RecruitingOs.Repository

/-- A row of `organizations`. -/
structure OrganizationRow where
  tenantId : String
  id : String
  name : String
  school : String
  heelLifeUrl : Option String
  websiteUrl : Option String
  instagramHandle : Option String
  linkedinUrl : Option String
deriving Repr, DecidableEq

/-- The primary key. -/
def OrganizationRow.key (row : OrganizationRow) : String × String := (row.tenantId, row.id)

/-- A row of `source_versions`. -/
structure VersionRow (τ : Type) where
  id : String
  sourceId : String
  tenantId : String
  organizationId : String
  contentHash : String
  rawText : String
  media : Json
  publishedAt : Option τ
  fetchedAt : τ
  metadata : Json
  status : SourceVersionStatus
  attemptCount : ℕ
  nextAttemptAt : Option τ
  lastError : Option String
  startedAt : Option ℤ
  completedAt : Option ℤ
deriving Repr, DecidableEq

/-- A row of `claims`. -/
structure ClaimRow (τ : Type) where
  id : String
  tenantId : String
  organizationId : String
  sourceVersionId : String
  field : ClaimField
  value : Json
  confidence : ℚ
  publishedAt : Option τ
  extractedAt : τ
  supersedes : List String
  evidence : Option String
  temporalPrecision : Option TemporalPrecision
deriving Repr, DecidableEq

/-- A row of `opportunities`. -/
structure OpportunityRow (τ : Type) where
  id : String
  tenantId : String
  organizationId : String
  kind : OpportunityKind
  title : String
  deadlineAt : Option τ
  startsAt : Option τ
  url : Option String
  role : Option String
  confidence : ℚ
  stale : Bool
  sourceClaimIds : List String
  explanation : String
  resolverVersion : String
  resolvedAt : τ
  deadlinePrecision : Option TemporalPrecision
  startsAtPrecision : Option TemporalPrecision
deriving Repr, DecidableEq

/-- The primary key. -/
def OpportunityRow.key {τ : Type} (row : OpportunityRow τ) : String × String :=
  (row.tenantId, row.id)

/-- A row of `opportunity_overrides`. -/
structure OverrideRow (τ : Type) where
  id : String
  tenantId : String
  opportunityId : String
  organizationId : String
  actorId : Option String
  patch : Json
  reason : String
  createdAt : τ
  revokedAt : Option τ
deriving Repr, DecidableEq

/-- The tables. -/
structure Tables (τ : Type) where
  tenants : List String
  users : List String
  memberships : List MembershipRow
  organizations : List OrganizationRow
  sources : List SourceRow
  versions : List (VersionRow τ)
  contributors : List ContributorRow
  claims : List (ClaimRow τ)
  opportunities : List (OpportunityRow τ)
  overrides : List (OverrideRow τ)
  connectorState : List ConnectorStateRow
deriving Repr, DecidableEq

namespace Tables

variable {τ : Type}

/-- The database of one tenant without rows. -/
def ofTenant (tenantId : String) : Tables τ :=
  ⟨[tenantId], [], [], [], [], [], [], [], [], [], []⟩

/-- A row of `organizations` with the key. -/
def hasOrganization (db : Tables τ) (tenantId organizationId : String) : Bool :=
  db.organizations.any fun o => o.key = (tenantId, organizationId)

/-- `select 1 from memberships where tenant_id=? and user_id=?`. -/
def isMember (db : Tables τ) (tenantId userId : String) : Bool :=
  db.memberships.any fun m => m.tenantId = tenantId ∧ m.userId = userId

/-- `insert or ignore into tenants`, `insert into tenants … on conflict(id) do nothing`. -/
def ensureTenant (id : String) (db : Tables τ) : Option (Tables τ) :=
  some { db with tenants := if id ∈ db.tenants then db.tenants else db.tenants ++ [id] }

/-- `insert into organizations … on conflict(tenant_id,id) do update`: an address that is
not given is kept. -/
def upsertOrganization (row : OrganizationRow) (db : Tables τ) : Option (Tables τ) :=
  let refresh (old : OrganizationRow) : OrganizationRow :=
    { old with
      name := row.name
      school := row.school
      heelLifeUrl := row.heelLifeUrl.or old.heelLifeUrl
      websiteUrl := row.websiteUrl.or old.websiteUrl
      instagramHandle := row.instagramHandle.or old.instagramHandle
      linkedinUrl := row.linkedinUrl.or old.linkedinUrl }
  if row.tenantId ∈ db.tenants then
    some { db with
      organizations := Table.upsert OrganizationRow.key refresh db.organizations row }
  else none

/-- `insert into sources … on conflict(…) do update`. -/
def upsertSource (row : SourceRow) (db : Tables τ) : Option (Tables τ) :=
  let refresh (old : SourceRow) : SourceRow :=
    { old with externalId := row.externalId, url := row.url, title := row.title }
  if db.sources.any fun old => old.key = row.key then
    some { db with
      sources := Table.updateWhere (fun old => old.key = row.key) refresh db.sources }
  else if db.hasOrganization row.tenantId row.organizationId then
    (Table.insert SourceRow.id db.sources row).map fun sources => { db with sources := sources }
  else none

/-- `where tenant_id=? and id=?`. -/
def isVersion (tenantId id : String) (row : VersionRow τ) : Bool :=
  row.tenantId = tenantId ∧ row.id = id

/-- An `update source_versions … where tenant_id=? and id=?`. -/
def updateVersion (tenantId id : String) (f : VersionRow τ → VersionRow τ) (db : Tables τ) :
    Option (Tables τ) :=
  some { db with versions := Table.updateWhere (isVersion tenantId id) f db.versions }

/-- `unique(source_version_id,field,value)`, over the comparison of the column `value`. -/
def sameClaim (sameValue : Json → Json → Bool) (row old : ClaimRow τ) : Bool :=
  row.sourceVersionId = old.sourceVersionId ∧ row.field = old.field ∧
    sameValue row.value old.value

/-- `insert into claims … on conflict(source_version_id,field,value) do update`; a row that
is new has to meet `references`, the foreign keys. -/
def upsertClaim (sameValue : Json → Json → Bool) (references : Tables τ → ClaimRow τ → Bool)
    (row : ClaimRow τ) (db : Tables τ) : Option (Tables τ) :=
  let refresh (old : ClaimRow τ) : ClaimRow τ :=
    { old with
      confidence := row.confidence, evidence := row.evidence, extractedAt := row.extractedAt }
  if ¬ (0 ≤ row.confidence ∧ row.confidence ≤ 1) then none
  else if db.claims.any (sameClaim sameValue row) then
    some { db with claims := Table.updateWhere (sameClaim sameValue row) refresh db.claims }
  else if references db row then
    (Table.insert ClaimRow.id db.claims row).map fun claims => { db with claims := claims }
  else none

/-- `delete from opportunities where tenant_id=? and organization_id=?`. -/
def deleteOpportunities (tenantId organizationId : String) (db : Tables τ) :
    Option (Tables τ) :=
  some { db with
    opportunities := db.opportunities.filter fun row =>
      ¬ (row.tenantId = tenantId ∧ row.organizationId = organizationId) }

/-- `insert into opportunities`. -/
def insertOpportunity (row : OpportunityRow τ) (db : Tables τ) : Option (Tables τ) :=
  if 0 ≤ row.confidence ∧ row.confidence ≤ 1 ∧
      db.hasOrganization row.tenantId row.organizationId then
    (Table.insert OpportunityRow.key db.opportunities row).map fun opportunities =>
      { db with opportunities := opportunities }
  else none

/-- `insert into opportunity_overrides`. -/
def insertOverride (row : OverrideRow τ) (db : Tables τ) : Option (Tables τ) :=
  if db.hasOrganization row.tenantId row.organizationId then
    (Table.insert OverrideRow.id db.overrides row).map fun overrides =>
      { db with overrides := overrides }
  else none

/-- `insert into connector_state … on conflict(tenant_id,connector,scope) do update`: the
owner of a cursor is a member. -/
def upsertConnectorState (row : ConnectorStateRow) (db : Tables τ) : Option (Tables τ) :=
  if row.tenantId ∈ db.tenants ∧
      row.ownerUserId.all fun user => db.isMember row.tenantId user then
    some { db with
      connectorState := Table.upsert ConnectorStateRow.key (fun _ => row) db.connectorState row }
  else none

end Tables

end RecruitingOs.Repository
