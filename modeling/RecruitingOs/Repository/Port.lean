import RecruitingOs.Repository.Tables

/-!
# The port

`src/application/ports/recruiting-repository.ts`: what its callers pass, the calls, and what
they return.  `transaction` is not a `Call`: it surrounds calls.  An `Answer` has the
timestamps of the store that gives it, text in `src/store.ts` and a `Date` in the Postgres
store.
-/

namespace RecruitingOs.Repository

/-- `Organization`. -/
structure Organization where
  id : String
  tenantId : Option String
  name : String
  school : String
  heelLifeUrl : Option String
  websiteUrl : Option String
  instagramHandle : Option String
  linkedinUrl : Option String
deriving Repr, DecidableEq

/-- `Claim`. -/
structure Claim where
  id : String
  tenantId : Option String
  organizationId : String
  sourceItemId : String
  field : ClaimField
  value : Json
  confidence : ℚ
  publishedAt : Option String
  extractedAt : String
  evidence : Option String
  supersedes : Option (List String)
  temporalPrecision : Option TemporalPrecision
deriving Repr, DecidableEq

/-- `Opportunity`. -/
structure Opportunity where
  id : String
  tenantId : Option String
  organizationId : String
  kind : OpportunityKind
  title : String
  deadlineAt : Option String
  startsAt : Option String
  url : Option String
  role : Option String
  confidence : ℚ
  stale : Bool
  sourceClaimIds : List String
  explanation : String
  resolvedAt : String
  resolverVersion : Option String
  deadlinePrecision : Option TemporalPrecision
  startsAtPrecision : Option TemporalPrecision
deriving Repr, DecidableEq

/-- `OpportunityOverride`; the patch is the object that is stored. -/
structure OpportunityOverride where
  id : String
  tenantId : String
  opportunityId : String
  organizationId : String
  actorId : Option String
  patch : Json
  reason : String
  createdAt : String
deriving Repr, DecidableEq

/-- `ProcessingFailure`. -/
structure ProcessingFailure where
  retryable : Bool
  message : String
  nextAttemptAt : Option String
deriving Repr, DecidableEq

/-- A call that writes, with its optional arguments. -/
inductive Update where
  | upsertOrganization (organization : Organization) (tenantId : Option String)
  | stageSource (source : SourceItem) (tenantId : Option String)
  | markSourceProcessing (versionId : String) (tenantId : Option String)
  | markSourceSucceeded (versionId : String) (tenantId : Option String)
  | markSourceFailed (versionId : String) (failure : ProcessingFailure) (tenantId : Option String)
  | putClaims (claims : List Claim) (tenantId : Option String)
  | replaceOpportunities (organizationId : String) (opportunities : List Opportunity)
      (tenantId : Option String)
  | putOpportunityOverride (override : OpportunityOverride) (tenantId : Option String)
  | setConnectorState (connector scope : String) (cursor : Option String)
      (metadata : Option Json) (tenantId ownerUserId : Option String)
deriving Repr, DecidableEq

/-- A call that reads. -/
inductive Query where
  | getOrganization (id : String) (tenantId : Option String)
  | listOrganizations (tenantId : Option String)
  | getSource (id : String) (tenantId : Option String)
  | listClaims (organizationId : String) (tenantId : Option String)
  | listOpportunities (organizationId tenantId : Option String)
  | listOpportunityOverrides (organizationId : String) (tenantId : Option String)
  | getConnectorState (connector scope : String) (tenantId : Option String)
deriving Repr, DecidableEq

/-- A call. -/
inductive Call where
  | update (call : Update)
  | query (call : Query)
deriving Repr, DecidableEq

/-- What a call throws. -/
inductive Failure where
  /-- The database refused a statement. -/
  | refused
  | thrown (message : String)
deriving Repr, DecidableEq

/-- The source that `getSource` returns. -/
structure StoredSource (τ : Type) where
  id : String
  tenantId : String
  organizationId : String
  sourceType : SourceType
  externalId : Option String
  url : Option String
  title : Option String
  rawText : String
  media : Json
  publishedAt : Option τ
  fetchedAt : τ
  metadata : Json
deriving Repr, DecidableEq

/-- What a call returns; a listed claim, opportunity or override has the fields of its row. -/
inductive Answer (τ : Type) where
  | failed (failure : Failure)
  | done
  | staged (result : StageSourceResult)
  | attempt (count : ℕ)
  | organization (found : Option OrganizationRow)
  | organizations (listed : List OrganizationRow)
  | source (found : Option (StoredSource τ))
  | claims (listed : List (ClaimRow τ))
  | opportunities (listed : List (OpportunityRow τ))
  | overrides (listed : List (OverrideRow τ))
  | connectorState (cursor : Option String) (metadata : Json)
deriving Repr, DecidableEq

/-- The tenant that an update passes to its statements: the argument, or what the record
says, or the default. -/
def Update.tenant (defaultTenantId : String) : Update → String
  | .upsertOrganization organization tenantId =>
      (tenantId.or organization.tenantId).getD defaultTenantId
  | .stageSource source tenantId => (tenantId.or source.tenantId).getD defaultTenantId
  | .putOpportunityOverride override tenantId => tenantId.getD override.tenantId
  | .markSourceProcessing _ tenantId | .markSourceSucceeded _ tenantId
  | .markSourceFailed _ _ tenantId | .putClaims _ tenantId
  | .replaceOpportunities _ _ tenantId | .setConnectorState _ _ _ _ tenantId _ =>
      tenantId.getD defaultTenantId

/-- The tenant that a query passes to its statement. -/
def Query.tenant (defaultTenantId : String) : Query → String
  | .getOrganization _ tenantId | .listOrganizations tenantId | .getSource _ tenantId
  | .listClaims _ tenantId | .listOpportunities _ tenantId
  | .listOpportunityOverrides _ tenantId | .getConnectorState _ _ tenantId =>
      tenantId.getD defaultTenantId

/-! ### What is bound to the columns -/

/-- The row of an organization. -/
def Organization.row (tenantId : String) (organization : Organization) : OrganizationRow where
  tenantId := tenantId
  id := organization.id
  name := organization.name
  school := organization.school
  heelLifeUrl := organization.heelLifeUrl
  websiteUrl := organization.websiteUrl
  instagramHandle := organization.instagramHandle
  linkedinUrl := organization.linkedinUrl

/-- What the columns of a database make of what is bound to them: `time` is `none` where a
timestamp column refuses a text. -/
structure Columns (τ : Type) where
  time : String → Option τ
  doc : Json → Json

namespace Columns

variable {τ : Type} (columns : Columns τ)

/-- A timestamp that may be `null`. -/
def time? : Option String → Option (Option τ)
  | none => some none
  | some text => (columns.time text).map some

/-- The version of an item that is new. -/
def version (digest sha256 : String → String) (tenantId : String) (source : SourceItem) :
    Option (VersionRow τ) := do
  let publishedAt ← columns.time? source.publishedAt
  let fetchedAt ← columns.time source.fetchedAt
  return {
    id := RecruitingOs.versionId digest sha256 tenantId source
    sourceId := RecruitingOs.sourceId digest tenantId source
    tenantId := tenantId
    organizationId := source.organizationId
    contentHash := RecruitingOs.contentHash sha256 source
    rawText := source.rawText
    media := columns.doc (.arr source.media)
    publishedAt := publishedAt
    fetchedAt := fetchedAt
    metadata := columns.doc (source.metadata.getD (.obj []))
    status := .received
    attemptCount := 0
    nextAttemptAt := none
    lastError := none
    startedAt := none
    completedAt := none }

/-- The row of a claim. -/
def claim (tenantId : String) (claim : Claim) : Option (ClaimRow τ) := do
  let publishedAt ← columns.time? claim.publishedAt
  let extractedAt ← columns.time claim.extractedAt
  return {
    id := claim.id
    tenantId := claim.tenantId.getD tenantId
    organizationId := claim.organizationId
    sourceVersionId := claim.sourceItemId
    field := claim.field
    value := columns.doc claim.value
    confidence := claim.confidence
    publishedAt := publishedAt
    extractedAt := extractedAt
    supersedes := claim.supersedes.getD []
    evidence := claim.evidence
    temporalPrecision := claim.temporalPrecision }

/-- The row of an opportunity. -/
def opportunity (resolverVersion tenantId : String) (opportunity : Opportunity) :
    Option (OpportunityRow τ) := do
  let deadlineAt ← columns.time? opportunity.deadlineAt
  let startsAt ← columns.time? opportunity.startsAt
  let resolvedAt ← columns.time opportunity.resolvedAt
  return {
    id := opportunity.id
    tenantId := opportunity.tenantId.getD tenantId
    organizationId := opportunity.organizationId
    kind := opportunity.kind
    title := opportunity.title
    deadlineAt := deadlineAt
    startsAt := startsAt
    url := opportunity.url
    role := opportunity.role
    confidence := opportunity.confidence
    stale := opportunity.stale
    sourceClaimIds := opportunity.sourceClaimIds
    explanation := opportunity.explanation
    resolverVersion := opportunity.resolverVersion.getD resolverVersion
    resolvedAt := resolvedAt
    deadlinePrecision := opportunity.deadlinePrecision
    startsAtPrecision := opportunity.startsAtPrecision }

/-- The row of an override. -/
def override (tenantId : String) (override : OpportunityOverride) : Option (OverrideRow τ) := do
  let createdAt ← columns.time override.createdAt
  return {
    id := override.id
    tenantId := tenantId
    opportunityId := override.opportunityId
    organizationId := override.organizationId
    actorId := override.actorId
    patch := columns.doc override.patch
    reason := override.reason
    createdAt := createdAt
    revokedAt := none }

/-- The row of a cursor. -/
def connectorState (connector scope : String) (cursor : Option String) (metadata : Option Json)
    (tenantId : String) (ownerUserId : Option String) : ConnectorStateRow where
  tenantId := tenantId
  connector := connector
  scope := scope
  cursor := cursor
  metadata := columns.doc (metadata.getD (.obj []))
  ownerUserId := ownerUserId

end Columns

end RecruitingOs.Repository
