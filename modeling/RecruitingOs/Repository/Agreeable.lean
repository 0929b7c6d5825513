import RecruitingOs.Repository.Image

/-!
# Calls on which the stores agree

`Update.Agreeable` and `Query.Agreeable` are conditions on a call and on the SQLite tables it
finds.  Each clause names one difference between the stores that it keeps away from:

* a text with a U+0000, a timestamp that `timestamptz` does not accept, an empty tenant, an
  attempt count beyond 32 bits: refused by Postgres only;
* a claim or an opportunity of another tenant, a claim of an organization that is not there,
  an override by somebody who is not a user: refused by Postgres only;
* an optional text that is empty, which SQLite reads back as `undefined`, and an opportunity
  without a resolver version, where the defaults differ;
* claim values that are one `jsonb` value and two texts;
* a batch that is refused after its first row outside a transaction, where SQLite keeps the
  first rows;
* for the lists: texts that are sorted otherwise than the instants, or the names, they stand
  for, and dated beside undated opportunities.
-/

namespace RecruitingOs.Repository

open Relational

/-- A timestamp, if there is one, is accepted. -/
def Server.AcceptsAll (server : Server) (texts : List (Option String)) : Prop :=
  ∀ text, some text ∈ texts → server.accepts text

/-- A claim that both stores keep. -/
def Claim.Agreeable (server : Server) (tenantId : String) (s : Tables String) (claim : Claim) :
    Prop :=
  claim.tenantId.getD tenantId = tenantId ∧ s.hasOrganization tenantId claim.organizationId ∧
    server.AcceptsAll [claim.publishedAt, some claim.extractedAt] ∧ NoEmptyText [claim.evidence]

/-- The databases agree whether two values are the same. -/
def ValuesAgree (a b : Json) : Prop := postgresSameValue a b = sqliteSameValue a b

/-- The databases agree which claims are the same, among those that are put and those that
are there. -/
def ClaimsAgree (claims : List Claim) (s : Tables String) : Prop :=
  (∀ claim ∈ claims, ∀ old ∈ s.claims, old.sourceVersionId = claim.sourceItemId →
    old.field = claim.field → ValuesAgree claim.value old.value) ∧
  ∀ claim ∈ claims, ∀ other ∈ claims, other.sourceItemId = claim.sourceItemId →
    other.field = claim.field → ValuesAgree claim.value other.value

/-- An opportunity that both stores keep. -/
def Opportunity.Agreeable (server : Server) (tenantId : String) (opportunity : Opportunity) :
    Prop :=
  opportunity.tenantId.getD tenantId = tenantId ∧ opportunity.resolverVersion.isSome ∧
    server.AcceptsAll [opportunity.deadlineAt, opportunity.startsAt, some opportunity.resolvedAt] ∧
    NoEmptyText [opportunity.url, opportunity.role]

/-- A batch that is not cut short: every statement is admitted, or the first is refused. -/
def AllOrNothing {γ : Type} (f : γ → Tables String → Option (Tables String)) (batch : List γ)
    (s : Tables String) : Prop :=
  AllAdmitted f batch s ∨ ∀ first ∈ batch.head?, f first s = none

/-- The condition on a call that writes. -/
def Update.Agreeable (options : Options) (server : Server) (inTransaction : Bool)
    (s : Tables String) (call : Update) : Prop :=
  let tenantId := call.tenant options.defaultTenantId
  PostgresStore.missingActor call ∨
  (∀ text ∈ tenantId :: call.texts, hasNul text = false) ∧
  match call with
  | .upsertOrganization o _ =>
      tenantId ≠ "" ∧
      NoEmptyText [o.heelLifeUrl, o.websiteUrl, o.instagramHandle, o.linkedinUrl]
  | .stageSource source _ =>
      tenantId ≠ "" ∧ server.AcceptsAll [source.publishedAt, some source.fetchedAt] ∧
      NoEmptyText [source.externalId, source.url, source.title] ∧
      -- the hash of the version collides with no other
      ∀ v ∈ s.versions, v.id = versionId options.digest options.sha256 tenantId source →
        v.sourceId = sourceId options.digest tenantId source ∧
          v.contentHash = contentHash options.sha256 source
  | .markSourceProcessing id _ => ∀ v ∈ s.versions, v.id = id → v.attemptCount + 1 < 2 ^ 31
  | .markSourceSucceeded _ _ => True
  | .markSourceFailed _ failure _ => server.AcceptsAll [failure.nextAttemptAt]
  | .putClaims claims _ =>
      (claims ≠ [] → tenantId ≠ "") ∧ (∀ claim ∈ claims, claim.Agreeable server tenantId s) ∧
      ClaimsAgree claims s ∧
      (inTransaction ∨ AllOrNothing (Store.putClaim tenantId) claims s)
  | .replaceOpportunities organizationId opportunities _ =>
      (opportunities ≠ [] → tenantId ≠ "") ∧
      (∀ opportunity ∈ opportunities, opportunity.Agreeable server tenantId) ∧
      (inTransaction ∨ ∀ t, s.deleteOpportunities tenantId organizationId = some t →
        AllAdmitted (Store.putOpportunity tenantId) opportunities t ∨
          t = s ∧ ∀ first ∈ opportunities.head?, Store.putOpportunity tenantId first t = none)
  | .putOpportunityOverride override _ =>
      tenantId ≠ "" ∧ server.accepts override.createdAt ∧
      ∀ actor, override.actorId = some actor → actor ∈ s.users
  | .setConnectorState _ _ cursor _ _ _ => tenantId ≠ "" ∧ NoEmptyText [cursor]

/-- Texts of timestamps are sorted like the instants. -/
def Server.SortsAlike (server : Server) (texts : List String) : Prop :=
  ∀ a ∈ texts, ∀ b ∈ texts, a ≤ b → server.micros a ≤ server.micros b

/-- The condition on a call that reads. -/
def Query.Agreeable (options : Options) (server : Server) (s : Tables String) (call : Query) :
    Prop :=
  let tenantId := call.tenant options.defaultTenantId
  (∀ text ∈ tenantId :: call.texts, hasNul text = false) ∧
  match call with
  | .getOrganization _ _ | .getConnectorState _ _ _ => True
  | .listOrganizations _ =>
      ∀ a ∈ s.organizations, ∀ b ∈ s.organizations, a.tenantId = tenantId →
        b.tenantId = tenantId → a.name ≤ b.name → server.collate a.name ≤ server.collate b.name
  | .getSource id _ =>
      let rows := Store.sourceRows s tenantId id
      server.SortsAlike (rows.map fun row => row.1.fetchedAt) ∧
      -- the newest version is unique
      ∀ a ∈ rows, ∀ b ∈ rows, server.micros a.1.fetchedAt = server.micros b.1.fetchedAt → a = b
  | .listClaims organizationId _ =>
      server.SortsAlike ((s.claims.filter fun row => row.tenantId = tenantId ∧
        row.organizationId = organizationId).map fun row => row.publishedAt.getD row.extractedAt)
  | .listOpportunities organizationId _ =>
      let rows := s.opportunities.filter fun row => row.tenantId = tenantId ∧
        (organizationId.filter (· ≠ "")).all fun id => row.organizationId = id
      server.SortsAlike (rows.filterMap fun row => row.deadlineAt.or row.startsAt) ∧
      ((∀ row ∈ rows, (row.deadlineAt.or row.startsAt).isSome) ∨
        ∀ row ∈ rows, (row.deadlineAt.or row.startsAt) = none)
  | .listOpportunityOverrides organizationId _ =>
      server.SortsAlike ((s.overrides.filter fun row => row.tenantId = tenantId ∧
        row.organizationId = organizationId ∧ row.revokedAt.isNone).map OverrideRow.createdAt)

end RecruitingOs.Repository
