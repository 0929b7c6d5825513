import RecruitingOs.Lib.TableRelation
import RecruitingOs.Repository.PostgresStore

/-!
# The Postgres image of a SQLite database

Postgres keeps a timestamp as an instant and a JSON value with its keys in one order:
`image` is a SQLite database with the columns so.  `Corresponds` says that a Postgres database
is the image, and that the SQLite one is `Sound`: the foreign keys hold that only Postgres
declares or that the statements rely on, ids are the hashes they are made of, and no optional
text is empty, which SQLite would read back as `undefined`.

A statement of both stores commutes with the image (`image_upsertOrganization` and so on) and
keeps a database sound.
-/

namespace RecruitingOs.Repository

open Relational

variable {τ τ' : Type}

/-! ### Rows and answers, seen through their columns -/

/-- A version with its columns changed. -/
def VersionRow.map (f : τ → τ') (d : Json → Json) (row : VersionRow τ) : VersionRow τ' where
  id := row.id
  sourceId := row.sourceId
  tenantId := row.tenantId
  organizationId := row.organizationId
  contentHash := row.contentHash
  rawText := row.rawText
  media := d row.media
  publishedAt := row.publishedAt.map f
  fetchedAt := f row.fetchedAt
  metadata := d row.metadata
  status := row.status
  attemptCount := row.attemptCount
  nextAttemptAt := row.nextAttemptAt.map f
  lastError := row.lastError
  startedAt := row.startedAt
  completedAt := row.completedAt

/-- A claim with its columns changed. -/
def ClaimRow.map (f : τ → τ') (d : Json → Json) (row : ClaimRow τ) : ClaimRow τ' where
  id := row.id
  tenantId := row.tenantId
  organizationId := row.organizationId
  sourceVersionId := row.sourceVersionId
  field := row.field
  value := d row.value
  confidence := row.confidence
  publishedAt := row.publishedAt.map f
  extractedAt := f row.extractedAt
  supersedes := row.supersedes
  evidence := row.evidence
  temporalPrecision := row.temporalPrecision

/-- An opportunity with its columns changed. -/
def OpportunityRow.map (f : τ → τ') (row : OpportunityRow τ) : OpportunityRow τ' where
  id := row.id
  tenantId := row.tenantId
  organizationId := row.organizationId
  kind := row.kind
  title := row.title
  deadlineAt := row.deadlineAt.map f
  startsAt := row.startsAt.map f
  url := row.url
  role := row.role
  confidence := row.confidence
  stale := row.stale
  sourceClaimIds := row.sourceClaimIds
  explanation := row.explanation
  resolverVersion := row.resolverVersion
  resolvedAt := f row.resolvedAt
  deadlinePrecision := row.deadlinePrecision
  startsAtPrecision := row.startsAtPrecision

/-- An override with its columns changed. -/
def OverrideRow.map (f : τ → τ') (d : Json → Json) (row : OverrideRow τ) : OverrideRow τ' where
  id := row.id
  tenantId := row.tenantId
  opportunityId := row.opportunityId
  organizationId := row.organizationId
  actorId := row.actorId
  patch := d row.patch
  reason := row.reason
  createdAt := f row.createdAt
  revokedAt := row.revokedAt.map f

/-- A cursor with its JSON column changed. -/
def mapMetadata (d : Json → Json) (row : ConnectorStateRow) : ConnectorStateRow :=
  { row with metadata := d row.metadata }

/-- A source that is returned, with its columns changed. -/
def StoredSource.map (f : τ → τ') (d : Json → Json) (source : StoredSource τ) :
    StoredSource τ' where
  id := source.id
  tenantId := source.tenantId
  organizationId := source.organizationId
  sourceType := source.sourceType
  externalId := source.externalId
  url := source.url
  title := source.title
  rawText := source.rawText
  media := d source.media
  publishedAt := source.publishedAt.map f
  fetchedAt := f source.fetchedAt
  metadata := d source.metadata

/-- All tables with their columns changed. -/
def Tables.map (f : τ → τ') (d : Json → Json) (db : Tables τ) : Tables τ' where
  tenants := db.tenants
  users := db.users
  memberships := db.memberships
  organizations := db.organizations
  sources := db.sources
  versions := db.versions.map (VersionRow.map f d)
  contributors := db.contributors
  claims := db.claims.map (ClaimRow.map f d)
  opportunities := db.opportunities.map (OpportunityRow.map f)
  overrides := db.overrides.map (OverrideRow.map f d)
  connectorState := db.connectorState.map (mapMetadata d)

/-- An answer with its timestamps and JSON values changed. -/
def Answer.map (f : τ → τ') (d : Json → Json) : Answer τ → Answer τ'
  | .failed failure => .failed failure
  | .done => .done
  | .staged result => .staged result
  | .attempt count => .attempt count
  | .organization found => .organization found
  | .organizations listed => .organizations listed
  | .source found => .source (found.map (StoredSource.map f d))
  | .claims listed => .claims (listed.map (ClaimRow.map f d))
  | .opportunities listed => .opportunities (listed.map (OpportunityRow.map f))
  | .overrides listed => .overrides (listed.map (OverrideRow.map f d))
  | .connectorState cursor metadata => .connectorState cursor (d metadata)

/-- **The image.** -/
def image (server : Server) (db : Tables String) : Tables ℤ :=
  db.map server.micros Json.canonical

/-- The instant of a text, as a `Date` has it. -/
def Server.instant (server : Server) (text : String) : ℤ :=
  PostgresStore.toIso (server.micros text)

/-! ### Sound databases -/

/-- No optional text is empty. -/
def NoEmptyText (texts : List (Option String)) : Prop := some "" ∉ texts

@[simp] theorem noEmptyText_nil : NoEmptyText [] := List.not_mem_nil

@[simp] theorem noEmptyText_cons {text : Option String} {texts : List (Option String)} :
    NoEmptyText (text :: texts) ↔ text ≠ some "" ∧ NoEmptyText texts := by
  simp [NoEmptyText, eq_comm]

theorem text_of_ne {text : Option String} (h : text ≠ some "") : Store.text text = text := by
  cases text with
  | none => rfl
  | some text =>
      have hne : text ≠ "" := fun htext => h (congrArg some htext)
      simp [Store.text, hne]

theorem or_ne {a b : Option String} (ha : a ≠ some "") (hb : b ≠ some "") : a.or b ≠ some "" := by
  cases a with
  | none => exact hb
  | some a => exact ha

/-- What holds of a database that the store has written: the foreign keys, the ids, and no
optional text that is empty. -/
structure Sound (digest : String → String) (db : Tables String) : Prop where
  organization_tenant : ∀ o ∈ db.organizations, o.tenantId ∈ db.tenants
  source_organization : ∀ s ∈ db.sources, db.hasOrganization s.tenantId s.organizationId
  source_id : ∀ s ∈ db.sources, s.id = sourceKeyId digest s.key
  source_nodup : (db.sources.map SourceRow.id).Nodup
  version_source : ∀ v ∈ db.versions, ∃ s ∈ db.sources, s.id = v.sourceId ∧ s.tenantId = v.tenantId
  version_id : ∀ v ∈ db.versions,
    v.id = stableId digest "srcv" (v.sourceId ++ ":" ++ v.contentHash)
  contributor_member : ∀ l ∈ db.contributors, db.isMember l.tenantId l.userId
  organization_texts : ∀ o ∈ db.organizations,
    NoEmptyText [o.heelLifeUrl, o.websiteUrl, o.instagramHandle, o.linkedinUrl]
  source_texts : ∀ s ∈ db.sources, NoEmptyText [s.externalId, s.url, s.title]
  version_texts : ∀ v ∈ db.versions, NoEmptyText [v.publishedAt]
  claim_texts : ∀ c ∈ db.claims, NoEmptyText [c.publishedAt, c.evidence]
  opportunity_texts : ∀ o ∈ db.opportunities,
    NoEmptyText [o.deadlineAt, o.startsAt, o.url, o.role]
  override_texts : ∀ o ∈ db.overrides, NoEmptyText [o.actorId]
  cursor_texts : ∀ c ∈ db.connectorState, NoEmptyText [c.cursor]

/-- The database of one tenant without rows is sound. -/
theorem Sound.ofTenant (digest : String → String) (tenantId : String) :
    Sound digest (Tables.ofTenant tenantId) := by
  constructor <;> simp [Tables.ofTenant]

/-- **Correspondence** of the two databases. -/
structure Corresponds (options : Options) (server : Server) (s : Tables String) (p : Tables ℤ) :
    Prop where
  image : p = image server s
  sound : Sound options.digest s

/-! ### Statements commute with the image -/

section Statements

variable {f : τ → τ'} {d : Json → Json} {db : Tables τ}

@[simp] theorem map_hasOrganization (tenantId organizationId : String) :
    (db.map f d).hasOrganization tenantId organizationId =
      db.hasOrganization tenantId organizationId := rfl

@[simp] theorem map_isMember (tenantId userId : String) :
    (db.map f d).isMember tenantId userId = db.isMember tenantId userId := rfl

theorem map_upsertOrganization (row : OrganizationRow) :
    Tables.upsertOrganization row (db.map f d) =
      (Tables.upsertOrganization row db).map (Tables.map f d) := by
  unfold Tables.upsertOrganization
  show (if row.tenantId ∈ db.tenants then _ else _) = _
  split <;> rfl

theorem map_upsertSource (row : SourceRow) :
    Tables.upsertSource row (db.map f d) =
      (Tables.upsertSource row db).map (Tables.map f d) := by
  unfold Tables.upsertSource
  rw [map_hasOrganization]
  show (if db.sources.any _ then _ else if _ then
    (Table.insert SourceRow.id db.sources row).map _ else _) = _
  split
  · rfl
  · split
    · cases Table.insert SourceRow.id db.sources row <;> rfl
    · rfl

theorem map_updateVersion {g : VersionRow τ → VersionRow τ} {g' : VersionRow τ' → VersionRow τ'}
    (tenantId id : String) (hg : ∀ row, g' (row.map f d) = (g row).map f d) :
    Tables.updateVersion tenantId id g' (db.map f d) =
      (Tables.updateVersion tenantId id g db).map (Tables.map f d) := by
  have hversions : Table.updateWhere (Tables.isVersion tenantId id) g'
      (db.versions.map (VersionRow.map f d)) =
        (Table.updateWhere (Tables.isVersion tenantId id) g db.versions).map
          (VersionRow.map f d) :=
    Table.updateWhere_map (fun _ _ => rfl) fun row _ _ => hg row
  simp only [Tables.updateVersion, Tables.map, hversions, Option.map_some]

theorem map_deleteOpportunities (tenantId organizationId : String) :
    Tables.deleteOpportunities tenantId organizationId (db.map f d) =
      (Tables.deleteOpportunities tenantId organizationId db).map (Tables.map f d) := by
  simp only [Tables.deleteOpportunities, Tables.map, List.filter_map, Option.map_some]
  rfl

theorem map_insertOpportunity (row : OpportunityRow τ) :
    Tables.insertOpportunity (row.map f) (db.map f d) =
      (Tables.insertOpportunity row db).map (Tables.map f d) := by
  have hinsert : Table.insert OpportunityRow.key (db.opportunities.map (OpportunityRow.map f))
      (row.map f) =
        (Table.insert OpportunityRow.key db.opportunities row).map
          (List.map (OpportunityRow.map f)) :=
    Table.insert_map fun _ => rfl
  unfold Tables.insertOpportunity
  rw [map_hasOrganization]
  show (if 0 ≤ row.confidence ∧ row.confidence ≤ 1 ∧
      db.hasOrganization row.tenantId row.organizationId then
    (Table.insert OpportunityRow.key (db.opportunities.map (OpportunityRow.map f))
      (row.map f)).map _ else _) = _
  rw [hinsert]
  split
  · cases Table.insert OpportunityRow.key db.opportunities row <;> rfl
  · rfl

theorem map_insertOverride (row : OverrideRow τ) :
    Tables.insertOverride (row.map f d) (db.map f d) =
      (Tables.insertOverride row db).map (Tables.map f d) := by
  have hinsert : Table.insert OverrideRow.id (db.overrides.map (OverrideRow.map f d))
      (row.map f d) =
        (Table.insert OverrideRow.id db.overrides row).map (List.map (OverrideRow.map f d)) :=
    Table.insert_map fun _ => rfl
  unfold Tables.insertOverride
  rw [map_hasOrganization]
  show (if db.hasOrganization row.tenantId row.organizationId then
    (Table.insert OverrideRow.id (db.overrides.map (OverrideRow.map f d))
      (row.map f d)).map _ else _) = _
  rw [hinsert]
  split
  · cases Table.insert OverrideRow.id db.overrides row <;> rfl
  · rfl

theorem map_upsertConnectorState (row : ConnectorStateRow) :
    Tables.upsertConnectorState (mapMetadata d row) (db.map f d) =
      (Tables.upsertConnectorState row db).map (Tables.map f d) := by
  have hrows : Table.upsert ConnectorStateRow.key (fun _ => mapMetadata d row)
      (db.connectorState.map (mapMetadata d)) (mapMetadata d row) =
        (Table.upsert ConnectorStateRow.key (fun _ => row) db.connectorState row).map
          (mapMetadata d) :=
    Table.upsert_map (fun _ => rfl) fun _ _ _ => rfl
  unfold Tables.upsertConnectorState
  simp only [map_isMember]
  show (if row.tenantId ∈ db.tenants ∧
      row.ownerUserId.all fun user => db.isMember row.tenantId user then _ else none) = _
  split
  · simp only [Tables.map, hrows, Option.map_some]
  · rfl

/-- The claims that conflict are the images of those that do, if the two databases agree
whether values are the same. -/
theorem map_upsertClaim {same same' : Json → Json → Bool}
    {references : Tables τ → ClaimRow τ → Bool} {references' : Tables τ' → ClaimRow τ' → Bool}
    {row : ClaimRow τ}
    (hsame : ∀ old ∈ db.claims, old.sourceVersionId = row.sourceVersionId →
      old.field = row.field → same' (d row.value) (d old.value) = same row.value old.value)
    (hreferences : references' (db.map f d) (row.map f d) = references db row) :
    Tables.upsertClaim same' references' (row.map f d) (db.map f d) =
      (Tables.upsertClaim same references row db).map (Tables.map f d) := by
  have hkey : ∀ old ∈ db.claims, Tables.sameClaim same' (row.map f d) (old.map f d) =
      Tables.sameClaim same row old := by
    intro old hold
    unfold Tables.sameClaim
    show decide (row.sourceVersionId = old.sourceVersionId ∧ row.field = old.field ∧
      same' (d row.value) (d old.value) = true) = _
    by_cases hversion : row.sourceVersionId = old.sourceVersionId
    · by_cases hfield : row.field = old.field
      · rw [hsame old hold hversion.symm hfield.symm]
      · simp [hfield]
    · simp [hversion]
  have hany : (db.claims.map (ClaimRow.map f d)).any (Tables.sameClaim same' (row.map f d)) =
      db.claims.any (Tables.sameClaim same row) := by
    rw [List.any_map, Bool.eq_iff_iff, List.any_eq_true, List.any_eq_true]
    refine exists_congr fun old => and_congr_right fun hold => ?_
    rw [Function.comp_apply, hkey old hold]
  have hinsert : Table.insert ClaimRow.id (db.claims.map (ClaimRow.map f d)) (row.map f d) =
      (Table.insert ClaimRow.id db.claims row).map (List.map (ClaimRow.map f d)) :=
    Table.insert_map fun _ => rfl
  unfold Tables.upsertClaim
  rw [hreferences]
  show (if ¬ (0 ≤ row.confidence ∧ row.confidence ≤ 1) then none
    else if (db.claims.map (ClaimRow.map f d)).any _ then _
    else if references db row then
      (Table.insert ClaimRow.id (db.claims.map (ClaimRow.map f d)) (row.map f d)).map _
    else none) = _
  rw [hany, hinsert]
  split
  · rfl
  · split
    · have hclaims : Table.updateWhere (Tables.sameClaim same' (row.map f d))
          (fun old => { old with
            confidence := (row.map f d).confidence
            evidence := (row.map f d).evidence
            extractedAt := (row.map f d).extractedAt }) (db.claims.map (ClaimRow.map f d)) =
          (Table.updateWhere (Tables.sameClaim same row)
            (fun old => { old with
              confidence := row.confidence
              evidence := row.evidence
              extractedAt := row.extractedAt }) db.claims).map (ClaimRow.map f d) :=
        Table.updateWhere_map hkey fun _ _ _ => rfl
      simp only [Tables.map, Option.map_some, hclaims]
    · split
      · cases Table.insert ClaimRow.id db.claims row <;> rfl
      · rfl

end Statements

end RecruitingOs.Repository
