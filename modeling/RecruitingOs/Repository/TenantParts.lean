import RecruitingOs.Lib.Parts
import RecruitingOs.Repository.PostgresStore

/-!
# The rows of one tenant

`Tables.part` is what the tables keep for one tenant.  Sources, versions, claims and overrides have
ids that are unique over all tenants: `Tables.Owned owner` says which tenant has which.  A statement
that acts for a tenant, on ids of that tenant, is confined to its part.
-/

namespace RecruitingOs.Repository

open Relational

namespace Tables

variable {τ : Type}

/-- The rows of a tenant; a user may be a member of several. -/
def part (tenantId : String) (db : Tables τ) : Tables τ where
  tenants := Table.rowsOf id tenantId db.tenants
  users := db.users
  memberships := Table.rowsOf MembershipRow.tenantId tenantId db.memberships
  organizations := Table.rowsOf OrganizationRow.tenantId tenantId db.organizations
  sources := Table.rowsOf SourceRow.tenantId tenantId db.sources
  versions := Table.rowsOf VersionRow.tenantId tenantId db.versions
  contributors := Table.rowsOf ContributorRow.tenantId tenantId db.contributors
  claims := Table.rowsOf ClaimRow.tenantId tenantId db.claims
  opportunities := Table.rowsOf OpportunityRow.tenantId tenantId db.opportunities
  overrides := Table.rowsOf OverrideRow.tenantId tenantId db.overrides
  connectorState := Table.rowsOf ConnectorStateRow.tenantId tenantId db.connectorState

/-- Every id is of one tenant. -/
structure Owned (owner : String → String) (db : Tables τ) : Prop where
  sources : ∀ row ∈ db.sources, owner row.id = row.tenantId
  versions : ∀ row ∈ db.versions, owner row.id = row.tenantId
  versionSources : ∀ row ∈ db.versions, owner row.sourceId = row.tenantId
  claims : ∀ row ∈ db.claims, owner row.id = row.tenantId
  claimVersions : ∀ row ∈ db.claims, owner row.sourceVersionId = row.tenantId
  overrides : ∀ row ∈ db.overrides, owner row.id = row.tenantId

variable {owner : String → String} {tenantId : String} {db : Tables τ}

/-! ### What a tenant reads -/

theorem mem_tenants_part : tenantId ∈ (db.part tenantId).tenants ↔ tenantId ∈ db.tenants :=
  Table.mem_rowsOf.trans (and_iff_left rfl)

theorem hasOrganization_part (organizationId : String) :
    (db.part tenantId).hasOrganization tenantId organizationId =
      db.hasOrganization tenantId organizationId :=
  Table.any_rowsOf fun _ _ hkey => congrArg Prod.fst (of_decide_eq_true hkey)

theorem isMember_part (userId : String) :
    (db.part tenantId).isMember tenantId userId = db.isMember tenantId userId :=
  Table.any_rowsOf fun _ _ hkey => (of_decide_eq_true hkey).1

theorem any_source_part (h : db.Owned owner) {id : String} (hid : owner id = tenantId) :
    ((db.part tenantId).sources.any fun row => row.id = id) =
      db.sources.any fun row => row.id = id :=
  Table.any_rowsOf fun row hrow hsame =>
    (h.sources row hrow).symm.trans ((congrArg owner (of_decide_eq_true hsame)).trans hid)

theorem any_version_part (h : db.Owned owner) {id : String} (hid : owner id = tenantId) :
    ((db.part tenantId).versions.any fun row => row.id = id) =
      db.versions.any fun row => row.id = id :=
  Table.any_rowsOf fun row hrow hsame =>
    (h.versions row hrow).symm.trans ((congrArg owner (of_decide_eq_true hsame)).trans hid)

theorem find?_version_part {p : VersionRow τ → Bool}
    (hp : ∀ row, p row → row.tenantId = tenantId) :
    (db.part tenantId).versions.find? p = db.versions.find? p :=
  Table.find?_rowsOf fun row _ hrow => hp row hrow

theorem find?_organization_part {id : String} :
    ((db.part tenantId).organizations.find? fun o => o.key = (tenantId, id)) =
      db.organizations.find? fun o => o.key = (tenantId, id) :=
  Table.find?_rowsOf fun _ _ hkey => congrArg Prod.fst (of_decide_eq_true hkey)

theorem filter_organizations_part :
    ((db.part tenantId).organizations.filter fun o => o.tenantId = tenantId) =
      db.organizations.filter fun o => o.tenantId = tenantId :=
  Table.filter_rowsOf fun _ _ hown => of_decide_eq_true hown

theorem filter_claims_part {organizationId : String} :
    ((db.part tenantId).claims.filter fun row =>
        row.tenantId = tenantId ∧ row.organizationId = organizationId) =
      db.claims.filter fun row => row.tenantId = tenantId ∧ row.organizationId = organizationId :=
  Table.filter_rowsOf fun _ _ hown => (of_decide_eq_true hown).1

theorem filter_opportunities_part {organizationId : Option String} :
    ((db.part tenantId).opportunities.filter fun row =>
        row.tenantId = tenantId ∧ organizationId.all fun id => row.organizationId = id) =
      db.opportunities.filter fun row =>
        row.tenantId = tenantId ∧ organizationId.all fun id => row.organizationId = id :=
  Table.filter_rowsOf fun _ _ hown => (of_decide_eq_true hown).1

theorem filter_overrides_part {organizationId : String} :
    ((db.part tenantId).overrides.filter fun row =>
        row.tenantId = tenantId ∧ row.organizationId = organizationId ∧ row.revokedAt.isNone) =
      db.overrides.filter fun row =>
        row.tenantId = tenantId ∧ row.organizationId = organizationId ∧ row.revokedAt.isNone :=
  Table.filter_rowsOf fun _ _ hown => (of_decide_eq_true hown).1

theorem find?_connectorState_part {connector scope : String} :
    ((db.part tenantId).connectorState.find? fun row => row.key = (tenantId, connector, scope)) =
      db.connectorState.find? fun row => row.key = (tenantId, connector, scope) :=
  Table.find?_rowsOf fun _ _ hkey => congrArg Prod.fst (of_decide_eq_true hkey)

/-! ### What a tenant writes -/

section Statements

variable (τ)

theorem holds_organizations : Holds part (fun db : Tables τ => db.organizations)
    (fun db rows => { db with organizations := rows }) OrganizationRow.tenantId :=
  ⟨fun _ _ => rfl, fun _ _ _ => rfl, fun _ => rfl⟩

theorem holds_sources : Holds part (fun db : Tables τ => db.sources)
    (fun db rows => { db with sources := rows }) SourceRow.tenantId :=
  ⟨fun _ _ => rfl, fun _ _ _ => rfl, fun _ => rfl⟩

theorem holds_versions : Holds part (fun db : Tables τ => db.versions)
    (fun db rows => { db with versions := rows }) VersionRow.tenantId :=
  ⟨fun _ _ => rfl, fun _ _ _ => rfl, fun _ => rfl⟩

theorem holds_contributors : Holds part (fun db : Tables τ => db.contributors)
    (fun db rows => { db with contributors := rows }) ContributorRow.tenantId :=
  ⟨fun _ _ => rfl, fun _ _ _ => rfl, fun _ => rfl⟩

theorem holds_claims : Holds part (fun db : Tables τ => db.claims)
    (fun db rows => { db with claims := rows }) ClaimRow.tenantId :=
  ⟨fun _ _ => rfl, fun _ _ _ => rfl, fun _ => rfl⟩

theorem holds_opportunities : Holds part (fun db : Tables τ => db.opportunities)
    (fun db rows => { db with opportunities := rows }) OpportunityRow.tenantId :=
  ⟨fun _ _ => rfl, fun _ _ _ => rfl, fun _ => rfl⟩

theorem holds_overrides : Holds part (fun db : Tables τ => db.overrides)
    (fun db rows => { db with overrides := rows }) OverrideRow.tenantId :=
  ⟨fun _ _ => rfl, fun _ _ _ => rfl, fun _ => rfl⟩

theorem holds_connectorState : Holds part (fun db : Tables τ => db.connectorState)
    (fun db rows => { db with connectorState := rows }) ConnectorStateRow.tenantId :=
  ⟨fun _ _ => rfl, fun _ _ _ => rfl, fun _ => rfl⟩

theorem holds_tenants : Holds part (fun db : Tables τ => db.tenants)
    (fun db rows => { db with tenants := rows }) id :=
  ⟨fun _ _ => rfl, fun _ _ _ => rfl, fun _ => rfl⟩

variable {τ}

theorem confines_ensureTenant :
    Confines (Owned owner) part tenantId (ensureTenant (τ := τ) tenantId) := by
  have h := Confines.ite (c := fun db => tenantId ∈ db.tenants) (I := Owned owner)
    (fun db _ => mem_tenants_part) Confines.nothing
    ((holds_tenants τ).confines_concat rfl fun db hdb => { hdb with })
  convert h using 2 with db
  unfold ensureTenant
  split
  · rfl
  · rfl

theorem confines_upsertOrganization {row : OrganizationRow} (hrow : row.tenantId = tenantId) :
    Confines (Owned owner) part tenantId (upsertOrganization (τ := τ) row) := by
  subst hrow
  refine Confines.ite (fun _ _ => mem_tenants_part) ?_ Confines.refused
  refine (holds_organizations τ).confines_upsert rfl (fun db _ old _ hkey => ?_)
    fun db hdb => { hdb with }
  have htenant : old.tenantId = row.tenantId := congrArg Prod.fst hkey
  exact ⟨htenant, htenant⟩

theorem confines_upsertSource {row : SourceRow} (hrow : row.tenantId = tenantId)
    (hid : owner row.id = tenantId) :
    Confines (Owned owner) part tenantId (upsertSource (τ := τ) row) := by
  subst hrow
  have hkey : ∀ old : SourceRow, (decide (old.key = row.key) : Bool) →
      old.tenantId = row.tenantId := fun _ hkey => congrArg Prod.fst (of_decide_eq_true hkey)
  refine Confines.ite (fun db _ => ?_) ?_ (Confines.ite (fun db _ => ?_) ?_ Confines.refused)
  · exact Eq.to_iff (congrArg (· = true) (Table.any_rowsOf fun old _ => hkey old))
  · exact (holds_sources τ).confines_updateWhere
      (fun db _ old _ hsame => ⟨hkey old hsame, hkey old hsame⟩)
      fun db hdb => { hdb with sources := Table.forall_updateWhere hdb.sources fun _ => id }
  · exact Eq.to_iff (congrArg (· = true) (hasOrganization_part _))
  · refine (holds_sources τ).confines_insert rfl (fun db hdb old hold hsame => ?_)
      fun db hdb => { hdb with sources := Table.forall_concat hdb.sources hid }
    exact (hdb.sources old hold).symm.trans ((congrArg owner hsame).trans hid)

/-- A version keeps its ids and its tenant. -/
theorem confines_updateVersion {id : String} {f : VersionRow τ → VersionRow τ}
    (hf : ∀ row, (f row).id = row.id ∧ (f row).sourceId = row.sourceId ∧
      (f row).tenantId = row.tenantId) :
    Confines (Owned owner) part tenantId (updateVersion tenantId id f) := by
  refine (holds_versions τ).confines_updateWhere (fun db _ old _ hversion => ?_) fun db hdb =>
    { hdb with
      versions := Table.forall_updateWhere hdb.versions fun row hrow => ?_
      versionSources := Table.forall_updateWhere hdb.versionSources fun row hrow => ?_ }
  · have htenant := (of_decide_eq_true hversion).1
    exact ⟨htenant, (hf old).2.2.trans htenant⟩
  · rw [(hf row).1, (hf row).2.2, hrow]
  · rw [(hf row).2.1, (hf row).2.2, hrow]

theorem confines_upsertClaim {sameValue : Json → Json → Bool}
    {references : Tables τ → ClaimRow τ → Bool} {row : ClaimRow τ}
    (hrow : row.tenantId = tenantId) (hid : owner row.id = tenantId)
    (hversion : owner row.sourceVersionId = tenantId)
    (hreferences : ∀ db : Tables τ, db.Owned owner →
      references (part tenantId db) row = references db row) :
    Confines (Owned owner) part tenantId (upsertClaim sameValue references row) := by
  subst hrow
  have hsame : ∀ db : Tables τ, db.Owned owner → ∀ old ∈ db.claims,
      sameClaim sameValue row old → old.tenantId = row.tenantId := by
    intro db hdb old hold hsame
    have hclaim : row.sourceVersionId = old.sourceVersionId := (of_decide_eq_true hsame).1
    rw [← hdb.claimVersions old hold, ← hclaim, hversion]
  refine Confines.ite (fun _ _ => Iff.rfl) Confines.refused
    (Confines.ite (fun db hdb => ?_) ?_ (Confines.ite (fun db hdb => ?_) ?_ Confines.refused))
  · exact Eq.to_iff (congrArg (· = true) (Table.any_rowsOf (hsame db hdb)))
  · exact (holds_claims τ).confines_updateWhere
      (fun db hdb old hold hold' => ⟨hsame db hdb old hold hold', hsame db hdb old hold hold'⟩)
      fun db hdb =>
        { hdb with
          claims := Table.forall_updateWhere hdb.claims fun _ => id
          claimVersions := Table.forall_updateWhere hdb.claimVersions fun _ => id }
  · exact Eq.to_iff (congrArg (· = true) (hreferences db hdb))
  · refine (holds_claims τ).confines_insert rfl (fun db hdb old hold hkey => ?_) fun db hdb =>
      { hdb with
        claims := Table.forall_concat hdb.claims hid
        claimVersions := Table.forall_concat hdb.claimVersions hversion }
    exact (hdb.claims old hold).symm.trans ((congrArg owner hkey).trans hid)

theorem confines_deleteOpportunities {organizationId : String} :
    Confines (Owned owner) part tenantId
      (deleteOpportunities (τ := τ) tenantId organizationId) := by
  refine (holds_opportunities τ).confines_filter (fun db _ old _ hother => ?_)
    fun db hdb => { hdb with }
  exact decide_eq_true fun hdeleted => hother hdeleted.1

theorem confines_insertOpportunity {row : OpportunityRow τ} (hrow : row.tenantId = tenantId) :
    Confines (Owned owner) part tenantId (insertOpportunity row) := by
  subst hrow
  refine Confines.ite (fun db _ => ?_) ?_ Confines.refused
  · rw [hasOrganization_part]
  · exact (holds_opportunities τ).confines_insert rfl
      (fun db _ old _ hkey => congrArg Prod.fst hkey) fun db hdb => { hdb with }

theorem confines_insertOverride {row : OverrideRow τ} (hrow : row.tenantId = tenantId)
    (hid : owner row.id = tenantId) :
    Confines (Owned owner) part tenantId (insertOverride row) := by
  subst hrow
  refine Confines.ite (fun db _ => ?_) ?_ Confines.refused
  · rw [hasOrganization_part]
  · refine (holds_overrides τ).confines_insert rfl (fun db hdb old hold hkey => ?_)
      fun db hdb => { hdb with overrides := Table.forall_concat hdb.overrides hid }
    exact (hdb.overrides old hold).symm.trans ((congrArg owner hkey).trans hid)

theorem confines_upsertConnectorState {row : ConnectorStateRow} (hrow : row.tenantId = tenantId) :
    Confines (Owned owner) part tenantId (upsertConnectorState (τ := τ) row) := by
  subst hrow
  refine Confines.ite (fun db _ => ?_) ?_ Confines.refused
  · simp only [mem_tenants_part, isMember_part]
  · exact (holds_connectorState τ).confines_upsert rfl
      (fun db _ old _ hkey => ⟨congrArg Prod.fst hkey, rfl⟩) fun db hdb => { hdb with }

end Statements

end Tables

end RecruitingOs.Repository
