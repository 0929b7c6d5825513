import RecruitingOs.Repository.TenantParts

/-!
# The calls of one tenant

`Update.For` is an update that acts for a tenant, on ids of that tenant.  In both stores it is
confined to the rows of the tenant (`Store.confined_update`, `PostgresStore.confined_update`), and
a query is answered from them (`answers_part`).
-/

namespace RecruitingOs.Repository

open Relational

/-- The ids, unique over all tenants, that an update writes or refers to. -/
def Update.ids (options : Options) : Update → List String
  | .stageSource source tenantId =>
      let tenantId := (tenantId.or source.tenantId).getD options.defaultTenantId
      [sourceId options.digest tenantId source,
        versionId options.digest options.sha256 tenantId source]
  | .putClaims claims _ => claims.flatMap fun claim => [claim.id, claim.sourceItemId]
  | .putOpportunityOverride override _ => [override.id]
  | _ => []

/-- The tenants that the rows of an update name themselves. -/
def Update.rowTenants : Update → List String
  | .putClaims claims _ => claims.filterMap Claim.tenantId
  | .replaceOpportunities _ opportunities _ => opportunities.filterMap Opportunity.tenantId
  | _ => []

/-- An update that acts for a tenant, on what is the tenant's. -/
structure Update.For (options : Options) (owner : String → String) (tenantId : String)
    (call : Update) : Prop where
  tenant : call.tenant options.defaultTenantId = tenantId
  ids : ∀ id ∈ call.ids options, owner id = tenantId
  rowTenants : ∀ named ∈ call.rowTenants, named = tenantId

variable {τ : Type} {owner : String → String} {tenantId : String} {options : Options}

/-- A row that names no tenant is of the tenant that the call acts for. -/
theorem getD_tenant {named : Option String} (h : ∀ other, named = some other → other = tenantId) :
    named.getD tenantId = tenantId := by
  cases named with
  | none => rfl
  | some other => exact h other rfl

/-! ### Programs of both stores -/

theorem confined_queueVersion {missing sourceId versionId : String} :
    Confined (Tables.Owned owner) Tables.part tenantId
      (queueVersion (τ := τ) missing tenantId sourceId versionId) := by
  unfold queueVersion
  refine Confined.bind (Confined.read fun db _ => ?_) fun found => ?_
  · exact Tables.find?_version_part fun row hrow => (of_decide_eq_true hrow).1
  · cases found with
    | none => exact Confined.throw _
    | some row =>
        dsimp only
        split
        · refine Confined.bind (Confined.statement ?_) fun _ => Confined.pure _
          exact Tables.confines_updateVersion fun _ => ⟨rfl, rfl, rfl⟩
        · exact Confined.pure _

theorem confined_markProcessing {fits : ℕ → Bool} {versionId : String} {now : ℤ} :
    Confined (Tables.Owned owner) Tables.part tenantId
      (markProcessing (τ := τ) fits versionId tenantId now) := by
  unfold markProcessing
  refine Confined.bind (Confined.read fun db _ => ?_) fun found => ?_
  · exact Tables.find?_version_part fun row hrow =>
      (of_decide_eq_true (of_decide_eq_true hrow).1).1
  · cases found with
    | none => exact Confined.throw _
    | some row =>
        refine Confined.bind (Confined.statement ?_) fun _ => Confined.pure _
        refine Confines.ite (fun _ _ => Iff.rfl) ?_ Confines.refused
        refine Tables.confines_updateVersion fun old => ?_
        split
        · exact ⟨rfl, rfl, rfl⟩
        · exact ⟨rfl, rfl, rfl⟩

theorem confined_markSucceeded {versionId : String} {now : ℤ} :
    Confined (Tables.Owned owner) Tables.part tenantId
      (markSucceeded (τ := τ) versionId tenantId now) := by
  refine Confined.bind (Confined.statement ?_) fun _ => Confined.pure _
  exact Tables.confines_updateVersion fun _ => ⟨rfl, rfl, rfl⟩

theorem confined_markFailed {columns : Columns τ} {versionId : String}
    {failure : ProcessingFailure} {now : ℤ} :
    Confined (Tables.Owned owner) Tables.part tenantId
      (markFailed columns versionId failure tenantId now) := by
  refine Confined.bind (Confined.statement ?_) fun _ => Confined.pure _
  refine Confines.bind fun nextAttemptAt _ => ?_
  exact Tables.confines_updateVersion fun _ => ⟨rfl, rfl, rfl⟩

/-! ### The rows of a call -/

section Rows

variable {columns : Columns τ}

theorem Columns.version_row {source : SourceItem}
    {digest sha256 : String → String} {row : VersionRow τ}
    (hsource : owner (sourceId digest tenantId source) = tenantId)
    (hversion : owner (versionId digest sha256 tenantId source) = tenantId)
    (hrow : columns.version digest sha256 tenantId source = some row) :
    row.tenantId = tenantId ∧ owner row.id = tenantId ∧ owner row.sourceId = tenantId := by
  unfold Columns.version at hrow
  obtain ⟨publishedAt, -, hrow⟩ := Option.bind_eq_some_iff.mp hrow
  obtain ⟨fetchedAt, -, hrow⟩ := Option.bind_eq_some_iff.mp hrow
  cases hrow
  exact ⟨rfl, hversion, hsource⟩

theorem Update.For.claim_row {claims : List Claim} {named : Option String} {claim : Claim}
    {row : ClaimRow τ} (h : (Update.putClaims claims named).For options owner tenantId)
    (hclaim : claim ∈ claims) (hrow : columns.claim tenantId claim = some row) :
    row.tenantId = tenantId ∧ owner row.id = tenantId ∧ owner row.sourceVersionId = tenantId := by
  have hnames : ∀ id ∈ [claim.id, claim.sourceItemId], owner id = tenantId :=
    fun id hid => h.ids id (List.mem_flatMap.mpr ⟨claim, hclaim, hid⟩)
  unfold Columns.claim at hrow
  obtain ⟨publishedAt, -, hrow⟩ := Option.bind_eq_some_iff.mp hrow
  obtain ⟨extractedAt, -, hrow⟩ := Option.bind_eq_some_iff.mp hrow
  cases hrow
  refine ⟨getD_tenant fun other hother => ?_, hnames _ List.mem_cons_self,
    hnames _ (List.mem_cons_of_mem _ List.mem_cons_self)⟩
  exact h.rowTenants other (List.mem_filterMap.mpr ⟨claim, hclaim, hother⟩)

theorem Update.For.opportunity_row {organizationId resolverVersion : String}
    {opportunities : List Opportunity} {named : Option String} {opportunity : Opportunity}
    {row : OpportunityRow τ}
    (h : (Update.replaceOpportunities organizationId opportunities named).For options owner tenantId)
    (hopportunity : opportunity ∈ opportunities)
    (hrow : columns.opportunity resolverVersion tenantId opportunity = some row) :
    row.tenantId = tenantId := by
  unfold Columns.opportunity at hrow
  obtain ⟨deadlineAt, -, hrow⟩ := Option.bind_eq_some_iff.mp hrow
  obtain ⟨startsAt, -, hrow⟩ := Option.bind_eq_some_iff.mp hrow
  obtain ⟨resolvedAt, -, hrow⟩ := Option.bind_eq_some_iff.mp hrow
  cases hrow
  refine getD_tenant fun other hother => ?_
  exact h.rowTenants other (List.mem_filterMap.mpr ⟨opportunity, hopportunity, hother⟩)

theorem Update.For.override_row {override : OpportunityOverride} {named : Option String}
    {row : OverrideRow τ}
    (h : (Update.putOpportunityOverride override named).For options owner tenantId)
    (hrow : columns.override tenantId override = some row) :
    row.tenantId = tenantId ∧ owner row.id = tenantId := by
  unfold Columns.override at hrow
  obtain ⟨createdAt, -, hrow⟩ := Option.bind_eq_some_iff.mp hrow
  cases hrow
  exact ⟨rfl, h.ids _ List.mem_cons_self⟩

end Rows

/-! ### The two stores -/

namespace Store

theorem confines_insertVersion {row : VersionRow String} (hrow : row.tenantId = tenantId)
    (hid : owner row.id = tenantId) (hsource : owner row.sourceId = tenantId) :
    Confines (Tables.Owned owner) Tables.part tenantId (insertVersion row) := by
  subst hrow
  refine Confines.ite (fun db hdb => ?_) Confines.nothing
    (Confines.ite (fun db hdb => ?_) ?_ Confines.refused)
  · refine Eq.to_iff (congrArg (· = true) (Table.any_rowsOf fun old hold hconflict => ?_))
    obtain hsame | ⟨hsame, -⟩ := of_decide_eq_true hconflict
    · exact (hdb.versions old hold).symm.trans ((congrArg owner hsame).trans hid)
    · exact (hdb.versionSources old hold).symm.trans ((congrArg owner hsame).trans hsource)
  · exact Eq.to_iff (congrArg (· = true) (Tables.any_source_part hdb hsource))
  · exact (Tables.holds_versions String).confines_concat rfl fun db hdb =>
      { hdb with
        versions := Table.forall_concat hdb.versions hid
        versionSources := Table.forall_concat hdb.versionSources hsource }

theorem confines_insertContributor {row : ContributorRow} (hrow : row.tenantId = tenantId)
    (hversion : owner row.sourceVersionId = tenantId) :
    Confines (Tables.Owned owner) Tables.part tenantId (insertContributor row) := by
  subst hrow
  refine Confines.ite (fun db _ => Table.mem_rowsOf.trans (and_iff_left rfl)) Confines.nothing
    (Confines.ite (fun db hdb => ?_) ?_ Confines.refused)
  · rw [Tables.any_version_part hdb hversion, Tables.isMember_part]
  · exact (Tables.holds_contributors String).confines_concat rfl fun db hdb => { hdb with }

theorem confined_addContributor {versionId : String} {userId : Option String}
    (hversion : owner versionId = tenantId) :
    Confined (Tables.Owned owner) Tables.part tenantId
      (addContributor tenantId versionId userId) := by
  unfold addContributor
  split
  · exact Confined.pure _
  · refine Confined.bind (Confined.read fun db _ => Tables.isMember_part _) fun membership => ?_
    split
    · exact Confined.statement (confines_insertContributor rfl hversion)
    · exact Confined.throw _

theorem confined_stageSource {source : SourceItem}
    (hsource : owner (sourceId options.digest tenantId source) = tenantId)
    (hversion : owner (versionId options.digest options.sha256 tenantId source) = tenantId) :
    Confined (Tables.Owned owner) Tables.part tenantId (stageSource options source tenantId) := by
  unfold stageSource
  refine Confined.bind (Confined.statement (Tables.confines_upsertSource rfl hsource)) fun _ => ?_
  refine Confined.bind (Confined.statement (Confines.bind fun row hrow => ?_)) fun _ => ?_
  · obtain ⟨htenant, hid, hof⟩ := Columns.version_row hsource hversion hrow
    exact confines_insertVersion htenant hid hof
  · exact Confined.bind (confined_addContributor hversion) fun _ => confined_queueVersion

/-- **A call is confined to its tenant.** -/
theorem confined_update {inTransaction : Bool} {now : ℤ} {call : Update}
    (h : call.For options owner tenantId) :
    Confined (Tables.Owned owner) Tables.part tenantId
      (update options inTransaction now call) := by
  unfold update
  rw [h.tenant]
  cases call with
  | upsertOrganization organization _ =>
      refine Confined.bind (Confined.statement Tables.confines_ensureTenant) fun _ => ?_
      exact Confined.bind (Confined.statement (Tables.confines_upsertOrganization rfl))
        fun _ => Confined.pure _
  | stageSource source named =>
      obtain rfl : (named.or source.tenantId).getD options.defaultTenantId = tenantId := h.tenant
      exact Confined.atomically (confined_stageSource (h.ids _ List.mem_cons_self)
        (h.ids _ (List.mem_cons_of_mem _ List.mem_cons_self)))
  | markSourceProcessing versionId _ => exact confined_markProcessing
  | markSourceSucceeded versionId _ => exact confined_markSucceeded
  | markSourceFailed versionId failure _ => exact confined_markFailed
  | putClaims claims _ =>
      refine Confined.bind (Confined.forM fun claim hclaim => Confined.statement
        (Confines.bind fun row hrow => ?_)) fun _ => Confined.pure _
      obtain ⟨hrowTenant, hid, hversion⟩ := h.claim_row hclaim hrow
      exact Tables.confines_upsertClaim hrowTenant hid hversion
        fun db hdb => Tables.any_version_part hdb hversion
  | replaceOpportunities organizationId opportunities _ =>
      refine Confined.bind (Confined.statement Tables.confines_deleteOpportunities) fun _ => ?_
      refine Confined.bind (Confined.forM fun opportunity hopportunity => Confined.statement
        (Confines.bind fun row hrow => ?_)) fun _ => Confined.pure _
      exact Tables.confines_insertOpportunity (h.opportunity_row hopportunity hrow)
  | putOpportunityOverride override _ =>
      dsimp only
      unfold putOpportunityOverride
      split
      · exact Confined.throw _
      · refine Confined.bind (Confined.statement (Confines.bind fun row hrow => ?_))
          fun _ => Confined.pure _
        obtain ⟨hrowTenant, hid⟩ := h.override_row hrow
        exact Tables.confines_insertOverride hrowTenant hid
  | setConnectorState connector scope cursor metadata _ ownerUserId =>
      exact Confined.bind (Confined.statement (Tables.confines_upsertConnectorState rfl))
        fun _ => Confined.pure _

theorem sourceRows_part {db : Tables String} (h : db.Owned owner) (id : String) :
    sourceRows (db.part tenantId) tenantId id = sourceRows db tenantId id := by
  refine Table.filter_product_rowsOf fun v hv s hs hjoin => ?_
  obtain ⟨hsource, htenant, -⟩ := of_decide_eq_true hjoin
  refine ⟨htenant, ?_⟩
  rw [← h.sources s hs, hsource, h.versionSources v hv, htenant]

/-- **A query sees its tenant only.** -/
theorem answers_part {db : Tables String} (h : db.Owned owner) {call : Query}
    (hcall : call.tenant options.defaultTenantId = tenantId) {answer : Answer String} :
    Answers options (db.part tenantId) call answer ↔ Answers options db call answer := by
  unfold Answers
  rw [hcall]
  cases call with
  | getOrganization id _ =>
      dsimp only
      rw [Tables.find?_organization_part]
  | listOrganizations _ =>
      dsimp only
      rw [Tables.filter_organizations_part]
  | getSource id _ =>
      dsimp only
      rw [sourceRows_part h]
  | listClaims organizationId _ =>
      dsimp only
      rw [Tables.filter_claims_part]
  | listOpportunities organizationId _ =>
      dsimp only
      rw [Tables.filter_opportunities_part]
  | listOpportunityOverrides organizationId _ =>
      dsimp only
      rw [Tables.filter_overrides_part]
  | getConnectorState connector scope _ =>
      dsimp only
      rw [Tables.find?_connectorState_part]

end Store

namespace PostgresStore

variable {server : Server}

/-- Row-level security looks at the tenants alone. -/
theorem confines_permitted {rowTenantId : String} {f : Tables ℤ → Option (Tables ℤ)}
    (hf : Confines (Tables.Owned owner) Tables.part tenantId f) :
    Confines (Tables.Owned owner) Tables.part tenantId (permitted tenantId rowTenantId f) :=
  Confines.ite (fun _ _ => Iff.rfl) hf Confines.refused

theorem confines_insertVersion {row : VersionRow ℤ} (hrow : row.tenantId = tenantId)
    (hid : owner row.id = tenantId) (hsource : owner row.sourceId = tenantId) :
    Confines (Tables.Owned owner) Tables.part tenantId (insertVersion row) := by
  subst hrow
  refine Confines.ite (fun db hdb => ?_) Confines.nothing
    (Confines.ite (fun db hdb => ?_) ?_ Confines.refused)
  · refine Eq.to_iff (congrArg (· = true) (Table.any_rowsOf fun old hold hconflict => ?_))
    exact (hdb.versionSources old hold).symm.trans
      ((congrArg owner (of_decide_eq_true hconflict).1).trans hsource)
  · rw [Tables.any_source_part hdb hsource, Tables.mem_tenants_part, Tables.hasOrganization_part]
  · refine (Tables.holds_versions ℤ).confines_insert rfl (fun db hdb old hold hkey => ?_)
      fun db hdb =>
        { hdb with
          versions := Table.forall_concat hdb.versions hid
          versionSources := Table.forall_concat hdb.versionSources hsource }
    exact (hdb.versions old hold).symm.trans ((congrArg owner hkey).trans hid)

theorem confines_insertContributor {row : ContributorRow} (hrow : row.tenantId = tenantId) :
    Confines (Tables.Owned owner) Tables.part tenantId (insertContributor row) := by
  subst hrow
  refine Confines.ite (fun db _ => ?_) ?_ Confines.refused
  · exact Eq.to_iff (congrArg (· = true) (Table.any_rowsOf fun _ _ hversion =>
      (of_decide_eq_true hversion).1))
  · exact (Tables.holds_contributors ℤ).confines_concat rfl fun db hdb => { hdb with }

theorem confined_addContributor {versionId : String} {userId : Option String} :
    Confined (Tables.Owned owner) Tables.part tenantId
      (addContributor tenantId versionId userId) := by
  unfold addContributor
  split
  · exact Confined.pure _
  · refine Confined.bind (Confined.read fun db _ => ?_) fun linked => ?_
    · exact decide_eq_decide.mpr (Table.mem_rowsOf.trans (and_iff_left rfl))
    refine Confined.bind (Confined.read fun db _ => Tables.isMember_part _) fun member => ?_
    split
    · exact Confined.statement (confines_permitted (confines_insertContributor rfl))
    · split
      · exact Confined.throw _
      · exact Confined.pure _

theorem confined_stageSource {source : SourceItem}
    (hsource : owner (sourceId options.digest tenantId source) = tenantId)
    (hversion : owner (versionId options.digest options.sha256 tenantId source) = tenantId) :
    Confined (Tables.Owned owner) Tables.part tenantId
      (stageSource options server source tenantId) := by
  unfold stageSource
  refine Confined.bind (Confined.statement (confines_permitted
    (Tables.confines_upsertSource rfl hsource))) fun _ => ?_
  refine Confined.bind (Confined.statement (confines_permitted
    (Confines.bind fun row hrow => ?_))) fun _ => ?_
  · obtain ⟨htenant, hid, hof⟩ := Columns.version_row hsource hversion hrow
    exact confines_insertVersion htenant hid hof
  · exact Confined.bind confined_addContributor fun _ => confined_queueVersion

theorem confined_program {now : ℤ} {call : Update} (h : call.For options owner tenantId) :
    Confined (Tables.Owned owner) Tables.part tenantId (program options server now call) := by
  unfold program
  rw [h.tenant]
  cases call with
  | upsertOrganization organization _ =>
      refine Confined.bind (Confined.statement Tables.confines_ensureTenant) fun _ => ?_
      exact Confined.bind (Confined.statement (confines_permitted
        (Tables.confines_upsertOrganization rfl))) fun _ => Confined.pure _
  | stageSource source named =>
      obtain rfl : (named.or source.tenantId).getD options.defaultTenantId = tenantId := h.tenant
      exact confined_stageSource (h.ids _ List.mem_cons_self)
        (h.ids _ (List.mem_cons_of_mem _ List.mem_cons_self))
  | markSourceProcessing versionId _ => exact confined_markProcessing
  | markSourceSucceeded versionId _ => exact confined_markSucceeded
  | markSourceFailed versionId failure _ => exact confined_markFailed
  | putClaims claims _ =>
      refine Confined.bind (Confined.forM fun claim hclaim => Confined.statement
        (Confines.bind fun row hrow => ?_)) fun _ => Confined.pure _
      obtain ⟨hrowTenant, hid, hversion⟩ := h.claim_row hclaim hrow
      refine confines_permitted (Tables.confines_upsertClaim hrowTenant hid hversion
        fun db hdb => ?_)
      unfold references
      rw [hrowTenant, Tables.any_version_part hdb hversion, Tables.hasOrganization_part]
      simp only [Tables.mem_tenants_part]
  | replaceOpportunities organizationId opportunities _ =>
      refine Confined.bind (Confined.statement Tables.confines_deleteOpportunities) fun _ => ?_
      refine Confined.bind (Confined.forM fun opportunity hopportunity => Confined.statement
        (Confines.bind fun row hrow => ?_)) fun _ => Confined.pure _
      exact confines_permitted
        (Tables.confines_insertOpportunity (h.opportunity_row hopportunity hrow))
  | putOpportunityOverride override _ =>
      refine Confined.bind (Confined.statement (Confines.bind fun row hrow => ?_))
        fun _ => Confined.pure _
      obtain ⟨hrowTenant, hid⟩ := h.override_row hrow
      refine confines_permitted (Confines.ite (fun db _ => ?_)
        (Tables.confines_insertOverride hrowTenant hid) Confines.refused)
      rw [Tables.mem_tenants_part]
      rfl
  | setConnectorState connector scope cursor metadata _ ownerUserId =>
      exact Confined.bind (Confined.statement (confines_permitted
        (Tables.confines_upsertConnectorState rfl))) fun _ => Confined.pure _

/-- **A call is confined to its tenant.** -/
theorem confined_update {connection : Connection} {now : ℤ} {call : Update}
    (h : call.For options owner tenantId) :
    Confined (Tables.Owned owner) Tables.part tenantId
      (update options server connection now call) := by
  unfold update
  split
  · exact Confined.throw _
  · refine Confined.atomically ?_
    split
    · exact Confined.throw _
    · exact confined_program h

theorem sourceRows_part {db : Tables ℤ} (id : String) :
    sourceRows (db.part tenantId) tenantId id = sourceRows db tenantId id := by
  refine Table.filter_product_rowsOf fun v _ s _ hjoin => ?_
  obtain ⟨-, hsource, htenant, -⟩ := of_decide_eq_true hjoin
  exact ⟨htenant, hsource⟩

/-- **A query sees its tenant only.** -/
theorem answers_part {connection : Connection} {db : Tables ℤ} {call : Query}
    (hcall : call.tenant options.defaultTenantId = tenantId) {answer : Answer ℤ} :
    Answers options server connection (db.part tenantId) call answer ↔
      Answers options server connection db call answer := by
  unfold Answers
  rw [hcall]
  dsimp only
  split
  · exact Iff.rfl
  cases call with
  | getOrganization id _ =>
      dsimp only
      rw [Tables.find?_organization_part]
  | listOrganizations _ =>
      dsimp only
      rw [Tables.filter_organizations_part]
  | getSource id _ =>
      dsimp only
      rw [sourceRows_part]
  | listClaims organizationId _ =>
      dsimp only
      rw [Tables.filter_claims_part]
  | listOpportunities organizationId _ =>
      dsimp only
      rw [Tables.filter_opportunities_part]
  | listOpportunityOverrides organizationId _ =>
      dsimp only
      rw [Tables.filter_overrides_part]
  | getConnectorState connector scope _ =>
      dsimp only
      rw [Tables.find?_connectorState_part]

end PostgresStore

end RecruitingOs.Repository
