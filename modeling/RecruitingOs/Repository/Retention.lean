import RecruitingOs.Lib.TableRelation
import RecruitingOs.Repository.Agreement
import RecruitingOs.Repository.Maintenance

/-!
# Retention

What `app.run_maintenance` guarantees on every consistent database: it redacts what is due, row by
row and nothing else; it finds nothing when it is run again at the same time; and no later call of
the repository brings back a text that it has redacted, for a version that is there already is not
inserted again (`retention`).
-/

namespace RecruitingOs.Repository

open Relational

/-- A version of a private source that was fetched more than ninety days ago. -/
def Outdated (now : Now) (db : MigratedDatabase) (row : VersionRow ℤ) : Prop :=
  (∃ s ∈ db.tables.sources, s.id = row.sourceId ∧ s.sourceType.isPrivate) ∧
    row.fetchedAt < now.daysAgo 90

/-- The value carries the mark of a redaction. -/
def marked (value : Json) : Bool := value.hasKey "retentionRedacted"

/-- The foreign keys of the rows that maintenance finds, the unique key of the versions, and that a
version has the tenant of its source and a claim that of its version. -/
structure Consistent (db : MigratedDatabase) : Prop where
  version_tenant : ∀ v ∈ db.tables.versions, v.tenantId ∈ db.tables.tenants
  version_source : ∀ v ∈ db.tables.versions, ∀ s ∈ db.tables.sources, s.id = v.sourceId →
    s.tenantId = v.tenantId
  version_key : (db.tables.versions.map fun v => (v.sourceId, v.contentHash)).Nodup
  claim_version : ∀ c ∈ db.tables.claims, ∀ v ∈ db.tables.versions, v.id = c.sourceVersionId →
    v.tenantId = c.tenantId
  job_tenant : ∀ row ∈ db.jobs, row.tenantId ∈ db.tables.tenants
  session_tenant : ∀ row ∈ db.sessions, row.tenantId ∈ db.tables.tenants
  credential_tenant : ∀ row ∈ db.credentials, row.tenantId ∈ db.tables.tenants
  auditEvent_tenant : ∀ row ∈ db.auditEvents, row.tenantId ∈ db.tables.tenants

/-- **What is kept and what is not.** -/
structure Retained (now : Now) (db after : MigratedDatabase) : Prop where
  versions : List.Forall₂ (fun old new =>
    (Outdated now db old ∧ marked old.metadata = false →
      new = { old with rawText := "", media := .arr [], metadata := now.retentionMark }) ∧
    (¬ (Outdated now db old ∧ marked old.metadata = false) → new = old))
    db.tables.versions after.tables.versions
  claims : List.Forall₂ (fun old new =>
    ((∃ v ∈ db.tables.versions, v.id = old.sourceVersionId ∧ Outdated now db v) →
      new = { old with evidence := none }) ∧
    (¬ (∃ v ∈ db.tables.versions, v.id = old.sourceVersionId ∧ Outdated now db v) → new = old))
    db.tables.claims after.tables.claims
  jobs : List.Forall₂ (fun old new =>
    (old.status.terminal = true ∧ old.updatedAt < now.daysAgo 30 ∧ marked old.payload = false →
      new = { old with payload := now.retentionPayload, updatedAt := now.instant }) ∧
    (¬ (old.status.terminal = true ∧ old.updatedAt < now.daysAgo 30 ∧
      marked old.payload = false) → new = old))
    db.jobs after.jobs
  sessions : after.sessions = db.sessions.filter fun row => now.instant ≤ row.expiresAt
  credentials : after.credentials =
    db.credentials.filter fun row => row.revokedAt.all (now.daysAgo 30 ≤ ·)
  auditEvents : after.auditEvents =
    db.auditEvents.filter fun row => now.daysAgo 365 ≤ row.createdAt
  rateLimitBuckets : after.rateLimitBuckets =
    db.rateLimitBuckets.filter fun row => now.instant ≤ row.expiresAt
  others : after.tables =
    { db.tables with versions := after.tables.versions, claims := after.tables.claims }

/-- A later call of the repository, with the connection that it finds and the time. -/
structure StoreCall where
  connection : Connection
  now : ℤ
  update : Update

/-- The tables that a call leaves, whether it returns or throws. -/
def StoreCall.perform (options : Options) (server : Server) (db : Tables ℤ) (call : StoreCall) :
    Tables ℤ :=
  (exec (PostgresStore.update options server call.connection call.now call.update) db).2

variable {now : Now} {db : MigratedDatabase} {tenants : List String} {tenant : String}

/-! ### What is due -/

theorem any_isDueVersion (h : Consistent db) {row : VersionRow ℤ} (hrow : row ∈ db.tables.versions) :
    (db.tables.tenants.any fun tenant => isDueVersion now db.tables.sources tenant row) = true ↔
      Outdated now db row ∧ marked row.metadata = false := by
  rw [List.any_eq_true]
  constructor
  · rintro ⟨tenant, -, hdue⟩
    obtain ⟨hexpired, hmark⟩ := of_decide_eq_true hdue
    obtain ⟨-, hfetched, hany⟩ := of_decide_eq_true hexpired
    obtain ⟨s, hs, hjoin⟩ := List.any_eq_true.mp hany
    obtain ⟨hid, -, hprivate⟩ := of_decide_eq_true hjoin
    exact ⟨⟨⟨s, hs, hid.symm, hprivate⟩, hfetched⟩, Bool.eq_false_iff.mpr hmark⟩
  · rintro ⟨⟨⟨s, hs, hid, hprivate⟩, hfetched⟩, hmark⟩
    refine ⟨row.tenantId, h.version_tenant row hrow, decide_eq_true ⟨decide_eq_true
      ⟨rfl, hfetched, List.any_eq_true.mpr ⟨s, hs, decide_eq_true ⟨hid.symm, ?_, hprivate⟩⟩⟩,
      Bool.eq_false_iff.mp hmark⟩⟩
    exact h.version_source row hrow s hs hid

theorem any_isDueClaim (h : Consistent db) {row : ClaimRow ℤ} (hrow : row ∈ db.tables.claims) :
    (db.tables.tenants.any fun tenant =>
      isDueClaim now db.tables.sources db.tables.versions tenant row) = true ↔
      (∃ v ∈ db.tables.versions, v.id = row.sourceVersionId ∧ Outdated now db v) ∧
        row.evidence.isSome = true := by
  rw [List.any_eq_true]
  constructor
  · rintro ⟨tenant, -, hdue⟩
    obtain ⟨-, hevidence, hany⟩ := of_decide_eq_true hdue
    obtain ⟨v, hv, hjoin⟩ := List.any_eq_true.mp hany
    obtain ⟨hversion, hexpired⟩ := of_decide_eq_true hjoin
    obtain ⟨-, hfetched, hsource⟩ := of_decide_eq_true hexpired
    obtain ⟨s, hs, hmatch⟩ := List.any_eq_true.mp hsource
    obtain ⟨hid, -, hprivate⟩ := of_decide_eq_true hmatch
    exact ⟨⟨v, hv, hversion.symm, ⟨s, hs, hid.symm, hprivate⟩, hfetched⟩, hevidence⟩
  · rintro ⟨⟨v, hv, hversion, ⟨s, hs, hid, hprivate⟩, hfetched⟩, hevidence⟩
    have htenant := h.claim_version row hrow v hv hversion
    have hsource := h.version_source v hv s hs hid
    refine ⟨row.tenantId, htenant ▸ h.version_tenant v hv, decide_eq_true ⟨rfl, hevidence,
      List.any_eq_true.mpr ⟨v, hv, decide_eq_true ⟨hversion.symm, decide_eq_true
        ⟨htenant, hfetched, List.any_eq_true.mpr ⟨s, hs, decide_eq_true
          ⟨hid.symm, hsource.trans htenant, hprivate⟩⟩⟩⟩⟩⟩⟩

theorem any_isDueJob (h : Consistent db) {row : JobRow} (hrow : row ∈ db.jobs) :
    (db.tables.tenants.any fun tenant => isDueJob now tenant row) = true ↔
      row.status.terminal = true ∧ row.updatedAt < now.daysAgo 30 ∧ marked row.payload = false := by
  rw [List.any_eq_true]
  constructor
  · rintro ⟨tenant, -, hdue⟩
    obtain ⟨-, hterminal, hupdated, hmark⟩ := of_decide_eq_true hdue
    exact ⟨hterminal, hupdated, Bool.eq_false_iff.mpr hmark⟩
  · rintro ⟨hterminal, hupdated, hmark⟩
    exact ⟨row.tenantId, h.job_tenant row hrow, decide_eq_true
      ⟨rfl, hterminal, hupdated, Bool.eq_false_iff.mp hmark⟩⟩

/-- A condition on the tenant and something else, for all tenants. -/
theorem any_tenant_eq {q : Prop} [Decidable q] (htenant : tenant ∈ tenants) :
    (tenants.any fun t => decide (tenant = t ∧ q)) = decide q := by
  rw [Bool.eq_iff_iff, List.any_eq_true, decide_eq_true_iff]
  constructor
  · rintro ⟨t, -, hboth⟩
    exact (of_decide_eq_true hboth).2
  · intro hq
    exact ⟨tenant, htenant, decide_eq_true ⟨rfl, hq⟩⟩

theorem runMaintenance_fst (now : Now) (db : MigratedDatabase) : (runMaintenance now db).1 =
    { maintained now db.tables.tenants db with
      rateLimitBuckets := db.rateLimitBuckets.filter fun row => ! isExpiredBucket now row } := by
  have hloop : (db.tables.tenants.foldl (maintainTenant now) (db, .zero)).1 =
      maintained now db.tables.tenants db := maintainTenants_eq _ db _
  unfold runMaintenance
  dsimp only
  rw [hloop]
  rfl

theorem not_decide_lt (a b : ℤ) : (! decide (a < b)) = decide (b ≤ a) := by
  rw [← decide_not]
  exact decide_eq_decide.mpr not_lt

/-- **Complete and exact.** -/
theorem retained_runMaintenance (h : Consistent db) :
    Retained now db (runMaintenance now db).1 := by
  rw [runMaintenance_fst]
  constructor
  case versions =>
    refine Table.rowwise_updateWhere fun row hrow => ⟨fun hdue => ?_, fun hdue => ?_⟩
    · exact if_pos ((any_isDueVersion h hrow).mpr hdue)
    · exact if_neg (mt (any_isDueVersion h hrow).mp hdue)
  case claims =>
    refine Table.rowwise_updateWhere fun row hrow => ⟨fun hdue => ?_, fun hdue => ?_⟩
    · cases hevidence : row.evidence with
      | some text => exact if_pos ((any_isDueClaim h hrow).mpr ⟨hdue, by rw [hevidence]; rfl⟩)
      | none =>
          -- a claim without evidence is as redaction would leave it
          have hsame : redactClaim row = row := by
            unfold redactClaim
            rw [← hevidence]
          show (if _ then redactClaim row else row) = redactClaim row
          rw [hsame]
          exact ite_self row
    · exact if_neg (mt (any_isDueClaim h hrow).mp fun hboth => hdue hboth.1)
  case jobs =>
    refine Table.rowwise_updateWhere fun row hrow => ⟨fun hdue => ?_, fun hdue => ?_⟩
    · exact if_pos ((any_isDueJob h hrow).mpr hdue)
    · exact if_neg (mt (any_isDueJob h hrow).mp hdue)
  case sessions =>
    refine List.filter_congr fun row hrow => ?_
    show (! db.tables.tenants.any fun t => isExpiredSession now t row) = _
    unfold isExpiredSession
    rw [any_tenant_eq (h.session_tenant row hrow), not_decide_lt]
  case credentials =>
    refine List.filter_congr fun row hrow => ?_
    show (! db.tables.tenants.any fun t => isRevokedCredential now t row) = _
    unfold isRevokedCredential
    rw [any_tenant_eq (h.credential_tenant row hrow), Bool.decide_eq_true]
    cases row.revokedAt with
    | none => rfl
    | some revokedAt => exact not_decide_lt revokedAt _
  case auditEvents =>
    refine List.filter_congr fun row hrow => ?_
    show (! db.tables.tenants.any fun t => isExpiredAuditEvent now t row) = _
    unfold isExpiredAuditEvent
    rw [any_tenant_eq (h.auditEvent_tenant row hrow), not_decide_lt]
  case rateLimitBuckets =>
    exact List.filter_congr fun row _ => not_decide_lt _ _
  case others => rfl

/-! ### Once more -/

/-- **Idempotent**: what is due is gone. -/
theorem runMaintenance_twice (now : Now) (db : MigratedDatabase) :
    runMaintenance now (runMaintenance now db).1 = ((runMaintenance now db).1, .zero) := by
  have hquiet : Quiet now db.tables.tenants (runMaintenance now db).1 := by
    rw [runMaintenance_fst]
    exact { quiet_maintained now db.tables.tenants db with }
  have htenants : (runMaintenance now db).1.tables.tenants = db.tables.tenants := by
    rw [runMaintenance_fst]
    rfl
  have hbuckets : ∀ row ∈ (runMaintenance now db).1.rateLimitBuckets,
      isExpiredBucket now row = false := by
    rw [runMaintenance_fst]
    intro row hrow
    exact (Bool.not_eq_true' _).mp (List.mem_filter.mp hrow).2
  generalize (runMaintenance now db).1 = after at hquiet htenants hbuckets ⊢
  unfold runMaintenance
  rw [htenants, foldl_of_quiet hquiet]
  dsimp only
  rw [Table.filter_not_eq_self hbuckets, Table.changes_eq_zero hbuckets]
  rfl

/-! ### Later calls -/

/-- There is a version of this content, and whatever version there is of it has no text. -/
structure Erased (sourceId contentHash : String) (db : Tables ℤ) : Prop where
  stays : ∃ v ∈ db.versions, v.sourceId = sourceId ∧ v.contentHash = contentHash
  blank : ∀ v ∈ db.versions, v.sourceId = sourceId → v.contentHash = contentHash →
    v.rawText = "" ∧ v.media = .arr []

section Calls

variable {options : Options} {server : Server} {sourceId contentHash tenantId : String}
  {s t : Tables ℤ}

theorem Erased.of_versions (hs : Erased sourceId contentHash s) (h : t.versions = s.versions) :
    Erased sourceId contentHash t where
  stays := h ▸ hs.stays
  blank := h ▸ hs.blank

/-- The columns of a version that no call writes again. -/
def VersionRow.content (row : VersionRow ℤ) : String × String × String × Json :=
  (row.sourceId, row.contentHash, row.rawText, row.media)

theorem Erased.updateVersion {id : String} {f : VersionRow ℤ → VersionRow ℤ}
    (hs : Erased sourceId contentHash s) (hf : ∀ row, (f row).content = row.content)
    (h : Tables.updateVersion tenantId id f s = some t) : Erased sourceId contentHash t := by
  cases h
  have hrow : ∀ row, (if Tables.isVersion tenantId id row then f row else row).content =
      row.content := by
    intro row
    split
    · exact hf row
    · rfl
  constructor
  case stays =>
    obtain ⟨v, hv, hsource, hhash⟩ := hs.stays
    have hcontent := hrow v
    refine ⟨_, Table.mem_updateWhere.mpr ⟨v, hv, rfl⟩, ?_, ?_⟩
    · exact (congrArg Prod.fst hcontent).trans hsource
    · exact (congrArg (fun c => c.2.1) hcontent).trans hhash
  case blank =>
    intro v hv hsource hhash
    obtain ⟨old, hold, rfl⟩ := Table.mem_updateWhere.mp hv
    have hcontent := hrow old
    obtain ⟨htext, hmedia⟩ := hs.blank old hold
      ((congrArg Prod.fst hcontent).symm.trans hsource)
      ((congrArg (fun c => c.2.1) hcontent).symm.trans hhash)
    exact ⟨(congrArg (fun c => c.2.2.1) hcontent).trans htext,
      (congrArg (fun c => c.2.2.2) hcontent).trans hmedia⟩

/-- A version that is there already is not inserted again. -/
theorem Erased.insertVersion {row : VersionRow ℤ} (hs : Erased sourceId contentHash s)
    (h : PostgresStore.insertVersion row s = some t) : Erased sourceId contentHash t := by
  unfold PostgresStore.insertVersion at h
  split at h
  · cases h
    exact hs
  · rename_i hnew
    split at h
    · obtain ⟨versions, hinsert, rfl⟩ := Option.map_eq_some_iff.mp h
      obtain ⟨-, rfl⟩ := Table.insert_eq_some.mp hinsert
      constructor
      case stays =>
        obtain ⟨v, hv, hkey⟩ := hs.stays
        exact ⟨v, List.mem_append_left _ hv, hkey⟩
      case blank =>
        intro v hv hsource hhash
        obtain hold | hlast := List.mem_append.mp hv
        · exact hs.blank v hold hsource hhash
        · obtain rfl := List.mem_singleton.mp hlast
          obtain ⟨old, hold, hsource', hhash'⟩ := hs.stays
          exact absurd (List.any_eq_true.mpr ⟨old, hold, decide_eq_true
            ⟨hsource'.trans hsource.symm, hhash'.trans hhash.symm⟩⟩) hnew
    · cases h

theorem permitted_some {rowTenantId : String} {f : Tables ℤ → Option (Tables ℤ)}
    (h : PostgresStore.permitted tenantId rowTenantId f s = some t) : f s = some t := by
  unfold PostgresStore.permitted at h
  split at h
  · exact h
  · cases h

/-- A statement that does not write `source_versions`. -/
theorem maintains_execute {f : Tables ℤ → Option (Tables ℤ)}
    (h : ∀ s t, f s = some t → t.versions = s.versions) :
    Maintains (Erased sourceId contentHash) (execute f) :=
  Maintains.statement fun s t hs hf => hs.of_versions (h s t hf)

theorem maintains_updateVersion {id : String} {f : VersionRow ℤ → VersionRow ℤ}
    (hf : ∀ row, (f row).content = row.content) :
    Maintains (Erased sourceId contentHash) (execute (Tables.updateVersion tenantId id f)) :=
  Maintains.statement fun _ _ hs h => hs.updateVersion hf h

theorem maintains_stageSource {source : SourceItem} :
    Maintains (Erased sourceId contentHash)
      (PostgresStore.stageSource options server source tenantId) := by
  unfold PostgresStore.stageSource
  dsimp only
  refine Maintains.bind (maintains_execute fun s t h => ?_) fun _ =>
    Maintains.bind (Maintains.statement fun s t hs h => ?_) fun _ =>
    Maintains.bind ?_ fun _ => ?_
  · have hsource := permitted_some h
    unfold Tables.upsertSource at hsource
    dsimp only at hsource
    split at hsource
    · cases hsource
      rfl
    · split at hsource
      · obtain ⟨sources, -, rfl⟩ := Option.map_eq_some_iff.mp hsource
        rfl
      · cases hsource
  · obtain ⟨row, -, hinsert⟩ := Option.bind_eq_some_iff.mp (permitted_some h)
    exact hs.insertVersion hinsert
  · unfold PostgresStore.addContributor
    split
    · exact Maintains.pure ()
    · refine Maintains.bind (Maintains.read _) fun linked =>
        Maintains.bind (Maintains.read _) fun member => ?_
      split
      · refine maintains_execute fun s t h => ?_
        have hcontributor := permitted_some h
        unfold PostgresStore.insertContributor at hcontributor
        split at hcontributor
        · cases hcontributor
          rfl
        · cases hcontributor
      · split
        · exact Maintains.throw _
        · exact Maintains.pure ()
  · unfold queueVersion
    refine Maintains.bind (Maintains.read _) fun found => ?_
    cases found with
    | none => exact Maintains.throw _
    | some row =>
        dsimp only
        split
        · exact Maintains.bind (maintains_updateVersion fun _ => rfl) fun _ => Maintains.pure _
        · exact Maintains.pure _

theorem maintains_markProcessing {fits : ℕ → Bool} {id : String} {now : ℤ} :
    Maintains (Erased sourceId contentHash)
      (markProcessing fits id tenantId now : Session ℤ (Answer ℤ)) := by
  unfold markProcessing
  dsimp only
  refine Maintains.bind (Maintains.read _) fun found => ?_
  cases found with
  | none => exact Maintains.throw _
  | some row =>
      refine Maintains.bind (Maintains.statement fun s t hs h => ?_) fun _ => Maintains.pure _
      split at h
      · refine hs.updateVersion (fun row => ?_) h
        split
        · rfl
        · rfl
      · cases h

theorem maintains_markFailed {columns : Columns ℤ} {id : String} {failure : ProcessingFailure}
    {now : ℤ} : Maintains (Erased sourceId contentHash)
      (markFailed columns id failure tenantId now) := by
  unfold markFailed
  refine Maintains.bind (Maintains.statement fun s t hs h => ?_) fun _ => Maintains.pure _
  obtain ⟨nextAttemptAt, -, hupdate⟩ := Option.bind_eq_some_iff.mp h
  refine hs.updateVersion ?_ hupdate
  exact fun _ => rfl

theorem versions_upsertClaim {sameValue : Json → Json → Bool}
    {references : Tables ℤ → ClaimRow ℤ → Bool} {row : ClaimRow ℤ}
    (h : Tables.upsertClaim sameValue references row s = some t) : t.versions = s.versions := by
  unfold Tables.upsertClaim at h
  dsimp only at h
  split at h
  · cases h
  · split at h
    · cases h
      rfl
    · split at h
      · obtain ⟨claims, -, rfl⟩ := Option.map_eq_some_iff.mp h
        rfl
      · cases h

theorem maintains_putClaims {claims : List Claim} : Maintains (Erased sourceId contentHash)
    (PostgresStore.putClaims server claims tenantId) := by
  unfold PostgresStore.putClaims
  refine Maintains.bind (Maintains.forM fun claim _ => maintains_execute fun s t h => ?_) fun _ =>
    Maintains.pure _
  obtain ⟨row, -, hput⟩ := Option.bind_eq_some_iff.mp h
  exact versions_upsertClaim (permitted_some hput)

theorem maintains_replaceOpportunities {organizationId : String}
    {opportunities : List Opportunity} : Maintains (Erased sourceId contentHash)
      (PostgresStore.replaceOpportunities server organizationId opportunities tenantId) := by
  unfold PostgresStore.replaceOpportunities
  refine Maintains.bind (maintains_execute fun s t h => ?_) fun _ =>
    Maintains.bind (Maintains.forM fun opportunity _ => maintains_execute fun s t h => ?_) fun _ =>
    Maintains.pure _
  · cases h
    rfl
  · obtain ⟨row, -, hput⟩ := Option.bind_eq_some_iff.mp h
    have hinsert := permitted_some hput
    unfold Tables.insertOpportunity at hinsert
    split at hinsert
    · obtain ⟨rows, -, rfl⟩ := Option.map_eq_some_iff.mp hinsert
      rfl
    · cases hinsert

theorem maintains_putOpportunityOverride {override : OpportunityOverride} :
    Maintains (Erased sourceId contentHash)
      (PostgresStore.putOpportunityOverride server override tenantId) := by
  unfold PostgresStore.putOpportunityOverride
  refine Maintains.bind (maintains_execute fun s t h => ?_) fun _ => Maintains.pure _
  obtain ⟨row, -, hput⟩ := Option.bind_eq_some_iff.mp h
  have hinsert := permitted_some hput
  split at hinsert
  · unfold Tables.insertOverride at hinsert
    split at hinsert
    · obtain ⟨rows, -, rfl⟩ := Option.map_eq_some_iff.mp hinsert
      rfl
    · cases hinsert
  · cases hinsert

theorem maintains_setConnectorState {connector scope : String} {cursor : Option String}
    {metadata : Option Json} {owner : Option String} : Maintains (Erased sourceId contentHash)
      (PostgresStore.setConnectorState server connector scope cursor metadata tenantId owner) := by
  unfold PostgresStore.setConnectorState
  refine Maintains.bind (maintains_execute fun s t h => ?_) fun _ => Maintains.pure _
  have hupsert := permitted_some h
  unfold Tables.upsertConnectorState at hupsert
  split at hupsert
  · cases hupsert
    rfl
  · cases hupsert

theorem maintains_upsertOrganization {organization : Organization} :
    Maintains (Erased sourceId contentHash)
      (PostgresStore.upsertOrganization organization tenantId) := by
  unfold PostgresStore.upsertOrganization
  refine Maintains.bind (maintains_execute fun s t h => ?_) fun _ =>
    Maintains.bind (maintains_execute fun s t h => ?_) fun _ => Maintains.pure _
  · cases h
    rfl
  · have hupsert := permitted_some h
    unfold Tables.upsertOrganization at hupsert
    dsimp only at hupsert
    split at hupsert
    · cases hupsert
      rfl
    · cases hupsert

/-- **A call**, whatever it is, leaves what is erased without its text. -/
theorem Erased.perform {db : Tables ℤ} (h : Erased sourceId contentHash db) (call : StoreCall) :
    Erased sourceId contentHash (call.perform options server db) := by
  suffices hkeeps : Maintains (Erased sourceId contentHash)
      (PostgresStore.update options server call.connection call.now call.update) from hkeeps db h
  unfold PostgresStore.update
  split
  · exact Maintains.throw _
  · refine Maintains.atomically ?_
    split
    · exact Maintains.throw _
    · unfold PostgresStore.program
      cases call.update with
      | upsertOrganization => exact maintains_upsertOrganization
      | stageSource => exact maintains_stageSource
      | markSourceProcessing => exact maintains_markProcessing
      | markSourceSucceeded =>
          exact Maintains.bind (maintains_updateVersion fun _ => rfl) fun _ => Maintains.pure _
      | markSourceFailed => exact maintains_markFailed
      | putClaims => exact maintains_putClaims
      | replaceOpportunities => exact maintains_replaceOpportunities
      | putOpportunityOverride => exact maintains_putOpportunityOverride
      | setConnectorState => exact maintains_setConnectorState

/-- **A run** of calls. -/
theorem Erased.run {db : Tables ℤ} (h : Erased sourceId contentHash db) (calls : List StoreCall) :
    Erased sourceId contentHash (calls.foldl (StoreCall.perform options server) db) := by
  induction calls generalizing db with
  | nil => exact h
  | cons call rest ih => exact ih (h.perform call)

/-- What maintenance has redacted is erased. -/
theorem erased_runMaintenance {now : Now} {db : MigratedDatabase} (h : Consistent db)
    {v : VersionRow ℤ} (hv : v ∈ db.tables.versions) (hdue : Outdated now db v)
    (hmark : marked v.metadata = false) :
    Erased v.sourceId v.contentHash (runMaintenance now db).1.tables := by
  have hretained : Retained now db (runMaintenance now db).1 := retained_runMaintenance h
  have hrows := hretained.versions
  constructor
  case stays =>
    obtain ⟨new, hnew, hredact, -⟩ := Table.forall₂_exists_right hrows hv
    exact ⟨new, hnew, by rw [hredact ⟨hdue, hmark⟩], by rw [hredact ⟨hdue, hmark⟩]⟩
  case blank =>
    intro new hnew hsource hhash
    obtain ⟨old, hold, hredact, hkeep⟩ := Table.forall₂_exists_left hrows hnew
    have hkey : old.sourceId = new.sourceId ∧ old.contentHash = new.contentHash := by
      by_cases hboth : Outdated now db old ∧ marked old.metadata = false
      · rw [hredact hboth]
        exact ⟨rfl, rfl⟩
      · rw [hkeep hboth]
        exact ⟨rfl, rfl⟩
    -- there is one version of a content
    obtain rfl : old = v := Table.eq_of_key_eq h.version_key hold hv
      (Prod.ext (hkey.1.trans hsource) (hkey.2.trans hhash))
    rw [hredact ⟨hdue, hmark⟩]
    exact ⟨rfl, rfl⟩

end Calls

/-- **Retention** is complete and exact, for any number of tenants; maintenance that is run again
at the same time changes nothing and counts nothing; and after any calls of the repository,
`stageSource` of the same content among them, no version of a content whose text maintenance has
redacted has a text or media. -/
theorem retention (now : Now) (db : MigratedDatabase) (h : Consistent db) :
    Retained now db (runMaintenance now db).1 ∧
    runMaintenance now (runMaintenance now db).1 = ((runMaintenance now db).1, .zero) ∧
    ∀ (options : Options) (server : Server) (calls : List StoreCall), ∀ old ∈ db.tables.versions,
      Outdated now db old → marked old.metadata = false →
      ∀ v ∈ (calls.foldl (StoreCall.perform options server)
          (runMaintenance now db).1.tables).versions,
        v.sourceId = old.sourceId → v.contentHash = old.contentHash →
          v.rawText = "" ∧ v.media = .arr [] :=
  ⟨retained_runMaintenance h, runMaintenance_twice now db,
    fun _ _ calls _ hold hdue hmark =>
      ((erased_runMaintenance h hold hdue hmark).run calls).blank⟩

/-- A mail of 1 January, as it was staged. -/
def retainedMail : SourceItem where
  id := "m1"
  tenantId := some "t1"
  contributorUserId := none
  organizationId := "club"
  sourceType := .gmail
  externalId := some "m1"
  url := none
  title := none
  rawText := "Applications close on 31 January."
  media := []
  publishedAt := none
  fetchedAt := "2026-01-01T00:00:00.000Z"
  metadata := none

/-- The version of the mail, and a claim with a sentence of it. -/
def retainedVersion : VersionRow ℤ where
  id := RecruitingOs.versionId id id "t1" retainedMail
  sourceId := RecruitingOs.sourceId id "t1" retainedMail
  tenantId := "t1"
  organizationId := "club"
  contentHash := RecruitingOs.contentHash id retainedMail
  rawText := retainedMail.rawText
  media := .arr []
  publishedAt := none
  fetchedAt := 1767225600000000
  metadata := .obj []
  status := .succeeded
  attemptCount := 1
  nextAttemptAt := none
  lastError := none
  startedAt := none
  completedAt := none

/-- Two tenants, one of them with the mail. -/
def mailDatabase : MigratedDatabase where
  tables := { Tables.ofTenant "t1" with
    tenants := ["t1", "t2"]
    organizations := [⟨"t1", "club", "Club", "UNC", none, none, none, none⟩]
    sources := [Database.sourceRow id "t1" retainedMail]
    versions := [retainedVersion]
    claims := [⟨"c1", "t1", "club", retainedVersion.id, .applicationDeadline, .str "2026-01-31",
      92 / 100, none, 1767225600000000, [], some "Applications close on 31 January.", none⟩] }
  jobs := []
  sessions := [⟨"s1", "t2", "u1", "", "", 1767225600000000, none⟩]
  credentials := []
  auditEvents := []
  rateLimitBuckets := []

/-- 11 April. -/
def april : Now := ⟨1775865600000000, fun days => 1775865600000000 - days * 86400000000,
  "2026-04-11T00:00:00+00:00"⟩

theorem mailDatabase_consistent : Consistent mailDatabase where
  version_tenant := by decide +kernel
  version_source := by decide +kernel
  version_key := by decide +kernel
  claim_version := by decide +kernel
  job_tenant := by decide +kernel
  session_tenant := by decide +kernel
  credential_tenant := by decide +kernel
  auditEvent_tenant := by decide +kernel

/-- In April the text of the mail is gone, and fetching the mail again does not bring it back. -/
theorem retention_mail :
    runMaintenance april (runMaintenance april mailDatabase).1 =
      ((runMaintenance april mailDatabase).1, .zero) ∧
    ∀ v ∈ (StoreCall.perform chapelHill deadlineServer (runMaintenance april mailDatabase).1.tables
        ⟨⟨false, false⟩, 1775865700000000, .stageSource retainedMail (some "t1")⟩).versions,
      v.sourceId = retainedVersion.sourceId → v.contentHash = retainedVersion.contentHash →
        v.rawText = "" ∧ v.media = .arr [] := by
  obtain ⟨-, htwice, hcalls⟩ := retention april mailDatabase mailDatabase_consistent
  refine ⟨htwice, hcalls chapelHill deadlineServer
    [⟨⟨false, false⟩, 1775865700000000, .stageSource retainedMail (some "t1")⟩] retainedVersion
    List.mem_cons_self ⟨⟨_, List.mem_cons_self, rfl, rfl⟩, ?_⟩ ?_⟩
  · decide +kernel
  · decide +kernel

end RecruitingOs.Repository
