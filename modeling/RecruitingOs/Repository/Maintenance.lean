import RecruitingOs.Privacy.Erase
import RecruitingOs.Queue.Calls
import RecruitingOs.Repository.Tables

/-!
# `app.run_maintenance`

The function of `migrations/008_terminal_job_payload_retention.sql`: for each tenant six
statements, one after the other, and at the end the rate limit buckets of all tenants.  It is one
transaction, so that `now()` is one instant.  Its owner sees every row
(`migrations/009_runtime_role_rls.sql`), so that `app.tenant_id` admits nothing and hides nothing.

The loop over the tenants amounts to one statement a table (`maintainTenants_eq`).
-/

namespace Json

/-- `value ? key`: a key of an object, an element of an array, or the text itself. -/
def hasKey (value : Json) (key : String) : Bool :=
  match value with
  | .obj fields => fields.any fun field => field.1 = key
  | .arr items => items.any fun item => item = .str key
  | .str text => text = key
  | _ => false

end Json

namespace RecruitingOs.Repository

/-- A row of `audit_events`, with the time of its insertion. -/
structure AuditEventRow extends RecruitingOs.AuditEventRow where
  createdAt : ℤ
deriving Repr, DecidableEq

/-- A row of `rate_limit_buckets`. -/
structure RateLimitBucketRow where
  keyHash : String
  windowStart : ℤ
  requestCount : ℕ
  expiresAt : ℤ
deriving Repr, DecidableEq

/-- The migrated database: the tables of the repository, and those beside them that maintenance
writes. -/
structure MigratedDatabase where
  tables : Tables ℤ
  jobs : List JobRow
  sessions : List SessionRow
  credentials : List CredentialRow
  auditEvents : List AuditEventRow
  rateLimitBuckets : List RateLimitBucketRow
deriving Repr, DecidableEq

/-- `now()`, with `now() - interval '… days'` in the time zone of the session, and its text in
JSON. -/
structure Now where
  instant : ℤ
  daysAgo : ℕ → ℤ
  text : String

/-- What `app.run_maintenance` returns, in the words of `MaintenanceResult`. -/
structure MaintenanceResult where
  privateSourceVersions : ℕ
  privateClaimEvidence : ℕ
  terminalJobPayloads : ℕ
  failedJobPayloads : ℕ
  expiredSessions : ℕ
  revokedCredentials : ℕ
  expiredAuditEvents : ℕ
  expiredRateBuckets : ℕ
deriving Repr, DecidableEq

/-- The counters that are declared at the start. -/
def MaintenanceResult.zero : MaintenanceResult := ⟨0, 0, 0, 0, 0, 0, 0, 0⟩

section Statements

variable (now : Now)

/-- `jsonb_build_object('retentionRedacted', true, 'redactedAt', now())`; `jsonb` orders the keys. -/
def Now.retentionMark : Json :=
  .obj [("redactedAt", .str now.text), ("retentionRedacted", .bool true)]

/-- `jsonb_build_object('retentionRedacted',true,'redactedAt',now(),'reason','terminal-job-retention')`. -/
def Now.retentionPayload : Json :=
  .obj [("reason", .str "terminal-job-retention"), ("redactedAt", .str now.text),
    ("retentionRedacted", .bool true)]

/-- `sv.source_id=s.id and sv.tenant_id=tenant.id and s.tenant_id=tenant.id and s.source_type in
('gmail','groupme','screenshot') and sv.fetched_at < now() - interval '90 days'`. -/
def isExpired (sources : List SourceRow) (tenant : String) (row : VersionRow ℤ) : Bool :=
  row.tenantId = tenant ∧ row.fetchedAt < now.daysAgo 90 ∧
    sources.any fun s => row.sourceId = s.id ∧ s.tenantId = tenant ∧ s.sourceType.isPrivate

/-- The versions that the first statement updates. -/
def isDueVersion (sources : List SourceRow) (tenant : String) (row : VersionRow ℤ) : Bool :=
  isExpired now sources tenant row ∧ ¬ row.metadata.hasKey "retentionRedacted"

def redactVersion (row : VersionRow ℤ) : VersionRow ℤ :=
  { row with rawText := "", media := .arr [], metadata := now.retentionMark }

/-- The claims that the second statement updates. -/
def isDueClaim (sources : List SourceRow) (versions : List (VersionRow ℤ)) (tenant : String)
    (row : ClaimRow ℤ) : Bool :=
  row.tenantId = tenant ∧ row.evidence.isSome ∧
    versions.any fun v => row.sourceVersionId = v.id ∧ isExpired now sources tenant v

def redactClaim (row : ClaimRow ℤ) : ClaimRow ℤ := { row with evidence := none }

/-- The jobs that the third statement updates. -/
def isDueJob (tenant : String) (row : JobRow) : Bool :=
  row.tenantId = tenant ∧ row.status.terminal ∧ row.updatedAt < now.daysAgo 30 ∧
    ¬ row.payload.hasKey "retentionRedacted"

def redactJob (row : JobRow) : JobRow :=
  { row with payload := now.retentionPayload, updatedAt := now.instant }

/-- The sessions, credentials and audit events that are deleted. -/
def isExpiredSession (tenant : String) (row : SessionRow) : Bool :=
  row.tenantId = tenant ∧ row.expiresAt < now.instant

def isRevokedCredential (tenant : String) (row : CredentialRow) : Bool :=
  row.tenantId = tenant ∧ row.revokedAt.any (· < now.daysAgo 30)

def isExpiredAuditEvent (tenant : String) (row : AuditEventRow) : Bool :=
  row.tenantId = tenant ∧ row.createdAt < now.daysAgo 365

def isExpiredBucket (row : RateLimitBucketRow) : Bool := row.expiresAt < now.instant

/-- The body of the loop: each statement sees what the statements before it have written, and
`row_count` is added to its counter. -/
def maintainTenant (state : MigratedDatabase × MaintenanceResult) (tenant : String) :
    MigratedDatabase × MaintenanceResult :=
  let (db, counts) := state
  let dueVersion := isDueVersion now db.tables.sources tenant
  let versions := Table.updateWhere dueVersion (redactVersion now) db.tables.versions
  let dueClaim := isDueClaim now db.tables.sources versions tenant
  let claims := Table.updateWhere dueClaim redactClaim db.tables.claims
  ({ db with
      tables := { db.tables with versions := versions, claims := claims }
      jobs := Table.updateWhere (isDueJob now tenant) (redactJob now) db.jobs
      sessions := db.sessions.filter fun row => ! isExpiredSession now tenant row
      credentials := db.credentials.filter fun row => ! isRevokedCredential now tenant row
      auditEvents := db.auditEvents.filter fun row => ! isExpiredAuditEvent now tenant row },
    { counts with
      privateSourceVersions := counts.privateSourceVersions +
        Table.changes dueVersion db.tables.versions
      privateClaimEvidence := counts.privateClaimEvidence + Table.changes dueClaim db.tables.claims
      terminalJobPayloads := counts.terminalJobPayloads + Table.changes (isDueJob now tenant) db.jobs
      expiredSessions := counts.expiredSessions +
        Table.changes (isExpiredSession now tenant) db.sessions
      revokedCredentials := counts.revokedCredentials +
        Table.changes (isRevokedCredential now tenant) db.credentials
      expiredAuditEvents := counts.expiredAuditEvents +
        Table.changes (isExpiredAuditEvent now tenant) db.auditEvents })

/-- `app.run_maintenance()`. -/
def runMaintenance (db : MigratedDatabase) : MigratedDatabase × MaintenanceResult :=
  let (swept, counts) := db.tables.tenants.foldl (maintainTenant now) (db, .zero)
  ({ swept with
      rateLimitBuckets := swept.rateLimitBuckets.filter fun row => ! isExpiredBucket now row },
    { counts with
      failedJobPayloads := counts.terminalJobPayloads
      expiredRateBuckets := Table.changes (isExpiredBucket now) swept.rateLimitBuckets })

end Statements

/-! ### One statement a table -/

/-- What the loop leaves, for the given tenants. -/
def maintained (now : Now) (tenants : List String) (db : MigratedDatabase) : MigratedDatabase :=
  { db with
    tables := { db.tables with
      versions := Table.updateWhere
        (fun row => tenants.any fun tenant => isDueVersion now db.tables.sources tenant row)
        (redactVersion now) db.tables.versions
      claims := Table.updateWhere
        (fun row => tenants.any fun tenant =>
          isDueClaim now db.tables.sources db.tables.versions tenant row)
        redactClaim db.tables.claims }
    jobs := Table.updateWhere (fun row => tenants.any fun tenant => isDueJob now tenant row)
      (redactJob now) db.jobs
    sessions := db.sessions.filter fun row =>
      ! tenants.any fun tenant => isExpiredSession now tenant row
    credentials := db.credentials.filter fun row =>
      ! tenants.any fun tenant => isRevokedCredential now tenant row
    auditEvents := db.auditEvents.filter fun row =>
      ! tenants.any fun tenant => isExpiredAuditEvent now tenant row }

variable {now : Now} {db : MigratedDatabase} {tenants : List String} {tenant : String}

theorem retentionMark_hasKey (now : Now) : now.retentionMark.hasKey "retentionRedacted" = true := rfl

theorem retentionPayload_hasKey (now : Now) :
    now.retentionPayload.hasKey "retentionRedacted" = true := rfl

@[simp]
theorem isExpired_redactVersion (sources : List SourceRow) (tenant : String) (row : VersionRow ℤ) :
    isExpired now sources tenant (redactVersion now row) = isExpired now sources tenant row := rfl

@[simp]
theorem redactVersion_id (row : VersionRow ℤ) : (redactVersion now row).id = row.id := rfl

/-- A version that is redacted is not due again, for whatever tenant. -/
theorem not_isDueVersion (sources : List SourceRow) (tenant : String) (row : VersionRow ℤ) :
    isDueVersion now sources tenant (redactVersion now row) = false :=
  decide_eq_false fun h => h.2 (retentionMark_hasKey now)

theorem not_isDueClaim (sources : List SourceRow) (versions : List (VersionRow ℤ)) (tenant : String)
    (row : ClaimRow ℤ) : isDueClaim now sources versions tenant (redactClaim row) = false :=
  decide_eq_false fun h => Bool.false_ne_true h.2.1

theorem not_isDueJob (tenant : String) (row : JobRow) :
    isDueJob now tenant (redactJob now row) = false :=
  decide_eq_false fun h => h.2.2.2 (retentionPayload_hasKey now)

/-- The claims of a version are found whether or not it is redacted. -/
theorem isDueClaim_updateWhere (p : VersionRow ℤ → Bool) (sources : List SourceRow)
    (versions : List (VersionRow ℤ)) (tenant : String) :
    isDueClaim now sources (Table.updateWhere p (redactVersion now) versions) tenant =
      isDueClaim now sources versions tenant := by
  funext row
  unfold isDueClaim
  rw [Table.any_updateWhere]
  intro v
  rfl

/-- The loop, table by table. -/
theorem foldl_maintainTenant (tenants : List String) (db : MigratedDatabase)
    (counts : MaintenanceResult) :
    (tenants.foldl (maintainTenant now) (db, counts)).1 =
      { db with
        tables := { db.tables with
          versions := tenants.foldl (fun rows tenant => Table.updateWhere
            (isDueVersion now db.tables.sources tenant) (redactVersion now) rows) db.tables.versions
          claims := tenants.foldl (fun rows tenant => Table.updateWhere
            (isDueClaim now db.tables.sources db.tables.versions tenant) redactClaim rows)
            db.tables.claims }
        jobs := tenants.foldl (fun rows tenant => Table.updateWhere (isDueJob now tenant)
          (redactJob now) rows) db.jobs
        sessions := tenants.foldl (fun rows tenant => rows.filter fun row =>
          ! isExpiredSession now tenant row) db.sessions
        credentials := tenants.foldl (fun rows tenant => rows.filter fun row =>
          ! isRevokedCredential now tenant row) db.credentials
        auditEvents := tenants.foldl (fun rows tenant => rows.filter fun row =>
          ! isExpiredAuditEvent now tenant row) db.auditEvents } := by
  induction tenants generalizing db counts with
  | nil => rfl
  | cons tenant tenants ih =>
      rw [List.foldl_cons, maintainTenant]
      dsimp only
      rw [ih]
      simp only [isDueClaim_updateWhere, List.foldl_cons]

/-- **The loop** is one statement a table. -/
theorem maintainTenants_eq (tenants : List String) (db : MigratedDatabase)
    (counts : MaintenanceResult) :
    (tenants.foldl (maintainTenant now) (db, counts)).1 = maintained now tenants db := by
  rw [foldl_maintainTenant]
  unfold maintained
  rw [Table.foldl_updateWhere fun _ row _ t => not_isDueVersion _ t row,
    Table.foldl_updateWhere fun _ row _ t => not_isDueClaim _ _ t row,
    Table.foldl_updateWhere fun _ row _ t => not_isDueJob t row,
    Table.foldl_filter, Table.foldl_filter, Table.foldl_filter]

/-- No statement for one of the tenants finds a row. -/
structure Quiet (now : Now) (tenants : List String) (db : MigratedDatabase) : Prop where
  versions : ∀ tenant ∈ tenants, ∀ row ∈ db.tables.versions,
    isDueVersion now db.tables.sources tenant row = false
  claims : ∀ tenant ∈ tenants, ∀ row ∈ db.tables.claims,
    isDueClaim now db.tables.sources db.tables.versions tenant row = false
  jobs : ∀ tenant ∈ tenants, ∀ row ∈ db.jobs, isDueJob now tenant row = false
  sessions : ∀ tenant ∈ tenants, ∀ row ∈ db.sessions, isExpiredSession now tenant row = false
  credentials : ∀ tenant ∈ tenants, ∀ row ∈ db.credentials,
    isRevokedCredential now tenant row = false
  auditEvents : ∀ tenant ∈ tenants, ∀ row ∈ db.auditEvents,
    isExpiredAuditEvent now tenant row = false

/-- Where no statement finds a row, nothing is changed and nothing counted. -/
theorem maintainTenant_of_quiet (h : Quiet now tenants db) (htenant : tenant ∈ tenants)
    (counts : MaintenanceResult) : maintainTenant now (db, counts) tenant = (db, counts) := by
  have hversions := h.versions tenant htenant
  have hclaims := h.claims tenant htenant
  have hjobs := h.jobs tenant htenant
  have hsessions := h.sessions tenant htenant
  have hcredentials := h.credentials tenant htenant
  have hevents := h.auditEvents tenant htenant
  unfold maintainTenant
  dsimp only
  rw [Table.updateWhere_of_none hversions, Table.updateWhere_of_none hclaims,
    Table.updateWhere_of_none hjobs, Table.filter_not_eq_self hsessions, Table.filter_not_eq_self hcredentials,
    Table.filter_not_eq_self hevents, Table.changes_eq_zero hversions, Table.changes_eq_zero hclaims,
    Table.changes_eq_zero hjobs, Table.changes_eq_zero hsessions, Table.changes_eq_zero hcredentials,
    Table.changes_eq_zero hevents]
  rfl

theorem foldl_of_quiet (h : Quiet now tenants db) (counts : MaintenanceResult) :
    tenants.foldl (maintainTenant now) (db, counts) = (db, counts) := by
  have hloop : ∀ some : List String, some ⊆ tenants →
      some.foldl (maintainTenant now) (db, counts) = (db, counts) := by
    intro some hsome
    induction some with
    | nil => rfl
    | cons tenant rest ih =>
        obtain ⟨htenant, hrest⟩ := List.cons_subset.mp hsome
        rw [List.foldl_cons, maintainTenant_of_quiet h htenant]
        exact ih hrest
  exact hloop tenants (List.Subset.refl tenants)

/-- After the loop no statement finds a row. -/
theorem quiet_maintained (now : Now) (tenants : List String) (db : MigratedDatabase) :
    Quiet now tenants (maintained now tenants db) where
  versions tenant htenant row hrow :=
    Table.mem_updateWhere_of_not (fun tenant => not_isDueVersion _ tenant) hrow htenant
  claims tenant htenant row hrow := by
    unfold maintained at hrow ⊢
    dsimp only at hrow ⊢
    rw [isDueClaim_updateWhere]
    exact Table.mem_updateWhere_of_not (fun tenant => not_isDueClaim _ _ tenant) hrow htenant
  jobs tenant htenant row hrow := Table.mem_updateWhere_of_not not_isDueJob hrow htenant
  sessions tenant htenant row hrow := Table.mem_filter_of_not hrow htenant
  credentials tenant htenant row hrow := Table.mem_filter_of_not hrow htenant
  auditEvents tenant htenant row hrow := Table.mem_filter_of_not hrow htenant

end RecruitingOs.Repository
