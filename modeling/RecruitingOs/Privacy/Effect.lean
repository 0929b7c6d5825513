import RecruitingOs.Privacy.Erase
import RecruitingOs.Store.Sources

/-!
# What an erasure does

`mem_orphans` says which versions an erasure finds orphaned, in the same words for both
databases: the private ones that the user and nobody else contributes (`SoleEvidence`).
`Erased` is the database after an erasure, table by table, and `eraseAccount_ok` reads
it off the statements.
-/

namespace RecruitingOs

namespace Database

variable {dialect : Dialect} {digest : String → String} {db db' : Database}
  {tenantId userId operationId : String} {now : ℤ} {result : AccountErasureResult}

/-! ### Orphans -/

/-- A private version that the user contributes and nobody else. -/
structure SoleEvidence (db : Database) (tenantId userId : String) (v : SourceVersionRow) :
    Prop where
  tenant : v.tenantId = tenantId
  source : ∃ s ∈ db.sources, s.id = v.sourceId ∧ s.tenantId = v.tenantId ∧ s.sourceType.isPrivate
  linked : ⟨tenantId, v.id, userId⟩ ∈ db.contributors
  sole : ∀ link ∈ db.contributors, link.tenantId = tenantId → link.sourceVersionId = v.id →
    link.userId = userId

theorem mem_contributed {row : ContributedVersion} :
    row ∈ db.contributed tenantId userId ↔
      ∃ v ∈ db.sourceVersions, ∃ s ∈ db.sources,
        ⟨tenantId, v.id, userId⟩ ∈ db.contributors ∧ v.tenantId = tenantId ∧
          s.id = v.sourceId ∧ s.tenantId = v.tenantId ∧
          row = ⟨v.id, v.organizationId, s.sourceType⟩ := by
  unfold contributed
  simp only [List.mem_flatMap, List.mem_filter, List.mem_map, decide_eq_true_eq]
  constructor
  · rintro ⟨⟨linkTenant, linkVersion, linkUser⟩, ⟨hlink, rfl, rfl⟩, v, ⟨hv, rfl, hvt⟩, s,
      ⟨hs, hsid, hst⟩, rfl⟩
    exact ⟨v, hv, s, hs, hlink, hvt, hsid, hst, rfl⟩
  · rintro ⟨v, hv, s, hs, hlink, hvt, hsid, hst, rfl⟩
    exact ⟨_, ⟨hlink, rfl, rfl⟩, v, ⟨hv, rfl, hvt⟩, s, ⟨hs, hsid, hst⟩, rfl⟩

theorem hasContributor_withoutLinks {links : List ContributorRow} {versionId : String} :
    hasContributor (withoutLinks links tenantId userId) tenantId versionId ↔
      ∃ link ∈ links, link.tenantId = tenantId ∧ link.sourceVersionId = versionId ∧
        link.userId ≠ userId := by
  unfold hasContributor withoutLinks
  simp only [List.any_eq_true, List.mem_filter, decide_eq_true_eq]
  constructor
  · rintro ⟨link, ⟨hlink, hother⟩, htenant, hversion⟩
    exact ⟨link, hlink, htenant, hversion, fun huser => hother ⟨htenant, huser⟩⟩
  · rintro ⟨link, hlink, htenant, hversion, huser⟩
    exact ⟨link, ⟨hlink, fun hown => huser hown.2⟩, htenant, hversion⟩

/-- **Orphans.**  Both databases find the private versions that only the user contributes. -/
theorem mem_orphans (hn : (db.sourceVersions.map SourceVersionRow.id).Nodup) {id org : String} :
    (id, org) ∈ db.orphans dialect tenantId userId ↔
      ∃ v ∈ db.sourceVersions, v.id = id ∧ v.organizationId = org ∧
        SoleEvidence db tenantId userId v := by
  have hsole : ∀ versionId, ¬ hasContributor (withoutLinks db.contributors tenantId userId) tenantId
      versionId ↔ ∀ link ∈ db.contributors, link.tenantId = tenantId →
        link.sourceVersionId = versionId → link.userId = userId := by
    intro versionId
    rw [hasContributor_withoutLinks]
    constructor
    · intro hnone link hlink htenant hversion
      by_contra huser
      exact hnone ⟨link, hlink, htenant, hversion, huser⟩
    · rintro hall ⟨link, hlink, htenant, hversion, huser⟩
      exact huser (hall link hlink htenant hversion)
  unfold orphans orphaned
  cases dialect with
  | sqlite =>
      simp only [List.mem_map, List.mem_filter, List.mem_eraseDups, decide_eq_true_eq,
        mem_contributed, hsole, Prod.mk.injEq]
      constructor
      · rintro ⟨row, ⟨⟨v, hv, s, hs, hlink, hvt, hsid, hst, rfl⟩, hprivate, hall⟩, rfl, rfl⟩
        exact ⟨v, hv, rfl, rfl, hvt, ⟨s, hs, hsid, hst, hprivate⟩, hlink, hall⟩
      · rintro ⟨v, hv, rfl, rfl, hvt, ⟨s, hs, hsid, hst, hprivate⟩, hlink, hall⟩
        exact ⟨_, ⟨⟨v, hv, s, hs, hlink, hvt, hsid, hst, rfl⟩, hprivate, hall⟩, rfl, rfl⟩
  | postgres =>
      simp only [List.mem_map, List.mem_filter, decide_eq_true_eq, mem_contributed, hsole,
        Prod.mk.injEq]
      constructor
      · rintro ⟨v, ⟨hv, hvt, ⟨row, ⟨⟨v', hv', s, hs, hlink, -, hsid, hst, rfl⟩, hprivate⟩, hid⟩,
          hall⟩, rfl, rfl⟩
        -- the candidate is found again by its id
        obtain rfl : v' = v := Table.eq_of_key_eq hn hv' hv hid
        exact ⟨v', hv, rfl, rfl, hvt, ⟨s, hs, hsid, hst, hprivate⟩, hlink, hall⟩
      · rintro ⟨v, hv, rfl, rfl, hvt, ⟨s, hs, hsid, hst, hprivate⟩, hlink, hall⟩
        exact ⟨v, ⟨hv, hvt, ⟨_, ⟨⟨v, hv, s, hs, hlink, hvt, hsid, hst, rfl⟩, hprivate⟩, rfl⟩,
          hall⟩, rfl, rfl⟩

/-! ### The transaction -/

/-- The jobs that an erasure inserts. -/
def reconciliation (dialect : Dialect) (digest : String → String) (db : Database)
    (tenantId userId operationId : String) (now : ℤ) : List JobRow :=
  ((db.orphans dialect tenantId userId).map Prod.snd).eraseDups.map
    (reconcileJob digest tenantId userId operationId now)

theorem withoutJobs_eq_ok {jobs out : List JobRow} :
    withoutJobs dialect jobs tenantId userId = .ok out ↔
      ¬ (dialect = .sqlite ∧ ∃ job ∈ jobs, job.tenantId = tenantId ∧ job.payload = .null) ∧
        out = jobs.filter fun job =>
          ¬ (job.tenantId = tenantId ∧ dialect.isUsersPayload userId job.payload) :=
  refused_eq_ok

theorem anonymizeOverrides_eq_ok {rows out : List OverrideRow} :
    anonymizeOverrides dialect rows tenantId userId = .ok out ↔
      ¬ (dialect = .sqlite ∧ ∃ row ∈ rows, isUsersOverride tenantId userId row) ∧
        out = Table.updateWhere (isUsersOverride tenantId userId) anonymousOverride rows :=
  refused_eq_ok

theorem insertAudit_eq_ok {events out : List AuditEventRow} {event : AuditEventRow} :
    insertAudit events event = .ok out ↔
      (∀ old ∈ events, old.id ≠ event.id) ∧ out = events ++ [event] := by
  rw [← Table.insert_eq_some]
  unfold insertAudit
  split
  · rename_i hnone
    simp [hnone]
  · rename_i events' hsome
    simp [hsome]

/-- An insert of a job needs both keys. -/
theorem insertJob_eq_ok {jobs out : List JobRow} {row : JobRow} :
    insertJob jobs row = .ok out ↔
      Table.insert JobRow.id jobs row = some out ∧ Table.insert JobRow.key jobs row = some out := by
  have hsame : ∀ {ids keys : List JobRow}, Table.insert JobRow.id jobs row = some ids →
      Table.insert JobRow.key jobs row = some keys → ids = keys := by
    intro ids keys hids hkeys
    rw [(Table.insert_eq_some.mp hids).2, (Table.insert_eq_some.mp hkeys).2]
  unfold insertJob
  split
  · rename_i hnone
    simp [hnone]
  · rename_i hids hnone
    simp [hnone]
  · rename_i ids keys hids hkeys
    obtain rfl := hsame hids hkeys
    rw [hids, hkeys]
    simp

theorem insertJobs_eq_ok {new : List JobRow} : ∀ {jobs out : List JobRow},
    insertJobs jobs new = .ok out ↔
      Table.insertAll JobRow.id jobs new = some out ∧
        Table.insertAll JobRow.key jobs new = some out := by
  induction new with
  | nil =>
      intro jobs out
      simp [insertJobs, Table.insertAll]
  | cons row rest ih =>
      intro jobs out
      rw [insertJobs, bind_eq_ok, Table.insertAll, Table.insertAll]
      simp only [Option.bind_eq_some_iff]
      constructor
      · rintro ⟨between, hinsert, hrest⟩
        obtain ⟨hid, hkey⟩ := insertJob_eq_ok.mp hinsert
        obtain ⟨hids, hkeys⟩ := ih.mp hrest
        exact ⟨⟨between, hid, hids⟩, between, hkey, hkeys⟩
      · rintro ⟨⟨between, hid, hids⟩, between', hkey, hkeys⟩
        obtain rfl : between = between' := by
          rw [(Table.insert_eq_some.mp hid).2, (Table.insert_eq_some.mp hkey).2]
        exact ⟨between, insertJob_eq_ok.mpr ⟨hid, hkey⟩, ih.mpr ⟨hids, hkeys⟩⟩

/-- **The statements of an erasure.**  An erasure of a member returns exactly when the
four statements that can be refused are not. -/
theorem eraseAccount_eq_ok (hmember : db.isMember tenantId userId) :
    (∃ out, db.eraseAccount dialect digest tenantId userId operationId now = .ok out) ↔
      (∃ jobs allJobs, withoutJobs dialect db.queue.jobs tenantId userId = .ok jobs ∧
        insertJobs jobs (db.reconciliation dialect digest tenantId userId operationId now) =
          .ok allJobs) ∧
      (∃ overrides, anonymizeOverrides dialect db.overrides tenantId userId = .ok overrides) ∧
      ∀ event ∈ db.auditEvents, event.id ≠ eraseAuditId digest tenantId userId operationId := by
  -- the statements before the insert keep the ids
  have hids : ∀ {p q : AuditEventRow → Bool},
      (∀ event ∈ Table.updateWhere p anonymousEvent
          (Table.updateWhere q anonymousEvent db.auditEvents),
        event.id ≠ eraseAuditId digest tenantId userId operationId) ↔
      ∀ event ∈ db.auditEvents, event.id ≠ eraseAuditId digest tenantId userId operationId := by
    intro p q
    have hkeep : ∀ event, (anonymousEvent event).id = event.id := fun _ => rfl
    exact (Table.forall_key_updateWhere AuditEventRow.id
      (· ≠ eraseAuditId digest tenantId userId operationId) p _ hkeep).trans
        (Table.forall_key_updateWhere AuditEventRow.id
          (· ≠ eraseAuditId digest tenantId userId operationId) q db.auditEvents hkeep)
  unfold eraseAccount
  rw [if_neg (by simpa using hmember)]
  constructor
  · rintro ⟨out, h⟩
    obtain ⟨jobs, hjobs, h⟩ := bind_eq_ok.mp h
    obtain ⟨overrides, hoverrides, h⟩ := bind_eq_ok.mp h
    obtain ⟨allJobs, hall, h⟩ := bind_eq_ok.mp h
    obtain ⟨audited, haudited, -⟩ := bind_eq_ok.mp h
    exact ⟨⟨jobs, allJobs, hjobs, hall⟩, ⟨overrides, hoverrides⟩,
      hids.mp (insertAudit_eq_ok.mp haudited).1⟩
  · rintro ⟨⟨jobs, allJobs, hjobs, hall⟩, ⟨overrides, hoverrides⟩, hfresh⟩
    refine ⟨_, bind_eq_ok.mpr ⟨jobs, hjobs, bind_eq_ok.mpr ⟨overrides, hoverrides,
      bind_eq_ok.mpr ⟨allJobs, hall, bind_eq_ok.mpr ⟨_, insertAudit_eq_ok.mpr ⟨?_, rfl⟩, rfl⟩⟩⟩⟩⟩
    exact hids.mpr hfresh

/-- An erasure of somebody who is not a member changes nothing. -/
theorem eraseAccount_not_member (hmember : db.isMember tenantId userId = false) :
    db.eraseAccount dialect digest tenantId userId operationId now = .ok (db, emptyErasure) := by
  unfold eraseAccount
  rw [if_pos (by simp [hmember])]

/-- **What the statements have done** to the tables that name users, and to the opportunities. -/
structure Swept (dialect : Dialect) (digest : String → String) (db : Database)
    (tenantId userId operationId : String) (now : ℤ) (db' : Database) : Prop where
  opportunities : db'.opportunities = db.opportunities
  credentials : db'.credentials.Sublist (db.credentials.filter fun row =>
    ¬ (row.tenantId = tenantId ∧ row.userId = userId))
  contributors : db'.contributors.Sublist (withoutLinks db.contributors tenantId userId)
  connectorState : db'.connectorState = (withoutCursors dialect db.connectorState tenantId
    userId).filter fun row => ¬ (row.tenantId = tenantId ∧ row.ownerUserId = some userId)
  jobs : db'.queue.jobs = (db.queue.jobs.filter fun job =>
      ¬ (job.tenantId = tenantId ∧ dialect.isUsersPayload userId job.payload)) ++
    db.reconciliation dialect digest tenantId userId operationId now
  overrides : ∃ foreign, db'.overrides = Table.updateWhere foreign anonymousOverride
    (Table.updateWhere (isUsersOverride tenantId userId) anonymousOverride db.overrides)
  auditEvents : ∃ foreign audit, audit.actorId = none ∧
    db'.auditEvents = Table.updateWhere foreign anonymousEvent (Table.updateWhere
      (fun event => event.tenantId = tenantId ∧ event.actorId = some userId) anonymousEvent
      db.auditEvents) ++ [audit]

theorem eraseAccount_swept (hmember : db.isMember tenantId userId)
    (h : db.eraseAccount dialect digest tenantId userId operationId now = .ok (db', result)) :
    Swept dialect digest db tenantId userId operationId now db' := by
  unfold eraseAccount at h
  rw [if_neg (by simpa using hmember)] at h
  obtain ⟨jobs, hjobs, h⟩ := bind_eq_ok.mp h
  obtain ⟨overrides, hoverrides, h⟩ := bind_eq_ok.mp h
  obtain ⟨allJobs, hall, h⟩ := bind_eq_ok.mp h
  obtain ⟨audited, haudited, h⟩ := bind_eq_ok.mp h
  cases h
  have hinserted := (Table.insertAll_eq_some.mp (insertJobs_eq_ok.mp hall).1).2.2
  constructor
  case opportunities => rfl
  case credentials => exact List.filter_sublist
  case contributors => exact List.filter_sublist
  case connectorState => rfl
  case jobs =>
    show allJobs = _
    rw [hinserted, (withoutJobs_eq_ok.mp hjobs).2]
    rfl
  case overrides =>
    obtain ⟨-, rfl⟩ := anonymizeOverrides_eq_ok.mp hoverrides
    exact ⟨_, rfl⟩
  case auditEvents =>
    obtain ⟨-, rfl⟩ := insertAudit_eq_ok.mp haudited
    exact ⟨_, _, rfl, rfl⟩

/-- The user still belongs to a tenant. -/
def Stays (db : Database) (userId : String) : Prop := ∃ m ∈ db.memberships, m.userId = userId

/-- **The database after the erasure of a member**, table by table. -/
structure Erased (dialect : Dialect) (digest : String → String) (db : Database)
    (tenantId userId operationId : String) (now : ℤ) (db' : Database) : Prop where
  organizations : db'.organizations = db.organizations
  memberships : ∀ m, m ∈ db'.memberships ↔
    m ∈ db.memberships ∧ ¬ (m.tenantId = tenantId ∧ m.userId = userId)
  users : ∀ user, user ∈ db'.users ↔ user ∈ db.users ∧ (user.id = userId → Stays db' userId)
  versions : db'.sourceVersions.Sublist db.sourceVersions ∧ ∀ v, v ∈ db'.sourceVersions ↔
    v ∈ db.sourceVersions ∧ ¬ SoleEvidence db tenantId userId v
  sources : db'.sources.Sublist db.sources ∧ ∀ s, s ∈ db'.sources ↔
    s ∈ db.sources ∧ (s.tenantId = tenantId → ∃ v ∈ db'.sourceVersions, v.sourceId = s.id)
  contributors : ∀ link, link ∈ db'.contributors ↔
    link ∈ db.contributors ∧ ¬ (link.tenantId = tenantId ∧ link.userId = userId) ∧
      ∀ v ∈ db.sourceVersions, v.id = link.sourceVersionId → ¬ SoleEvidence db tenantId userId v
  claims : ∀ claim, claim ∈ db'.claims ↔ claim ∈ db.claims ∧
    ∀ v ∈ db.sourceVersions, v.id = claim.sourceItemId → ¬ SoleEvidence db tenantId userId v
  credentials : ∀ row, row ∈ db'.credentials ↔
    row ∈ db.credentials ∧ ¬ (row.tenantId = tenantId ∧ row.userId = userId) ∧
      (row.userId = userId → Stays db' userId)
  sessions : ∀ row, row ∈ db'.sessions ↔
    row ∈ db.sessions ∧ ¬ (row.tenantId = tenantId ∧ row.userId = userId) ∧
      (row.userId = userId → Stays db' userId)
  jobs : ∀ job, job ∈ db'.queue.jobs ↔
    (job ∈ db.queue.jobs ∧ ¬ (job.tenantId = tenantId ∧ dialect.isUsersPayload userId job.payload)) ∨
      ∃ v ∈ db.sourceVersions, SoleEvidence db tenantId userId v ∧
        job = reconcileJob digest tenantId userId operationId now v.organizationId
  connectorState : ∀ row, row ∈ db'.connectorState ↔ row ∈ db.connectorState ∧
    ¬ (row.tenantId = tenantId ∧
      (isUsersScope dialect userId row.scope ∨ row.ownerUserId = some userId))

theorem mem_orphanIds (hn : (db.sourceVersions.map SourceVersionRow.id).Nodup)
    {v : SourceVersionRow} (hv : v ∈ db.sourceVersions) :
    v.id ∈ (db.orphans dialect tenantId userId).map Prod.fst ↔
      SoleEvidence db tenantId userId v := by
  rw [List.mem_map]
  constructor
  · rintro ⟨⟨id, org⟩, horphan, hid⟩
    obtain ⟨v', hv', hid', -, hsole⟩ := (mem_orphans hn).mp horphan
    obtain rfl : v' = v := Table.eq_of_key_eq hn hv' hv (hid'.trans hid)
    exact hsole
  · intro hsole
    exact ⟨(v.id, v.organizationId), (mem_orphans hn).mpr ⟨v, hv, rfl, rfl, hsole⟩, rfl⟩

/-- A foreign key to a version cascades exactly for those versions. -/
theorem not_versionGone (hn : (db.sourceVersions.map SourceVersionRow.id).Nodup) {id : String} :
    (¬ versionGone db.sourceVersions tenantId
      ((db.orphans dialect tenantId userId).map Prod.fst) id = true) ↔
      ∀ v ∈ db.sourceVersions, v.id = id → ¬ SoleEvidence db tenantId userId v := by
  unfold versionGone
  simp only [List.any_eq_true, decide_eq_true_eq]
  constructor
  · intro hnone v hv hid hsole
    exact hnone ⟨v, hv, hid, hsole.tenant, (mem_orphanIds hn hv).mpr hsole⟩
  · rintro hnone ⟨v, hv, hid, -, horphan⟩
    exact hnone v hv hid ((mem_orphanIds hn hv).mp horphan)

theorem mem_withoutVersions (hn : (db.sourceVersions.map SourceVersionRow.id).Nodup)
    {v : SourceVersionRow} :
    v ∈ withoutVersions db.sourceVersions tenantId
      ((db.orphans dialect tenantId userId).map Prod.fst) ↔
        v ∈ db.sourceVersions ∧ ¬ SoleEvidence db tenantId userId v := by
  unfold withoutVersions
  rw [List.mem_filter, decide_eq_true_eq]
  refine and_congr_right fun hv => not_congr ?_
  rw [mem_orphanIds hn hv]
  exact ⟨fun hboth => hboth.2, fun hsole => ⟨hsole.tenant, hsole⟩⟩

/-- The organizations that lose evidence. -/
theorem mem_affected (hn : (db.sourceVersions.map SourceVersionRow.id).Nodup) {org : String} :
    org ∈ ((db.orphans dialect tenantId userId).map Prod.snd).eraseDups ↔
      ∃ v ∈ db.sourceVersions, SoleEvidence db tenantId userId v ∧ v.organizationId = org := by
  rw [List.mem_eraseDups, List.mem_map]
  constructor
  · rintro ⟨⟨id, org'⟩, horphan, rfl⟩
    obtain ⟨v, hv, -, horg, hsole⟩ := (mem_orphans hn).mp horphan
    exact ⟨v, hv, hsole, horg⟩
  · rintro ⟨v, hv, hsole, rfl⟩
    exact ⟨(v.id, v.organizationId), (mem_orphans hn).mpr ⟨v, hv, rfl, rfl, hsole⟩, rfl⟩

theorem mem_reconciliation (hn : (db.sourceVersions.map SourceVersionRow.id).Nodup) {job : JobRow} :
    job ∈ db.reconciliation dialect digest tenantId userId operationId now ↔
      ∃ v ∈ db.sourceVersions, SoleEvidence db tenantId userId v ∧
        job = reconcileJob digest tenantId userId operationId now v.organizationId := by
  unfold reconciliation
  rw [List.mem_map]
  constructor
  · rintro ⟨org, horg, rfl⟩
    obtain ⟨v, hv, hsole, rfl⟩ := (mem_affected hn).mp horg
    exact ⟨v, hv, hsole, rfl⟩
  · rintro ⟨v, hv, hsole, rfl⟩
    exact ⟨v.organizationId, (mem_affected hn).mpr ⟨v, hv, hsole, rfl⟩, rfl⟩

/-- **What an erasure can do.** -/
theorem eraseAccount_ok (hn : (db.sourceVersions.map SourceVersionRow.id).Nodup)
    (hmember : db.isMember tenantId userId)
    (h : db.eraseAccount dialect digest tenantId userId operationId now = .ok (db', result)) :
    Erased dialect digest db tenantId userId operationId now db' := by
  have hjobs := (eraseAccount_swept hmember h).jobs
  unfold eraseAccount at h
  rw [if_neg (by simpa using hmember)] at h
  obtain ⟨jobs, -, h⟩ := bind_eq_ok.mp h
  obtain ⟨overrides, -, h⟩ := bind_eq_ok.mp h
  obtain ⟨allJobs, -, h⟩ := bind_eq_ok.mp h
  obtain ⟨audited, -, h⟩ := bind_eq_ok.mp h
  cases h
  have hidentity : ∀ memberships : List MembershipRow, ∀ id : String,
      ((memberships.any fun m => m.userId = userId) = true ∨ id ≠ userId) ↔
        (id = userId → ∃ m ∈ memberships, m.userId = userId) := by
    intro memberships id
    simp only [List.any_eq_true, decide_eq_true_eq, ne_eq, or_iff_not_imp_right, not_not]
  constructor
  case organizations => rfl
  case memberships =>
    intro m
    simp only [List.mem_filter, decide_eq_true_eq]
  case users =>
    intro user
    simp only [List.mem_filter, decide_eq_true_eq, hidentity, Stays]
  case versions => exact ⟨List.filter_sublist, fun v => mem_withoutVersions hn⟩
  case sources =>
    refine ⟨List.filter_sublist, fun s => ?_⟩
    unfold withoutEmptySources
    simp only [List.mem_filter, decide_eq_true_eq, List.any_eq_true, not_and, not_not]
  case contributors =>
    intro link
    unfold withoutLinks
    simp only [List.mem_filter, decide_eq_true_eq, not_versionGone hn, and_assoc]
  case claims =>
    intro claim
    unfold withoutClaims
    simp only [List.mem_filter, decide_eq_true_eq, not_versionGone hn, and_assoc]
    refine and_congr_right fun _ => ⟨fun hboth => hboth.2, fun hnone => ⟨?_, hnone⟩⟩
    -- what the statement deletes the foreign key would delete too
    rintro ⟨-, horphan⟩
    obtain ⟨⟨id, org⟩, horphan, hid⟩ := List.mem_map.mp horphan
    obtain ⟨v, hv, hvid, -, hsole⟩ := (mem_orphans hn).mp horphan
    exact hnone v hv (hvid.trans hid) hsole
  case credentials =>
    intro row
    simp only [List.mem_filter, decide_eq_true_eq, hidentity, Stays, and_assoc]
  case sessions =>
    intro row
    simp only [List.mem_filter, decide_eq_true_eq, hidentity, Stays, and_assoc]
  case jobs =>
    intro job
    rw [hjobs, List.mem_append, mem_reconciliation hn, List.mem_filter, decide_eq_true_eq]
  case connectorState =>
    intro row
    unfold withoutCursors
    simp only [List.mem_filter, decide_eq_true_eq, and_assoc]
    refine and_congr_right fun _ => ?_
    rw [← not_or, ← and_or_left]

end Database

end RecruitingOs
