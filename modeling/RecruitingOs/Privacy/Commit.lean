import RecruitingOs.Privacy.Evidence

/-!
# Whether an erasure commits

Four statements of an erasure can be refused: the loop over the job payloads (SQLite),
the update of the overrides (SQLite, whose `actor_id` is `not null`), the inserts of the
reconciliations and the insert of the audit event.  `Erasable` is when none of them is;
its ids are made of the operation id, which the client chooses.
-/

namespace RecruitingOs

namespace Database

variable {dialect : Dialect} {digest : String → String} {db : Database}
  {tenantId userId operationId : String} {now : ℤ}

/-- The id of the reconciliation of an organization. -/
def reconcileId (digest : String → String) (tenantId userId operationId organizationId : String) :
    String :=
  jobId digest tenantId "privacy.reconcile" (reconcileKey userId operationId organizationId)

/-- **When an erasure of a member commits.** -/
structure Erasable (dialect : Dialect) (digest : String → String) (db : Database)
    (tenantId userId operationId : String) : Prop where
  /-- SQLite: no job of the tenant has the payload `null`. -/
  payloads : dialect = .sqlite → ∀ job ∈ db.queue.jobs, job.tenantId = tenantId →
    job.payload ≠ .null
  /-- SQLite: the user is not the actor of an override. -/
  overrides : dialect = .sqlite → ∀ row ∈ db.overrides, ¬ isUsersOverride tenantId userId row
  /-- No job that stays has the id or the key of a reconciliation. -/
  jobs : ∀ v ∈ db.sourceVersions, SoleEvidence db tenantId userId v → ∀ job ∈ db.queue.jobs,
    ¬ (job.tenantId = tenantId ∧ dialect.isUsersPayload userId job.payload) →
      job.id ≠ reconcileId digest tenantId userId operationId v.organizationId ∧
      job.key ≠ (tenantId, "privacy.reconcile", reconcileKey userId operationId v.organizationId)
  /-- The ids of the reconciliations do not collide. -/
  distinct : ∀ v ∈ db.sourceVersions, ∀ w ∈ db.sourceVersions,
    SoleEvidence db tenantId userId v → SoleEvidence db tenantId userId w →
      reconcileId digest tenantId userId operationId v.organizationId =
        reconcileId digest tenantId userId operationId w.organizationId →
      v.organizationId = w.organizationId
  /-- No audit event has the id of this one. -/
  audit : ∀ event ∈ db.auditEvents, event.id ≠ eraseAuditId digest tenantId userId operationId

theorem reconcileKey_inj {a b : String} :
    reconcileKey userId operationId a = reconcileKey userId operationId b ↔ a = b := by
  unfold reconcileKey
  exact String.append_right_inj _

/-- The reconciliations are inserted exactly if their ids and keys are new and distinct. -/
theorem insertJobs_reconciliation (hn : (db.sourceVersions.map SourceVersionRow.id).Nodup)
    {jobs : List JobRow} :
    (∃ out, insertJobs jobs
        (db.reconciliation dialect digest tenantId userId operationId now) = .ok out) ↔
      (∀ v ∈ db.sourceVersions, SoleEvidence db tenantId userId v → ∀ job ∈ jobs,
        job.id ≠ reconcileId digest tenantId userId operationId v.organizationId ∧
        job.key ≠
          (tenantId, "privacy.reconcile", reconcileKey userId operationId v.organizationId)) ∧
      ∀ v ∈ db.sourceVersions, ∀ w ∈ db.sourceVersions,
        SoleEvidence db tenantId userId v → SoleEvidence db tenantId userId w →
          reconcileId digest tenantId userId operationId v.organizationId =
            reconcileId digest tenantId userId operationId w.organizationId →
          v.organizationId = w.organizationId := by
  have hids : (db.reconciliation dialect digest tenantId userId operationId now).map JobRow.id =
      ((db.orphans dialect tenantId userId).map Prod.snd).eraseDups.map
        (reconcileId digest tenantId userId operationId) := List.map_map
  have hkeys : (db.reconciliation dialect digest tenantId userId operationId now).map JobRow.key =
      ((db.orphans dialect tenantId userId).map Prod.snd).eraseDups.map fun org =>
        (tenantId, "privacy.reconcile", reconcileKey userId operationId org) := List.map_map
  have hdistinct := Table.nodup_eraseDups ((db.orphans dialect tenantId userId).map Prod.snd)
  simp only [insertJobs_eq_ok, Table.insertAll_eq_some, hids, hkeys,
    List.nodup_map_iff_inj_on hdistinct, mem_affected hn, mem_reconciliation hn]
  constructor
  · rintro ⟨out, ⟨hcollide, hid, -⟩, -, hkey, -⟩
    refine ⟨fun v hv hsole job hjob => ⟨?_, ?_⟩, fun v hv w hw hvsole hwsole hsame => ?_⟩
    · exact hid job hjob _ ⟨v, hv, hsole, rfl⟩
    · exact hkey job hjob _ ⟨v, hv, hsole, rfl⟩
    · exact hcollide _ ⟨v, hv, hvsole, rfl⟩ _ ⟨w, hw, hwsole, rfl⟩ hsame
  · rintro ⟨hfresh, hcollide⟩
    refine ⟨_, ⟨?_, ?_, rfl⟩, ?_, ?_, rfl⟩
    · rintro _ ⟨v, hv, hvsole, rfl⟩ _ ⟨w, hw, hwsole, rfl⟩ hsame
      exact hcollide v hv w hw hvsole hwsole hsame
    · rintro job hjob _ ⟨v, hv, hsole, rfl⟩
      exact (hfresh v hv hsole job hjob).1
    · -- the keys end in the organizations
      rintro _ ⟨v, hv, -, rfl⟩ _ ⟨w, hw, -, rfl⟩ hsame
      simp only [Prod.mk.injEq, true_and] at hsame
      exact reconcileKey_inj.mp hsame
    · rintro job hjob _ ⟨v, hv, hsole, rfl⟩
      exact (hfresh v hv hsole job hjob).2

/-- **Committing, exactly.**  On any database whose versions have their primary key, and
for any operation id, the erasure of a member commits if and only if it is `Erasable`. -/
theorem eraseAccount_commits_iff (hn : (db.sourceVersions.map SourceVersionRow.id).Nodup)
    (hmember : db.isMember tenantId userId) :
    (∃ out, db.eraseAccount dialect digest tenantId userId operationId now = .ok out) ↔
      Erasable dialect digest db tenantId userId operationId := by
  rw [eraseAccount_eq_ok hmember]
  constructor
  · rintro ⟨⟨jobs, allJobs, hjobs, hall⟩, ⟨overrides, hoverrides⟩, haudit⟩
    obtain ⟨hnull, rfl⟩ := withoutJobs_eq_ok.mp hjobs
    obtain ⟨hactor, -⟩ := anonymizeOverrides_eq_ok.mp hoverrides
    obtain ⟨hfresh, hdistinct⟩ := (insertJobs_reconciliation hn).mp ⟨allJobs, hall⟩
    exact
      { payloads := fun hsqlite job hjob htenant hpayload =>
          hnull ⟨hsqlite, job, hjob, htenant, hpayload⟩
        overrides := fun hsqlite row hrow hmine => hactor ⟨hsqlite, row, hrow, hmine⟩
        jobs := fun v hv hsole job hjob hkept =>
          hfresh v hv hsole job (List.mem_filter.mpr ⟨hjob, decide_eq_true hkept⟩)
        distinct := hdistinct
        audit := haudit }
  · intro h
    have hkept : ∀ v ∈ db.sourceVersions, SoleEvidence db tenantId userId v →
        ∀ job ∈ db.queue.jobs.filter fun job =>
            ¬ (job.tenantId = tenantId ∧ dialect.isUsersPayload userId job.payload),
          job.id ≠ reconcileId digest tenantId userId operationId v.organizationId ∧
          job.key ≠
            (tenantId, "privacy.reconcile", reconcileKey userId operationId v.organizationId) := by
      intro v hv hsole job hjob
      obtain ⟨hin, hstays⟩ := List.mem_filter.mp hjob
      exact h.jobs v hv hsole job hin (of_decide_eq_true hstays)
    obtain ⟨allJobs, hall⟩ := (insertJobs_reconciliation hn).mpr ⟨hkept, h.distinct⟩
    refine ⟨⟨_, allJobs, withoutJobs_eq_ok.mpr ⟨?_, rfl⟩, hall⟩,
      ⟨_, anonymizeOverrides_eq_ok.mpr ⟨?_, rfl⟩⟩, h.audit⟩
    · rintro ⟨hsqlite, job, hjob, htenant, hpayload⟩
      exact h.payloads hsqlite job hjob htenant hpayload
    · rintro ⟨hsqlite, row, hrow, hmine⟩
      exact h.overrides hsqlite row hrow hmine

open PrivacyRun (start demoDigest memberA message) in
/-- A member who has contributed a message, for the first time, can leave. -/
theorem eraseAccount_commits_contributed :
    ∃ s, Transition.exec (PrivacyRun.step .sqlite demoDigest fun _ => "") start
        [.upsertOrganization ⟨"t", "c"⟩, .signIn ⟨"i", "a"⟩ "t",
          .stageSource (message memberA) "t"] = some s ∧
      ∃ out, s.db.eraseAccount .sqlite demoDigest "t" memberA "1" 0 = .ok out := by
  obtain ⟨s, hs⟩ : ∃ s, Transition.exec (PrivacyRun.step .sqlite demoDigest fun _ => "") start
      [.upsertOrganization ⟨"t", "c"⟩, .signIn ⟨"i", "a"⟩ "t",
        .stageSource (message memberA) "t"] = some s := ⟨_, rfl⟩
  have hreached : PrivacyRun.Reached .sqlite demoDigest (fun _ => "") s :=
    Transition.Reachable.of_exec (.start rfl) hs
  have hversions : s.db.sourceVersions.map SourceVersionRow.organizationId = ["c"] := by
    cases hs
    decide
  have horganization : ∀ v ∈ s.db.sourceVersions, v.organizationId = "c" := by
    intro v hv
    have hmem : v.organizationId ∈ ["c"] := hversions ▸ List.mem_map_of_mem hv
    exact List.mem_singleton.mp hmem
  have hempty : s.db.queue.jobs = [] ∧ s.db.overrides = [] ∧ s.db.auditEvents = [] := by
    cases hs
    decide
  have hmember : s.db.isMember "t" memberA := by
    cases hs
    decide
  refine ⟨s, hs, (eraseAccount_commits_iff hreached.inv.evidence.versionIds hmember).mpr ?_⟩
  exact
    { payloads := fun _ job hjob => by simp [hempty.1] at hjob
      overrides := fun _ row hrow => by simp [hempty.2.1] at hrow
      jobs := fun _ _ _ job hjob => by simp [hempty.1] at hjob
      distinct := fun v hv w hw _ _ _ => (horganization v hv).trans (horganization w hw).symm
      audit := fun event hevent => by simp [hempty.2.2] at hevent }

end Database

namespace PrivacyRun

/-! ### Two erasures that do not commit -/

/-- A member has submitted an override. -/
def withOverride : List PrivacyStep :=
  [.upsertOrganization ⟨"t", "c"⟩, .signIn ⟨"i", "a"⟩ "t",
    .putOpportunityOverride
      { id := "o", tenantId := "t", opportunityId := "p", organizationId := "c",
        actorId := some memberA, patch := ⟨some "", none, none, none, none⟩, reason := "", createdAt := "" }]

/-- A member has been erased by the request `"1"` and has signed in again. -/
def signedInAgain : List PrivacyStep :=
  [.signIn ⟨"i", "a"⟩ "t", .eraseAccount "t" memberA "1" 0, .signIn ⟨"i", "a"⟩ "t"]

/-- Every erasure of a member commits. -/
def AlwaysCommits (dialect : Dialect) (digest sha256 : String → String) : Prop :=
  ∀ s, Reached dialect digest sha256 s → ∀ tenantId userId operationId now,
    s.db.isMember tenantId userId →
      ∃ out, s.db.eraseAccount dialect digest tenantId userId operationId now = .ok out

/-- In SQLite an override of the member stops the erasure, and in both databases a request
id that is used again. -/
theorem eraseAccount_not_commits :
    ¬ AlwaysCommits .sqlite demoDigest (fun _ => "") ∧
      ¬ AlwaysCommits .postgres demoDigest (fun _ => "") := by
  constructor
  · intro h
    obtain ⟨s, hs⟩ : ∃ s, Transition.exec (step .sqlite demoDigest fun _ => "") start withOverride =
        some s := ⟨_, rfl⟩
    have hreached : Reached .sqlite demoDigest (fun _ => "") s :=
      Transition.Reachable.of_exec (.start rfl) hs
    obtain ⟨out, hout⟩ := h s hreached "t" memberA "1" 0 (by cases hs; decide)
    cases hs
    cases hout
  · intro h
    obtain ⟨s, hs⟩ : ∃ s, Transition.exec (step .postgres demoDigest fun _ => "") start
        signedInAgain = some s := ⟨_, rfl⟩
    have hreached : Reached .postgres demoDigest (fun _ => "") s :=
      Transition.Reachable.of_exec (.start rfl) hs
    obtain ⟨out, hout⟩ := h s hreached "t" memberA "1" 0 (by cases hs; decide)
    cases hs
    cases hout

end PrivacyRun

end RecruitingOs
