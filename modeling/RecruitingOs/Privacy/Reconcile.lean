import RecruitingOs.Ingest.Resolution
import RecruitingOs.Privacy.Effect

/-!
# An erasure reconciles what it deletes

The erasure deletes claims that stored opportunities may still name: `source_claim_ids`
is a JSON array without a foreign key.  So the transaction that deletes them queues one
`privacy.reconcile` job for each organization that loses evidence, and the worker's
branch for that job recomputes the opportunities from what is left.
-/

namespace RecruitingOs

namespace Worker

/-- `z.object({ organizationId: z.string().min(1) }).parse(payload)`. -/
def reconcilePayload (payload : Json) : Option String :=
  match payload.get? "organizationId" with
  | some (.str organizationId) => if organizationId = "" then none else some organizationId
  | _ => none

/-- The `privacy.reconcile` branch of `main`; `none` where it throws. -/
def privacyReconcile (getTime : Json → Option ℤ) (digest : String → String) (db : Database)
    (clock : Resolver.Clock) (job : JobRow) (now : ℤ) : Option Database :=
  (reconcilePayload job.payload).bind fun organizationId =>
    db.resolve getTime digest clock organizationId job.tenantId now

end Worker

namespace Database

variable {dialect : Dialect} {digest : String → String}
  {db db' : Database} {tenantId userId operationId : String} {now : ℤ}
  {result : AccountErasureResult}

/-- The organization has lost a private version. -/
def LostEvidence (db db' : Database) (tenantId org : String) : Prop :=
  ∃ v ∈ db.sourceVersions, v ∉ db'.sourceVersions ∧ v.tenantId = tenantId ∧
    v.organizationId = org ∧ ∃ s ∈ db.sources, s.id = v.sourceId ∧ s.sourceType.isPrivate

/-- The jobs of a transaction that reconcile an organization. -/
def reconciling (jobs : List JobRow) (org : String) : List JobRow :=
  jobs.filter fun job => job.payload = .obj [("organizationId", .str org)]

/-- An erasure of a member appends its reconciliation to the jobs that stay. -/
theorem eraseAccount_jobs (hmember : db.isMember tenantId userId)
    (h : db.eraseAccount dialect digest tenantId userId operationId now = .ok (db', result)) :
    ∃ kept, db'.queue.jobs =
        kept ++ db.reconciliation dialect digest tenantId userId operationId now ∧
      kept.Sublist db.queue.jobs :=
  ⟨_, (eraseAccount_swept hmember h).jobs, List.filter_sublist⟩

/-- One job for each organization among the orphans. -/
theorem reconciling_reconciliation (org : String) :
    reconciling (db.reconciliation dialect digest tenantId userId operationId now) org =
      if org ∈ ((db.orphans dialect tenantId userId).map Prod.snd).eraseDups then
        [reconcileJob digest tenantId userId operationId now org]
      else [] := by
  unfold reconciling reconciliation
  generalize ((db.orphans dialect tenantId userId).map Prod.snd) = orgs
  rw [List.filter_map]
  have hsame : ∀ o : String, (decide ((reconcileJob digest tenantId userId operationId now
      o).payload = .obj [("organizationId", .str org)])) = decide (o = org) := by
    intro o
    simp [reconcileJob]
  have hfilter : orgs.eraseDups.filter ((fun job : JobRow =>
      decide (job.payload = .obj [("organizationId", .str org)])) ∘
        reconcileJob digest tenantId userId operationId now) =
      orgs.eraseDups.filter (fun o => o = org) := by
    apply List.filter_congr
    intro o _
    exact hsame o
  rw [hfilter]
  split
  · rename_i hmem
    rw [List.filter_eq, List.count_eq_one_of_mem (Table.nodup_eraseDups orgs) hmem,
      List.replicate_one, List.map_singleton]
  · rename_i hmem
    rw [List.filter_eq_nil_iff.mpr, List.map_nil]
    intro o ho
    rw [decide_eq_true_eq]
    rintro rfl
    exact hmem ho

/-- An organization loses a private version exactly where the erasure found an orphan. -/
theorem lostEvidence_iff (hn : (db.sourceVersions.map SourceVersionRow.id).Nodup)
    (hmember : db.isMember tenantId userId)
    (h : db.eraseAccount dialect digest tenantId userId operationId now = .ok (db', result))
    {org : String} : LostEvidence db db' tenantId org ↔
      org ∈ ((db.orphans dialect tenantId userId).map Prod.snd).eraseDups := by
  have hversions := (eraseAccount_ok hn hmember h).versions.2
  rw [mem_affected hn]
  constructor
  · rintro ⟨v, hv, hgone, -, horg, -⟩
    refine ⟨v, hv, ?_, horg⟩
    by_contra hsole
    exact hgone ((hversions v).mpr ⟨hv, hsole⟩)
  · rintro ⟨v, hv, hsole, horg⟩
    obtain ⟨s, hs, hsid, -, hprivate⟩ := hsole.source
    exact ⟨v, hv, fun hkept => ((hversions v).mp hkept).2 hsole, hsole.tenant, horg, s, hs, hsid,
      hprivate⟩

/-- **An erasure reconciles what it deletes.**  An erasure that returns has appended one
queued job for each organization of the tenant that lost a private version, and none for
another; and when the worker has run such a job, in whatever database it finds by then,
the organization has the opportunities that the resolver computes from the claims and
active overrides, and each of them names claims that exist. -/
theorem eraseAccount_reconciles (getTime : Json → Option ℤ)
    (hn : (db.sourceVersions.map SourceVersionRow.id).Nodup)
    (h : db.eraseAccount dialect digest tenantId userId operationId now = .ok (db', result)) :
    ∃ kept new, db'.queue.jobs = kept ++ new ∧ kept.Sublist db.queue.jobs ∧
      (∀ job ∈ new, job.tenantId = tenantId ∧ job.type = "privacy.reconcile" ∧
        job.status = .queued ∧ ∃ org, job.payload = .obj [("organizationId", .str org)]) ∧
      (∀ org, LostEvidence db db' tenantId org → (reconciling new org).length = 1) ∧
      (∀ org, ¬ LostEvidence db db' tenantId org → reconciling new org = []) ∧
      ∀ org, ∀ job ∈ reconciling new org, ∀ (dbJob dbDone : Database) (clock : Resolver.Clock)
        (runAt : ℤ), Worker.privacyReconcile getTime digest dbJob clock job runAt = some dbDone →
          dbDone.claims = dbJob.claims ∧ dbDone.overrides = dbJob.overrides ∧
          dbDone.opportunitiesOf tenantId org =
            Resolver.resolveOrganization getTime digest (dbDone.view org tenantId) clock org
              runAt ∧
          ∀ o ∈ dbDone.opportunitiesOf tenantId org, ∀ id ∈ o.sourceClaimIds,
            ∃ c ∈ dbDone.claims, c.id = id ∧ c.tenantId = tenantId ∧ c.organizationId = org := by
  have hrun : ∀ org, ∀ job : JobRow, job.tenantId = tenantId →
      job.payload = .obj [("organizationId", .str org)] →
      ∀ (dbJob dbDone : Database) (clock : Resolver.Clock) (runAt : ℤ),
        Worker.privacyReconcile getTime digest dbJob clock job runAt = some dbDone →
          dbJob.resolve getTime digest clock org tenantId runAt = some dbDone := by
    intro org job htenant hpayload dbJob dbDone clock runAt hdone
    obtain ⟨parsed, hparsed, hresolve⟩ := Option.bind_eq_some_iff.mp hdone
    have horg : parsed = org := by
      rw [hpayload] at hparsed
      simp only [Worker.reconcilePayload, Json.get?, List.lookup_cons_self] at hparsed
      split at hparsed
      · cases hparsed
      · exact (Option.some.inj hparsed).symm
    rw [← horg, ← htenant]
    exact hresolve
  by_cases hmember : db.isMember tenantId userId
  · obtain ⟨kept, hjobs, hkept⟩ := eraseAccount_jobs hmember h
    have hnew : ∀ job ∈ db.reconciliation dialect digest tenantId userId operationId now,
        ∃ org, job = reconcileJob digest tenantId userId operationId now org := by
      intro job hjob
      obtain ⟨org, -, rfl⟩ := List.mem_map.mp hjob
      exact ⟨org, rfl⟩
    refine ⟨kept, _, hjobs, hkept, ?_, ?_, ?_, ?_⟩
    · intro job hjob
      obtain ⟨org, rfl⟩ := hnew job hjob
      exact ⟨rfl, rfl, rfl, org, rfl⟩
    · intro org hlost
      rw [reconciling_reconciliation, if_pos ((lostEvidence_iff hn hmember h).mp hlost)]
      rfl
    · intro org hlost
      rw [reconciling_reconciliation,
        if_neg fun hmem => hlost ((lostEvidence_iff hn hmember h).mpr hmem)]
    · intro org job hjob dbJob dbDone clock runAt hdone
      obtain ⟨hjob, hpayload⟩ := List.mem_filter.mp hjob
      obtain ⟨org', rfl⟩ := hnew job hjob
      have hresolve := hrun org _ rfl (of_decide_eq_true hpayload) dbJob dbDone clock runAt hdone
      obtain ⟨⟨opportunities, rfl⟩, houtput, -⟩ := resolve_eq_some hresolve
      exact ⟨rfl, rfl, houtput, fun o ho => sourceClaimIds_of_resolve hresolve ho⟩
  · rw [eraseAccount_not_member (by simpa using hmember)] at h
    cases h
    refine ⟨db.queue.jobs, [], (List.append_nil _).symm, List.Sublist.refl _, ?_, ?_, ?_, ?_⟩
    · intro job hjob
      cases hjob
    · rintro org ⟨v, hv, hgone, -⟩
      exact absurd hv hgone
    · intro org _
      rfl
    · intro org job hjob
      cases hjob

/-- A member who alone has contributed one mail about one organization. -/
def mailDb : Database :=
  { Database.empty with
    memberships := [⟨"t1", "u1"⟩]
    organizations := [⟨"t1", "club"⟩]
    sources := [⟨"src_1", "t1", "club", .gmail, "m1", some "m1", none, none⟩]
    sourceVersions :=
      [{  id := "srcv_1"
          sourceId := "src_1"
          tenantId := "t1"
          organizationId := "club"
          contentHash := "h"
          rawText := "Applications close on 10 September."
          media := []
          publishedAt := none
          fetchedAt := "2026-09-01T00:00:00.000Z"
          metadata := .obj []
          status := .succeeded
          attemptCount := 1
          nextAttemptAt := none
          lastError := none
          startedAt := some 0
          completedAt := some 0 }]
    contributors := [⟨"t1", "srcv_1", "u1"⟩] }

/-- The organization of the mail is reconciled by one job. -/
theorem eraseAccount_reconciles_mail :
    ∃ db' result, mailDb.eraseAccount .sqlite (fun _ => "0") "t1" "u1" "op1" 0 = .ok (db', result) ∧
      ∃ kept new, db'.queue.jobs = kept ++ new ∧ (reconciling new "club").length = 1 := by
  obtain ⟨out, hout⟩ : ∃ out, mailDb.eraseAccount .sqlite (fun _ => "0") "t1" "u1" "op1" 0 =
      .ok out := ⟨_, rfl⟩
  obtain ⟨db', result⟩ := out
  have hn : (mailDb.sourceVersions.map SourceVersionRow.id).Nodup := List.nodup_singleton _
  obtain ⟨kept, new, hjobs, -, -, hone, -, -⟩ :=
    eraseAccount_reconciles (fun _ => none) hn hout
  refine ⟨db', result, hout, kept, new, hjobs, hone "club" ?_⟩
  rw [lostEvidence_iff hn rfl hout]
  decide

end Database

end RecruitingOs
