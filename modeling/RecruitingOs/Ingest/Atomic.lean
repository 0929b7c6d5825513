import RecruitingOs.Ingest.Links
import RecruitingOs.Privacy.Effect
import RecruitingOs.Store.ContentAddress

/-!
# Ingest is atomic

No claims without success, and no success without claims.  `ClaimsSettled` is the first
half and an invariant: a claim is only ever on a version that has succeeded.  So a
version that is processed has no claims yet, and the transaction that commits stores all
of them and resolves the organization from a view with all of them (`Committed`).  What
a call has committed, the calls on its links keep (`KeepsSucceeded`): they are on other
versions, and where one of them commits too, it resolves the organization again from a
view with these claims.
-/

namespace RecruitingOs

namespace Database

/-- Claims are on succeeded versions. -/
structure ClaimsSettled (db : Database) : Prop where
  versionIds : (db.sourceVersions.map SourceVersionRow.id).Nodup
  claims : ∀ c ∈ db.claims, ∃ v ∈ db.sourceVersions,
    v.id = c.sourceItemId ∧ v.status = .succeeded

/-- The succeeded versions are as they were, and their claims. -/
structure KeepsSucceeded (db db' : Database) : Prop where
  versions : ∀ v ∈ db.sourceVersions, v.status = .succeeded → v ∈ db'.sourceVersions
  claims : ∀ v ∈ db.sourceVersions, v.status = .succeeded →
    db'.claimsOn v.id = db.claimsOn v.id

theorem KeepsSucceeded.refl (db : Database) : KeepsSucceeded db db :=
  ⟨fun _ hv _ => hv, fun _ _ _ => rfl⟩

/-- The opportunities of an organization are what the resolver made of a database that
listed these claims. -/
def ResolvedWith (ctx : IngestContext) (db : Database) (tenantId orgId : String)
    (claims : List Claim) : Prop :=
  ∃ (dbThen : Database) (clock : Resolver.Clock) (now : ℤ),
    (∀ c ∈ claims, c ∈ (dbThen.view orgId tenantId).claims) ∧
      db.opportunitiesOf tenantId orgId =
        Resolver.resolveOrganization ctx.getTime ctx.digest (dbThen.view orgId tenantId) clock orgId
          now

/-- What a call leaves that has processed a version. -/
structure Committed (ctx : IngestContext) (db : Database) (tenantId orgId versionId : String)
    (extracted : List ExtractedClaim) : Prop where
  version : ∃ v ∈ db.sourceVersions, v.id = versionId ∧ v.tenantId = tenantId ∧
    v.status = .succeeded
  stored : ∀ e ∈ extracted, ∃ c ∈ db.claimsOn versionId,
    c.field = e.field ∧ c.value.stringify = e.value.stringify
  listed : ∀ c ∈ db.claimsOn versionId, c.tenantId = tenantId ∧ c.organizationId = orgId
  resolved : db.ResolvedWith ctx tenantId orgId (db.claimsOn versionId)

/-- The failure of the attempt is recorded on the version. -/
def FailureRecorded (db : Database) (tenantId versionId : String) : Prop :=
  ∃ v ∈ db.sourceVersions, v.id = versionId ∧ v.tenantId = tenantId ∧ v.lastError.isSome ∧
    v.status = if v.attemptCount < 5 then .retryableFailed else .terminalFailed

variable {ctx : IngestContext} {env : DocumentEnv} {db db' queued between : Database}
  {source : SourceItem} {tenantId orgId versionId : String} {outcome : IngestOutcome}
  {staged : StageSourceResult} {row : SourceVersionRow} {extraction : Extraction}

theorem mem_claimsOn {c : Claim} {id : String} :
    c ∈ db.claimsOn id ↔ c ∈ db.claims ∧ c.sourceItemId = id := by
  simp [claimsOn]

theorem mem_listClaims {c : Claim} :
    c ∈ db.listClaims orgId tenantId ↔
      c ∈ db.claims ∧ c.tenantId = tenantId ∧ c.organizationId = orgId := by
  simp [listClaims, List.mem_insertionSort]

/-! ### One document -/

/-- Staging keeps what has succeeded, and the claims and opportunities altogether. -/
theorem keeps_stage (h : ClaimsSettled db)
    (hstage : db.stageSource ctx.digest ctx.sha256 source tenantId = .ok (queued, staged)) :
    ClaimsSettled queued ∧ KeepsSucceeded db queued ∧ queued.claims = db.claims ∧
      queued.opportunities = db.opportunities := by
  have hversions : ∀ v ∈ db.sourceVersions, v.status = .succeeded → v ∈ queued.sourceVersions := by
    intro v hv hstatus
    refine stageSource_kept hstage h.versionIds hv ?_
    rw [hstatus]
    rfl
  obtain ⟨_, _, _, hframe⟩ := stageSource_frame hstage
  have hclaims : queued.claims = db.claims := by rw [hframe]
  have hopportunities : queued.opportunities = db.opportunities := by rw [hframe]
  refine ⟨⟨stageSource_nodup hstage h.versionIds, fun c hc => ?_⟩, ⟨hversions, fun v hv _ => ?_⟩,
    hclaims, hopportunities⟩
  · rw [hclaims] at hc
    obtain ⟨v, hv, hid, hstatus⟩ := h.claims c hc
    exact ⟨v, hversions v hv hstatus, hid, hstatus⟩
  · rw [claimsOn, claimsOn, hclaims]

/-- A version that is being processed is none of those that have succeeded. -/
theorem ne_of_busy (hn : (db.sourceVersions.map SourceVersionRow.id).Nodup)
    (hrow : row ∈ db.sourceVersions) (hbusy : row.status.busy) {v : SourceVersionRow}
    (hv : v ∈ db.sourceVersions) (hstatus : v.status = .succeeded) : v.id ≠ row.id := by
  intro hid
  rw [← Table.eq_of_key_eq hn hv hrow hid, hstatus] at hbusy
  cases hbusy

/-- Beginning to process a version keeps what has succeeded: such a version is not ready. -/
theorem keeps_markProcessing (h : ClaimsSettled db) {now : ℤ} {attempt : ℕ}
    (hok : db.markSourceProcessing versionId tenantId now = .ok (db', attempt)) :
    ClaimsSettled db' ∧ KeepsSucceeded db db' ∧ db'.claims = db.claims ∧
      db'.opportunities = db.opportunities := by
  unfold markSourceProcessing at hok
  split at hok
  · cases hok
  · cases hok
    have hversions : ∀ v ∈ db.sourceVersions, v.status = .succeeded →
        v ∈ (db.updateVersion tenantId versionId fun old =>
          if processable old.status then processingRow now old else old).sourceVersions := by
      intro v hv hstatus
      refine Table.mem_updateWhere.mpr ⟨v, hv, ?_⟩
      simp [hstatus, processable]
    refine ⟨⟨?_, fun c hc => ?_⟩, ⟨hversions, fun _ _ _ => rfl⟩, rfl, rfl⟩
    · rw [updateVersion_ids]
      · exact h.versionIds
      · intro old
        split <;> rfl
    · obtain ⟨v, hv, hid, hstatus⟩ := h.claims c hc
      exact ⟨v, hversions v hv hstatus, hid, hstatus⟩

theorem KeepsSucceeded.trans {db'' : Database} (h : KeepsSucceeded db db')
    (h' : KeepsSucceeded db' db'') : KeepsSucceeded db db'' := by
  refine ⟨fun v hv hstatus => ?_, fun v hv hstatus => ?_⟩
  · exact h'.versions v (h.versions v hv hstatus) hstatus
  · rw [h'.claims v (h.versions v hv hstatus) hstatus, h.claims v hv hstatus]

/-- Recording a failure of a version that is being processed keeps what has succeeded. -/
theorem keeps_markFailed (h : ClaimsSettled db) (hrow : row ∈ db.sourceVersions)
    (hid : row.id = versionId) (hbusy : row.status.busy) (failure : ProcessingFailure) (now : ℤ) :
    ClaimsSettled (db.markSourceFailed versionId failure tenantId now) ∧
      KeepsSucceeded db (db.markSourceFailed versionId failure tenantId now) := by
  have hversions : ∀ v ∈ db.sourceVersions, v.status = .succeeded →
      v ∈ (db.markSourceFailed versionId failure tenantId now).sourceVersions := by
    intro v hv hstatus
    refine mem_updateVersion_of_ne hv ?_
    rw [← hid]
    exact ne_of_busy h.versionIds hrow hbusy hv hstatus
  refine ⟨⟨?_, fun c hc => ?_⟩, hversions, fun _ _ _ => rfl⟩
  · rw [markSourceFailed, updateVersion_ids]
    · exact h.versionIds
    · exact fun _ => rfl
  · obtain ⟨v, hv, hvid, hstatus⟩ := h.claims c hc
    exact ⟨v, hversions v hv hstatus, hvid, hstatus⟩

/-- The claims transaction on a version that is being processed. -/
theorem committed_of_claimsTransaction (h : ClaimsSettled db) (hrow : row ∈ db.sourceVersions)
    (hid : isVersion tenantId versionId row) (hbusy : row.status.busy) {extractedAt : ℕ → ℤ}
    {clock : Resolver.Clock} {now : ℤ}
    (hcommit : db.claimsTransaction ctx.getTime ctx.digest
      (claimsOf ctx.digest tenantId versionId source extractedAt extraction.claims) clock
      source.organizationId tenantId versionId now = some db') :
    ClaimsSettled db' ∧ KeepsSucceeded db db' ∧
      Committed ctx db' tenantId source.organizationId versionId extraction.claims ∧
      ∀ claims, (∀ c ∈ claims, c ∈ db'.claims ∧ c.tenantId = tenantId ∧
        c.organizationId = source.organizationId) →
          db'.ResolvedWith ctx tenantId source.organizationId claims := by
  obtain ⟨hrowTenant, hrowId⟩ := isVersion_iff.mp hid
  have hne : ∀ v ∈ db.sourceVersions, v.status = .succeeded → v.id ≠ versionId := by
    intro v hv hstatus
    rw [← hrowId]
    exact ne_of_busy h.versionIds hrow hbusy hv hstatus
  obtain ⟨hstored, hversions, houtput⟩ := claimsTransaction_eq_some hcommit
  obtain ⟨-, hfrom⟩ := putClaims_identity hstored
  -- the version has had no claims before
  have hnew : ∀ c ∈ db'.claims, c.sourceItemId = versionId →
      c.tenantId = tenantId ∧ c.organizationId = source.organizationId := by
    intro c hc hcv
    rcases hfrom c hc with ⟨old, hold, hsame⟩ | ⟨new, hnew, hsame⟩
    · obtain ⟨v, hv, hvid, hstatus⟩ := h.claims old hold
      have hversion := (Claim.identity_eq_iff.mp hsame).2.2.2.1
      exact absurd (hvid.trans (hversion.trans hcv)) (hne v hv hstatus)
    · obtain ⟨-, htenant, horg, -⟩ := Claim.identity_eq_iff.mp hsame
      obtain ⟨pair, -, rfl⟩ := List.mem_map.mp hnew
      exact ⟨htenant.symm, horg.symm⟩
  have hresolved : ∀ claims : List Claim, (∀ c ∈ claims, c ∈ db'.claims ∧ c.tenantId = tenantId ∧
      c.organizationId = source.organizationId) →
        db'.ResolvedWith ctx tenantId source.organizationId claims := fun claims hclaims =>
    ⟨{ db with claims := db'.claims }, clock, now,
      fun c hc => mem_listClaims.mpr (hclaims c hc), houtput⟩
  have hsucceeded : succeededRow now row ∈ db'.sourceVersions := by
    rw [hversions]
    exact mem_updateVersion hrow hid
  have hkept : ∀ v ∈ db.sourceVersions, v.status = .succeeded → v ∈ db'.sourceVersions := by
    intro v hv hstatus
    rw [hversions]
    exact mem_updateVersion_of_ne hv (hne v hv hstatus)
  refine ⟨⟨?_, fun c hc => ?_⟩, ⟨hkept, fun v hv hstatus => ?_⟩,
    ⟨⟨_, hsucceeded, hrowId, hrowTenant, rfl⟩, fun e he => ?_, fun c hc => ?_, ?_⟩, hresolved⟩
  · rw [hversions, updateVersion_ids (f := succeededRow now) fun _ => rfl]
    exact h.versionIds
  · rcases hfrom c hc with ⟨old, hold, hsame⟩ | ⟨new, hnew, hsame⟩
    · obtain ⟨v, hv, hvid, hstatus⟩ := h.claims old hold
      exact ⟨v, hkept v hv hstatus, hvid.trans (Claim.identity_eq_iff.mp hsame).2.2.2.1, hstatus⟩
    · have hversion := (Claim.identity_eq_iff.mp hsame).2.2.2.1
      rw [claimsOf_version new hnew] at hversion
      exact ⟨_, hsucceeded, hrowId.trans hversion, rfl⟩
  · exact claimsTransaction_claimsOn hcommit claimsOf_version (hne v hv hstatus)
  · obtain ⟨index, hindex, hget⟩ := List.mem_iff_getElem.mp he
    obtain ⟨c, hc, hkey⟩ := putClaims_stored (fun v => by simp [sqliteSameValue]) hstored _
      (List.mem_map_of_mem (List.mk_mem_zipIdx_iff_getElem?.mpr
        (List.getElem?_eq_some_iff.mpr ⟨hindex, hget⟩)))
    obtain ⟨hversion, hfield, hvalue⟩ := of_decide_eq_true hkey
    exact ⟨c, mem_claimsOn.mpr ⟨hc, hversion.symm⟩, hfield.symm,
      (of_decide_eq_true hvalue).symm⟩
  · obtain ⟨hc, hcv⟩ := mem_claimsOn.mp hc
    exact hnew c hc hcv
  · refine hresolved _ fun c hc => ?_
    obtain ⟨hc, hcv⟩ := mem_claimsOn.mp hc
    exact ⟨hc, hnew c hc hcv⟩

/-- A recorded failure. -/
theorem failureRecorded_of_processing (hrow : row ∈ db.sourceVersions)
    (hid : isVersion tenantId versionId row) (message : String) (failedAt : ℤ) :
    (db.markSourceFailed versionId (IngestCall.failure row.attemptCount message failedAt) tenantId
      failedAt).FailureRecorded tenantId versionId := by
  obtain ⟨htenant, hversion⟩ := isVersion_iff.mp hid
  exact ⟨_, mem_updateVersion hrow hid, hversion, htenant, rfl, by simp [IngestCall.failure]⟩

/-- **One document.**  A call keeps the invariant and what has succeeded.  If it throws or
finds nothing to do, the claims and opportunities are as before, and if it throws after
staging the failure is recorded; otherwise it has committed. -/
theorem document_spec (h : ClaimsSettled db)
    (hrun : ctx.document env db source tenantId = (db', outcome)) :
    ClaimsSettled db' ∧ KeepsSucceeded db db' ∧
      ((db'.claims = db.claims ∧ db'.opportunities = db.opportunities ∧
          ((∃ e, outcome = .notStaged e) ∨ (∃ id, outcome = .unchanged id) ∨
            ∃ id message, outcome = .failed id message ∧ db'.FailureRecorded tenantId id)) ∨
        ∃ extraction id, env.extraction = .ok extraction ∧
          outcome = .processed id extraction.discoveredUrls ∧
          db'.Committed ctx tenantId source.organizationId id extraction.claims ∧
          ∀ claims, (∀ c ∈ claims, c ∈ db'.claims ∧ c.tenantId = tenantId ∧
            c.organizationId = source.organizationId) →
              db'.ResolvedWith ctx tenantId source.organizationId claims) := by
  rcases ingestDocument_cases h.versionIds hrun with ⟨e, rfl, rfl⟩ |
    ⟨staged, hstage, -, rfl⟩ |
    ⟨queued, staged, row, between, hstage, -, hrow, hid, hstatus, hprocessing, hrest⟩
  · exact ⟨h, KeepsSucceeded.refl _, .inl ⟨rfl, rfl, .inl ⟨e, rfl⟩⟩⟩
  · obtain ⟨hsettled, hkeeps, hclaims, hopportunities⟩ := keeps_stage h hstage
    exact ⟨hsettled, hkeeps, .inl ⟨hclaims, hopportunities, .inr (.inl ⟨_, rfl⟩)⟩⟩
  · obtain ⟨hqueued, hkeepsQueued, hclaims, hopportunities⟩ := keeps_stage h hstage
    obtain ⟨hrowTenant, hrowId⟩ := isVersion_iff.mp hid
    obtain ⟨processing, hok, hmem⟩ :=
      markSourceProcessing_queued env.startedAt hqueued.versionIds hrow hid hstatus
    rw [hprocessing] at hok
    cases hok
    obtain ⟨hbetween, hkeepsBetween, hsameClaims, hsameOpportunities⟩ :=
      keeps_markProcessing hqueued hprocessing
    have hkeeps := hkeepsQueued.trans hkeepsBetween
    have hprocessed : isVersion tenantId staged.versionId (processingRow env.startedAt row) :=
      isVersion_iff.mpr ⟨hrowTenant, hrowId⟩
    rcases hrest with ⟨thrown, rfl, rfl⟩ | ⟨extraction, hextraction, rfl, hcommit⟩
    · obtain ⟨hsettled, hlast⟩ := keeps_markFailed hbetween hmem hrowId rfl _ _
      exact ⟨hsettled, hkeeps.trans hlast, .inl ⟨hsameClaims.trans hclaims,
        hsameOpportunities.trans hopportunities, .inr (.inr ⟨_, _, rfl,
          failureRecorded_of_processing hmem hprocessed thrown.message env.failedAt⟩)⟩⟩
    · obtain ⟨hsettled, hlast, hcommitted, hresolved⟩ :=
        committed_of_claimsTransaction hbetween hmem hprocessed rfl hcommit
      exact ⟨hsettled, hkeeps.trans hlast,
        .inr ⟨extraction, _, hextraction, rfl, hcommitted, hresolved⟩⟩

/-! ### The links -/

/-- A later document of the organization keeps what has been committed. -/
theorem Committed.document {extracted : List ExtractedClaim}
    (h : Committed ctx db tenantId orgId versionId extracted) (hsettled : ClaimsSettled db)
    (hrun : ctx.document env db source tenantId = (db', outcome))
    (horg : source.organizationId = orgId) :
    ClaimsSettled db' ∧ Committed ctx db' tenantId orgId versionId extracted := by
  obtain ⟨hsettled', hkeeps, hcases⟩ := document_spec hsettled hrun
  obtain ⟨v, hv, hid, htenant, hstatus⟩ := h.version
  have hclaims : db'.claimsOn versionId = db.claimsOn versionId := by
    rw [← hid]
    exact hkeeps.claims v hv hstatus
  refine ⟨hsettled', ⟨v, hkeeps.versions v hv hstatus, hid, htenant, hstatus⟩, ?_, ?_, ?_⟩
  · rw [hclaims]
    exact h.stored
  · rw [hclaims]
    exact h.listed
  · rcases hcases with ⟨-, hopportunities, -⟩ | ⟨extraction, id, -, -, -, hresolved⟩
    · obtain ⟨dbThen, clock, now, hlisted, houtput⟩ := h.resolved
      rw [hclaims]
      refine ⟨dbThen, clock, now, hlisted, ?_⟩
      rw [opportunitiesOf, hopportunities]
      exact houtput
    · rw [horg] at hresolved
      refine hresolved _ fun c hc => ?_
      rw [hclaims] at hc
      refine ⟨?_, h.listed c hc⟩
      exact (mem_claimsOn.mp (hclaims ▸ hc)).1

/-- So do all links, whatever becomes of them. -/
theorem Committed.follow {extracted : List ExtractedClaim} {maxDepth : ℕ} {s t : LinkRun}
    {answers : List LinkAnswer}
    (h : Committed ctx s.db tenantId source.organizationId versionId extracted)
    (hsettled : ClaimsSettled s.db)
    (hrun : Transition.exec (ctx.follow source tenantId maxDepth) s answers = some t) :
    ClaimsSettled t.db ∧ Committed ctx t.db tenantId source.organizationId versionId extracted := by
  refine Transition.exec_keep (P := fun s : LinkRun => ClaimsSettled s.db ∧
    Committed ctx s.db tenantId source.organizationId versionId extracted) ?_ ⟨hsettled, h⟩ hrun
  intro u answer w hu hstep
  rcases IngestContext.follow_cases hstep with ⟨level, url, rest, -, rfl⟩ |
    ⟨level, url, rest, page, links, -, rfl⟩ |
    ⟨level, url, rest, page, links, env, more, outcome, -, -, hdocument, -⟩
  · exact hu
  · exact hu
  · exact hu.2.document hu.1 hdocument rfl

/-! ### Every state -/

/-- The invariant of a whole call. -/
theorem ClaimsSettled.ingest {options : FollowOptions} {answers : List LinkAnswer}
    (h : ClaimsSettled db)
    (hrun : ctx.ingest options env answers db source tenantId = some (db', outcome)) :
    ClaimsSettled db' := by
  unfold IngestContext.ingest at hrun
  split at hrun
  · rename_i dbParent id urls hdocument
    obtain ⟨t, ht, hdone⟩ := Option.bind_eq_some_iff.mp hrun
    split at hdone
    · cases hdone
      obtain ⟨hsettled, -, ⟨-, -, habsurd⟩ | ⟨extraction, id', -, houtcome, hcommitted, -⟩⟩ :=
        document_spec h hdocument
      · rcases habsurd with ⟨e, habsurd⟩ | ⟨id, habsurd⟩ | ⟨id, message, habsurd, -⟩ <;>
          cases habsurd
      · exact (hcommitted.follow hsettled ht).1
    · cases hdone
  · cases hrun
    rename_i hdocument
    exact (document_spec h hdocument).1

/-- An erasure deletes claims along with their versions. -/
theorem ClaimsSettled.erase {dialect : Dialect} {digest : String → String}
    {userId operationId : String} {now : ℤ} {result : AccountErasureResult} (h : ClaimsSettled db)
    (hok : db.eraseAccount dialect digest tenantId userId operationId now = .ok (db', result)) :
    ClaimsSettled db' := by
  by_cases hmember : db.isMember tenantId userId
  · have herased := eraseAccount_ok h.versionIds hmember hok
    refine ⟨h.versionIds.sublist (herased.versions.1.map _), fun c hc => ?_⟩
    obtain ⟨hold, hsole⟩ := (herased.claims c).mp hc
    obtain ⟨v, hv, hid, hstatus⟩ := h.claims c hold
    exact ⟨v, (herased.versions.2 v).mpr ⟨hv, hsole v hv hid⟩, hid, hstatus⟩
  · rw [eraseAccount_not_member (by simpa using hmember)] at hok
    cases hok
    exact h

end Database

/-- What happens to the database, one operation at a time: a call of `ingest` with its
links, an erasure, or anything that leaves the versions and the claims alone. -/
inductive SequentialStep where
  | ingest (options : FollowOptions) (env : DocumentEnv) (answers : List LinkAnswer)
      (source : SourceItem) (tenantId : String)
  | erase (tenantId userId operationId : String) (now : ℤ)
  | other (db : Database)

namespace IngestContext

variable (ctx : IngestContext)

/-- One operation; a refused erasure is rolled back. -/
def operate (db : Database) : SequentialStep → Option Database
  | .ingest options env answers source tenantId =>
      (ctx.ingest options env answers db source tenantId).map Prod.fst
  | .erase tenantId userId operationId now =>
      match SqlitePrivacyRepository.eraseAccount ctx.digest db tenantId userId operationId now with
      | .ok (db, _) => some db
      | .error _ => some db
  | .other new =>
      if new.sourceVersions = db.sourceVersions ∧ new.claims = db.claims then some new else none

/-- The databases that operations reach from one without versions. -/
def Reached : Database → Prop :=
  Transition.Reachable (fun db => db.sourceVersions = [] ∧ db.claims = []) ctx.operate

variable {ctx} {db db' : Database}

theorem Reached.settled (h : ctx.Reached db) : db.ClaimsSettled := by
  refine Transition.Reachable.invariant (I := Database.ClaimsSettled) ?_ ?_ h
  · rintro db ⟨hversions, hclaims⟩
    refine ⟨?_, ?_⟩ <;> simp [hversions, hclaims]
  · intro db label new _ hsettled hs
    cases label with
    | ingest options env answers source tenantId =>
        obtain ⟨⟨_, outcome⟩, hrun, rfl⟩ := Option.map_eq_some_iff.mp hs
        exact hsettled.ingest hrun
    | erase tenantId userId operationId now =>
        simp only [operate, SqlitePrivacyRepository.eraseAccount] at hs
        split at hs
        · rename_i erased result hok
          cases hs
          exact hsettled.erase hok
        · cases hs
          exact hsettled
    | other new =>
        simp only [operate] at hs
        split at hs
        · rename_i hsame
          cases hs
          refine ⟨by rw [hsame.1]; exact hsettled.versionIds, fun c hc => ?_⟩
          rw [hsame.2] at hc
          rw [hsame.1]
          exact hsettled.claims c hc
        · cases hs

/-- **Ingest is atomic.**  Whatever has run before, whatever the extractor returns or
throws, wherever the claims transaction fails, and whatever becomes of the links: a call
that throws after staging leaves the claims and the opportunities exactly as they were and
its failure on the version; a call that has processed its version leaves all claims that
were extracted, the opportunities of the organization recomputed with them, and the
version succeeded. -/
theorem ingest_atomic (h : ctx.Reached db) {options : FollowOptions} {env : DocumentEnv}
    {answers : List LinkAnswer} {source : SourceItem} {tenantId : String} {outcome : IngestOutcome}
    (hrun : ctx.ingest options env answers db source tenantId = some (db', outcome)) :
    (∀ versionId message, outcome = .failed versionId message →
      db'.claims = db.claims ∧ db'.opportunities = db.opportunities ∧
        db'.FailureRecorded tenantId versionId) ∧
    (∀ versionId, outcome ≠ .notReady versionId) ∧
    ∀ versionId urls, outcome = .processed versionId urls →
      ∃ extraction, env.extraction = .ok extraction ∧
        db'.Committed ctx tenantId source.organizationId versionId extraction.claims := by
  unfold ingest at hrun
  split at hrun
  · rename_i dbParent id urls hdocument
    obtain ⟨t, ht, hdone⟩ := Option.bind_eq_some_iff.mp hrun
    split at hdone
    · cases hdone
      refine ⟨(fun _ _ habsurd => nomatch habsurd), (fun _ habsurd => nomatch habsurd), ?_⟩
      intro versionId urls' houtcome
      cases houtcome
      obtain ⟨hsettled, -, ⟨-, -, habsurd⟩ | ⟨extraction, id', hextraction, hsame, hcommitted, -⟩⟩ :=
        Database.document_spec h.settled hdocument
      · rcases habsurd with ⟨e, habsurd⟩ | ⟨id, habsurd⟩ | ⟨id, message, habsurd, -⟩ <;>
          cases habsurd
      · cases hsame
        exact ⟨extraction, hextraction, (hcommitted.follow hsettled ht).2⟩
    · cases hdone
  · rename_i hnotProcessed hdocument
    cases hrun
    obtain ⟨-, -, ⟨hclaims, hopportunities, hrest⟩ | ⟨extraction, id, -, rfl, -⟩⟩ :=
      Database.document_spec h.settled hdocument
    · rcases hrest with ⟨e, rfl⟩ | ⟨id, rfl⟩ | ⟨id, message, rfl, hfailure⟩
      · exact ⟨(fun _ _ habsurd => nomatch habsurd), (fun _ habsurd => nomatch habsurd),
          fun _ _ habsurd => nomatch habsurd⟩
      · exact ⟨(fun _ _ habsurd => nomatch habsurd), (fun _ habsurd => nomatch habsurd),
          fun _ _ habsurd => nomatch habsurd⟩
      · refine ⟨fun versionId _ hsame => ?_, (fun _ habsurd => nomatch habsurd),
          fun _ _ habsurd => nomatch habsurd⟩
        cases hsame
        exact ⟨hclaims, hopportunities, hfailure⟩
    · exact (hnotProcessed _ _ rfl).elim

/-- The digests of the texts below, and those of the page. -/
def clubDigest (text : String) : String :=
  if text = "srcv_5ccba9f7e39f9d5820eb6b7c:0:application_open:true" then
    "b15c5c5a282d97c69f90779f"
  else if text = "club:application" then "956ef1c39f421d076f10bf5c"
  else StageRun.pageDigest text

/-- A service that meets one instant and one link. -/
def clubContext : IngestContext where
  getTime value := if value = .str "2026-09-01T00:00:00.000Z" then some 1788220800000 else none
  digest := clubDigest
  sha256 := StageRun.pageSha256
  parseUrl raw :=
    if raw = "https://club.example/apply" then some ⟨"https:", "club.example", "/apply"⟩ else none

/-- The extractor reads that applications are open. -/
def openEnv : DocumentEnv where
  startedAt := 1788220800000
  extraction := .ok ⟨[⟨.applicationOpen, .bool true, 92 / 100, none, none⟩],
    ["https://club.example/apply"]⟩
  extractedAt _ := 1788220800000
  clock := ⟨fun _ => 1788220800000, fun _ => 1788220800000⟩
  now := 1788220800000
  faults _ := none
  failedAt := 1788220800000

/-- A page is processed, and the fetch of its only link fails. -/
theorem ingest_atomic_page :
    ∃ db', clubContext.ingest ⟨true, true, 2⟩ openEnv [.fetchFailed]
        { Database.empty with organizations := [⟨"t1", "club"⟩] }
        (StageRun.page "Applications close on 10 September.") "t1" =
          some (db', .processed "srcv_5ccba9f7e39f9d5820eb6b7c" ["https://club.example/apply"]) ∧
      db'.Committed clubContext "t1" "club" "srcv_5ccba9f7e39f9d5820eb6b7c"
        [⟨.applicationOpen, .bool true, 92 / 100, none, none⟩] := by
  have hrun : (clubContext.ingest ⟨true, true, 2⟩ openEnv [.fetchFailed]
      { Database.empty with organizations := [⟨"t1", "club"⟩] }
      (StageRun.page "Applications close on 10 September.") "t1").any (fun out =>
        out.2 = .processed "srcv_5ccba9f7e39f9d5820eb6b7c" ["https://club.example/apply"]) := by
    decide +kernel
  obtain ⟨⟨db', outcome⟩, hout, houtcome⟩ := (Option.any_eq_true _ _).mp hrun
  obtain rfl := of_decide_eq_true houtcome
  have hreach : clubContext.Reached { Database.empty with organizations := [⟨"t1", "club"⟩] } :=
    .start ⟨rfl, rfl⟩
  obtain ⟨extraction, hextraction, hcommitted⟩ :=
    (ingest_atomic hreach hout).2.2 _ _ rfl
  cases hextraction
  exact ⟨db', hout, hcommitted⟩

end IngestContext

end RecruitingOs
