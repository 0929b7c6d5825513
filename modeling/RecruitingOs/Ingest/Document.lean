import RecruitingOs.Ingest.Resolution
import RecruitingOs.Ingest.Effects
import RecruitingOs.Lib.Transaction

/-!
# Ingesting one document

`IngestionService.ingest` of `src/ingest.ts` up to the links, as one function: calls run
one at a time, and `DocumentEnv` has what the rest of the world answers to one of them:
what the extractor returns or throws, the clocks, and the errors that the database raises
on its own at any statement of the claims transaction.

The claims transaction is spelled out statement by statement; `claimsStatements_ok` says
that where it commits it has done what `Database.claimsTransaction` does at once.
-/

namespace RecruitingOs

/-- What `extract` throws: an `Error` with its message, or something else. -/
inductive Thrown where
  | error (message : String)
  | other
deriving Repr, DecidableEq

/-- `error instanceof Error ? error.message : 'Unknown extraction failure'`. -/
def Thrown.message : Thrown → String
  | .error message => message
  | .other => "Unknown extraction failure"

/-- `ExtractionResult`. -/
structure Extraction where
  claims : List ExtractedClaim
  discoveredUrls : List String
deriving Repr, DecidableEq

/-- What one call meets. -/
structure DocumentEnv where
  startedAt : ℤ
  extraction : Except Thrown Extraction
  extractedAt : ℕ → ℤ
  clock : Resolver.Clock
  now : ℤ
  /-- The error that the database raises at the `n`-th statement of the transaction. -/
  faults : ℕ → Option Thrown
  failedAt : ℤ

/-- How a call ends, before any link is followed. -/
inductive IngestOutcome where
  /-- `stageSource` throws. -/
  | notStaged (error : StoreError)
  | unchanged (versionId : String)
  /-- `markSourceProcessing` throws. -/
  | notReady (versionId : String)
  /-- The call throws after it has recorded the failure. -/
  | failed (versionId : String) (message : String)
  | processed (versionId : String) (discoveredUrls : List String)
deriving Repr, DecidableEq

/-- The call throws. -/
def IngestOutcome.throws : IngestOutcome → Bool
  | .notStaged _ | .notReady _ | .failed _ _ => true
  | .unchanged _ | .processed _ _ => false

namespace Database

/-- A constraint violation, as an `Error`. -/
def violated (constraint : String) : Thrown := .error (StoreError.message (.unique constraint))

/-- `insert into claims … on conflict …`. -/
def putClaimStatement (claim : Claim) (db : Database) : Except Thrown Database :=
  match putClaim sqliteSameValue db.claims claim with
  | none => .error (violated "claims.id")
  | some claims => .ok { db with claims := claims }

/-- `delete from opportunities where tenant_id=? and organization_id=?`. -/
def deleteOpportunities (tenantId orgId : String) (db : Database) : Except Thrown Database :=
  .ok { db with
    opportunities := db.opportunities.filter fun row => ¬ row.ofOrganization tenantId orgId }

/-- `insert into opportunities`. -/
def insertOpportunity (tenantId : String) (opportunity : Opportunity) (db : Database) :
    Except Thrown Database :=
  match Table.insert OpportunityRow.key db.opportunities ⟨tenantId, opportunity⟩ with
  | none => .error (violated "opportunities.tenant_id, opportunities.id")
  | some opportunities => .ok { db with opportunities := opportunities }

open Transaction in
/-- The statements of the claims transaction of `ingest`. -/
def claimsStatements (getTime : Json → Option ℤ) (digest : String → String)
    (faults : ℕ → Option Thrown) (claims : List Claim) (clock : Resolver.Clock)
    (orgId tenantId versionId : String) (now : ℤ) (p : Progress Database) :
    Except Thrown (Progress Database) := do
  let p ← executeAll faults (claims.map putClaimStatement) p
  let opportunities :=
    Resolver.resolveOrganization getTime digest (p.data.view orgId tenantId) clock orgId now
  let p ← executeAll faults
    (deleteOpportunities tenantId orgId :: opportunities.map (insertOpportunity tenantId)) p
  execute faults (fun db => .ok (db.markSourceSucceeded versionId tenantId now)) p

/-- `ingest(source)` with the tenant of the source, up to the links. -/
def ingestDocument (getTime : Json → Option ℤ) (digest sha256 : String → String)
    (env : DocumentEnv) (db : Database) (source : SourceItem) (tenantId : String) :
    Database × IngestOutcome :=
  match db.stageSource digest sha256 source tenantId with
  | .error e => (db, .notStaged e)
  | .ok (db, staged) =>
      if ¬ staged.shouldProcess then (db, .unchanged staged.versionId)
      else
        match db.markSourceProcessing staged.versionId tenantId env.startedAt with
        | .error _ => (db, .notReady staged.versionId)
        | .ok (db, attempt) =>
            let fail (db : Database) (thrown : Thrown) : Database × IngestOutcome :=
              (db.markSourceFailed staged.versionId
                (IngestCall.failure attempt thrown.message env.failedAt) tenantId env.failedAt,
              .failed staged.versionId thrown.message)
            match env.extraction with
            | .error thrown => fail db thrown
            | .ok extraction =>
                let claims := claimsOf digest tenantId staged.versionId source env.extractedAt
                  extraction.claims
                match Transaction.transaction env.faults
                    (claimsStatements getTime digest env.faults claims env.clock
                      source.organizationId tenantId staged.versionId env.now) db with
                | (db, .error thrown) => fail db thrown
                | (db, .ok ()) => (db, .processed staged.versionId extraction.discoveredUrls)

/-! ### The transaction -/

variable {getTime : Json → Option ℤ} {digest sha256 : String → String} {db db' : Database}
  {tenantId : String} {source : SourceItem} {env : DocumentEnv} {outcome : IngestOutcome}

section Statements

open Transaction

variable {faults : ℕ → Option Thrown} {clock : Resolver.Clock} {orgId versionId : String} {now : ℤ}

theorem putClaimStatements_ok {claims : List Claim} : ∀ {p q : Progress Database},
    executeAll faults (claims.map putClaimStatement) p = .ok q →
      ∃ stored, putClaims sqliteSameValue p.data.claims claims = some stored ∧
        q.data = { p.data with claims := stored } := by
  induction claims with
  | nil =>
      intro p q h
      cases h
      exact ⟨_, rfl, rfl⟩
  | cons claim rest ih =>
      intro p q h
      obtain ⟨r, hfirst, hrest⟩ := executeAll_cons h
      obtain ⟨stored, hstored, hq⟩ := ih hrest
      unfold putClaimStatement at hfirst
      split at hfirst
      · cases hfirst
      · rename_i between hclaim
        have hr : r.data = { p.data with claims := between } := (Except.ok.inj hfirst).symm
        rw [hr] at hstored hq
        exact ⟨stored, by rw [putClaims, hclaim]; exact hstored, hq⟩

theorem insertOpportunities_ok {opportunities : List Opportunity} : ∀ {p q : Progress Database},
    executeAll faults (opportunities.map (insertOpportunity tenantId)) p = .ok q →
      ∃ rows, Table.insertAll OpportunityRow.key p.data.opportunities
          (opportunities.map (OpportunityRow.mk tenantId)) = some rows ∧
        q.data = { p.data with opportunities := rows } := by
  induction opportunities with
  | nil =>
      intro p q h
      cases h
      exact ⟨_, rfl, rfl⟩
  | cons opportunity rest ih =>
      intro p q h
      obtain ⟨r, hfirst, hrest⟩ := executeAll_cons h
      obtain ⟨rows, hrows, hq⟩ := ih hrest
      unfold insertOpportunity at hfirst
      split at hfirst
      · cases hfirst
      · rename_i between hinsert
        have hr : r.data = { p.data with opportunities := between } :=
          (Except.ok.inj hfirst).symm
        rw [hr] at hrows hq
        refine ⟨rows, ?_, hq⟩
        rw [List.map_cons, Table.insertAll, hinsert]
        exact hrows

/-- **The statements, taken together.**  A transaction that commits has stored the
claims, resolved the organization and marked the version. -/
theorem claimsStatements_ok {claims : List Claim} {p q : Progress Database}
    (h : claimsStatements getTime digest faults claims clock orgId tenantId versionId now p =
      .ok q) :
    p.data.claimsTransaction getTime digest claims clock orgId tenantId versionId now =
      some q.data := by
  unfold claimsStatements at h
  cases hputs : executeAll faults (claims.map putClaimStatement) p with
  | error e =>
      rw [hputs] at h
      cases h
  | ok r =>
      rw [hputs] at h
      obtain ⟨stored, hstored, hr⟩ := putClaimStatements_ok hputs
      change (executeAll faults _ r).bind _ = _ at h
      cases hreplace : executeAll faults (deleteOpportunities tenantId orgId ::
          (Resolver.resolveOrganization getTime digest (r.data.view orgId tenantId) clock orgId
            now).map (insertOpportunity tenantId)) r with
      | error e =>
          rw [hreplace] at h
          cases h
      | ok u =>
          rw [hreplace] at h
          obtain ⟨deleted, hdelete, hinserts⟩ := executeAll_cons hreplace
          obtain ⟨rows, hrows, hu⟩ := insertOpportunities_ok hinserts
          have hdeleted := (Except.ok.inj hdelete).symm
          have hlast : execute faults
              (fun db => .ok (db.markSourceSucceeded versionId tenantId now)) u = .ok q := h
          have hmarked := execute_ok hlast
          have hmark := (Except.ok.inj hmarked).symm
          rw [hdeleted] at hrows hu
          rw [hr] at hrows hu
          have hresolve : resolve getTime digest { p.data with claims := stored } clock orgId
              tenantId now = some u.data := by
            rw [hu]
            exact congrArg (Option.map _) hrows
          unfold claimsTransaction
          rw [hstored, Option.bind_some, hresolve, Option.map_some, hmark]

end Statements

/-! ### What a call can do -/

/-- The version that a call has begun to process. -/
def processingRow (now : ℤ) (row : SourceVersionRow) : SourceVersionRow :=
  { row with
    status := .processing
    attemptCount := row.attemptCount + 1
    startedAt := some now
    lastError := none }

/-- A version that has succeeded. -/
def succeededRow (now : ℤ) (row : SourceVersionRow) : SourceVersionRow :=
  { row with
    status := .succeeded, completedAt := some now, nextAttemptAt := none, lastError := none }

/-- The claims transaction, table by table. -/
theorem claimsTransaction_eq_some {claims : List Claim} {clock : Resolver.Clock}
    {orgId versionId : String} {now : ℤ}
    (h : db.claimsTransaction getTime digest claims clock orgId tenantId versionId now = some db') :
    putClaims sqliteSameValue db.claims claims = some db'.claims ∧
      db'.sourceVersions = (db.updateVersion tenantId versionId (succeededRow now)).sourceVersions ∧
      db'.opportunitiesOf tenantId orgId = Resolver.resolveOrganization getTime digest
        ({ db with claims := db'.claims }.view orgId tenantId) clock orgId now := by
  simp only [claimsTransaction, Option.bind_eq_some_iff, Option.map_eq_some_iff] at h
  obtain ⟨stored, hstored, resolved, hresolve, rfl⟩ := h
  obtain ⟨⟨opportunities, rfl⟩, houtput, -⟩ := resolve_eq_some hresolve
  exact ⟨hstored, rfl, houtput⟩

/-- A queued version is ready for processing. -/
theorem markSourceProcessing_queued (now : ℤ) {id : String} {row : SourceVersionRow}
    (hn : (db.sourceVersions.map SourceVersionRow.id).Nodup) (hrow : row ∈ db.sourceVersions)
    (hid : isVersion tenantId id row) (hstatus : row.status = .queued) :
    ∃ between, db.markSourceProcessing id tenantId now = .ok (between, row.attemptCount + 1) ∧
      processingRow now row ∈ between.sourceVersions := by
  have hprocessable : processable row.status := by rw [hstatus]; rfl
  have hfind : db.sourceVersions.find? (fun row =>
      isVersion tenantId id row ∧ processable row.status) = some row := by
    have hsome : (db.sourceVersions.find? fun row =>
        isVersion tenantId id row ∧ processable row.status).isSome := by
      rw [List.find?_isSome]
      exact ⟨row, hrow, decide_eq_true ⟨hid, hprocessable⟩⟩
    obtain ⟨found, hfound⟩ := Option.isSome_iff_exists.mp hsome
    have hfoundId : isVersion tenantId id found ∧ processable found.status := by
      simpa using List.find?_some hfound
    have hsame : found = row := Table.eq_of_key_eq hn (List.mem_of_find?_eq_some hfound) hrow
      ((isVersion_iff.mp hfoundId.1).2.trans (isVersion_iff.mp hid).2.symm)
    rw [hfound, hsame]
  have hok : db.markSourceProcessing id tenantId now =
      .ok (db.updateVersion tenantId id fun old =>
        if processable old.status then processingRow now old else old, row.attemptCount + 1) := by
    unfold markSourceProcessing
    rw [hfind]
    rfl
  refine ⟨_, hok, ?_⟩
  have hmem := mem_updateVersion (f := fun old : SourceVersionRow =>
    if processable old.status then processingRow now old else old) hrow hid
  rwa [if_pos hprocessable] at hmem

/-- **What a call can do.**  It throws before it has staged anything; or it finds nothing
to do; or it processes the version that it has queued, and then either throws, with the
failure recorded and nothing else changed, or has committed the claims transaction. -/
theorem ingestDocument_cases (hn : (db.sourceVersions.map SourceVersionRow.id).Nodup)
    (h : db.ingestDocument getTime digest sha256 env source tenantId = (db', outcome)) :
    (∃ e, outcome = .notStaged e ∧ db' = db) ∨
    (∃ staged, db.stageSource digest sha256 source tenantId = .ok (db', staged) ∧
      staged.shouldProcess = false ∧ outcome = .unchanged staged.versionId) ∨
    ∃ queued staged row between, db.stageSource digest sha256 source tenantId = .ok (queued, staged) ∧
      staged.shouldProcess ∧ row ∈ queued.sourceVersions ∧
      isVersion tenantId staged.versionId row ∧ row.status = .queued ∧
      queued.markSourceProcessing staged.versionId tenantId env.startedAt =
        .ok (between, row.attemptCount + 1) ∧
      ((∃ thrown : Thrown, outcome = .failed staged.versionId thrown.message ∧
        db' = between.markSourceFailed staged.versionId
          (IngestCall.failure (row.attemptCount + 1) thrown.message env.failedAt) tenantId
          env.failedAt) ∨
      ∃ extraction, env.extraction = .ok extraction ∧
        outcome = .processed staged.versionId extraction.discoveredUrls ∧
        between.claimsTransaction getTime digest
          (claimsOf digest tenantId staged.versionId source env.extractedAt extraction.claims)
          env.clock source.organizationId tenantId staged.versionId env.now = some db') := by
  unfold ingestDocument at h
  split at h
  · rename_i e _
    cases h
    exact .inl ⟨e, rfl, rfl⟩
  · rename_i queued staged hstage
    split at h
    · rename_i hshould
      cases h
      exact .inr (.inl ⟨staged, hstage, by simpa using hshould, rfl⟩)
    · rename_i hshould
      have hprocess : staged.shouldProcess := by simpa using hshould
      obtain ⟨row, hrow, hid, hstatus⟩ := stageSource_queued hstage hprocess
      obtain ⟨between, hprocessing, -⟩ := markSourceProcessing_queued env.startedAt
        (stageSource_nodup hstage hn) hrow hid hstatus
      rw [hprocessing] at h
      refine .inr (.inr ⟨queued, staged, row, between, hstage, hprocess, hrow, hid, hstatus,
        hprocessing, ?_⟩)
      dsimp only at h
      split at h
      · rename_i thrown _
        cases h
        exact .inl ⟨thrown, rfl, rfl⟩
      · rename_i extraction hextraction
        split at h
        · rename_i rolled thrown htransaction
          cases h
          rw [Transaction.transaction_error htransaction]
          exact .inl ⟨thrown, rfl, rfl⟩
        · rename_i committed htransaction
          cases h
          obtain ⟨p, hbody, rfl⟩ := Transaction.transaction_ok htransaction
          exact .inr ⟨extraction, hextraction, rfl, claimsStatements_ok hbody⟩

end Database

end RecruitingOs
