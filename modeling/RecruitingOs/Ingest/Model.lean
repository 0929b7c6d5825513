import RecruitingOs.Lib.Transition
import RecruitingOs.Resolver.Resolve
import RecruitingOs.Store.Sources

/-!
# Runs of ingest calls

`IngestionService.ingest` of `src/ingest.ts`, cut at its repository calls: each of them
is one transaction, and a worker may die between any two.  `IngestRun` is the
database with all calls in flight.

A call that has staged its source with `shouldProcess` *owns* the version until it has
marked it succeeded or failed.  The links of a processed document are followed by
further calls, of which this model has any number at any time.
-/

namespace RecruitingOs

/-- A claim as the extractor returns it. -/
structure ExtractedClaim where
  field : ClaimField
  value : Json
  confidence : ℚ
  evidence : Option String
  temporalPrecision : Option TemporalPrecision
deriving Repr, DecidableEq

/-- The claims of a version, from what was extracted and the readings of `nowIso()`. -/
def claimsOf (digest : String → String) (tenantId versionId : String) (source : SourceItem)
    (extractedAt : ℕ → ℤ) (extracted : List ExtractedClaim) : List Claim :=
  extracted.zipIdx.map fun (claim, index) =>
    { id := stableId digest "clm" (versionId ++ ":" ++ Nat.repr index ++ ":" ++
        claim.field.text ++ ":" ++ claim.value.stringify)
      tenantId := tenantId
      organizationId := source.organizationId
      sourceItemId := versionId
      field := claim.field
      value := claim.value
      confidence := claim.confidence
      publishedAt := source.publishedAt
      extractedAt := IsoTime.toISOString (extractedAt index)
      supersedes := []
      evidence := claim.evidence
      temporalPrecision := claim.temporalPrecision }

namespace Database

/-- `listClaims(organizationId, tenantId)`. -/
def listClaims (db : Database) (orgId tenantId : String) : List Claim :=
  (db.claims.filter fun c => c.tenantId = tenantId ∧ c.organizationId = orgId).insertionSort
    fun a b => a.publishedAt.getD a.extractedAt ≤ b.publishedAt.getD b.extractedAt

/-- The source type that `getSource(id, tenantId)` answers: of the version or source with
the id, the version fetched last. -/
def getSourceType (db : Database) (tenantId id : String) : Option SourceType :=
  let found := db.sourceVersions.filter fun v =>
    v.tenantId = tenantId ∧ (v.id = id ∨ v.sourceId = id)
  let latest := (found.insertionSort fun a b => b.fetchedAt ≤ a.fetchedAt).head?
  latest.bind fun v => (db.sources.find? fun s => s.id = v.sourceId).map SourceRow.sourceType

/-- `listOpportunityOverrides(organizationId, tenantId)`. -/
def listOpportunityOverrides (db : Database) (orgId tenantId : String) :
    List OpportunityOverride :=
  ((db.overrides.filter fun row => row.override.tenantId = tenantId ∧
      row.override.organizationId = orgId ∧ ¬ row.revoked).map OverrideRow.override).insertionSort
    fun a b => a.createdAt ≤ b.createdAt

/-- What `resolveOrganization` reads. -/
def view (db : Database) (orgId tenantId : String) : Resolver.View where
  claims := db.listClaims orgId tenantId
  sourceType := db.getSourceType tenantId
  overrides := db.listOpportunityOverrides orgId tenantId

/-- The call of `resolveOrganization`; `none` where it throws. -/
def resolve (getTime : Json → Option ℤ) (digest : String → String) (db : Database)
    (clock : Resolver.Clock) (orgId tenantId : String) (now : ℤ) : Option Database :=
  (replaceOpportunities db.opportunities tenantId orgId
    (Resolver.resolveOrganization getTime digest (db.view orgId tenantId) clock orgId now)).map
    fun opportunities => { db with opportunities := opportunities }

/-- The claims transaction of `ingest`: store the claims, resolve the organization, mark
the version; `none` where it throws and is rolled back. -/
def claimsTransaction (getTime : Json → Option ℤ) (digest : String → String) (db : Database)
    (claims : List Claim) (clock : Resolver.Clock) (orgId tenantId versionId : String)
    (now : ℤ) : Option Database :=
  (putClaims sqliteSameValue db.claims claims).bind fun stored =>
    (resolve getTime digest { db with claims := stored } clock orgId tenantId now).map fun db =>
      db.markSourceSucceeded versionId tenantId now

end Database

/-- How far an ingest call is. -/
inductive IngestPhase where
  /-- `stageSource` answered `shouldProcess`. -/
  | staged
  /-- `markSourceProcessing` answered the attempt. -/
  | processing (attempt : ℕ)
  /-- The `catch` has the error. -/
  | failing (attempt : ℕ) (message : String)
  /-- The claims transaction is committed; links are being followed. -/
  | processed
deriving Repr, DecidableEq

/-- An ingest call in flight. -/
structure IngestCall where
  id : ℕ
  tenantId : String
  source : SourceItem
  versionId : String
  phase : IngestPhase
deriving Repr, DecidableEq

/-- A call that has returned normally, with the status that the version had at that
moment and whether another live call owned it. -/
structure IngestReturn where
  versionId : String
  status : Option SourceVersionStatus
  owned : Bool
deriving Repr, DecidableEq

/-- The state of a run of ingest calls. -/
structure IngestRun where
  db : Database
  calls : List IngestCall
  returns : List IngestReturn

/-- A step of an ingest call. -/
inductive IngestStep where
  | stage (c : ℕ) (source : SourceItem) (tenantId : String)
  | process (c : ℕ) (now : ℤ)
  | commit (c : ℕ) (extracted : List ExtractedClaim) (extractedAt : ℕ → ℤ)
      (clock : Resolver.Clock) (now : ℤ)
  | throw (c : ℕ) (message : String)
  | markFailed (c : ℕ) (now : ℤ)
  | finish (c : ℕ)
  | crash (c : ℕ)

namespace IngestCall

/-- The call is between a `stageSource` that answered `shouldProcess` and its
`markSourceSucceeded` or `markSourceFailed`. -/
def owner (call : IngestCall) : Bool :=
  match call.phase with
  | .processed => false
  | _ => true

/-- The call owns the version. -/
def owns (tenantId id : String) (call : IngestCall) : Bool :=
  call.owner ∧ call.tenantId = tenantId ∧ call.versionId = id

/-- The failure that the `catch` of `ingest` records. -/
def failure (attempt : ℕ) (message : String) (now : ℤ) : Database.ProcessingFailure where
  retryable := attempt < 5
  message := message
  nextAttemptAt :=
    if attempt < 5 then some (now + (min 900 (2 ^ min attempt 9) : ℕ) * 1000) else none

end IngestCall

namespace IngestRun

/-- The call in flight with this id. -/
def call? (s : IngestRun) (c : ℕ) : Option IngestCall := s.calls.find? fun call => call.id = c

def setPhase (s : IngestRun) (c : ℕ) (phase : IngestPhase) : IngestRun :=
  let moved (call : IngestCall) : IngestCall := { call with phase := phase }
  { s with calls := Table.updateWhere (fun call => call.id = c) moved s.calls }

/-- The run without a call: it has returned, thrown or died. -/
def drop (s : IngestRun) (c : ℕ) : IngestRun :=
  { s with calls := s.calls.filter fun call => call.id ≠ c }

/-- The record of a call that returns normally now. -/
def returned (s : IngestRun) (tenantId versionId : String) : IngestReturn where
  versionId := versionId
  status := (s.db.sourceVersions.find? (Database.isVersion tenantId versionId)).map
    SourceVersionRow.status
  owned := s.calls.any (IngestCall.owns tenantId versionId)

/-- One step; `none` where it cannot happen. -/
def step (getTime : Json → Option ℤ) (digest sha256 : String → String) (s : IngestRun) :
    IngestStep → Option IngestRun
  | .stage c source tenantId =>
      if (s.call? c).isSome then none
      else
        match s.db.stageSource digest sha256 source tenantId with
        -- `ingest` throws before it has staged anything
        | .error _ => some s
        | .ok (db, result) =>
            if result.shouldProcess then
              some { s with
                db := db
                calls := ⟨c, tenantId, source, result.versionId, .staged⟩ :: s.calls }
            else
              let t := { s with db := db }
              some { t with returns := t.returned tenantId result.versionId :: t.returns }
  | .process c now =>
      match s.call? c with
      | some ⟨_, tenantId, _, versionId, .staged⟩ =>
          match s.db.markSourceProcessing versionId tenantId now with
          | .error _ => some (s.drop c)
          | .ok (db, attempt) => some { s.setPhase c (.processing attempt) with db := db }
      | _ => none
  | .commit c extracted extractedAt clock now =>
      match s.call? c with
      | some ⟨_, tenantId, source, versionId, .processing _⟩ =>
          (s.db.claimsTransaction getTime digest
            (claimsOf digest tenantId versionId source extractedAt extracted) clock
            source.organizationId tenantId versionId now).map fun db =>
              { s.setPhase c .processed with db := db }
      | _ => none
  | .throw c message =>
      match s.call? c with
      | some ⟨_, _, _, _, .processing attempt⟩ => some (s.setPhase c (.failing attempt message))
      | _ => none
  | .markFailed c now =>
      match s.call? c with
      | some ⟨_, tenantId, _, versionId, .failing attempt message⟩ =>
          some { s.drop c with
            db := s.db.markSourceFailed versionId (IngestCall.failure attempt message now)
              tenantId now }
      | _ => none
  | .finish c =>
      match s.call? c with
      | some ⟨_, tenantId, _, versionId, .processed⟩ =>
          let t := s.drop c
          some { t with returns := t.returned tenantId versionId :: t.returns }
      | _ => none
  | .crash c => if (s.call? c).isSome then some (s.drop c) else none

end IngestRun

end RecruitingOs
