import RecruitingOs.Domain.Util
import RecruitingOs.Lib.IsoTime
import RecruitingOs.Lib.Readings
import RecruitingOs.Lib.Table

/-!
# The jobs table

The data of `src/application/ports/job-queue.ts` and of the tables `jobs` and
`tenant_queue_state`, which both queue implementations share.

* `JobRow` — a row of `jobs`; a timestamp column is the instant it denotes.
* `Job` — what the queue returns to its callers, the *handle* with which a worker
  settles or renews its lease.
* `Queue` — the two tables.

`eligible`, `ranksFirst` and `isNext` are the selection of a job to lease, which
the SQLite statement and the Postgres function write in the same words.
-/

namespace RecruitingOs

/-- `JobStatus` of `domain/models.ts`, the values that the `check` of the column
admits. -/
inductive JobStatus where
  | queued
  | running
  | succeeded
  | retryableFailed
  | deadLetter
  | cancelled
deriving Repr, DecidableEq

/-- `status in ('queued','retryable_failed')`. -/
def JobStatus.pending : JobStatus → Bool
  | .queued | .retryableFailed => true
  | _ => false

/-- A row of `jobs`. -/
structure JobRow where
  id : String
  tenantId : String
  type : String
  idempotencyKey : String
  payload : Json
  status : JobStatus
  priority : ℤ
  attemptCount : ℕ
  maxAttempts : ℕ
  availableAt : ℤ
  leasedUntil : Option ℤ
  leasedBy : Option String
  lastError : Option String
  createdAt : ℤ
  updatedAt : ℤ
deriving Repr, DecidableEq

/-- The unique key of `jobs`. -/
def JobRow.key (row : JobRow) : String × String × String :=
  (row.tenantId, row.type, row.idempotencyKey)

/-- `Job`: what the queue returns to a caller. -/
structure Job where
  id : String
  tenantId : String
  type : String
  idempotencyKey : String
  payload : Json
  status : JobStatus
  attemptCount : ℕ
  maxAttempts : ℕ
  availableAt : ℤ
  leasedBy : Option String
  leasedUntil : Option ℤ
deriving Repr, DecidableEq

/-- `SqliteJobQueue.map`.  An empty `leased_by` is falsy and is read as absent. -/
def JobRow.toJob (row : JobRow) : Job where
  id := row.id
  tenantId := row.tenantId
  type := row.type
  idempotencyKey := row.idempotencyKey
  payload := row.payload
  status := row.status
  attemptCount := row.attemptCount
  maxAttempts := row.maxAttempts
  availableAt := row.availableAt
  leasedBy := row.leasedBy.filter (· ≠ "")
  leasedUntil := row.leasedUntil

/-- `EnqueueJob`. -/
structure EnqueueJob where
  tenantId : String
  type : String
  idempotencyKey : String
  payload : Json
  priority : Option ℤ
  maxAttempts : Option ℕ
  availableAt : Option ℤ
deriving Repr, DecidableEq

/-- `CancelPendingJobs`. -/
structure CancelPendingJobs where
  tenantId : String
  type : String
  payload : List (String × String)
deriving Repr, DecidableEq

/-- The tables `jobs` and `tenant_queue_state` (tenant and `last_leased_at`). -/
structure Queue where
  jobs : List JobRow
  tenantQueueState : List (String × ℤ)
deriving Repr, DecidableEq

/-- The queue of an empty database. -/
def Queue.empty : Queue := ⟨[], []⟩

/-- What a queue operation throws. -/
inductive QueueError where
  | leaseMissing
  | leaseInvalid
  /-- `UNIQUE constraint failed: jobs.id`: another key has the id already. -/
  | idTaken
  /-- `this.map(undefined)`: the row of the computed id is not there. -/
  | rowMissing
deriving Repr, DecidableEq

/-- The text of the thrown error. -/
def QueueError.message : QueueError → String
  | .leaseMissing => "Job lease is missing"
  | .leaseInvalid => "Job lease is no longer valid"
  | .idTaken => "UNIQUE constraint failed: jobs.id"
  | .rowMissing => "Cannot read properties of undefined (reading 'id')"

/-- The id of the job of a key. -/
def jobId (digest : String → String) (tenantId type idempotencyKey : String) : String :=
  stableId digest "job" (tenantId ++ ":" ++ type ++ ":" ++ idempotencyKey)

/-- `redactedPayload()` at a clock reading. -/
def redactedPayload (now : ℤ) : Json :=
  .obj [("retentionRedacted", .bool true), ("redactedAt", .str (IsoTime.toISOString now)),
    ("reason", .str "terminal-screenshot-job")]

/-- `case when type='ingest.screenshot' then … else payload end`. -/
def JobRow.redactScreenshot (row : JobRow) (now : ℤ) : Json :=
  if row.type = "ingest.screenshot" then redactedPayload now else row.payload

/-! ### Selecting the next job -/

/-- The rows that may be leased: pending ones that are available and not leased,
and running ones whose lease has expired while attempts remain.  Each comparison
has its own clock reading. -/
def JobRow.eligible (availableNow pendingNow runningNow : ℤ) (row : JobRow) : Bool :=
  (row.status.pending ∧ row.availableAt ≤ availableNow ∧
      row.leasedUntil.all (· < pendingNow)) ∨
    (row.status = .running ∧ row.leasedUntil.any (· < runningNow) ∧
      row.attemptCount < row.maxAttempts)

/-- `order by priority, created_at`: `a` comes strictly before `b`. -/
def JobRow.before (a b : JobRow) : Bool :=
  a.priority < b.priority ∨ (a.priority = b.priority ∧ a.createdAt < b.createdAt)

/-- `tenant_rank=1`: no row of the tenant in `rows` comes before it. -/
def JobRow.ranksFirst (rows : List JobRow) (row : JobRow) : Bool :=
  rows.all fun other => ¬ (other.tenantId = row.tenantId ∧ other.before row)

/-- `coalesce(t.last_leased_at, epoch)` of the row's tenant. -/
def Queue.lastLeased (q : Queue) (row : JobRow) : ℤ :=
  (q.tenantQueueState.lookup row.tenantId).getD 0

/-- `order by coalesce(t.last_leased_at, epoch), j.priority, j.created_at`. -/
def Queue.servedBefore (q : Queue) (a b : JobRow) : Bool :=
  q.lastLeased a < q.lastLeased b ∨ (q.lastLeased a = q.lastLeased b ∧ a.before b)

/-- Whether the selection may answer `row`: SQL leaves the order of equal rows
open, so the answer is any row that no other candidate comes before. -/
def Queue.isNext (q : Queue) (candidates : List JobRow) (row : JobRow) : Bool :=
  row ∈ candidates ∧ row.ranksFirst candidates ∧
    candidates.all fun other => ¬ (other.ranksFirst candidates ∧ q.servedBefore other row)

/-- `insert into tenant_queue_state … on conflict(tenant_id) do update`. -/
def Queue.touchTenant (q : Queue) (tenantId : String) (now : ℤ) : List (String × ℤ) :=
  (tenantId, now) :: q.tenantQueueState.filter (·.1 ≠ tenantId)

end RecruitingOs
