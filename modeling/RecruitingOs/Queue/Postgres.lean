import RecruitingOs.Queue.LeaseJob

/-!
# `PostgresJobQueue`

The operations of `src/infrastructure/queue/postgres-job-queue.ts` with the functions of
`migrations/008_terminal_job_payload_retention.sql` and `app.renew_job_lease` of
`migrations/006_job_lease_recovery.sql`, each call one transaction.

The columns keep instants in microseconds, while a `Job` has them in milliseconds: `map`
cuts them, and what a caller hands back is compared with the column as it is.  The first
reading of a call is the clock of the client, the others are `now()` and
`clock_timestamp()`.

Neither `text` nor `jsonb` can hold U+0000, and `integer` has 32 bits; what does not fit is
rejected.
-/

namespace Json

mutual

/-- No string of the value has a U+0000 in it. -/
def storable : Json → Bool
  | .null | .bool _ | .num _ => true
  | .str text => Char.ofNat 0 ∉ text.toList
  | .arr items => storableItems items
  | .obj fields => storableFields fields

def storableItems : List Json → Bool
  | [] => true
  | item :: rest => item.storable ∧ storableItems rest

def storableFields : List (String × Json) → Bool
  | [] => true
  | (key, value) :: rest =>
      Char.ofNat 0 ∉ key.toList ∧ value.storable ∧ storableFields rest

end

end Json

namespace RecruitingOs

/-- What an operation of the queue throws. -/
inductive PostgresQueueError where
  | invalidLeaseDuration
  | leaseInvalid
  | idTaken
  /-- `this.map(undefined)`: the row of the computed id is not there. -/
  | rowMissing
  /-- A column cannot hold the value. -/
  | unstorable
deriving Repr, DecidableEq

namespace PostgresQueue

open SqliteJobQueue (hasKey revive isExhausted retryDelay)

/-- A `text` column can hold the text. -/
def storableText (text : String) : Bool := Char.ofNat 0 ∉ text.toList

/-- An `integer` column can hold the number. -/
def storableInteger (n : ℤ) : Bool := -2147483648 ≤ n ∧ n ≤ 2147483647

/-- `map`. -/
def toJob (row : JobRow) : Job where
  id := row.id
  tenantId := row.tenantId
  type := row.type
  idempotencyKey := row.idempotencyKey
  payload := row.payload
  status := row.status
  attemptCount := row.attemptCount
  maxAttempts := row.maxAttempts
  availableAt := row.availableAt / 1000
  leasedBy := row.leasedBy
  leasedUntil := row.leasedUntil.map (· / 1000)

/-! ### `enqueue` -/

/-- The row of the `insert`; `today` is the client's `new Date()` in milliseconds. -/
def enqueuedRow (digest : String → String) (input : EnqueueJob) (today now : ℤ) : JobRow where
  id := jobId digest input.tenantId input.type input.idempotencyKey
  tenantId := input.tenantId
  type := input.type
  idempotencyKey := input.idempotencyKey
  payload := input.payload
  status := .queued
  priority := input.priority.getD 100
  attemptCount := 0
  maxAttempts := input.maxAttempts.getD 5
  availableAt := input.availableAt.getD today * 1000
  leasedUntil := none
  leasedBy := none
  lastError := none
  createdAt := now
  updatedAt := now

/-- The columns can hold the job. -/
def storable (input : EnqueueJob) : Bool :=
  storableText input.tenantId ∧ storableText input.type ∧ storableText input.idempotencyKey ∧
    input.payload.storable ∧ storableInteger (input.priority.getD 100) ∧
    storableInteger (input.maxAttempts.getD 5)

/-- The upsert: insert, or revive a cancelled job of the same key. -/
def upsertJob (fresh : JobRow) (input : EnqueueJob) (jobs : List JobRow) :
    Except PostgresQueueError (List JobRow) :=
  if jobs.any (hasKey input) then
    .ok (Table.updateWhere (fun row => hasKey input row ∧ row.status = .cancelled)
      (revive fresh) jobs)
  else if jobs.any (fun row => row.id = fresh.id) then .error .idTaken
  else .ok (jobs ++ [fresh])

/-- `enqueue(input)`. -/
def enqueue (digest : String → String) (q : Queue) (input : EnqueueJob) (clock : Readings) :
    Except PostgresQueueError (Queue × Job) :=
  if storable input then
    let fresh := enqueuedRow digest input (clock.nth 0 / 1000) (clock.nth 1)
    match upsertJob fresh input q.jobs with
    | .error error => .error error
    | .ok jobs =>
        match jobs.find? fun row => row.id = fresh.id with
        | none => .error .rowMissing
        | some row => .ok ({ q with jobs := jobs }, toJob row)
  else .error .unstorable

/-! ### `cancelPending` -/

/-- `payload @> filter` for a filter of text fields. -/
def contains (payload : Json) (filter : List (String × String)) : Bool :=
  match payload with
  | .obj fields => filter.all fun entry => fields.lookup entry.1 = some (.str entry.2)
  | _ => false

/-- `where tenant_id=$1 and type=$2 and status in ('queued','retryable_failed') and payload
@> $3::jsonb`. -/
def isCancelled (input : CancelPendingJobs) (row : JobRow) : Bool :=
  row.tenantId = input.tenantId ∧ row.type = input.type ∧ row.status.pending ∧
    contains row.payload input.payload

/-- The payload stays, whatever the type. -/
def cancelRow (now : ℤ) (row : JobRow) : JobRow :=
  { row with
    status := .cancelled
    leasedBy := none
    leasedUntil := none
    lastError := some "Cancelled by connector revocation"
    updatedAt := now }

/-- The parameters of the statement can be sent. -/
def storableFilter (input : CancelPendingJobs) : Bool :=
  storableText input.tenantId ∧ storableText input.type ∧
    input.payload.all fun entry => storableText entry.1 ∧ storableText entry.2

/-- `cancelPending(input)`: the new table and the number of cancelled jobs. -/
def cancelPending (q : Queue) (input : CancelPendingJobs) (clock : Readings) :
    Except PostgresQueueError (Queue × ℕ) :=
  if storableFilter input then
    let jobs := Table.updateWhere (isCancelled input) (cancelRow (clock.nth 1)) q.jobs
    .ok ({ q with jobs := jobs }, Table.changes (isCancelled input) q.jobs)
  else .error .unstorable

/-! ### `leaseNext` -/

/-- `lease_seconds < 5 or lease_seconds > 3600` raises. -/
def validDuration (leaseSeconds : ℤ) : Bool := 5 ≤ leaseSeconds ∧ leaseSeconds ≤ 3600

/-- The dead-letter sweep at the head of `app.lease_job`. -/
def sweep (timestamp : ℤ → String) (now : ℤ) (jobs : List JobRow) : List JobRow :=
  Table.updateWhere (isExhausted now) (LeaseJob.exhaustRow timestamp now) jobs

/-- The rows of `ranked`. -/
def candidates (now : ℤ) (jobs : List JobRow) : List JobRow :=
  jobs.filter (JobRow.eligible now now now)

/-- `leaseNext(workerId, leaseSeconds)` when the query of `app.lease_job` answers the row
with id `pick`; `none` where it answers otherwise. -/
def leaseNext (timestamp : ℤ → String) (q : Queue) (workerId : String) (leaseSeconds : ℤ)
    (pick : Option String) (clock : Readings) :
    Option (Except PostgresQueueError (Queue × Option Job)) :=
  let now := clock.nth 1
  let jobs := sweep timestamp now q.jobs
  let ready := candidates now jobs
  if validDuration leaseSeconds then
    if storableText workerId then
      match pick with
      | none => if ready.isEmpty then some (.ok ({ q with jobs := jobs }, none)) else none
      | some id =>
          match jobs.find? fun row => row.id = id with
          | none => none
          | some row =>
              if q.isNext ready row then
                let leasedUntil := LeaseJob.leasedUntil (clock.nth 2) leaseSeconds
                let leased := SqliteJobQueue.leaseRow workerId leasedUntil now
                some (.ok (
                  { jobs := Table.updateWhere (fun r => r.id = id) leased jobs
                    tenantQueueState := q.touchTenant row.tenantId now },
                  some (toJob (leased row))))
              else none
    else some (.error .unstorable)
  else some (.error .invalidLeaseDuration)

/-! ### `renewLease`, `complete` and `fail` -/

/-- `where id=candidate_job_id and status='running' and leased_by=candidate_worker and
leased_until=expected_lease and leased_until>now()`. -/
def holdsLease (id leasedBy : String) (expectedLease now : ℤ) (row : JobRow) : Bool :=
  row.id = id ∧ row.status = .running ∧ row.leasedBy = some leasedBy ∧
    row.leasedUntil = some expectedLease ∧ now < expectedLease

/-- `renewLease(job, leaseSeconds)`. -/
def renewLease (q : Queue) (job : Job) (leaseSeconds : ℤ) (clock : Readings) :
    Except PostgresQueueError (Queue × Option Job) :=
  match job.leasedBy.filter (· ≠ ""), job.leasedUntil with
  | some leasedBy, some leasedUntil =>
      if validDuration leaseSeconds then
        let now := clock.nth 1
        let held := holdsLease job.id leasedBy (leasedUntil * 1000) now
        let renewedUntil := LeaseJob.leasedUntil (clock.nth 2) leaseSeconds
        let jobs := Table.updateWhere held (SqliteJobQueue.renewRow renewedUntil now) q.jobs
        if q.jobs.any held then
          .ok ({ q with jobs := jobs }, some { job with leasedUntil := some (renewedUntil / 1000) })
        else .ok (q, none)
      else .error .invalidLeaseDuration
  | _, _ => .ok (q, none)

/-- The row is not the one that the caller of `app.finish_job` expects: `is distinct from`
takes two nulls for the same. -/
def isLost (worker : Option String) (expectedLease : Option ℤ) (now : ℤ) (row : JobRow) : Bool :=
  row.status ≠ .running ∨ row.leasedBy ≠ worker ∨ row.leasedUntil ≠ expectedLease ∨
    row.leasedUntil.any (· ≤ now)

/-- What `app.finish_job` writes to the row. -/
def finishRow (timestamp : ℤ → String) (failure : Option String) (now : ℤ) (row : JobRow) :
    JobRow :=
  let redacted : Json :=
    if row.type = "ingest.screenshot" then
      .obj [("retentionRedacted", .bool true), ("redactedAt", .str (timestamp now)),
        ("reason", .str "terminal-screenshot-job")]
    else row.payload
  match failure with
  | none =>
      { row with
        status := .succeeded
        leasedBy := none
        leasedUntil := none
        lastError := none
        payload := redacted
        updatedAt := now }
  | some failure =>
      if row.maxAttempts ≤ row.attemptCount then
        { row with
          status := .deadLetter
          leasedBy := none
          leasedUntil := none
          lastError := some (String.ofList (failure.toList.take 500))
          payload := redacted
          updatedAt := now }
      else
        { row with
          status := .retryableFailed
          availableAt := now + retryDelay row.attemptCount * 1000000
          leasedBy := none
          leasedUntil := none
          lastError := some (String.ofList (failure.toList.take 500))
          updatedAt := now }

/-- `app.finish_job`. -/
def finishJob (timestamp : ℤ → String) (q : Queue) (id : String) (expectedLease : Option ℤ)
    (worker failure : Option String) (now : ℤ) : Except PostgresQueueError Queue :=
  match q.jobs.find? fun row => row.id = id with
  | none => .error .leaseInvalid
  | some row =>
      if isLost worker expectedLease now row then .error .leaseInvalid
      else
        let jobs := Table.updateWhere (fun r => r.id = id) (finishRow timestamp failure now) q.jobs
        .ok { q with jobs := jobs }

/-- `complete(job)`. -/
def complete (timestamp : ℤ → String) (q : Queue) (job : Job) (clock : Readings) :
    Except PostgresQueueError Queue :=
  finishJob timestamp q job.id (job.leasedUntil.map (· * 1000)) job.leasedBy none (clock.nth 1)

/-- `fail(job, error)`: whether the attempt was the last one is read off the row. -/
def fail (timestamp : ℤ → String) (q : Queue) (job : Job) (message : String)
    (clock : Readings) : Except PostgresQueueError Queue :=
  let failure := String.ofList (message.toList.take 500)
  if storableText failure then
    finishJob timestamp q job.id (job.leasedUntil.map (· * 1000)) job.leasedBy (some failure)
      (clock.nth 1)
  else .error .unstorable

end PostgresQueue

end RecruitingOs
