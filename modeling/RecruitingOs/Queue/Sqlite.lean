import RecruitingOs.Queue.Model

/-!
# `SqliteJobQueue`

The six operations of `src/infrastructure/queue/sqlite-job-queue.ts`, statement by
statement.  An operation reads the clock several times; `Readings.nth` names the
readings in the order of evaluation.  A result in `Except` is a promise that
resolves or rejects; the table it leaves is part of the answer only where the
operation resolves, because each operation is one transaction or one statement.

`leaseNext` takes the row that its query answered as an argument, and is `none`
where the query could not have answered it.
-/

namespace RecruitingOs

namespace SqliteJobQueue

/-! ### `enqueue` -/

/-- The row that `enqueue` inserts. -/
def enqueuedRow (digest : String → String) (input : EnqueueJob) (now : ℤ) : JobRow where
  id := jobId digest input.tenantId input.type input.idempotencyKey
  tenantId := input.tenantId
  type := input.type
  idempotencyKey := input.idempotencyKey
  payload := input.payload
  status := .queued
  priority := input.priority.getD 100
  attemptCount := 0
  maxAttempts := input.maxAttempts.getD 5
  availableAt := input.availableAt.getD now
  leasedUntil := none
  leasedBy := none
  lastError := none
  createdAt := now
  updatedAt := now

/-- `tenant_id`, `type` and `idempotency_key` are those of the input. -/
def hasKey (input : EnqueueJob) (row : JobRow) : Bool :=
  row.tenantId = input.tenantId ∧ row.type = input.type ∧
    row.idempotencyKey = input.idempotencyKey

/-- `do update set …`: a cancelled job starts afresh with the new values. -/
def revive (fresh row : JobRow) : JobRow :=
  { row with
    payload := fresh.payload
    status := .queued
    priority := fresh.priority
    attemptCount := 0
    maxAttempts := fresh.maxAttempts
    availableAt := fresh.availableAt
    leasedUntil := none
    leasedBy := none
    lastError := none
    updatedAt := fresh.updatedAt }

/-- The upsert of `enqueue`: insert, or revive a cancelled job of the same key. -/
def upsertJob (digest : String → String) (input : EnqueueJob) (now : ℤ)
    (jobs : List JobRow) : Except QueueError (List JobRow) :=
  let fresh := enqueuedRow digest input now
  if jobs.any (hasKey input) then
    .ok (Table.updateWhere
      (fun row => hasKey input row ∧ row.status = .cancelled) (revive fresh) jobs)
  else if jobs.any (fun row => row.id = fresh.id) then .error .idTaken
  else .ok (jobs ++ [fresh])

/-- `enqueue(input)`: the new table and the job that the caller gets. -/
def enqueue (digest : String → String) (q : Queue) (input : EnqueueJob) (clock : Readings) :
    Except QueueError (Queue × Job) :=
  match upsertJob digest input (clock.nth 0) q.jobs with
  | .error error => .error error
  | .ok jobs =>
      match jobs.find? fun row =>
          row.id = jobId digest input.tenantId input.type input.idempotencyKey with
      | none => .error .rowMissing
      | some row => .ok ({ q with jobs := jobs }, row.toJob)

/-! ### `cancelPending` -/

/-- `Object.entries(input.payload).every(([key, value]) => payload[key] === value)`. -/
def matchesPayload (payload : Json) (wanted : List (String × String)) : Bool :=
  wanted.all fun entry => payload.get? entry.1 = some (.str entry.2)

/-- The pending jobs of the tenant and type whose payload matches. -/
def isCancelCandidate (input : CancelPendingJobs) (row : JobRow) : Bool :=
  row.tenantId = input.tenantId ∧ row.type = input.type ∧ row.status.pending ∧
    matchesPayload row.payload input.payload

def cancelRow (redactedAt now : ℤ) (row : JobRow) : JobRow :=
  { row with
    status := .cancelled
    leasedBy := none
    leasedUntil := none
    lastError := some "Cancelled by connector revocation"
    payload := row.redactScreenshot redactedAt
    updatedAt := now }

/-- `where id=? and status in ('queued','retryable_failed')`. -/
def isPendingId (id : String) (row : JobRow) : Bool :=
  row.id = id ∧ row.status.pending

/-- The loop over the selected ids, with the number of changed rows; the `i`-th
statement uses two readings. -/
def cancelIds (clock : Readings) : ℕ → List String → List JobRow → List JobRow × ℕ
  | _, [], jobs => (jobs, 0)
  | i, id :: ids, jobs =>
      let rest := cancelIds clock (i + 1) ids
        (Table.updateWhere (isPendingId id)
          (cancelRow (clock.nth (2 * i)) (clock.nth (2 * i + 1))) jobs)
      (rest.1, Table.changes (isPendingId id) jobs + rest.2)

/-- `cancelPending(input)`: the new table and the number of cancelled jobs. -/
def cancelPending (q : Queue) (input : CancelPendingJobs) (clock : Readings) : Queue × ℕ :=
  let ids := (q.jobs.filter (isCancelCandidate input)).map JobRow.id
  let cancelled := cancelIds clock 0 ids q.jobs
  ({ q with jobs := cancelled.1 }, cancelled.2)

/-! ### `leaseNext` -/

/-- `status='running' and leased_until<? and attempt_count>=max_attempts`. -/
def isExhausted (now : ℤ) (row : JobRow) : Bool :=
  row.status = .running ∧ row.leasedUntil.any (· < now) ∧ row.maxAttempts ≤ row.attemptCount

def exhaustRow (redactedAt now : ℤ) (row : JobRow) : JobRow :=
  { row with
    status := .deadLetter
    leasedBy := none
    leasedUntil := none
    lastError := some "Worker lease expired after final attempt"
    payload := row.redactScreenshot redactedAt
    updatedAt := now }

/-- The dead-letter sweep at the head of `leaseNext`. -/
def sweep (clock : Readings) (jobs : List JobRow) : List JobRow :=
  Table.updateWhere (isExhausted (clock.nth 2)) (exhaustRow (clock.nth 0) (clock.nth 1)) jobs

/-- The rows of the `ranked` query. -/
def candidates (clock : Readings) (jobs : List JobRow) : List JobRow :=
  jobs.filter (JobRow.eligible (clock.nth 3) (clock.nth 4) (clock.nth 5))

def leaseRow (workerId : String) (leasedUntil now : ℤ) (row : JobRow) : JobRow :=
  { row with
    status := .running
    attemptCount := row.attemptCount + 1
    leasedBy := some workerId
    leasedUntil := some leasedUntil
    updatedAt := now }

/-- `leaseNext(workerId, leaseSeconds)` when its query answers the row with id
`pick`; `none` where the query answers otherwise. -/
def leaseNext (q : Queue) (workerId : String) (leaseSeconds : ℤ) (pick : Option String)
    (clock : Readings) : Option (Queue × Option Job) :=
  let jobs := sweep clock q.jobs
  let ready := candidates clock jobs
  match pick with
  | none => if ready.isEmpty then some ({ q with jobs := jobs }, none) else none
  | some id =>
      match jobs.find? fun row => row.id = id with
      | none => none
      | some row =>
          if q.isNext ready row then
            let leasedUntil := clock.nth 6 + leaseSeconds * 1000
            let leased := leaseRow workerId leasedUntil (clock.nth 7)
            some (
              { jobs := Table.updateWhere (fun r => r.id = id) leased jobs
                tenantQueueState := q.touchTenant row.tenantId (clock.nth 8) },
              some (leased row).toJob)
          else none

/-! ### `renewLease`, `complete` and `fail` -/

/-- `where id=? and status='running' and leased_by=? and leased_until=? and
leased_until>?`: the row that a handle still leases. -/
def holdsLease (id : String) (leasedBy : String) (leasedUntil now : ℤ) (row : JobRow) : Bool :=
  row.id = id ∧ row.status = .running ∧ row.leasedBy = some leasedBy ∧
    row.leasedUntil = some leasedUntil ∧ now < leasedUntil

def renewRow (renewedUntil now : ℤ) (row : JobRow) : JobRow :=
  { row with leasedUntil := some renewedUntil, updatedAt := now }

/-- `renewLease(job, leaseSeconds)`: the new table and the renewed handle. -/
def renewLease (q : Queue) (job : Job) (leaseSeconds : ℤ) (clock : Readings) :
    Queue × Option Job :=
  match job.leasedBy, job.leasedUntil with
  | some leasedBy, some leasedUntil =>
      let renewedUntil := clock.nth 0 + leaseSeconds * 1000
      let held := holdsLease job.id leasedBy leasedUntil (clock.nth 2)
      let jobs := Table.updateWhere held (renewRow renewedUntil (clock.nth 1)) q.jobs
      if q.jobs.any held then
        ({ q with jobs := jobs }, some { job with leasedUntil := some renewedUntil })
      else (q, none)
  | _, _ => (q, none)

def succeedRow (redactedAt now : ℤ) (row : JobRow) : JobRow :=
  { row with
    status := .succeeded
    leasedBy := none
    leasedUntil := none
    lastError := none
    payload := row.redactScreenshot redactedAt
    updatedAt := now }

/-- `complete(job)`. -/
def complete (q : Queue) (job : Job) (clock : Readings) : Except QueueError Queue :=
  match job.leasedBy, job.leasedUntil with
  | some leasedBy, some leasedUntil =>
      let held := holdsLease job.id leasedBy leasedUntil (clock.nth 2)
      let jobs := Table.updateWhere held (succeedRow (clock.nth 0) (clock.nth 1)) q.jobs
      if q.jobs.any held then .ok { q with jobs := jobs }
      else .error .leaseInvalid
  | _, _ => .error .leaseMissing

/-- `Math.min(900, 2 ** Math.min(job.attemptCount, 9))`, in seconds. -/
def retryDelay (attemptCount : ℕ) : ℕ := min 900 (2 ^ min attemptCount 9)

def failRow (terminal : Bool) (message : String) (availableAt redactedAt now : ℤ)
    (row : JobRow) : JobRow :=
  { row with
    status := if terminal then .deadLetter else .retryableFailed
    availableAt := availableAt
    leasedBy := none
    leasedUntil := none
    lastError := some (String.ofList (message.toList.take 500))
    payload := if terminal then row.redactScreenshot redactedAt else row.payload
    updatedAt := now }

/-- `fail(job, error)`: whether the attempt was the last one is read off the
handle, not off the row. -/
def fail (q : Queue) (job : Job) (message : String) (clock : Readings) :
    Except QueueError Queue :=
  match job.leasedBy, job.leasedUntil with
  | some leasedBy, some leasedUntil =>
      let terminal : Bool := job.maxAttempts ≤ job.attemptCount
      let availableAt := clock.nth 0 + retryDelay job.attemptCount * 1000
      let held := holdsLease job.id leasedBy leasedUntil (clock.nth 3)
      let jobs := Table.updateWhere held
        (failRow terminal message availableAt (clock.nth 1) (clock.nth 2)) q.jobs
      if q.jobs.any held then .ok { q with jobs := jobs }
      else .error .leaseInvalid
  | _, _ => .error .leaseMissing

/-! ### What each operation can do -/

section Specs

variable {digest : String → String} {q q' : Queue} {input : EnqueueJob} {clock : Readings}

theorem hasKey_iff {row : JobRow} :
    hasKey input row ↔ row.tenantId = input.tenantId ∧ row.type = input.type ∧
      row.idempotencyKey = input.idempotencyKey := by
  simp [hasKey]

/-- `enqueue` resolves with what the upserted row reads back. -/
theorem enqueue_ok {job : Job} (h : enqueue digest q input clock = .ok (q', job)) :
    ∃ jobs, upsertJob digest input (clock.nth 0) q.jobs = .ok jobs ∧
      q' = { q with jobs := jobs } ∧
      ∃ row ∈ jobs, row.id = jobId digest input.tenantId input.type input.idempotencyKey ∧
        job = row.toJob := by
  unfold enqueue at h
  cases hu : upsertJob digest input (clock.nth 0) q.jobs with
  | error e => simp [hu] at h
  | ok jobs =>
      rw [hu] at h
      dsimp only at h
      split at h
      · cases h
      · rename_i row hfind
        cases h
        have hid := List.find?_some hfind
        exact ⟨jobs, rfl, rfl, row, List.mem_of_find?_eq_some hfind, by simpa using hid, rfl⟩

/-- The upsert revives the cancelled job of the key, keeps any other job of the
key as it is, and otherwise appends the new job. -/
theorem upsertJob_ok {now : ℤ} {jobs jobs' : List JobRow}
    (h : upsertJob digest input now jobs = .ok jobs') :
    ((∃ row ∈ jobs, hasKey input row) ∧
        jobs' = Table.updateWhere (fun row => hasKey input row ∧ row.status = .cancelled)
          (revive (enqueuedRow digest input now)) jobs) ∨
      ((∀ row ∈ jobs, row.id ≠ (enqueuedRow digest input now).id) ∧
        jobs' = jobs ++ [enqueuedRow digest input now]) := by
  unfold upsertJob at h
  dsimp only at h
  split at h
  · rename_i hany
    left
    cases h
    exact ⟨by simpa using hany, rfl⟩
  · split at h
    · cases h
    · rename_i hid
      right
      cases h
      exact ⟨by simpa using hid, rfl⟩

/-- The loop of `cancelPending` cancels pending rows and leaves the others alone. -/
theorem cancelIds_map (clock : Readings) :
    ∀ (ids : List String) (rows : List JobRow) (i : ℕ), ∃ change : JobRow → JobRow,
      (cancelIds clock i ids rows).1 = rows.map change ∧
      ∀ row, change row = row ∨
        row.status.pending ∧ ∃ redactedAt now, change row = cancelRow redactedAt now row := by
  intro ids
  induction ids with
  | nil =>
      intro rows i
      refine ⟨id, ?_, fun row => .inl rfl⟩
      rw [List.map_id]
      rfl
  | cons id ids ih =>
      intro rows i
      obtain ⟨change, hmap, hchange⟩ := ih
        (Table.updateWhere (isPendingId id)
          (cancelRow (clock.nth (2 * i)) (clock.nth (2 * i + 1))) rows) (i + 1)
      refine ⟨fun row => change (if isPendingId id row then
        cancelRow (clock.nth (2 * i)) (clock.nth (2 * i + 1)) row else row), ?_, ?_⟩
      · unfold cancelIds
        rw [hmap, Table.updateWhere, List.map_map]
        rfl
      · intro row
        beta_reduce
        by_cases hp : isPendingId id row
        · -- a cancelled row is no longer pending, so later statements leave it alone
          right
          have hpending : row.status.pending := (of_decide_eq_true hp).2
          rw [if_pos hp]
          rcases hchange (cancelRow (clock.nth (2 * i)) (clock.nth (2 * i + 1)) row) with
            hsame | ⟨habsurd, -⟩
          · exact ⟨hpending, _, _, hsame⟩
          · cases habsurd
        · rw [if_neg hp]
          exact hchange row

/-- `leaseNext` sweeps, and leases the row that its query answers. -/
theorem leaseNext_some {workerId : String} {leaseSeconds : ℤ} {pick : Option String}
    {out : Option Job} (h : leaseNext q workerId leaseSeconds pick clock = some (q', out)) :
    (pick = none ∧ out = none ∧ candidates clock (sweep clock q.jobs) = [] ∧
        q' = { q with jobs := sweep clock q.jobs }) ∨
      ∃ row ∈ sweep clock q.jobs, pick = some row.id ∧
        q.isNext (candidates clock (sweep clock q.jobs)) row ∧
        out = some (leaseRow workerId (clock.nth 6 + leaseSeconds * 1000) (clock.nth 7) row).toJob ∧
        q'.jobs = Table.updateWhere (fun r => r.id = row.id)
          (leaseRow workerId (clock.nth 6 + leaseSeconds * 1000) (clock.nth 7))
          (sweep clock q.jobs) ∧
        q'.tenantQueueState = q.touchTenant row.tenantId (clock.nth 8) := by
  unfold leaseNext at h
  dsimp only at h
  cases pick with
  | none =>
      left
      dsimp only at h
      split at h
      · rename_i hempty
        cases h
        exact ⟨rfl, rfl, by simpa using hempty, rfl⟩
      · cases h
  | some id =>
      right
      dsimp only at h
      split at h
      · cases h
      · rename_i row hfind
        split at h
        · rename_i hnext
          cases h
          have hid : row.id = id := by simpa using List.find?_some hfind
          subst hid
          exact ⟨row, List.mem_of_find?_eq_some hfind, rfl, hnext, rfl, rfl, rfl⟩
        · cases h

theorem holdsLease_iff {id leasedBy : String} {leasedUntil now : ℤ} {row : JobRow} :
    holdsLease id leasedBy leasedUntil now row ↔
      row.id = id ∧ row.status = .running ∧ row.leasedBy = some leasedBy ∧
        row.leasedUntil = some leasedUntil ∧ now < leasedUntil := by
  simp [holdsLease]

/-- A renewal answers a handle exactly when the presented one is accepted. -/
theorem renewLease_some {job renewed : Job} {leaseSeconds : ℤ}
    (h : renewLease q job leaseSeconds clock = (q', some renewed)) :
    ∃ leasedBy leasedUntil, job.leasedBy = some leasedBy ∧ job.leasedUntil = some leasedUntil ∧
      (∃ row ∈ q.jobs, holdsLease job.id leasedBy leasedUntil (clock.nth 2) row) ∧
      renewed = { job with leasedUntil := some (clock.nth 0 + leaseSeconds * 1000) } ∧
      q' = { q with
        jobs := Table.updateWhere
          (holdsLease job.id leasedBy leasedUntil (clock.nth 2))
          (renewRow (clock.nth 0 + leaseSeconds * 1000) (clock.nth 1)) q.jobs } := by
  unfold renewLease at h
  split at h
  · rename_i leasedBy leasedUntil hby huntil
    dsimp only at h
    split at h
    · rename_i hany
      cases h
      exact ⟨leasedBy, leasedUntil, hby, huntil, by simpa using hany, rfl, rfl⟩
    · cases h
  · cases h

theorem complete_ok {job : Job} (h : complete q job clock = .ok q') :
    ∃ leasedBy leasedUntil, job.leasedBy = some leasedBy ∧ job.leasedUntil = some leasedUntil ∧
      (∃ row ∈ q.jobs, holdsLease job.id leasedBy leasedUntil (clock.nth 2) row) ∧
      q' = { q with
        jobs := Table.updateWhere
          (holdsLease job.id leasedBy leasedUntil (clock.nth 2))
          (succeedRow (clock.nth 0) (clock.nth 1)) q.jobs } := by
  unfold complete at h
  split at h
  · rename_i leasedBy leasedUntil hby huntil
    dsimp only at h
    split at h
    · rename_i hany
      cases h
      exact ⟨leasedBy, leasedUntil, hby, huntil, by simpa using hany, rfl⟩
    · cases h
  · cases h

theorem fail_ok {job : Job} {message : String} (h : fail q job message clock = .ok q') :
    ∃ leasedBy leasedUntil, job.leasedBy = some leasedBy ∧ job.leasedUntil = some leasedUntil ∧
      (∃ row ∈ q.jobs, holdsLease job.id leasedBy leasedUntil (clock.nth 3) row) ∧
      q' = { q with
        jobs := Table.updateWhere
          (holdsLease job.id leasedBy leasedUntil (clock.nth 3))
          (failRow (job.maxAttempts ≤ job.attemptCount) message
            (clock.nth 0 + retryDelay job.attemptCount * 1000) (clock.nth 1) (clock.nth 2))
          q.jobs } := by
  unfold fail at h
  split at h
  · rename_i leasedBy leasedUntil hby huntil
    dsimp only at h
    split at h
    · rename_i hany
      cases h
      exact ⟨leasedBy, leasedUntil, hby, huntil, by simpa using hany, rfl⟩
    · cases h
  · cases h

end Specs

end SqliteJobQueue

end RecruitingOs
