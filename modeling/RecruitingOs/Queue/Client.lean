import RecruitingOs.Queue.Postgres
import RecruitingOs.Queue.Calls

/-!
# The queue as its callers use it

What the callers of the two queues have in common: leases last 60 seconds, a call reads the
clock once, and a handle is a job that the queue has returned.  `CallerRequest` is a call
in these terms, with a handle named by its place among the returned jobs, the newest first;
`serve` is what a queue answers, and the state it goes on with.

`QueueTwin` has the same calls made on both queues.
-/

namespace RecruitingOs

/-- A call; `handle` counts the jobs that the queue has returned, from the newest. -/
inductive CallerRequest where
  | enqueue (input : EnqueueJob)
  | cancelPending (input : CancelPendingJobs)
  | leaseNext (workerId : String)
  | renewLease (handle : ℕ)
  | complete (handle : ℕ)
  | fail (handle : ℕ) (message : String)

/-- What the caller gets. -/
inductive QueueAnswer where
  | enqueued (job : Job)
  | cancelled (count : ℕ)
  | leased (job : Option Job)
  | renewed (job : Option Job)
  | settled
  | rejected

/-- A queue and the jobs that it has returned. -/
structure QueueClient where
  queue : Queue
  issued : List Job

namespace QueueClient

/-- The empty queue, before any call. -/
def empty : QueueClient := ⟨Queue.empty, []⟩

/-- The answer of a call that resolves with a job or rejects. -/
def returning {ε : Type} (s : QueueClient) : Except ε (Queue × Job) → QueueClient × QueueAnswer
  | .error _ => (s, .rejected)
  | .ok (queue, job) => (⟨queue, job :: s.issued⟩, .enqueued job)

/-- The answer of a call that resolves with nothing or rejects. -/
def settling {ε : Type} (s : QueueClient) : Except ε Queue → QueueClient × QueueAnswer
  | .error _ => (s, .rejected)
  | .ok queue => ({ s with queue := queue }, .settled)

end QueueClient

/-- A call on `SqliteJobQueue` that reads the clock `now`; `none` where the query of
`leaseNext` does not answer `pick`, and for a handle that the caller does not have. -/
def SqliteJobQueue.serve (digest : String → String) (s : QueueClient) (now : ℤ)
    (pick : Option String) : CallerRequest → Option (QueueClient × QueueAnswer)
  | .enqueue input => some (s.returning (enqueue digest s.queue input ⟨now, []⟩))
  | .cancelPending input =>
      let (queue, count) := cancelPending s.queue input ⟨now, []⟩
      some ({ s with queue := queue }, .cancelled count)
  | .leaseNext workerId =>
      (leaseNext s.queue workerId 60 pick ⟨now, []⟩).map fun (queue, job) =>
        (⟨queue, job.toList ++ s.issued⟩, .leased job)
  | .renewLease handle =>
      s.issued[handle]?.map fun job =>
        let (queue, renewed) := renewLease s.queue job 60 ⟨now, []⟩
        (⟨queue, renewed.toList ++ s.issued⟩, .renewed renewed)
  | .complete handle =>
      s.issued[handle]?.map fun job => s.settling (complete s.queue job ⟨now, []⟩)
  | .fail handle message =>
      s.issued[handle]?.map fun job => s.settling (fail s.queue job message ⟨now, []⟩)

/-- A call on `PostgresJobQueue` that reads the clock `now`, in milliseconds. -/
def PostgresQueue.serve (digest : String → String) (timestamp : ℤ → String) (s : QueueClient)
    (now : ℤ) (pick : Option String) : CallerRequest → Option (QueueClient × QueueAnswer)
  | .enqueue input => some (s.returning (enqueue digest s.queue input ⟨now * 1000, []⟩))
  | .cancelPending input =>
      match cancelPending s.queue input ⟨now * 1000, []⟩ with
      | .error _ => some (s, .rejected)
      | .ok (queue, count) => some ({ s with queue := queue }, .cancelled count)
  | .leaseNext workerId =>
      (leaseNext timestamp s.queue workerId 60 pick ⟨now * 1000, []⟩).map fun
        | .error _ => (s, .rejected)
        | .ok (queue, job) => (⟨queue, job.toList ++ s.issued⟩, .leased job)
  | .renewLease handle =>
      s.issued[handle]?.map fun job =>
        match renewLease s.queue job 60 ⟨now * 1000, []⟩ with
        | .error _ => (s, .rejected)
        | .ok (queue, renewed) => (⟨queue, renewed.toList ++ s.issued⟩, .renewed renewed)
  | .complete handle =>
      s.issued[handle]?.map fun job => s.settling (complete timestamp s.queue job ⟨now * 1000, []⟩)
  | .fail handle message =>
      s.issued[handle]?.map fun job =>
        s.settling (fail timestamp s.queue job message ⟨now * 1000, []⟩)

/-- `Record<string, unknown>`. -/
def isRecord : Json → Bool
  | .obj _ => true
  | _ => false

/-- How the callers use the queue: a payload is an object, a job has an attempt, syncs are
what is cancelled, a worker has a name, and the columns of Postgres can hold what they are
given. -/
def CallerRequest.usual : CallerRequest → Bool
  | .enqueue input =>
      isRecord input.payload ∧ 1 ≤ input.maxAttempts.getD 5 ∧ PostgresQueue.storable input
  | .cancelPending input => input.type = "connector.sync" ∧ PostgresQueue.storableFilter input
  | .leaseNext workerId => workerId ≠ "" ∧ PostgresQueue.storableText workerId
  | .fail _ message => PostgresQueue.storableText (String.ofList (message.toList.take 500))
  | .renewLease _ | .complete _ => true

/-- Both queues under the same calls: their states, the clock of the last call, and the
answers of all calls. -/
structure QueueTwin where
  sqlite : QueueClient
  postgres : QueueClient
  clock : Option ℤ
  answers : List (QueueAnswer × QueueAnswer)

/-- A call on both queues, with what the query of `leaseNext` answers in each. -/
structure TwinCall where
  now : ℤ
  request : CallerRequest
  sqlitePick : Option String
  postgresPick : Option String

namespace QueueTwin

def empty : QueueTwin := ⟨.empty, .empty, none, []⟩

/-- One call, later than the call before. -/
def step (digest : String → String) (timestamp : ℤ → String) (s : QueueTwin) (call : TwinCall) :
    Option QueueTwin :=
  if s.clock.all (· < call.now) ∧ call.request.usual then
    match SqliteJobQueue.serve digest s.sqlite call.now call.sqlitePick call.request,
        PostgresQueue.serve digest timestamp s.postgres call.now call.postgresPick
          call.request with
    | some (sqlite, answer), some (postgres, answer') =>
        some ⟨sqlite, postgres, some call.now, (answer, answer') :: s.answers⟩
    | _, _ => none
  else none

/-- The states that runs of calls reach. -/
def Reached (digest : String → String) (timestamp : ℤ → String) : QueueTwin → Prop :=
  Transition.Reachable (· = QueueTwin.empty) (step digest timestamp)

end QueueTwin

/-! ### Agreement -/

/-- A row of the SQLite table and one of the Postgres table say the same of a job: all that
is not a clock or a payload is equal, the instants are equal but for the `available_at` of a
dead letter, and the payload is equal or redacted on both sides. -/
structure JobRow.Agrees (a b : JobRow) : Prop where
  same : b = { a with
    payload := b.payload
    availableAt := b.availableAt
    leasedUntil := a.leasedUntil.map (· * 1000)
    createdAt := a.createdAt * 1000
    updatedAt := b.updatedAt }
  availableAt : a.status ≠ .deadLetter → b.availableAt = a.availableAt * 1000
  payload : b.payload = a.payload ∨ a.redacted ∧ b.redacted

/-- Two returned jobs say the same. -/
structure Job.Agrees (a b : Job) : Prop where
  same : b = { a with payload := b.payload, availableAt := b.availableAt }
  availableAt : a.status ≠ .deadLetter → b.availableAt = a.availableAt
  payload : b.payload = a.payload ∨
    a.payload.get? "retentionRedacted" = some (.bool true) ∧
      b.payload.get? "retentionRedacted" = some (.bool true)

/-- Two answers are the same. -/
inductive QueueAnswer.Agrees : QueueAnswer → QueueAnswer → Prop
  | enqueued {a b : Job} (h : a.Agrees b) : Agrees (.enqueued a) (.enqueued b)
  | cancelled (n : ℕ) : Agrees (.cancelled n) (.cancelled n)
  | leased {a b : Job} (h : a.Agrees b) : Agrees (.leased (some a)) (.leased (some b))
  | noneLeased : Agrees (.leased none) (.leased none)
  | renewed {a b : Job} (h : a.Agrees b) : Agrees (.renewed (some a)) (.renewed (some b))
  | noneRenewed : Agrees (.renewed none) (.renewed none)
  | settled : Agrees .settled .settled
  | rejected : Agrees .rejected .rejected

end RecruitingOs
