import RecruitingOs.Connectors.SyncSchedule
import RecruitingOs.Http.OverrideRequest
import RecruitingOs.Privacy.Reconcile
import RecruitingOs.Queue.Heartbeat

/-!
# The loop of a worker

`main` of `src/bootstrap/worker.ts`, run by any number of processes over one `SqliteJobQueue`.
A worker leases a job, starts a heartbeat, runs the branch of the job's type, stops the
heartbeat, lets `scheduleAfter` enqueue the next sync and settles the job.  Between any two of
its awaits the other workers, the heartbeats, the routes and `eraseAccount` may act, and a
worker may exit at any point for good: the next process has a fresh `randomUUID`.

What the branches do is modelled elsewhere (`Ingest`, `Connectors.Sync`, `Privacy.Reconcile`);
here a branch returns or throws, within what its own checks leave open.  The enqueue of
`scheduleAfter` is an `enqueue` step (`Connectors.SyncChain` has the call itself).

`handlers` is a record of the run, which no step reads: the handlers that were begun for a job
since it was last enqueued, the latest first, with what each has come to.
-/

namespace RecruitingOs

namespace Worker

/-- `z.string()`. -/
def string : Json → Option String
  | .str text => some text
  | _ => none

/-- `z.string().min(1)`. -/
def nonEmpty (value : Json) : Option String := (string value).filter (· ≠ "")

/-- `z.boolean()`. -/
def boolean : Json → Option Bool
  | .bool b => some b
  | _ => none

/-- `z.enum([…])`. -/
def provider (value : Json) : Option String :=
  (string value).filter (· ∈ ["gmail", "groupme", "instagram", "linkedin"])

/-- `connectorSyncPayloadSchema.parse(payload)`; `none` where it throws. -/
def connectorSyncPayload (payload : Json) : Option ConnectorSyncPayload := do
  let provider ← (payload.get? "provider").bind provider
  let userId ← (payload.get? "userId").bind nonEmpty
  let organizationId ← (payload.get? "organizationId").bind nonEmpty
  let scope ← Schema.optional string (payload.get? "scope")
  let recurring ← Schema.optional boolean (payload.get? "recurring")
  return ⟨provider, userId, organizationId, scope, recurring⟩

/-- `'GroupMe sync requires a group ID scope'` is not thrown. -/
def hasScope (payload : ConnectorSyncPayload) : Bool :=
  payload.provider = "groupme" → payload.scope.any (· ≠ "")

/-- The types that have a branch. -/
def types : List String :=
  ["ingest.url", "ingest.screenshot", "privacy.reconcile", "connector.sync"]

/-- The branch of the type can return: it exists and takes the payload. -/
def supported (type : String) (payload : Json) : Bool :=
  match type with
  | "ingest.url" | "ingest.screenshot" => true
  | "privacy.reconcile" => (reconcilePayload payload).isSome
  | "connector.sync" => (connectorSyncPayload payload).any hasScope
  | _ => false

/-- What the `try` block leaves: `processingError`, or `recurringPayload`. -/
abbrev Outcome := Except String (Option ConnectorSyncPayload)

/-- `processingError`, or none. -/
def Outcome.result (outcome : Outcome) : Except String Unit := outcome.map fun _ => ()

/-- What the `try` block may leave, whatever the services answer. -/
def admits (job : Job) : Outcome → Bool
  | .error message => job.type ∈ types ∨ message = "Unsupported job type: " ++ job.type
  | .ok recurring =>
      supported job.type job.payload ∧
        recurring = if job.type = "connector.sync" then connectorSyncPayload job.payload else none

/-- `` `worker-${randomUUID()}` ``. -/
def workerId (uuid : String) : String := "worker-" ++ uuid

/-- The lease length of `leaseNext` and of the heartbeat, in seconds. -/
def leaseSeconds : ℤ := 60

/-- Where a worker is in the loop. -/
inductive Phase where
  /-- At the head of the loop. -/
  | idle
  /-- In the `try` block. -/
  | handling (job : Job) (heartbeat : HeartbeatRun)
  /-- It awaits `heartbeat.stop()`. -/
  | stopping (job : Job) (heartbeat : HeartbeatRun) (outcome : Outcome)
  /-- It awaits `scheduleAfter(ownedJob, recurringPayload)`. -/
  | scheduling (job ownedJob : Job) (recurringPayload : ConnectorSyncPayload)
  /-- It is about to call `fail` or `complete`. -/
  | settling (job ownedJob : Job) (processingError : Option String)
  /-- The process is gone. -/
  | exited

/-- The loop after `await heartbeat.stop()`. -/
def afterStop (job : Job) (outcome : Outcome) : Option Job → Phase
  | none => .idle
  | some ownedJob =>
      match outcome with
      | .error message => .settling job ownedJob (some message)
      | .ok none => .settling job ownedJob none
      | .ok (some recurringPayload) => .scheduling job ownedJob recurringPayload

/-- A heartbeat that `start` has been called on. -/
def started (queue : Queue) (job : Job) : HeartbeatRun :=
  ⟨queue, job, true, false, false, [], .notCalled, false, false, false, false⟩

end Worker

/-- The heartbeat makes the step by itself. -/
def HeartbeatStep.own : HeartbeatStep → Bool
  | .stop | .other _ => false
  | _ => true

/-- A handler that was begun. -/
structure HandlerRun where
  worker : String
  /-- `processingError` once the `try` block, and `scheduleAfter`, have ended. -/
  result : Option (Except String Unit)
  /-- The queue has taken the `complete` or the `fail` of it. -/
  settled : Bool
deriving DecidableEq

namespace HandlerRun

/-- Change the latest run of the worker. -/
def update (worker : String) (change : HandlerRun → HandlerRun) : List HandlerRun → List HandlerRun
  | [] => []
  | run :: runs =>
      if run.worker = worker then change run :: runs else run :: update worker change runs

def setResult (result : Except String Unit) (run : HandlerRun) : HandlerRun :=
  { run with result := some result }

def setSettled (run : HandlerRun) : HandlerRun := { run with settled := true }

/-- Its `complete` was taken. -/
def completed (run : HandlerRun) : Bool := run.settled ∧ run.result matches some (.ok ())

end HandlerRun

/-- The state of a run. -/
structure LoopRun where
  queue : Queue
  /-- The workers, by their `randomUUID`; one that has not started is idle. -/
  workers : String → Worker.Phase
  handlers : String → List HandlerRun

/-- A step of a run. -/
inductive LoopStep where
  /-- A route, or `scheduleAfter`. -/
  | enqueue (input : EnqueueJob) (clock : Readings)
  /-- The revoke route. -/
  | cancelPending (input : CancelPendingJobs) (clock : Readings)
  /-- `eraseAccount`, which reconciles these organizations. -/
  | eraseAccount (tenantId userId operationId : String) (organizationIds : List String) (now : ℤ)
  /-- `queue.leaseNext(workerId, 60)`. -/
  | leaseNext (uuid : String) (pick : Option String) (clock : Readings)
  | heartbeat (uuid : String) (beat : HeartbeatStep)
  /-- The `try` block ends, and `heartbeat.stop()` is called. -/
  | handled (uuid : String) (outcome : Worker.Outcome)
  /-- `heartbeat.stop()` answers. -/
  | stopped (uuid : String)
  /-- `scheduleAfter` answers, or throws. -/
  | scheduled (uuid : String) (processingError : Option String)
  /-- `fail` or `complete`. -/
  | settle (uuid : String) (clock : Readings)
  | exit (uuid : String)

namespace LoopRun

open Worker (Phase workerId leaseSeconds)

/-- The empty queue, before any worker has leased a job. -/
def empty : LoopRun := ⟨Queue.empty, fun _ => .idle, fun _ => []⟩

/-- The key has a job that is not cancelled. -/
def hasLiveJob (s : LoopRun) (input : EnqueueJob) : Bool :=
  s.queue.jobs.any fun row => SqliteJobQueue.hasKey input row ∧ row.status ≠ .cancelled

/-- The record after an `enqueue`: a job that it inserts or revives starts without any. -/
def recordEnqueue (digest : String → String) (s : LoopRun) (input : EnqueueJob) :
    String → List HandlerRun :=
  if s.hasLiveJob input then s.handlers
  else Function.update s.handlers
    (jobId digest input.tenantId input.type input.idempotencyKey) []

def setPhase (s : LoopRun) (uuid : String) (phase : Phase) : LoopRun :=
  { s with workers := Function.update s.workers uuid phase }

/-- Change the latest run of the worker on the job. -/
def setHandler (s : LoopRun) (uuid id : String) (change : HandlerRun → HandlerRun) : LoopRun :=
  { s with
    handlers := Function.update s.handlers id
      (HandlerRun.update (workerId uuid) change (s.handlers id)) }

/-- The loop over `affectedOrganizationIds` in `eraseAccount`. -/
def reconciliation (digest : String → String) (tenantId userId operationId : String)
    (organizationIds : List String) (now : ℤ) : List JobRow :=
  organizationIds.map (Database.reconcileJob digest tenantId userId operationId now)

/-- What `eraseAccount` does to the jobs. -/
def erasedJobs (digest : String → String) (jobs : List JobRow)
    (tenantId userId operationId : String) (organizationIds : List String) (now : ℤ) :
    Except StoreError (List JobRow) := do
  let jobs ← Database.withoutJobs .sqlite jobs tenantId userId
  Database.insertJobs jobs
    (reconciliation digest tenantId userId operationId organizationIds now)

/-- A step of the heartbeat, on the queue as it is. -/
def beat (digest : String → String) (s : LoopRun) (uuid : String) (heartbeat : HeartbeatRun)
    (label : HeartbeatStep) : Option HeartbeatRun :=
  if label.own then
    HeartbeatRun.step digest (workerId uuid) leaseSeconds { heartbeat with queue := s.queue } label
  else none

/-- One step; `none` where it cannot happen. -/
def step (digest : String → String) (s : LoopRun) : LoopStep → Option LoopRun
  | .enqueue input clock =>
      if 1 ≤ input.maxAttempts.getD 5 then
        match SqliteJobQueue.enqueue digest s.queue input clock with
        | .error _ => some s
        | .ok (queue, _) =>
            some { s with queue := queue, handlers := s.recordEnqueue digest input }
      else none
  | .cancelPending input clock =>
      some { s with queue := (SqliteJobQueue.cancelPending s.queue input clock).1 }
  | .eraseAccount tenantId userId operationId organizationIds now =>
      match erasedJobs digest s.queue.jobs tenantId userId operationId organizationIds now with
      | .error _ => some s
      | .ok jobs =>
          some { s with
            queue := { s.queue with jobs := jobs }
            handlers := fun id =>
              if id ∈ (reconciliation digest tenantId userId operationId organizationIds now).map
                JobRow.id then [] else s.handlers id }
  | .leaseNext uuid pick clock =>
      match s.workers uuid with
      | .idle =>
          match SqliteJobQueue.leaseNext s.queue (workerId uuid) leaseSeconds pick clock with
          | none => none
          | some (queue, none) => some { s with queue := queue }
          | some (queue, some job) =>
              some
                { queue := queue
                  workers := Function.update s.workers uuid
                    (.handling job (Worker.started queue job))
                  handlers := Function.update s.handlers job.id
                    (⟨workerId uuid, none, false⟩ :: s.handlers job.id) }
      | _ => none
  | .heartbeat uuid label =>
      match s.workers uuid with
      | .handling job heartbeat =>
          (s.beat digest uuid heartbeat label).map fun heartbeat =>
            { s.setPhase uuid (.handling job heartbeat) with queue := heartbeat.queue }
      | .stopping job heartbeat outcome =>
          (s.beat digest uuid heartbeat label).map fun heartbeat =>
            { s.setPhase uuid (.stopping job heartbeat outcome) with queue := heartbeat.queue }
      | _ => none
  | .handled uuid outcome =>
      match s.workers uuid with
      | .handling job heartbeat =>
          if Worker.admits job outcome then
            (HeartbeatRun.step digest (workerId uuid) leaseSeconds heartbeat .stop).map
              fun heartbeat =>
                (s.setPhase uuid (.stopping job heartbeat outcome)).setHandler uuid job.id
                  (HandlerRun.setResult outcome.result)
          else none
      | _ => none
  | .stopped uuid =>
      match s.workers uuid with
      | .stopping job heartbeat outcome =>
          match heartbeat.stop with
          | .returned ownedJob => some (s.setPhase uuid (Worker.afterStop job outcome ownedJob))
          | _ => none
      | _ => none
  | .scheduled uuid processingError =>
      match s.workers uuid with
      | .scheduling job ownedJob _ =>
          some ((s.setPhase uuid (.settling job ownedJob processingError)).setHandler uuid job.id
            (HandlerRun.setResult (processingError.elim (.ok ()) .error)))
      | _ => none
  | .settle uuid clock =>
      match s.workers uuid with
      | .settling job ownedJob processingError =>
          match processingError.elim (SqliteJobQueue.complete s.queue ownedJob clock)
              fun message => SqliteJobQueue.fail s.queue ownedJob message clock with
          | .error _ => some (s.setPhase uuid .idle)
          | .ok queue =>
              some { (s.setPhase uuid .idle).setHandler uuid job.id HandlerRun.setSettled with
                queue := queue }
      | _ => none
  | .exit uuid => some (s.setPhase uuid .exited)

/-- The states of all runs. -/
def Reached (digest : String → String) : LoopRun → Prop :=
  Transition.Reachable (· = empty) (step digest)

end LoopRun

end RecruitingOs
