import RecruitingOs.Connectors.Messages
import RecruitingOs.Ingest.Effects
import RecruitingOs.Store.ConnectorState

/-!
# Runs of connector.sync jobs

The `connector.sync` branch of `src/bootstrap/worker.ts` for Gmail and GroupMe:
`synchronize` and `syncGroup` read the cursor, ask the provider, persist the new cursor
and return the sources, and only then does the worker ingest them one by one.

`SyncRun` is a run of ingest calls with the jobs that wait for them.  A retry is a new
job; any number of jobs, of other ingest calls and of workers may be at work, and a job
ends wherever its provider, an ingest or its worker fails.

A provider hands out its messages in an order of its own.  `FeedOrder` is that order,
and `SyncAnswer.Documented` is what the provider says about an answer: no message in it
lies after the cursor that comes with it.
-/

namespace RecruitingOs

/-- The place of a message, by its external id, and of a cursor in the order in which
a provider hands out messages. -/
structure FeedOrder where
  message : String → ℕ
  cursor : String → ℕ

/-- `payload.provider`, with the group that a GroupMe sync needs. -/
inductive SyncProvider where
  | gmail
  | groupme (groupId : String)
deriving Repr, DecidableEq

/-- The payload of a `connector.sync` job, with its tenant. -/
structure SyncPayload where
  tenantId : String
  userId : String
  organizationId : String
  provider : SyncProvider
deriving Repr, DecidableEq

/-- The key of the cursor: tenant, connector and `stateScope`. -/
def SyncPayload.feed (payload : SyncPayload) : String × String × String :=
  match payload.provider with
  | .gmail => (payload.tenantId, "gmail", payload.userId)
  | .groupme groupId =>
      (payload.tenantId, "groupme",
        if payload.userId = "" then groupId else payload.userId ++ ":" ++ groupId)

/-- A record of Gmail's `history`. -/
structure HistoryRecord where
  messagesAdded : List String
deriving Repr, DecidableEq

/-- What the provider answers to one synchronization. -/
inductive SyncAnswer where
  /-- `/history` from the cursor, and the messages by their ids. -/
  | history (records : List HistoryRecord) (historyId : Option String)
      (message : String → GmailMessage)
  /-- A listing of recent messages, and the profile: there is no cursor, or it is too old. -/
  | listing (messages : List GmailMessage) (historyId : String)
  /-- The messages of a group. -/
  | group (msgs : List GroupMeMessage)

namespace SyncAnswer

/-- `[...new Set(history.flatMap(x => x.messagesAdded))]`. -/
def addedIds (records : List HistoryRecord) : List String :=
  (records.flatMap HistoryRecord.messagesAdded).eraseDups

/-- The sources that the connector returns, in their order; `now` reads the clock. -/
def sources (digest : String → String) (payload : SyncPayload) (now : ℕ → ℤ) :
    SyncAnswer → List SourceItem
  | .history records _ message =>
      (addedIds records).zipIdx.map fun (id, i) =>
        (message id).toSource digest payload.organizationId (now i)
  | .listing messages _ =>
      messages.zipIdx.map fun (msg, i) => msg.toSource digest payload.organizationId (now i)
  | .group msgs =>
      match payload.provider with
      | .gmail => []
      | .groupme groupId => (GroupMeMessage.sorted msgs).zipIdx.map fun (m, i) =>
          m.toSource digest payload.organizationId groupId (now i)

/-- The cursor that the connector persists; `none` where it persists nothing. -/
def newCursor (cursor : Option String) : SyncAnswer → Option String
  | .history _ historyId _ => historyId.or cursor
  | .listing _ historyId => some historyId
  | .group msgs => (GroupMeMessage.sorted msgs).getLast?.map GroupMeMessage.id

/-- Whether this is an answer to what the connector asks. -/
def answers (payload : SyncPayload) (cursor : Option String) : SyncAnswer → Bool
  | .history _ _ _ => payload.provider = .gmail ∧ cursor.isSome
  -- with a cursor, `/history` has answered 404 before
  | .listing _ _ => payload.provider = .gmail
  | .group _ => payload.provider ≠ .gmail

/-- No message lies after the cursor that comes with it: `historyId` is the current
record of the mailbox, and the messages of a group are ordered by `created_at`. -/
def Documented (order : FeedOrder) (payload : SyncPayload) : SyncAnswer → Prop
  | .history records historyId message =>
      ∃ current, historyId = some current ∧ current ≠ "" ∧
        ∀ id ∈ addedIds records, order.message (message id).id ≤ order.cursor current
  | .listing messages historyId =>
      historyId ≠ "" ∧ ∀ msg ∈ messages, order.message msg.id ≤ order.cursor historyId
  | .group msgs =>
      match payload.provider with
      | .gmail => True
      | .groupme groupId => ∀ a ∈ msgs, a.id ≠ "" ∧ ∀ b ∈ msgs, a.createdAt ≤ b.createdAt →
          order.message (groupId ++ ":" ++ a.id) ≤ order.cursor b.id

end SyncAnswer

/-- How far a job is. -/
inductive SyncPhase where
  /-- The cursor is read, and the provider is asked. -/
  | fetching (cursor : Option String)
  /-- The connector has returned; these sources are still to be ingested. -/
  | looping (rest : List SourceItem)
  /-- The loop waits for this ingest call. -/
  | awaiting (call : ℕ) (rest : List SourceItem)
deriving Repr, DecidableEq

/-- A `connector.sync` job that a worker has leased. -/
structure SyncJob where
  id : ℕ
  payload : SyncPayload
  phase : SyncPhase
deriving Repr, DecidableEq

/-- A source that a completed `synchronize` or `syncGroup` has returned. -/
structure ReturnedSource where
  feed : String × String × String
  source : SourceItem
deriving Repr, DecidableEq

/-- The state of a run. -/
structure SyncRun where
  ingest : IngestRun
  jobs : List SyncJob
  returned : List ReturnedSource

/-- A step of a job or of an ingest call. -/
inductive SyncStep where
  /-- A job is leased and its connector reads the cursor. -/
  | start (j : ℕ) (payload : SyncPayload)
  /-- The connector persists the cursor and returns. -/
  | answer (j : ℕ) (answer : SyncAnswer) (now : ℕ → ℤ)
  /-- The loop begins to ingest its next source, as this call. -/
  | next (j c : ℕ)
  /-- A step of an ingest call, of a job or of anything else. -/
  | ingest (label : IngestStep)
  /-- The provider fails, or the worker dies. -/
  | stop (j : ℕ)
  /-- All sources are ingested. -/
  | finish (j : ℕ)

namespace SyncRun

/-- The job with this id. -/
def job? (s : SyncRun) (j : ℕ) : Option SyncJob := s.jobs.find? fun job => job.id = j

def setPhase (s : SyncRun) (j : ℕ) (phase : SyncPhase) : SyncRun :=
  let moved (job : SyncJob) : SyncJob := { job with phase := phase }
  { s with jobs := Table.updateWhere (fun job => job.id = j) moved s.jobs }

/-- The run without a job: it is completed, or failed and leased again later. -/
def drop (s : SyncRun) (j : ℕ) : SyncRun :=
  { s with jobs := s.jobs.filter fun job => job.id ≠ j }

/-- The worker of a job sets the tenant and the contributor of a source. -/
def owned (payload : SyncPayload) (source : SourceItem) : SourceItem :=
  { source with tenantId := some payload.tenantId, contributorUserId := some payload.userId }

/-- A job after a step of the ingest calls: its loop goes on when its call returns and
ends when its call throws or dies. -/
def settle (label : IngestStep) (ingest : IngestRun) (job : SyncJob) : Option SyncJob :=
  match job.phase with
  | .awaiting c rest =>
      if (ingest.call? c).isSome then some job
      else match label with
        | .finish _ => some { job with phase := .looping rest }
        | _ => none
  | _ => some job

/-- One step; `none` where it cannot happen. -/
def step (getTime : Json → Option ℤ) (digest sha256 : String → String) (s : SyncRun) :
    SyncStep → Option SyncRun
  | .start j payload =>
      if (s.job? j).isSome then none
      else
        let (tenantId, connector, scope) := payload.feed
        let cursor := s.ingest.db.getConnectorState connector scope tenantId
        some { s with jobs := ⟨j, payload, .fetching cursor⟩ :: s.jobs }
  | .answer j answer now =>
      match s.job? j with
      | some ⟨_, payload, .fetching cursor⟩ =>
          let sources := (answer.sources digest payload now).map (owned payload)
          let returned := sources.map fun source => ⟨payload.feed, source⟩
          if ¬ answer.answers payload cursor then none
          else
            match answer.newCursor cursor with
            | none => some { s.setPhase j (.looping sources) with returned := returned ++ s.returned }
            | some new =>
                let (tenantId, connector, scope) := payload.feed
                match s.ingest.db.setConnectorState connector scope (some new) (.obj []) tenantId
                    (some payload.userId) with
                | .error _ => some (s.drop j)
                | .ok db => some { s.setPhase j (.looping sources) with
                    ingest := { s.ingest with db := db }
                    returned := returned ++ s.returned }
      | _ => none
  | .next j c =>
      match s.job? j with
      | some ⟨_, payload, .looping (source :: rest)⟩ =>
          match s.ingest.step getTime digest sha256 (.stage c source payload.tenantId),
            s.ingest.db.stageSource digest sha256 source payload.tenantId with
          | none, _ => none
          -- `ingest` throws, and the job fails
          | some _, .error _ => some (s.drop j)
          | some ingest, .ok (_, result) =>
              some { s.setPhase j
                  (if result.shouldProcess then .awaiting c rest else .looping rest) with
                ingest := ingest }
      | _ => none
  | .ingest label =>
      (s.ingest.step getTime digest sha256 label).map fun ingest =>
        { s with ingest := ingest, jobs := s.jobs.filterMap (settle label ingest) }
  | .stop j =>
      match s.job? j with
      | none => none
      | some ⟨_, _, .awaiting c _⟩ =>
          some { s.drop j with ingest := s.ingest.drop c }
      | some _ => some (s.drop j)
  | .finish j =>
      match s.job? j with
      | some ⟨_, _, .looping []⟩ => some (s.drop j)
      | _ => none

/-- What the providers promise of a run: each answer is as documented. -/
def DocumentedAnswers (order : String × String × String → FeedOrder) (s : SyncRun) :
    SyncStep → Prop
  | .answer j answer _ =>
      ∀ job, s.job? j = some job → answer.Documented (order job.payload.feed) job.payload
  | _ => True

end SyncRun

end RecruitingOs
