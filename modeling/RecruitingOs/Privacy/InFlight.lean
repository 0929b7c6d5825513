import RecruitingOs.Connectors.SyncSchedule
import RecruitingOs.Privacy.Run

/-!
# Erasure and work in flight

A request is authenticated and a job is leased once; what they write afterwards nobody
checks against the account again, unless the table does.  `source_version_contributors` and
`connector_state` refer to the membership of the contributor and of the owner, so
`stageSource` and `setConnectorState` are refused after an erasure.  `jobs` refers to no
user, and `credentials` only to `users`, whose row stays as long as the user is a member of
another tenant.

`ErasureRun` is a run of the database in which the calls of one user are in flight, over
any erasures; `ErasureRun.erased` remembers the tenants in which the account has been
erased and that the user has not joined again.
-/

namespace RecruitingOs

open Database (CredentialKey)

namespace PostgresJobQueue

/-- `PostgresJobQueue.enqueue`: the statements of the SQLite queue. -/
def enqueue := SqliteJobQueue.enqueue

end PostgresJobQueue

/-- An operation of a worker on the queue. -/
inductive WorkerStep where
  | cancelPending (input : CancelPendingJobs) (clock : Readings)
  | leaseNext (workerId : String) (leaseSeconds : ℤ) (pick : Option String) (clock : Readings)
  | renewLease (job : Job) (leaseSeconds : ℤ) (clock : Readings)
  | complete (job : Job) (clock : Readings)
  | fail (job : Job) (message : String) (clock : Readings)

/-- The queue after an operation; `none` where it rejects. -/
def Queue.work (q : Queue) : WorkerStep → Option Queue
  | .cancelPending input clock => some (SqliteJobQueue.cancelPending q input clock).1
  | .leaseNext workerId leaseSeconds pick clock =>
      (SqliteJobQueue.leaseNext q workerId leaseSeconds pick clock).map Prod.fst
  | .renewLease job leaseSeconds clock =>
      some (SqliteJobQueue.renewLease q job leaseSeconds clock).1
  | .complete job clock => (SqliteJobQueue.complete q job clock).toOption
  | .fail job message clock => (SqliteJobQueue.fail q job message clock).toOption

/-- What a call of the user is about to write. -/
inductive UserPhase where
  | working
  /-- `getValid`: `vault.get` has answered a credential that needs a refresh. -/
  | refreshing (provider : String) (credential : ProviderCredential)
  /-- `scheduleAfter`: `vault.get` has answered a credential. -/
  | scheduling (payload : ConnectorSyncPayload)
deriving Repr, DecidableEq

/-- A request of the user that is authenticated, or a job of the user that is leased. -/
structure UserCall where
  id : ℕ
  tenantId : String
  phase : UserPhase
deriving Repr, DecidableEq

/-- The state of a run. -/
structure ErasureRun where
  run : PrivacyRun
  calls : List UserCall
  erased : List String

/-- A step of a run. -/
inductive ErasureStep where
  /-- A call of the repositories, by anybody: `stageSource`, `setConnectorState`, the
  statements of the claims transaction, a sign-in, an erasure. -/
  | repository (label : PrivacyStep)
  /-- A worker's operation on the queue. -/
  | work (label : WorkerStep)
  /-- A request of the user is authenticated, or a job of the user is leased. -/
  | begin (c : ℕ) (tenantId : String)
  /-- The request enqueues its job. -/
  | enqueue (c : ℕ) (input : EnqueueJob) (clock : Readings)
  /-- `getValid`: `vault.get`, and the check of the expiry. -/
  | get (c : ℕ) (provider : String) (now : ℤ)
  /-- `getValid`: the provider has answered, and `vault.put`. -/
  | put (c : ℕ) (token : TokenAnswer) (now : ℤ) (nonce : List UInt8)
  /-- The OAuth callback: the provider has answered, and `vault.put`. -/
  | callback (c : ℕ) (provider : String) (credential : ProviderCredential) (nonce : List UInt8)
  /-- `scheduleAfter`: `vault.get`. -/
  | scheduleAfter (c : ℕ) (payload : ConnectorSyncPayload)
  /-- `scheduleAfter`: `queue.enqueue`. -/
  | schedule (c : ℕ) (now : ℤ) (clock : Readings)
  /-- The call returns or throws. -/
  | finish (c : ℕ)

/-- What a run is configured with, and the user whose calls are in flight. -/
structure ErasureConfig where
  dialect : Dialect
  digest : String → String
  sha256 : String → String
  vault : Vault
  getTime : String → Option ℤ
  skewMs : ℤ
  intervalSeconds : ℤ
  userId : String

namespace ErasureConfig

variable (cfg : ErasureConfig)

/-- The payload names the user. -/
def namesUser (payload : Json) : Bool := payload.get? "userId" = some (.str cfg.userId)

/-- A repository call that is not one of the user's requests to enqueue, and that sets no
cursor of the user for another member. -/
def admits : PrivacyStep → Bool
  | .enqueue input _ => ¬ cfg.namesUser input.payload
  | .setConnectorState _ _ owner group _ _ =>
      owner = cfg.userId ∨
        ¬ Database.isUsersScope cfg.dialect cfg.userId (cursorScope owner group)
  | _ => true

end ErasureConfig

namespace ErasureRun

variable (cfg : ErasureConfig)

def call? (s : ErasureRun) (c : ℕ) : Option UserCall := s.calls.find? fun call => call.id = c

def setPhase (s : ErasureRun) (c : ℕ) (phase : UserPhase) : ErasureRun :=
  { s with calls := s.calls.map fun call => if call.id = c then { call with phase := phase } else call }

def withDb (s : ErasureRun) (db : Database) : ErasureRun := { s with run := { s.run with db := db } }

/-- The tenants that count as erased after a repository call. -/
def erasedAfter (s : ErasureRun) (label : PrivacyStep) (db : Database) : List String :=
  let erased :=
    match label with
    | .eraseAccount tenantId user _ _ =>
        if user = cfg.userId ∧ s.run.db.isMember tenantId user then tenantId :: s.erased
        else s.erased
    | _ => s.erased
  erased.filter fun tenantId => ¬ db.isMember tenantId cfg.userId

/-- A request of the user needs a session of the tenant, which members have, and a job of
the user a row that names the user. -/
def mayBegin (s : ErasureRun) (tenantId : String) : Bool :=
  s.run.db.isMember tenantId cfg.userId ∨
    s.run.db.queue.jobs.any fun job => job.tenantId = tenantId ∧ cfg.namesUser job.payload

/-- The run after an `enqueue` that rejects or resolves. -/
def enqueued (s : ErasureRun) (input : EnqueueJob) (clock : Readings) : ErasureRun :=
  match PostgresJobQueue.enqueue cfg.digest s.run.db.queue input clock with
  | .error _ => s
  | .ok (queue, _) => s.withDb { s.run.db with queue := queue }

/-- The run after a `vault.put` of the user that throws or returns. -/
def saved (s : ErasureRun) (tenantId provider : String) (credential : ProviderCredential)
    (nonce : List UInt8) : ErasureRun :=
  match cfg.vault.put s.run.db (tenantId, cfg.userId, provider) credential nonce with
  | .error _ => s
  | .ok db => s.withDb db

/-- One step; `none` where it cannot happen. -/
def step (s : ErasureRun) : ErasureStep → Option ErasureRun
  | .repository label =>
      if cfg.admits label then
        (s.run.step cfg.dialect cfg.digest cfg.sha256 label).map fun run =>
          { s with run := run, erased := s.erasedAfter cfg label run.db }
      else none
  | .work label =>
      (s.run.db.queue.work label).map fun queue => s.withDb { s.run.db with queue := queue }
  | .begin c tenantId =>
      if (s.call? c).isNone ∧ s.mayBegin cfg tenantId then
        some { s with calls := ⟨c, tenantId, .working⟩ :: s.calls }
      else none
  | .enqueue c input clock =>
      match s.call? c with
      | some ⟨_, tenantId, .working⟩ =>
          if input.tenantId = tenantId then some (s.enqueued cfg input clock) else none
      | _ => none
  | .get c provider now =>
      match s.call? c with
      | some ⟨_, tenantId, .working⟩ =>
          match cfg.vault.get s.run.db (tenantId, cfg.userId, provider) with
          | .ok (some credential) =>
              match needsRefresh cfg.getTime cfg.skewMs credential now with
              | some true => some (s.setPhase c (.refreshing provider credential))
              | _ => some s
          | _ => some s
      | _ => none
  | .put c token now nonce =>
      match s.call? c with
      | some ⟨_, tenantId, .refreshing provider credential⟩ =>
          match refreshCredential credential token now with
          | none => some (s.setPhase c .working)
          | some refreshed =>
              some ((s.setPhase c .working).saved cfg tenantId provider refreshed nonce)
      | _ => none
  | .callback c provider credential nonce =>
      match s.call? c with
      | some ⟨_, tenantId, .working⟩ => some (s.saved cfg tenantId provider credential nonce)
      | _ => none
  | .scheduleAfter c payload =>
      match s.call? c with
      | some ⟨_, tenantId, .working⟩ =>
          if payload.recurring = some false ∨ payload.userId ≠ cfg.userId then some s
          else
            match cfg.vault.get s.run.db (payload.key tenantId) with
            | .ok (some _) => some (s.setPhase c (.scheduling payload))
            | _ => some s
      | _ => none
  | .schedule c now clock =>
      match s.call? c with
      | some ⟨id, tenantId, .scheduling payload⟩ =>
          let call : ScheduleCall := ⟨id, .scheduler, tenantId, payload, false⟩
          some ((s.setPhase c .working).enqueued cfg (call.input cfg.intervalSeconds now) clock)
      | _ => none
  | .finish c => some { s with calls := s.calls.filter fun call => call.id ≠ c }

end ErasureRun

/-! ### What refers to the user -/

/-- No row of the tenant refers to the user. -/
structure Database.Unreferenced (dialect : Dialect) (db : Database) (tenantId userId : String) :
    Prop where
  jobs : ∀ job ∈ db.queue.jobs, job.tenantId = tenantId →
    job.payload.get? "userId" ≠ some (.str userId)
  credentials : ∀ row ∈ db.credentials, row.tenantId = tenantId → row.userId ≠ userId
  contributors : ∀ link ∈ db.contributors, link.tenantId = tenantId → link.userId ≠ userId
  connectorState : ∀ row ∈ db.connectorState, row.tenantId = tenantId →
    row.ownerUserId ≠ some userId ∧ isUsersScope dialect userId row.scope = false

namespace Database

variable {dialect : Dialect} {digest sha256 : String → String} {db db' : Database}
  {tenantId userId operationId tenant user : String} {now : ℤ} {result : AccountErasureResult}

/-- What the text of the database says names the user, its erasure deletes. -/
theorem isUsersPayload_of_get? {payload : Json} (h : payload.get? "userId" = some (.str userId)) :
    dialect.isUsersPayload userId payload := by
  unfold Dialect.isUsersPayload
  cases dialect <;> simp [h]

/-- **What an erasure leaves of the four tables**: rows that were there and are not the
user's, and jobs that name nobody. -/
theorem eraseAccount_rows (hmember : db.isMember tenantId userId)
    (h : db.eraseAccount dialect digest tenantId userId operationId now = .ok (db', result)) :
    (∀ job ∈ db'.queue.jobs, (job ∈ db.queue.jobs ∧
        ¬ (job.tenantId = tenantId ∧ dialect.isUsersPayload userId job.payload)) ∨
      job.payload.get? "userId" = none) ∧
    (∀ row ∈ db'.credentials, row ∈ db.credentials ∧
      ¬ (row.tenantId = tenantId ∧ row.userId = userId)) ∧
    (∀ link ∈ db'.contributors, link ∈ db.contributors ∧
      ¬ (link.tenantId = tenantId ∧ link.userId = userId)) ∧
    ∀ row ∈ db'.connectorState, row ∈ db.connectorState ∧
      ¬ (row.tenantId = tenantId ∧ isUsersScope dialect userId row.scope) ∧
      ¬ (row.tenantId = tenantId ∧ row.ownerUserId = some userId) := by
  have hswept := eraseAccount_swept hmember h
  refine ⟨fun job hjob => ?_, fun row hrow => ?_, fun link hlink => ?_, fun row hrow => ?_⟩
  · rw [hswept.jobs, List.mem_append, List.mem_filter, decide_eq_true_eq] at hjob
    refine hjob.imp_right fun hnew => ?_
    obtain ⟨org, -, rfl⟩ := List.mem_map.mp hnew
    rfl
  · have hkept := List.mem_filter.mp (hswept.credentials.subset hrow)
    exact ⟨hkept.1, of_decide_eq_true hkept.2⟩
  · have hkept := List.mem_filter.mp (hswept.contributors.subset hlink)
    exact ⟨hkept.1, of_decide_eq_true hkept.2⟩
  · rw [hswept.connectorState] at hrow
    obtain ⟨hcursor, howner⟩ := List.mem_filter.mp hrow
    obtain ⟨hold, hscope⟩ := List.mem_filter.mp hcursor
    exact ⟨hold, of_decide_eq_true hscope, of_decide_eq_true howner⟩

/-- An erasure leaves no reference. -/
theorem eraseAccount_unreferenced (hmember : db.isMember tenantId userId)
    (h : db.eraseAccount dialect digest tenantId userId operationId now = .ok (db', result)) :
    db'.Unreferenced dialect tenantId userId := by
  obtain ⟨hjobs, hcredentials, hlinks, hcursors⟩ := eraseAccount_rows hmember h
  constructor
  case jobs =>
    intro job hjob htenant hnames
    rcases hjobs job hjob with ⟨-, hother⟩ | hnobody
    · exact hother ⟨htenant, isUsersPayload_of_get? hnames⟩
    · rw [hnobody] at hnames
      cases hnames
  case credentials =>
    intro row hrow htenant huser
    exact (hcredentials row hrow).2 ⟨htenant, huser⟩
  case contributors =>
    intro link hlink htenant huser
    exact (hlinks link hlink).2 ⟨htenant, huser⟩
  case connectorState =>
    intro row hrow htenant
    obtain ⟨-, hscope, howner⟩ := hcursors row hrow
    exact ⟨fun huser => howner ⟨htenant, huser⟩,
      Bool.eq_false_iff.mpr fun huser => hscope ⟨htenant, huser⟩⟩

/-- The rows of the four tables are old ones. -/
structure NothingNew (db db' : Database) : Prop where
  jobs : ∀ job ∈ db'.queue.jobs, (∃ old ∈ db.queue.jobs, job.tenantId = old.tenantId ∧
    job.payload = old.payload) ∨ job.payload.get? "userId" = none
  credentials : ∀ row ∈ db'.credentials, row ∈ db.credentials
  contributors : ∀ link ∈ db'.contributors, link ∈ db.contributors
  connectorState : ∀ row ∈ db'.connectorState, row ∈ db.connectorState

/-- What changes none of the four tables. -/
theorem NothingNew.of_eq (hjobs : db'.queue = db.queue) (hcredentials : db'.credentials = db.credentials)
    (hlinks : db'.contributors = db.contributors)
    (hcursors : db'.connectorState = db.connectorState) : NothingNew db db' where
  jobs job hjob := .inl ⟨job, hjobs ▸ hjob, rfl, rfl⟩
  credentials _ hrow := hcredentials ▸ hrow
  contributors _ hlink := hlinks ▸ hlink
  connectorState _ hrow := hcursors ▸ hrow

theorem Unreferenced.nothingNew (h : db.Unreferenced dialect tenantId userId)
    (hnew : NothingNew db db') : db'.Unreferenced dialect tenantId userId where
  jobs job hjob htenant hnames := by
    rcases hnew.jobs job hjob with ⟨old, hold, hsame, hpayload⟩ | hnobody
    · exact h.jobs old hold (hsame ▸ htenant) (hpayload ▸ hnames)
    · rw [hnobody] at hnames
      cases hnames
  credentials row hrow := h.credentials row (hnew.credentials row hrow)
  contributors link hlink := h.contributors link (hnew.contributors link hlink)
  connectorState row hrow := h.connectorState row (hnew.connectorState row hrow)

/-- An erasure of anybody adds nothing. -/
theorem nothingNew_eraseAccount
    (h : db.eraseAccount dialect digest tenantId userId operationId now = .ok (db', result)) :
    NothingNew db db' := by
  cases hmember : db.isMember tenantId userId with
  | false =>
      rw [eraseAccount_not_member hmember] at h
      cases h
      exact .of_eq rfl rfl rfl rfl
  | true =>
      obtain ⟨hjobs, hcredentials, hlinks, hcursors⟩ := eraseAccount_rows hmember h
      exact
        { jobs := fun job hjob => (hjobs job hjob).imp_left fun hold => ⟨job, hold.1, rfl, rfl⟩
          credentials := fun row hrow => (hcredentials row hrow).1
          contributors := fun link hlink => (hlinks link hlink).1
          connectorState := fun row hrow => (hcursors row hrow).1 }

end Database

/-! ### The operations of the workers -/

/-- Each row is an old one with its payload, or has a payload that names nobody. -/
def JobsKept (jobs jobs' : List JobRow) : Prop :=
  ∀ job ∈ jobs', (∃ old ∈ jobs, job.tenantId = old.tenantId ∧ job.payload = old.payload) ∨
    job.payload.get? "userId" = none

namespace JobsKept

variable {jobs between jobs' : List JobRow}

theorem refl (jobs : List JobRow) : JobsKept jobs jobs :=
  fun job hjob => .inl ⟨job, hjob, rfl, rfl⟩

theorem trans (h : JobsKept jobs between) (h' : JobsKept between jobs') : JobsKept jobs jobs' := by
  intro job hjob
  rcases h' job hjob with ⟨old, hold, htenant, hpayload⟩ | hnobody
  · rw [htenant, hpayload]
    exact h old hold
  · exact .inr hnobody

/-- A statement that keeps the tenant, and the payload or nobody's. -/
theorem updateWhere {p : JobRow → Bool} {f : JobRow → JobRow}
    (hf : ∀ row, (f row).tenantId = row.tenantId ∧
      ((f row).payload = row.payload ∨ (f row).payload.get? "userId" = none)) :
    JobsKept jobs (Table.updateWhere p f jobs) := by
  intro job hjob
  obtain ⟨old, hold, rfl⟩ := Table.mem_updateWhere.mp hjob
  split
  · obtain ⟨htenant, hpayload | hnobody⟩ := hf old
    · exact .inl ⟨old, hold, htenant, hpayload⟩
    · exact .inr hnobody
  · exact .inl ⟨old, hold, rfl, rfl⟩

/-- A redacted payload names nobody. -/
theorem redactScreenshot (row : JobRow) (now : ℤ) : row.redactScreenshot now = row.payload ∨
    (row.redactScreenshot now).get? "userId" = none := by
  unfold JobRow.redactScreenshot
  split
  · exact .inr rfl
  · exact .inl rfl

theorem cancelIds {clock : Readings} : ∀ {ids : List String} {i : ℕ} {jobs : List JobRow},
    JobsKept jobs (SqliteJobQueue.cancelIds clock i ids jobs).1 := by
  intro ids
  induction ids with
  | nil => exact fun {_ jobs} => refl jobs
  | cons id ids ih =>
      intro i jobs
      have hcancelled : JobsKept jobs (Table.updateWhere (SqliteJobQueue.isPendingId id)
          (SqliteJobQueue.cancelRow (clock.nth (2 * i)) (clock.nth (2 * i + 1))) jobs) :=
        updateWhere fun row => ⟨rfl, redactScreenshot row _⟩
      exact hcancelled.trans ih

theorem sweep {clock : Readings} : JobsKept jobs (SqliteJobQueue.sweep clock jobs) :=
  updateWhere fun row => ⟨rfl, redactScreenshot row _⟩

theorem leaseNext {q q' : Queue} {workerId : String} {leaseSeconds : ℤ} {pick : Option String}
    {clock : Readings} {out : Option Job}
    (h : SqliteJobQueue.leaseNext q workerId leaseSeconds pick clock = some (q', out)) :
    JobsKept q.jobs q'.jobs := by
  rcases SqliteJobQueue.leaseNext_some h with ⟨-, -, -, rfl⟩ | ⟨row, -, -, -, -, hjobs, -⟩
  · exact sweep
  · rw [hjobs]
    exact sweep.trans (updateWhere fun _ => ⟨rfl, .inl rfl⟩)

theorem renewLease {q : Queue} {job : Job} {leaseSeconds : ℤ} {clock : Readings} :
    JobsKept q.jobs (SqliteJobQueue.renewLease q job leaseSeconds clock).1.jobs := by
  unfold SqliteJobQueue.renewLease
  split
  · dsimp only
    split
    · exact updateWhere fun _ => ⟨rfl, .inl rfl⟩
    · exact refl q.jobs
  · exact refl q.jobs

theorem complete {q q' : Queue} {job : Job} {clock : Readings}
    (h : SqliteJobQueue.complete q job clock = .ok q') : JobsKept q.jobs q'.jobs := by
  obtain ⟨leasedBy, leasedUntil, -, -, -, rfl⟩ := SqliteJobQueue.complete_ok h
  exact updateWhere fun row => ⟨rfl, redactScreenshot row _⟩

theorem fail {q q' : Queue} {job : Job} {message : String} {clock : Readings}
    (h : SqliteJobQueue.fail q job message clock = .ok q') : JobsKept q.jobs q'.jobs := by
  obtain ⟨leasedBy, leasedUntil, -, -, -, rfl⟩ := SqliteJobQueue.fail_ok h
  refine updateWhere fun row => ⟨rfl, ?_⟩
  unfold SqliteJobQueue.failRow
  dsimp only
  split
  · exact redactScreenshot row _
  · exact .inl rfl

/-- A worker writes no payload of a user. -/
theorem work {q q' : Queue} {label : WorkerStep} (h : q.work label = some q') :
    JobsKept q.jobs q'.jobs := by
  cases label with
  | cancelPending input clock =>
      cases h
      exact cancelIds
  | leaseNext workerId leaseSeconds pick clock =>
      obtain ⟨⟨queue, out⟩, hlease, rfl⟩ := Option.map_eq_some_iff.mp h
      exact leaseNext hlease
  | renewLease job leaseSeconds clock =>
      cases h
      exact renewLease
  | complete job clock =>
      cases hcomplete : SqliteJobQueue.complete q job clock with
      | error e =>
          rw [Queue.work, hcomplete] at h
          cases h
      | ok queue =>
          rw [Queue.work, hcomplete] at h
          cases h
          exact complete hcomplete
  | fail job message clock =>
      cases hfail : SqliteJobQueue.fail q job message clock with
      | error e =>
          rw [Queue.work, hfail] at h
          cases h
      | ok queue =>
          rw [Queue.work, hfail] at h
          cases h
          exact fail hfail

end JobsKept

/-! ### The calls of the repositories -/

namespace Database

variable {dialect : Dialect} {digest sha256 : String → String} {db db' : Database}
  {tenantId userId tenant user : String}

/-- Only a member is linked. -/
theorem Unreferenced.stageSource (h : db.Unreferenced dialect tenantId userId)
    (hmember : db.isMember tenantId userId = false) {source : SourceItem}
    {staged : StageSourceResult}
    (hok : db.stageSource digest sha256 source tenant = .ok (db', staged)) :
    db'.Unreferenced dialect tenantId userId := by
  obtain ⟨between, linked, row, hsource, ⟨versions, -, hlink⟩, -, -, -, rfl⟩ := stageSource_ok hok
  obtain ⟨sources, rfl, -⟩ := upsertSource_ok hsource
  obtain ⟨links, rfl, hlinks⟩ := addContributor?_ok hlink
  refine ⟨h.jobs, h.credentials, fun link hmem htenant huser => ?_, h.connectorState⟩
  rcases hlinks with ⟨-, rfl⟩ | ⟨user, -, hjoined, hnew⟩
  · exact h.contributors link hmem htenant huser
  · rcases hnew with ⟨-, rfl⟩ | ⟨-, -, rfl⟩
    · exact h.contributors link hmem htenant huser
    · rcases List.mem_append.mp hmem with hold | hlast
      · exact h.contributors link hold htenant huser
      · obtain rfl := List.mem_singleton.mp hlast
        dsimp only at htenant huser
        subst htenant huser
        exact absurd (hjoined.symm.trans hmember) (by simp)

/-- A saved credential of anybody else, or in another tenant. -/
theorem Unreferenced.saveCredential (h : db.Unreferenced dialect tenantId userId)
    {value : CredentialRow} (hother : ¬ (value.tenantId = tenantId ∧ value.userId = userId))
    (hok : db.saveCredential value = .ok db') : db'.Unreferenced dialect tenantId userId := by
  obtain ⟨refresh, rfl, hrefresh⟩ := saveCredential_upsert hok
  refine ⟨h.jobs, fun row hrow htenant huser => ?_, h.contributors, h.connectorState⟩
  rcases Table.mem_upsert.mp hrow with ⟨hold, -⟩ | ⟨old, -, hkey, rfl⟩ | ⟨-, rfl⟩
  · exact h.credentials row hold htenant huser
  · have hsame := (hrefresh old).1.trans hkey
    simp only [CredentialRow.key, Prod.mk.injEq] at hsame
    exact hother ⟨hsame.1.symm.trans htenant, hsame.2.1.symm.trans huser⟩
  · exact hother ⟨htenant, huser⟩

/-- A credential of the user is refused where the user is gone. -/
theorem Unreferenced.saveCredential_error (h : db.Unreferenced dialect tenantId userId)
    (hgone : ∀ row ∈ db.users, row.id ≠ userId) {value : CredentialRow}
    (htenant : value.tenantId = tenantId) (huser : value.userId = userId) :
    db.saveCredential value = .error (.foreignKey "credentials") := by
  have hnone : ¬ (db.findCredential value.key).isSome := by
    unfold findCredential
    rw [List.find?_isSome]
    rintro ⟨row, hrow, hkey⟩
    have hsame := of_decide_eq_true hkey
    simp only [CredentialRow.key, Prod.mk.injEq] at hsame
    exact h.credentials row hrow (hsame.1.trans htenant) (hsame.2.1.trans huser)
  have husers : ¬ (db.users.any fun row => row.id = value.userId) := by
    intro hany
    obtain ⟨row, hrow, hid⟩ := List.any_eq_true.mp hany
    exact hgone row hrow ((of_decide_eq_true hid).trans huser)
  unfold Database.saveCredential
  rw [if_neg hnone, if_pos (by simpa using husers)]

/-- The owner of a cursor is a member. -/
theorem Unreferenced.setConnectorState (h : db.Unreferenced dialect tenantId userId)
    (hmember : db.isMember tenantId userId = false) {connector : String} {group cursor : Option String}
    {metadata : Json}
    (hscope : user = userId ∨ ¬ isUsersScope dialect userId (cursorScope user group))
    (hok : db.setConnectorState connector (cursorScope user group) cursor metadata tenant
      (some user) = .ok db') : db'.Unreferenced dialect tenantId userId := by
  obtain ⟨howner, rfl⟩ := setConnectorState_ok hok
  have howner : db.isMember tenant user = true := howner
  have hnew : tenant = tenantId → user ≠ userId := by
    rintro rfl rfl
    rw [hmember] at howner
    cases howner
  refine ⟨h.jobs, h.credentials, h.contributors, fun row hrow htenant => ?_⟩
  have hfresh : tenant = tenantId → some user ≠ some userId ∧
      isUsersScope dialect userId (cursorScope user group) = false := by
    intro hsame
    refine ⟨fun huser => hnew hsame (Option.some.inj huser), Bool.eq_false_iff.mpr ?_⟩
    exact hscope.resolve_left (hnew hsame)
  rcases Table.mem_upsert.mp hrow with ⟨hold, -⟩ | ⟨-, -, -, rfl⟩ | ⟨-, rfl⟩
  · exact h.connectorState row hold htenant
  · exact hfresh htenant
  · exact hfresh htenant

end Database

/-! ### The invariant -/

namespace ErasureRun

variable {cfg : ErasureConfig} {s t : ErasureRun} {tenantId : String}

/-- No call of the user in the tenant is in flight. -/
def Finished (s : ErasureRun) (tenantId : String) : Prop :=
  ∀ call ∈ s.calls, call.tenantId ≠ tenantId

/-- **Erasure is final for work in flight.** -/
def FinalErasure (cfg : ErasureConfig) (s : ErasureRun) : Prop :=
  ∀ tenantId ∈ s.erased, s.Finished tenantId →
    s.run.db.Unreferenced cfg.dialect tenantId cfg.userId

/-- The condition on a step.  A call in flight enqueues only while the account is not
erased, and puts a credential only then or when the erasure has deleted the user. -/
def InTime (cfg : ErasureConfig) (s : ErasureRun) : ErasureStep → Prop
  | .enqueue c _ _ | .schedule c _ _ => ∀ call, s.call? c = some call → call.tenantId ∉ s.erased
  | .put c _ _ _ | .callback c _ _ _ => ∀ call, s.call? c = some call →
      call.tenantId ∈ s.erased → ∀ row ∈ s.run.db.users, row.id ≠ cfg.userId
  | _ => True

/-- In a tenant with an erased account the user is no member, and nothing refers to the
user. -/
structure Inv (cfg : ErasureConfig) (s : ErasureRun) : Prop where
  notMember : ∀ tenantId ∈ s.erased, s.run.db.isMember tenantId cfg.userId = false
  unreferenced : ∀ tenantId ∈ s.erased, s.run.db.Unreferenced cfg.dialect tenantId cfg.userId

/-- A step on the calls alone. -/
theorem Inv.calls (h : Inv cfg s) (hrun : t.run = s.run) (herased : t.erased = s.erased) :
    Inv cfg t where
  notMember tenantId hmem := by
    rw [hrun]
    exact h.notMember tenantId (herased ▸ hmem)
  unreferenced tenantId hmem := by
    rw [hrun]
    exact h.unreferenced tenantId (herased ▸ hmem)

/-- A step that leaves the memberships alone. -/
theorem Inv.withDb (h : Inv cfg s) {db : Database} (hmembers : db.memberships = s.run.db.memberships)
    (hdb : ∀ tenantId ∈ s.erased, s.run.db.Unreferenced cfg.dialect tenantId cfg.userId →
      db.Unreferenced cfg.dialect tenantId cfg.userId) : Inv cfg (s.withDb db) where
  notMember tenantId hmem := by
    show db.isMember tenantId cfg.userId = false
    unfold Database.isMember
    rw [hmembers]
    exact h.notMember tenantId hmem
  unreferenced tenantId hmem := hdb tenantId hmem (h.unreferenced tenantId hmem)

/-- What the repositories write for the user they write for a member only. -/
theorem unreferenced_repository {label : PrivacyStep} {run run' : PrivacyRun}
    (hadmits : cfg.admits label) (hs : run.step cfg.dialect cfg.digest cfg.sha256 label = some run')
    (h : run.db.Unreferenced cfg.dialect tenantId cfg.userId)
    (hmember : run.db.isMember tenantId cfg.userId = false) :
    run'.db.Unreferenced cfg.dialect tenantId cfg.userId := by
  obtain ⟨heffect, -⟩ := PrivacyRun.step_effect hs
  obtain ⟨db, staged⟩ := run'
  change PrivacyRun.Effect cfg.dialect cfg.digest cfg.sha256 run.db db label at heffect
  have hframe : Database.NothingNew run.db db → db.Unreferenced cfg.dialect tenantId cfg.userId :=
    h.nothingNew
  cases label with
  | signIn identity tenant =>
      obtain ⟨users, memberships, rfl, -, -⟩ := heffect
      exact hframe (.of_eq rfl rfl rfl rfl)
  | createSession row =>
      obtain ⟨-, sessions, rfl, -⟩ := heffect
      exact hframe (.of_eq rfl rfl rfl rfl)
  | upsertOrganization row =>
      obtain ⟨organizations, rfl⟩ := heffect
      exact hframe (.of_eq rfl rfl rfl rfl)
  | stageSource source tenant =>
      obtain ⟨staged, hok⟩ := heffect
      exact h.stageSource hmember hok
  | markSourceProcessing id tenant now | markSourceSucceeded id tenant now
  | markSourceFailed id failure tenant now =>
      obtain ⟨f, rfl, -⟩ := heffect
      exact hframe (.of_eq rfl rfl rfl rfl)
  | putClaims claims =>
      obtain ⟨rows, rfl, -, -⟩ := heffect
      exact hframe (.of_eq rfl rfl rfl rfl)
  | saveCredential row =>
      obtain ⟨hjoined, hok⟩ := heffect
      refine h.saveCredential ?_ hok
      rintro ⟨htenant, huser⟩
      rw [htenant, huser, hmember] at hjoined
      cases hjoined
  | enqueue input clock =>
      obtain ⟨queue, job, rfl, hok⟩ := heffect
      refine ⟨fun row hrow htenant hnames => ?_, h.credentials, h.contributors, h.connectorState⟩
      rcases SqliteJobQueue.pending_enqueue hok hrow with hold | ⟨-, -, hpayload⟩
      · exact h.jobs row hold htenant hnames
      · rw [hpayload] at hnames
        exact of_decide_eq_true hadmits (decide_eq_true hnames)
  | setConnectorState connector tenant owner group cursor metadata =>
      exact h.setConnectorState hmember (of_decide_eq_true hadmits) heffect
  | putOpportunityOverride override =>
      obtain ⟨overrides, rfl⟩ := Database.putOpportunityOverride_ok heffect
      exact hframe (.of_eq rfl rfl rfl rfl)
  | eraseAccount tenant user operationId now =>
      obtain ⟨result, hok⟩ := heffect
      exact hframe (Database.nothingNew_eraseAccount hok)

/-- The tenants that count as erased were so before, or have just been. -/
theorem mem_erasedAfter {label : PrivacyStep} {db : Database}
    (h : tenantId ∈ s.erasedAfter cfg label db) : db.isMember tenantId cfg.userId = false ∧
      (tenantId ∈ s.erased ∨ ∃ operationId now,
        label = .eraseAccount tenantId cfg.userId operationId now ∧
          s.run.db.isMember tenantId cfg.userId) := by
  obtain ⟨hmem, hmember⟩ := List.mem_filter.mp h
  refine ⟨by simpa using hmember, ?_⟩
  split at hmem
  · rename_i tenant user operationId now
    split at hmem
    · rename_i hmine
      obtain ⟨rfl, hjoined⟩ := hmine
      rcases List.mem_cons.mp hmem with rfl | hold
      · exact .inr ⟨operationId, now, rfl, hjoined⟩
      · exact .inl hold
    · exact .inl hmem
  · exact .inl hmem

theorem Inv.repository (h : Inv cfg s) {label : PrivacyStep}
    (hs : s.step cfg (.repository label) = some t) : Inv cfg t := by
  simp only [ErasureRun.step] at hs
  split at hs
  · rename_i hadmits
    obtain ⟨run, hrun, rfl⟩ := Option.map_eq_some_iff.mp hs
    constructor
    case notMember => exact fun tenantId hmem => (mem_erasedAfter hmem).1
    case unreferenced =>
      intro tenantId hmem
      obtain ⟨-, hold | ⟨operationId, now, rfl, hjoined⟩⟩ := mem_erasedAfter hmem
      · exact unreferenced_repository hadmits hrun (h.unreferenced tenantId hold)
          (h.notMember tenantId hold)
      · obtain ⟨⟨result, hok⟩, -⟩ := PrivacyRun.step_effect hrun
        exact Database.eraseAccount_unreferenced hjoined hok
  · cases hs

/-- What a call enqueues in its tenant no erased tenant sees. -/
theorem Inv.enqueued (h : Inv cfg s) {input : EnqueueJob} {clock : Readings}
    (hinput : input.tenantId ∉ s.erased) : Inv cfg (s.enqueued cfg input clock) := by
  unfold ErasureRun.enqueued
  split
  · exact h
  · rename_i queue job henqueue
    refine h.withDb rfl fun tenantId hmem hold => ?_
    refine ⟨fun row hrow htenant => ?_, hold.credentials, hold.contributors, hold.connectorState⟩
    rcases SqliteJobQueue.pending_enqueue henqueue hrow with hrow | ⟨hrowTenant, -, -⟩
    · exact hold.jobs row hrow htenant
    · rw [← htenant, hrowTenant] at hmem
      exact absurd hmem hinput

/-- A credential of the user is saved in another tenant, or refused. -/
theorem Inv.saved (h : Inv cfg s) {tenant provider : String} {credential : ProviderCredential}
    {nonce : List UInt8}
    (hgone : tenant ∈ s.erased → ∀ row ∈ s.run.db.users, row.id ≠ cfg.userId) :
    Inv cfg (s.saved cfg tenant provider credential nonce) := by
  unfold ErasureRun.saved
  split
  · exact h
  · rename_i db hput
    have hsaved := Vault.put_ok hput
    obtain ⟨refresh, hdb, -⟩ := Database.saveCredential_upsert hsaved
    refine h.withDb (by rw [hdb]) fun tenantId hmem hold => ?_
    refine hold.saveCredential ?_ hsaved
    rintro ⟨rfl, huser⟩
    rw [hold.saveCredential_error (hgone hmem) rfl huser] at hsaved
    cases hsaved

theorem Inv.step (h : Inv cfg s) {label : ErasureStep} (hin : InTime cfg s label)
    (hs : s.step cfg label = some t) : Inv cfg t := by
  cases label with
  | repository label => exact h.repository hs
  | work label =>
      obtain ⟨queue, hwork, rfl⟩ := Option.map_eq_some_iff.mp hs
      refine h.withDb rfl fun tenantId _ hold => hold.nothingNew ?_
      exact ⟨JobsKept.work hwork, fun _ hrow => hrow, fun _ hlink => hlink, fun _ hrow => hrow⟩
  | begin c tenantId =>
      simp only [ErasureRun.step] at hs
      split at hs
      · cases hs
        exact h.calls rfl rfl
      · cases hs
  | enqueue c input clock =>
      simp only [ErasureRun.step] at hs
      split at hs
      · rename_i id tenantId hcall
        split at hs
        · rename_i htenant
          cases hs
          exact h.enqueued (htenant ▸ hin _ hcall)
        · cases hs
      · cases hs
  | get c provider now =>
      simp only [ErasureRun.step] at hs
      split at hs
      · split at hs
        · split at hs
          · cases hs
            exact h.calls rfl rfl
          · cases hs
            exact h
        · cases hs
          exact h
      · cases hs
  | put c token now nonce =>
      simp only [ErasureRun.step] at hs
      split at hs
      · rename_i id tenantId provider credential hcall
        split at hs
        · cases hs
          exact h.calls rfl rfl
        · cases hs
          have hidle : Inv cfg (s.setPhase c .working) := h.calls rfl rfl
          exact hidle.saved (hin _ hcall)
      · cases hs
  | callback c provider credential nonce =>
      simp only [ErasureRun.step] at hs
      split at hs
      · rename_i id tenantId hcall
        cases hs
        exact h.saved (hin _ hcall)
      · cases hs
  | scheduleAfter c payload =>
      simp only [ErasureRun.step] at hs
      split at hs
      · split at hs
        · cases hs
          exact h
        · split at hs
          · cases hs
            exact h.calls rfl rfl
          · cases hs
            exact h
      · cases hs
  | schedule c now clock =>
      simp only [ErasureRun.step] at hs
      split at hs
      · rename_i id tenantId payload hcall
        cases hs
        have hidle : Inv cfg (s.setPhase c .working) := h.calls rfl rfl
        refine hidle.enqueued ?_
        rw [ScheduleRun.input_tenantId]
        exact hin _ hcall
      · cases hs
  | finish c =>
      cases hs
      exact h.calls rfl rfl

/-! ### Every run -/

/-- No call of the user has begun, and no account is remembered as erased. -/
structure Start (s : ErasureRun) : Prop where
  calls : s.calls = []
  erased : s.erased = []

theorem Start.inv (h : Start s) : Inv cfg s where
  notMember := by simp [h.erased]
  unreferenced := by simp [h.erased]

/-- **Erasure is final for work in flight**, in every run whose calls enqueue before the
erasure, and put credentials before it or after the user is gone.  Nothing is asked of
`stageSource`, `setConnectorState` and the claims transaction, wherever the erasure is. -/
theorem finalErasure_of_inTime (h : Start s) {run : List ErasureStep}
    (hin : Transition.EveryStep (step cfg) (InTime cfg) s run) :
    Transition.EveryState (step cfg) (FinalErasure cfg) s run := by
  have hinv : Transition.EveryState (step cfg) (Inv cfg) s run :=
    Transition.everyState_of_everyStep (fun _ _ _ hinv hC hs => hinv.step hC hs) h.inv hin
  exact hinv.mono fun _ hstate tenantId hmem _ => hstate.unreferenced tenantId hmem

/-! ### Calls that come late -/

def demoConfig : ErasureConfig where
  dialect := .postgres
  digest := fun _ => "0"
  sha256 := id
  vault := VaultRun.demoVault VaultRun.expired
  getTime := fun _ => some 0
  skewMs := 60000
  intervalSeconds := 900
  userId := "u1"

/-- A user who is a member of two tenants. -/
def twoTenants : ErasureRun where
  run :=
    { PrivacyRun.start with
      db := { Database.empty with
        users := [⟨"u1", "issuer", "subject"⟩]
        memberships := [⟨"t1", "u1"⟩, ⟨"t2", "u1"⟩] } }
  calls := []
  erased := []

theorem twoTenants_start : Start twoTenants := ⟨rfl, rfl⟩

/-- The job of `POST /api/ingest/url`. -/
def ingestUrl : EnqueueJob where
  tenantId := "t1"
  type := "ingest.url"
  idempotencyKey := "k"
  payload := .obj [("organizationId", .str "org"), ("url", .str "https://org"), ("userId", .str "u1")]
  priority := none
  maxAttempts := none
  availableAt := none

/-- An authenticated request enqueues when the erasure has committed. -/
def lateRequest : List ErasureStep :=
  [.begin 1 "t1", .repository (.eraseAccount "t1" "u1" "op" 0), .enqueue 1 ingestUrl ⟨1, []⟩,
    .finish 1]

/-- A refresh waits for its provider while the account is erased in one of two tenants. -/
def lateRefresh : List ErasureStep :=
  [.begin 1 "t1", .callback 1 "gmail" VaultRun.expired (List.replicate 12 0), .get 1 "gmail" 0,
    .repository (.eraseAccount "t1" "u1" "op" 1),
    .put 1 ⟨some "fresh", none, none, none⟩ 2 (List.replicate 12 1), .finish 1]

/-- A row of the erased tenant refers to the user, and no call is in flight. -/
def referenced (s : ErasureRun) : Bool :=
  "t1" ∈ s.erased ∧ s.calls = [] ∧
    ((s.run.db.queue.jobs.any fun job =>
        job.tenantId = "t1" ∧ job.payload.get? "userId" = some (.str "u1")) ∨
      s.run.db.credentials.any fun row => row.tenantId = "t1" ∧ row.userId = "u1")

theorem not_finalErasure (h : referenced s) : ¬ FinalErasure demoConfig s := by
  obtain ⟨herased, hcalls, hrow⟩ := of_decide_eq_true h
  intro hfinal
  have hfinished : s.Finished "t1" := by simp [Finished, hcalls]
  have hnone := hfinal "t1" herased hfinished
  rcases hrow with hjob | hcredential
  · obtain ⟨job, hjob, hnames⟩ := List.any_eq_true.mp hjob
    obtain ⟨htenant, hnames⟩ := of_decide_eq_true hnames
    exact hnone.jobs job hjob htenant hnames
  · obtain ⟨row, hrow, huser⟩ := List.any_eq_true.mp hcredential
    obtain ⟨htenant, huser⟩ := of_decide_eq_true huser
    exact hnone.credentials row hrow htenant huser

theorem not_everyState {run : List ErasureStep}
    (h : (Transition.exec (step demoConfig) twoTenants run).any referenced = true) :
    ¬ Transition.EveryState (step demoConfig) (FinalErasure demoConfig) twoTenants run := by
  obtain ⟨t, ht, hlate⟩ := (Option.any_eq_true _ _).mp h
  exact fun hall => not_finalErasure hlate (hall.exec ht)

/-- A request in flight leaves a job of the erased account. -/
theorem erasure_not_final :
    ¬ ∀ s, Start s → ∀ run,
      Transition.EveryState (step demoConfig) (FinalErasure demoConfig) s run :=
  fun h => not_everyState (by decide +kernel) (h twoTenants twoTenants_start lateRequest)

/-- A refresh in flight leaves a credential of it. -/
theorem erasure_not_final_refresh :
    ¬ Transition.EveryState (step demoConfig) (FinalErasure demoConfig) twoTenants lateRefresh :=
  not_everyState (by decide +kernel)

/-- A request that enqueues before the erasure. -/
theorem finalErasure_of_inTime_request :
    Transition.EveryState (step demoConfig) (FinalErasure demoConfig) twoTenants
      [.begin 1 "t1", .enqueue 1 ingestUrl ⟨0, []⟩,
        .repository (.eraseAccount "t1" "u1" "op" 1), .finish 1] := by
  refine finalErasure_of_inTime twoTenants_start ?_
  refine fun t ht => ⟨trivial, ?_⟩
  cases ht
  refine fun t ht => ⟨fun call _ => List.not_mem_nil, ?_⟩
  cases ht
  exact fun t _ => ⟨trivial, fun u _ => ⟨trivial, trivial⟩⟩

end ErasureRun

end RecruitingOs
