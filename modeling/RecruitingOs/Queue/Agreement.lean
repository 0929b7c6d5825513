import RecruitingOs.Lib.TableRelation
import RecruitingOs.Queue.Client
import RecruitingOs.Queue.Selection

/-!
# Corresponding rows of the two queues

`RowSim` is `JobRow.Agrees` with what the simulation needs to know of the row besides.  The
conditions of the statements agree on such rows, and what a statement writes on one side
corresponds to what it writes on the other; the statements on whole tables follow by
`Table.forall₂_updateWhere`.
-/

namespace RecruitingOs

open SqliteJobQueue (isExhausted hasKey)

/-- Corresponding rows, `a` of SQLite and `b` of Postgres. -/
structure RowSim (a b : JobRow) : Prop extends JobRow.Agrees a b where
  screenshot : b.payload = a.payload ∨ a.type = "ingest.screenshot"
  record : isRecord a.payload
  leased : a.status = .running → a.leasedBy.isSome ∧ a.leasedUntil.isSome
  worker : a.leasedBy ≠ some ""

namespace RowSim

variable {a b : JobRow}

theorem exists_eq (h : RowSim a b) : ∃ payload availableAt updatedAt,
    b = { a with
      payload := payload
      availableAt := availableAt
      leasedUntil := a.leasedUntil.map (· * 1000)
      createdAt := a.createdAt * 1000
      updatedAt := updatedAt } :=
  ⟨_, _, _, h.same⟩

theorem id_eq (h : RowSim a b) : b.id = a.id := by rw [h.same]

theorem tenantId_eq (h : RowSim a b) : b.tenantId = a.tenantId := by rw [h.same]

theorem status_eq (h : RowSim a b) : b.status = a.status := by rw [h.same]

theorem leasedUntil_eq (h : RowSim a b) : b.leasedUntil = a.leasedUntil.map (· * 1000) := by
  rw [h.same]

theorem isId_eq (h : RowSim a b) (id : String) : decide (b.id = id) = decide (a.id = id) := by
  rw [h.id_eq]

theorem hasKey_eq (h : RowSim a b) (input : EnqueueJob) : hasKey input b = hasKey input a := by
  rw [hasKey, hasKey, h.same]

theorem any_until (h : RowSim a b) (now : ℤ) :
    b.leasedUntil.any (· < now * 1000) = a.leasedUntil.any (· < now) := by
  rw [h.leasedUntil_eq]
  cases a.leasedUntil with
  | none => rfl
  | some u => simp

theorem all_until (h : RowSim a b) (now : ℤ) :
    b.leasedUntil.all (· < now * 1000) = a.leasedUntil.all (· < now) := by
  rw [h.leasedUntil_eq]
  cases a.leasedUntil with
  | none => rfl
  | some u => simp

theorem isExhausted_eq (h : RowSim a b) (now : ℤ) : isExhausted (now * 1000) b = isExhausted now a := by
  have hany := h.any_until now
  obtain ⟨_, _, _, rfl⟩ := h.exists_eq
  simp only [isExhausted] at hany ⊢
  rw [hany]

theorem eligible_eq (h : RowSim a b) (now : ℤ) :
    b.eligible (now * 1000) (now * 1000) (now * 1000) = a.eligible now now now := by
  have hany := h.any_until now
  have hall := h.all_until now
  have hstatus := h.status_eq
  have havailable : a.status.pending → (b.availableAt ≤ now * 1000 ↔ a.availableAt ≤ now) := by
    intro hpending
    have hlive : a.status ≠ .deadLetter := by
      intro hdead
      rw [hdead] at hpending
      cases hpending
    rw [h.availableAt hlive]
    omega
  have hcount : b.attemptCount = a.attemptCount ∧ b.maxAttempts = a.maxAttempts := by
    rw [h.same]
    exact ⟨rfl, rfl⟩
  unfold JobRow.eligible
  rw [hany, hall, hstatus, hcount.1, hcount.2]
  by_cases hpending : a.status.pending
  · simp only [havailable hpending]
  · simp [hpending]

/-! ### What statements write -/

/-- The job leaves the queue: both sides redact a screenshot. -/
theorem close (h : RowSim a b) {status : JobStatus} {lastError : Option String}
    {available available' redactedAt updatedAt updatedAt' : ℤ} {redacted : Json}
    (hstatus : status ≠ .running)
    (havailable : status ≠ .deadLetter → available' = available * 1000)
    (hredacted : redacted.get? "retentionRedacted" = some (.bool true)) :
    RowSim
      { a with
        status := status
        availableAt := available
        leasedBy := none
        leasedUntil := none
        lastError := lastError
        payload := a.redactScreenshot redactedAt
        updatedAt := updatedAt }
      { b with
        status := status
        availableAt := available'
        leasedBy := none
        leasedUntil := none
        lastError := lastError
        payload := if b.type = "ingest.screenshot" then redacted else b.payload
        updatedAt := updatedAt' } := by
  have hpayload := h.payload
  have hscreenshot := h.screenshot
  have hrecord := h.record
  obtain ⟨payload, _, _, rfl⟩ := h.exists_eq
  by_cases htype : a.type = "ingest.screenshot"
  · refine ⟨⟨rfl, havailable, .inr ⟨?_, ?_⟩⟩, .inr htype, ?_,
      fun hrunning => absurd hrunning hstatus, by simp⟩
    · exact JobRow.redacted_of_screenshot htype rfl
    · simpa [JobRow.redacted, htype] using hredacted
    · simp [JobRow.redactScreenshot, htype, redactedPayload, isRecord]
  · have hsame : payload = a.payload := hscreenshot.resolve_right htype
    refine ⟨⟨rfl, havailable, .inl ?_⟩, .inl ?_, ?_, fun hrunning => absurd hrunning hstatus,
      by simp⟩
    · simp [JobRow.redactScreenshot, htype, hsame]
    · simp [JobRow.redactScreenshot, htype, hsame]
    · simpa [JobRow.redactScreenshot, htype] using hrecord

/-- The job is leased, or its lease is renewed. -/
theorem lease (h : RowSim a b) (hlive : a.status ≠ .deadLetter) {workerId : String}
    (hworker : workerId ≠ "") (leasedUntil now now' : ℤ) :
    RowSim (SqliteJobQueue.leaseRow workerId leasedUntil now a)
      (SqliteJobQueue.leaseRow workerId (leasedUntil * 1000) now' b) := by
  have hpayload := h.payload
  have havailable := h.availableAt hlive
  have hscreenshot := h.screenshot
  obtain ⟨payload, available, _, rfl⟩ := h.exists_eq
  refine ⟨⟨rfl, fun _ => havailable, hpayload⟩, hscreenshot, h.record, fun _ => ⟨rfl, rfl⟩, ?_⟩
  simpa [SqliteJobQueue.leaseRow] using hworker

theorem renew (h : RowSim a b) (renewedUntil now now' : ℤ) :
    RowSim (SqliteJobQueue.renewRow renewedUntil now a)
      (SqliteJobQueue.renewRow (renewedUntil * 1000) now' b) := by
  have hpayload := h.payload
  have havailable := h.availableAt
  have hscreenshot := h.screenshot
  obtain ⟨payload, available, _, rfl⟩ := h.exists_eq
  exact ⟨⟨rfl, havailable, hpayload⟩, hscreenshot, h.record,
    fun hrunning => ⟨(h.leased hrunning).1, rfl⟩, h.worker⟩

/-- The job is to be tried again. -/
theorem retry (h : RowSim a b) (lastError : Option String) (available now now' : ℤ) :
    RowSim
      { a with
        status := .retryableFailed
        availableAt := available
        leasedBy := none
        leasedUntil := none
        lastError := lastError
        updatedAt := now }
      { b with
        status := .retryableFailed
        availableAt := available * 1000
        leasedBy := none
        leasedUntil := none
        lastError := lastError
        updatedAt := now' } := by
  have hpayload := h.payload
  have hscreenshot := h.screenshot
  obtain ⟨payload, _, _, rfl⟩ := h.exists_eq
  exact ⟨⟨rfl, fun _ => rfl, hpayload⟩, hscreenshot, h.record, by simp, by simp⟩

theorem revive (h : RowSim a b) {fresh fresh' : JobRow} (hfresh : RowSim fresh fresh')
    (hsame : fresh'.payload = fresh.payload) (hlive : fresh.status ≠ .deadLetter) :
    RowSim (SqliteJobQueue.revive fresh a) (SqliteJobQueue.revive fresh' b) := by
  have havailable := hfresh.availableAt hlive
  obtain ⟨_, _, _, rfl⟩ := h.exists_eq
  obtain ⟨_, _, _, rfl⟩ := hfresh.exists_eq
  obtain rfl := hsame
  exact ⟨⟨rfl, fun _ => havailable, .inl rfl⟩, .inl rfl, hfresh.record,
    by simp [SqliteJobQueue.revive], by simp [SqliteJobQueue.revive]⟩

/-- Jobs that `cancelPending` takes are syncs, whose payload neither side touches. -/
theorem cancel (h : RowSim a b) (htype : a.type ≠ "ingest.screenshot") (redactedAt now now' : ℤ)
    (hlive : a.status ≠ .deadLetter) :
    RowSim (SqliteJobQueue.cancelRow redactedAt now a) (PostgresQueue.cancelRow now' b) := by
  have hsame := h.screenshot.resolve_right htype
  have havailable := h.availableAt hlive
  obtain ⟨payload, available, _, rfl⟩ := h.exists_eq
  obtain rfl := hsame
  have hkept : a.redactScreenshot redactedAt = a.payload := by
    rw [JobRow.redactScreenshot, if_neg htype]
  have hrow : SqliteJobQueue.cancelRow redactedAt now a =
      { a with
        status := .cancelled
        leasedBy := none
        leasedUntil := none
        lastError := some "Cancelled by connector revocation"
        updatedAt := now } := by
    rw [SqliteJobQueue.cancelRow, hkept]
  rw [hrow]
  exact ⟨⟨rfl, fun _ => havailable, .inl rfl⟩, .inl rfl, h.record, by simp, by simp⟩

theorem enqueued (digest : String → String) {input : EnqueueJob} (hrecord : isRecord input.payload)
    (now : ℤ) :
    RowSim (SqliteJobQueue.enqueuedRow digest input now)
      (PostgresQueue.enqueuedRow digest input now (now * 1000)) :=
  ⟨⟨rfl, fun _ => rfl, .inl rfl⟩, .inl rfl, hrecord, by simp [SqliteJobQueue.enqueuedRow],
    by simp [SqliteJobQueue.enqueuedRow]⟩

/-! ### What callers get -/

theorem toJob_agrees (h : RowSim a b) : a.toJob.Agrees (PostgresQueue.toJob b) := by
  have hworker : a.leasedBy.filter (· ≠ "") = a.leasedBy := by
    cases hby : a.leasedBy with
    | none => rfl
    | some workerId =>
        have hne : workerId ≠ "" := fun hempty => h.worker (by rw [hby, hempty])
        simp [hne]
  have huntil : (a.leasedUntil.map (· * 1000)).map (· / 1000) = a.leasedUntil := by
    rw [Option.map_map]
    have hid : ((· / 1000) ∘ (· * 1000) : ℤ → ℤ) = id := by
      funext u
      show u * 1000 / 1000 = u
      omega
    rw [hid, Option.map_id, id]
  have hpayload := h.payload
  have havailable := h.availableAt
  obtain ⟨payload, available, _, rfl⟩ := h.exists_eq
  refine ⟨?_, fun hlive => ?_, ?_⟩
  · simp only [JobRow.toJob, PostgresQueue.toJob, hworker, huntil]
  · have hcut : available = a.availableAt * 1000 := havailable hlive
    show available / 1000 = a.availableAt
    omega
  · exact hpayload.imp_right fun hredacted =>
      ⟨of_decide_eq_true hredacted.1, of_decide_eq_true hredacted.2⟩

end RowSim

/-- Corresponding handles; a handle of SQLite has no empty worker. -/
structure JobSim (a b : Job) : Prop extends Job.Agrees a b where
  worker : a.leasedBy ≠ some ""

theorem RowSim.jobSim {a b : JobRow} (h : RowSim a b) : JobSim a.toJob (PostgresQueue.toJob b) where
  toAgrees := h.toJob_agrees
  worker := by simp [JobRow.toJob, Option.filter_eq_some_iff]

namespace JobSim

variable {a b : Job} {now : ℤ}

theorem id_eq (h : JobSim a b) : b.id = a.id := by rw [h.same]

theorem leasedBy_eq (h : JobSim a b) : b.leasedBy = a.leasedBy := by rw [h.same]

theorem leasedUntil_eq (h : JobSim a b) : b.leasedUntil = a.leasedUntil := by rw [h.same]

end JobSim

/-! ### Corresponding tables -/

/-- The tables of the two queues correspond row by row. -/
structure TableSim (q p : Queue) : Prop where
  jobs : List.Forall₂ RowSim q.jobs p.jobs
  served : p.tenantQueueState = q.tenantQueueState.map fun entry => (entry.1, entry.2 * 1000)

namespace TableSim

variable {q p : Queue}

theorem lookup_served (h : TableSim q p) (tenant : String) :
    p.tenantQueueState.lookup tenant = (q.tenantQueueState.lookup tenant).map (· * 1000) := by
  rw [h.served]
  induction q.tenantQueueState with
  | nil => rfl
  | cons entry entries ih =>
      rw [List.map_cons, List.lookup_cons, List.lookup_cons, ih]
      cases tenant == entry.1 <;> rfl

theorem lastLeased_eq (h : TableSim q p) {a b : JobRow} (hrow : RowSim a b) :
    p.lastLeased b = q.lastLeased a * 1000 := by
  rw [Queue.lastLeased, Queue.lastLeased, hrow.tenantId_eq, h.lookup_served]
  cases q.tenantQueueState.lookup a.tenantId <;> rfl

theorem servedKey_le (h : TableSim q p) {a b a' b' : JobRow} (hrow : RowSim a b)
    (hrow' : RowSim a' b') : p.servedKey b ≤ p.servedKey b' ↔ q.servedKey a ≤ q.servedKey a' := by
  have hlast := h.lastLeased_eq hrow
  have hlast' := h.lastLeased_eq hrow'
  have hpriority : b.priority = a.priority ∧ b'.priority = a'.priority := by
    rw [hrow.same, hrow'.same]
    exact ⟨rfl, rfl⟩
  have hcreated : b.createdAt = a.createdAt * 1000 ∧ b'.createdAt = a'.createdAt * 1000 := by
    rw [hrow.same, hrow'.same]
    exact ⟨rfl, rfl⟩
  rw [← not_lt, ← not_lt, ← Queue.servedBefore_iff, ← Queue.servedBefore_iff, not_iff_not]
  simp only [Queue.servedBefore, JobRow.before, hlast, hlast', hpriority, hcreated,
    decide_eq_true_eq]
  omega

/-- The selections answer corresponding rows. -/
theorem isNext_iff (h : TableSim q p) {rows rows' : List JobRow}
    (hrows : List.Forall₂ RowSim rows rows') {a b : JobRow} (hrow : RowSim a b)
    (hmem : b ∈ rows' ↔ a ∈ rows) : p.isNext rows' b ↔ q.isNext rows a := by
  rw [Queue.isNext_iff, Queue.isNext_iff, hmem]
  refine and_congr_right fun _ => ⟨fun hleast other hother => ?_, fun hleast other hother => ?_⟩
  · obtain ⟨other', hother', hsim⟩ := Table.forall₂_exists_right hrows hother
    exact (h.servedKey_le hrow hsim).mp (hleast other' hother')
  · obtain ⟨other', hother', hsim⟩ := Table.forall₂_exists_left hrows hother
    exact (h.servedKey_le hrow hsim).mpr (hleast other' hother')

theorem touchTenant (h : TableSim q p) (tenant : String) (now : ℤ) :
    p.touchTenant tenant (now * 1000) =
      (q.touchTenant tenant now).map fun entry => (entry.1, entry.2 * 1000) := by
  rw [Queue.touchTenant, Queue.touchTenant, h.served, List.map_cons, List.filter_map]
  rfl

end TableSim

end RecruitingOs
