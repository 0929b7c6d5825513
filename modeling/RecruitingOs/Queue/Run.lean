import Mathlib.Logic.Function.Basic
import RecruitingOs.Lib.Transition
import RecruitingOs.Queue.Sqlite

/-!
# Runs of the SQLite queue

The system of all interleavings of calls on one `SqliteJobQueue`: any workers,
any callers, one lease length, each call atomic.  `QueueRun` is the state of a
run; besides the two tables it records what the claims about runs speak of.

* `issued` — every job that the queue has returned, the handles that a caller can
  present later, however stale.
* `latest` — for a job id, the handle of its most recent lease or of the latest
  renewal of that lease.
* `leases` — the number of leases since the job was last enqueued or revived.
* `lastCall` — the clock when the last call on the job returned.  A call *on* a job
  is one that names it, selects it or changes it; the clock has to advance
  strictly from one such call to the next.
-/

namespace RecruitingOs

/-- One call on the queue, with its clock readings; `leaseNext` also carries what
its query answers. -/
inductive QueueCall where
  | enqueue (input : EnqueueJob) (clock : Readings)
  | cancelPending (input : CancelPendingJobs) (clock : Readings)
  | leaseNext (workerId : String) (pick : Option String) (clock : Readings)
  | renewLease (job : Job) (clock : Readings)
  | complete (job : Job) (clock : Readings)
  | fail (job : Job) (message : String) (clock : Readings)

/-- The state of a run of calls. -/
structure QueueRun where
  queue : Queue
  issued : List Job
  latest : String → Option Job
  leases : String → ℕ
  lastCall : String → Option ℤ

namespace QueueRun

/-- The empty queue, before any call. -/
def empty : QueueRun where
  queue := Queue.empty
  issued := []
  latest := fun _ => none
  leases := fun _ => 0
  lastCall := fun _ => none

/-- The clock has advanced strictly since the last call on each of these jobs. -/
def advances (s : QueueRun) (ids : List String) (clock : Readings) : Bool :=
  ids.all fun id => (s.lastCall id).all (· < clock.start)

/-- Record a call on these jobs. -/
def touch (s : QueueRun) (ids : List String) (clock : Readings) : QueueRun :=
  { s with lastCall := fun id => if id ∈ ids then some clock.finish else s.lastCall id }

/-- The jobs that a `cancelPending` is on. -/
def cancelTargets (s : QueueRun) (input : CancelPendingJobs) : List String :=
  (s.queue.jobs.filter (SqliteJobQueue.isCancelCandidate input)).map JobRow.id

/-- The jobs that a `leaseNext` is on: those it sweeps and the one it leases. -/
def leaseTargets (s : QueueRun) (pick : Option String) (clock : Readings) : List String :=
  (s.queue.jobs.filter (SqliteJobQueue.isExhausted (clock.nth 2))).map JobRow.id ++ pick.toList

/-- Whether the key has a job that is not cancelled. -/
def hasLiveJob (s : QueueRun) (input : EnqueueJob) : Bool :=
  s.queue.jobs.any fun row => SqliteJobQueue.hasKey input row ∧ row.status ≠ .cancelled

/-- The state after a call, where the caller presents a handle that it has. -/
def settleWith (s : QueueRun) (job : Job) (clock : Readings)
    (result : Except QueueError Queue) : Option QueueRun :=
  if job ∈ s.issued ∧ s.advances [job.id] clock then
    match result with
    | .error _ => some (s.touch [job.id] clock)
    | .ok queue => some { s.touch [job.id] clock with queue := queue }
  else none

/-- One call.  It is `none` where the clock does not advance, where a caller
presents a handle that it was never given, and where the query of `leaseNext`
answers differently. -/
def step (digest : String → String) (leaseSeconds : ℤ) (s : QueueRun) :
    QueueCall → Option QueueRun
  | .enqueue input clock =>
      let id := jobId digest input.tenantId input.type input.idempotencyKey
      if s.advances [id] clock ∧ 1 ≤ input.maxAttempts.getD 5 then
        match SqliteJobQueue.enqueue digest s.queue input clock with
        | .error _ => some (s.touch [id] clock)
        | .ok (queue, job) =>
            some { s.touch [id] clock with
              queue := queue
              issued := job :: s.issued
              leases := if s.hasLiveJob input then s.leases else Function.update s.leases id 0 }
      else none
  | .cancelPending input clock =>
      if s.advances (s.cancelTargets input) clock then
        some { s.touch (s.cancelTargets input) clock with
          queue := (SqliteJobQueue.cancelPending s.queue input clock).1 }
      else none
  | .leaseNext workerId pick clock =>
      let ids := s.leaseTargets pick clock
      if s.advances ids clock then
        match SqliteJobQueue.leaseNext s.queue workerId leaseSeconds pick clock with
        | none => none
        | some (queue, none) => some { s.touch ids clock with queue := queue }
        | some (queue, some job) =>
            some { s.touch ids clock with
              queue := queue
              issued := job :: s.issued
              latest := Function.update s.latest job.id (some job)
              leases := Function.update s.leases job.id (s.leases job.id + 1) }
      else none
  | .renewLease job clock =>
      if job ∈ s.issued ∧ s.advances [job.id] clock then
        match SqliteJobQueue.renewLease s.queue job leaseSeconds clock with
        | (_, none) => some (s.touch [job.id] clock)
        | (queue, some renewed) =>
            some { s.touch [job.id] clock with
              queue := queue
              issued := renewed :: s.issued
              latest := Function.update s.latest job.id (some renewed) }
      else none
  | .complete job clock => s.settleWith job clock (SqliteJobQueue.complete s.queue job clock)
  | .fail job message clock =>
      s.settleWith job clock (SqliteJobQueue.fail s.queue job message clock)

/-! ### What an enabled call does -/

section Inversion

variable {digest : String → String} {leaseSeconds : ℤ} {s t : QueueRun} {clock : Readings}
  {job : Job}

theorem step_enqueue {input : EnqueueJob}
    (hs : s.step digest leaseSeconds (.enqueue input clock) = some t) :
    let id := jobId digest input.tenantId input.type input.idempotencyKey
    (s.advances [id] clock ∧ 1 ≤ input.maxAttempts.getD 5) ∧
      (t = s.touch [id] clock ∨
        ∃ queue job, SqliteJobQueue.enqueue digest s.queue input clock = .ok (queue, job) ∧
          t = { s.touch [id] clock with
            queue := queue
            issued := job :: s.issued
            leases := if s.hasLiveJob input then s.leases
              else Function.update s.leases id 0 }) := by
  simp only [step] at hs
  split at hs
  · rename_i hguard
    refine ⟨hguard, ?_⟩
    split at hs
    · exact .inl (Option.some_inj.mp hs).symm
    · rename_i queue job henq
      exact .inr ⟨queue, job, henq, (Option.some_inj.mp hs).symm⟩
  · cases hs

theorem step_cancelPending {input : CancelPendingJobs}
    (hs : s.step digest leaseSeconds (.cancelPending input clock) = some t) :
    s.advances (s.cancelTargets input) clock ∧
      t = { s.touch (s.cancelTargets input) clock with
        queue := (SqliteJobQueue.cancelPending s.queue input clock).1 } := by
  simp only [step] at hs
  split at hs
  · rename_i adv
    exact ⟨adv, (Option.some_inj.mp hs).symm⟩
  · cases hs

theorem step_leaseNext {workerId : String} {pick : Option String}
    (hs : s.step digest leaseSeconds (.leaseNext workerId pick clock) = some t) :
    s.advances (s.leaseTargets pick clock) clock ∧
      ((∃ queue,
        SqliteJobQueue.leaseNext s.queue workerId leaseSeconds pick clock = some (queue, none) ∧
          t = { s.touch (s.leaseTargets pick clock) clock with queue := queue }) ∨
      ∃ queue job,
        SqliteJobQueue.leaseNext s.queue workerId leaseSeconds pick clock =
            some (queue, some job) ∧
          t = { s.touch (s.leaseTargets pick clock) clock with
            queue := queue
            issued := job :: s.issued
            latest := Function.update s.latest job.id (some job)
            leases := Function.update s.leases job.id (s.leases job.id + 1) }) := by
  simp only [step] at hs
  split at hs
  · rename_i adv
    refine ⟨adv, ?_⟩
    split at hs
    · cases hs
    · rename_i queue hlease
      exact .inl ⟨queue, hlease, (Option.some_inj.mp hs).symm⟩
    · rename_i queue job hlease
      exact .inr ⟨queue, job, hlease, (Option.some_inj.mp hs).symm⟩
  · cases hs

theorem step_renewLease (hs : s.step digest leaseSeconds (.renewLease job clock) = some t) :
    (job ∈ s.issued ∧ s.advances [job.id] clock) ∧
      (((SqliteJobQueue.renewLease s.queue job leaseSeconds clock).2 = none ∧
        t = s.touch [job.id] clock) ∨
      ∃ queue renewed,
        SqliteJobQueue.renewLease s.queue job leaseSeconds clock = (queue, some renewed) ∧
          t = { s.touch [job.id] clock with
            queue := queue
            issued := renewed :: s.issued
            latest := Function.update s.latest job.id (some renewed) }) := by
  simp only [step] at hs
  split at hs
  · rename_i hguard
    refine ⟨hguard, ?_⟩
    split at hs
    · rename_i hrenew
      exact .inl ⟨congrArg Prod.snd hrenew, (Option.some_inj.mp hs).symm⟩
    · rename_i queue renewed hrenew
      exact .inr ⟨queue, renewed, hrenew, (Option.some_inj.mp hs).symm⟩
  · cases hs

theorem settleWith_some {result : Except QueueError Queue}
    (hs : s.settleWith job clock result = some t) :
    (job ∈ s.issued ∧ s.advances [job.id] clock) ∧
      ((result.isOk = false ∧ t = s.touch [job.id] clock) ∨
        ∃ queue, result = .ok queue ∧ t = { s.touch [job.id] clock with queue := queue }) := by
  unfold settleWith at hs
  split at hs
  · rename_i hguard
    refine ⟨hguard, ?_⟩
    cases result with
    | error e => exact .inl ⟨rfl, (Option.some_inj.mp hs).symm⟩
    | ok queue => exact .inr ⟨queue, rfl, (Option.some_inj.mp hs).symm⟩
  · cases hs

end Inversion

/-- The states that runs from the empty queue reach. -/
def Reached (digest : String → String) (leaseSeconds : ℤ) : QueueRun → Prop :=
  Transition.Reachable (· = QueueRun.empty) (step digest leaseSeconds)

end QueueRun

end RecruitingOs
