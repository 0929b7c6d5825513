import RecruitingOs.Queue.Steps

/-!
# The life of a job

What the jobs table looks like in every state of a run, and how a row can change:
`succeeded` and `dead_letter` are final, a cancelled job comes back only through an
`enqueue` of its key, and an `enqueue` on any other job is without effect.  The
first half is read off the invariant, the second off the effect of a call.
-/

namespace RecruitingOs

/-- `succeeded` and `dead_letter`. -/
def JobStatus.final : JobStatus → Bool
  | .succeeded | .deadLetter => true
  | _ => false

namespace QueueRun

open SqliteJobQueue

variable {digest : String → String} {leaseSeconds : ℤ} {s t : QueueRun} {call : QueueCall}
  {row : JobRow}

/-- What the table holds about a row, with the number of its leases. -/
structure WellFormed (s : QueueRun) (row : JobRow) : Prop where
  running_iff : row.status = .running ↔ row.leasedBy.isSome ∧ row.leasedUntil.isSome
  unleased : row.status ≠ .running → row.leasedBy = none ∧ row.leasedUntil = none
  attempts_le : row.attemptCount ≤ row.maxAttempts
  attempts_pos : row.status = .running → 1 ≤ row.attemptCount
  attempts_lt : row.status.pending → row.attemptCount < row.maxAttempts
  leases_eq : s.leases row.id = row.attemptCount

theorem RowInv.wellFormed (h : RowInv digest leaseSeconds s row) : WellFormed s row where
  running_iff := h.running_iff
  unleased := h.unleased
  attempts_le := h.attempts_le
  attempts_pos := h.attempts_pos
  attempts_lt := h.attempts_lt
  leases_eq := h.leases_eq

/-- Each key has at most one job: the id is a function of the key. -/
theorem Inv.nodup_key (h : Inv digest leaseSeconds s) :
    (s.queue.jobs.map JobRow.key).Nodup := by
  have hids : s.queue.jobs.map JobRow.id =
      (s.queue.jobs.map JobRow.key).map fun key => jobId digest key.1 key.2.1 key.2.2 := by
    rw [List.map_map]
    apply List.map_congr_left
    intro row hrow
    exact (h.rows row hrow).id_eq
  have hnodup := h.nodup_id
  rw [hids] at hnodup
  exact hnodup.of_map

/-- A row that is neither pending nor running stays as it is, but for the `enqueue`
that revives a cancelled one. -/
theorem StepEffect.mem_of_inactive (heffect : StepEffect digest leaseSeconds s call t)
    (hrow : row ∈ s.queue.jobs)
    (hinactive : ¬ (row.status.pending ∨ row.status = .running)) :
    row ∈ t.queue.jobs ∨ row.status = .cancelled ∧
      ∃ input clock, call = .enqueue input clock ∧ hasKey input row ∧
        SqliteJobQueue.revive (enqueuedRow digest input (clock.nth 0)) row ∈ t.queue.jobs := by
  obtain ⟨change, added, hchange, -, hjobs⟩ := heffect.jobs
  have hmem : change row ∈ t.queue.jobs := by
    rw [hjobs]
    exact List.mem_append_left _ (List.mem_map_of_mem hrow)
  have hc := hchange row hrow
  generalize change row = new at hc hmem
  cases hc with
  | keep => exact .inl hmem
  | release hactive _ => exact absurd hactive hinactive
  | relet hactive _ _ => exact absurd hactive hinactive
  | revive hcall hkey hcancelled => exact .inr ⟨hcancelled, _, _, hcall, hkey, hmem⟩

/-- A final row stays in the table as it is. -/
theorem StepEffect.mem_of_final (heffect : StepEffect digest leaseSeconds s call t)
    (hrow : row ∈ s.queue.jobs) (hfinal : row.status.final) : row ∈ t.queue.jobs := by
  have hinactive : ¬ (row.status.pending ∨ row.status = .running) := by
    rintro (hpending | hrunning)
    · cases hstatus : row.status <;> simp_all [JobStatus.final, JobStatus.pending]
    · rw [hrunning] at hfinal
      cases hfinal
  rcases heffect.mem_of_inactive hrow hinactive with hmem | ⟨hcancelled, -⟩
  · exact hmem
  · rw [hcancelled] at hfinal
    cases hfinal

/-- A cancelled row stays as it is, but for an `enqueue` of its key. -/
theorem StepEffect.mem_of_cancelled (heffect : StepEffect digest leaseSeconds s call t)
    (hrow : row ∈ s.queue.jobs) (hcancelled : row.status = .cancelled) :
    row ∈ t.queue.jobs ∨ ∃ input clock, call = .enqueue input clock ∧ hasKey input row ∧
      SqliteJobQueue.revive (enqueuedRow digest input (clock.nth 0)) row ∈ t.queue.jobs := by
  have hinactive : ¬ (row.status.pending ∨ row.status = .running) := by
    rw [hcancelled]
    rintro (habsurd | habsurd) <;> cases habsurd
  exact (heffect.mem_of_inactive hrow hinactive).imp_right And.right

/-- An `enqueue` of a key that has a job which is not cancelled changes nothing. -/
theorem Inv.enqueue_live (h : Inv digest leaseSeconds s) {input : EnqueueJob}
    {clock : Readings} (hs : s.step digest leaseSeconds (.enqueue input clock) = some t)
    (hrow : row ∈ s.queue.jobs) (hkey : hasKey input row) (hlive : row.status ≠ .cancelled) :
    t.queue = s.queue := by
  obtain ⟨-, rfl | ⟨queue, job, henq, rfl⟩⟩ := QueueRun.step_enqueue hs
  · rfl
  · obtain ⟨jobs, hu, rfl, -⟩ := enqueue_ok henq
    rcases upsertJob_ok hu with ⟨-, rfl⟩ | ⟨hnew, -⟩
    · dsimp only
      rw [h.upsert_live hrow hkey hlive]
    · have hid := (h.hasKey_iff_id hrow hkey hrow).mp hkey
      exact absurd hid (hnew row hrow)

/-- **The life of a job.**  In every state that a run reaches each key has at most
one job and every row is well formed; from there on a `succeeded` or `dead_letter`
row never changes; and the next call leaves a cancelled row as it is unless it is an
`enqueue` of its key, which resets the job, while an `enqueue` on any other job that
exists changes nothing. -/
theorem job_lifecycle (h : Reached digest leaseSeconds s) :
    (s.queue.jobs.map JobRow.key).Nodup ∧
    (∀ row ∈ s.queue.jobs, WellFormed s row) ∧
    (∀ row ∈ s.queue.jobs, row.status.final →
      ∀ u, Transition.Later (step digest leaseSeconds) s u → row ∈ u.queue.jobs) ∧
    ∀ call t, s.step digest leaseSeconds call = some t →
      (∀ row ∈ s.queue.jobs, row.status = .cancelled →
        row ∈ t.queue.jobs ∨ ∃ input clock, call = .enqueue input clock ∧ hasKey input row ∧
          SqliteJobQueue.revive (enqueuedRow digest input (clock.nth 0)) row ∈ t.queue.jobs) ∧
      ∀ input clock, call = .enqueue input clock → ∀ row ∈ s.queue.jobs, hasKey input row →
        row.status ≠ .cancelled → t.queue = s.queue := by
  have hinv : Inv digest leaseSeconds s := h.inv
  refine ⟨hinv.nodup_key, fun row hrow => (hinv.rows row hrow).wellFormed, ?_, ?_⟩
  · intro row hrow hfinal u hu
    refine Transition.Later.keep (P := fun s => row ∈ s.queue.jobs) ?_ h hu hrow
    intro a call b ha hmem hab
    exact ((Reached.inv ha).stepEffect hab).mem_of_final hmem hfinal
  · intro call t hs
    constructor
    · intro row hrow hcancelled
      exact (hinv.stepEffect hs).mem_of_cancelled hrow hcancelled
    · rintro input clock rfl row hrow hkey hlive
      exact hinv.enqueue_live hs hrow hkey hlive

/-- A job that ran out of attempts. -/
def exhausted : List QueueCall :=
  [.enqueue ⟨"t1", "demo", "k", .obj [], none, some 1, none⟩ ⟨1000, []⟩,
    .leaseNext "w1" (some "job_t1:demo:k") ⟨2000, []⟩,
    .leaseNext "w2" none ⟨62001, []⟩]

/-- The dead letter of `exhausted` stays in the table for good. -/
theorem job_lifecycle_exhausted :
    ∃ s, Transition.exec (step id 60) QueueRun.empty exhausted = some s ∧
      s.queue.jobs.map JobRow.status = [.deadLetter] ∧
      ∀ row ∈ s.queue.jobs, row.status.final →
        ∀ u, Transition.Later (step id 60) s u → row ∈ u.queue.jobs := by
  obtain ⟨s, hs⟩ : ∃ s, Transition.exec (step id 60) QueueRun.empty exhausted = some s :=
    ⟨_, rfl⟩
  have hreached : Reached id 60 s := Transition.Reachable.of_exec (.start rfl) hs
  refine ⟨s, hs, ?_, (job_lifecycle hreached).2.2.1⟩
  cases hs
  decide

end QueueRun

end RecruitingOs
