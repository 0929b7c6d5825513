import RecruitingOs.Queue.Sqlite

/-!
# Which jobs an operation leaves pending

A pending job is one that a worker may still take.  For each operation of the queue:
where a pending row of the table it leaves comes from.  Only `enqueue` and a `fail`
before the last attempt put a job among the pending ones; `cancelPending` takes out all
that match.
-/

namespace RecruitingOs

namespace SqliteJobQueue

variable {digest : String → String} {q q' : Queue} {clock : Readings} {row : JobRow}

/-- A statement after which the rows it changes are not pending leaves pending only what
was. -/
theorem mem_of_pending_updateWhere {p : JobRow → Bool} {f : JobRow → JobRow}
    {jobs : List JobRow} (hf : ∀ old ∈ jobs, p old → (f old).status.pending = false)
    (hrow : row ∈ Table.updateWhere p f jobs) (hpending : row.status.pending) :
    row ∈ jobs ∧ p row = false := by
  obtain ⟨old, hold, rfl⟩ := Table.mem_updateWhere.mp hrow
  by_cases hp : p old
  · rw [if_pos hp, hf old hold hp] at hpending
    cases hpending
  · rw [if_neg hp]
    exact ⟨hold, Bool.eq_false_iff.mpr hp⟩

theorem pending_cancelIds : ∀ {ids : List String} {i : ℕ} {jobs : List JobRow},
    row ∈ (cancelIds clock i ids jobs).1 → row.status.pending → row ∈ jobs ∧ row.id ∉ ids := by
  intro ids
  induction ids with
  | nil => intro i jobs hrow _; exact ⟨hrow, List.not_mem_nil⟩
  | cons id ids ih =>
      intro i jobs hrow hpending
      obtain ⟨hmem, hids⟩ := ih hrow hpending
      obtain ⟨hjobs, hother⟩ := mem_of_pending_updateWhere (fun _ _ _ => rfl) hmem hpending
      refine ⟨hjobs, fun hin => ?_⟩
      rcases List.mem_cons.mp hin with hid | hin
      · exact of_decide_eq_false hother ⟨hid, hpending⟩
      · exact hids hin

/-- After a `cancelPending` no job is pending that it was to cancel. -/
theorem pending_cancelPending {input : CancelPendingJobs}
    (hrow : row ∈ (cancelPending q input clock).1.jobs) (hpending : row.status.pending) :
    row ∈ q.jobs ∧ isCancelCandidate input row = false := by
  obtain ⟨hjobs, hids⟩ := pending_cancelIds hrow hpending
  refine ⟨hjobs, Bool.eq_false_iff.mpr fun hcandidate => hids ?_⟩
  exact List.mem_map_of_mem (List.mem_filter.mpr ⟨hjobs, hcandidate⟩)

/-- A job that an `enqueue` makes pending has its tenant, type and payload. -/
theorem pending_enqueue {input : EnqueueJob} {job : Job}
    (h : enqueue digest q input clock = .ok (q', job)) (hrow : row ∈ q'.jobs) :
    row ∈ q.jobs ∨ row.tenantId = input.tenantId ∧ row.type = input.type ∧
      row.payload = input.payload := by
  obtain ⟨jobs, hupsert, rfl, -⟩ := enqueue_ok h
  rcases upsertJob_ok hupsert with ⟨-, rfl⟩ | ⟨-, rfl⟩
  · obtain ⟨old, hold, rfl⟩ := Table.mem_updateWhere.mp hrow
    split
    · rename_i hrevived
      obtain ⟨hkey, -⟩ := of_decide_eq_true hrevived
      obtain ⟨htenant, htype, -⟩ := hasKey_iff.mp hkey
      exact .inr ⟨htenant, htype, rfl⟩
    · exact .inl hold
  · rcases List.mem_append.mp hrow with hold | hnew
    · exact .inl hold
    · rw [List.mem_singleton.mp hnew]
      exact .inr ⟨rfl, rfl, rfl⟩

theorem pending_leaseNext {workerId : String} {leaseSeconds : ℤ} {pick : Option String}
    {out : Option Job} (h : leaseNext q workerId leaseSeconds pick clock = some (q', out))
    (hrow : row ∈ q'.jobs) (hpending : row.status.pending) : row ∈ q.jobs := by
  have hsweep : row ∈ sweep clock q.jobs → row ∈ q.jobs := fun hmem =>
    (mem_of_pending_updateWhere (fun _ _ _ => rfl) hmem hpending).1
  rcases leaseNext_some h with ⟨-, -, -, rfl⟩ | ⟨picked, -, -, -, -, hjobs, -⟩
  · exact hsweep hrow
  · rw [hjobs] at hrow
    exact hsweep (mem_of_pending_updateWhere (fun _ _ _ => rfl) hrow hpending).1

/-- A renewal changes running jobs only. -/
theorem pending_renewLease {job : Job} {leaseSeconds : ℤ}
    (hrow : row ∈ (renewLease q job leaseSeconds clock).1.jobs) (hpending : row.status.pending) :
    row ∈ q.jobs := by
  cases hrenew : renewLease q job leaseSeconds clock with
  | mk after out =>
      rw [hrenew] at hrow
      cases out with
      | none =>
          unfold renewLease at hrenew
          split at hrenew
          · dsimp only at hrenew
            split at hrenew <;> cases hrenew
            exact hrow
          · cases hrenew
            exact hrow
      | some renewed =>
          obtain ⟨leasedBy, leasedUntil, -, -, -, -, rfl⟩ := renewLease_some hrenew
          refine (mem_of_pending_updateWhere (fun old _ hheld => ?_) hrow hpending).1
          show old.status.pending = false
          rw [(holdsLease_iff.mp hheld).2.1]
          rfl

theorem pending_complete {job : Job} (h : complete q job clock = .ok q') (hrow : row ∈ q'.jobs)
    (hpending : row.status.pending) : row ∈ q.jobs := by
  obtain ⟨leasedBy, leasedUntil, -, -, -, rfl⟩ := complete_ok h
  exact (mem_of_pending_updateWhere (fun _ _ _ => rfl) hrow hpending).1

/-- A job that a `fail` makes pending is the running one of the handle, which has
attempts left. -/
theorem pending_fail {job : Job} {message : String} (h : fail q job message clock = .ok q')
    (hrow : row ∈ q'.jobs) : row ∈ q.jobs ∨ ∃ leasedBy leasedUntil, ∃ old ∈ q.jobs,
      job.leasedBy = some leasedBy ∧ job.leasedUntil = some leasedUntil ∧
      holdsLease job.id leasedBy leasedUntil (clock.nth 3) old ∧
      row = failRow (job.maxAttempts ≤ job.attemptCount) message
        (clock.nth 0 + retryDelay job.attemptCount * 1000) (clock.nth 1) (clock.nth 2) old := by
  obtain ⟨leasedBy, leasedUntil, hby, huntil, -, rfl⟩ := fail_ok h
  obtain ⟨old, hold, rfl⟩ := Table.mem_updateWhere.mp hrow
  split
  · rename_i hheld
    exact .inr ⟨leasedBy, leasedUntil, old, hold, hby, huntil, hheld, rfl⟩
  · exact .inl hold

end SqliteJobQueue

end RecruitingOs
