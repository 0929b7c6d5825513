import RecruitingOs.Queue.Invariant

/-!
# What one call does to the rows

`StepEffect` says all that a call of a run can do to the table: each row that is
there stays in place and changes in one of the four ways of `RowChange`, the clock
of the jobs that the call is on moves forward, and an `enqueue` may append a job
under a new id.  `Inv.stepEffect` establishes it call by call; the results about
fencing and about the life of a job read it and never look at a call again.
-/

namespace RecruitingOs

/-- The clock readings of a call. -/
def QueueCall.clock : QueueCall → Readings
  | .enqueue _ clock | .cancelPending _ clock | .leaseNext _ _ clock | .renewLease _ clock
  | .complete _ clock | .fail _ _ clock => clock

namespace QueueRun

open SqliteJobQueue

variable {digest : String → String} {leaseSeconds : ℤ} {s t : QueueRun} {call : QueueCall}

/-- The jobs that a call is on. -/
def targets (digest : String → String) (s : QueueRun) : QueueCall → List String
  | .enqueue input _ => [jobId digest input.tenantId input.type input.idempotencyKey]
  | .cancelPending input _ => s.cancelTargets input
  | .leaseNext _ pick clock => s.leaseTargets pick clock
  | .renewLease job _ | .complete job _ | .fail job _ _ => [job.id]

/-- What a call does to a row of the table. -/
inductive RowChange (digest : String → String) (leaseSeconds : ℤ) (ids : List String)
    (call : QueueCall) (row : JobRow) : JobRow → Prop
  | keep : RowChange digest leaseSeconds ids call row row
  | release {new : JobRow} (active : row.status.pending ∨ row.status = .running)
      (h : Released row new) : RowChange digest leaseSeconds ids call row new
  | relet {new : JobRow} (active : row.status.pending ∨ row.status = .running)
      (hid : row.id ∈ ids) (h : Relet leaseSeconds call.clock row new) :
      RowChange digest leaseSeconds ids call row new
  | revive {input : EnqueueJob} {clock : Readings} (hcall : call = .enqueue input clock)
      (hkey : hasKey input row) (hcancelled : row.status = .cancelled) :
      RowChange digest leaseSeconds ids call row
        (SqliteJobQueue.revive (enqueuedRow digest input (clock.nth 0)) row)

/-- The rows that an `enqueue` adds: none, or one under a new id. -/
def Added (digest : String → String) (s : QueueRun) (call : QueueCall)
    (added : List JobRow) : Prop :=
  added = [] ∨ ∃ input clock, call = .enqueue input clock ∧
    (∀ row ∈ s.queue.jobs, row.id ≠ (enqueuedRow digest input (clock.nth 0)).id) ∧
    added = [enqueuedRow digest input (clock.nth 0)]

/-- All that a call can do. -/
structure StepEffect (digest : String → String) (leaseSeconds : ℤ) (s : QueueRun)
    (call : QueueCall) (t : QueueRun) : Prop where
  advances : s.advances (s.targets digest call) call.clock
  lastCall : t.lastCall = (s.touch (s.targets digest call) call.clock).lastCall
  issued : ∀ job ∈ s.issued, job ∈ t.issued
  jobs : ∃ change added,
    (∀ row ∈ s.queue.jobs,
      RowChange digest leaseSeconds (s.targets digest call) call row (change row)) ∧
    Added digest s call added ∧ t.queue.jobs = s.queue.jobs.map change ++ added

/-- A row changed by a statement of one of the four kinds, and left alone elsewhere. -/
theorem RowChange.ite {ids : List String} {row new : JobRow} {p : Prop} [Decidable p]
    (h : p → RowChange digest leaseSeconds ids call row new) :
    RowChange digest leaseSeconds ids call row (if p then new else row) := by
  by_cases hp : p
  · rw [if_pos hp]
    exact h hp
  · rw [if_neg hp]
    exact .keep

/-- The effect of a call whose statement updates rows and adds none. -/
theorem StepEffect.of_map {change : JobRow → JobRow}
    (adv : s.advances (s.targets digest call) call.clock)
    (hlast : t.lastCall = (s.touch (s.targets digest call) call.clock).lastCall)
    (hissued : ∀ job ∈ s.issued, job ∈ t.issued)
    (hchange : ∀ row ∈ s.queue.jobs,
      RowChange digest leaseSeconds (s.targets digest call) call row (change row))
    (hjobs : t.queue.jobs = s.queue.jobs.map change) :
    StepEffect digest leaseSeconds s call t where
  advances := adv
  lastCall := hlast
  issued := hissued
  jobs := ⟨change, [], hchange, .inl rfl, by rw [hjobs, List.append_nil]⟩

/-- The effect of a call that leaves the table as it is. -/
theorem StepEffect.of_unchanged (adv : s.advances (s.targets digest call) call.clock)
    (hlast : t.lastCall = (s.touch (s.targets digest call) call.clock).lastCall)
    (hissued : ∀ job ∈ s.issued, job ∈ t.issued) (hjobs : t.queue.jobs = s.queue.jobs) :
    StepEffect digest leaseSeconds s call t :=
  .of_map adv hlast hissued (fun _ _ => .keep) (hjobs.trans (List.map_id _).symm)

/-! ### The six calls -/

/-- The loop of `cancelPending` releases pending rows and leaves the others alone. -/
theorem cancelIds_change (clock : Readings) :
    ∀ (ids : List String) (rows : List JobRow) (i : ℕ), ∃ change : JobRow → JobRow,
      (SqliteJobQueue.cancelIds clock i ids rows).1 = rows.map change ∧
      ∀ row, change row = row ∨ (row.status.pending ∧ Released row (change row)) := by
  intro ids rows i
  obtain ⟨change, hmap, hchange⟩ := cancelIds_map clock ids rows i
  refine ⟨change, hmap, fun row => ?_⟩
  rcases hchange row with hsame | ⟨hpending, redactedAt, now, hcancel⟩
  · exact .inl hsame
  · exact .inr ⟨hpending, hcancel ▸ released_cancelRow row⟩

theorem enqueueEffect {input : EnqueueJob} {clock : Readings}
    (hs : s.step digest leaseSeconds (.enqueue input clock) = some t) :
    StepEffect digest leaseSeconds s (.enqueue input clock) t := by
  obtain ⟨⟨adv, -⟩, rfl | ⟨queue, job, henq, rfl⟩⟩ := QueueRun.step_enqueue hs
  · exact .of_unchanged adv rfl (fun _ hj => hj) rfl
  · obtain ⟨jobs, hu, rfl, -⟩ := enqueue_ok henq
    have hissued : ∀ old ∈ s.issued, old ∈ job :: s.issued :=
      fun _ hold => List.mem_cons_of_mem _ hold
    rcases upsertJob_ok hu with ⟨-, rfl⟩ | ⟨hnew, rfl⟩
    · refine .of_map adv rfl hissued ?_ rfl
      intro row _
      refine .ite fun hp => ?_
      obtain ⟨hkey, hcancelled⟩ := of_decide_eq_true hp
      exact .revive rfl hkey hcancelled
    · exact
        { advances := adv
          lastCall := rfl
          issued := hissued
          jobs := ⟨id, [enqueuedRow digest input (clock.nth 0)], fun _ _ => .keep,
            .inr ⟨input, clock, rfl, hnew, rfl⟩, by rw [List.map_id]⟩ }

theorem cancelPendingEffect {input : CancelPendingJobs} {clock : Readings}
    (hs : s.step digest leaseSeconds (.cancelPending input clock) = some t) :
    StepEffect digest leaseSeconds s (.cancelPending input clock) t := by
  obtain ⟨adv, rfl⟩ := QueueRun.step_cancelPending hs
  obtain ⟨change, hmap, hchange⟩ := cancelIds_change clock
    ((s.queue.jobs.filter (isCancelCandidate input)).map JobRow.id) s.queue.jobs 0
  refine .of_map adv rfl (fun _ hj => hj) ?_ hmap
  intro row _
  rcases hchange row with hsame | ⟨hpending, hreleased⟩
  · rw [hsame]
    exact .keep
  · exact .release (.inl hpending) hreleased

/-- The sweep of `leaseNext` as a change of each row. -/
theorem sweep_change {ids : List String} {clock : Readings} (row : JobRow) :
    RowChange digest leaseSeconds ids call row
      (if isExhausted (clock.nth 2) row then exhaustRow (clock.nth 0) (clock.nth 1) row
        else row) :=
  .ite fun hp => .release (.inr (of_decide_eq_true hp).1) (released_exhaustRow row)

theorem JobRow.active_of_eligible {row : JobRow} {a b c : ℤ} (h : row.eligible a b c) :
    row.status.pending ∨ row.status = .running := by
  rcases of_decide_eq_true h with ⟨hpending, -⟩ | ⟨hrunning, -⟩
  · exact .inl hpending
  · exact .inr hrunning

/-- The sweep leaves an active row alone. -/
theorem Inv.eq_of_mem_sweep (h : Inv digest leaseSeconds s) {clock : Readings}
    {picked row : JobRow} (hpicked : picked ∈ SqliteJobQueue.sweep clock s.queue.jobs)
    (hactive : picked.status.pending ∨ picked.status = .running)
    (hrow : row ∈ s.queue.jobs) (hid : row.id = picked.id) :
    row = picked ∧ ¬ isExhausted (clock.nth 2) row := by
  have hnodup := (h.sweep clock).nodup_id
  have hmem : (if isExhausted (clock.nth 2) row then
      exhaustRow (clock.nth 0) (clock.nth 1) row else row) ∈
      SqliteJobQueue.sweep clock s.queue.jobs := List.mem_map_of_mem hrow
  by_cases hp : isExhausted (clock.nth 2) row
  · -- a swept row is a dead letter
    rw [if_pos hp] at hmem
    have hsame : exhaustRow (clock.nth 0) (clock.nth 1) row = picked :=
      Table.eq_of_key_eq hnodup hmem hpicked hid
    rw [← hsame] at hactive
    rcases hactive with habsurd | habsurd <;> cases habsurd
  · rw [if_neg hp] at hmem
    exact ⟨Table.eq_of_key_eq hnodup hmem hpicked hid, hp⟩

theorem Inv.leaseNextEffect (h : Inv digest leaseSeconds s) {workerId : String}
    {pick : Option String} {clock : Readings}
    (hs : s.step digest leaseSeconds (.leaseNext workerId pick clock) = some t) :
    StepEffect digest leaseSeconds s (.leaseNext workerId pick clock) t := by
  obtain ⟨adv, ⟨queue, hlease, rfl⟩ | ⟨queue, job, hlease, rfl⟩⟩ := QueueRun.step_leaseNext hs
  · rcases leaseNext_some hlease with ⟨-, -, -, rfl⟩ | ⟨row, -, -, -, hout, -⟩
    · exact .of_map adv rfl (fun _ hj => hj) (fun row _ => sweep_change row) rfl
    · cases hout
  · rcases leaseNext_some hlease with ⟨-, hout, -⟩ | ⟨picked, hpicked, hpick, hnext, -, hjobs, -⟩
    · cases hout
    · have hready : picked ∈ candidates clock (SqliteJobQueue.sweep clock s.queue.jobs) :=
        (of_decide_eq_true hnext).1
      have hactive := JobRow.active_of_eligible (List.mem_filter.mp hready).2
      have hlt := (h.sweep clock).attempt_left hpicked hnext
      rw [SqliteJobQueue.sweep, Table.updateWhere, Table.updateWhere, List.map_map] at hjobs
      refine .of_map adv rfl (fun _ hj => List.mem_cons_of_mem _ hj) ?_ hjobs
      intro row hrow
      by_cases hid : row.id = picked.id
      · obtain ⟨rfl, hp⟩ := h.eq_of_mem_sweep hpicked hactive hrow hid
        have hchange : ((fun r => if decide (r.id = row.id) then
            leaseRow workerId (clock.nth 6 + leaseSeconds * 1000) (clock.nth 7) r else r) ∘
            fun r => if isExhausted (clock.nth 2) r then
              exhaustRow (clock.nth 0) (clock.nth 1) r else r) row =
            leaseRow workerId (clock.nth 6 + leaseSeconds * 1000) (clock.nth 7) row := by
          simp [hp]
        rw [hchange]
        refine .relet hactive ?_
          { id := rfl, tenantId := rfl, type := rfl, idempotencyKey := rfl, status := rfl,
            leasedBy := rfl, attempts_pos := Nat.succ_pos _, attempts_le := hlt,
            token := ⟨6, rfl⟩ }
        simp [QueueRun.targets, QueueRun.leaseTargets, hpick]
      · have hchange : ((fun r => if decide (r.id = picked.id) then
            leaseRow workerId (clock.nth 6 + leaseSeconds * 1000) (clock.nth 7) r else r) ∘
            fun r => if isExhausted (clock.nth 2) r then
              exhaustRow (clock.nth 0) (clock.nth 1) r else r) row =
            if isExhausted (clock.nth 2) row then
              exhaustRow (clock.nth 0) (clock.nth 1) row else row := by
          by_cases hp : isExhausted (clock.nth 2) row
          · simp [hp, exhaustRow, hid]
          · simp [hp, hid]
        rw [hchange]
        exact sweep_change row

theorem Inv.renewLeaseEffect (h : Inv digest leaseSeconds s) {job : Job} {clock : Readings}
    (hs : s.step digest leaseSeconds (.renewLease job clock) = some t) :
    StepEffect digest leaseSeconds s (.renewLease job clock) t := by
  obtain ⟨⟨-, adv⟩, ⟨-, rfl⟩ | ⟨queue, renewed, hrenew, rfl⟩⟩ := QueueRun.step_renewLease hs
  · exact .of_unchanged adv rfl (fun _ hj => hj) rfl
  · obtain ⟨leasedBy, leasedUntil, -, -, -, -, rfl⟩ := renewLease_some hrenew
    refine .of_map adv rfl (fun _ hj => List.mem_cons_of_mem _ hj) ?_ rfl
    intro row hrow
    refine .ite fun hheld => ?_
    obtain ⟨hid, hstatus, hby, -, -⟩ := holdsLease_iff.mp hheld
    refine .relet (.inr hstatus) (by simp [QueueRun.targets, hid]) ?_
    exact
      { id := rfl
        tenantId := rfl
        type := rfl
        idempotencyKey := rfl
        status := hstatus
        leasedBy := by simp [renewRow, hby]
        attempts_pos := (h.rows row hrow).attempts_pos hstatus
        attempts_le := (h.rows row hrow).attempts_le
        token := ⟨0, rfl⟩ }

/-- The effect of a call that settles a lease: the held row is released, or nothing
happens. -/
theorem settleEffect {job : Job} {clock : Readings} {result : Except QueueError Queue}
    (hcall : call.clock = clock) (htargets : s.targets digest call = [job.id])
    (hs : s.settleWith job clock result = some t)
    (hok : ∀ queue, job ∈ s.issued → result = .ok queue → ∃ p f,
      queue.jobs = Table.updateWhere p f s.queue.jobs ∧
      ∀ row ∈ s.queue.jobs, p row → row.status = .running ∧ Released row (f row)) :
    StepEffect digest leaseSeconds s call t := by
  obtain ⟨⟨hjob, hadv⟩, hout⟩ := QueueRun.settleWith_some hs
  have adv : s.advances (s.targets digest call) call.clock := by
    rw [hcall, htargets]
    exact hadv
  have hlast : (s.touch [job.id] clock).lastCall =
      (s.touch (s.targets digest call) call.clock).lastCall := by rw [hcall, htargets]
  rcases hout with ⟨-, rfl⟩ | ⟨queue, hresult, rfl⟩
  · exact .of_unchanged adv hlast (fun _ hj => hj) rfl
  · obtain ⟨p, f, hjobs, hf⟩ := hok queue hjob hresult
    refine .of_map adv hlast (fun _ hj => hj) ?_ hjobs
    intro row hrow
    refine .ite fun hp => ?_
    obtain ⟨hstatus, hreleased⟩ := hf row hrow hp
    exact .release (.inr hstatus) hreleased

/-- **The effect of a call** of a run. -/
theorem Inv.stepEffect (h : Inv digest leaseSeconds s)
    (hs : s.step digest leaseSeconds call = some t) :
    StepEffect digest leaseSeconds s call t := by
  cases call with
  | enqueue input clock => exact enqueueEffect hs
  | cancelPending input clock => exact cancelPendingEffect hs
  | leaseNext workerId pick clock => exact h.leaseNextEffect hs
  | renewLease job clock => exact h.renewLeaseEffect hs
  | complete job clock =>
      refine settleEffect rfl rfl hs ?_
      intro queue _ hok
      obtain ⟨leasedBy, leasedUntil, -, -, -, rfl⟩ := complete_ok hok
      refine ⟨_, _, rfl, fun row _ hheld => ⟨(holdsLease_iff.mp hheld).2.1, ?_⟩⟩
      exact released_succeedRow row
  | fail job message clock =>
      refine settleEffect rfl rfl hs ?_
      intro queue hjob hok
      obtain ⟨leasedBy, leasedUntil, -, huntil, -, rfl⟩ := fail_ok hok
      refine ⟨_, _, rfl, fun row hrow hheld => ⟨(holdsLease_iff.mp hheld).2.1, ?_⟩⟩
      refine released_failRow row fun hterminal => ?_
      rw [h.held_eq hjob huntil hrow hheld] at hterminal
      exact Nat.lt_of_not_le (of_decide_eq_false hterminal)

end QueueRun

end RecruitingOs
