import RecruitingOs.Queue.Steps
import RecruitingOs.Queue.Upsert

/-!
# Jobs that wait for their time

A job that is enqueued for later is not leased before, and what is not leased is not settled.
`JobRow.Waits start now` says so of a row by the clock `now`: the job is not available before
`start`, and as long as the clock has not reached `start`, it is queued or cancelled.

`Follows` is what a call does to a row that it finds; it keeps the waiting of every `start`,
by the clock when the call returns.
-/

namespace RecruitingOs

/-- The job waits for `start`. -/
structure JobRow.Waits (start now : ℤ) (row : JobRow) : Prop where
  available : start ≤ row.availableAt
  idle : now < start → row.status = .queued ∨ row.status = .cancelled

theorem JobRow.Waits.mono {start now now' : ℤ} {row : JobRow} (h : row.Waits start now)
    (hle : now ≤ now') : row.Waits start now' :=
  ⟨h.available, fun hearly => h.idle (lt_of_le_of_lt hle hearly)⟩

/-- The clock has reached the start of a job that is neither queued nor cancelled. -/
theorem JobRow.Waits.reached {start now : ℤ} {row : JobRow} (h : row.Waits start now)
    (hqueued : row.status ≠ .queued) (hcancelled : row.status ≠ .cancelled) : start ≤ now := by
  by_contra hearly
  rcases h.idle (not_le.mp hearly) with hstatus | hstatus
  · exact hqueued hstatus
  · exact hcancelled hstatus

/-- A row and what a call leaves of it, which begins after `now` and returns at `now'`. -/
structure Follows (now now' : ℤ) (row new : JobRow) : Prop where
  fixed : new.fixed = row.fixed
  payload : row.type ≠ "ingest.screenshot" → new.payload = row.payload
  waits : ∀ start, row.Waits start now → new.Waits start now'

namespace Follows

variable {now mid now' : ℤ} {row new : JobRow}

theorem refl (hle : now ≤ now') (row : JobRow) : Follows now now' row row :=
  ⟨rfl, fun _ => rfl, fun _ h => h.mono hle⟩

theorem trans {next : JobRow} (h : Follows now mid row next) (h' : Follows mid now' next new) :
    Follows now now' row new where
  fixed := h'.fixed.trans h.fixed
  payload htype := by
    have hkey : next.type = row.type := congrArg (fun columns => columns.2.1.2.1) h.fixed
    rw [h'.payload (hkey ▸ htype), h.payload htype]
  waits start hwaits := h'.waits start (h.waits start hwaits)

/-- A running job that is settled, renewed or put back. -/
theorem of_running (hrunning : row.status = .running) (hle : now ≤ now')
    (hfixed : new.fixed = row.fixed)
    (hpayload : row.type ≠ "ingest.screenshot" → new.payload = row.payload)
    (havailable : new.availableAt = row.availableAt ∨ now ≤ new.availableAt) :
    Follows now now' row new where
  fixed := hfixed
  payload := hpayload
  waits start hwaits := by
    have hreached : start ≤ now :=
      hwaits.reached (by rw [hrunning]; decide) (by rw [hrunning]; decide)
    refine ⟨?_, fun hearly => absurd hearly (by omega)⟩
    rcases havailable with hsame | hlater
    · exact hsame ▸ hwaits.available
    · exact hreached.trans hlater

end Follows

/-- A row that an `enqueue` inserts or revives. -/
structure Enqueued (input : EnqueueJob) (clock : Readings) (row : JobRow) : Prop where
  key : SqliteJobQueue.hasKey input row
  payload : row.payload = input.payload
  queued : row.status = .queued
  available : row.availableAt = input.availableAt.getD (clock.nth 0)

namespace SqliteJobQueue

variable {digest : String → String} {q q' : Queue} {clock : Readings} {now : ℤ} {new : JobRow}

theorem enqueue_follows {input : EnqueueJob} (hnow : now ≤ clock.start)
    (hnew : new ∈ (settled q ((enqueue digest q input clock).map Prod.fst)).jobs) :
    (∃ row ∈ q.jobs, Follows now clock.finish row new) ∨ Enqueued input clock new := by
  have hle : now ≤ clock.finish := hnow.trans clock.start_le_finish
  cases henq : enqueue digest q input clock with
  | error e =>
      rw [henq] at hnew
      exact .inl ⟨new, hnew, .refl hle new⟩
  | ok out =>
      rw [henq] at hnew
      obtain ⟨jobs, hupsert, hout, -⟩ := enqueue_ok henq
      have hmem : new ∈ out.1.jobs := hnew
      rw [hout] at hmem
      rcases upsertJob_ok hupsert with ⟨-, rfl⟩ | ⟨-, rfl⟩
      · obtain ⟨row, hrow, rfl⟩ := Table.mem_updateWhere.mp hmem
        split
        · rename_i hrevived
          exact .inr ⟨(of_decide_eq_true hrevived).1, rfl, rfl, rfl⟩
        · exact .inl ⟨row, hrow, .refl hle row⟩
      · rcases List.mem_append.mp hmem with hold | hlast
        · exact .inl ⟨new, hold, .refl hle new⟩
        · rw [List.mem_singleton.mp hlast]
          refine .inr ⟨?_, rfl, rfl, rfl⟩
          exact hasKey_iff.mpr ⟨rfl, rfl, rfl⟩

theorem cancelPending_follows {input : CancelPendingJobs} (hnow : now ≤ clock.start)
    (hnew : new ∈ (cancelPending q input clock).1.jobs) :
    ∃ row ∈ q.jobs, Follows now clock.finish row new := by
  have hle : now ≤ clock.finish := hnow.trans clock.start_le_finish
  obtain ⟨change, hmap, hchange⟩ :=
    cancelIds_map clock ((q.jobs.filter (isCancelCandidate input)).map JobRow.id) q.jobs 0
  have hmem : new ∈ (cancelIds clock 0 _ q.jobs).1 := hnew
  rw [hmap] at hmem
  obtain ⟨row, hrow, rfl⟩ := List.mem_map.mp hmem
  refine ⟨row, hrow, ?_⟩
  rcases hchange row with hsame | ⟨-, redactedAt, _, hcancel⟩
  · rw [hsame]
    exact .refl hle row
  · rw [hcancel]
    refine ⟨rfl, fun htype => JobRow.redactScreenshot_other htype redactedAt, fun start hwaits => ?_⟩
    exact ⟨hwaits.available, fun _ => .inr rfl⟩

/-- The sweep settles running jobs only. -/
theorem sweep_follows (hnow : now ≤ clock.start) (hnew : new ∈ sweep clock q.jobs) :
    ∃ row ∈ q.jobs, Follows now clock.start row new := by
  obtain ⟨row, hrow, rfl⟩ := Table.mem_updateWhere.mp hnew
  refine ⟨row, hrow, ?_⟩
  split
  · rename_i hexhausted
    exact .of_running (of_decide_eq_true hexhausted).1 hnow rfl
      (fun htype => JobRow.redactScreenshot_other htype _) (.inl rfl)
  · exact .refl hnow row

/-- A job that is leased has been available, or it was running before. -/
theorem leaseRow_follows {row : JobRow} {workerId : String} {leasedUntil updatedAt : ℤ}
    (hready : row.eligible (clock.nth 3) (clock.nth 4) (clock.nth 5)) :
    Follows clock.start clock.finish row (leaseRow workerId leasedUntil updatedAt row) := by
  rcases of_decide_eq_true hready with ⟨-, havailable, -⟩ | ⟨hrunning, -⟩
  · refine ⟨rfl, fun _ => rfl, fun start hwaits => ⟨hwaits.available, fun hearly => ?_⟩⟩
    have hreached := hwaits.available.trans (havailable.trans (clock.nth_le_finish 3))
    exact absurd hreached (not_le.mpr hearly)
  · exact .of_running hrunning clock.start_le_finish rfl (fun _ => rfl) (.inl rfl)

theorem leaseNext_follows {workerId : String} {leaseSeconds : ℤ} {pick : Option String}
    {out : Option Job} (h : leaseNext q workerId leaseSeconds pick clock = some (q', out))
    (hnodup : (q.jobs.map JobRow.id).Nodup) (hnow : now ≤ clock.start) (hnew : new ∈ q'.jobs) :
    ∃ row ∈ q.jobs, Follows now clock.finish row new := by
  have hswept : ∀ next ∈ sweep clock q.jobs, Follows clock.start clock.finish next new →
      ∃ row ∈ q.jobs, Follows now clock.finish row new := by
    intro next hnext hfollows
    obtain ⟨row, hrow, hsweep⟩ := sweep_follows hnow hnext
    exact ⟨row, hrow, hsweep.trans hfollows⟩
  rcases leaseNext_some h with ⟨-, -, -, rfl⟩ | ⟨row, hrow, -, hnext, -, hjobs, -⟩
  · exact hswept new hnew (.refl clock.start_le_finish new)
  · rw [hjobs] at hnew
    obtain ⟨next, hmem, rfl⟩ := Table.mem_updateWhere.mp hnew
    refine hswept next hmem ?_
    split
    · rename_i hid
      have hsame : (sweep clock q.jobs).map JobRow.id = q.jobs.map JobRow.id :=
        Table.map_key_updateWhere _ fun _ _ _ => rfl
      have hids : ((sweep clock q.jobs).map JobRow.id).Nodup := hsame ▸ hnodup
      obtain rfl : next = row := Table.eq_of_key_eq hids hmem hrow (of_decide_eq_true hid)
      exact leaseRow_follows (List.mem_filter.mp (of_decide_eq_true hnext).1).2
    · exact .refl clock.start_le_finish next

/-- The job of a handle that `leaseNext` answers runs. -/
theorem leaseNext_running {workerId : String} {leaseSeconds : ℤ} {pick : Option String} {job : Job}
    (h : leaseNext q workerId leaseSeconds pick clock = some (q', some job)) :
    ∃ new ∈ q'.jobs, new.id = job.id ∧ new.key = (job.tenantId, job.type, job.idempotencyKey) ∧
      new.status = .running := by
  rcases leaseNext_some h with ⟨-, hnone, -⟩ | ⟨row, hrow, -, -, hjob, hjobs, -⟩
  · cases hnone
  · cases hjob
    rw [hjobs]
    exact ⟨_, Table.mem_updateWhere.mpr ⟨row, hrow, if_pos (decide_eq_true rfl)⟩, rfl, rfl, rfl⟩

/-- The three ways to settle or renew change the job of the handle, which runs. -/
theorem held_follows {job : Job} (h : HeldUpdate job clock.start q q') (hnow : now ≤ clock.start)
    (hnew : new ∈ q'.jobs) : ∃ row ∈ q.jobs, Follows now clock.finish row new := by
  have hle : now ≤ clock.finish := hnow.trans clock.start_le_finish
  rcases h with rfl | ⟨_, _, _, f, -, hf, rfl⟩
  · exact ⟨new, hnew, .refl hle new⟩
  · obtain ⟨row, hrow, rfl⟩ := Table.mem_updateWhere.mp hnew
    refine ⟨row, hrow, ?_⟩
    split
    · rename_i hheld
      exact .of_running (holdsLease_iff.mp hheld).2.1 hle (hf.fixed row) (hf.payload row)
        ((hf.availableAt row).imp_right hnow.trans)
    · exact .refl hle row

/-- **What a call does to the rows.**  Each row of the new table follows one of the old, or it
has been enqueued afresh. -/
theorem step_follows {c : ℤ × QueueCall} (hnodup : (q.jobs.map JobRow.id).Nodup)
    (hs : step digest q c = some q') (hnow : now ≤ c.2.clock.start) (hnew : new ∈ q'.jobs) :
    (∃ row ∈ q.jobs, Follows now c.2.clock.finish row new) ∨
      ∃ input clock, c.2 = .enqueue input clock ∧ Enqueued input clock new := by
  obtain ⟨leaseSeconds, call⟩ := c
  cases call with
  | enqueue input clock =>
      cases hs
      exact (enqueue_follows hnow hnew).imp_right fun h => ⟨input, clock, rfl, h⟩
  | cancelPending input clock =>
      cases hs
      exact .inl (cancelPending_follows hnow hnew)
  | leaseNext workerId pick clock =>
      simp only [step, Option.map_eq_some_iff] at hs
      obtain ⟨⟨q', out⟩, hlease, rfl⟩ := hs
      exact .inl (leaseNext_follows hlease hnodup hnow hnew)
  | renewLease job clock =>
      cases hs
      exact .inl (held_follows renewLease_held hnow hnew)
  | complete job clock =>
      cases hs
      exact .inl (held_follows complete_held hnow hnew)
  | fail job message clock =>
      cases hs
      exact .inl (held_follows fail_held hnow hnew)

end SqliteJobQueue

end RecruitingOs
