import RecruitingOs.Queue.Run

/-!
# Calls on the queue, whoever makes them

`QueueRun` follows what the callers of a queue know.  Here a call is just a call: any
caller, any handle, any lease length, and no word about the clock of the next one.
`SqliteJobQueue.step` is the table after a call, and `RowUpdate` says once what a call
can do to a row; the results about such calls are read off it.
-/

namespace RecruitingOs

/-- `succeeded`, `dead_letter` and `cancelled`. -/
def JobStatus.terminal : JobStatus → Bool
  | .succeeded | .deadLetter | .cancelled => true
  | _ => false

/-- The payload is what the queue leaves of a screenshot. -/
def JobRow.redacted (row : JobRow) : Bool :=
  row.payload.get? "retentionRedacted" = some (.bool true)

/-- What a call does to a row.  `leaves` is what `cancelPending` may do to the payload
of a screenshot beside redacting it. -/
inductive RowUpdate (leaves : JobRow → Prop) (call : QueueCall) (row : JobRow) : JobRow → Prop
  | keep : RowUpdate leaves call row row
  /-- The job is cancelled, settled for good, or out of attempts. -/
  | close {new : JobRow} (id : new.id = row.id) (type : new.type = row.type)
      (active : row.status.pending ∨ row.status = .running) (terminal : new.status.terminal)
      (payload : row.type = "ingest.screenshot" → new.redacted ∨
        leaves row ∧ new.status = .cancelled ∧ new.payload = row.payload) :
      RowUpdate leaves call row new
  /-- The job is to be tried again. -/
  | retry {new : JobRow} (id : new.id = row.id) (type : new.type = row.type)
      (running : row.status = .running) (retryable : new.status = .retryableFailed) :
      RowUpdate leaves call row new
  /-- The job is leased, or its lease renewed. -/
  | hold {new : JobRow} (id : new.id = row.id) (type : new.type = row.type)
      (active : row.status.pending ∨ row.status = .running) (running : new.status = .running)
      (leased : new.leasedUntil.isSome) : RowUpdate leaves call row new
  | revive {new : JobRow} {input : EnqueueJob} {clock : Readings}
      (hcall : call = .enqueue input clock) (id : new.id = row.id) (type : new.type = row.type)
      (cancelled : row.status = .cancelled) (queued : new.status = .queued) :
      RowUpdate leaves call row new

theorem JobRow.redacted_of_screenshot {row new : JobRow} {now : ℤ}
    (htype : row.type = "ingest.screenshot") (h : new.payload = row.redactScreenshot now) :
    new.redacted := by
  rw [JobRow.redactScreenshot, if_pos htype] at h
  rw [JobRow.redacted, h]
  rfl

/-- A row changed by a statement, and left alone where its condition does not hold. -/
theorem RowUpdate.ite {leaves : JobRow → Prop} {call : QueueCall} {row new : JobRow} {p : Prop}
    [Decidable p] (h : p → RowUpdate leaves call row new) :
    RowUpdate leaves call row (if p then new else row) := by
  by_cases hp : p
  · rw [if_pos hp]
    exact h hp
  · rw [if_neg hp]
    exact .keep

theorem RowUpdate.id_eq {leaves : JobRow → Prop} {call : QueueCall} {row new : JobRow}
    (h : RowUpdate leaves call row new) : new.id = row.id := by
  cases h with
  | keep => rfl
  | close id _ _ _ _ | retry id _ _ _ | hold id _ _ _ _ | revive _ id _ _ _ => exact id

/-- A settled job stays as it is, unless it is cancelled and enqueued again. -/
theorem RowUpdate.of_terminal {leaves : JobRow → Prop} {call : QueueCall} {row new : JobRow}
    (h : RowUpdate leaves call row new) (hterminal : row.status.terminal) :
    new = row ∨ row.status = .cancelled ∧ ∃ input clock, call = .enqueue input clock := by
  have hinactive : ¬ (row.status.pending ∨ row.status = .running) := by
    cases hstatus : row.status <;> simp_all [JobStatus.pending, JobStatus.terminal]
  cases h with
  | keep => exact .inl rfl
  | close _ _ active _ _ | hold _ _ active _ _ => exact absurd active hinactive
  | retry _ _ running _ => exact absurd (.inr running) hinactive
  | revive hcall _ _ cancelled _ => exact .inr ⟨cancelled, _, _, hcall⟩

/-- What a call does to the table: each row stays in its place, and a queued one with a new
id may be appended. -/
def RowsAfter (leaves : JobRow → Prop) (call : QueueCall) (q q' : Queue) : Prop :=
  ∃ change added, (∀ row ∈ q.jobs, RowUpdate leaves call row (change row)) ∧
    (added = [] ∨ ∃ fresh, fresh.status = .queued ∧ (∀ row ∈ q.jobs, row.id ≠ fresh.id) ∧
      added = [fresh]) ∧
    q'.jobs = q.jobs.map change ++ added

namespace RowsAfter

variable {leaves : JobRow → Prop} {call : QueueCall} {q q' : Queue}

theorem of_map {change : JobRow → JobRow}
    (h : ∀ row ∈ q.jobs, RowUpdate leaves call row (change row))
    (hjobs : q'.jobs = q.jobs.map change) : RowsAfter leaves call q q' :=
  ⟨change, [], h, .inl rfl, by rw [hjobs, List.append_nil]⟩

theorem refl (q : Queue) : RowsAfter leaves call q q :=
  .of_map (fun _ _ => .keep) (List.map_id _).symm

theorem of_append {fresh : JobRow} (hqueued : fresh.status = .queued)
    (hnew : ∀ row ∈ q.jobs, row.id ≠ fresh.id) (hjobs : q'.jobs = q.jobs ++ [fresh]) :
    RowsAfter leaves call q q' :=
  ⟨id, [fresh], fun _ _ => .keep, .inr ⟨fresh, hqueued, hnew, rfl⟩, by rw [List.map_id, hjobs]⟩

/-- The ids of the table stay distinct. -/
theorem nodup_id (h : RowsAfter leaves call q q') (hnodup : (q.jobs.map JobRow.id).Nodup) :
    (q'.jobs.map JobRow.id).Nodup := by
  obtain ⟨change, added, hchange, hadded, hjobs⟩ := h
  have hids : (q.jobs.map change).map JobRow.id = q.jobs.map JobRow.id := by
    rw [List.map_map]
    exact List.map_congr_left fun row hrow => (hchange row hrow).id_eq
  rw [hjobs]
  rcases hadded with rfl | ⟨fresh, -, hnew, rfl⟩
  · rw [List.append_nil, hids]
    exact hnodup
  · refine Table.nodup_key_append (hids ▸ hnodup) ?_
    intro new hmem
    obtain ⟨row, hrow, rfl⟩ := List.mem_map.mp hmem
    rw [(hchange row hrow).id_eq]
    exact hnew row hrow

/-- A row after a call was there before, or is queued. -/
theorem mem (h : RowsAfter leaves call q q') {new : JobRow} (hnew : new ∈ q'.jobs) :
    (∃ row ∈ q.jobs, RowUpdate leaves call row new) ∨ new.status = .queued := by
  obtain ⟨change, added, hchange, hadded, hjobs⟩ := h
  rw [hjobs] at hnew
  rcases List.mem_append.mp hnew with hold | hlast
  · obtain ⟨row, hrow, rfl⟩ := List.mem_map.mp hold
    exact .inl ⟨row, hrow, hchange row hrow⟩
  · rcases hadded with rfl | ⟨fresh, hqueued, -, rfl⟩
    · cases hlast
    · rw [List.mem_singleton.mp hlast]
      exact .inr hqueued

/-- A settled job stays in the table as it is, unless it is cancelled and enqueued again. -/
theorem mem_of_terminal (h : RowsAfter leaves call q q') {row : JobRow} (hrow : row ∈ q.jobs)
    (hterminal : row.status.terminal) :
    row ∈ q'.jobs ∨ row.status = .cancelled ∧ ∃ input clock, call = .enqueue input clock := by
  obtain ⟨change, added, hchange, -, hjobs⟩ := h
  refine ((hchange row hrow).of_terminal hterminal).imp_left fun hsame => ?_
  rw [hjobs]
  exact List.mem_append_left _ (List.mem_map.mpr ⟨row, hrow, hsame⟩)

end RowsAfter

namespace SqliteJobQueue

variable {digest : String → String} {q q' : Queue} {call : QueueCall}

/-- The table that a call leaves which may reject. -/
def settled {ε : Type} (q : Queue) : Except ε Queue → Queue
  | .ok q' => q'
  | .error _ => q

/-- A call with the lease length that it asks for.  It is `none` only where the query of
`leaseNext` answers otherwise. -/
def step (digest : String → String) (q : Queue) : ℤ × QueueCall → Option Queue
  | (_, .enqueue input clock) => some (settled q ((enqueue digest q input clock).map Prod.fst))
  | (_, .cancelPending input clock) => some (cancelPending q input clock).1
  | (leaseSeconds, .leaseNext workerId pick clock) =>
      (leaseNext q workerId leaseSeconds pick clock).map Prod.fst
  | (leaseSeconds, .renewLease job clock) => some (renewLease q job leaseSeconds clock).1
  | (_, .complete job clock) => some (settled q (complete q job clock))
  | (_, .fail job message clock) => some (settled q (fail q job message clock))

/-- The tables that calls reach. -/
def Reached (digest : String → String) : Queue → Prop :=
  Transition.Reachable (· = Queue.empty) (step digest)

theorem enqueue_rows {input : EnqueueJob} {clock : Readings} :
    RowsAfter (fun _ => False) (.enqueue input clock) q
      (settled q ((enqueue digest q input clock).map Prod.fst)) := by
  cases henq : enqueue digest q input clock with
  | error e => exact .refl q
  | ok out =>
      obtain ⟨q', job⟩ := out
      obtain ⟨jobs, hupsert, rfl, -⟩ := enqueue_ok henq
      rcases upsertJob_ok hupsert with ⟨-, rfl⟩ | ⟨hnew, rfl⟩
      · refine .of_map (fun row _ => .ite fun hp => ?_) rfl
        exact .revive rfl rfl rfl (of_decide_eq_true hp).2 rfl
      · exact .of_append rfl hnew rfl

theorem cancelPending_rows {input : CancelPendingJobs} {clock : Readings} :
    RowsAfter (fun _ => False) (.cancelPending input clock) q (cancelPending q input clock).1 := by
  obtain ⟨change, hmap, hchange⟩ :=
    cancelIds_map clock ((q.jobs.filter (isCancelCandidate input)).map JobRow.id) q.jobs 0
  refine .of_map (fun row _ => ?_) hmap
  rcases hchange row with hsame | ⟨hpending, redactedAt, now, hcancel⟩
  · rw [hsame]
    exact .keep
  · rw [hcancel]
    exact .close rfl rfl (.inl hpending) rfl fun htype =>
      .inl (JobRow.redacted_of_screenshot htype rfl)

/-- What the sweep of `leaseNext` does to a row. -/
def sweepRow (clock : Readings) (row : JobRow) : JobRow :=
  if isExhausted (clock.nth 2) row then exhaustRow (clock.nth 0) (clock.nth 1) row else row

theorem sweepRow_update {c : QueueCall} {clock : Readings} (row : JobRow) :
    RowUpdate (fun _ => False) c row (sweepRow clock row) := by
  refine .ite fun hp => ?_
  exact .close rfl rfl (.inr (of_decide_eq_true hp).1) rfl fun htype =>
    .inl (JobRow.redacted_of_screenshot htype rfl)

theorem sweepRow_id {clock : Readings} (row : JobRow) : (sweepRow clock row).id = row.id :=
  (sweepRow_update (c := .leaseNext "" none clock) row).id_eq

/-- The rows of `leaseNext` are told apart by their ids before and after its sweep. -/
theorem nodup_sweep (hnodup : (q.jobs.map JobRow.id).Nodup) (clock : Readings) :
    ((sweep clock q.jobs).map JobRow.id).Nodup := by
  have hids : (sweep clock q.jobs).map JobRow.id = q.jobs.map JobRow.id :=
    Table.map_key_updateWhere _ fun _ _ _ => rfl
  rw [hids]
  exact hnodup

/-- A statement that leases one of the rows that a sweep has left active: the sweep left
this row as it was. -/
theorem lease_after_sweep {jobs : List JobRow} (hnodup : (jobs.map JobRow.id).Nodup)
    {swept leased : JobRow → JobRow} (hid : ∀ row, (swept row).id = row.id)
    (hswept : ∀ row, swept row = row ∨ (swept row).status.terminal) {picked : JobRow}
    (hpicked : picked ∈ jobs.map swept) (hactive : picked.status.terminal = false) :
    picked ∈ jobs ∧
      Table.updateWhere (fun r => r.id = picked.id) leased (jobs.map swept) =
        jobs.map fun row => if row.id = picked.id then leased row else swept row := by
  have hids : (jobs.map swept).map JobRow.id = jobs.map JobRow.id := by
    rw [List.map_map]
    exact List.map_congr_left fun row _ => hid row
  -- the sweep leaves the picked row alone, for it is still active
  have hkept : ∀ row ∈ jobs, row.id = picked.id → swept row = picked ∧ swept row = row := by
    intro row hrow hsame
    have hmem : swept row ∈ jobs.map swept := List.mem_map_of_mem hrow
    have hrowPicked : swept row = picked :=
      Table.eq_of_key_eq (hids ▸ hnodup) hmem hpicked ((hid row).trans hsame)
    refine ⟨hrowPicked, (hswept row).resolve_right fun hterminal => ?_⟩
    rw [hrowPicked, hactive] at hterminal
    cases hterminal
  obtain ⟨row, hrow, hrowPicked⟩ := List.mem_map.mp hpicked
  have hsame : row.id = picked.id := (hid row).symm.trans (congrArg JobRow.id hrowPicked)
  obtain ⟨hpick, hsweep⟩ := hkept row hrow hsame
  refine ⟨by rw [← hpick, hsweep]; exact hrow, ?_⟩
  rw [Table.updateWhere, List.map_map]
  apply List.map_congr_left
  intro row hrow
  rw [Function.comp_apply, hid]
  by_cases hsame : row.id = picked.id
  · rw [if_pos (decide_eq_true hsame), if_pos hsame, (hkept row hrow hsame).2]
  · rw [if_neg (by simpa using hsame), if_neg hsame]

/-- What `leaseNext` does to a row of the table when it leases the row `picked`. -/
def pickRow (workerId : String) (leaseSeconds : ℤ) (clock : Readings) (picked row : JobRow) :
    JobRow :=
  if row.id = picked.id then
    leaseRow workerId (clock.nth 6 + leaseSeconds * 1000) (clock.nth 7) row
  else sweepRow clock row

/-- A candidate is not settled. -/
theorem active_of_eligible {row : JobRow} {a b c : ℤ} (h : row.eligible a b c) :
    (row.status.pending ∨ row.status = .running) ∧ row.status.terminal = false := by
  have hactive := (of_decide_eq_true h).imp And.left And.left
  refine ⟨hactive, ?_⟩
  rcases hactive with hpending | hrunning
  · cases hstatus : row.status <;> simp_all [JobStatus.pending, JobStatus.terminal]
  · rw [hrunning]
    rfl

/-- `leaseNext` leases a row that its sweep has left as it was. -/
theorem leaseNext_pick (hnodup : (q.jobs.map JobRow.id).Nodup) {workerId : String}
    {leaseSeconds : ℤ} {pick : Option String} {out : Option Job} {clock : Readings}
    (h : leaseNext q workerId leaseSeconds pick clock = some (q', out)) :
    (pick = none ∧ out = none ∧ candidates clock (sweep clock q.jobs) = [] ∧
        q' = { q with jobs := sweep clock q.jobs }) ∨
      ∃ picked ∈ q.jobs, pick = some picked.id ∧
        q.isNext (candidates clock (sweep clock q.jobs)) picked ∧
        out = some (leaseRow workerId (clock.nth 6 + leaseSeconds * 1000) (clock.nth 7)
          picked).toJob ∧
        q'.jobs = q.jobs.map (pickRow workerId leaseSeconds clock picked) ∧
        q'.tenantQueueState = q.touchTenant picked.tenantId (clock.nth 8) := by
  rcases leaseNext_some h with hnone | ⟨picked, hpicked, hpick, hnext, hout, hjobs, htouched⟩
  · exact .inl hnone
  · right
    have hready : picked ∈ candidates clock (sweep clock q.jobs) := (of_decide_eq_true hnext).1
    have hactive := (active_of_eligible (List.mem_filter.mp hready).2).2
    have hswept : ∀ row, sweepRow clock row = row ∨ (sweepRow clock row).status.terminal := by
      intro row
      unfold sweepRow
      split
      · exact .inr rfl
      · exact .inl rfl
    obtain ⟨hmem, hupdate⟩ := lease_after_sweep hnodup sweepRow_id hswept hpicked hactive
    exact ⟨picked, hmem, hpick, hnext, hout, hjobs.trans hupdate, htouched⟩

theorem leaseNext_rows (hnodup : (q.jobs.map JobRow.id).Nodup) {workerId : String}
    {leaseSeconds : ℤ} {pick : Option String} {out : Option Job} {clock : Readings}
    (h : leaseNext q workerId leaseSeconds pick clock = some (q', out)) :
    RowsAfter (fun _ => False) (.leaseNext workerId pick clock) q q' := by
  rcases leaseNext_pick hnodup h with ⟨-, -, -, rfl⟩ | ⟨picked, hpicked, -, hnext, -, hjobs, -⟩
  · exact .of_map (fun row _ => sweepRow_update row) rfl
  · refine .of_map (fun row hrow => ?_) hjobs
    unfold pickRow
    split
    · rename_i hid
      obtain rfl := Table.eq_of_key_eq hnodup hrow hpicked hid
      have hready := (of_decide_eq_true hnext).1
      exact .hold rfl rfl (active_of_eligible (List.mem_filter.mp hready).2).1 rfl rfl
    · exact sweepRow_update row

theorem renewLease_rows {job : Job} {leaseSeconds : ℤ} {clock : Readings} :
    RowsAfter (fun _ => False) (.renewLease job clock) q (renewLease q job leaseSeconds clock).1 := by
  unfold renewLease
  split
  · dsimp only
    split
    · refine .of_map (fun row _ => .ite fun hheld => ?_) rfl
      obtain ⟨-, hrunning, -, -, -⟩ := holdsLease_iff.mp hheld
      exact .hold rfl rfl (.inr hrunning) hrunning rfl
    · exact .refl q
  · exact .refl q

theorem complete_rows {job : Job} {clock : Readings} :
    RowsAfter (fun _ => False) (.complete job clock) q (settled q (complete q job clock)) := by
  cases hcomplete : complete q job clock with
  | error e => exact .refl q
  | ok q' =>
      obtain ⟨leasedBy, leasedUntil, -, -, -, rfl⟩ := complete_ok hcomplete
      refine .of_map (fun row _ => .ite fun hheld => ?_) rfl
      obtain ⟨-, hrunning, -, -, -⟩ := holdsLease_iff.mp hheld
      exact .close rfl rfl (.inr hrunning) rfl fun htype =>
        .inl (JobRow.redacted_of_screenshot htype rfl)

theorem fail_rows {job : Job} {message : String} {clock : Readings} :
    RowsAfter (fun _ => False) (.fail job message clock) q (settled q (fail q job message clock)) := by
  cases hfail : fail q job message clock with
  | error e => exact .refl q
  | ok q' =>
      obtain ⟨leasedBy, leasedUntil, -, -, -, rfl⟩ := fail_ok hfail
      refine .of_map (fun row _ => .ite fun hheld => ?_) rfl
      obtain ⟨-, hrunning, -, -, -⟩ := holdsLease_iff.mp hheld
      by_cases hterminal : job.maxAttempts ≤ job.attemptCount
      · refine .close rfl rfl (.inr hrunning) (by simp [failRow, hterminal, JobStatus.terminal])
          fun htype => .inl (JobRow.redacted_of_screenshot htype
            (?_ : _ = row.redactScreenshot (clock.nth 1)))
        simp only [failRow, hterminal, decide_true, if_true]
      · exact .retry rfl rfl hrunning (by simp [failRow, hterminal])

/-- **The rows after a call.** -/
theorem step_rows (hnodup : (q.jobs.map JobRow.id).Nodup) {c : ℤ × QueueCall}
    (hs : step digest q c = some q') : RowsAfter (fun _ => False) c.2 q q' := by
  obtain ⟨leaseSeconds, call⟩ := c
  cases call with
  | enqueue input clock => cases hs; exact enqueue_rows
  | cancelPending input clock => cases hs; exact cancelPending_rows
  | leaseNext workerId pick clock =>
      simp only [step, Option.map_eq_some_iff] at hs
      obtain ⟨⟨q', out⟩, hlease, rfl⟩ := hs
      exact leaseNext_rows hnodup hlease
  | renewLease job clock => cases hs; exact renewLease_rows
  | complete job clock => cases hs; exact complete_rows
  | fail job message clock => cases hs; exact fail_rows

/-- What holds of the table after any calls. -/
structure Sound (q : Queue) : Prop where
  nodup_id : (q.jobs.map JobRow.id).Nodup
  leased : ∀ row ∈ q.jobs, row.status = .running → row.leasedUntil.isSome

theorem Sound.empty : Sound Queue.empty where
  nodup_id := List.nodup_nil
  leased := by intro row hrow; cases hrow

theorem Sound.step (h : Sound q) {c : ℤ × QueueCall} (hs : step digest q c = some q') :
    Sound q' := by
  have hrows := step_rows h.nodup_id hs
  refine ⟨hrows.nodup_id h.nodup_id, ?_⟩
  intro new hnew hrunning
  rcases hrows.mem hnew with ⟨row, hrow, hupdate⟩ | hqueued
  · cases hupdate with
    | keep => exact h.leased new hrow hrunning
    | hold _ _ _ _ leased => exact leased
    | close _ _ _ terminal _ => rw [hrunning] at terminal; cases terminal
    | retry _ _ _ retryable => rw [hrunning] at retryable; cases retryable
    | revive _ _ _ _ queued => rw [hrunning] at queued; cases queued
  · rw [hrunning] at hqueued
    cases hqueued

theorem Reached.sound (h : Reached digest q) : Sound q :=
  Transition.Reachable.invariant (fun _ hq => hq ▸ Sound.empty)
    (fun _ _ _ _ hq hs => hq.step hs) h

end SqliteJobQueue

end RecruitingOs
