import RecruitingOs.Queue.Calls
import RecruitingOs.Queue.Postgres

/-!
# Screenshots in settled jobs

A job of type `ingest.screenshot` carries the image in its payload.  Both queues replace the
payload when the job is settled, `SqliteJobQueue` also when it is cancelled;
`PostgresJobQueue.cancelPending` leaves it in the table.

`screenshot_redaction` says this of all runs of either queue: under SQLite no settled job
keeps its image, and under Postgres exactly those runs have none that cancel no job with one.
-/

namespace RecruitingOs

/-- No settled screenshot job of the table has its payload. -/
def Queue.ScreenshotsRedacted (q : Queue) : Prop :=
  ∀ row ∈ q.jobs, row.type = "ingest.screenshot" → row.status.terminal → row.redacted

/-- No call changes a settled screenshot job, but for an `enqueue` of a cancelled one. -/
def Queue.KeepsScreenshots (step : Queue → ℤ × QueueCall → Option Queue) (q : Queue) : Prop :=
  ∀ c q', step q c = some q' → ∀ row ∈ q.jobs, row.type = "ingest.screenshot" →
    row.status.terminal →
    row ∈ q'.jobs ∨ row.status = .cancelled ∧ ∃ input clock, c.2 = .enqueue input clock

theorem RowsAfter.screenshotsRedacted {leaves : JobRow → Prop} {call : QueueCall} {q q' : Queue}
    (h : RowsAfter leaves call q q') (hq : q.ScreenshotsRedacted)
    (hleaves : ∀ row ∈ q.jobs, leaves row → row.type = "ingest.screenshot" → row.redacted) :
    q'.ScreenshotsRedacted := by
  intro new hnew htype hterminal
  rcases h.mem hnew with ⟨row, hrow, hupdate⟩ | hqueued
  · cases hupdate with
    | keep => exact hq _ hrow htype hterminal
    | close _ type _ _ payload =>
        rcases payload (type ▸ htype) with hredacted | ⟨hleft, -, hsame⟩
        · exact hredacted
        · rw [JobRow.redacted, hsame]
          exact hleaves row hrow hleft (type ▸ htype)
    | retry _ _ _ retryable => rw [retryable] at hterminal; cases hterminal
    | hold _ _ _ running _ => rw [running] at hterminal; cases hterminal
    | revive _ _ _ _ queued => rw [queued] at hterminal; cases hterminal
  · rw [hqueued] at hterminal
    cases hterminal

namespace PostgresQueue

open SqliteJobQueue (settled)

variable {digest : String → String} {timestamp : ℤ → String} {q q' : Queue} {call : QueueCall}

/-- A call with the lease length that it asks for.  It is `none` only where the query of
`app.lease_job` answers otherwise. -/
def step (digest : String → String) (timestamp : ℤ → String) (q : Queue) :
    ℤ × QueueCall → Option Queue
  | (_, .enqueue input clock) => some (settled q ((enqueue digest q input clock).map Prod.fst))
  | (_, .cancelPending input clock) => some (settled q ((cancelPending q input clock).map Prod.fst))
  | (leaseSeconds, .leaseNext workerId pick clock) =>
      (leaseNext timestamp q workerId leaseSeconds pick clock).map fun result =>
        settled q (result.map Prod.fst)
  | (leaseSeconds, .renewLease job clock) =>
      some (settled q ((renewLease q job leaseSeconds clock).map Prod.fst))
  | (_, .complete job clock) => some (settled q (complete timestamp q job clock))
  | (_, .fail job message clock) => some (settled q (fail timestamp q job message clock))

/-- The tables that calls reach. -/
def Reached (digest : String → String) (timestamp : ℤ → String) : Queue → Prop :=
  Transition.Reachable (· = Queue.empty) (step digest timestamp)

/-- The call cancels the row. -/
def Cancels (call : QueueCall) (row : JobRow) : Prop :=
  ∃ input clock, call = .cancelPending input clock ∧ storableFilter input ∧ isCancelled input row

/-- The call cancels no screenshot job whose payload is still there. -/
def CancelsNoScreenshot (q : Queue) (c : ℤ × QueueCall) : Prop :=
  ∀ row ∈ q.jobs, Cancels c.2 row → row.type = "ingest.screenshot" → row.redacted

theorem enqueue_rows {input : EnqueueJob} {clock : Readings} :
    RowsAfter (Cancels (.enqueue input clock)) (.enqueue input clock) q
      (settled q ((enqueue digest q input clock).map Prod.fst)) := by
  unfold enqueue
  split
  · dsimp only
    split
    · exact .refl q
    · rename_i jobs hupsert
      split
      · exact .refl q
      · unfold upsertJob at hupsert
        split at hupsert
        · cases hupsert
          refine .of_map (fun row _ => .ite fun hp => ?_) rfl
          exact .revive rfl rfl rfl (of_decide_eq_true hp).2 rfl
        · split at hupsert
          · cases hupsert
          · rename_i hnew
            cases hupsert
            exact .of_append rfl (by simpa using hnew) rfl
  · exact .refl q

theorem cancelPending_rows {input : CancelPendingJobs} {clock : Readings} :
    RowsAfter (Cancels (.cancelPending input clock)) (.cancelPending input clock) q
      (settled q ((cancelPending q input clock).map Prod.fst)) := by
  unfold cancelPending
  split
  · rename_i hstorable
    refine .of_map (fun row _ => .ite fun hp => ?_) rfl
    have hpending : row.status.pending := (of_decide_eq_true hp).2.2.1
    exact .close rfl rfl (.inl hpending) rfl fun _ =>
      .inr ⟨⟨input, clock, rfl, hstorable, hp⟩, rfl, rfl⟩
  · exact .refl q

/-- What the sweep of `app.lease_job` does to a row. -/
def sweepRow (timestamp : ℤ → String) (now : ℤ) (row : JobRow) : JobRow :=
  if SqliteJobQueue.isExhausted now row then LeaseJob.exhaustRow timestamp now row else row

theorem sweepRow_id {now : ℤ} (row : JobRow) : (sweepRow timestamp now row).id = row.id := by
  unfold sweepRow
  split <;> rfl

theorem sweepRow_update {leaves : JobRow → Prop} {now : ℤ} (row : JobRow) :
    RowUpdate leaves call row (sweepRow timestamp now row) := by
  refine .ite fun hp => ?_
  refine .close rfl rfl (.inr (of_decide_eq_true hp).1) rfl fun htype => .inl ?_
  rw [JobRow.redacted, LeaseJob.exhaustRow, if_pos htype]
  rfl

theorem leaseNext_rows (hnodup : (q.jobs.map JobRow.id).Nodup) {workerId : String}
    {leaseSeconds : ℤ} {pick : Option String} {clock : Readings}
    {result : Except PostgresQueueError (Queue × Option Job)}
    (h : leaseNext timestamp q workerId leaseSeconds pick clock = some result) :
    RowsAfter (Cancels (.leaseNext workerId pick clock)) (.leaseNext workerId pick clock) q
      (settled q (result.map Prod.fst)) := by
  unfold leaseNext at h
  dsimp only at h
  split at h
  · split at h
    · split at h
      · split at h
        · cases h
          exact .of_map (fun row _ => sweepRow_update row) rfl
        · cases h
      · rename_i id
        split at h
        · cases h
        · rename_i picked hfind
          split at h
          · rename_i hnext
            cases h
            obtain rfl : picked.id = id := by simpa using List.find?_some hfind
            have hready := (of_decide_eq_true hnext).1
            have hactive :=
              SqliteJobQueue.active_of_eligible (List.mem_filter.mp hready).2
            have hswept : ∀ row, sweepRow timestamp (clock.nth 1) row = row ∨
                (sweepRow timestamp (clock.nth 1) row).status.terminal := by
              intro row
              unfold sweepRow
              split
              · exact .inr rfl
              · exact .inl rfl
            obtain ⟨hmem, hupdate⟩ := SqliteJobQueue.lease_after_sweep hnodup sweepRow_id hswept
              (List.mem_of_find?_eq_some hfind) hactive.2
            refine .of_map (fun row hrow => ?_) hupdate
            split
            · rename_i hid
              obtain rfl := Table.eq_of_key_eq hnodup hrow hmem hid
              exact .hold rfl rfl hactive.1 rfl rfl
            · exact sweepRow_update row
          · cases h
    · cases h
      exact .refl q
  · cases h
    exact .refl q

theorem renewLease_rows {job : Job} {leaseSeconds : ℤ} {clock : Readings} :
    RowsAfter (Cancels (.renewLease job clock)) (.renewLease job clock) q
      (settled q ((renewLease q job leaseSeconds clock).map Prod.fst)) := by
  unfold renewLease
  split
  · split
    · dsimp only
      split
      · refine .of_map (fun row _ => .ite fun hheld => ?_) rfl
        have hrunning : row.status = .running := (of_decide_eq_true hheld).2.1
        exact .hold rfl rfl (.inr hrunning) hrunning rfl
      · exact .refl q
    · exact .refl q
  · exact .refl q

/-- What `app.finish_job` does to a running row. -/
theorem finishRow_update {leaves : JobRow → Prop} {failure : Option String} {now : ℤ}
    {row : JobRow} (hrunning : row.status = .running) :
    RowUpdate leaves call row (finishRow timestamp failure now row) := by
  have hredacted : ∀ new : JobRow, new.payload = (if row.type = "ingest.screenshot" then
      .obj [("retentionRedacted", .bool true), ("redactedAt", .str (timestamp now)),
        ("reason", .str "terminal-screenshot-job")] else row.payload) →
      row.type = "ingest.screenshot" → new.redacted := by
    intro new hpayload htype
    rw [if_pos htype] at hpayload
    rw [JobRow.redacted, hpayload]
    rfl
  unfold finishRow
  dsimp only
  split
  · exact .close rfl rfl (.inr hrunning) rfl fun htype => .inl (hredacted _ rfl htype)
  · split
    · exact .close rfl rfl (.inr hrunning) rfl fun htype => .inl (hredacted _ rfl htype)
    · exact .retry rfl rfl hrunning rfl

theorem finishJob_rows (hnodup : (q.jobs.map JobRow.id).Nodup) {leaves : JobRow → Prop}
    {id : String} {expectedLease : Option ℤ} {worker failure : Option String} {now : ℤ} :
    RowsAfter leaves call q
      (settled q (finishJob timestamp q id expectedLease worker failure now)) := by
  unfold finishJob
  split
  · exact .refl q
  · rename_i current hfind
    split
    · exact .refl q
    · rename_i hheld
      refine .of_map (fun row hrow => .ite fun hid => ?_) rfl
      have hcurrent : current.id = id := by simpa using List.find?_some hfind
      obtain rfl : row = current := Table.eq_of_key_eq hnodup hrow
        (List.mem_of_find?_eq_some hfind) ((of_decide_eq_true hid).trans hcurrent.symm)
      refine finishRow_update ?_
      by_contra hother
      exact hheld (decide_eq_true (.inl hother))

/-- **The rows after a call** on the Postgres queue. -/
theorem step_rows (hnodup : (q.jobs.map JobRow.id).Nodup) {c : ℤ × QueueCall}
    (hs : step digest timestamp q c = some q') : RowsAfter (Cancels c.2) c.2 q q' := by
  obtain ⟨leaseSeconds, call⟩ := c
  cases call with
  | enqueue input clock => cases hs; exact enqueue_rows
  | cancelPending input clock => cases hs; exact cancelPending_rows
  | leaseNext workerId pick clock =>
      simp only [step, Option.map_eq_some_iff] at hs
      obtain ⟨result, hlease, rfl⟩ := hs
      exact leaseNext_rows hnodup hlease
  | renewLease job clock => cases hs; exact renewLease_rows
  | complete job clock => cases hs; exact finishJob_rows hnodup
  | fail job message clock =>
      cases hs
      unfold fail
      dsimp only
      split
      · exact finishJob_rows hnodup
      · exact .refl q

theorem Reached.nodup_id (h : Reached digest timestamp q) : (q.jobs.map JobRow.id).Nodup :=
  Transition.Reachable.invariant (fun _ hq => hq ▸ List.nodup_nil)
    (fun _ _ _ _ hnodup hs => (step_rows hnodup hs).nodup_id hnodup) h

/-- A cancelled row is in the table with the payload that it had. -/
theorem mem_of_cancels {c : ℤ × QueueCall} (hs : step digest timestamp q c = some q')
    {row : JobRow} (hrow : row ∈ q.jobs) (hcancels : Cancels c.2 row) :
    ∃ now, cancelRow now row ∈ q'.jobs := by
  obtain ⟨leaseSeconds, call⟩ := c
  obtain ⟨input, clock, rfl, hstorable, hp⟩ := hcancels
  simp only [step, cancelPending, hstorable, if_true] at hs
  cases hs
  refine ⟨clock.nth 1, Table.mem_updateWhere.mpr ⟨row, hrow, ?_⟩⟩
  rw [if_pos hp]

end PostgresQueue

/-! ### Both queues -/

theorem SqliteJobQueue.Reached.screenshotsRedacted {digest : String → String} {q : Queue}
    (h : SqliteJobQueue.Reached digest q) : q.ScreenshotsRedacted := by
  refine Transition.Reachable.invariant ?_ ?_ h
  · rintro _ rfl row hrow
    cases hrow
  · intro u c v hu hredacted hs
    refine (step_rows (Reached.sound hu).nodup_id hs).screenshotsRedacted hredacted ?_
    intro row _ habsurd
    exact habsurd.elim

/-- **Screenshots in settled jobs.**  Whatever is called on `SqliteJobQueue`, no settled
screenshot job keeps its payload.  On `PostgresJobQueue` that holds in all states of a run
exactly if no `cancelPending` of the run takes a screenshot job whose payload is still
there.  On neither queue does a call change a settled screenshot job, but for an `enqueue`
that revives a cancelled one. -/
theorem screenshot_redaction (digest : String → String) (timestamp : ℤ → String) :
    (∀ q, SqliteJobQueue.Reached digest q →
      q.ScreenshotsRedacted ∧ q.KeepsScreenshots (SqliteJobQueue.step digest)) ∧
    (∀ q, PostgresQueue.Reached digest timestamp q →
      q.KeepsScreenshots (PostgresQueue.step digest timestamp)) ∧
    ∀ run,
      Transition.EveryState (PostgresQueue.step digest timestamp) Queue.ScreenshotsRedacted
          Queue.empty run ↔
        Transition.EveryStep (PostgresQueue.step digest timestamp)
          PostgresQueue.CancelsNoScreenshot Queue.empty run := by
  refine ⟨fun q hq => ⟨hq.screenshotsRedacted, ?_⟩, fun q hq => ?_, fun run => ?_⟩
  · intro c q' hs row hrow _ hterminal
    exact (SqliteJobQueue.step_rows hq.sound.nodup_id hs).mem_of_terminal hrow hterminal
  · intro c q' hs row hrow _ hterminal
    exact (PostgresQueue.step_rows hq.nodup_id hs).mem_of_terminal hrow hterminal
  · refine Transition.everyState_iff_everyStep
      (I := fun q => (q.jobs.map JobRow.id).Nodup ∧ q.ScreenshotsRedacted) ?_ ?_ ?_ ?_
    · rintro q c q' ⟨hnodup, hredacted⟩ hcancels hs
      have hrows := PostgresQueue.step_rows hnodup hs
      exact ⟨hrows.nodup_id hnodup, hrows.screenshotsRedacted hredacted hcancels⟩
    · exact fun q hq => hq.2
    · -- the row that is cancelled against the condition is in the table afterwards
      intro q c q' _ hs hredacted row hrow hcancels htype
      obtain ⟨now, hmem⟩ := PostgresQueue.mem_of_cancels hs hrow hcancels
      exact hredacted (PostgresQueue.cancelRow now row) hmem htype rfl
    · refine ⟨List.nodup_nil, ?_⟩
      intro row hrow
      cases hrow

/-- A screenshot job that is cancelled before a worker takes it. -/
def cancelledScreenshot : List (ℤ × QueueCall) :=
  [(60, .enqueue ⟨"t1", "ingest.screenshot", "k",
      .obj [("organizationId", .str "org"), ("base64", .str "iVBORw0KGgo=")], none, none, none⟩
      ⟨1000, []⟩),
    (60, .cancelPending ⟨"t1", "ingest.screenshot", []⟩ ⟨2000, []⟩)]

/-- Under Postgres the image of a cancelled screenshot job stays in the table. -/
theorem not_screenshotsRedacted_cancelledScreenshot :
    ∃ q, Transition.exec (PostgresQueue.step id toString) Queue.empty cancelledScreenshot =
        some q ∧ ¬ q.ScreenshotsRedacted ∧
      ∃ row ∈ q.jobs, row.type = "ingest.screenshot" ∧ row.status = .cancelled ∧
        row.payload.get? "base64" = some (.str "iVBORw0KGgo=") ∧ row.redacted = false := by
  obtain ⟨q, hq⟩ : ∃ q, Transition.exec (PostgresQueue.step id toString) Queue.empty
      cancelledScreenshot = some q := ⟨_, rfl⟩
  have hrow : ∃ row ∈ q.jobs, row.type = "ingest.screenshot" ∧ row.status = .cancelled ∧
      row.payload.get? "base64" = some (.str "iVBORw0KGgo=") ∧ row.redacted = false := by
    cases hq
    decide +kernel
  refine ⟨q, hq, fun hredacted => ?_, hrow⟩
  obtain ⟨row, hmem, htype, hcancelled, -, hleft⟩ := hrow
  have hgone := hredacted row hmem htype (by rw [hcancelled]; rfl)
  rw [hleft] at hgone
  cases hgone

end RecruitingOs
