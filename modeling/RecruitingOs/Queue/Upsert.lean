import RecruitingOs.Queue.Columns
import RecruitingOs.Store.Schema

/-!
# What an accepted `enqueue` does

The upsert of both queues keeps the job of the key, unless that is cancelled and starts
afresh, and inserts a job where the key has none.  `Upserted` says so of the two tables and
of the row that the caller is answered with.
-/

namespace RecruitingOs

open SqliteJobQueue (hasKey revive)

variable {digest : String → String} {input : EnqueueJob} {fresh row : JobRow}
  {jobs jobs' : List JobRow}

/-- The table after an accepted `enqueue`, and the row that it reads. -/
inductive Upserted (input : EnqueueJob) (fresh : JobRow) (jobs : List JobRow) :
    List JobRow → JobRow → Prop
  /-- The key has a job. -/
  | kept {row : JobRow} (hrow : row ∈ jobs) (hkey : hasKey input row)
      (live : row.status ≠ .cancelled) : Upserted input fresh jobs jobs row
  /-- The key has a cancelled job. -/
  | revived {old : JobRow} (hold : old ∈ jobs) (hkey : hasKey input old)
      (cancelled : old.status = .cancelled) :
      Upserted input fresh jobs
        (Table.updateWhere (fun row => hasKey input row ∧ row.status = .cancelled) (revive fresh)
          jobs)
        (revive fresh old)
  | inserted (hnew : ∀ row ∈ jobs, ¬ hasKey input row) (hid : ∀ row ∈ jobs, row.id ≠ fresh.id) :
      Upserted input fresh jobs (jobs ++ [fresh]) fresh

/-- Two rows of a key are one. -/
theorem KeyedTable.eq_of_hasKey (h : KeyedTable digest jobs) {a b : JobRow} (ha : a ∈ jobs)
    (hb : b ∈ jobs) (hkey : hasKey input a) (hkey' : hasKey input b) : a = b := by
  obtain ⟨htenant, htype, hidempotency⟩ := SqliteJobQueue.hasKey_iff.mp hkey
  obtain ⟨htenant', htype', hidempotency'⟩ := SqliteJobQueue.hasKey_iff.mp hkey'
  refine h.eq_of_key_eq ha hb ?_
  rw [JobRow.key, JobRow.key, htenant, htype, hidempotency, htenant', htype', hidempotency']

theorem KeyedTable.id_of_hasKey (h : KeyedTable digest jobs) (hrow : row ∈ jobs)
    (hkey : hasKey input row) :
    row.id = jobId digest input.tenantId input.type input.idempotencyKey := by
  obtain ⟨htenant, htype, hidempotency⟩ := SqliteJobQueue.hasKey_iff.mp hkey
  rw [h.id_eq row hrow, htenant, htype, hidempotency]

/-- What the two statements of `enqueue` make of a keyed table. -/
theorem upserted_of (h : KeyedTable digest jobs)
    (hfresh : fresh.id = jobId digest input.tenantId input.type input.idempotencyKey)
    (hjobs : ((∃ row ∈ jobs, hasKey input row) ∧
        jobs' = Table.updateWhere (fun row => hasKey input row ∧ row.status = .cancelled)
          (revive fresh) jobs) ∨
      ((∀ row ∈ jobs, row.id ≠ fresh.id) ∧ jobs' = jobs ++ [fresh]))
    (hrow : row ∈ jobs') (hid : row.id = fresh.id) : Upserted input fresh jobs jobs' row := by
  rcases hjobs with ⟨⟨old, hold, hkey⟩, rfl⟩ | ⟨hnew, rfl⟩
  · obtain ⟨r, hr, rfl⟩ := Table.mem_updateWhere.mp hrow
    have hsame : r.id = fresh.id := by
      split at hid
      · exact hid
      · exact hid
    obtain rfl : r = old := Table.eq_of_key_eq h.nodup_id hr hold
      (hsame.trans (hfresh.trans (h.id_of_hasKey hold hkey).symm))
    by_cases hcancelled : r.status = .cancelled
    · rw [if_pos (decide_eq_true ⟨hkey, hcancelled⟩)]
      exact .revived hr hkey hcancelled
    · have hnone : ∀ other ∈ jobs,
          decide (hasKey input other = true ∧ other.status = .cancelled) = false := by
        intro other hother
        refine decide_eq_false ?_
        rintro ⟨hkey', hcancelled'⟩
        rw [h.eq_of_hasKey hother hr hkey' hkey] at hcancelled'
        exact hcancelled hcancelled'
      rw [hnone r hr, Table.updateWhere_of_none hnone]
      exact .kept hr hkey hcancelled
  · rcases List.mem_append.mp hrow with hold | hlast
    · exact absurd hid (hnew row hold)
    · rw [List.mem_singleton.mp hlast]
      refine .inserted (fun other hother hkey => hnew other hother ?_) hnew
      rw [h.id_of_hasKey hother hkey, hfresh]

/-- The payload of the answer: that of the input, unless the key has a job with another. -/
theorem Upserted.payload_iff (h : Upserted input fresh jobs jobs' row) (hkeyed : KeyedTable digest jobs)
    (hfresh : fresh.payload = input.payload) :
    row.payload = input.payload ↔ ∀ old ∈ jobs, hasKey input old → old.status ≠ .cancelled →
      old.payload = input.payload := by
  cases h with
  | kept hrow hkey live =>
      refine ⟨fun hpayload old hold hkey' _ => ?_, fun hall => hall row hrow hkey live⟩
      rw [hkeyed.eq_of_hasKey hold hrow hkey' hkey]
      exact hpayload
  | @revived old hold hkey cancelled =>
      refine ⟨fun _ other hother hkey' live => ?_, fun _ => hfresh⟩
      rw [hkeyed.eq_of_hasKey hother hold hkey' hkey] at live
      exact absurd cancelled live
  | inserted hnew hid =>
      exact ⟨fun _ other hother hkey => absurd hkey (hnew other hother), fun _ => hfresh⟩

/-- The row that is answered has the key, in the new table. -/
theorem Upserted.mem (h : Upserted input fresh jobs jobs' row) (hfresh : hasKey input fresh)
    (hlive : fresh.status ≠ .cancelled) :
    row ∈ jobs' ∧ hasKey input row ∧ row.status ≠ .cancelled := by
  cases h with
  | kept hrow hkey live => exact ⟨hrow, hkey, live⟩
  | revived hold hkey cancelled =>
      refine ⟨Table.mem_updateWhere.mpr ⟨_, hold, if_pos (decide_eq_true ⟨hkey, cancelled⟩)⟩,
        hkey, ?_⟩
      simp [revive]
  | inserted _ _ => exact ⟨by simp, hfresh, hlive⟩

/-- The job is queued where the key has none but queued and cancelled ones. -/
theorem Upserted.queued (h : Upserted input fresh jobs jobs' row) (hfresh : fresh.status = .queued)
    (hidle : ∀ old ∈ jobs, hasKey input old → old.status = .queued ∨ old.status = .cancelled) :
    row.status = .queued := by
  cases h with
  | kept hrow hkey hlive => exact (hidle row hrow hkey).resolve_right hlive
  | revived _ _ _ => rfl
  | inserted _ _ => exact hfresh

/-- The rows of other keys are the same before and after. -/
theorem Upserted.mem_other (h : Upserted input fresh jobs jobs' row) (hfresh : hasKey input fresh)
    {other : JobRow} (hother : ¬ hasKey input other) : other ∈ jobs' ↔ other ∈ jobs := by
  cases h with
  | kept _ _ _ => rfl
  | revived _ _ _ =>
      rw [Table.mem_updateWhere]
      constructor
      · rintro ⟨old, hold, rfl⟩
        split
        · rename_i hp
          rw [if_pos hp] at hother
          exact absurd (of_decide_eq_true hp).1 hother
        · exact hold
      · intro hmem
        exact ⟨other, hmem, if_neg (by simp [hother])⟩
  | inserted _ _ =>
      rw [List.mem_append, List.mem_singleton]
      refine or_iff_left ?_
      rintro rfl
      exact hother hfresh

/-- No id leaves the table. -/
theorem Upserted.exists_id (h : Upserted input fresh jobs jobs' row) {old : JobRow}
    (hold : old ∈ jobs) : ∃ new ∈ jobs', new.id = old.id := by
  cases h with
  | kept _ _ _ => exact ⟨old, hold, rfl⟩
  | revived _ _ _ =>
      refine ⟨_, Table.mem_updateWhere.mpr ⟨old, hold, rfl⟩, ?_⟩
      split <;> rfl
  | inserted _ _ => exact ⟨old, List.mem_append_left _ hold, rfl⟩

/-- The key had a job, or the id was free. -/
theorem Upserted.known_or_free (h : Upserted input fresh jobs jobs' row) :
    (∃ old ∈ jobs, hasKey input old) ∨ ∀ old ∈ jobs, old.id ≠ fresh.id := by
  cases h with
  | kept hrow hkey _ => exact .inl ⟨_, hrow, hkey⟩
  | revived hold hkey _ => exact .inl ⟨_, hold, hkey⟩
  | inserted _ hid => exact .inr hid

/-- The answer depends on the rows of the key alone. -/
theorem Upserted.row_eq {base base' : List JobRow} {other : JobRow}
    (h : Upserted input fresh jobs jobs' row) (hbase : Upserted input fresh base base' other)
    (hkeyed : KeyedTable digest jobs)
    (hsame : ∀ r, hasKey input r → (r ∈ base ↔ r ∈ jobs)) : other = row := by
  have hmem : ∀ r ∈ base, hasKey input r → r ∈ jobs := fun r hr hkey => (hsame r hkey).mp hr
  cases hbase with
  | kept hother hkey live =>
      cases h with
      | kept hrow hkey' _ => exact hkeyed.eq_of_hasKey (hmem _ hother hkey) hrow hkey hkey'
      | revived hold hkey' cancelled =>
          rw [hkeyed.eq_of_hasKey (hmem _ hother hkey) hold hkey hkey'] at live
          exact absurd cancelled live
      | inserted hnew _ => exact absurd hkey (hnew _ (hmem _ hother hkey))
  | revived hother hkey cancelled =>
      cases h with
      | kept hrow hkey' live =>
          rw [hkeyed.eq_of_hasKey (hmem _ hother hkey) hrow hkey hkey'] at cancelled
          exact absurd cancelled live
      | revived hold hkey' _ =>
          rw [hkeyed.eq_of_hasKey (hmem _ hother hkey) hold hkey hkey']
      | inserted hnew _ => exact absurd hkey (hnew _ (hmem _ hother hkey))
  | inserted hnone _ =>
      cases h with
      | kept hrow hkey _ => exact absurd hkey (hnone _ ((hsame _ hkey).mpr hrow))
      | revived hold hkey _ => exact absurd hkey (hnone _ ((hsame _ hkey).mpr hold))
      | inserted _ _ => rfl

/-! ### Either queue -/

/-- The row that an `enqueue` inserts. -/
def freshRow (dialect : Dialect) (digest : String → String) (input : EnqueueJob)
    (clock : Readings) : JobRow :=
  match dialect with
  | .sqlite => SqliteJobQueue.enqueuedRow digest input (clock.nth 0)
  | .postgres => PostgresQueue.enqueuedRow digest input (clock.nth 0 / 1000) (clock.nth 1)

/-- `map` of either queue. -/
def jobOf (dialect : Dialect) (row : JobRow) : Job :=
  match dialect with
  | .sqlite => row.toJob
  | .postgres => PostgresQueue.toJob row

/-- `queue.enqueue(input)`; `none` where it throws. -/
def enqueueOn (dialect : Dialect) (digest : String → String) (q : Queue) (input : EnqueueJob)
    (clock : Readings) : Option (Queue × Job) :=
  match dialect with
  | .sqlite => (SqliteJobQueue.enqueue digest q input clock).toOption
  | .postgres => (PostgresQueue.enqueue digest q input clock).toOption

/-- The tables that calls on either queue reach. -/
def QueueReached (dialect : Dialect) (digest : String → String) (timestamp : ℤ → String)
    (q : Queue) : Prop :=
  match dialect with
  | .sqlite => SqliteJobQueue.Reached digest q
  | .postgres => PostgresQueue.Reached digest timestamp q

/-- Some calls lead from the one table to the other. -/
def QueueLater (dialect : Dialect) (digest : String → String) (timestamp : ℤ → String)
    (q q' : Queue) : Prop :=
  match dialect with
  | .sqlite => Transition.Later (SqliteJobQueue.step digest) q q'
  | .postgres => Transition.Later (PostgresQueue.step digest timestamp) q q'

theorem QueueReached.later {dialect : Dialect} {timestamp : ℤ → String} {q q' : Queue}
    (h : QueueReached dialect digest timestamp q) (hlater : QueueLater dialect digest timestamp q q') :
    QueueReached dialect digest timestamp q' := by
  cases dialect with
  | sqlite => exact Transition.Reachable.later h hlater
  | postgres => exact Transition.Reachable.later h hlater

theorem QueueReached.keyed {dialect : Dialect} {timestamp : ℤ → String} {q : Queue}
    (h : QueueReached dialect digest timestamp q) : KeyedTable digest q.jobs := by
  cases dialect with
  | sqlite => exact SqliteJobQueue.Reached.keyed h
  | postgres => exact PostgresQueue.Reached.keyed h

theorem PostgresQueue.upsertJob_ok (h : PostgresQueue.upsertJob fresh input jobs = .ok jobs') :
    ((∃ row ∈ jobs, hasKey input row) ∧
        jobs' = Table.updateWhere (fun row => hasKey input row ∧ row.status = .cancelled)
          (revive fresh) jobs) ∨
      ((∀ row ∈ jobs, row.id ≠ fresh.id) ∧ jobs' = jobs ++ [fresh]) := by
  unfold PostgresQueue.upsertJob at h
  split at h
  · rename_i hany
    cases h
    exact .inl ⟨List.any_eq_true.mp hany, rfl⟩
  · split at h
    · cases h
    · rename_i hnew
      cases h
      exact .inr ⟨by simpa using hnew, rfl⟩

theorem jobOf_payload (dialect : Dialect) (row : JobRow) :
    (jobOf dialect row).payload = row.payload := by
  cases dialect <;> rfl

theorem freshRow_spec (dialect : Dialect) (digest : String → String) (input : EnqueueJob)
    (clock : Readings) :
    (freshRow dialect digest input clock).id =
        jobId digest input.tenantId input.type input.idempotencyKey ∧
      (freshRow dialect digest input clock).payload = input.payload ∧
      (freshRow dialect digest input clock).status = .queued ∧
      hasKey input (freshRow dialect digest input clock) := by
  cases dialect <;> refine ⟨rfl, rfl, rfl, ?_⟩ <;>
    simp [freshRow, hasKey, SqliteJobQueue.enqueuedRow, PostgresQueue.enqueuedRow]

section Enqueue

variable {dialect : Dialect} {q q' : Queue} {clock : Readings} {job : Job}

/-- **What an accepted `enqueue` does**, to the table and for its caller. -/
theorem enqueueOn_some (h : KeyedTable digest q.jobs)
    (henqueue : enqueueOn dialect digest q input clock = some (q', job)) :
    ∃ row, Upserted input (freshRow dialect digest input clock) q.jobs q'.jobs row ∧
      job = jobOf dialect row := by
  cases dialect with
  | sqlite =>
      simp only [enqueueOn] at henqueue
      cases henq : SqliteJobQueue.enqueue digest q input clock with
      | error e => rw [henq] at henqueue; cases henqueue
      | ok out =>
          rw [henq] at henqueue
          cases henqueue
          obtain ⟨jobs, hupsert, rfl, row, hrow, hid, rfl⟩ := SqliteJobQueue.enqueue_ok henq
          exact ⟨row, upserted_of h rfl (SqliteJobQueue.upsertJob_ok hupsert) hrow hid, rfl⟩
  | postgres =>
      simp only [enqueueOn, PostgresQueue.enqueue] at henqueue
      split at henqueue
      · split at henqueue
        · cases henqueue
        · rename_i jobs hupsert
          split at henqueue
          · cases henqueue
          · rename_i row hfind
            cases henqueue
            have hid : row.id = (PostgresQueue.enqueuedRow digest input (clock.nth 0 / 1000)
                (clock.nth 1)).id := by
              simpa using List.find?_some hfind
            exact ⟨row, upserted_of h rfl (PostgresQueue.upsertJob_ok hupsert)
              (List.mem_of_find?_eq_some hfind) hid, rfl⟩
      · cases henqueue

/-- The columns can hold the job. -/
def storableOn (dialect : Dialect) (input : EnqueueJob) : Bool :=
  match dialect with
  | .sqlite => true
  | .postgres => PostgresQueue.storable input

/-- The first statement leaves a row with the id of the key. -/
theorem find?_upserted (h : KeyedTable digest jobs)
    (hid : fresh.id = jobId digest input.tenantId input.type input.idempotencyKey)
    (hjobs : ((∃ row ∈ jobs, hasKey input row) ∧
        jobs' = Table.updateWhere (fun row => hasKey input row ∧ row.status = .cancelled)
          (revive fresh) jobs) ∨
      ((∀ row ∈ jobs, row.id ≠ fresh.id) ∧ jobs' = jobs ++ [fresh])) :
    ∃ row, jobs'.find? (fun row => row.id = fresh.id) = some row := by
  refine Option.isSome_iff_exists.mp (List.find?_isSome.mpr ?_)
  rcases hjobs with ⟨⟨old, hold, hkey⟩, rfl⟩ | ⟨-, rfl⟩
  · refine ⟨_, Table.mem_updateWhere.mpr ⟨old, hold, rfl⟩, decide_eq_true ?_⟩
    have hsame : old.id = fresh.id := (h.id_of_hasKey hold hkey).trans hid.symm
    split
    · exact hsame
    · exact hsame
  · exact ⟨fresh, by simp, by simp⟩

/-- An `enqueue` is accepted where the key has a job, or its id is free. -/
theorem enqueueOn_isSome (h : KeyedTable digest q.jobs) (hstorable : storableOn dialect input)
    (hfree : (∃ row ∈ q.jobs, hasKey input row) ∨
      ∀ row ∈ q.jobs, row.id ≠ jobId digest input.tenantId input.type input.idempotencyKey) :
    ∃ q' job, enqueueOn dialect digest q input clock = some (q', job) := by
  have htaken : ¬ q.jobs.any (hasKey input) = true → ¬ q.jobs.any (fun row => row.id =
      jobId digest input.tenantId input.type input.idempotencyKey) = true := by
    intro hkey
    simpa using hfree.resolve_left (by simpa using hkey)
  cases dialect with
  | sqlite =>
      obtain ⟨jobs, hjobs⟩ :
          ∃ jobs, SqliteJobQueue.upsertJob digest input (clock.nth 0) q.jobs = .ok jobs := by
        unfold SqliteJobQueue.upsertJob
        dsimp only
        split
        · exact ⟨_, rfl⟩
        · rename_i hkey
          exact ⟨_, if_neg (htaken hkey)⟩
      obtain ⟨row, hrow⟩ := find?_upserted h rfl (SqliteJobQueue.upsertJob_ok hjobs)
      simp only [enqueueOn, SqliteJobQueue.enqueue, hjobs]
      split
      · rename_i hfind
        cases hfind.symm.trans hrow
      · exact ⟨_, _, rfl⟩
  | postgres =>
      obtain ⟨jobs, hjobs⟩ : ∃ jobs, PostgresQueue.upsertJob (PostgresQueue.enqueuedRow digest
          input (clock.nth 0 / 1000) (clock.nth 1)) input q.jobs = .ok jobs := by
        unfold PostgresQueue.upsertJob
        split
        · exact ⟨_, rfl⟩
        · rename_i hkey
          exact ⟨_, if_neg (htaken hkey)⟩
      obtain ⟨row, hrow⟩ := find?_upserted h rfl (PostgresQueue.upsertJob_ok hjobs)
      simp only [enqueueOn, PostgresQueue.enqueue, hjobs]
      rw [if_pos (show PostgresQueue.storable input from hstorable)]
      split
      · rename_i hfind
        cases hfind.symm.trans hrow
      · exact ⟨_, _, rfl⟩

theorem storableOn_of_enqueueOn (henqueue : enqueueOn dialect digest q input clock = some (q', job)) :
    storableOn dialect input := by
  cases dialect with
  | sqlite => rfl
  | postgres =>
      simp only [enqueueOn, PostgresQueue.enqueue] at henqueue
      split at henqueue
      · assumption
      · cases henqueue

theorem QueueReached.enqueueOn {timestamp : ℤ → String}
    (h : QueueReached dialect digest timestamp q)
    (henqueue : enqueueOn dialect digest q input clock = some (q', job)) :
    QueueReached dialect digest timestamp q' := by
  cases dialect with
  | sqlite =>
      refine Transition.Reachable.next (0, .enqueue input clock) h ?_
      cases henq : SqliteJobQueue.enqueue digest q input clock with
      | error e => rw [RecruitingOs.enqueueOn, henq] at henqueue; cases henqueue
      | ok out =>
          rw [RecruitingOs.enqueueOn, henq] at henqueue
          cases henqueue
          rw [SqliteJobQueue.step, henq]
          rfl
  | postgres =>
      refine Transition.Reachable.next (0, .enqueue input clock) h ?_
      cases henq : PostgresQueue.enqueue digest q input clock with
      | error e => rw [RecruitingOs.enqueueOn, henq] at henqueue; cases henqueue
      | ok out =>
          rw [RecruitingOs.enqueueOn, henq] at henqueue
          cases henqueue
          rw [PostgresQueue.step, henq]
          rfl

end Enqueue

end RecruitingOs
