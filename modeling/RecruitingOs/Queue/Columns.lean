import RecruitingOs.Queue.Redaction

/-!
# The columns that no call changes

A job keeps its id, its key and its creation time for ever; an `enqueue` may append a job,
with the id of its key.  So the id of a row is that of its key, and no two rows have one key,
in every table that calls on either queue reach (`KeyedTable`).
-/

namespace RecruitingOs

/-- The id, the key and the creation time. -/
def JobRow.fixed (row : JobRow) : String × (String × String × String) × ℤ :=
  (row.id, row.key, row.createdAt)

/-- Rows under distinct ids, each the id of its key. -/
structure KeyedTable (digest : String → String) (jobs : List JobRow) : Prop where
  nodup_id : (jobs.map JobRow.id).Nodup
  id_eq : ∀ row ∈ jobs, row.id = jobId digest row.tenantId row.type row.idempotencyKey

namespace KeyedTable

variable {digest : String → String} {jobs jobs' : List JobRow}

/-- A key has one row at most. -/
theorem eq_of_key_eq (h : KeyedTable digest jobs) {a b : JobRow} (ha : a ∈ jobs) (hb : b ∈ jobs)
    (hkey : a.key = b.key) : a = b := by
  refine Table.eq_of_key_eq h.nodup_id ha hb ?_
  obtain ⟨htenant, htype, hidempotency⟩ : a.tenantId = b.tenantId ∧ a.type = b.type ∧
      a.idempotencyKey = b.idempotencyKey := by simpa [JobRow.key] using hkey
  rw [h.id_eq a ha, h.id_eq b hb, htenant, htype, hidempotency]

theorem of_fixed_eq (h : KeyedTable digest jobs) (hfixed : jobs'.map JobRow.fixed = jobs.map JobRow.fixed) :
    KeyedTable digest jobs' where
  nodup_id := by
    have hids := congrArg (List.map Prod.fst) hfixed
    rw [List.map_map, List.map_map] at hids
    exact hids ▸ h.nodup_id
  id_eq := by
    intro row hrow
    obtain ⟨old, hold, hsame⟩ := Table.exists_of_map_eq hfixed hrow
    have hid : old.id = row.id := congrArg Prod.fst hsame
    have hkey : old.key = row.key := congrArg (fun columns => columns.2.1) hsame
    obtain ⟨htenant, htype, hidempotency⟩ : old.tenantId = row.tenantId ∧ old.type = row.type ∧
      old.idempotencyKey = row.idempotencyKey := by simpa [JobRow.key] using hkey
    rw [← hid, ← htenant, ← htype, ← hidempotency]
    exact h.id_eq old hold

theorem append (h : KeyedTable digest jobs) {fresh : JobRow}
    (hid : fresh.id = jobId digest fresh.tenantId fresh.type fresh.idempotencyKey)
    (hnew : ∀ row ∈ jobs, row.id ≠ fresh.id) : KeyedTable digest (jobs ++ [fresh]) where
  nodup_id := Table.nodup_key_append h.nodup_id hnew
  id_eq := by
    intro row hrow
    rcases List.mem_append.mp hrow with hold | hlast
    · exact h.id_eq row hold
    · rw [List.mem_singleton.mp hlast]
      exact hid

end KeyedTable

/-- What a call does to these columns: nothing, or a new row has the id of its key. -/
def FixedAfter (digest : String → String) (q q' : Queue) : Prop :=
  q'.jobs.map JobRow.fixed = q.jobs.map JobRow.fixed ∨
    ∃ fresh : JobRow, fresh.id = jobId digest fresh.tenantId fresh.type fresh.idempotencyKey ∧
      (∀ row ∈ q.jobs, row.id ≠ fresh.id) ∧ q'.jobs = q.jobs ++ [fresh]

theorem FixedAfter.keyed {digest : String → String} {q q' : Queue} (h : FixedAfter digest q q')
    (hq : KeyedTable digest q.jobs) : KeyedTable digest q'.jobs := by
  rcases h with hsame | ⟨fresh, hid, hnew, happend⟩
  · exact hq.of_fixed_eq hsame
  · rw [happend]
    exact hq.append hid hnew

/-- Every row keeps its place in these columns. -/
theorem FixedAfter.exists_fixed {digest : String → String} {q q' : Queue}
    (h : FixedAfter digest q q') {row : JobRow} (hrow : row ∈ q.jobs) :
    ∃ new ∈ q'.jobs, new.fixed = row.fixed := by
  rcases h with hsame | ⟨fresh, -, -, happend⟩
  · exact Table.exists_of_map_eq hsame.symm hrow
  · rw [happend]
    exact ⟨row, List.mem_append_left _ hrow, rfl⟩

/-- A statement that changes other columns. -/
theorem fixed_updateWhere {p : JobRow → Bool} {f : JobRow → JobRow} {jobs : List JobRow}
    (hf : ∀ row, (f row).fixed = row.fixed) :
    (Table.updateWhere p f jobs).map JobRow.fixed = jobs.map JobRow.fixed :=
  Table.map_key_updateWhere _ fun row _ _ => hf row

/-- A redaction changes the payload of a screenshot job only. -/
theorem JobRow.redactScreenshot_other {row : JobRow} (htype : row.type ≠ "ingest.screenshot")
    (redactedAt : ℤ) : row.redactScreenshot redactedAt = row.payload := by
  simp [JobRow.redactScreenshot, htype]

namespace SqliteJobQueue

variable {digest : String → String} {q q' : Queue} {clock : Readings}

theorem enqueue_fixed {input : EnqueueJob} :
    FixedAfter digest q (settled q ((enqueue digest q input clock).map Prod.fst)) := by
  cases henq : enqueue digest q input clock with
  | error e => exact .inl rfl
  | ok out =>
      obtain ⟨jobs, hupsert, hqueue, -⟩ := enqueue_ok henq
      show FixedAfter digest q out.1
      rw [hqueue]
      rcases upsertJob_ok hupsert with ⟨-, rfl⟩ | ⟨hnew, rfl⟩
      · exact .inl (fixed_updateWhere fun _ => rfl)
      · exact .inr ⟨_, rfl, hnew, rfl⟩

theorem cancelPending_fixed {input : CancelPendingJobs} :
    (cancelPending q input clock).1.jobs.map JobRow.fixed = q.jobs.map JobRow.fixed := by
  obtain ⟨change, hmap, hchange⟩ :=
    cancelIds_map clock ((q.jobs.filter (isCancelCandidate input)).map JobRow.id) q.jobs 0
  show (cancelIds _ _ _ _).1.map JobRow.fixed = _
  rw [hmap, List.map_map]
  refine List.map_congr_left fun row _ => ?_
  show (change row).fixed = row.fixed
  rcases hchange row with hsame | ⟨-, _, _, hcancel⟩
  · rw [hsame]
  · rw [hcancel]
    rfl

theorem leaseNext_fixed {workerId : String} {leaseSeconds : ℤ} {pick : Option String}
    {out : Option Job} (h : leaseNext q workerId leaseSeconds pick clock = some (q', out)) :
    q'.jobs.map JobRow.fixed = q.jobs.map JobRow.fixed := by
  have hsweep : (sweep clock q.jobs).map JobRow.fixed = q.jobs.map JobRow.fixed :=
    fixed_updateWhere fun _ => rfl
  rcases leaseNext_some h with ⟨-, -, -, rfl⟩ | ⟨row, -, -, -, -, hjobs, -⟩
  · exact hsweep
  · rw [hjobs, ← hsweep]
    exact fixed_updateWhere fun _ => rfl

/-- A renewal that is refused leaves the queue alone. -/
theorem renewLease_none {job : Job} {leaseSeconds : ℤ}
    (h : renewLease q job leaseSeconds clock = (q', none)) : q' = q := by
  unfold renewLease at h
  split at h
  · dsimp only at h
    split at h
    · cases h
    · exact (congrArg Prod.fst h).symm
  · exact (congrArg Prod.fst h).symm

/-- An update for the holder of a lease: it leaves the columns that no call changes, redacts a
screenshot at most, and puts no job before the call. -/
structure LeaseUpdate (now : ℤ) (f : JobRow → JobRow) : Prop where
  fixed : ∀ row, (f row).fixed = row.fixed
  payload : ∀ row : JobRow, row.type ≠ "ingest.screenshot" → (f row).payload = row.payload
  availableAt : ∀ row, (f row).availableAt = row.availableAt ∨ now ≤ (f row).availableAt

/-- A call that presents a handle updates what the handle holds, or nothing. -/
def HeldUpdate (job : Job) (now : ℤ) (q q' : Queue) : Prop :=
  q' = q ∨ ∃ leasedBy leasedUntil reading f, job.leasedBy = some leasedBy ∧ LeaseUpdate now f ∧
    q' = { q with
      jobs := Table.updateWhere (holdsLease job.id leasedBy leasedUntil reading) f q.jobs }

theorem renewLease_held {job : Job} {leaseSeconds : ℤ} :
    HeldUpdate job clock.start q (renewLease q job leaseSeconds clock).1 := by
  rcases hrenew : renewLease q job leaseSeconds clock with ⟨q', renewed⟩
  cases renewed with
  | none => exact .inl (renewLease_none hrenew)
  | some renewed =>
      obtain ⟨_, _, hjob, -, -, -, rfl⟩ := renewLease_some hrenew
      refine .inr ⟨_, _, _, _, hjob, ?_, rfl⟩
      exact ⟨fun _ => rfl, fun _ _ => rfl, fun _ => .inl rfl⟩

theorem complete_held {job : Job} :
    HeldUpdate job clock.start q (settled q (complete q job clock)) := by
  cases hcomplete : complete q job clock with
  | error e => exact .inl rfl
  | ok q' =>
      obtain ⟨_, _, hjob, -, -, rfl⟩ := complete_ok hcomplete
      refine .inr ⟨_, _, _, _, hjob, ?_, rfl⟩
      exact ⟨fun _ => rfl, fun _ htype => JobRow.redactScreenshot_other htype _,
        fun _ => .inl rfl⟩

theorem fail_held {job : Job} {message : String} :
    HeldUpdate job clock.start q (settled q (fail q job message clock)) := by
  cases hfail : fail q job message clock with
  | error e => exact .inl rfl
  | ok q' =>
      obtain ⟨_, _, hjob, -, -, rfl⟩ := fail_ok hfail
      have hlater : clock.start ≤ clock.nth 0 + retryDelay job.attemptCount * 1000 := by
        have hstart := clock.start_le_nth 0
        omega
      refine .inr ⟨_, _, _, _, hjob, ?_, rfl⟩
      refine ⟨fun _ => rfl, fun row htype => ?_, fun _ => .inr hlater⟩
      dsimp only [failRow]
      split
      · exact JobRow.redactScreenshot_other htype _
      · rfl

theorem HeldUpdate.fixed {job : Job} {now : ℤ} (h : HeldUpdate job now q q') :
    q'.jobs.map JobRow.fixed = q.jobs.map JobRow.fixed := by
  rcases h with rfl | ⟨_, _, _, f, -, hf, rfl⟩
  · rfl
  · exact fixed_updateWhere hf.fixed

theorem step_fixed {c : ℤ × QueueCall} (hs : step digest q c = some q') :
    FixedAfter digest q q' := by
  obtain ⟨leaseSeconds, call⟩ := c
  cases call with
  | enqueue input clock => cases hs; exact enqueue_fixed
  | cancelPending input clock => cases hs; exact .inl cancelPending_fixed
  | leaseNext workerId pick clock =>
      simp only [step, Option.map_eq_some_iff] at hs
      obtain ⟨⟨q', out⟩, hlease, rfl⟩ := hs
      exact .inl (leaseNext_fixed hlease)
  | renewLease job clock => cases hs; exact .inl renewLease_held.fixed
  | complete job clock => cases hs; exact .inl complete_held.fixed
  | fail job message clock => cases hs; exact .inl fail_held.fixed

theorem Reached.keyed (h : Reached digest q) : KeyedTable digest q.jobs := by
  refine Transition.Reachable.invariant ?_ (fun _ _ _ _ hq hs => (step_fixed hs).keyed hq) h
  rintro _ rfl
  exact ⟨List.nodup_nil, by intro row hrow; cases hrow⟩

end SqliteJobQueue

namespace PostgresQueue

open SqliteJobQueue (settled)

variable {digest : String → String} {timestamp : ℤ → String} {q q' : Queue} {clock : Readings}

theorem enqueue_fixed {input : EnqueueJob} :
    FixedAfter digest q (settled q ((enqueue digest q input clock).map Prod.fst)) := by
  unfold enqueue
  split
  · dsimp only
    split
    · exact .inl rfl
    · rename_i jobs hupsert
      split
      · exact .inl rfl
      · unfold upsertJob at hupsert
        split at hupsert
        · cases hupsert
          exact .inl (fixed_updateWhere fun _ => rfl)
        · split at hupsert
          · cases hupsert
          · rename_i hnew
            cases hupsert
            exact .inr ⟨_, rfl, by simpa using hnew, rfl⟩
  · exact .inl rfl

theorem leaseNext_fixed {workerId : String} {leaseSeconds : ℤ} {pick : Option String}
    {result : Except PostgresQueueError (Queue × Option Job)}
    (h : leaseNext timestamp q workerId leaseSeconds pick clock = some result) :
    (settled q (result.map Prod.fst)).jobs.map JobRow.fixed = q.jobs.map JobRow.fixed := by
  have hsweep : (sweep timestamp (clock.nth 1) q.jobs).map JobRow.fixed =
      q.jobs.map JobRow.fixed := fixed_updateWhere fun _ => rfl
  unfold leaseNext at h
  dsimp only at h
  split at h
  · split at h
    · split at h
      · split at h
        · cases h
          exact hsweep
        · cases h
      · split at h
        · cases h
        · split at h
          · cases h
            rw [← hsweep]
            exact fixed_updateWhere fun _ => rfl
          · cases h
    · cases h
      rfl
  · cases h
    rfl

theorem finishRow_fixed {failure : Option String} {now : ℤ} (row : JobRow) :
    (finishRow timestamp failure now row).fixed = row.fixed := by
  unfold finishRow
  dsimp only
  split
  · rfl
  · split <;> rfl

theorem finishJob_fixed {id : String} {expectedLease : Option ℤ} {worker failure : Option String}
    {now : ℤ} :
    (settled q (finishJob timestamp q id expectedLease worker failure now)).jobs.map JobRow.fixed =
      q.jobs.map JobRow.fixed := by
  unfold finishJob
  split
  · rfl
  · split
    · rfl
    · exact fixed_updateWhere finishRow_fixed

theorem step_fixed {c : ℤ × QueueCall} (hs : step digest timestamp q c = some q') :
    FixedAfter digest q q' := by
  obtain ⟨leaseSeconds, call⟩ := c
  cases call with
  | enqueue input clock => cases hs; exact enqueue_fixed
  | cancelPending input clock =>
      cases hs
      unfold cancelPending
      split
      · exact .inl (fixed_updateWhere fun _ => rfl)
      · exact .inl rfl
  | leaseNext workerId pick clock =>
      simp only [step, Option.map_eq_some_iff] at hs
      obtain ⟨result, hlease, rfl⟩ := hs
      exact .inl (leaseNext_fixed hlease)
  | renewLease job clock =>
      cases hs
      unfold renewLease
      split
      · split
        · dsimp only
          split
          · exact .inl (fixed_updateWhere fun _ => rfl)
          · exact .inl rfl
        · exact .inl rfl
      · exact .inl rfl
  | complete job clock => cases hs; exact .inl finishJob_fixed
  | fail job message clock =>
      cases hs
      unfold fail
      dsimp only
      split
      · exact .inl finishJob_fixed
      · exact .inl rfl

theorem Reached.keyed (h : Reached digest timestamp q) : KeyedTable digest q.jobs := by
  refine Transition.Reachable.invariant ?_ (fun _ _ _ _ hq hs => (step_fixed hs).keyed hq) h
  rintro _ rfl
  exact ⟨List.nodup_nil, by intro row hrow; cases hrow⟩

end PostgresQueue

end RecruitingOs
