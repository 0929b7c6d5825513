import RecruitingOs.Queue.Run

/-!
# The invariant of queue runs

`RowInv` ties a row to the history of its job, `HandleInv` a handle that some
caller has to the row it was read from.  The link between the two is the clock:
every lease token that exists is at most one lease length ahead of the last call
on its job, so the next token is ahead of them all and tokens never recur.

The operations change the table in four ways only, and each has one lemma:

* `Inv.release` — rows lose their lease or leave the queue (the sweep of
  `leaseNext`, `cancelPending`, `complete`, `fail`);
* `Inv.relet` — one row gets a new lease token (`leaseNext`, `renewLease`);
* `Inv.insert` and `Inv.revive` — the two effects of the upsert of `enqueue`.

`Inv.step` assembles them, and `Reached.inv` is the invariant over runs.
-/

namespace RecruitingOs

namespace QueueRun

open SqliteJobQueue

variable {digest : String → String} {leaseSeconds : ℤ} {s : QueueRun}

/-- A lease token is at most one lease length ahead of the last call on its job. -/
def TokenBound (leaseSeconds : ℤ) (s : QueueRun) (id : String) (token : Option ℤ) : Prop :=
  ∀ u, token = some u → ∃ t, s.lastCall id = some t ∧ u ≤ t + leaseSeconds * 1000

/-- What holds of a row of the table in every state of a run. -/
structure RowInv (digest : String → String) (leaseSeconds : ℤ) (s : QueueRun)
    (row : JobRow) : Prop where
  id_eq : row.id = jobId digest row.tenantId row.type row.idempotencyKey
  running_iff : row.status = .running ↔ row.leasedBy.isSome ∧ row.leasedUntil.isSome
  unleased : row.status ≠ .running → row.leasedBy = none ∧ row.leasedUntil = none
  attempts_le : row.attemptCount ≤ row.maxAttempts
  attempts_pos : row.status = .running → 1 ≤ row.attemptCount
  attempts_lt : row.status.pending → row.attemptCount < row.maxAttempts
  leases_eq : s.leases row.id = row.attemptCount
  latest_eq : row.status = .running → s.latest row.id = some row.toJob
  bounded : TokenBound leaseSeconds s row.id row.leasedUntil

/-- What holds of a handle that a caller has: if its token is still the row's, then
it is what the row reads back. -/
structure HandleInv (leaseSeconds : ℤ) (s : QueueRun) (job : Job) : Prop where
  bounded : TokenBound leaseSeconds s job.id job.leasedUntil
  current : ∀ row ∈ s.queue.jobs, row.id = job.id →
    ∀ u, job.leasedUntil = some u → row.leasedUntil = some u → job = row.toJob

/-- The invariant of queue runs. -/
structure Inv (digest : String → String) (leaseSeconds : ℤ) (s : QueueRun) : Prop where
  nodup_id : (s.queue.jobs.map JobRow.id).Nodup
  rows : ∀ row ∈ s.queue.jobs, RowInv digest leaseSeconds s row
  handles : ∀ job ∈ s.issued, HandleInv leaseSeconds s job

theorem inv_empty : Inv digest leaseSeconds QueueRun.empty where
  nodup_id := List.nodup_nil
  rows := by intro row hrow; simp [QueueRun.empty, Queue.empty] at hrow
  handles := by intro job hjob; simp [QueueRun.empty] at hjob

/-! ### The clock -/

theorem advances_iff {ids : List String} {clock : Readings} :
    s.advances ids clock ↔ ∀ id ∈ ids, ∀ t, s.lastCall id = some t → t < clock.start := by
  simp only [QueueRun.advances, List.all_eq_true]
  constructor
  · intro h id hid t ht
    simpa [ht] using h id hid
  · intro h id hid
    cases ht : s.lastCall id with
    | none => rfl
    | some t => simpa using h id hid t ht

/-- A recorded call moves the clock of a job forward. -/
theorem touch_le {ids : List String} {clock : Readings} (adv : s.advances ids clock)
    {id : String} {t : ℤ} (ht : s.lastCall id = some t) :
    ∃ t', (s.touch ids clock).lastCall id = some t' ∧ t ≤ t' := by
  by_cases hid : id ∈ ids
  · refine ⟨clock.finish, by simp [QueueRun.touch, hid], ?_⟩
    exact ((advances_iff.mp adv id hid t ht).le).trans clock.start_le_finish
  · exact ⟨t, by simp [QueueRun.touch, hid, ht], le_rfl⟩

/-- Token bounds survive a later state of the clock. -/
theorem TokenBound.later {s' : QueueRun} {id : String} {token : Option ℤ}
    (h : TokenBound leaseSeconds s id token)
    (hc : ∀ t, s.lastCall id = some t → ∃ t', s'.lastCall id = some t' ∧ t ≤ t') :
    TokenBound leaseSeconds s' id token := by
  intro u hu
  obtain ⟨t, ht, hut⟩ := h u hu
  obtain ⟨t', ht', htt'⟩ := hc t ht
  exact ⟨t', ht', by omega⟩

/-- A row keeps its invariant in a state that agrees on its job's history. -/
theorem RowInv.transfer {s' : QueueRun} {row : JobRow}
    (h : RowInv digest leaseSeconds s row)
    (hleases : s'.leases row.id = s.leases row.id)
    (hlatest : s'.latest row.id = s.latest row.id)
    (hc : ∀ t, s.lastCall row.id = some t → ∃ t', s'.lastCall row.id = some t' ∧ t ≤ t') :
    RowInv digest leaseSeconds s' row :=
  { h with
    leases_eq := hleases.trans h.leases_eq
    latest_eq := fun hr => hlatest.trans (h.latest_eq hr)
    bounded := h.bounded.later hc }

theorem Inv.touch (h : Inv digest leaseSeconds s) {ids : List String} {clock : Readings}
    (adv : s.advances ids clock) : Inv digest leaseSeconds (s.touch ids clock) where
  nodup_id := h.nodup_id
  rows := fun row hrow => (h.rows row hrow).transfer rfl rfl fun _ ht => touch_le adv ht
  handles := fun job hjob =>
    { bounded := (h.handles job hjob).bounded.later fun _ ht => touch_le adv ht
      current := (h.handles job hjob).current }

/-! ### Rows that lose their lease -/

/-- `new` is `row` without its lease, no longer running, and pending only while
attempts remain. -/
structure Released (row new : JobRow) : Prop where
  id : new.id = row.id
  tenantId : new.tenantId = row.tenantId
  type : new.type = row.type
  idempotencyKey : new.idempotencyKey = row.idempotencyKey
  attemptCount : new.attemptCount = row.attemptCount
  maxAttempts : new.maxAttempts = row.maxAttempts
  status : new.status ≠ .running
  leasedBy : new.leasedBy = none
  leasedUntil : new.leasedUntil = none
  pending : new.status.pending → row.attemptCount < row.maxAttempts

theorem RowInv.released {row new : JobRow} (h : RowInv digest leaseSeconds s row)
    (hr : Released row new) : RowInv digest leaseSeconds s new where
  id_eq := by rw [hr.id, hr.tenantId, hr.type, hr.idempotencyKey]; exact h.id_eq
  running_iff := by simp [hr.status, hr.leasedBy]
  unleased := fun _ => ⟨hr.leasedBy, hr.leasedUntil⟩
  attempts_le := by rw [hr.attemptCount, hr.maxAttempts]; exact h.attempts_le
  attempts_pos := fun hrun => absurd hrun hr.status
  attempts_lt := by rw [hr.attemptCount, hr.maxAttempts]; exact hr.pending
  leases_eq := by rw [hr.id, hr.attemptCount]; exact h.leases_eq
  latest_eq := fun hrun => absurd hrun hr.status
  bounded := by intro u hu; rw [hr.leasedUntil] at hu; cases hu

/-- **Releasing rows** keeps the invariant. -/
theorem Inv.release (h : Inv digest leaseSeconds s) {p : JobRow → Bool} {f : JobRow → JobRow}
    (hf : ∀ row ∈ s.queue.jobs, p row → Released row (f row)) :
    Inv digest leaseSeconds
      { s with queue := { s.queue with jobs := Table.updateWhere p f s.queue.jobs } } where
  nodup_id := by
    have hkey := Table.map_key_updateWhere JobRow.id fun row hrow hp => (hf row hrow hp).id
    rw [hkey]
    exact h.nodup_id
  rows := by
    intro new hnew
    obtain ⟨row, hrow, rfl⟩ := Table.mem_updateWhere.mp hnew
    by_cases hp : p row
    · rw [if_pos hp]
      exact ((h.rows row hrow).released (hf row hrow hp)).transfer rfl rfl
        fun t ht => ⟨t, ht, le_rfl⟩
    · rw [if_neg hp]
      exact (h.rows row hrow).transfer rfl rfl fun t ht => ⟨t, ht, le_rfl⟩
  handles := fun job hjob =>
    { bounded := (h.handles job hjob).bounded
      current := by
        intro new hnew hid u hu hnu
        obtain ⟨row, hrow, rfl⟩ := Table.mem_updateWhere.mp hnew
        by_cases hp : p row
        · rw [if_pos hp, (hf row hrow hp).leasedUntil] at hnu
          cases hnu
        · rw [if_neg hp] at hid hnu ⊢
          exact (h.handles job hjob).current row hrow hid u hu hnu }

/-! ### A row that gets a new token -/

/-- `new` is `row` under a lease that a call with these readings has issued. -/
structure Relet (leaseSeconds : ℤ) (clock : Readings) (row new : JobRow) : Prop where
  id : new.id = row.id
  tenantId : new.tenantId = row.tenantId
  type : new.type = row.type
  idempotencyKey : new.idempotencyKey = row.idempotencyKey
  status : new.status = .running
  leasedBy : new.leasedBy.isSome
  attempts_pos : 1 ≤ new.attemptCount
  attempts_le : new.attemptCount ≤ new.maxAttempts
  token : ∃ i, new.leasedUntil = some (clock.nth i + leaseSeconds * 1000)

/-- **A new token** keeps the invariant: it lies ahead of every token that exists,
so no handle but the new one matches the row. -/
theorem Inv.relet (h : Inv digest leaseSeconds s) {row new : JobRow}
    (hrow : row ∈ s.queue.jobs) {clock : Readings} (hr : Relet leaseSeconds clock row new)
    {ids : List String} (hid : row.id ∈ ids) (adv : s.advances ids clock) {s' : QueueRun}
    (hjobs : s'.queue.jobs =
      Table.updateWhere (fun r => r.id = row.id) (fun _ => new) s.queue.jobs)
    (hissued : s'.issued = new.toJob :: s.issued)
    (hlatest : s'.latest = Function.update s.latest row.id (some new.toJob))
    (hleases : s'.leases = Function.update s.leases row.id new.attemptCount)
    (hlast : s'.lastCall = (s.touch ids clock).lastCall) : Inv digest leaseSeconds s' := by
  obtain ⟨i, htoken⟩ := hr.token
  have hlater : ∀ id t, s.lastCall id = some t →
      ∃ t', s'.lastCall id = some t' ∧ t ≤ t' := by
    intro id t ht
    rw [hlast]
    exact touch_le adv ht
  have hnewBound : TokenBound leaseSeconds s' row.id new.leasedUntil := by
    intro u hu
    rw [htoken, Option.some_inj] at hu
    refine ⟨clock.finish, by rw [hlast]; simp [QueueRun.touch, hid], ?_⟩
    have := clock.nth_le_finish i
    omega
  have hmem : ∀ r, r ∈ s'.queue.jobs → r = new ∨ (r ∈ s.queue.jobs ∧ r.id ≠ row.id) := by
    intro r hr'
    rw [hjobs] at hr'
    obtain ⟨old, hold, rfl⟩ := Table.mem_updateWhere.mp hr'
    by_cases hp : old.id = row.id
    · left; simp [hp]
    · right; simp [hp, hold]
  refine ⟨?_, ?_, ?_⟩
  · have hkey : s'.queue.jobs.map JobRow.id = s.queue.jobs.map JobRow.id := by
      rw [hjobs]
      apply Table.map_key_updateWhere
      intro r _ hp
      exact hr.id.trans (of_decide_eq_true hp).symm
    rw [hkey]
    exact h.nodup_id
  · intro r hr'
    rcases hmem r hr' with rfl | ⟨hold, hne⟩
    · have hrowInv := h.rows row hrow
      exact
        { id_eq := by rw [hr.id, hr.tenantId, hr.type, hr.idempotencyKey]; exact hrowInv.id_eq
          running_iff := by simp [hr.status, hr.leasedBy, htoken]
          unleased := fun hrun => absurd hr.status hrun
          attempts_le := hr.attempts_le
          attempts_pos := fun _ => hr.attempts_pos
          attempts_lt := by rw [hr.status]; intro hp; cases hp
          leases_eq := by rw [hleases, hr.id, Function.update_self]
          latest_eq := fun _ => by rw [hlatest, hr.id, Function.update_self]
          bounded := by rw [hr.id]; exact hnewBound }
    · exact (h.rows r hold).transfer (by rw [hleases, Function.update_of_ne hne])
        (by rw [hlatest, Function.update_of_ne hne]) (hlater r.id)
  · intro job hjob
    rw [hissued] at hjob
    rcases List.mem_cons.mp hjob with rfl | hold
    · refine ⟨?_, ?_⟩
      · have : new.toJob.id = row.id := hr.id
        rw [this]
        exact hnewBound
      · intro r hr' hrid u _ _
        rcases hmem r hr' with rfl | ⟨_, hne⟩
        · rfl
        · exact absurd (hrid.trans hr.id) hne
    · refine ⟨(h.handles job hold).bounded.later (hlater job.id), ?_⟩
      intro r hr' hrid u hu hru
      rcases hmem r hr' with rfl | ⟨hr'', _⟩
      · -- the handle's token is older than the one just issued
        exfalso
        obtain ⟨t, ht, hut⟩ := (h.handles job hold).bounded u hu
        rw [htoken, Option.some_inj] at hru
        have hlt : t < clock.start :=
          advances_iff.mp adv row.id hid t (by rw [← hr.id, hrid]; exact ht)
        have := clock.start_le_nth i
        omega
      · exact (h.handles job hold).current r hr'' hrid u hu hru

/-! ### The upsert of `enqueue` -/

/-- Handing out what a row reads back. -/
theorem Inv.issue (h : Inv digest leaseSeconds s) {row : JobRow} (hrow : row ∈ s.queue.jobs) :
    Inv digest leaseSeconds { s with issued := row.toJob :: s.issued } where
  nodup_id := h.nodup_id
  rows := fun r hr => (h.rows r hr).transfer rfl rfl fun t ht => ⟨t, ht, le_rfl⟩
  handles := by
    intro job hjob
    rcases List.mem_cons.mp hjob with rfl | hold
    · refine ⟨(h.rows row hrow).bounded, ?_⟩
      intro r hr hid _ _ _
      rw [Table.eq_of_key_eq h.nodup_id hr hrow hid]
    · exact ⟨(h.handles job hold).bounded, (h.handles job hold).current⟩

/-- A job that has just been enqueued. -/
theorem rowInv_fresh {row : JobRow}
    (hid : row.id = jobId digest row.tenantId row.type row.idempotencyKey)
    (hstatus : row.status = .queued) (hby : row.leasedBy = none)
    (huntil : row.leasedUntil = none) (hcount : row.attemptCount = 0)
    (hmax : 1 ≤ row.maxAttempts) (hleases : s.leases row.id = 0) :
    RowInv digest leaseSeconds s row where
  id_eq := hid
  running_iff := by simp [hstatus, hby]
  unleased := fun _ => ⟨hby, huntil⟩
  attempts_le := by omega
  attempts_pos := by rw [hstatus]; intro hr; cases hr
  attempts_lt := fun _ => by omega
  leases_eq := by rw [hleases, hcount]
  latest_eq := by rw [hstatus]; intro hr; cases hr
  bounded := by intro u hu; rw [huntil] at hu; cases hu

/-- **Inserting** a job under a new id. -/
theorem Inv.insert (h : Inv digest leaseSeconds s) {new : JobRow}
    (hnew : ∀ row ∈ s.queue.jobs, row.id ≠ new.id)
    (huntil : new.leasedUntil = none)
    (hinv : RowInv digest leaseSeconds { s with leases := Function.update s.leases new.id 0 } new) :
    Inv digest leaseSeconds
      { s with
        queue := { s.queue with jobs := s.queue.jobs ++ [new] }
        leases := Function.update s.leases new.id 0 } where
  nodup_id := Table.nodup_key_append h.nodup_id hnew
  rows := by
    intro row hrow
    rcases List.mem_append.mp hrow with hold | hlast
    · refine (h.rows row hold).transfer ?_ rfl fun t ht => ⟨t, ht, le_rfl⟩
      exact Function.update_of_ne (hnew row hold) _ _
    · rw [List.mem_singleton.mp hlast]
      exact hinv.transfer rfl rfl fun t ht => ⟨t, ht, le_rfl⟩
  handles := fun job hjob =>
    { bounded := (h.handles job hjob).bounded
      current := by
        intro row hrow hid u hu hru
        rcases List.mem_append.mp hrow with hold | hlast
        · exact (h.handles job hjob).current row hold hid u hu hru
        · rw [List.mem_singleton.mp hlast, huntil] at hru
          cases hru }

/-- **Reviving** the cancelled job of an id. -/
theorem Inv.revive (h : Inv digest leaseSeconds s) {p : JobRow → Bool} {fresh : JobRow}
    {id : String} (hp : ∀ row ∈ s.queue.jobs, p row ↔ row.id = id) (hmax : 1 ≤ fresh.maxAttempts) :
    Inv digest leaseSeconds
      { s with
        queue := ⟨Table.updateWhere p (SqliteJobQueue.revive fresh) s.queue.jobs,
          s.queue.tenantQueueState⟩
        leases := Function.update s.leases id 0 } where
  nodup_id := by
    have hkey : (Table.updateWhere p (SqliteJobQueue.revive fresh) s.queue.jobs).map JobRow.id =
        s.queue.jobs.map JobRow.id := Table.map_key_updateWhere _ fun _ _ _ => rfl
    rw [hkey]
    exact h.nodup_id
  rows := by
    intro new hnew
    obtain ⟨row, hrow, rfl⟩ := Table.mem_updateWhere.mp hnew
    by_cases hrid : row.id = id
    · rw [if_pos ((hp row hrow).mpr hrid)]
      refine rowInv_fresh (h.rows row hrow).id_eq rfl rfl rfl rfl hmax ?_
      change Function.update s.leases id 0 row.id = 0
      rw [hrid, Function.update_self]
    · rw [if_neg (fun hpr => hrid ((hp row hrow).mp hpr))]
      refine (h.rows row hrow).transfer ?_ rfl fun t ht => ⟨t, ht, le_rfl⟩
      exact Function.update_of_ne hrid _ _
  handles := fun job hjob =>
    { bounded := (h.handles job hjob).bounded
      current := by
        intro new hnew hid u hu hru
        obtain ⟨row, hrow, rfl⟩ := Table.mem_updateWhere.mp hnew
        by_cases hrid : row.id = id
        · rw [if_pos ((hp row hrow).mpr hrid)] at hru
          cases hru
        · rw [if_neg (fun hpr => hrid ((hp row hrow).mp hpr))] at hid hru ⊢
          exact (h.handles job hjob).current row hrow hid u hu hru }

/-! ### The operations -/

theorem enqueuedRow_id (digest : String → String) (input : EnqueueJob) (now : ℤ) :
    (enqueuedRow digest input now).id =
      jobId digest input.tenantId input.type input.idempotencyKey := rfl

/-- In a run, the rows with the key of an input are those with its id, as long as
one of them has the key. -/
theorem Inv.hasKey_iff_id (h : Inv digest leaseSeconds s) {input : EnqueueJob} {keyed : JobRow}
    (hkeyed : keyed ∈ s.queue.jobs) (hk : hasKey input keyed) {row : JobRow}
    (hrow : row ∈ s.queue.jobs) :
    hasKey input row ↔ row.id = jobId digest input.tenantId input.type input.idempotencyKey := by
  have idOfKey : ∀ r ∈ s.queue.jobs, hasKey input r →
      r.id = jobId digest input.tenantId input.type input.idempotencyKey := by
    intro r hr hkr
    obtain ⟨h1, h2, h3⟩ := hasKey_iff.mp hkr
    rw [(h.rows r hr).id_eq, h1, h2, h3]
  constructor
  · exact idOfKey row hrow
  · intro hid
    have hsame : row = keyed :=
      Table.eq_of_key_eq h.nodup_id hrow hkeyed (hid.trans (idOfKey keyed hkeyed hk).symm)
    rw [hsame]
    exact hk

/-- In a run, a key has one row. -/
theorem Inv.eq_of_hasKey (h : Inv digest leaseSeconds s) {input : EnqueueJob}
    {keyed row : JobRow} (hkeyed : keyed ∈ s.queue.jobs) (hk : hasKey input keyed)
    (hrow : row ∈ s.queue.jobs) (hkr : hasKey input row) : row = keyed :=
  Table.eq_of_key_eq h.nodup_id hrow hkeyed
    (((h.hasKey_iff_id hkeyed hk hrow).mp hkr).trans
      ((h.hasKey_iff_id hkeyed hk hkeyed).mp hk).symm)

/-- The upsert leaves the table as it is where the key has a job that is not
cancelled. -/
theorem Inv.upsert_live (h : Inv digest leaseSeconds s) {input : EnqueueJob}
    {keyed fresh : JobRow} (hkeyed : keyed ∈ s.queue.jobs) (hk : hasKey input keyed)
    (hlive : keyed.status ≠ .cancelled) :
    Table.updateWhere (fun row => hasKey input row ∧ row.status = .cancelled)
      (SqliteJobQueue.revive fresh) s.queue.jobs = s.queue.jobs := by
  apply Table.updateWhere_of_none
  intro row hrow
  apply decide_eq_false
  rintro ⟨hkr, hcancelled⟩
  have hsame : row = keyed := h.eq_of_hasKey hkeyed hk hrow hkr
  exact hlive (hsame ▸ hcancelled)

/-- The upsert keeps the invariant, with the lease count that the run keeps. -/
theorem Inv.upsert (h : Inv digest leaseSeconds s) {input : EnqueueJob} {now : ℤ}
    {jobs : List JobRow} (hmax : 1 ≤ input.maxAttempts.getD 5)
    (hu : upsertJob digest input now s.queue.jobs = .ok jobs) :
    Inv digest leaseSeconds
      { s with
        queue := { s.queue with jobs := jobs }
        leases := if s.hasLiveJob input then s.leases else
          Function.update s.leases
            (jobId digest input.tenantId input.type input.idempotencyKey) 0 } := by
  rcases upsertJob_ok hu with ⟨⟨keyed, hkeyed, hk⟩, rfl⟩ | ⟨hnew, rfl⟩
  · by_cases hcancelled : keyed.status = .cancelled
    · -- the only row of the key is cancelled, so the upsert revives it
      have hlive : s.hasLiveJob input = false := by
        simp only [QueueRun.hasLiveJob, List.any_eq_false]
        intro row hrow hlive
        obtain ⟨hkr, hne⟩ := of_decide_eq_true hlive
        rw [h.eq_of_hasKey hkeyed hk hrow hkr] at hne
        exact hne hcancelled
      rw [hlive]
      refine h.revive ?_ hmax
      intro row hrow
      rw [← h.hasKey_iff_id hkeyed hk hrow]
      constructor
      · intro hp
        exact (of_decide_eq_true hp).1
      · intro hkr
        exact decide_eq_true ⟨hkr, by rw [h.eq_of_hasKey hkeyed hk hrow hkr]; exact hcancelled⟩
    · have hlive : s.hasLiveJob input = true := by
        simp only [QueueRun.hasLiveJob, List.any_eq_true]
        exact ⟨keyed, hkeyed, decide_eq_true ⟨hk, hcancelled⟩⟩
      rw [hlive, h.upsert_live hkeyed hk hcancelled]
      exact h
  · have hlive : s.hasLiveJob input = false := by
      simp only [QueueRun.hasLiveJob, List.any_eq_false]
      intro row hrow hlive
      obtain ⟨h1, h2, h3⟩ := hasKey_iff.mp (of_decide_eq_true hlive).1
      apply hnew row hrow
      rw [(h.rows row hrow).id_eq, h1, h2, h3, enqueuedRow_id]
    rw [hlive]
    refine h.insert hnew rfl (rowInv_fresh rfl rfl rfl rfl rfl hmax ?_)
    exact Function.update_self _ _ _

/-- A statement that clears the lease and sets neither the key nor the attempts
releases the row. -/
theorem Released.of_eq {row new : JobRow}
    (heq : new =
      { row with
        status := new.status, availableAt := new.availableAt, leasedUntil := none,
        leasedBy := none, lastError := new.lastError, payload := new.payload,
        updatedAt := new.updatedAt })
    (hstatus : new.status ≠ .running)
    (hpending : new.status.pending → row.attemptCount < row.maxAttempts) :
    Released row new where
  id := by rw [heq]
  tenantId := by rw [heq]
  type := by rw [heq]
  idempotencyKey := by rw [heq]
  attemptCount := by rw [heq]
  maxAttempts := by rw [heq]
  status := hstatus
  leasedBy := by rw [heq]
  leasedUntil := by rw [heq]
  pending := hpending

theorem released_cancelRow {redactedAt now : ℤ} (row : JobRow) :
    Released row (cancelRow redactedAt now row) :=
  .of_eq rfl (by simp [cancelRow]) (by intro hp; cases hp)

theorem released_exhaustRow {redactedAt now : ℤ} (row : JobRow) :
    Released row (exhaustRow redactedAt now row) :=
  .of_eq rfl (by simp [exhaustRow]) (by intro hp; cases hp)

theorem released_succeedRow {redactedAt now : ℤ} (row : JobRow) :
    Released row (succeedRow redactedAt now row) :=
  .of_eq rfl (by simp [succeedRow]) (by intro hp; cases hp)

theorem released_failRow {terminal : Bool} {message : String} {availableAt redactedAt now : ℤ}
    (row : JobRow) (hterminal : terminal = false → row.attemptCount < row.maxAttempts) :
    Released row (failRow terminal message availableAt redactedAt now row) := by
  refine .of_eq rfl ?_ ?_
  · cases terminal <;> simp [failRow]
  · intro hp
    cases terminal with
    | false => exact hterminal rfl
    | true => cases hp

theorem Inv.cancelIds {clock : Readings} : ∀ {ids : List String} {s : QueueRun} {i : ℕ},
    Inv digest leaseSeconds s → Inv digest leaseSeconds
      { s with
        queue := { s.queue with jobs := (SqliteJobQueue.cancelIds clock i ids s.queue.jobs).1 } } := by
  intro ids
  induction ids with
  | nil => intro s i h; exact h
  | cons id ids ih =>
      intro s i h
      exact ih (i := i + 1) (h.release (p := isPendingId id)
        (f := cancelRow (clock.nth (2 * i)) (clock.nth (2 * i + 1)))
        fun row _ _ => released_cancelRow row)

theorem Inv.sweep (h : Inv digest leaseSeconds s) (clock : Readings) :
    Inv digest leaseSeconds
      { s with
        queue := { s.queue with jobs := SqliteJobQueue.sweep clock s.queue.jobs } } :=
  h.release fun row _ _ => released_exhaustRow row

/-- The query answers a row that has an attempt left. -/
theorem Inv.attempt_left (h : Inv digest leaseSeconds s) {clock : Readings} {row : JobRow}
    (hrow : row ∈ s.queue.jobs) (hnext : s.queue.isNext (candidates clock s.queue.jobs) row) :
    row.attemptCount < row.maxAttempts := by
  have hmem : row ∈ candidates clock s.queue.jobs := (of_decide_eq_true hnext).1
  rw [candidates, List.mem_filter] at hmem
  rcases of_decide_eq_true hmem.2 with ⟨hpending, -⟩ | ⟨-, -, hlt⟩
  · exact (h.rows row hrow).attempts_lt hpending
  · exact hlt

/-- The handle that a caller presents and the row accepts is what the row reads. -/
theorem Inv.held_eq (h : Inv digest leaseSeconds s) {job : Job} (hjob : job ∈ s.issued)
    {leasedBy : String} {leasedUntil now : ℤ} (huntil : job.leasedUntil = some leasedUntil)
    {row : JobRow} (hrow : row ∈ s.queue.jobs)
    (hheld : holdsLease job.id leasedBy leasedUntil now row) : job = row.toJob := by
  obtain ⟨hid, -, -, hru, -⟩ := holdsLease_iff.mp hheld
  exact (h.handles job hjob).current row hrow hid leasedUntil huntil hru

/-! ### One call, and a run of them -/

theorem Inv.settleWith (h : Inv digest leaseSeconds s) {job : Job} {clock : Readings}
    {result : Except QueueError Queue} {t : QueueRun}
    (hs : s.settleWith job clock result = some t)
    (hok : ∀ queue, job ∈ s.issued → result = .ok queue →
      Inv digest leaseSeconds { s with queue := queue }) : Inv digest leaseSeconds t := by
  obtain ⟨⟨hjob, adv⟩, ⟨-, rfl⟩ | ⟨queue, hresult, rfl⟩⟩ := QueueRun.settleWith_some hs
  · exact h.touch adv
  · exact (hok queue hjob hresult).touch adv

theorem Inv.lease (h : Inv digest leaseSeconds s) {clock : Readings} {ids : List String}
    (adv : s.advances ids clock) {workerId : String} {row : JobRow}
    (hrow : row ∈ s.queue.jobs) (hid : row.id ∈ ids)
    (hlt : row.attemptCount < row.maxAttempts) {queue : Queue}
    (hjobs : queue.jobs = Table.updateWhere (fun r => r.id = row.id)
      (leaseRow workerId (clock.nth 6 + leaseSeconds * 1000) (clock.nth 7)) s.queue.jobs) :
    let job := (leaseRow workerId (clock.nth 6 + leaseSeconds * 1000) (clock.nth 7) row).toJob
    Inv digest leaseSeconds
      { s.touch ids clock with
        queue := queue
        issued := job :: s.issued
        latest := Function.update s.latest job.id (some job)
        leases := Function.update s.leases job.id (s.leases job.id + 1) } := by
  intro job
  have hrelet : Relet leaseSeconds clock row
      (leaseRow workerId (clock.nth 6 + leaseSeconds * 1000) (clock.nth 7) row) :=
    { id := rfl
      tenantId := rfl
      type := rfl
      idempotencyKey := rfl
      status := rfl
      leasedBy := rfl
      attempts_pos := Nat.succ_pos _
      attempts_le := hlt
      token := ⟨6, rfl⟩ }
  refine h.relet hrow hrelet hid adv ?_ rfl rfl ?_ rfl
  · rw [hjobs]
    apply Table.updateWhere_congr
    intro r hr hp
    rw [Table.eq_of_key_eq h.nodup_id hr hrow (of_decide_eq_true hp)]
  · change Function.update s.leases row.id (s.leases row.id + 1) = _
    rw [(h.rows row hrow).leases_eq]
    rfl

theorem Inv.renew (h : Inv digest leaseSeconds s) {clock : Readings} {job : Job}
    (hjob : job ∈ s.issued) (adv : s.advances [job.id] clock) {queue : Queue} {renewed : Job}
    (hr : SqliteJobQueue.renewLease s.queue job leaseSeconds clock = (queue, some renewed)) :
    Inv digest leaseSeconds
      { s.touch [job.id] clock with
        queue := queue
        issued := renewed :: s.issued
        latest := Function.update s.latest job.id (some renewed) } := by
  obtain ⟨leasedBy, leasedUntil, hby, huntil, ⟨row, hrow, hheld⟩, rfl, rfl⟩ := renewLease_some hr
  have hread : job = row.toJob := h.held_eq hjob huntil hrow hheld
  obtain ⟨hid, hstatus, hrowBy, hrowUntil, hnow⟩ := holdsLease_iff.mp hheld
  have hinv := h.rows row hrow
  have hrelet : Relet leaseSeconds clock row
      (renewRow (clock.nth 0 + leaseSeconds * 1000) (clock.nth 1) row) :=
    { id := rfl
      tenantId := rfl
      type := rfl
      idempotencyKey := rfl
      status := hstatus
      leasedBy := by simp [renewRow, hrowBy]
      attempts_pos := hinv.attempts_pos hstatus
      attempts_le := hinv.attempts_le
      token := ⟨0, rfl⟩ }
  have hrenewed : ({ job with leasedUntil := some (clock.nth 0 + leaseSeconds * 1000) } : Job) =
      (renewRow (clock.nth 0 + leaseSeconds * 1000) (clock.nth 1) row).toJob := by
    rw [hread]
    rfl
  have hmem : row.id ∈ [job.id] := List.mem_singleton.mpr hid
  refine h.relet hrow hrelet hmem adv ?_ ?_ ?_ ?_ rfl
  · apply Table.updateWhere_congr_key
    · intro r hr
      constructor
      · intro hp
        have hrid := (holdsLease_iff.mp hp).1
        exact Table.eq_of_key_eq h.nodup_id hr hrow (hrid.trans hid.symm)
      · rintro rfl
        exact hheld
    · intro r hr
      exact ⟨fun hp => Table.eq_of_key_eq h.nodup_id hr hrow (of_decide_eq_true hp),
        fun hsame => decide_eq_true (congrArg JobRow.id hsame)⟩
  · rw [hrenewed]
  · rw [hrenewed, ← hid]
  · funext id
    by_cases hsame : id = row.id
    · rw [hsame, Function.update_self]
      exact hinv.leases_eq
    · rw [Function.update_of_ne hsame]
      rfl

/-- **Every call keeps the invariant.** -/
theorem Inv.step (h : Inv digest leaseSeconds s) {call : QueueCall} {t : QueueRun}
    (hs : s.step digest leaseSeconds call = some t) : Inv digest leaseSeconds t := by
  cases call with
  | enqueue input clock =>
      obtain ⟨⟨adv, hmax⟩, rfl | ⟨queue, job, henq, rfl⟩⟩ := QueueRun.step_enqueue hs
      · exact h.touch adv
      · obtain ⟨jobs, hu, rfl, row, hrow, -, rfl⟩ := enqueue_ok henq
        exact ((h.upsert hmax hu).issue hrow).touch adv
  | cancelPending input clock =>
      obtain ⟨adv, rfl⟩ := QueueRun.step_cancelPending hs
      exact h.cancelIds.touch adv
  | leaseNext workerId pick clock =>
      obtain ⟨adv, ⟨queue, hlease, rfl⟩ | ⟨queue, job, hlease, rfl⟩⟩ := QueueRun.step_leaseNext hs
      · rcases leaseNext_some hlease with ⟨-, -, -, rfl⟩ | ⟨row, -, -, -, hout, -⟩
        · exact (h.sweep clock).touch adv
        · cases hout
      · rcases leaseNext_some hlease with ⟨-, hout, -⟩ | ⟨row, hrow, hpick, hnext, hout, hjobs, -⟩
        · cases hout
        · cases hout
          have hswept := h.sweep clock
          refine hswept.lease adv hrow ?_ (hswept.attempt_left hrow hnext) hjobs
          simp [QueueRun.leaseTargets, hpick]
  | renewLease job clock =>
      obtain ⟨⟨hjob, adv⟩, ⟨-, rfl⟩ | ⟨queue, renewed, hrenew, rfl⟩⟩ := QueueRun.step_renewLease hs
      · exact h.touch adv
      · exact h.renew hjob adv hrenew
  | complete job clock =>
      refine h.settleWith hs ?_
      intro queue _ hok
      obtain ⟨leasedBy, leasedUntil, -, -, -, rfl⟩ := complete_ok hok
      exact h.release fun row _ _ => released_succeedRow row
  | fail job message clock =>
      refine h.settleWith hs ?_
      intro queue hjob hok
      obtain ⟨leasedBy, leasedUntil, -, huntil, -, rfl⟩ := fail_ok hok
      refine h.release fun row hrow hheld => released_failRow row ?_
      -- the handle is what the row reads, so its verdict is the row's
      intro hterminal
      rw [h.held_eq hjob huntil hrow hheld] at hterminal
      exact Nat.lt_of_not_le (of_decide_eq_false hterminal)

/-- **The invariant over runs.** -/
theorem Reached.inv (h : Reached digest leaseSeconds s) : Inv digest leaseSeconds s :=
  h.invariant (fun _ hs => hs ▸ inv_empty) fun _ _ _ _ hInv hs => hInv.step hs

end QueueRun

end RecruitingOs
