import RecruitingOs.Queue.Steps

/-!
# Lease fencing

A worker settles or renews a lease with the handle that it was given.  `presents`
is the handle that a call carries and `accepts` whether the queue takes it.

The token of a lease is only `(leased_by, leased_until)`, so a handle would come
back to life if a later lease of the job ended at the same instant.  The clock
rules that out: `Stale` — no row carries the token of the handle — is kept by
every call, because a new token is ahead of every token that exists.

## Contents

* `accepts_current` — an accepted handle is that of the latest lease or renewal.
* `stale_of_fresh` and `Stale.step` — how a handle becomes stale, and that it
  stays so.
* `lease_fencing` — the two together, over runs.
-/

namespace RecruitingOs

/-- The handle that a call presents. -/
def QueueCall.presents : QueueCall → Option Job
  | .renewLease job _ | .complete job _ | .fail job _ _ => some job
  | _ => none

/-- The reading that the statement of a call compares `leased_until` with. -/
def QueueCall.checkedAt : QueueCall → ℤ
  | .fail _ _ clock => clock.nth 3
  | call => call.clock.nth 2

namespace QueueRun

open SqliteJobQueue

variable {digest : String → String} {leaseSeconds : ℤ} {s t : QueueRun} {call : QueueCall}
  {job : Job}

/-- The queue takes the handle that the call presents: `renewLease` answers a
handle, and `complete` and `fail` do not throw. -/
def accepts (leaseSeconds : ℤ) (s : QueueRun) : QueueCall → Bool
  | .renewLease job clock => (SqliteJobQueue.renewLease s.queue job leaseSeconds clock).2.isSome
  | .complete job clock => (SqliteJobQueue.complete s.queue job clock).isOk
  | .fail job message clock => (SqliteJobQueue.fail s.queue job message clock).isOk
  | _ => false

/-- No call that presents the handle is accepted from here on. -/
def Fenced (digest : String → String) (leaseSeconds : ℤ) (s : QueueRun) (job : Job) : Prop :=
  ∀ t, Transition.Later (step digest leaseSeconds) s t →
    ∀ call : QueueCall, call.presents = some job → ¬ t.accepts leaseSeconds call

/-! ### What an accepted handle is -/

/-- An accepted handle names a row that still holds its lease. -/
theorem held_of_accepts (hp : call.presents = some job) (ha : s.accepts leaseSeconds call) :
    ∃ leasedBy leasedUntil, job.leasedUntil = some leasedUntil ∧
      ∃ row ∈ s.queue.jobs, holdsLease job.id leasedBy leasedUntil call.checkedAt row := by
  cases call with
  | renewLease presented clock =>
      obtain rfl : presented = job := Option.some_inj.mp hp
      obtain ⟨renewed, hr⟩ := Option.isSome_iff_exists.mp ha
      obtain ⟨leasedBy, leasedUntil, -, huntil, hheld, -⟩ := renewLease_some (Prod.ext rfl hr)
      exact ⟨leasedBy, leasedUntil, huntil, hheld⟩
  | complete presented clock =>
      obtain rfl : presented = job := Option.some_inj.mp hp
      cases hc : SqliteJobQueue.complete s.queue presented clock with
      | error e => rw [accepts, hc] at ha; cases ha
      | ok queue =>
          obtain ⟨leasedBy, leasedUntil, -, huntil, hheld, -⟩ := complete_ok hc
          exact ⟨leasedBy, leasedUntil, huntil, hheld⟩
  | fail presented message clock =>
      obtain rfl : presented = job := Option.some_inj.mp hp
      cases hf : SqliteJobQueue.fail s.queue presented message clock with
      | error e => rw [accepts, hf] at ha; cases ha
      | ok queue =>
          obtain ⟨leasedBy, leasedUntil, -, huntil, hheld, -⟩ := fail_ok hf
          exact ⟨leasedBy, leasedUntil, huntil, hheld⟩
  | enqueue input clock => cases hp
  | cancelPending input clock => cases hp
  | leaseNext workerId pick clock => cases hp

/-- An accepted handle is the latest one of its job, which is running on an
unexpired lease. -/
theorem Inv.accepts_current (h : Inv digest leaseSeconds s) (hjob : job ∈ s.issued)
    (hp : call.presents = some job) (ha : s.accepts leaseSeconds call) :
    s.latest job.id = some job ∧ ∃ row ∈ s.queue.jobs, job = row.toJob ∧
      row.status = .running ∧ ∃ leasedUntil, row.leasedUntil = some leasedUntil ∧
        call.checkedAt < leasedUntil := by
  obtain ⟨leasedBy, leasedUntil, huntil, row, hrow, hheld⟩ := held_of_accepts hp ha
  have hread : job = row.toJob := h.held_eq hjob huntil hrow hheld
  obtain ⟨hid, hstatus, -, hru, hnow⟩ := holdsLease_iff.mp hheld
  refine ⟨?_, row, hrow, hread, hstatus, leasedUntil, hru, hnow⟩
  rw [← hid, (h.rows row hrow).latest_eq hstatus, hread]

/-- The caller of an enabled call has the handle that it presents. -/
theorem issued_of_step (hs : s.step digest leaseSeconds call = some t)
    (hp : call.presents = some job) : job ∈ s.issued := by
  cases call with
  | renewLease presented clock =>
      obtain rfl : presented = job := Option.some_inj.mp hp
      exact (step_renewLease hs).1.1
  | complete presented clock | fail presented message clock =>
      obtain rfl : presented = job := Option.some_inj.mp hp
      exact (settleWith_some hs).1.1
  | enqueue _ _ | cancelPending _ _ | leaseNext _ _ _ => cases hp

/-- A call whose handle is rejected leaves the table as it is. -/
theorem jobs_of_not_accepts (hs : s.step digest leaseSeconds call = some t)
    (hp : call.presents = some job) (ha : ¬ s.accepts leaseSeconds call) :
    t.queue.jobs = s.queue.jobs := by
  cases call with
  | renewLease presented clock =>
      obtain ⟨-, ⟨-, rfl⟩ | ⟨queue, renewed, hr, rfl⟩⟩ := step_renewLease hs
      · rfl
      · rw [accepts, hr] at ha
        exact absurd rfl ha
  | complete presented clock | fail presented message clock =>
      obtain ⟨-, ⟨-, rfl⟩ | ⟨queue, hok, rfl⟩⟩ := settleWith_some hs
      · rfl
      · rw [accepts, hok] at ha
        exact absurd rfl ha
  | enqueue _ _ | cancelPending _ _ | leaseNext _ _ _ => cases hp

/-! ### Stale handles -/

/-- The handle is out and no row carries its token. -/
def Stale (s : QueueRun) (job : Job) : Prop :=
  job ∈ s.issued ∧ ∀ row ∈ s.queue.jobs, row.id = job.id →
    ∀ u, job.leasedUntil = some u → row.leasedUntil ≠ some u

theorem Stale.not_accepts (h : Stale s job) (hp : call.presents = some job) :
    ¬ s.accepts leaseSeconds call := by
  intro ha
  obtain ⟨leasedBy, leasedUntil, huntil, row, hrow, hheld⟩ := held_of_accepts hp ha
  obtain ⟨hid, -, -, hru, -⟩ := holdsLease_iff.mp hheld
  exact h.2 row hrow hid leasedUntil huntil hru

/-- A token that a call issues is ahead of that of every handle which is out. -/
theorem Inv.token_lt (h : Inv digest leaseSeconds s) (hjob : job ∈ s.issued)
    {ids : List String} {clock : Readings} (adv : s.advances ids clock) (hid : job.id ∈ ids)
    {u : ℤ} (hu : job.leasedUntil = some u) (i : ℕ) :
    u < clock.nth i + leaseSeconds * 1000 := by
  obtain ⟨last, hlast, hle⟩ := (h.handles job hjob).bounded u hu
  have hlt : last < clock.start := advances_iff.mp adv job.id hid last hlast
  have hnth : clock.start ≤ clock.nth i := clock.start_le_nth i
  omega

/-- A handle is stale once the rows of its job carry no token but a new one. -/
theorem Inv.stale_of_fresh (h : Inv digest leaseSeconds s) (hjob : job ∈ s.issued)
    {ids : List String} {clock : Readings} (adv : s.advances ids clock) (hid : job.id ∈ ids)
    (hissued : job ∈ t.issued)
    (hfresh : ∀ row ∈ t.queue.jobs, row.id = job.id → ∀ u, row.leasedUntil = some u →
      ∃ i, u = clock.nth i + leaseSeconds * 1000) : Stale t job := by
  refine ⟨hissued, ?_⟩
  intro row hrow hrid u hu hru
  obtain ⟨i, htoken⟩ := hfresh row hrow hrid u hru
  have hlt := h.token_lt hjob adv hid hu i
  omega

/-- **A stale handle stays stale.** -/
theorem Stale.step (h : Inv digest leaseSeconds s) (hst : Stale s job)
    (hs : s.step digest leaseSeconds call = some t) : Stale t job := by
  have heffect := h.stepEffect hs
  obtain ⟨change, added, hchange, hadded, hjobs⟩ := heffect.jobs
  refine ⟨heffect.issued job hst.1, ?_⟩
  intro new hnew hid u hu hnu
  rw [hjobs] at hnew
  rcases List.mem_append.mp hnew with hmap | hnew
  · obtain ⟨row, hrow, rfl⟩ := List.mem_map.mp hmap
    have hc := hchange row hrow
    generalize change row = new at hc hid hnu
    cases hc with
    | keep => exact hst.2 row hrow hid u hu hnu
    | release _ hreleased => rw [hreleased.leasedUntil] at hnu; cases hnu
    | relet _ htarget hrelet =>
        obtain ⟨i, htoken⟩ := hrelet.token
        have hrid : row.id = job.id := hrelet.id.symm.trans hid
        have hlt := h.token_lt hst.1 heffect.advances (hrid ▸ htarget) hu i
        rw [htoken, Option.some_inj] at hnu
        omega
    | revive _ _ _ => cases hnu
  · rcases hadded with rfl | ⟨input, clock, -, -, rfl⟩
    · cases hnew
    · rw [List.mem_singleton.mp hnew] at hnu
      cases hnu

/-- A stale handle is fenced off. -/
theorem Stale.fenced (h : Reached digest leaseSeconds s) (hst : Stale s job) :
    Fenced digest leaseSeconds s job := by
  intro t ht call hp
  have hstale : Stale t job :=
    Transition.Later.keep (P := fun s => Stale s job)
      (fun _ _ _ hr hP hs => Stale.step (Reached.inv hr) hP hs) h ht hst
  exact hstale.not_accepts hp

/-- `leaseNext` makes every handle of the job that it leases stale. -/
theorem Inv.stale_of_leaseNext (h : Inv digest leaseSeconds s) {workerId : String}
    {clock : Readings} (hjob : job ∈ s.issued)
    (hs : s.step digest leaseSeconds (.leaseNext workerId (some job.id) clock) = some t) :
    Stale t job := by
  have heffect := h.stepEffect hs
  have htarget : job.id ∈ s.targets digest (.leaseNext workerId (some job.id) clock) := by
    simp [QueueRun.targets, QueueRun.leaseTargets]
  refine h.stale_of_fresh hjob heffect.advances htarget (heffect.issued job hjob) ?_
  obtain ⟨-, ⟨queue, hlease, rfl⟩ | ⟨queue, leased, hlease, rfl⟩⟩ := step_leaseNext hs
  · rcases leaseNext_some hlease with ⟨habsurd, -⟩ | ⟨_, _, _, _, habsurd, _⟩ <;> cases habsurd
  · rcases leaseNext_some hlease with ⟨habsurd, -⟩ | ⟨picked, -, hpick, -, -, hjobs, -⟩
    · cases habsurd
    · have hpid : job.id = picked.id := Option.some_inj.mp hpick
      intro new hnew hid u hu
      change new ∈ queue.jobs at hnew
      rw [hjobs] at hnew
      obtain ⟨row, -, rfl⟩ := Table.mem_updateWhere.mp hnew
      by_cases hrow : row.id = picked.id
      · rw [if_pos (decide_eq_true hrow)] at hu
        exact ⟨6, (Option.some_inj.mp hu).symm⟩
      · rw [if_neg (by simpa using hrow)] at hid
        exact absurd (hid.trans hpid) hrow

/-- The table after an accepted call: the rows that held the lease are released or
relet by it. -/
theorem jobs_of_accepts (hs : s.step digest leaseSeconds call = some t) (hp : call.presents = some job)
    (ha : s.accepts leaseSeconds call) :
    ∃ leasedBy leasedUntil f, t.queue.jobs =
      Table.updateWhere (holdsLease job.id leasedBy leasedUntil call.checkedAt) f s.queue.jobs ∧
      (∃ row ∈ s.queue.jobs, holdsLease job.id leasedBy leasedUntil call.checkedAt row) ∧
      ∀ row, (f row).id = row.id ∧ ∀ u, (f row).leasedUntil = some u →
        ∃ i, u = call.clock.nth i + leaseSeconds * 1000 := by
  cases call with
  | renewLease presented clock =>
      obtain rfl : presented = job := Option.some_inj.mp hp
      obtain ⟨-, ⟨hnone, -⟩ | ⟨queue, renewed, hr, rfl⟩⟩ := step_renewLease hs
      · rw [accepts, hnone] at ha
        cases ha
      · obtain ⟨leasedBy, leasedUntil, -, -, hheld, -, rfl⟩ := renewLease_some hr
        refine ⟨leasedBy, leasedUntil, _, rfl, hheld, fun row => ⟨rfl, ?_⟩⟩
        intro u hu
        exact ⟨0, (Option.some_inj.mp hu).symm⟩
  | complete presented clock =>
      obtain rfl : presented = job := Option.some_inj.mp hp
      obtain ⟨-, ⟨hrejected, -⟩ | ⟨queue, hc, rfl⟩⟩ := settleWith_some hs
      · rw [accepts, hrejected] at ha
        cases ha
      · obtain ⟨leasedBy, leasedUntil, -, -, hheld, rfl⟩ := complete_ok hc
        refine ⟨leasedBy, leasedUntil, _, rfl, hheld, fun row => ⟨rfl, ?_⟩⟩
        intro u hu
        cases hu
  | fail presented message clock =>
      obtain rfl : presented = job := Option.some_inj.mp hp
      obtain ⟨-, ⟨hrejected, -⟩ | ⟨queue, hf, rfl⟩⟩ := settleWith_some hs
      · rw [accepts, hrejected] at ha
        cases ha
      · obtain ⟨leasedBy, leasedUntil, -, -, hheld, rfl⟩ := fail_ok hf
        refine ⟨leasedBy, leasedUntil, _, rfl, hheld, fun row => ⟨rfl, ?_⟩⟩
        intro u hu
        cases hu
  | enqueue _ _ | cancelPending _ _ | leaseNext _ _ _ => cases hp

/-- An accepted call makes every handle of its job stale, the presented one
included. -/
theorem Inv.stale_of_accepts (h : Inv digest leaseSeconds s) {presented : Job}
    (hs : s.step digest leaseSeconds call = some t) (hp : call.presents = some presented)
    (ha : s.accepts leaseSeconds call) (hjob : job ∈ s.issued) (hsame : job.id = presented.id) :
    Stale t job := by
  have heffect := h.stepEffect hs
  have htarget : job.id ∈ s.targets digest call := by
    cases call with
    | renewLease _ _ | complete _ _ | fail _ _ _ =>
        obtain rfl := Option.some_inj.mp hp
        simp [QueueRun.targets, hsame]
    | enqueue _ _ | cancelPending _ _ | leaseNext _ _ _ => cases hp
  refine h.stale_of_fresh hjob heffect.advances htarget (heffect.issued job hjob) ?_
  obtain ⟨leasedBy, leasedUntil, f, hjobs, ⟨holder, hholder, hheld⟩, hf⟩ :=
    jobs_of_accepts hs hp ha
  intro new hnew hid u hu
  rw [hjobs] at hnew
  obtain ⟨row, hrow, rfl⟩ := Table.mem_updateWhere.mp hnew
  -- the row of the job is the one that held the lease
  have honly : row.id = presented.id → holdsLease presented.id leasedBy leasedUntil
      call.checkedAt row := by
    intro hrid
    rw [Table.eq_of_key_eq h.nodup_id hrow hholder
      (hrid.trans (holdsLease_iff.mp hheld).1.symm)]
    exact hheld
  by_cases hrh : holdsLease presented.id leasedBy leasedUntil call.checkedAt row
  · rw [if_pos hrh] at hu
    exact (hf row).2 u hu
  · rw [if_neg hrh] at hid
    exact absurd (honly (hid.trans hsame)) hrh

/-! ### Fencing over runs -/

/-- **Lease fencing.**  In every state that a run reaches and for every next call,
an accepted handle is that of its job's most recent lease or of the latest renewal
of it, the job is running and the lease has not expired; a rejected call leaves the
table unchanged; and once a job is leased again, or one of its handles is accepted,
no handle of the job that was out before is ever accepted. -/
theorem lease_fencing (h : Reached digest leaseSeconds s)
    (hs : s.step digest leaseSeconds call = some t) :
    (∀ job, call.presents = some job →
      if s.accepts leaseSeconds call then
        s.latest job.id = some job ∧
          (∃ row ∈ s.queue.jobs, job = row.toJob ∧ row.status = .running ∧
            ∃ leasedUntil, row.leasedUntil = some leasedUntil ∧ call.checkedAt < leasedUntil) ∧
          ∀ old ∈ s.issued, old.id = job.id → Fenced digest leaseSeconds t old
      else t.queue.jobs = s.queue.jobs) ∧
    ∀ workerId id clock, call = .leaseNext workerId (some id) clock →
      ∀ old ∈ s.issued, old.id = id → Fenced digest leaseSeconds t old := by
  have hinv : Inv digest leaseSeconds s := h.inv
  have hreached : Reached digest leaseSeconds t := Transition.Reachable.next call h hs
  constructor
  · intro job hp
    split
    · rename_i ha
      obtain ⟨hlatest, hrow⟩ := hinv.accepts_current (issued_of_step hs hp) hp ha
      refine ⟨hlatest, hrow, ?_⟩
      intro old hold hid
      exact (hinv.stale_of_accepts hs hp ha hold hid).fenced hreached
    · rename_i ha
      exact jobs_of_not_accepts hs hp ha
  · rintro workerId id clock rfl old hold rfl
    exact (hinv.stale_of_leaseNext hold hs).fenced hreached

/-- Two workers lease one job in turn; the clock is in milliseconds. -/
def takeover : List QueueCall :=
  [.enqueue ⟨"t1", "demo", "k", .obj [], none, none, none⟩ ⟨1000, []⟩,
    .leaseNext "first" (some "job_t1:demo:k") ⟨2000, []⟩]

/-- The job that `takeover` leases, as its first worker gets it. -/
def firstHandle : Job :=
  ⟨"job_t1:demo:k", "t1", "demo", "k", .obj [], .running, 1, 5, 1000, some "first", some 62000⟩

/-- The first worker of `takeover` is fenced off once a second one has the job. -/
theorem lease_fencing_takeover :
    ∃ s t, Transition.exec (step id 60) QueueRun.empty takeover = some s ∧
      s.step id 60 (.leaseNext "second" (some "job_t1:demo:k") ⟨62001, []⟩) = some t ∧
      Fenced id 60 t firstHandle := by
  obtain ⟨s, hs⟩ : ∃ s, Transition.exec (step id 60) QueueRun.empty takeover = some s :=
    ⟨_, rfl⟩
  obtain ⟨t, ht⟩ : ∃ t,
      s.step id 60 (.leaseNext "second" (some "job_t1:demo:k") ⟨62001, []⟩) = some t := by
    cases hs
    exact ⟨_, rfl⟩
  have hreached : Reached id 60 s := Transition.Reachable.of_exec (.start rfl) hs
  have hissued : firstHandle ∈ s.issued := by
    cases hs
    decide
  exact ⟨s, t, hs, ht, (lease_fencing hreached ht).2 _ _ _ rfl firstHandle hissued rfl⟩

end QueueRun

end RecruitingOs
