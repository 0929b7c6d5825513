import RecruitingOs.Worker.Handlers

/-!
# The invariant of the loop

`Busy` ties a worker that has a job in hand to the table and to the record: the last handler
that it has begun for the job is not settled, and a row that it still leases is the job.  Each
step is a change of rows (`Inv.of_rows`), of a phase (`Inv.setPhase`) or of the result of a
handler (`Inv.setResult`).
-/

namespace RecruitingOs

open SqliteJobQueue
open Worker (Phase workerId leaseSeconds)

/-- The handles differ in the end of the lease only. -/
def Job.SameLease (job handle : Job) : Prop :=
  ∃ leasedUntil, handle = { job with leasedUntil := leasedUntil }

theorem Job.SameLease.refl (job : Job) : job.SameLease job := ⟨job.leasedUntil, rfl⟩

theorem Job.SameLease.trans {a b c : Job} (hab : a.SameLease b) (hbc : b.SameLease c) :
    a.SameLease c := by
  obtain ⟨leasedUntil, rfl⟩ := hab
  obtain ⟨renewedUntil, rfl⟩ := hbc
  exact ⟨renewedUntil, rfl⟩

/-- The handle was read off the row. -/
structure Job.Of (job : Job) (row : JobRow) : Prop where
  type : job.type = row.type
  payload : job.payload = row.payload
  attemptCount : job.attemptCount = row.attemptCount
  maxAttempts : job.maxAttempts = row.maxAttempts

theorem SameRecord.of {old new : JobRow} {job : Job} (h : SameRecord old new) (hold : job.Of old) :
    job.Of new where
  type := hold.type.trans h.type.symm
  payload := hold.payload.trans h.payload.symm
  attemptCount := hold.attemptCount.trans h.attemptCount.symm
  maxAttempts := hold.maxAttempts.trans h.maxAttempts.symm

/-! ### The heartbeat -/

/-- Every handle of the heartbeat is one of the lease. -/
structure HeartbeatRun.Carries (s : HeartbeatRun) (job : Job) : Prop where
  current : job.SameLease s.current
  inFlight : ∀ r ∈ s.inFlight, job.SameLease r.handle ∧
    ∀ renewed, r.answer = some (some renewed) → job.SameLease renewed
  returned : ∀ owned, s.stop = .returned (some owned) → job.SameLease owned

/-- What a heartbeat does to the queue: nothing, or a renewal. -/
def Renewed (q q' : Queue) : Prop :=
  q' = q ∨ ∃ p renewedUntil now,
    q' = { q with jobs := Table.updateWhere p (renewRow renewedUntil now) q.jobs }

namespace HeartbeatRun

variable {digest : String → String} {worker : String} {leaseSeconds : ℤ} {s t : HeartbeatRun}
  {job : Job}

/-- A heartbeat that forgets some renewals, or begins one with the current handle. -/
theorem Carries.keep (h : s.Carries job) (hcurrent : t.current = s.current)
    (hinFlight : ∀ r ∈ t.inFlight, r ∈ s.inFlight ∨ r.handle = s.current ∧ r.answer = none)
    (hreturned : ∀ owned, t.stop = .returned (some owned) →
      s.stop = .returned (some owned) ∨ owned = s.current) : t.Carries job where
  current := by rw [hcurrent]; exact h.current
  inFlight := by
    intro r hr
    rcases hinFlight r hr with hold | ⟨hhandle, hnone⟩
    · exact h.inFlight r hold
    · rw [hhandle, hnone]
      exact ⟨h.current, by rintro _ ⟨⟩⟩
  returned := by
    intro owned howned
    rcases hreturned owned howned with hold | rfl
    · exact h.returned owned hold
    · exact h.current

theorem Carries.settle (h : s.Carries job) (i : ℕ) (r : Renewal) : (s.settle i r).Carries job := by
  unfold HeartbeatRun.settle
  dsimp only
  split
  · refine h.keep rfl (fun r hr => .inl (List.mem_of_mem_eraseIdx hr)) fun owned howned => ?_
    dsimp only at howned
    split at howned
    · cases howned
    · cases howned
      exact .inr rfl
  · exact h.keep rfl (fun r hr => .inl (List.mem_of_mem_eraseIdx hr)) fun _ howned => .inl howned

/-- **A step of a heartbeat** keeps to the handles of the lease. -/
theorem Carries.step (h : s.Carries job) {beat : HeartbeatStep}
    (hown : beat.own ∨ beat matches .stop) (hs : s.step digest worker leaseSeconds beat = some t) :
    t.Carries job ∧ Renewed s.queue t.queue := by
  cases beat with
  | tick =>
      rw [HeartbeatRun.step] at hs
      split at hs
      · cases hs
        unfold beginRenewal
        split
        · exact ⟨h, .inl rfl⟩
        · refine ⟨h.keep rfl (fun r hr => ?_) (fun _ howned => .inl howned), .inl rfl⟩
          rcases List.mem_cons.mp hr with rfl | hr
          · exact .inr ⟨rfl, rfl⟩
          · exact .inl hr
      · cases hs
  | serve i clock =>
      rw [HeartbeatRun.step] at hs
      split at hs
      · rename_i handle final hget
        cases hs
        have hhandle := (h.inFlight _ (List.mem_of_getElem? hget)).1
        rcases hrenew : renewLease s.queue handle leaseSeconds clock with ⟨q', answer⟩
        refine ⟨⟨h.current, fun r hr => ?_, h.returned⟩, ?_⟩
        · rcases List.mem_or_eq_of_mem_set hr with hr | rfl
          · exact h.inFlight r hr
          · refine ⟨hhandle, fun renewed hanswer => ?_⟩
            obtain rfl : answer = some renewed := Option.some_inj.mp hanswer
            obtain ⟨-, -, -, -, -, rfl, -⟩ := renewLease_some hrenew
            exact hhandle.trans ⟨_, rfl⟩
        · cases answer with
          | none => exact .inl (renewLease_none hrenew)
          | some renewed =>
              obtain ⟨-, -, -, -, -, -, rfl⟩ := renewLease_some hrenew
              exact .inr ⟨_, _, _, rfl⟩
      · cases hs
  | resolve i =>
      rw [HeartbeatRun.step] at hs
      split at hs
      · rename_i handle final answer hget
        cases hs
        refine ⟨Carries.settle ?_ i _, .inl ?_⟩
        · cases answer with
          | none => exact h.keep rfl (fun r hr => .inl hr) fun _ howned => .inl howned
          | some renewed =>
              exact ⟨(h.inFlight _ (List.mem_of_getElem? hget)).2 renewed rfl, h.inFlight,
                h.returned⟩
        · unfold HeartbeatRun.settle
          cases answer <;> (dsimp only; split <;> rfl)
      · cases hs
  | reject i now =>
      rw [HeartbeatRun.step] at hs
      split at hs
      · cases hs
        refine ⟨Carries.settle ?_ i _, .inl ?_⟩
        · exact h.keep rfl (fun r hr => .inl hr) fun _ howned => .inl howned
        · unfold HeartbeatRun.settle
          dsimp only
          split <;> rfl
      · cases hs
  | stop =>
      rw [HeartbeatRun.step] at hs
      split at hs
      · cases hs
        exact ⟨h.keep rfl (fun r hr => .inl hr) (fun _ howned => by cases howned), .inl rfl⟩
      · cases hs
  | resume now =>
      rw [HeartbeatRun.step] at hs
      split at hs
      · cases hs
        unfold HeartbeatRun.resume
        split
        · exact ⟨h.keep rfl (fun r hr => .inl hr) (fun _ howned => by cases howned), .inl rfl⟩
        · split
          · exact ⟨h.keep rfl (fun r hr => .inl hr) (fun _ howned => by cases howned), .inl rfl⟩
          · split
            · refine ⟨h.keep rfl (fun r hr => ?_) (fun _ howned => by cases howned), .inl rfl⟩
              rcases List.mem_cons.mp hr with rfl | hr
              · exact .inr ⟨rfl, rfl⟩
              · exact .inl hr
            · refine ⟨h.keep rfl (fun r hr => .inl hr) (fun _ howned => ?_), .inl rfl⟩
              cases howned
              exact .inr rfl
      · cases hs
  | other call => rcases hown with habsurd | habsurd <;> cases habsurd

end HeartbeatRun

/-! ### The invariant -/

namespace Worker.Phase

/-- The job that a worker has in hand, and what its handler has come to. -/
def inHand : Phase → Option (Job × Option (Except String Unit))
  | .idle | .exited => none
  | .handling job _ => some (job, none)
  | .stopping job _ outcome => some (job, some outcome.result)
  | .scheduling job _ _ => some (job, some (.ok ()))
  | .settling job _ processingError => some (job, some (processingError.elim (.ok ()) .error))

/-- What a worker knows of its job. -/
def Sound : Phase → Prop
  | .idle | .exited => True
  | .handling job heartbeat => heartbeat.Carries job
  | .stopping job heartbeat outcome => heartbeat.Carries job ∧ Worker.admits job outcome
  | .scheduling job ownedJob _ => job.SameLease ownedJob ∧ Worker.supported job.type job.payload
  | .settling job ownedJob processingError => job.SameLease ownedJob ∧
      (processingError = none → Worker.supported job.type job.payload)

end Worker.Phase

theorem Worker.workerId_ne {uuid : String} : workerId uuid ≠ "" := by
  intro h
  have hlength := congrArg String.length h
  unfold workerId at hlength
  rw [String.length_append] at hlength
  have hprefix : ("worker-" : String).length = 7 := rfl
  have hempty : ("" : String).length = 0 := rfl
  omega

theorem Worker.workerId_inj {a b : String} (h : workerId a = workerId b) : a = b :=
  (String.append_right_inj _).mp h

namespace LoopRun

variable {digest : String → String} {s t : LoopRun} {uuid : String}

/-- A worker that has a job in hand, in the record and in the table. -/
structure Busy (s : LoopRun) (uuid : String) (job : Job) (result : Option (Except String Unit)) :
    Prop where
  leasedBy : job.leasedBy = some (workerId uuid)
  latest : ∀ run, HandlerRun.latest (workerId uuid) (s.handlers job.id) = some run →
    run = ⟨workerId uuid, result, false⟩
  row : ∀ row ∈ s.queue.jobs, row.id = job.id → row.status = .running →
    row.leasedBy = some (workerId uuid) → job.Of row

/-- The invariant. -/
structure Inv (digest : String → String) (s : LoopRun) : Prop where
  keyed : KeyedTable digest s.queue.jobs
  rows : ∀ row ∈ s.queue.jobs, row.Explained (s.handlers row.id)
  busy : ∀ uuid job result, (s.workers uuid).inHand = some (job, result) → s.Busy uuid job result
  sound : ∀ uuid, (s.workers uuid).Sound

theorem Inv.empty : Inv digest LoopRun.empty where
  keyed := ⟨List.nodup_nil, by intro row hrow; cases hrow⟩
  rows := by intro row hrow; cases hrow
  busy := by rintro uuid job result ⟨⟩
  sound _ := trivial

/-- A row after a step: it is one from before, or the step has written what explains it. -/
def Told (s : LoopRun) (handlers : String → List HandlerRun) (new : JobRow) : Prop :=
  (∃ old ∈ s.queue.jobs, SameRecord old new ∧ handlers new.id = s.handlers new.id) ∨
    new.status ≠ .running ∧ new.Explained (handlers new.id)

/-- **A change of rows.** -/
theorem Inv.of_rows (h : Inv digest s) {queue : Queue} {handlers : String → List HandlerRun}
    (hkeyed : KeyedTable digest queue.jobs) (hrows : ∀ new ∈ queue.jobs, s.Told handlers new)
    (hlatest : ∀ uuid job result, (s.workers uuid).inHand = some (job, result) → ∀ run,
      HandlerRun.latest (workerId uuid) (handlers job.id) = some run →
        HandlerRun.latest (workerId uuid) (s.handlers job.id) = some run) :
    Inv digest { s with queue := queue, handlers := handlers } where
  keyed := hkeyed
  rows := by
    intro new hnew
    rcases hrows new hnew with ⟨old, hold, hsame, hrecord⟩ | ⟨-, hexplained⟩
    · refine hsame.explained ?_
      show old.Explained (handlers new.id)
      rw [hrecord, hsame.id]
      exact h.rows old hold
    · exact hexplained
  busy := by
    intro uuid job result hphase
    have hbusy := h.busy uuid job result hphase
    refine ⟨hbusy.leasedBy, fun run hrun => ?_, ?_⟩
    · exact hbusy.latest run (hlatest uuid job result hphase run hrun)
    intro new hnew hid hrunning hby
    rcases hrows new hnew with ⟨old, hold, hsame, -⟩ | ⟨hnot, -⟩
    · refine hsame.of (hbusy.row old hold ?_ ?_ ?_)
      · rw [← hid, hsame.id]
      · rw [← hrunning, hsame.status]
      · rw [← hby, hsame.leasedBy]
    · exact absurd hrunning hnot
  sound := h.sound

/-- A change of rows that leaves the record alone. -/
theorem Inv.withQueue (h : Inv digest s) {queue : Queue} (hkeyed : KeyedTable digest queue.jobs)
    (hrows : ∀ new ∈ queue.jobs, s.Told s.handlers new) : Inv digest { s with queue := queue } :=
  h.of_rows hkeyed hrows fun _ _ _ _ _ hrun => hrun

theorem workers_setPhase_self {phase : Phase} : (s.setPhase uuid phase).workers uuid = phase :=
  Function.update_self ..

theorem workers_setPhase_of_ne {phase : Phase} {other : String} (hother : other ≠ uuid) :
    (s.setPhase uuid phase).workers other = s.workers other :=
  Function.update_of_ne hother ..

theorem Inv.sound_setPhase (h : Inv digest s) {phase : Phase} (hsound : phase.Sound)
    (other : String) : ((s.setPhase uuid phase).workers other).Sound := by
  by_cases hother : other = uuid
  · rw [hother, workers_setPhase_self]
    exact hsound
  · rw [workers_setPhase_of_ne hother]
    exact h.sound other

/-- **A change of a phase** that gives the job up, or keeps it. -/
theorem Inv.setPhase (h : Inv digest s) {phase : Phase} (hsound : phase.Sound)
    (hjob : phase.inHand = none ∨ phase.inHand = (s.workers uuid).inHand) :
    Inv digest (s.setPhase uuid phase) where
  keyed := h.keyed
  rows := h.rows
  busy := by
    intro other job result hphase
    have hbefore : (s.workers other).inHand = some (job, result) := by
      by_cases hother : other = uuid
      · subst hother
        rw [workers_setPhase_self] at hphase
        rcases hjob with hnone | hsame
        · rw [hnone] at hphase
          cases hphase
        · exact hsame ▸ hphase
      · rwa [workers_setPhase_of_ne hother] at hphase
    obtain ⟨hleasedBy, hlatest, hrow⟩ := h.busy other job result hbefore
    exact ⟨hleasedBy, hlatest, hrow⟩
  sound := h.sound_setPhase hsound

theorem handlers_setHandler_self {change : HandlerRun → HandlerRun} {id : String} :
    (s.setHandler uuid id change).handlers id =
      HandlerRun.update (workerId uuid) change (s.handlers id) :=
  Function.update_self ..

theorem handlers_setHandler_of_ne {change : HandlerRun → HandlerRun} {id other : String}
    (hother : other ≠ id) : (s.setHandler uuid id change).handlers other = s.handlers other :=
  Function.update_of_ne hother ..

/-- The record of another worker. -/
theorem latest_setHandler_of_ne {change : HandlerRun → HandlerRun} {id : String} {other : String}
    (hchange : ∀ run, (change run).worker = run.worker) (hother : other ≠ uuid) (job : Job) :
    HandlerRun.latest (workerId other) ((s.setHandler uuid id change).handlers job.id) =
      HandlerRun.latest (workerId other) (s.handlers job.id) := by
  by_cases hid : job.id = id
  · subst hid
    rw [handlers_setHandler_self]
    exact HandlerRun.latest_update_of_ne hchange fun h => hother (Worker.workerId_inj h)
  · rw [handlers_setHandler_of_ne hid]

/-- **A handler ends**, or `scheduleAfter` does. -/
theorem Inv.setResult (h : Inv digest s) {job : Job} {before : Option (Except String Unit)}
    {result : Except String Unit} {phase : Phase}
    (hbefore : (s.workers uuid).inHand = some (job, before))
    (hafter : phase.inHand = some (job, some result)) (hsound : phase.Sound) :
    Inv digest ((s.setPhase uuid phase).setHandler uuid job.id (HandlerRun.setResult result)) := by
  have hbusy := h.busy uuid job before hbefore
  have hworker : ∀ run, (HandlerRun.setResult result run).worker = run.worker := fun _ => rfl
  refine ⟨h.keyed, ?_, ?_, ?_⟩
  · intro row hrow
    by_cases hid : row.id = job.id
    · rw [hid, handlers_setHandler_self]
      refine JobRow.Explained.setResult (hid ▸ h.rows row hrow) fun run hrun => ?_
      rw [hbusy.latest run hrun]
    · rw [handlers_setHandler_of_ne hid]
      exact h.rows row hrow
  · intro other job' result' hphase
    change ((s.setPhase uuid phase).workers other).inHand = _ at hphase
    by_cases hother : other = uuid
    · subst hother
      rw [workers_setPhase_self, hafter] at hphase
      cases hphase
      refine ⟨hbusy.leasedBy, fun run hrun => ?_, hbusy.row⟩
      rw [handlers_setHandler_self, HandlerRun.latest_update hworker, Option.map_eq_some_iff]
        at hrun
      obtain ⟨old, hold, rfl⟩ := hrun
      rw [hbusy.latest old hold]
      rfl
    · rw [workers_setPhase_of_ne hother] at hphase
      obtain ⟨hleasedBy, hlatest, hrow⟩ := h.busy other job' result' hphase
      refine ⟨hleasedBy, fun run hrun => hlatest run ?_, hrow⟩
      rw [latest_setHandler_of_ne hworker hother] at hrun
      exact hrun
  · exact h.sound_setPhase hsound

/-! ### The callers of the queue -/

/-- A row that stays as it is, with its record. -/
theorem told_of_mem {handlers : String → List HandlerRun} {row : JobRow} (hrow : row ∈ s.queue.jobs)
    (hrecord : handlers row.id = s.handlers row.id) : s.Told handlers row :=
  .inl ⟨row, hrow, .refl row, hrecord⟩

theorem id_of_hasKey {jobs : List JobRow} (h : KeyedTable digest jobs) {input : EnqueueJob}
    {row : JobRow} (hrow : row ∈ jobs) (hkey : hasKey input row) :
    row.id = jobId digest input.tenantId input.type input.idempotencyKey := by
  obtain ⟨htenant, htype, hidempotency⟩ := hasKey_iff.mp hkey
  rw [h.id_eq row hrow, htenant, htype, hidempotency]

/-- Without a live job of the key, its row is cancelled. -/
theorem Inv.cancelled_of_key (h : Inv digest s) {input : EnqueueJob} (hlive : ¬ s.hasLiveJob input)
    {row keyed : JobRow} (hrow : row ∈ s.queue.jobs) (hkeyed : keyed ∈ s.queue.jobs)
    (hkey : hasKey input keyed)
    (hid : row.id = jobId digest input.tenantId input.type input.idempotencyKey) :
    hasKey input row ∧ row.status = .cancelled := by
  obtain rfl : row = keyed := by
    refine Table.eq_of_key_eq h.keyed.nodup_id hrow hkeyed ?_
    rw [hid, id_of_hasKey h.keyed hkeyed hkey]
  refine ⟨hkey, ?_⟩
  by_contra hstatus
  exact hlive (List.any_eq_true.mpr ⟨row, hrow, decide_eq_true ⟨hkey, hstatus⟩⟩)

/-- The one row of a key is not live where it is cancelled. -/
theorem Inv.not_hasLiveJob (h : Inv digest s) {input : EnqueueJob} {row : JobRow}
    (hrow : row ∈ s.queue.jobs) (hkey : hasKey input row) (hcancelled : row.status = .cancelled) :
    ¬ s.hasLiveJob input := by
  intro hany
  obtain ⟨live, hmem, hlive⟩ := List.any_eq_true.mp hany
  obtain ⟨hliveKey, hstatus⟩ := of_decide_eq_true hlive
  have hsame : row = live := by
    refine Table.eq_of_key_eq h.keyed.nodup_id hrow hmem ?_
    rw [id_of_hasKey h.keyed hrow hkey, id_of_hasKey h.keyed hmem hliveKey]
  exact hstatus (hsame ▸ hcancelled)

/-- An `enqueue` of a key that has a row revives it, where it is cancelled. -/
theorem Inv.told_revive (h : Inv digest s) {input : EnqueueJob} {now : ℤ} {keyed old : JobRow}
    (hmax : 1 ≤ input.maxAttempts.getD 5) (hmem : keyed ∈ s.queue.jobs) (hkey : hasKey input keyed)
    (hold : old ∈ s.queue.jobs) :
    s.Told (s.recordEnqueue digest input)
      (if decide (hasKey input old ∧ old.status = .cancelled) then
        revive (enqueuedRow digest input now) old else old) := by
  by_cases hp : decide (hasKey input old ∧ old.status = .cancelled)
  · rw [if_pos hp]
    obtain ⟨holdKey, hcancelled⟩ := of_decide_eq_true hp
    have hrecord : s.recordEnqueue digest input old.id = [] := by
      unfold recordEnqueue
      rw [if_neg (h.not_hasLiveJob hold holdKey hcancelled), id_of_hasKey h.keyed hold holdKey,
        Function.update_self]
    refine .inr ⟨by rintro ⟨⟩, ?_⟩
    show JobRow.Explained _ (s.recordEnqueue digest input old.id)
    rw [hrecord]
    exact .queued rfl rfl hmax
  · rw [if_neg hp]
    refine told_of_mem hold ?_
    unfold recordEnqueue
    split
    · rfl
    · rename_i hlive
      -- a row under the id would be the cancelled row of the key
      refine Function.update_of_ne (fun hid => hp (decide_eq_true ?_)) ..
      exact h.cancelled_of_key hlive hold hmem hkey hid

/-- An `enqueue` of a new key appends a row. -/
theorem Inv.told_append (h : Inv digest s) {input : EnqueueJob} {now : ℤ} {new : JobRow}
    (hmax : 1 ≤ input.maxAttempts.getD 5)
    (hfresh : ∀ row ∈ s.queue.jobs, row.id ≠ (enqueuedRow digest input now).id)
    (hnew : new ∈ s.queue.jobs ++ [enqueuedRow digest input now]) :
    s.Told (s.recordEnqueue digest input) new := by
  have hlive : ¬ s.hasLiveJob input := by
    intro hany
    obtain ⟨live, hmem, hlive⟩ := List.any_eq_true.mp hany
    exact hfresh live hmem (id_of_hasKey h.keyed hmem (of_decide_eq_true hlive).1)
  unfold recordEnqueue
  rw [if_neg hlive]
  rcases List.mem_append.mp hnew with hold | hlast
  · exact told_of_mem hold (Function.update_of_ne (hfresh new hold) ..)
  · rw [List.mem_singleton.mp hlast]
    refine .inr ⟨by rintro ⟨⟩, ?_⟩
    rw [enqueuedRow, Function.update_self]
    exact .queued rfl rfl hmax

theorem Inv.enqueue (h : Inv digest s) {input : EnqueueJob} {clock : Readings}
    (hs : s.step digest (.enqueue input clock) = some t) : Inv digest t := by
  rw [LoopRun.step] at hs
  split at hs
  · rename_i hmax
    split at hs
    · cases hs
      exact h
    · rename_i queue job henq
      cases hs
      have hkeyed : KeyedTable digest queue.jobs := by
        have hfixed := (@enqueue_fixed digest s.queue clock input).keyed h.keyed
        rwa [henq] at hfixed
      obtain ⟨jobs, hupsert, rfl, -⟩ := enqueue_ok henq
      refine h.of_rows hkeyed ?_ ?_
      · intro new hnew
        rcases upsertJob_ok hupsert with ⟨⟨keyed, hmem, hkey⟩, rfl⟩ | ⟨hfresh, rfl⟩
        · obtain ⟨old, hold, rfl⟩ := Table.mem_updateWhere.mp hnew
          exact h.told_revive hmax hmem hkey hold
        · exact h.told_append hmax hfresh hnew
      · intro uuid job' result _ run hrun
        unfold recordEnqueue at hrun
        split at hrun
        · exact hrun
        · by_cases hid : job'.id = jobId digest input.tenantId input.type input.idempotencyKey
          · rw [hid, Function.update_self] at hrun
            cases hrun
          · rwa [Function.update_of_ne hid] at hrun
  · cases hs

theorem Inv.cancelPending (h : Inv digest s) {input : CancelPendingJobs} {clock : Readings}
    (hs : s.step digest (.cancelPending input clock) = some t) : Inv digest t := by
  cases hs
  obtain ⟨change, hmap, hchange⟩ :=
    cancelIds_map clock ((s.queue.jobs.filter (isCancelCandidate input)).map JobRow.id)
      s.queue.jobs 0
  refine h.withQueue (h.keyed.of_fixed_eq cancelPending_fixed) ?_
  intro new hnew
  change new ∈ (cancelIds _ _ _ _).1 at hnew
  rw [hmap] at hnew
  obtain ⟨old, hold, rfl⟩ := List.mem_map.mp hnew
  rcases hchange old with hsame | ⟨hpending, redactedAt, now, hcancel⟩
  · rw [hsame]
    exact told_of_mem hold rfl
  · rw [hcancel]
    exact .inr ⟨by rintro ⟨⟩, (h.rows old hold).cancelled hpending redactedAt now⟩

/-- An erasure deletes jobs and appends its reconciliation. -/
theorem erasedJobs_ok {jobs erased : List JobRow} {tenantId userId operationId : String}
    {organizationIds : List String} {now : ℤ}
    (h : erasedJobs digest jobs tenantId userId operationId organizationIds now = .ok erased) :
    let new := reconciliation digest tenantId userId operationId organizationIds now
    ∃ kept, kept.Sublist jobs ∧ (new.map JobRow.id).Nodup ∧
      (∀ old ∈ kept, ∀ row ∈ new, old.id ≠ row.id) ∧ erased = kept ++ new := by
  unfold erasedJobs at h
  cases hkept : Database.withoutJobs .sqlite jobs tenantId userId with
  | error e => rw [hkept] at h; cases h
  | ok kept =>
      rw [hkept] at h
      obtain ⟨hids, -⟩ := Database.insertJobs_eq_ok.mp h
      refine ⟨kept, ?_, Table.insertAll_eq_some.mp hids⟩
      unfold Database.withoutJobs at hkept
      split at hkept
      · cases hkept
      · cases hkept
        exact List.filter_sublist

theorem Inv.eraseAccount (h : Inv digest s) {tenantId userId operationId : String}
    {organizationIds : List String} {now : ℤ}
    (hs : s.step digest (.eraseAccount tenantId userId operationId organizationIds now) = some t) :
    Inv digest t := by
  rw [LoopRun.step] at hs
  split at hs
  · cases hs
    exact h
  · rename_i jobs herased
    cases hs
    obtain ⟨kept, hsub, hnodup, hapart, rfl⟩ := erasedJobs_ok herased
    refine h.of_rows ⟨?_, ?_⟩ ?_ ?_
    · rw [List.map_append, List.nodup_append]
      refine ⟨h.keyed.nodup_id.sublist (hsub.map _), hnodup, ?_⟩
      intro a ha b hb
      obtain ⟨old, hold, rfl⟩ := List.mem_map.mp ha
      obtain ⟨new, hnew, rfl⟩ := List.mem_map.mp hb
      exact hapart old hold new hnew
    · intro row hrow
      rcases List.mem_append.mp hrow with hold | hnew
      · exact h.keyed.id_eq row (hsub.subset hold)
      · obtain ⟨organizationId, -, rfl⟩ := List.mem_map.mp hnew
        rfl
    · intro new hnew
      rcases List.mem_append.mp hnew with hold | hnew
      · refine told_of_mem (hsub.subset hold) (if_neg fun hid => ?_)
        obtain ⟨fresh, hfresh, hsame⟩ := List.mem_map.mp hid
        exact hapart new hold fresh hfresh hsame.symm
      · have hid := List.mem_map_of_mem (f := JobRow.id) hnew
        obtain ⟨organizationId, -, rfl⟩ := List.mem_map.mp hnew
        refine .inr ⟨by rintro ⟨⟩, ?_⟩
        show JobRow.Explained _ (ite _ _ _)
        rw [if_pos hid]
        exact .queued rfl rfl (Nat.le_add_left 1 4)
    · intro uuid job result _ run hrun
      split at hrun
      · cases hrun
      · exact hrun

/-! ### The steps of a worker -/

/-- The sweep of a `leaseNext`. -/
theorem Inv.sweep (h : Inv digest s) (clock : Readings) :
    Inv digest { s with queue := { s.queue with jobs := sweep clock s.queue.jobs } } := by
  refine h.withQueue (h.keyed.of_fixed_eq (fixed_updateWhere fun _ => rfl)) ?_
  intro new hnew
  obtain ⟨old, hold, rfl⟩ := Table.mem_updateWhere.mp hnew
  split
  · rename_i hexhausted
    exact .inr ⟨by rintro ⟨⟩, (h.rows old hold).exhausted hexhausted _ _⟩
  · exact told_of_mem hold rfl

/-- **A worker leases a job**, and begins to handle it. -/
theorem Inv.lease (h : Inv digest s) (hidle : s.workers uuid = .idle) {row : JobRow}
    (hrow : row ∈ s.queue.jobs) {a b c : ℤ} (heligible : row.eligible a b c)
    {queue : Queue} {leasedUntil now : ℤ}
    (hjobs : queue.jobs = Table.updateWhere (fun r => r.id = row.id)
      (leaseRow (workerId uuid) leasedUntil now) s.queue.jobs) {phase : Phase} {job : Job}
    (hjob : job = (leaseRow (workerId uuid) leasedUntil now row).toJob)
    (hphase : phase.inHand = some (job, none)) (hsound : phase.Sound) :
    Inv digest
      { queue := queue
        workers := Function.update s.workers uuid phase
        handlers := Function.update s.handlers job.id
          (⟨workerId uuid, none, false⟩ :: s.handlers job.id) } := by
  have hid : job.id = row.id := by rw [hjob]; rfl
  rw [hid]
  -- a row of the new table is the leased one, or one from before under another id
  have hcases : ∀ new ∈ queue.jobs, new = leaseRow (workerId uuid) leasedUntil now row ∨
      new ∈ s.queue.jobs ∧ new.id ≠ row.id := by
    intro new hnew
    rw [hjobs] at hnew
    obtain ⟨old, hold, rfl⟩ := Table.mem_updateWhere.mp hnew
    split
    · rename_i hsame
      rw [Table.eq_of_key_eq h.keyed.nodup_id hold hrow (of_decide_eq_true hsame)]
      exact .inl rfl
    · rename_i hother
      exact .inr ⟨hold, fun hsame => hother (decide_eq_true hsame)⟩
  refine ⟨?_, ?_, ?_, ?_⟩
  · show KeyedTable digest queue.jobs
    rw [hjobs]
    exact h.keyed.of_fixed_eq (fixed_updateWhere fun _ => rfl)
  · intro new hnew
    dsimp only
    rcases hcases new hnew with rfl | ⟨hold, hother⟩
    · show JobRow.Explained _ (Function.update s.handlers row.id _ row.id)
      rw [Function.update_self]
      exact (h.rows row hrow).leased heligible _ _ _
    · rw [Function.update_of_ne hother]
      exact h.rows new hold
  · intro other job' result hother
    by_cases hsame : other = uuid
    · subst hsame
      dsimp only at hother
      rw [Function.update_self, hphase] at hother
      cases hother
      refine ⟨?_, fun run hrun => ?_, ?_⟩
      · rw [hjob]
        simp [JobRow.toJob, leaseRow, Worker.workerId_ne]
      · have hfirst : HandlerRun.latest (workerId other)
            (⟨workerId other, none, false⟩ :: s.handlers row.id) =
            some ⟨workerId other, none, false⟩ :=
          HandlerRun.latest_cons_self rfl
        dsimp only at hrun
        rw [hid, Function.update_self, hfirst] at hrun
        exact (Option.some_inj.mp hrun).symm
      · intro new hnew hnewId _ _
        rcases hcases new hnew with rfl | ⟨-, hne⟩
        · rw [hjob]
          exact ⟨rfl, rfl, rfl, rfl⟩
        · exact absurd (hnewId.trans hid) hne
    · dsimp only at hother
      rw [Function.update_of_ne hsame] at hother
      have hne : workerId uuid ≠ workerId other := fun hw => hsame (Worker.workerId_inj hw).symm
      obtain ⟨hleasedBy, hlatest, hold⟩ := h.busy other job' result hother
      refine ⟨hleasedBy, fun run hrun => hlatest run ?_, ?_⟩
      · dsimp only at hrun
        by_cases hjobId : job'.id = row.id
        · rw [hjobId, Function.update_self, HandlerRun.latest_cons_of_ne hne] at hrun
          rw [hjobId]
          exact hrun
        · rwa [Function.update_of_ne hjobId] at hrun
      · intro new hnew hnewId hrunning hby
        rcases hcases new hnew with rfl | ⟨hmem, -⟩
        · exact absurd (Option.some_inj.mp hby) hne
        · exact hold new hmem hnewId hrunning hby
  · intro other
    dsimp only
    by_cases hsame : other = uuid
    · rw [hsame, Function.update_self]
      exact hsound
    · rw [Function.update_of_ne hsame]
      exact h.sound other

theorem Inv.leaseNext (h : Inv digest s) {pick : Option String} {clock : Readings}
    (hs : s.step digest (.leaseNext uuid pick clock) = some t) : Inv digest t := by
  rw [LoopRun.step] at hs
  split at hs
  · rename_i hidle
    split at hs
    · cases hs
    · rename_i queue hlease
      cases hs
      rcases leaseNext_some hlease with ⟨-, -, -, rfl⟩ | ⟨row, -, -, -, hout, -⟩
      · exact h.sweep clock
      · cases hout
    · rename_i queue job hlease
      cases hs
      rcases leaseNext_some hlease with ⟨-, hout, -⟩ | ⟨row, hrow, -, hnext, hjob, hjobs, -⟩
      · cases hout
      · have heligible := (List.mem_filter.mp (of_decide_eq_true hnext).1).2
        have hcarries : (Worker.started queue job).Carries job :=
          ⟨.refl job, (by rintro r ⟨⟩), (by rintro owned ⟨⟩)⟩
        exact (h.sweep clock).lease hidle hrow heligible hjobs (Option.some_inj.mp hjob) rfl
          hcarries
  · cases hs

/-- A renewal changes no more than the end of a lease. -/
theorem Inv.renewed (h : Inv digest s) {queue : Queue} (hrenewed : Renewed s.queue queue) :
    Inv digest { s with queue := queue } := by
  rcases hrenewed with rfl | ⟨p, renewedUntil, now, rfl⟩
  · exact h
  · refine h.withQueue (h.keyed.of_fixed_eq (fixed_updateWhere fun _ => rfl)) ?_
    intro new hnew
    obtain ⟨old, hold, rfl⟩ := Table.mem_updateWhere.mp hnew
    split
    · exact .inl ⟨old, hold, ⟨rfl, rfl, rfl, rfl, rfl, rfl, rfl, rfl⟩, rfl⟩
    · exact told_of_mem hold rfl

theorem beat_some {heartbeat after : HeartbeatRun} {label : HeartbeatStep} {job : Job}
    (h : heartbeat.Carries job) (hs : s.beat digest uuid heartbeat label = some after) :
    after.Carries job ∧ Renewed s.queue after.queue := by
  unfold beat at hs
  split at hs
  · rename_i hown
    have hcarries : ({ heartbeat with queue := s.queue } : HeartbeatRun).Carries job :=
      ⟨h.current, h.inFlight, h.returned⟩
    exact hcarries.step (.inl hown) hs
  · cases hs

theorem Inv.heartbeat (h : Inv digest s) {label : HeartbeatStep}
    (hs : s.step digest (.heartbeat uuid label) = some t) : Inv digest t := by
  have hsound := h.sound uuid
  rw [LoopRun.step] at hs
  split at hs
  · rename_i job heartbeat hphase
    obtain ⟨after, hbeat, rfl⟩ := Option.map_eq_some_iff.mp hs
    rw [hphase] at hsound
    obtain ⟨hcarries, hrenewed⟩ := beat_some hsound hbeat
    have hnext : Inv digest (s.setPhase uuid (.handling job after)) :=
      h.setPhase hcarries (.inr (by rw [hphase]; rfl))
    exact hnext.renewed hrenewed
  · rename_i job heartbeat outcome hphase
    obtain ⟨after, hbeat, rfl⟩ := Option.map_eq_some_iff.mp hs
    rw [hphase] at hsound
    obtain ⟨hcarries, hrenewed⟩ := beat_some hsound.1 hbeat
    have hnext : Inv digest (s.setPhase uuid (.stopping job after outcome)) :=
      h.setPhase ⟨hcarries, hsound.2⟩ (.inr (by rw [hphase]; rfl))
    exact hnext.renewed hrenewed
  · cases hs

theorem Inv.handled (h : Inv digest s) {outcome : Worker.Outcome}
    (hs : s.step digest (.handled uuid outcome) = some t) : Inv digest t := by
  have hsound := h.sound uuid
  rw [LoopRun.step] at hs
  split at hs
  · rename_i job heartbeat hphase
    split at hs
    · rename_i hadmits
      obtain ⟨after, hstop, rfl⟩ := Option.map_eq_some_iff.mp hs
      rw [hphase] at hsound
      have hcarries := (HeartbeatRun.Carries.step hsound (.inr rfl) hstop).1
      exact h.setResult (by rw [hphase]; rfl) rfl ⟨hcarries, hadmits⟩
    · cases hs
  · cases hs

theorem Inv.stopped (h : Inv digest s) (hs : s.step digest (.stopped uuid) = some t) :
    Inv digest t := by
  have hsound := h.sound uuid
  rw [LoopRun.step] at hs
  split at hs
  · rename_i job heartbeat outcome hphase
    rw [hphase] at hsound
    obtain ⟨hcarries, hadmits⟩ := hsound
    split at hs
    · rename_i ownedJob hreturned
      cases hs
      cases ownedJob with
      | none => exact h.setPhase trivial (.inl rfl)
      | some ownedJob =>
          have hlease := hcarries.returned ownedJob hreturned
          cases outcome with
          | error message =>
              exact h.setPhase ⟨hlease, by rintro ⟨⟩⟩ (.inr (by rw [hphase]; rfl))
          | ok recurring =>
              have hsupported := (of_decide_eq_true hadmits).1
              cases recurring with
              | none => exact h.setPhase ⟨hlease, fun _ => hsupported⟩ (.inr (by rw [hphase]; rfl))
              | some payload => exact h.setPhase ⟨hlease, hsupported⟩ (.inr (by rw [hphase]; rfl))
    · cases hs
  · cases hs

theorem Inv.scheduled (h : Inv digest s) {processingError : Option String}
    (hs : s.step digest (.scheduled uuid processingError) = some t) : Inv digest t := by
  have hsound := h.sound uuid
  rw [LoopRun.step] at hs
  split at hs
  · rename_i job ownedJob payload hphase
    cases hs
    rw [hphase] at hsound
    exact h.setResult (by rw [hphase]; rfl) rfl ⟨hsound.1, fun _ => hsound.2⟩
  · cases hs

/-- The record of a job that a worker with the lease settles. -/
theorem Inv.held (h : Inv digest s) {job : Job} {result : Option (Except String Unit)}
    (hphase : (s.workers uuid).inHand = some (job, result)) {row : JobRow}
    (hrow : row ∈ s.queue.jobs) (hid : row.id = job.id) (hrunning : row.status = .running)
    (hby : row.leasedBy = some (workerId uuid)) :
    job.Of row ∧ ∃ rest, s.handlers job.id = ⟨workerId uuid, result, false⟩ :: rest := by
  have hbusy := h.busy uuid job result hphase
  obtain ⟨run, rest, hruns, -, hworker⟩ := (h.rows row hrow).running_cons hrunning
  refine ⟨hbusy.row row hrow hid hrunning hby, rest, ?_⟩
  have hrun : run.worker = workerId uuid := Option.some_inj.mp (hworker.symm.trans hby)
  rw [hid] at hruns
  rw [hruns, ← hbusy.latest run (by rw [hruns, HandlerRun.latest_cons_self hrun])]

/-- **A settlement that the queue takes** is that of the last handler, of a job that the worker
still leases. -/
theorem Inv.settled (h : Inv digest s) {job ownedJob : Job} {result : Except String Unit}
    (hphase : (s.workers uuid).inHand = some (job, some result)) (hlease : job.SameLease ownedJob)
    {queue : Queue} {leasedBy : String} {leasedUntil now : ℤ} {f : JobRow → JobRow}
    (hownedBy : ownedJob.leasedBy = some leasedBy) (hfixed : ∀ row, (f row).fixed = row.fixed)
    (hstatus : ∀ row, (f row).status ≠ .running)
    (hexplained : ∀ row rest, job.Of row →
      row.Explained (⟨workerId uuid, some result, false⟩ :: rest) →
        (f row).Explained (⟨workerId uuid, some result, true⟩ :: rest))
    (hheld : ∃ row ∈ s.queue.jobs, holdsLease ownedJob.id leasedBy leasedUntil now row)
    (hjobs : queue.jobs = Table.updateWhere (holdsLease ownedJob.id leasedBy leasedUntil now) f
      s.queue.jobs) :
    Inv digest
      { (s.setPhase uuid .idle).setHandler uuid job.id HandlerRun.setSettled with
        queue := queue } := by
  obtain ⟨renewedUntil, rfl⟩ := hlease
  obtain rfl : workerId uuid = leasedBy :=
    Option.some_inj.mp ((h.busy uuid job (some result) hphase).leasedBy.symm.trans hownedBy)
  obtain ⟨holder, hholder, hholds⟩ := hheld
  obtain ⟨hid, hrunning, hby, -, -⟩ := holdsLease_iff.mp hholds
  obtain ⟨hof, rest, hrecord⟩ := h.held hphase hholder hid hrunning hby
  have hafter : HandlerRun.update (workerId uuid) HandlerRun.setSettled (s.handlers job.id) =
      ⟨workerId uuid, some result, true⟩ :: rest := by
    rw [hrecord, HandlerRun.update, if_pos rfl]
    rfl
  have hidle : Inv digest (s.setPhase uuid .idle) := h.setPhase trivial (.inl rfl)
  refine hidle.of_rows ?_ ?_ ?_
  · rw [hjobs]
    exact h.keyed.of_fixed_eq (fixed_updateWhere hfixed)
  · intro new hnew
    rw [hjobs] at hnew
    obtain ⟨old, hold, rfl⟩ := Table.mem_updateWhere.mp hnew
    split
    · -- the row that holds the lease
      rename_i hp
      obtain rfl : old = holder :=
        Table.eq_of_key_eq h.keyed.nodup_id hold hholder ((holdsLease_iff.mp hp).1.trans hid.symm)
      refine .inr ⟨hstatus old, ?_⟩
      have hsame : (f old).id = job.id := (congrArg Prod.fst (hfixed old)).trans hid
      show (f old).Explained (((s.setPhase uuid .idle).setHandler uuid job.id _).handlers _)
      rw [hsame, handlers_setHandler_self]
      show (f old).Explained (HandlerRun.update _ _ (s.handlers job.id))
      rw [hafter]
      refine hexplained old rest hof ?_
      rw [← hrecord, ← hid]
      exact h.rows old hold
    · rename_i hp
      refine told_of_mem hold (handlers_setHandler_of_ne fun hsame => hp ?_)
      rwa [Table.eq_of_key_eq h.keyed.nodup_id hold hholder (hsame.trans hid.symm)]
  · intro other job' result' hbusy run hrun
    have hother : other ≠ uuid := by
      rintro rfl
      rw [workers_setPhase_self] at hbusy
      cases hbusy
    have hworker : ∀ run, (HandlerRun.setSettled run).worker = run.worker := fun _ => rfl
    rw [← hrun]
    exact (latest_setHandler_of_ne hworker hother job').symm

theorem Inv.settle (h : Inv digest s) {clock : Readings}
    (hs : s.step digest (.settle uuid clock) = some t) : Inv digest t := by
  have hsound := h.sound uuid
  rw [LoopRun.step] at hs
  split at hs
  · rename_i job ownedJob processingError hphase
    rw [hphase] at hsound
    obtain ⟨hlease, hsupported⟩ := hsound
    split at hs
    · cases hs
      exact h.setPhase trivial (.inl rfl)
    · rename_i queue hsettled
      cases hs
      cases processingError with
      | none =>
          obtain ⟨leasedBy, leasedUntil, hby, -, hheld, rfl⟩ := complete_ok hsettled
          refine h.settled (f := succeedRow (clock.nth 0) (clock.nth 1)) (by rw [hphase]; rfl)
            hlease hby (fun _ => rfl) (fun _ => by rintro ⟨⟩) ?_ hheld rfl
          intro row rest hof hrow
          refine hrow.succeeded ?_ _ _
          rw [← hof.type, ← hof.payload]
          exact hsupported rfl
      | some message =>
          obtain ⟨leasedBy, leasedUntil, hby, -, hheld, rfl⟩ := fail_ok hsettled
          refine h.settled
            (f := failRow (ownedJob.maxAttempts ≤ ownedJob.attemptCount) message _ _ _) (by rw [hphase]; rfl) hlease hby (fun _ => rfl) ?_ ?_ hheld rfl
          · intro row
            unfold failRow
            dsimp only
            split <;> rintro ⟨⟩
          · intro row rest hof hrow
            obtain ⟨renewedUntil, rfl⟩ := hlease
            dsimp only
            rw [hof.attemptCount, hof.maxAttempts]
            exact hrow.failed _ _ _
  · cases hs

/-- **Every step keeps the invariant.** -/
theorem Inv.step (h : Inv digest s) {label : LoopStep} (hs : s.step digest label = some t) :
    Inv digest t := by
  cases label with
  | enqueue input clock => exact h.enqueue hs
  | cancelPending input clock => exact h.cancelPending hs
  | eraseAccount tenantId userId operationId organizationIds now => exact h.eraseAccount hs
  | leaseNext uuid pick clock => exact h.leaseNext hs
  | heartbeat uuid label => exact h.heartbeat hs
  | handled uuid outcome => exact h.handled hs
  | stopped uuid => exact h.stopped hs
  | scheduled uuid processingError => exact h.scheduled hs
  | settle uuid clock => exact h.settle hs
  | exit uuid =>
      cases hs
      exact h.setPhase trivial (.inl rfl)

theorem Reached.inv (h : Reached digest s) : Inv digest s := by
  refine Transition.Reachable.invariant ?_ (fun s label t _ hinv hs => hinv.step hs) h
  rintro _ rfl
  exact .empty

/-! ### What the table tells -/

/-- The handlers that completed a job: one if it has succeeded, and none otherwise. -/
theorem countP_completed {row : JobRow} {runs : List HandlerRun} (h : row.Explained runs) :
    runs.countP HandlerRun.completed = if row.status = .succeeded then 1 else 0 := by
  have hnot : ∀ run : HandlerRun, (run.settled → run.Failed) → ¬ run.completed := by
    intro run hfailed hcompleted
    obtain ⟨hsettled, hresult⟩ := of_decide_eq_true hcompleted
    obtain ⟨-, message, herror⟩ := hfailed hsettled
    rw [herror] at hresult
    cases hresult
  split
  · rename_i hstatus
    have hlast := h.last
    unfold JobRow.Shows at hlast
    rw [hstatus] at hlast
    obtain ⟨run, hhead, hsettled, hresult, -⟩ := hlast
    obtain ⟨rest, rfl⟩ := List.head?_eq_some_iff.mp hhead
    have hcompleted : run.completed := by
      unfold HandlerRun.completed
      rw [hresult, hsettled]
      rfl
    rw [List.countP_cons_of_pos hcompleted, List.countP_eq_zero.mpr]
    intro earlier hmem
    exact hnot earlier (h.earlier earlier hmem)
  · rename_i hstatus
    exact List.countP_eq_zero.mpr fun run hrun => hnot run (h.settled_failed hstatus run hrun)

/-- **The jobs table tells what the handlers did.**  In every state that a run of any number of
workers reaches, with crashes anywhere and whatever the clocks read, the row of a job has had as
many handlers since it was enqueued as it has attempts, and no more than it may have; its status,
its worker and its error are what the last of them has come to; and it has succeeded exactly if
one of them was completed, which is then the last one, and the only one. -/
theorem handlers_explained (h : Reached digest s) {row : JobRow} (hrow : row ∈ s.queue.jobs) :
    row.Explained (s.handlers row.id) ∧
      (s.handlers row.id).countP HandlerRun.completed =
        if row.status = .succeeded then 1 else 0 :=
  ⟨h.inv.rows row hrow, countP_completed (h.inv.rows row hrow)⟩

/-- The first worker is too slow: its lease expires, a second one leases the job and completes it,
and the heartbeat of the first one learns that the lease is lost. -/
def tooSlow : List LoopStep :=
  [.enqueue ⟨"t1", "ingest.url", "k", .obj [], none, none, none⟩ ⟨1000, []⟩,
    .leaseNext "a" (some "job_t1:ingest.url:k") ⟨2000, []⟩,
    .handled "a" (.ok none),
    .leaseNext "b" (some "job_t1:ingest.url:k") ⟨62001, []⟩,
    .heartbeat "a" (.resume 62500), .heartbeat "a" (.serve 0 ⟨62501, []⟩),
    .heartbeat "a" (.resolve 0), .stopped "a",
    .handled "b" (.ok none), .heartbeat "b" (.resume 63000), .stopped "b",
    .settle "b" ⟨64000, []⟩]

theorem tooSlow_runs : (Transition.exec (step id) empty tooSlow).isSome := by decide +kernel

/-- The state after `tooSlow`. -/
def tooSlowRun : LoopRun := (Transition.exec (step id) empty tooSlow).get tooSlow_runs

theorem tooSlowRun_jobs : tooSlowRun.queue.jobs ≠ [] := by decide +kernel

/-- Both handlers of `tooSlow` have returned, and one of them counts. -/
theorem handlers_explained_tooSlow :
    ∃ row ∈ tooSlowRun.queue.jobs, row.status = .succeeded ∧
      tooSlowRun.handlers row.id =
        [⟨"worker-b", some (.ok ()), true⟩, ⟨"worker-a", some (.ok ()), false⟩] ∧
      row.Explained (tooSlowRun.handlers row.id) ∧
      (tooSlowRun.handlers row.id).countP HandlerRun.completed =
        if row.status = .succeeded then 1 else 0 := by
  have hreached : Reached id tooSlowRun :=
    Transition.Reachable.of_exec (.start rfl) (Option.some_get tooSlow_runs).symm
  have hrow := List.head_mem tooSlowRun_jobs
  refine ⟨tooSlowRun.queue.jobs.head tooSlowRun_jobs, hrow, ?_, ?_,
    handlers_explained hreached hrow⟩
  · decide +kernel
  · decide +kernel

end LoopRun

end RecruitingOs
