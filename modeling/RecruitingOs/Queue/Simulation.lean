import RecruitingOs.Queue.Agreement

/-!
# The operations of the two queues on corresponding tables

Each operation that reads the clock once: on corresponding tables both sides answer the
same and leave corresponding tables.
-/

namespace RecruitingOs

open SqliteJobQueue (isExhausted hasKey)

/-- Both calls reject, or both resolve with related values. -/
inductive BothAnswer {ε ε' α β : Type} (R : α → β → Prop) : Except ε α → Except ε' β → Prop
  | rejected (error : ε) (error' : ε') : BothAnswer R (.error error) (.error error')
  | resolved {a : α} {b : β} (h : R a b) : BothAnswer R (.ok a) (.ok b)

namespace TableSim

variable {digest : String → String} {timestamp : ℤ → String} {q p : Queue} {now : ℤ}

/-! ### `enqueue` -/

variable (digest now) in
theorem upsertJob (h : TableSim q p) {input : EnqueueJob} (hrecord : isRecord input.payload) :
    BothAnswer (List.Forall₂ RowSim) (SqliteJobQueue.upsertJob digest input now q.jobs)
      (PostgresQueue.upsertJob (PostgresQueue.enqueuedRow digest input now (now * 1000)) input
        p.jobs) := by
  have hfresh := RowSim.enqueued digest hrecord now
  have hkeyed := Table.forall₂_any h.jobs fun a b hrow => hrow.hasKey_eq input
  have htaken : (p.jobs.any fun row =>
        row.id = (PostgresQueue.enqueuedRow digest input now (now * 1000)).id) =
      q.jobs.any fun row => row.id = (SqliteJobQueue.enqueuedRow digest input now).id :=
    Table.forall₂_any h.jobs fun _ _ hrow => hrow.isId_eq _
  unfold SqliteJobQueue.upsertJob PostgresQueue.upsertJob
  dsimp only
  rw [hkeyed, htaken]
  split
  · refine .resolved (Table.forall₂_updateWhere h.jobs (fun a b hrow => ?_) ?_
      fun _ _ hrow _ => hrow)
    · rw [hrow.hasKey_eq, hrow.status_eq]
    · exact fun a b _ hrow _ => hrow.revive hfresh rfl (by simp [SqliteJobQueue.enqueuedRow])
  · split
    · exact .rejected _ _
    · exact .resolved (List.rel_append h.jobs (.cons hfresh .nil))

variable (digest now) in
theorem enqueue (h : TableSim q p) {input : EnqueueJob} (hrecord : isRecord input.payload)
    (hstorable : PostgresQueue.storable input) :
    BothAnswer (fun out out' => TableSim out.1 out'.1 ∧ JobSim out.2 out'.2)
      (SqliteJobQueue.enqueue digest q input ⟨now, []⟩)
      (PostgresQueue.enqueue digest p input ⟨now * 1000, []⟩) := by
  have hcut : now * 1000 / 1000 = now := by omega
  have hupsert := upsertJob digest now h hrecord
  unfold SqliteJobQueue.enqueue PostgresQueue.enqueue
  rw [if_pos hstorable]
  simp only [Readings.nth_once, hcut]
  generalize SqliteJobQueue.upsertJob digest input now q.jobs = out at hupsert
  generalize PostgresQueue.upsertJob _ input p.jobs = out' at hupsert
  cases hupsert with
  | rejected _ _ => exact .rejected _ _
  | @resolved jobs jobs' hjobs =>
      have hfind : Option.Rel RowSim
          (jobs.find? fun row =>
            row.id = jobId digest input.tenantId input.type input.idempotencyKey)
          (jobs'.find? fun row =>
            row.id = (PostgresQueue.enqueuedRow digest input now (now * 1000)).id) :=
        Table.forall₂_find? hjobs fun _ _ hrow => hrow.isId_eq _
      dsimp only
      generalize jobs.find? _ = found at hfind
      generalize jobs'.find? _ = found' at hfind
      cases hfind with
      | none => exact .rejected _ _
      | some hrow => exact .resolved ⟨⟨hjobs, h.served⟩, hrow.jobSim⟩

/-! ### `cancelPending` -/

end TableSim

/-- One statement for each selected id cancels what one statement for all would. -/
theorem SqliteJobQueue.cancelIds_once {now : ℤ} :
    ∀ (ids : List String) (jobs : List JobRow) (i : ℕ), cancelIds ⟨now, []⟩ i ids jobs =
      (Table.updateWhere (fun row => row.id ∈ ids ∧ row.status.pending) (cancelRow now now) jobs,
        Table.changes (fun row => row.id ∈ ids ∧ row.status.pending) jobs) := by
  intro ids
  induction ids with
  | nil =>
      intro jobs i
      rw [Table.updateWhere_of_none (by simp), cancelIds]
      simp [Table.changes]
  | cons id ids ih =>
      intro jobs i
      have hcons : (fun row : JobRow => decide (row.id ∈ id :: ids ∧ row.status.pending)) =
          fun row => isPendingId id row || decide (row.id ∈ ids ∧ row.status.pending) := by
        funext row
        rw [isPendingId, ← Bool.decide_or, decide_eq_decide, List.mem_cons, or_and_right]
      -- a row that the first statement cancels is not pending for the others
      have hdone : ∀ row ∈ jobs, isPendingId id row →
          decide ((cancelRow now now row).id ∈ ids ∧ (cancelRow now now row).status.pending) =
            false :=
        fun row _ _ => decide_eq_false fun h => absurd h.2 (by simp [cancelRow, JobStatus.pending])
      rw [cancelIds, ih, hcons]
      simp only [Readings.nth_once]
      rw [Table.updateWhere_updateWhere hdone, Table.changes_updateWhere hdone]

/-- `cancelPending` is one statement on the candidates. -/
theorem SqliteJobQueue.cancelPending_once {q : Queue} {input : CancelPendingJobs} {now : ℤ}
    (hnodup : (q.jobs.map JobRow.id).Nodup) :
    cancelPending q input ⟨now, []⟩ =
      ({ q with jobs := Table.updateWhere (isCancelCandidate input) (cancelRow now now) q.jobs },
        Table.changes (isCancelCandidate input) q.jobs) := by
  have hselected : ∀ row ∈ q.jobs, decide
      (row.id ∈ (q.jobs.filter (isCancelCandidate input)).map JobRow.id ∧ row.status.pending) =
        isCancelCandidate input row := by
    intro row hrow
    rw [Bool.eq_iff_iff, decide_eq_true_eq]
    constructor
    · rintro ⟨hid, -⟩
      obtain ⟨other, hother, hsame⟩ := List.mem_map.mp hid
      obtain ⟨hmem, hcandidate⟩ := List.mem_filter.mp hother
      obtain rfl := Table.eq_of_key_eq hnodup hmem hrow hsame
      exact hcandidate
    · intro hcandidate
      have hpending := (of_decide_eq_true hcandidate).2.2.1
      exact ⟨List.mem_map_of_mem (List.mem_filter.mpr ⟨hrow, hcandidate⟩), hpending⟩
  rw [cancelPending, cancelIds_once]
  dsimp only
  congr 1
  · congr 1
    rw [Table.updateWhere, Table.updateWhere]
    exact List.map_congr_left fun row hrow => by rw [hselected row hrow]
  · rw [Table.changes, Table.changes]
    exact List.countP_congr fun row hrow => by rw [hselected row hrow]

namespace TableSim

variable {digest : String → String} {timestamp : ℤ → String} {q p : Queue} {now : ℤ}

variable (now) in
theorem cancelPending (h : TableSim q p) (hnodup : (q.jobs.map JobRow.id).Nodup)
    {input : CancelPendingJobs} (htype : input.type = "connector.sync")
    (hstorable : PostgresQueue.storableFilter input) :
    ∃ p' count, PostgresQueue.cancelPending p input ⟨now * 1000, []⟩ = .ok (p', count) ∧
      TableSim (SqliteJobQueue.cancelPending q input ⟨now, []⟩).1 p' ∧
      count = (SqliteJobQueue.cancelPending q input ⟨now, []⟩).2 := by
  have hmatch : ∀ a b, RowSim a b → PostgresQueue.isCancelled input b =
      SqliteJobQueue.isCancelCandidate input a := by
    intro a b hrow
    have hrecord := hrow.record
    have hscreenshot := hrow.screenshot
    obtain ⟨payload, _, _, rfl⟩ := hrow.exists_eq
    rw [PostgresQueue.isCancelled, SqliteJobQueue.isCancelCandidate, decide_eq_decide]
    refine and_congr_right fun _ => and_congr_right fun hsync => and_congr_right fun _ => ?_
    have hsame : payload = a.payload := by
      refine hscreenshot.resolve_right fun habsurd => ?_
      have hsync' : a.type = input.type := hsync
      rw [htype, habsurd] at hsync'
      exact absurd hsync' (by decide)
    rw [hsame]
    cases hpayload : a.payload with
    | obj fields => rfl
    | null | bool _ | num _ | str _ | arr _ => rw [hpayload] at hrecord; cases hrecord
  rw [SqliteJobQueue.cancelPending_once hnodup, PostgresQueue.cancelPending, if_pos hstorable]
  refine ⟨_, _, rfl, ⟨?_, h.served⟩, Table.forall₂_changes h.jobs hmatch⟩
  refine Table.forall₂_updateWhere h.jobs hmatch (fun a b _ hrow hp => ?_) fun _ _ hrow _ => hrow
  obtain ⟨-, hsync, hpending, -⟩ := of_decide_eq_true hp
  refine hrow.cancel ?_ now now _ ?_
  · rw [hsync, htype]
    decide
  · intro hdead
    rw [hdead] at hpending
    cases hpending

/-! ### `leaseNext` -/

theorem sweep (h : TableSim q p) (timestamp : ℤ → String) (now : ℤ) :
    List.Forall₂ RowSim (SqliteJobQueue.sweep ⟨now, []⟩ q.jobs)
      (PostgresQueue.sweep timestamp (now * 1000) p.jobs) := by
  unfold SqliteJobQueue.sweep PostgresQueue.sweep
  simp only [Readings.nth_once]
  refine Table.forall₂_updateWhere h.jobs (fun a b hrow => hrow.isExhausted_eq now)
    (fun a b _ hrow _ => ?_) fun _ _ hrow _ => hrow
  exact hrow.close (by simp) (by simp) rfl

theorem candidates {rows rows' : List JobRow} (h : List.Forall₂ RowSim rows rows') (now : ℤ) :
    List.Forall₂ RowSim (SqliteJobQueue.candidates ⟨now, []⟩ rows)
      (PostgresQueue.candidates (now * 1000) rows') := by
  unfold SqliteJobQueue.candidates PostgresQueue.candidates
  simp only [Readings.nth_once]
  exact Table.forall₂_filter h fun a b hrow => hrow.eligible_eq now

variable (timestamp) in
/-- What SQLite answers, Postgres can answer. -/
theorem leaseNext (h : TableSim q p) (hnodup : (q.jobs.map JobRow.id).Nodup)
    {workerId : String} (hworker : workerId ≠ "")
    (hstorable : PostgresQueue.storableText workerId) {pick : Option String} {q' : Queue}
    {out : Option Job}
    (hlease : SqliteJobQueue.leaseNext q workerId 60 pick ⟨now, []⟩ = some (q', out)) :
    ∃ p' out', PostgresQueue.leaseNext timestamp p workerId 60 pick ⟨now * 1000, []⟩ =
        some (.ok (p', out')) ∧ TableSim q' p' ∧ Option.Rel JobSim out out' := by
  have hsweep := h.sweep timestamp now
  have hready := candidates hsweep now
  have huntil : LeaseJob.leasedUntil (now * 1000) 60 = (now + 60 * 1000) * 1000 := by
    rw [LeaseJob.leasedUntil]
    omega
  unfold SqliteJobQueue.leaseNext at hlease
  dsimp only at hlease
  unfold PostgresQueue.leaseNext
  rw [if_pos (by decide), if_pos hstorable]
  simp only [Readings.nth_once] at hlease ⊢
  cases pick with
  | none =>
      dsimp only at hlease
      split at hlease
      · rename_i hempty
        cases hlease
        have hnone : (PostgresQueue.candidates (now * 1000)
            (PostgresQueue.sweep timestamp (now * 1000) p.jobs)).isEmpty := by
          rw [List.isEmpty_iff] at hempty ⊢
          rw [hempty] at hready
          exact List.forall₂_nil_left_iff.mp hready
        refine ⟨{ p with jobs := PostgresQueue.sweep timestamp (now * 1000) p.jobs }, none, ?_,
          ⟨hsweep, h.served⟩, .none⟩
        dsimp only
        rw [if_pos hnone]
      · cases hlease
  | some id =>
      have hfind : Option.Rel RowSim
          ((SqliteJobQueue.sweep ⟨now, []⟩ q.jobs).find? fun row => row.id = id)
          ((PostgresQueue.sweep timestamp (now * 1000) p.jobs).find? fun row => row.id = id) :=
        Table.forall₂_find? hsweep fun _ _ hrow => hrow.isId_eq id
      dsimp only at hlease ⊢
      generalize hf : (SqliteJobQueue.sweep ⟨now, []⟩ q.jobs).find? _ = found at hfind hlease
      generalize hf' : (PostgresQueue.sweep timestamp (now * 1000) p.jobs).find? _ = found' at hfind
      cases hfind with
      | none => cases hlease
      | @some a b hrow =>
          dsimp only at hlease ⊢
          split at hlease
          · rename_i hnext
            cases hlease
            have ha := List.mem_of_find?_eq_some hf
            have hb := List.mem_of_find?_eq_some hf'
            have hmem : b ∈ PostgresQueue.candidates (now * 1000)
                (PostgresQueue.sweep timestamp (now * 1000) p.jobs) ↔
                a ∈ SqliteJobQueue.candidates ⟨now, []⟩ (SqliteJobQueue.sweep ⟨now, []⟩ q.jobs) := by
              rw [PostgresQueue.candidates, SqliteJobQueue.candidates, List.mem_filter,
                List.mem_filter]
              simp only [Readings.nth_once, ha, hb, true_and, hrow.eligible_eq now]
            have hnext' := (h.isNext_iff hready hrow hmem).mpr hnext
            have heligible := (List.mem_filter.mp (of_decide_eq_true hnext).1).2
            have hlive : a.status ≠ .deadLetter := by
              intro hdead
              have hactive := (SqliteJobQueue.active_of_eligible heligible).2
              rw [hdead] at hactive
              cases hactive
            have hleased : RowSim
                (SqliteJobQueue.leaseRow workerId (now + 60 * 1000) now a)
                (SqliteJobQueue.leaseRow workerId (LeaseJob.leasedUntil (now * 1000) 60)
                  (now * 1000) b) := by
              rw [huntil]
              exact hrow.lease hlive hworker _ _ _
            have haid : a.id = id := by simpa using List.find?_some hf
            refine ⟨_, _, by rw [if_pos hnext'], ⟨?_, ?_⟩, .some hleased.jobSim⟩
            · refine Table.forall₂_updateWhere hsweep (fun r r' hr => by rw [hr.id_eq])
                (fun r r' hr hsim hid => ?_) fun _ _ hr _ => hr
              obtain rfl := Table.eq_of_key_eq (SqliteJobQueue.nodup_sweep hnodup ⟨now, []⟩) hr ha
                ((of_decide_eq_true hid).trans haid.symm)
              rw [huntil]
              exact hsim.lease hlive hworker _ _ _
            · dsimp only
              rw [hrow.tenantId_eq]
              exact h.touchTenant a.tenantId now
          · cases hlease

/-! ### Handles -/

theorem ids_eq (h : TableSim q p) : p.jobs.map JobRow.id = q.jobs.map JobRow.id :=
  Table.forall₂_map h.jobs fun _ _ hrow => hrow.id_eq

end TableSim

/-- A handle holds the lease of corresponding rows alike. -/
theorem RowSim.holdsLease_eq {a b : JobRow} (h : RowSim a b) (id leasedBy : String)
    (leasedUntil now : ℤ) :
    PostgresQueue.holdsLease id leasedBy (leasedUntil * 1000) (now * 1000) b =
      SqliteJobQueue.holdsLease id leasedBy leasedUntil now a := by
  have huntil : a.leasedUntil.map (· * 1000) = some (leasedUntil * 1000) ↔
      a.leasedUntil = some leasedUntil := by
    cases a.leasedUntil with
    | none => simp
    | some u => simp
  have hnow : now * 1000 < leasedUntil * 1000 ↔ now < leasedUntil := by omega
  obtain ⟨_, _, _, rfl⟩ := h.exists_eq
  simp only [PostgresQueue.holdsLease, SqliteJobQueue.holdsLease, huntil, hnow]

/-- `app.finish_job` accepts a handle that holds the lease of the row, and no other. -/
theorem RowSim.isLost_eq {a b : JobRow} (h : RowSim a b) {job job' : Job} (hjob : JobSim job job')
    (now : ℤ) :
    PostgresQueue.isLost job'.leasedBy (job'.leasedUntil.map (· * 1000)) (now * 1000) b = false ↔
      ∃ leasedBy leasedUntil, job.leasedBy = some leasedBy ∧ job.leasedUntil = some leasedUntil ∧
        a.status = .running ∧ a.leasedBy = some leasedBy ∧ a.leasedUntil = some leasedUntil ∧
        now < leasedUntil := by
  have hleased := h.leased
  rw [hjob.leasedBy_eq, hjob.leasedUntil_eq, PostgresQueue.isLost, decide_eq_false_iff_not]
  obtain ⟨_, _, _, rfl⟩ := h.exists_eq
  dsimp only
  constructor
  · intro hkept
    simp only [not_or, not_not] at hkept
    obtain ⟨hrunning, hby, huntil, hnow⟩ := hkept
    obtain ⟨hsome, hsome'⟩ := hleased hrunning
    obtain ⟨leasedBy, hleasedBy⟩ := Option.isSome_iff_exists.mp hsome
    obtain ⟨leasedUntil, hleasedUntil⟩ := Option.isSome_iff_exists.mp hsome'
    rw [hleasedUntil] at huntil hnow
    cases hjobUntil : job.leasedUntil with
    | none => rw [hjobUntil] at huntil; cases huntil
    | some u =>
        rw [hjobUntil] at huntil
        have hsame : leasedUntil = u := by simpa using huntil
        refine ⟨leasedBy, u, hby ▸ hleasedBy, rfl, hrunning, hleasedBy, hsame ▸ hleasedUntil, ?_⟩
        simp at hnow
        omega
  · rintro ⟨leasedBy, leasedUntil, hjobBy, hjobUntil, hrunning, hby, huntil, hnow⟩
    rw [hjobBy, hjobUntil, hby, huntil, hrunning]
    simp
    omega

/-- `app.finish_job` as one statement. -/
theorem PostgresQueue.finishJob_eq {timestamp : ℤ → String} {q : Queue}
    (hnodup : (q.jobs.map JobRow.id).Nodup) (id : String) (expectedLease : Option ℤ)
    (worker failure : Option String) (now : ℤ) :
    finishJob timestamp q id expectedLease worker failure now =
      if q.jobs.any fun row => row.id = id ∧ isLost worker expectedLease now row = false then
        .ok { q with
          jobs := Table.updateWhere
            (fun row => row.id = id ∧ isLost worker expectedLease now row = false)
            (finishRow timestamp failure now) q.jobs }
      else .error .leaseInvalid := by
  unfold finishJob
  cases hfind : q.jobs.find? fun row => row.id = id with
  | none =>
      rw [if_neg]
      intro hany
      obtain ⟨row, hrow, hheld⟩ := List.any_eq_true.mp hany
      exact List.find?_eq_none.mp hfind row hrow (decide_eq_true (of_decide_eq_true hheld).1)
  | some current =>
      have hmem := List.mem_of_find?_eq_some hfind
      have hid : current.id = id := by simpa using List.find?_some hfind
      have honly : ∀ row ∈ q.jobs, row.id = id → row = current := fun row hrow hsame =>
        Table.eq_of_key_eq hnodup hrow hmem (hsame.trans hid.symm)
      dsimp only
      by_cases hlost : isLost worker expectedLease now current
      · rw [if_pos hlost, if_neg]
        intro hany
        obtain ⟨row, hrow, hheld⟩ := List.any_eq_true.mp hany
        obtain ⟨hsame, hkept⟩ := of_decide_eq_true hheld
        rw [honly row hrow hsame, hlost] at hkept
        cases hkept
      · have hkept : isLost worker expectedLease now current = false := Bool.eq_false_iff.mpr hlost
        rw [if_neg hlost,
          if_pos (List.any_eq_true.mpr ⟨current, hmem, decide_eq_true ⟨hid, hkept⟩⟩)]
        congr 2
        rw [Table.updateWhere, Table.updateWhere]
        apply List.map_congr_left
        intro row hrow
        by_cases hsame : row.id = id
        · rw [honly row hrow hsame]
          simp [hid, hkept]
        · simp [hsame]

namespace TableSim

variable {timestamp : ℤ → String} {q p : Queue} {now : ℤ} {job job' : Job}

variable (now) in
theorem renewLease (h : TableSim q p) (hjob : JobSim job job') :
    ∃ p' out', PostgresQueue.renewLease p job' 60 ⟨now * 1000, []⟩ = .ok (p', out') ∧
      TableSim (SqliteJobQueue.renewLease q job 60 ⟨now, []⟩).1 p' ∧
      Option.Rel JobSim (SqliteJobQueue.renewLease q job 60 ⟨now, []⟩).2 out' := by
  have huntil : LeaseJob.leasedUntil (now * 1000) 60 = (now + 60 * 1000) * 1000 := by
    rw [LeaseJob.leasedUntil]
    omega
  have hcut : (now + 60 * 1000) * 1000 / 1000 = now + 60 * 1000 := by omega
  have hfilter : job.leasedBy.filter (· ≠ "") = job.leasedBy := by
    cases hby : job.leasedBy with
    | none => rfl
    | some leasedBy =>
        have hne : leasedBy ≠ "" := fun hempty => hjob.worker (by rw [hby, hempty])
        simp [hne]
  unfold PostgresQueue.renewLease SqliteJobQueue.renewLease
  rw [hjob.leasedBy_eq, hjob.leasedUntil_eq, hjob.id_eq, hfilter]
  simp only [Readings.nth_once, huntil, hcut]
  cases hby : job.leasedBy with
  | none => exact ⟨_, _, rfl, h, .none⟩
  | some leasedBy =>
      cases job.leasedUntil with
      | none => exact ⟨_, _, rfl, h, .none⟩
      | some leasedUntil =>
          have hheld := fun a b hrow =>
            RowSim.holdsLease_eq (a := a) (b := b) hrow job.id leasedBy leasedUntil now
          dsimp only
          rw [if_pos (by decide), Table.forall₂_any h.jobs hheld]
          split
          · refine ⟨_, _, rfl, ⟨?_, h.served⟩, .some ?_⟩
            · refine Table.forall₂_updateWhere h.jobs hheld (fun a b _ hrow _ => ?_)
                fun _ _ hrow _ => hrow
              exact hrow.renew _ _ _
            · refine ⟨⟨?_, hjob.availableAt, hjob.payload⟩, hby ▸ hjob.worker⟩
              obtain ⟨_, _, rfl⟩ : ∃ payload availableAt,
                  job' = { job with payload := payload, availableAt := availableAt } :=
                ⟨_, _, hjob.same⟩
              rw [← hby]
          · exact ⟨_, _, rfl, h, .none⟩

/-- Settling a lease with `f` on one side and `app.finish_job` on the other. -/
theorem settle (h : TableSim q p) (hnodup : (q.jobs.map JobRow.id).Nodup) (hjob : JobSim job job')
    {f : JobRow → JobRow} {failure : Option String} {result : Except QueueError Queue}
    (hmissing : job.leasedBy = none ∨ job.leasedUntil = none → result = .error .leaseMissing)
    (hresult : ∀ leasedBy leasedUntil, job.leasedBy = some leasedBy →
      job.leasedUntil = some leasedUntil → result =
        if q.jobs.any (SqliteJobQueue.holdsLease job.id leasedBy leasedUntil now) then
          .ok { q with
            jobs := Table.updateWhere
              (SqliteJobQueue.holdsLease job.id leasedBy leasedUntil now) f q.jobs }
        else .error .leaseInvalid)
    (hf : ∀ a b leasedBy leasedUntil, a ∈ q.jobs → RowSim a b → job.leasedUntil = some leasedUntil →
      SqliteJobQueue.holdsLease job.id leasedBy leasedUntil now a →
      RowSim (f a) (PostgresQueue.finishRow timestamp failure (now * 1000) b)) :
    BothAnswer TableSim result
      (PostgresQueue.finishJob timestamp p job'.id (job'.leasedUntil.map (· * 1000)) job'.leasedBy
        failure (now * 1000)) := by
  have hnodup' : (p.jobs.map JobRow.id).Nodup := h.ids_eq ▸ hnodup
  have hlost := fun a b (hrow : RowSim a b) => hrow.isLost_eq hjob now
  rw [PostgresQueue.finishJob_eq hnodup', hjob.id_eq]
  by_cases hlease : job.leasedBy = none ∨ job.leasedUntil = none
  · -- without a lease in the handle no row is accepted
    rw [hmissing hlease, if_neg]
    · exact .rejected _ _
    · intro hany
      obtain ⟨b, hb, hheld⟩ := List.any_eq_true.mp hany
      obtain ⟨a, -, hrow⟩ := Table.forall₂_exists_left h.jobs hb
      obtain ⟨leasedBy, leasedUntil, hby, huntil, -⟩ :=
        (hlost a b hrow).mp (of_decide_eq_true hheld).2
      rw [hby, huntil] at hlease
      rcases hlease with habsurd | habsurd <;> cases habsurd
  · simp only [not_or, ← ne_eq, Option.ne_none_iff_exists'] at hlease
    obtain ⟨⟨leasedBy, hby⟩, leasedUntil, huntil⟩ := hlease
    have hheld : ∀ a b, RowSim a b → decide (b.id = job.id ∧ PostgresQueue.isLost job'.leasedBy
        (job'.leasedUntil.map (· * 1000)) (now * 1000) b = false) =
        SqliteJobQueue.holdsLease job.id leasedBy leasedUntil now a := by
      intro a b hrow
      rw [SqliteJobQueue.holdsLease, decide_eq_decide, hlost a b hrow, hrow.id_eq, hby, huntil]
      simp
    rw [hresult leasedBy leasedUntil hby huntil, Table.forall₂_any h.jobs hheld]
    split
    · refine .resolved ⟨?_, h.served⟩
      refine Table.forall₂_updateWhere h.jobs hheld (fun a b ha hrow hp => ?_)
        fun _ _ hrow _ => hrow
      exact hf a b leasedBy leasedUntil ha hrow huntil hp
    · exact .rejected _ _

variable (timestamp now) in
theorem complete (h : TableSim q p) (hnodup : (q.jobs.map JobRow.id).Nodup)
    (hjob : JobSim job job') :
    BothAnswer TableSim (SqliteJobQueue.complete q job ⟨now, []⟩)
      (PostgresQueue.complete timestamp p job' ⟨now * 1000, []⟩) := by
  unfold PostgresQueue.complete
  rw [Readings.nth_once]
  refine h.settle (f := SqliteJobQueue.succeedRow now now) hnodup hjob ?_ ?_ ?_
  · rintro (hby | huntil)
    · simp only [SqliteJobQueue.complete, hby]
    · cases hby : job.leasedBy <;> simp only [SqliteJobQueue.complete, hby, huntil]
  · intro leasedBy leasedUntil hby huntil
    simp only [SqliteJobQueue.complete, hby, huntil, Readings.nth_once]
  · intro a b _ _ _ hrow _ hheld
    have hlive : a.status ≠ .deadLetter := by
      rw [(SqliteJobQueue.holdsLease_iff.mp hheld).2.1]
      simp
    exact hrow.close (by simp) (fun _ => hrow.availableAt hlive) rfl

variable (timestamp now) in
/-- A failure, with a handle whose counters are those of the row that it holds. -/
theorem fail (h : TableSim q p) (hnodup : (q.jobs.map JobRow.id).Nodup) (hjob : JobSim job job')
    {message : String}
    (hstorable : PostgresQueue.storableText (String.ofList (message.toList.take 500)))
    (hcounters : ∀ row ∈ q.jobs, ∀ leasedBy leasedUntil, job.leasedUntil = some leasedUntil →
      SqliteJobQueue.holdsLease job.id leasedBy leasedUntil now row →
      job.attemptCount = row.attemptCount ∧ job.maxAttempts = row.maxAttempts) :
    BothAnswer TableSim (SqliteJobQueue.fail q job message ⟨now, []⟩)
      (PostgresQueue.fail timestamp p job' message ⟨now * 1000, []⟩) := by
  unfold PostgresQueue.fail
  dsimp only
  rw [if_pos hstorable, Readings.nth_once]
  refine h.settle (f := SqliteJobQueue.failRow (job.maxAttempts ≤ job.attemptCount) message
    (now + SqliteJobQueue.retryDelay job.attemptCount * 1000) now now) hnodup hjob ?_ ?_ ?_
  · rintro (hby | huntil)
    · simp only [SqliteJobQueue.fail, hby]
    · cases hby : job.leasedBy <;> simp only [SqliteJobQueue.fail, hby, huntil]
  · intro leasedBy leasedUntil hby huntil
    simp only [SqliteJobQueue.fail, hby, huntil, Readings.nth_once]
  · intro a b leasedBy leasedUntil ha hrow huntil hheld
    obtain ⟨hcount, hmax⟩ := hcounters a ha leasedBy leasedUntil huntil hheld
    have hcut : String.ofList ((String.ofList (message.toList.take 500)).toList.take 500) =
        String.ofList (message.toList.take 500) := by
      rw [String.toList_ofList, List.take_take, min_self]
    have hcount' : b.attemptCount = a.attemptCount := by rw [hrow.same]
    have hmax' : b.maxAttempts = a.maxAttempts := by rw [hrow.same]
    have hdelay : now * 1000 + (SqliteJobQueue.retryDelay b.attemptCount : ℤ) * 1000000 =
        (now + SqliteJobQueue.retryDelay a.attemptCount * 1000) * 1000 := by
      rw [hcount']
      ring
    unfold PostgresQueue.finishRow SqliteJobQueue.failRow
    dsimp only
    rw [hcount, hmax, hcut, hdelay]
    by_cases hterminal : a.maxAttempts ≤ a.attemptCount
    · have hterminal' : b.maxAttempts ≤ b.attemptCount := by rwa [hmax', hcount']
      rw [if_pos hterminal', if_pos (decide_eq_true hterminal), if_pos (decide_eq_true hterminal)]
      exact hrow.close (by simp) (by simp) rfl
    · have hterminal' : ¬ b.maxAttempts ≤ b.attemptCount := by rwa [hmax', hcount']
      rw [if_neg hterminal', if_neg (by simpa using hterminal), if_neg (by simpa using hterminal)]
      exact hrow.retry _ _ _ _

end TableSim

end RecruitingOs
