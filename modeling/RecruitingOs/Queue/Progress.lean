import RecruitingOs.Queue.Calls
import RecruitingOs.Queue.Selection

/-!
# No job is stranded

Whoever calls the queue and however, a job that is not settled stays within reach of
`leaseNext`: from `JobRow.dueAt` on it is a candidate, or its attempts are used up and
the sweep takes it.  A queue that has a candidate answers one, and every answer spends
an attempt, so late calls of `leaseNext` come to every job that waited.
-/

namespace RecruitingOs

/-- From this time on the job is available and the lease that it may have is over. -/
def JobRow.dueAt (row : JobRow) : ℤ :=
  max row.availableAt (row.leasedUntil.getD row.availableAt)

namespace SqliteJobQueue

variable {digest : String → String} {q q' : Queue} {row : JobRow} {clock : Readings}

/-! ### When a job is due -/

/-- A job that is due is eligible, or its attempts are used up. -/
theorem eligible_or_exhausted (hactive : row.status.pending ∨ row.status = .running)
    (hleased : row.status = .running → row.leasedUntil.isSome) (hdue : row.dueAt < clock.start) :
    row.eligible (clock.nth 3) (clock.nth 4) (clock.nth 5) ∨ isExhausted (clock.nth 2) row := by
  have hlate : ∀ i, row.dueAt < clock.nth i := fun i => hdue.trans_le (clock.start_le_nth i)
  have havailable : row.availableAt ≤ row.dueAt := le_max_left _ _
  have huntil : ∀ u, row.leasedUntil = some u → u ≤ row.dueAt := by
    intro u hu
    rw [JobRow.dueAt, hu]
    exact le_max_right _ _
  rcases hactive with hpending | hrunning
  · left
    refine decide_eq_true (.inl ⟨hpending, havailable.trans (hlate 3).le, ?_⟩)
    cases hu : row.leasedUntil with
    | none => rfl
    | some u => exact decide_eq_true ((huntil u hu).trans_lt (hlate 4))
  · obtain ⟨u, hu⟩ := Option.isSome_iff_exists.mp (hleased hrunning)
    have hover : ∀ i, row.leasedUntil.any (· < clock.nth i) := by
      intro i
      rw [hu]
      exact decide_eq_true ((huntil u hu).trans_lt (hlate i))
    rcases lt_or_ge row.attemptCount row.maxAttempts with hleft | hspent
    · exact .inl (decide_eq_true (.inr ⟨hrunning, hover 5, hleft⟩))
    · exact .inr (decide_eq_true ⟨hrunning, hover 2, hspent⟩)

/-- A job that is due is a candidate of the next `leaseNext`, or its sweep takes it. -/
theorem candidate_or_swept (h : Sound q) (hrow : row ∈ q.jobs)
    (hactive : row.status.pending ∨ row.status = .running) (hdue : row.dueAt < clock.start) :
    row ∈ candidates clock (sweep clock q.jobs) ∨ (sweepRow clock row).status = .deadLetter := by
  by_cases hspent : isExhausted (clock.nth 2) row
  · right
    rw [sweepRow, if_pos hspent]
    rfl
  · left
    have hkept : sweepRow clock row = row := if_neg hspent
    have hmem : sweepRow clock row ∈ sweep clock q.jobs := List.mem_map_of_mem hrow
    rw [hkept] at hmem
    refine List.mem_filter.mpr ⟨hmem, ?_⟩
    exact (eligible_or_exhausted hactive (h.leased row hrow) hdue).resolve_right hspent

/-- What `leaseNext` makes of a row that it does not lease. -/
theorem mem_of_leaseNext (h : Sound q) {workerId : String} {leaseSeconds : ℤ}
    {pick : Option String} {out : Option Job}
    (hlease : leaseNext q workerId leaseSeconds pick clock = some (q', out)) (hrow : row ∈ q.jobs)
    (hpick : pick ≠ some row.id) : sweepRow clock row ∈ q'.jobs := by
  rcases leaseNext_pick h.nodup_id hlease with ⟨-, -, -, rfl⟩ | ⟨picked, -, rfl, -, -, hjobs, -⟩
  · exact List.mem_map_of_mem hrow
  · have hother : row.id ≠ picked.id := fun hid => hpick (by rw [hid])
    rw [hjobs]
    refine List.mem_map.mpr ⟨row, hrow, ?_⟩
    rw [pickRow, if_neg hother]

/-- **A due job is reached by every `leaseNext`**: as a candidate, or by the sweep. -/
theorem reached_of_due (h : Sound q) (hrow : row ∈ q.jobs)
    (hactive : row.status.pending ∨ row.status = .running) (hdue : row.dueAt < clock.start)
    {workerId : String} {leaseSeconds : ℤ} {pick : Option String} {out : Option Job}
    (hlease : leaseNext q workerId leaseSeconds pick clock = some (q', out)) :
    row ∈ candidates clock (sweep clock q.jobs) ∨
      ∃ new ∈ q'.jobs, new.id = row.id ∧ new.status = .deadLetter := by
  refine (candidate_or_swept h hrow hactive hdue).imp_right fun hdead => ?_
  refine ⟨sweepRow clock row, mem_of_leaseNext h hlease hrow ?_, sweepRow_id row, hdead⟩
  -- what the sweep has taken is not leased
  rintro rfl
  rcases leaseNext_some hlease with ⟨habsurd, -⟩ | ⟨picked, hpicked, hpick, hnext, -⟩
  · cases habsurd
  · have hmem : sweepRow clock row ∈ sweep clock q.jobs := List.mem_map_of_mem hrow
    have hsame : sweepRow clock row = picked :=
      Table.eq_of_key_eq (nodup_sweep h.nodup_id clock) hmem hpicked
        ((sweepRow_id row).trans (Option.some_inj.mp hpick))
    have hready := (of_decide_eq_true hnext).1
    have hactive := (active_of_eligible (List.mem_filter.mp hready).2).2
    rw [← hsame, hdead] at hactive
    cases hactive

/-! ### `leaseNext` answers -/

/-- `leaseNext` leases whatever row the selection answers. -/
theorem leaseNext_of_isNext (hnodup : (q.jobs.map JobRow.id).Nodup)
    (hnext : q.isNext (candidates clock (sweep clock q.jobs)) row) (workerId : String)
    (leaseSeconds : ℤ) :
    leaseNext q workerId leaseSeconds (some row.id) clock = some (
      { jobs := Table.updateWhere (fun r => r.id = row.id)
          (leaseRow workerId (clock.nth 6 + leaseSeconds * 1000) (clock.nth 7))
          (sweep clock q.jobs)
        tenantQueueState := q.touchTenant row.tenantId (clock.nth 8) },
      some (leaseRow workerId (clock.nth 6 + leaseSeconds * 1000) (clock.nth 7) row).toJob) := by
  have hmem : row ∈ sweep clock q.jobs := (List.mem_filter.mp (of_decide_eq_true hnext).1).1
  have hfind := Table.find?_of_mem (nodup_sweep hnodup clock) hmem
  simp only [leaseNext, hfind, hnext, if_true]

theorem leaseNext_of_empty (hready : candidates clock (sweep clock q.jobs) = [])
    (workerId : String) (leaseSeconds : ℤ) :
    leaseNext q workerId leaseSeconds none clock =
      some ({ q with jobs := sweep clock q.jobs }, none) := by
  simp only [leaseNext, hready, List.isEmpty_nil, if_true]

/-- Whatever the table holds, `leaseNext` answers. -/
theorem exists_leaseNext (hnodup : (q.jobs.map JobRow.id).Nodup) (workerId : String)
    (leaseSeconds : ℤ) (clock : Readings) :
    ∃ pick, (leaseNext q workerId leaseSeconds pick clock).isSome := by
  by_cases hready : candidates clock (sweep clock q.jobs) = []
  · exact ⟨none, by rw [leaseNext_of_empty hready]; rfl⟩
  · obtain ⟨row, hnext⟩ := Queue.exists_isNext (q := q) hready
    exact ⟨some row.id, by rw [leaseNext_of_isNext hnodup hnext]; rfl⟩

/-! ### Every answer spends an attempt -/

/-- The leases that the job can still get before its attempts are used up. -/
def leasesLeft (row : JobRow) : ℕ :=
  if row.status.pending then row.maxAttempts - row.attemptCount + 1
  else if row.status = .running then row.maxAttempts - row.attemptCount
  else 0

theorem leasesLeft_sweepRow (row : JobRow) : leasesLeft (sweepRow clock row) ≤ leasesLeft row := by
  unfold sweepRow
  split
  · exact Nat.zero_le _
  · exact le_rfl

theorem leasesLeft_leaseRow {workerId : String} {leasedUntil now : ℤ}
    (h : row.eligible (clock.nth 3) (clock.nth 4) (clock.nth 5)) :
    leasesLeft (leaseRow workerId leasedUntil now row) < leasesLeft row := by
  have hafter : leasesLeft (leaseRow workerId leasedUntil now row) =
      row.maxAttempts - (row.attemptCount + 1) := by
    simp [leasesLeft, leaseRow, JobStatus.pending]
  rw [hafter]
  rcases of_decide_eq_true h with ⟨hpending, -⟩ | ⟨hrunning, -, hleft⟩
  · rw [leasesLeft, if_pos hpending]
    omega
  · have hbefore : leasesLeft row = row.maxAttempts - row.attemptCount := by
      simp [leasesLeft, hrunning, JobStatus.pending]
    rw [hbefore]
    omega

/-- The leases left in a table. -/
def tableLeasesLeft (q : Queue) : ℕ := (q.jobs.map leasesLeft).sum

/-- A `leaseNext` that answers a job spends a lease. -/
theorem tableLeasesLeft_lt (h : Sound q) {workerId : String} {leaseSeconds : ℤ} {id : String}
    {out : Option Job} (hlease : leaseNext q workerId leaseSeconds (some id) clock = some (q', out)) :
    tableLeasesLeft q' < tableLeasesLeft q := by
  rcases leaseNext_pick h.nodup_id hlease with ⟨habsurd, -⟩ | ⟨picked, hpicked, -, hnext, -, hjobs, -⟩
  · cases habsurd
  · have heligible := (List.mem_filter.mp (of_decide_eq_true hnext).1).2
    have hpick : leasesLeft (pickRow workerId leaseSeconds clock picked picked) <
        leasesLeft picked := by
      rw [pickRow, if_pos rfl]
      exact leasesLeft_leaseRow heligible
    rw [tableLeasesLeft, tableLeasesLeft, hjobs, List.map_map]
    refine List.sum_lt_sum _ _ (fun row hrow => ?_) ⟨picked, hpicked, hpick⟩
    by_cases hid : row.id = picked.id
    · obtain rfl := Table.eq_of_key_eq h.nodup_id hrow hpicked hid
      exact hpick.le
    · rw [Function.comp_apply, pickRow, if_neg hid]
      exact leasesLeft_sweepRow row

/-! ### Calling `leaseNext` again and again -/

/-- A call of `leaseNext` later than `T`. -/
def IsLateLease (T : ℤ) (c : ℤ × QueueCall) : Prop :=
  ∃ workerId pick clock, c.2 = .leaseNext workerId pick clock ∧ T < clock.start

/-- The call hands out the job. -/
def HandsOut (id : String) (c : ℤ × QueueCall) : Prop :=
  ∃ workerId clock, c.2 = .leaseNext workerId (some id) clock

/-- A dead letter stays one under `leaseNext`. -/
theorem dead_of_lateLeases {T : ℤ} {id : String} :
    ∀ {run : List (ℤ × QueueCall)} {q q' : Queue}, Sound q → (∀ c ∈ run, IsLateLease T c) →
      Transition.exec (step digest) q run = some q' →
      (∃ row ∈ q.jobs, row.id = id ∧ row.status = .deadLetter) →
      ∃ row ∈ q'.jobs, row.id = id ∧ row.status = .deadLetter := by
  intro run
  induction run with
  | nil => intro q q' _ _ he hdead; cases he; exact hdead
  | cons c run ih =>
      intro q q' h hlate he ⟨row, hrow, hid, hdead⟩
      simp only [Transition.exec, Option.bind_eq_some_iff] at he
      obtain ⟨u, hu, he⟩ := he
      refine ih (h.step hu) (fun d hd => hlate d (List.mem_cons_of_mem _ hd)) he ?_
      have hterminal : row.status.terminal := by rw [hdead]; rfl
      rcases (step_rows h.nodup_id hu).mem_of_terminal hrow hterminal with hmem | ⟨habsurd, -⟩
      · exact ⟨row, hmem, hid, hdead⟩
      · rw [hdead] at habsurd
        cases habsurd

/-- More late calls of `leaseNext` than there are leases left come to each job that is
due. -/
theorem handsOut_or_dead :
    ∀ {run : List (ℤ × QueueCall)} {q q' : Queue}, Sound q → row ∈ q.jobs →
      row.status.pending ∨ row.status = .running → (∀ c ∈ run, IsLateLease row.dueAt c) →
      tableLeasesLeft q < run.length → Transition.exec (step digest) q run = some q' →
      (∃ c ∈ run, HandsOut row.id c) ∨
        ∃ new ∈ q'.jobs, new.id = row.id ∧ new.status = .deadLetter := by
  intro run
  induction run with
  | nil => intro q q' _ _ _ _ hlength _; exact absurd hlength (Nat.not_lt_zero _)
  | cons c run ih =>
      intro q q' h hrow hactive hlate hlength he
      simp only [Transition.exec, Option.bind_eq_some_iff] at he
      obtain ⟨u, hu, he⟩ := he
      have hrest : ∀ d ∈ run, IsLateLease row.dueAt d :=
        fun d hd => hlate d (List.mem_cons_of_mem _ hd)
      obtain ⟨leaseSeconds, call⟩ := c
      obtain ⟨workerId, pick, clock, rfl, hdue⟩ := hlate _ List.mem_cons_self
      have hlease := hu
      simp only [step, Option.map_eq_some_iff] at hlease
      obtain ⟨⟨u, out⟩, hlease, rfl⟩ := hlease
      rcases reached_of_due h hrow hactive hdue hlease with hready | hdead
      · by_cases hpick : pick = some row.id
        · exact .inl ⟨_, List.mem_cons_self, workerId, clock, by rw [hpick]⟩
        · -- another job is leased, and the row waits on
          have hswept : sweepRow clock row ∈ sweep clock q.jobs := List.mem_map_of_mem hrow
          have hkept : sweepRow clock row = row :=
            Table.eq_of_key_eq (nodup_sweep h.nodup_id clock) hswept (List.mem_filter.mp hready).1
              (sweepRow_id row)
          have hmem := mem_of_leaseNext h hlease hrow hpick
          rw [hkept] at hmem
          have hspent : tableLeasesLeft u < tableLeasesLeft q := by
            cases pick with
            | none =>
                rcases leaseNext_some hlease with ⟨-, -, hempty, -⟩ | ⟨_, _, habsurd, _⟩
                · rw [hempty] at hready; cases hready
                · cases habsurd
            | some id => exact tableLeasesLeft_lt h hlease
          have hlength' : tableLeasesLeft u < run.length := by
            rw [List.length_cons] at hlength
            omega
          refine (ih (h.step hu) hmem hactive hrest hlength' he).imp_left ?_
          rintro ⟨d, hd, hout⟩
          exact ⟨d, List.mem_cons_of_mem _ hd, hout⟩
      · exact .inr (dead_of_lateLeases (h.step hu) hrest he hdead)

/-- **No job is stranded.**  In every table that calls reach, each job that waits or
runs has a time after which every `leaseNext` has it as a candidate or turns it into a
dead letter, as long as no other call has changed it, and after which more calls of
`leaseNext` than some number hand it out or turn it into a dead letter.  And `leaseNext`
always answers: a job if any is eligible after its sweep, and none only if none is. -/
theorem no_job_stranded (h : Reached digest q) :
    (∀ row ∈ q.jobs, row.status.pending ∨ row.status = .running → ∃ T,
      (∀ u, Transition.Later (step digest) q u → row ∈ u.jobs →
        ∀ workerId leaseSeconds pick clock u' out, T < clock.start →
          leaseNext u workerId leaseSeconds pick clock = some (u', out) →
          row ∈ candidates clock (sweep clock u.jobs) ∨
            ∃ new ∈ u'.jobs, new.id = row.id ∧ new.status = .deadLetter) ∧
      ∃ n, ∀ run t, (∀ c ∈ run, IsLateLease T c) → n < run.length →
        Transition.exec (step digest) q run = some t →
        (∃ c ∈ run, HandsOut row.id c) ∨
          ∃ new ∈ t.jobs, new.id = row.id ∧ new.status = .deadLetter) ∧
    ∀ workerId leaseSeconds clock,
      (∃ pick, (leaseNext q workerId leaseSeconds pick clock).isSome) ∧
      ((∃ row ∈ sweep clock q.jobs, row.eligible (clock.nth 3) (clock.nth 4) (clock.nth 5)) →
        ∃ id u job, leaseNext q workerId leaseSeconds (some id) clock = some (u, some job)) ∧
      ∀ pick u, leaseNext q workerId leaseSeconds pick clock = some (u, none) →
        ∀ row ∈ u.jobs, row.eligible (clock.nth 3) (clock.nth 4) (clock.nth 5) = false := by
  refine ⟨fun row hrow hactive => ⟨row.dueAt, ?_, tableLeasesLeft q, ?_⟩, ?_⟩
  · intro u hu hmem workerId leaseSeconds pick clock u' out hdue hlease
    exact reached_of_due (Reached.sound (h.later hu)) hmem hactive hdue hlease
  · intro run t hlate hlength he
    exact handsOut_or_dead h.sound hrow hactive hlate hlength he
  · intro workerId leaseSeconds clock
    refine ⟨exists_leaseNext h.sound.nodup_id workerId leaseSeconds clock, ?_, ?_⟩
    · rintro ⟨row, hrow, heligible⟩
      have hready : candidates clock (sweep clock q.jobs) ≠ [] :=
        List.ne_nil_of_mem (List.mem_filter.mpr ⟨hrow, heligible⟩)
      obtain ⟨next, hnext⟩ := Queue.exists_isNext (q := q) hready
      exact ⟨next.id, _, _, leaseNext_of_isNext h.sound.nodup_id hnext workerId leaseSeconds⟩
    · intro pick u hlease row hrow
      rcases leaseNext_some hlease with ⟨-, -, hempty, rfl⟩ | ⟨_, _, _, _, habsurd, _⟩
      · refine Bool.eq_false_iff.mpr fun heligible => ?_
        have hmem : row ∈ candidates clock (sweep clock q.jobs) :=
          List.mem_filter.mpr ⟨hrow, heligible⟩
        rw [hempty] at hmem
        cases hmem
      · cases habsurd

/-- The last attempt of a job, whose worker has crashed. -/
def crashed : List (ℤ × QueueCall) :=
  [(60, .enqueue ⟨"t1", "demo", "k", .obj [], none, some 1, none⟩ ⟨1000, []⟩),
    (60, .leaseNext "w1" (some "job_t1:demo:k") ⟨2000, []⟩)]

/-- The job of `crashed` does not stay leased for ever. -/
theorem no_job_stranded_crashed :
    ∃ q, Transition.exec (step id) Queue.empty crashed = some q ∧
      q.jobs.map JobRow.status = [.running] ∧
      ∀ row ∈ q.jobs, ∃ T, ∀ workerId leaseSeconds pick clock u out, T < clock.start →
        leaseNext q workerId leaseSeconds pick clock = some (u, out) →
        row ∈ candidates clock (sweep clock q.jobs) ∨
          ∃ new ∈ u.jobs, new.id = row.id ∧ new.status = .deadLetter := by
  obtain ⟨q, hq⟩ : ∃ q, Transition.exec (step id) Queue.empty crashed = some q := ⟨_, rfl⟩
  have hreached : Reached id q := Transition.Reachable.of_exec (.start rfl) hq
  refine ⟨q, hq, by cases hq; decide, fun row hrow => ?_⟩
  have hrunning : row.status = .running := by
    have hall : ∀ row ∈ q.jobs, row.status = .running := by cases hq; decide
    exact hall row hrow
  obtain ⟨T, hT, -⟩ := (no_job_stranded hreached).1 row hrow (.inr hrunning)
  exact ⟨T, hT q (.refl _ q) hrow⟩

end SqliteJobQueue

end RecruitingOs
