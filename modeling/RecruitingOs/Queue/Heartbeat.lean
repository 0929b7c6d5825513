import RecruitingOs.Queue.Columns

/-!
# `JobLeaseHeartbeat`

The heartbeat of `src/application/queue/job-lease-heartbeat.ts` over a `SqliteJobQueue` that
other workers call at the same time.  `HeartbeatRun` is the state between two turns of the
event loop: what the object remembers, and the renewals that are in flight, each with the
handle that it has presented and, once the queue has made the update, its answer.  A tick,
the queue, an answer, an error and `stop` come in any order.

The flags remember what the statements are about: whether a renewal has been refused, whether
one has ended in an error, and whether another worker has leased or dead-lettered the job.
-/

namespace RecruitingOs

/-- A call of `renew` that waits for `queue.renewLease`. -/
structure Renewal where
  /-- `this.current` when it was made. -/
  handle : Job
  /-- `stop` made it, and waits for it. -/
  final : Bool
  /-- What the queue answers, once it has made the update. -/
  answer : Option (Option Job)
deriving Repr, DecidableEq

/-- How far `stop` is. -/
inductive StopCall where
  | notCalled
  /-- It awaits `this.renewal`. -/
  | waiting
  /-- It awaits a renewal of its own. -/
  | renewing
  | returned (result : Option Job)
deriving Repr, DecidableEq

/-- The state of a heartbeat that has been started, with its queue. -/
structure HeartbeatRun where
  queue : Queue
  current : Job
  timer : Bool
  /-- `this.renewal` is set. -/
  renewal : Bool
  lost : Bool
  inFlight : List Renewal
  stop : StopCall
  refused : Bool
  errored : Bool
  leased : Bool
  deadLettered : Bool
deriving Repr, DecidableEq

/-- A step of a run. -/
inductive HeartbeatStep where
  /-- The timer fires. -/
  | tick
  /-- The queue makes the update of a renewal. -/
  | serve (i : ℕ) (clock : Readings)
  /-- The answer arrives. -/
  | resolve (i : ℕ)
  /-- The renewal throws, with or without the update; `now` is `Date.now()`. -/
  | reject (i : ℕ) (now : ℤ)
  /-- `stop` is called. -/
  | stop
  /-- `stop` goes on when `this.renewal` has ended; `now` is `Date.now()`. -/
  | resume (now : ℤ)
  /-- Another caller of the queue. -/
  | other (call : ℤ × QueueCall)

/-- The call presents no handle of the worker. -/
def QueueCall.foreign (workerId : String) : QueueCall → Bool
  | .renewLease job _ | .complete job _ | .fail job _ _ => job.leasedBy ≠ some workerId
  | _ => true

/-- The call leases the job. -/
def QueueCall.leases (id : String) : QueueCall → Bool
  | .leaseNext _ pick _ => pick = some id
  | _ => false

/-- The sweep of the call dead-letters the job. -/
def QueueCall.deadLetters (q : Queue) (id : String) : QueueCall → Bool
  | .leaseNext _ _ clock =>
      q.jobs.any fun row => row.id = id ∧ SqliteJobQueue.isExhausted (clock.nth 2) row
  | _ => false

namespace HeartbeatRun

/-- `beginRenewal`. -/
def beginRenewal (s : HeartbeatRun) : HeartbeatRun :=
  if s.renewal ∨ s.lost then s
  else { s with renewal := true, inFlight := ⟨s.current, false, none⟩ :: s.inFlight }

/-- The end of a renewal: `stop` returns, or `this.renewal` is cleared. -/
def settle (s : HeartbeatRun) (i : ℕ) (r : Renewal) : HeartbeatRun :=
  let s := { s with inFlight := s.inFlight.eraseIdx i }
  if r.final then { s with stop := .returned (if s.lost then none else some s.current) }
  else { s with renewal := false }

/-- `if (renewed) this.current = renewed; else this.lost = true`. -/
def receive (s : HeartbeatRun) : Option Job → HeartbeatRun
  | some renewed => { s with current := renewed }
  | none => { s with lost := true, refused := true }

/-- The `catch` of `renew`. -/
def fail (s : HeartbeatRun) (now : ℤ) : HeartbeatRun :=
  { s with lost := s.lost ∨ s.current.leasedUntil.all (· ≤ now), errored := true }

/-- `stop` after `await this.renewal`. -/
def resume (leaseSeconds now : ℤ) (s : HeartbeatRun) : HeartbeatRun :=
  match s.current.leasedUntil with
  | none => { s with stop := .returned none }
  | some leasedUntil =>
      if s.lost then { s with stop := .returned none }
      else if 3 * (leasedUntil - now) ≤ min 15000 (leaseSeconds * 1000) then
        { s with stop := .renewing, inFlight := ⟨s.current, true, none⟩ :: s.inFlight }
      else { s with stop := .returned (some s.current) }

/-- One step; `none` where it cannot happen. -/
def step (digest : String → String) (workerId : String) (leaseSeconds : ℤ) (s : HeartbeatRun) :
    HeartbeatStep → Option HeartbeatRun
  | .tick => if s.timer then some s.beginRenewal else none
  | .serve i clock =>
      match s.inFlight[i]? with
      | some ⟨handle, final, none⟩ =>
          let out := SqliteJobQueue.renewLease s.queue handle leaseSeconds clock
          some { s with
            queue := out.1
            inFlight := s.inFlight.set i ⟨handle, final, some out.2⟩ }
      | _ => none
  | .resolve i =>
      match s.inFlight[i]? with
      | some ⟨handle, final, some answer⟩ =>
          some ((s.receive answer).settle i ⟨handle, final, some answer⟩)
      | _ => none
  | .reject i now =>
      match s.inFlight[i]? with
      | some r => some ((s.fail now).settle i r)
      | none => none
  | .stop =>
      if s.stop = .notCalled then some { s with timer := false, stop := .waiting } else none
  | .resume now =>
      if s.stop = .waiting ∧ s.renewal = false then some (s.resume leaseSeconds now) else none
  | .other call =>
      if call.2.foreign workerId then
        (SqliteJobQueue.step digest s.queue call).map fun queue =>
          { s with
            queue := queue
            leased := s.leased ∨ call.2.leases s.current.id
            deadLettered := s.deadLettered ∨ call.2.deadLetters s.queue s.current.id }
      else none

/-- A worker has leased the job and has started the heartbeat. -/
structure Start (digest : String → String) (workerId : String) (s : HeartbeatRun) : Prop where
  /-- The handle is what `leaseNext` answered. -/
  leased : ∃ q leaseSeconds pick clock, SqliteJobQueue.Reached digest q ∧
    SqliteJobQueue.leaseNext q workerId leaseSeconds pick clock = some (s.queue, some s.current)
  worker : workerId ≠ ""
  fresh : s = ⟨s.queue, s.current, true, false, false, [], .notCalled, false, false, false, false⟩

/-- The states of all runs. -/
def Reached (digest : String → String) (workerId : String) (leaseSeconds : ℤ) :
    HeartbeatRun → Prop :=
  Transition.Reachable (Start digest workerId) (step digest workerId leaseSeconds)

end HeartbeatRun

/-! ### A lease that nobody takes -/

/-- The table has the job of the handle under the lease of the handle. -/
def Queue.Holds (q : Queue) (job : Job) : Prop :=
  ∃ row ∈ q.jobs, ∃ leasedUntil, row.id = job.id ∧ row.status = .running ∧
    row.leasedBy = job.leasedBy ∧ row.leasedUntil = some leasedUntil ∧
    job.leasedUntil = some leasedUntil

namespace SqliteJobQueue

variable {digest : String → String} {q q' : Queue} {workerId : String}

theorem mem_updateWhere_of_not {p : JobRow → Bool} {f : JobRow → JobRow} {jobs : List JobRow}
    {row : JobRow} (hrow : row ∈ jobs) (hp : ¬ p row) : row ∈ Table.updateWhere p f jobs :=
  Table.mem_updateWhere.mpr ⟨row, hrow, if_neg hp⟩

/-- A row is not held by the handle of another worker. -/
theorem mem_of_held {row : JobRow} {job : Job} {now : ℤ} (h : HeldUpdate job now q q')
    (hrow : row ∈ q.jobs) (hby : row.leasedBy = some workerId)
    (hforeign : job.leasedBy ≠ some workerId) : row ∈ q'.jobs := by
  rcases h with rfl | ⟨leasedBy, _, _, _, hjob, -, rfl⟩
  · exact hrow
  · refine mem_updateWhere_of_not hrow fun hheld => hforeign ?_
    rw [hjob, ← (holdsLease_iff.mp hheld).2.2.1, hby]

/-- A running job stays as it is, where the call neither leases nor dead-letters it and presents
no handle of its worker. -/
theorem mem_of_untaken {c : ℤ × QueueCall} (hs : step digest q c = some q') {row : JobRow}
    (hrow : row ∈ q.jobs) (hrunning : row.status = .running) (hby : row.leasedBy = some workerId)
    (hforeign : c.2.foreign workerId) (hleases : ¬ c.2.leases row.id)
    (hdeadLetters : ¬ c.2.deadLetters q row.id) : row ∈ q'.jobs := by
  obtain ⟨leaseSeconds, call⟩ := c
  cases call with
  | enqueue input clock =>
      cases hs
      cases henq : enqueue digest q input clock with
      | error e => exact hrow
      | ok out =>
          obtain ⟨jobs, hupsert, hout, -⟩ := enqueue_ok henq
          show row ∈ out.1.jobs
          rw [hout]
          rcases upsertJob_ok hupsert with ⟨-, rfl⟩ | ⟨-, rfl⟩
          · exact mem_updateWhere_of_not hrow (by simp [hrunning])
          · exact List.mem_append_left _ hrow
  | cancelPending input clock =>
      cases hs
      obtain ⟨change, hmap, hchange⟩ :=
        cancelIds_map clock ((q.jobs.filter (isCancelCandidate input)).map JobRow.id) q.jobs 0
      show row ∈ (cancelIds _ _ _ _).1
      rw [hmap]
      refine List.mem_map.mpr ⟨row, hrow, ?_⟩
      rcases hchange row with hsame | ⟨hpending, -⟩
      · exact hsame
      · rw [hrunning] at hpending
        cases hpending
  | leaseNext worker pick clock =>
      have hswept : row ∈ sweep clock q.jobs := by
        refine mem_updateWhere_of_not hrow fun hexhausted => hdeadLetters ?_
        exact List.any_eq_true.mpr ⟨row, hrow, decide_eq_true ⟨rfl, hexhausted⟩⟩
      obtain ⟨⟨q', out⟩, hlease, rfl⟩ := Option.map_eq_some_iff.mp hs
      rcases leaseNext_some hlease with ⟨-, -, -, rfl⟩ | ⟨next, -, hpick, -, -, hjobs, -⟩
      · exact hswept
      · rw [hjobs]
        refine mem_updateWhere_of_not hswept fun hid => hleases ?_
        rw [QueueCall.leases, hpick, of_decide_eq_true hid]
        exact decide_eq_true rfl
  | renewLease job clock =>
      cases hs
      exact mem_of_held renewLease_held hrow hby (of_decide_eq_true hforeign)
  | complete job clock =>
      cases hs
      exact mem_of_held complete_held hrow hby (of_decide_eq_true hforeign)
  | fail job message clock =>
      cases hs
      exact mem_of_held fail_held hrow hby (of_decide_eq_true hforeign)

end SqliteJobQueue

/-- A lease that nobody takes stays with its handle. -/
theorem Queue.Holds.untaken {digest : String → String} {q q' : Queue} {workerId : String}
    {job : Job} {c : ℤ × QueueCall} (h : q.Holds job) (hby : job.leasedBy = some workerId)
    (hs : SqliteJobQueue.step digest q c = some q') (hforeign : c.2.foreign workerId)
    (hleases : ¬ c.2.leases job.id) (hdeadLetters : ¬ c.2.deadLetters q job.id) : q'.Holds job := by
  obtain ⟨row, hrow, leasedUntil, hid, hrunning, hleasedBy, huntil⟩ := h
  refine ⟨row, ?_, leasedUntil, hid, hrunning, hleasedBy, huntil⟩
  exact SqliteJobQueue.mem_of_untaken hs hrow hrunning (hleasedBy.trans hby) hforeign
    (hid ▸ hleases) (hid ▸ hdeadLetters)

/-- The worker that leases a job holds it. -/
theorem Queue.Holds.of_leaseNext {q q' : Queue} {workerId : String} {leaseSeconds : ℤ}
    {pick : Option String} {clock : Readings} {job : Job}
    (h : SqliteJobQueue.leaseNext q workerId leaseSeconds pick clock = some (q', some job))
    (hworker : workerId ≠ "") : q'.Holds job ∧ job.leasedBy = some workerId := by
  rcases SqliteJobQueue.leaseNext_some h with ⟨-, hnone, -⟩ | ⟨row, hrow, -, -, hjob, hjobs, -⟩
  · cases hnone
  · cases hjob
    have hby : (SqliteJobQueue.leaseRow workerId (clock.nth 6 + leaseSeconds * 1000) (clock.nth 7)
        row).toJob.leasedBy = some workerId := by
      simp [JobRow.toJob, SqliteJobQueue.leaseRow, hworker]
    refine ⟨⟨_, ?_, _, rfl, rfl, hby.symm, rfl, rfl⟩, hby⟩
    rw [hjobs]
    exact Table.mem_updateWhere.mpr ⟨row, hrow, if_pos (decide_eq_true rfl)⟩

/-- A renewal hands the lease over to the handle that it answers. -/
theorem Queue.Holds.renewed {q q' : Queue} {job renewed : Job} {leaseSeconds : ℤ}
    {clock : Readings}
    (hrenew : SqliteJobQueue.renewLease q job leaseSeconds clock = (q', some renewed)) :
    q'.Holds renewed ∧ renewed.id = job.id ∧ renewed.leasedBy = job.leasedBy := by
  obtain ⟨leasedBy, leasedUntil, hjobBy, -, ⟨row, hrow, hheld⟩, rfl, rfl⟩ :=
    SqliteJobQueue.renewLease_some hrenew
  obtain ⟨hid, hrunning, hby, -, -⟩ := SqliteJobQueue.holdsLease_iff.mp hheld
  exact ⟨⟨_, Table.mem_updateWhere.mpr ⟨row, hrow, if_pos hheld⟩, _, hid, hrunning,
    hby.trans hjobBy.symm, rfl, rfl⟩, rfl, rfl⟩

/-- A handle that the table holds is accepted before its lease expires. -/
theorem Queue.Holds.accepted {q : Queue} {job : Job} {workerId : String} (h : q.Holds job)
    (hby : job.leasedBy = some workerId) (clock : Readings) (message : String) :
    (job.leasedUntil.all (clock.nth 2 < ·) →
        ∃ q', SqliteJobQueue.complete q job clock = .ok q') ∧
      (job.leasedUntil.all (clock.nth 3 < ·) →
        ∃ q', SqliteJobQueue.fail q job message clock = .ok q') := by
  obtain ⟨row, hrow, leasedUntil, hid, hrunning, hrowBy, hrowUntil, huntil⟩ := h
  have hheld : ∀ now, job.leasedUntil.all (now < ·) →
      q.jobs.any (SqliteJobQueue.holdsLease job.id workerId leasedUntil now) = true := by
    intro now hlasts
    rw [huntil] at hlasts
    refine List.any_eq_true.mpr ⟨row, hrow, SqliteJobQueue.holdsLease_iff.mpr ?_⟩
    exact ⟨hid, hrunning, hrowBy.trans hby, hrowUntil, of_decide_eq_true hlasts⟩
  constructor
  · intro hlasts
    rw [SqliteJobQueue.complete, hby, huntil]
    exact ⟨_, if_pos (hheld _ hlasts)⟩
  · intro hlasts
    rw [SqliteJobQueue.fail, hby, huntil]
    exact ⟨_, if_pos (hheld _ hlasts)⟩

namespace HeartbeatRun

variable {digest : String → String} {workerId : String} {leaseSeconds : ℤ} {s t : HeartbeatRun}

/-! ### The renewal in flight -/

/-- There is no renewal in flight, or one: that of `this.renewal`, before `stop` has gone on, or
the one of `stop`.  It has presented the handle that is current. -/
inductive Flight (s : HeartbeatRun) : Prop where
  | idle (free : s.inFlight = []) (renewal : s.renewal = false) (stop : s.stop ≠ .renewing)
  | beating (answer : Option (Option Job)) (one : s.inFlight = [⟨s.current, false, answer⟩])
      (renewal : s.renewal = true) (stop : s.stop = .notCalled ∨ s.stop = .waiting)
  | final (answer : Option (Option Job)) (one : s.inFlight = [⟨s.current, true, answer⟩])
      (renewal : s.renewal = false) (stop : s.stop = .renewing)

/-- The handle under which the queue has the lease: that of an answer on its way, or the
current one. -/
def held (s : HeartbeatRun) : Job :=
  match s.inFlight with
  | [⟨_, _, some (some renewed)⟩] => renewed
  | _ => s.current

/-- The invariant. -/
structure Inv (digest : String → String) (workerId : String) (s : HeartbeatRun) : Prop where
  flight : s.Flight
  timer : s.stop ≠ .notCalled → s.timer = false
  refused : s.refused → s.lost
  returned : ∀ job, s.stop = .returned (some job) → s.lost = false ∧ job = s.current
  same : s.held.id = s.current.id ∧ s.held.leasedBy = some workerId ∧
    s.current.leasedBy = some workerId
  holds : s.errored = false → s.leased = false → s.deadLettered = false → s.queue.Holds s.held

theorem Start.inv (h : Start digest workerId s) : Inv digest workerId s := by
  obtain ⟨⟨q, leaseSeconds, pick, clock, -, hlease⟩, hworker, hfresh⟩ := h
  obtain ⟨hholds, hby⟩ := Queue.Holds.of_leaseNext hlease hworker
  rw [hfresh]
  refine ⟨.idle rfl rfl (by simp), by simp, by simp, by simp, ⟨rfl, hby, hby⟩, fun _ _ _ => hholds⟩

/-- At most one renewal is in flight. -/
theorem Flight.length_le (h : s.Flight) : s.inFlight.length ≤ 1 := by
  cases h with
  | idle free _ _ => simp [free]
  | beating _ one _ _ | final _ one _ _ => simp [one]

/-- The one renewal in flight. -/
theorem Flight.get (h : s.Flight) {i : ℕ} {r : Renewal} (hget : s.inFlight[i]? = some r) :
    i = 0 ∧ s.inFlight = [r] ∧ r.handle = s.current ∧
      (r.final = false ∧ s.renewal = true ∧ (s.stop = .notCalled ∨ s.stop = .waiting) ∨
        r.final = true ∧ s.renewal = false ∧ s.stop = .renewing) := by
  have hone : ∀ only, s.inFlight = [only] → i = 0 ∧ only = r := by
    intro only honly
    rw [honly] at hget
    cases i with
    | zero => exact ⟨rfl, by simpa using hget⟩
    | succ i => simp at hget
  cases h with
  | idle free _ _ => simp [free] at hget
  | beating answer one renewal stop =>
      obtain ⟨hi, rfl⟩ := hone _ one
      exact ⟨hi, one, rfl, .inl ⟨rfl, renewal, stop⟩⟩
  | final answer one renewal stop =>
      obtain ⟨hi, rfl⟩ := hone _ one
      exact ⟨hi, one, rfl, .inr ⟨rfl, renewal, stop⟩⟩

/-- Without an answer on its way, the lease is that of the current handle. -/
theorem held_eq (h : ∀ r ∈ s.inFlight, r.answer = none) : s.held = s.current := by
  unfold held
  split
  · rename_i renewed hone
    have hanswer := h _ (by rw [hone]; exact List.mem_singleton_self _)
    cases hanswer
  · rfl

/-- What is known of the handles where no answer is on its way. -/
theorem Inv.current (h : Inv digest workerId s) (hheld : s.held = s.current) :
    s.current.leasedBy = some workerId ∧
      (s.errored = false → s.leased = false → s.deadLettered = false → s.queue.Holds s.current) :=
  ⟨h.same.2.2, fun herrored hleased hdeadLettered =>
    hheld ▸ h.holds herrored hleased hdeadLettered⟩

theorem Inv.tick (h : Inv digest workerId s)
    (hs : s.step digest workerId leaseSeconds .tick = some t) : Inv digest workerId t := by
  rw [step] at hs
  split at hs
  · rename_i htimer
    cases hs
    have hstop : s.stop = .notCalled := by
      by_contra hcalled
      rw [h.timer hcalled] at htimer
      cases htimer
    unfold beginRenewal
    split
    · exact h
    · rename_i hbusy
      cases h.flight with
      | idle free renewal _ =>
          obtain ⟨hby, hholds⟩ := h.current (held_eq (by simp [free]))
          refine ⟨.beating none (by rw [free]) rfl (.inl hstop), h.timer, h.refused, h.returned, ?_, ?_⟩
          · rw [held_eq (by simp [free])]
            exact ⟨rfl, hby, hby⟩
          · rw [held_eq (by simp [free])]
            exact hholds
      | beating _ _ renewal _ => exact absurd (.inl renewal) hbusy
      | final _ _ _ stop =>
          rw [hstop] at stop
          cases stop
  · cases hs

theorem Inv.serve (h : Inv digest workerId s) {i : ℕ} {clock : Readings}
    (hs : s.step digest workerId leaseSeconds (.serve i clock) = some t) :
    Inv digest workerId t := by
  rw [step] at hs
  split at hs
  · rename_i handle final hget
    cases hs
    obtain ⟨rfl, hone, hcurrent, hphase⟩ := h.flight.get hget
    obtain ⟨hby, hholds⟩ := h.current (held_eq (by simp [hone]))
    dsimp only at hcurrent hphase
    subst hcurrent
    rcases hrenew : SqliteJobQueue.renewLease s.queue s.current leaseSeconds clock with ⟨q', answer⟩
    have hset : s.inFlight.set 0 ⟨s.current, final, some answer⟩ =
        [⟨s.current, final, some answer⟩] := by rw [hone]; rfl
    rw [hset]
    refine ⟨?_, h.timer, h.refused, h.returned, ?_, fun herrored hleased hdeadLettered => ?_⟩
    · rcases hphase with ⟨rfl, hrenewal, hstop⟩ | ⟨rfl, hrenewal, hstop⟩
      · exact .beating (some answer) rfl hrenewal hstop
      · exact .final (some answer) rfl hrenewal hstop
    · cases answer with
      | none => exact ⟨rfl, hby, hby⟩
      | some renewed =>
          obtain ⟨-, hid, hrenewedBy⟩ := Queue.Holds.renewed hrenew
          exact ⟨hid, hrenewedBy.trans hby, hby⟩
    · cases answer with
      | none =>
          obtain rfl := SqliteJobQueue.renewLease_none hrenew
          exact hholds herrored hleased hdeadLettered
      | some renewed => exact (Queue.Holds.renewed hrenew).1
  · cases hs

/-- The end of the renewal in flight, when what it has changed is known. -/
theorem Inv.settle (h : Inv digest workerId s) {i : ℕ} {r : Renewal}
    (hget : s.inFlight[i]? = some r) {u : HeartbeatRun}
    (hinFlight : u.inFlight = s.inFlight) (htimer : u.timer = s.timer)
    (hrenewal : u.renewal = s.renewal) (hstop : u.stop = s.stop)
    (hrefused : u.refused → u.lost) (hid : u.current.leasedBy = some workerId)
    (hholds : u.errored = false → u.leased = false → u.deadLettered = false →
      u.queue.Holds u.current) : Inv digest workerId (u.settle i r) := by
  obtain ⟨rfl, hone, -, hphase⟩ := h.flight.get hget
  unfold HeartbeatRun.settle
  dsimp only
  rw [hinFlight, hone]
  split
  · rename_i hfinal
    rcases hphase with ⟨hnot, -, -⟩ | ⟨-, hfree, hrenewing⟩
    · rw [hfinal] at hnot
      cases hnot
    · refine ⟨.idle rfl (hrenewal.trans hfree) (by simp), fun _ => ?_, hrefused, fun job hjob => ?_,
        ⟨rfl, hid, hid⟩, hholds⟩
      · exact htimer.trans (h.timer (by rw [hrenewing]; simp))
      · dsimp only at hjob ⊢
        split at hjob
        · cases hjob
        · rename_i hlost
          cases hjob
          exact ⟨by simpa using hlost, rfl⟩
  · rename_i hbeating
    rcases hphase with ⟨-, -, hcalled⟩ | ⟨hfinal, -, -⟩
    · have hnot : ∀ {phase : StopCall}, phase ≠ .notCalled → phase ≠ .waiting → u.stop ≠ phase := by
        intro phase hcall hwait
        rw [hstop]
        rcases hcalled with hstop' | hstop' <;> rw [hstop']
        · exact hcall.symm
        · exact hwait.symm
      refine ⟨.idle rfl rfl (hnot (by simp) (by simp)), fun hcall => ?_, hrefused, fun job hjob => ?_,
        ⟨rfl, hid, hid⟩, hholds⟩
      · exact htimer.trans (h.timer (hstop ▸ hcall))
      · exact absurd hjob (hnot (by simp) (by simp))
    · exact absurd hfinal hbeating

theorem Inv.resolve (h : Inv digest workerId s) {i : ℕ}
    (hs : s.step digest workerId leaseSeconds (.resolve i) = some t) :
    Inv digest workerId t := by
  rw [step] at hs
  split at hs
  · rename_i handle final answer hget
    cases hs
    have hone := (h.flight.get hget).2.1
    obtain ⟨hid, hheldBy, hby⟩ := h.same
    cases answer with
    | none =>
        have hheld : s.held = s.current := by rw [held, hone]
        exact h.settle hget rfl rfl rfl rfl (fun _ => rfl) hby (h.current hheld).2
    | some renewed =>
        have hheld : s.held = renewed := by rw [held, hone]
        rw [hheld] at hheldBy
        exact h.settle hget rfl rfl rfl rfl h.refused hheldBy fun herrored hleased hdeadLettered =>
          hheld ▸ h.holds herrored hleased hdeadLettered
  · cases hs

theorem Inv.reject (h : Inv digest workerId s) {i : ℕ} {now : ℤ}
    (hs : s.step digest workerId leaseSeconds (.reject i now) = some t) :
    Inv digest workerId t := by
  rw [step] at hs
  split at hs
  · rename_i r hget
    cases hs
    refine h.settle hget rfl rfl rfl rfl (fun hrefused => ?_) h.same.2.2 fun herrored => ?_
    · exact decide_eq_true (.inl (h.refused hrefused))
    · cases herrored
  · cases hs

theorem Inv.stop (h : Inv digest workerId s)
    (hs : s.step digest workerId leaseSeconds .stop = some t) : Inv digest workerId t := by
  rw [step] at hs
  split at hs
  · rename_i hnot
    cases hs
    refine ⟨?_, fun _ => rfl, h.refused, fun job hjob => (by cases hjob), h.same, h.holds⟩
    cases h.flight with
    | idle free renewal _ => exact .idle free renewal (by simp)
    | beating answer one renewal _ => exact .beating answer one renewal (.inr rfl)
    | final _ _ _ stop =>
        rw [hnot] at stop
        cases stop
  · cases hs

theorem Inv.resume (h : Inv digest workerId s) {now : ℤ}
    (hs : s.step digest workerId leaseSeconds (.resume now) = some t) : Inv digest workerId t := by
  rw [step] at hs
  split at hs
  · rename_i hguard
    obtain ⟨hwaiting, hrenewal⟩ := hguard
    cases hs
    have htimer : s.timer = false := h.timer (by rw [hwaiting]; simp)
    cases h.flight with
    | idle free _ _ =>
        obtain ⟨hby, hholds⟩ := h.current (held_eq (by simp [free]))
        have hend : ∀ out : Option Job, (∀ job, out = some job → s.lost = false ∧ job = s.current) →
            Inv digest workerId { s with stop := .returned out } := by
          intro out hout
          refine ⟨.idle free hrenewal (by simp), fun _ => htimer, h.refused, fun job hjob => ?_,
            h.same, h.holds⟩
          cases hjob
          exact hout job rfl
        unfold HeartbeatRun.resume
        split
        · exact hend none (by simp)
        · split
          · exact hend none (by simp)
          · rename_i hlost
            split
            · refine ⟨.final none (by rw [free]) hrenewal rfl, fun _ => htimer, h.refused,
                fun job hjob => (by cases hjob), ?_, ?_⟩
              · rw [held_eq (by simp [free])]
                exact ⟨rfl, hby, hby⟩
              · rw [held_eq (by simp [free])]
                exact hholds
            · exact hend _ fun job hjob => ⟨by simpa using hlost, (Option.some.inj hjob).symm⟩
    | beating _ _ renewal _ =>
        rw [hrenewal] at renewal
        cases renewal
    | final _ _ _ stop =>
        rw [hwaiting] at stop
        cases stop
  · cases hs

theorem Inv.other (h : Inv digest workerId s) {call : ℤ × QueueCall}
    (hs : s.step digest workerId leaseSeconds (.other call) = some t) : Inv digest workerId t := by
  rw [step] at hs
  split at hs
  · rename_i hforeign
    obtain ⟨queue, hqueue, rfl⟩ := Option.map_eq_some_iff.mp hs
    refine ⟨?_, h.timer, h.refused, h.returned, h.same, fun herrored hleased hdeadLettered => ?_⟩
    · cases h.flight with
      | idle free renewal stop => exact .idle free renewal stop
      | beating answer one renewal stop => exact .beating answer one renewal stop
      | final answer one renewal stop => exact .final answer one renewal stop
    · obtain ⟨hid, hby, -⟩ := h.same
      obtain ⟨hnotLeased, hleases⟩ := not_or.mp (of_decide_eq_false hleased)
      obtain ⟨hnotDead, hdeadLetters⟩ := not_or.mp (of_decide_eq_false hdeadLettered)
      rw [← hid] at hleases hdeadLetters
      exact (h.holds herrored (by simpa using hnotLeased) (by simpa using hnotDead)).untaken hby
        hqueue hforeign hleases hdeadLetters
  · cases hs

theorem Reached.inv (h : Reached digest workerId leaseSeconds s) : Inv digest workerId s := by
  refine Transition.Reachable.invariant (I := Inv digest workerId) (fun _ => Start.inv) ?_ h
  intro s label t _ hinv hs
  cases label with
  | tick => exact hinv.tick hs
  | serve i clock => exact hinv.serve hs
  | resolve i => exact hinv.resolve hs
  | reject i now => exact hinv.reject hs
  | stop => exact hinv.stop hs
  | resume now => exact hinv.resume hs
  | other call => exact hinv.other hs

/-- **Heartbeat and queue agree on the lease.**  At most one renewal is in flight; a heartbeat
of which one has been refused gives no handle back; and the handle that `stop` returns is the
one under which the queue has the lease, when no renewal has ended in an error and no other
worker has leased or dead-lettered the job, so it is accepted as long as that lease lasts. -/
theorem heartbeat_agrees (h : Reached digest workerId leaseSeconds s) :
    s.inFlight.length ≤ 1 ∧
    (s.refused → ∀ out, s.stop = .returned out → out = none) ∧
    ∀ job, s.stop = .returned (some job) → s.errored = false → s.leased = false →
      s.deadLettered = false →
      (∃ row ∈ s.queue.jobs, row.id = job.id ∧ row.leasedUntil.isSome ∧
        row.leasedUntil = job.leasedUntil) ∧
      ∀ clock message, (job.leasedUntil.all (clock.nth 2 < ·) →
          ∃ q, SqliteJobQueue.complete s.queue job clock = .ok q) ∧
        (job.leasedUntil.all (clock.nth 3 < ·) →
          ∃ q, SqliteJobQueue.fail s.queue job message clock = .ok q) := by
  have hinv := h.inv
  refine ⟨hinv.flight.length_le, fun hrefused out hout => ?_,
    fun job hjob herrored hleased hdeadLettered => ?_⟩
  · cases out with
    | none => rfl
    | some job =>
        have hlost := (hinv.returned job hout).1
        rw [hinv.refused hrefused] at hlost
        cases hlost
  · obtain ⟨-, rfl⟩ := hinv.returned job hjob
    have hheld : s.held = s.current := by
      cases hinv.flight with
      | idle free _ _ => exact held_eq (by simp [free])
      | beating _ _ _ stop => rw [hjob] at stop; simp at stop
      | final _ _ _ stop => rw [hjob] at stop; cases stop
    obtain ⟨hby, hholds⟩ := hinv.current hheld
    have hhold := hholds herrored hleased hdeadLettered
    refine ⟨?_, fun clock message => hhold.accepted hby clock message⟩
    obtain ⟨row, hrow, leasedUntil, hid, -, -, hrowUntil, huntil⟩ := hhold
    exact ⟨row, hrow, hid, by rw [hrowUntil]; rfl, hrowUntil.trans huntil.symm⟩

/-! ### A lease that expires while `stop` renews it -/

/-- A job with one attempt. -/
def onceInput : EnqueueJob := ⟨"t", "test", "k", .obj [], none, some 1, none⟩

/-- The job is leased for a minute. -/
def onceQueue : Queue :=
  { jobs := [SqliteJobQueue.leaseRow "worker" 60000 0
      (SqliteJobQueue.enqueuedRow id onceInput 0)]
    tenantQueueState := [("t", 0)] }

def onceStart : HeartbeatRun :=
  ⟨onceQueue, (SqliteJobQueue.leaseRow "worker" 60000 0
    (SqliteJobQueue.enqueuedRow id onceInput 0)).toJob, true, false, false, [], .notCalled, false,
    false, false, false⟩

theorem onceStart_start : Start id "worker" onceStart where
  leased := by
    refine ⟨⟨[SqliteJobQueue.enqueuedRow id onceInput 0], []⟩, 60, some "job_t:test:k", ⟨0, []⟩,
      .next (0, .enqueue onceInput ⟨0, []⟩) (.start rfl) rfl, ?_⟩
    decide +kernel
  worker := by decide
  fresh := rfl

/-- A renewal on a tick, and another one in `stop`. -/
def renewedTwice : List HeartbeatStep :=
  [.tick, .serve 0 ⟨20000, []⟩, .resolve 0, .stop, .resume 76000, .serve 0 ⟨76000, []⟩, .resolve 0]

/-- The handle that `stop` returns is the one of the queue. -/
theorem heartbeat_agrees_renewedTwice : ∃ s job, Reached id "worker" 60 s ∧
    s.stop = .returned (some job) ∧ job.leasedUntil = some 136000 ∧
    ∃ q, SqliteJobQueue.complete s.queue job ⟨77000, []⟩ = .ok q := by
  have hrun : (Transition.exec (step id "worker" 60) onceStart renewedTwice).any (fun s => decide
      (s.stop = .returned (some { onceStart.current with leasedUntil := some 136000 }) ∧
        s.errored = false ∧ s.leased = false ∧ s.deadLettered = false)) = true := by
    decide +kernel
  obtain ⟨s, hs, hreturned⟩ := (Option.any_eq_true _ _).mp hrun
  obtain ⟨hstop, herrored, hleased, hdeadLettered⟩ := of_decide_eq_true hreturned
  have hreached : Reached id "worker" 60 s := .of_exec (.start onceStart_start) hs
  obtain ⟨-, haccepted⟩ :=
    (heartbeat_agrees hreached).2.2 _ hstop herrored hleased hdeadLettered
  exact ⟨s, _, hreached, hstop, rfl, (haccepted ⟨77000, []⟩ "").1 (by decide)⟩

/-- The queue makes the last renewal, and has dead-lettered the job when the answer arrives. -/
def sweptMeanwhile : List HeartbeatStep :=
  [.stop, .resume 56000, .serve 0 ⟨56000, []⟩,
    .other (60, .leaseNext "other" none ⟨116001, []⟩), .resolve 0]

/-- No other worker leases the job, and yet the handle is not the one of the queue. -/
theorem not_heartbeat_agrees_sweptMeanwhile : ∃ s job, Reached id "worker" 60 s ∧
    s.stop = .returned (some job) ∧ s.errored = false ∧ s.leased = false ∧
    job.leasedUntil = some 116000 ∧
    ∀ row ∈ s.queue.jobs, row.id = job.id → row.leasedUntil = none := by
  have hrun : (Transition.exec (step id "worker" 60) onceStart sweptMeanwhile).any (fun s => decide
      (s.stop = .returned (some { onceStart.current with leasedUntil := some 116000 }) ∧
        s.errored = false ∧ s.leased = false ∧
        ∀ row ∈ s.queue.jobs, row.leasedUntil = none)) = true := by
    decide +kernel
  obtain ⟨s, hs, hreturned⟩ := (Option.any_eq_true _ _).mp hrun
  obtain ⟨hstop, herrored, hleased, hnone⟩ := of_decide_eq_true hreturned
  exact ⟨s, _, .of_exec (.start onceStart_start) hs, hstop, herrored, hleased, rfl,
    fun row hrow _ => hnone row hrow⟩

end HeartbeatRun

end RecruitingOs
