import RecruitingOs.Queue.Columns
import RecruitingOs.Queue.Invariant
import RecruitingOs.Queue.Simulation

/-!
# The two queues agree

`QueueTwin` makes the same calls on both queues.  A call that SQLite answers, Postgres
answers alike (`ClientSim.serve`), and it has no other answer, since no two jobs are created
at the same time (`PostgresQueue.serve_unique`).  What the step needs to know of SQLite's own
past, the distinct ids and the counters of a handle that still holds its lease, is the
invariant of queue runs, and `exists_run` finds the run.
-/

namespace RecruitingOs

variable {digest : String → String} {timestamp : ℤ → String} {now : ℤ}
  {pick : Option String} {request : CallerRequest}

/-- The caller has the handle that the call presents. -/
def CallerRequest.handled (s : QueueClient) : CallerRequest → Bool
  | .renewLease handle | .complete handle | .fail handle _ => handle < s.issued.length
  | _ => true

/-! ### The run behind the calls -/

/-- What callers do on the SQLite queue, a run of the queue does. -/
theorem SqliteJobQueue.exists_run {r : QueueRun} (hr : QueueRun.Reached digest 60 r)
    (hclock : ∀ id t, r.lastCall id = some t → t < now) (husual : request.usual)
    {t : QueueClient} {answer : QueueAnswer}
    (hserve : serve digest ⟨r.queue, r.issued⟩ now pick request = some (t, answer)) :
    ∃ r', QueueRun.Reached digest 60 r' ∧ t = ⟨r'.queue, r'.issued⟩ ∧
      ∀ id u, r'.lastCall id = some u → u ≤ now := by
  have hadv : ∀ ids, r.advances ids ⟨now, []⟩ := fun ids =>
    QueueRun.advances_iff.mpr fun id _ t ht => hclock id t ht
  have htouch : ∀ ids id u, (r.touch ids ⟨now, []⟩).lastCall id = some u → u ≤ now := by
    intro ids id u hu
    simp only [QueueRun.touch] at hu
    split at hu
    · simp only [Readings.finish, Option.some.injEq, List.sum_nil] at hu
      omega
    · exact (hclock id u hu).le
  -- a recorded call on some jobs keeps the clocks at most `now`
  have hstep : ∀ {c r'} ids, QueueRun.step digest 60 r c = some r' →
      r'.lastCall = (r.touch ids ⟨now, []⟩).lastCall → t = ⟨r'.queue, r'.issued⟩ →
      ∃ r', QueueRun.Reached digest 60 r' ∧ t = ⟨r'.queue, r'.issued⟩ ∧
        ∀ id u, r'.lastCall id = some u → u ≤ now :=
    fun {c r'} ids hs hlast ht =>
      ⟨r', hr.next c hs, ht, fun id u hu => htouch ids id u (hlast ▸ hu)⟩
  have hsettle : ∀ {c} {job : Job} {result : Except QueueError Queue}, job ∈ r.issued →
      QueueRun.step digest 60 r c = r.settleWith job ⟨now, []⟩ result →
      t = ((QueueClient.mk r.queue r.issued).settling result).1 →
      ∃ r', QueueRun.Reached digest 60 r' ∧ t = ⟨r'.queue, r'.issued⟩ ∧
        ∀ id u, r'.lastCall id = some u → u ≤ now := by
    intro c job result hjob hc ht
    unfold QueueRun.settleWith at hc
    rw [if_pos ⟨hjob, hadv _⟩] at hc
    cases result with
    | error e => exact hstep _ hc rfl ht
    | ok queue => exact hstep _ hc rfl ht
  cases request with
  | enqueue input =>
      have hguard := And.intro (hadv [jobId digest input.tenantId input.type input.idempotencyKey])
        (of_decide_eq_true husual).2.1
      have hs : QueueRun.step digest 60 r (.enqueue input ⟨now, []⟩) = _ := if_pos hguard
      simp only [serve, Option.some_inj] at hserve
      cases henq : enqueue digest r.queue input ⟨now, []⟩ with
      | error e =>
          rw [henq] at hs hserve
          exact hstep _ hs rfl (congrArg Prod.fst hserve).symm
      | ok out =>
          rw [henq] at hs hserve
          exact hstep _ hs rfl (congrArg Prod.fst hserve).symm
  | cancelPending input =>
      have hs : QueueRun.step digest 60 r (.cancelPending input ⟨now, []⟩) = _ := if_pos (hadv _)
      cases hserve
      exact hstep _ hs rfl rfl
  | leaseNext workerId =>
      have hs : QueueRun.step digest 60 r (.leaseNext workerId pick ⟨now, []⟩) = _ :=
        if_pos (hadv _)
      simp only [serve, Option.map_eq_some_iff] at hserve
      obtain ⟨⟨queue, job⟩, hlease, ht⟩ := hserve
      rw [hlease] at hs
      cases job with
      | none => exact hstep _ hs rfl (congrArg Prod.fst ht).symm
      | some job => exact hstep _ hs rfl (congrArg Prod.fst ht).symm
  | renewLease handle =>
      simp only [serve, Option.map_eq_some_iff] at hserve
      obtain ⟨job, hjob, ht⟩ := hserve
      have hs : QueueRun.step digest 60 r (.renewLease job ⟨now, []⟩) = _ :=
        if_pos ⟨List.mem_of_getElem? hjob, hadv _⟩
      rcases hrenew : renewLease r.queue job 60 ⟨now, []⟩ with ⟨queue, renewed⟩
      rw [hrenew] at hs ht
      cases renewed with
      | none =>
          obtain rfl : queue = r.queue := renewLease_none hrenew
          exact hstep _ hs rfl (congrArg Prod.fst ht).symm
      | some renewed => exact hstep _ hs rfl (congrArg Prod.fst ht).symm
  | complete handle =>
      simp only [serve, Option.map_eq_some_iff] at hserve
      obtain ⟨job, hjob, ht⟩ := hserve
      exact hsettle (c := .complete job ⟨now, []⟩) (List.mem_of_getElem? hjob) rfl
        (congrArg Prod.fst ht).symm
  | fail handle message =>
      simp only [serve, Option.map_eq_some_iff] at hserve
      obtain ⟨job, hjob, ht⟩ := hserve
      exact hsettle (c := .fail job message ⟨now, []⟩) (List.mem_of_getElem? hjob) rfl
        (congrArg Prod.fst ht).symm

/-! ### Jobs are created at distinct times -/

/-- A call creates at most one job, at its own clock. -/
theorem SqliteJobQueue.createdAt_serve {s t : QueueClient} {answer : QueueAnswer}
    (hserve : serve digest s now pick request = some (t, answer)) :
    t.queue.jobs.map JobRow.createdAt = s.queue.jobs.map JobRow.createdAt ∨
      t.queue.jobs.map JobRow.createdAt = s.queue.jobs.map JobRow.createdAt ++ [now] := by
  have hkept : ∀ {q : Queue}, q.jobs.map JobRow.fixed = s.queue.jobs.map JobRow.fixed →
      q.jobs.map JobRow.createdAt = s.queue.jobs.map JobRow.createdAt := by
    intro q hfixed
    have hcreated := congrArg (List.map fun columns => columns.2.2) hfixed
    rw [List.map_map, List.map_map] at hcreated
    exact hcreated
  have hsettled : ∀ {result : Except QueueError Queue},
      (settled s.queue result).jobs.map JobRow.fixed = s.queue.jobs.map JobRow.fixed →
      (s.settling result).1.queue.jobs.map JobRow.createdAt =
        s.queue.jobs.map JobRow.createdAt := by
    intro result hfixed
    cases result with
    | error e => rfl
    | ok u => exact hkept hfixed
  cases request with
  | enqueue input =>
      cases henq : enqueue digest s.queue input ⟨now, []⟩ with
      | error e =>
          simp only [serve, henq, QueueClient.returning, Option.some_inj] at hserve
          cases hserve
          exact .inl rfl
      | ok out =>
          simp only [serve, henq, QueueClient.returning, Option.some_inj] at hserve
          cases hserve
          obtain ⟨jobs, hupsert, hqueue, -⟩ := enqueue_ok henq
          rw [hqueue]
          rcases upsertJob_ok hupsert with ⟨-, rfl⟩ | ⟨-, rfl⟩
          · exact .inl (Table.map_key_updateWhere _ fun _ _ _ => rfl)
          · refine .inr ?_
            rw [List.map_append]
            simp [enqueuedRow]
  | cancelPending input =>
      cases hserve
      exact .inl (hkept cancelPending_fixed)
  | leaseNext workerId =>
      simp only [serve, Option.map_eq_some_iff] at hserve
      obtain ⟨⟨queue, job⟩, hlease, ht⟩ := hserve
      cases ht
      exact .inl (hkept (leaseNext_fixed hlease))
  | renewLease handle =>
      simp only [serve, Option.map_eq_some_iff] at hserve
      obtain ⟨job, -, ht⟩ := hserve
      cases ht
      exact .inl (hkept renewLease_held.fixed)
  | complete handle =>
      simp only [serve, Option.map_eq_some_iff] at hserve
      obtain ⟨job, -, ht⟩ := hserve
      obtain rfl : _ = t := congrArg Prod.fst ht
      exact .inl (hsettled complete_held.fixed)
  | fail handle message =>
      simp only [serve, Option.map_eq_some_iff] at hserve
      obtain ⟨job, -, ht⟩ := hserve
      obtain rfl : _ = t := congrArg Prod.fst ht
      exact .inl (hsettled fail_held.fixed)

namespace PostgresQueue

variable {q : Queue} {workerId : String} {leaseSeconds : ℤ} {pick' : Option String}
  {clock : Readings} {out out' : Except PostgresQueueError (Queue × Option Job)}

/-- The query of `app.lease_job` answers a least candidate, and nothing where there is none. -/
theorem leaseNext_some (hduration : validDuration leaseSeconds) (hworker : storableText workerId)
    (h : leaseNext timestamp q workerId leaseSeconds pick clock = some out) :
    (pick = none ∧ candidates (clock.nth 1) (sweep timestamp (clock.nth 1) q.jobs) = []) ∨
      ∃ row ∈ sweep timestamp (clock.nth 1) q.jobs, pick = some row.id ∧
        q.isNext (candidates (clock.nth 1) (sweep timestamp (clock.nth 1) q.jobs)) row := by
  unfold leaseNext at h
  dsimp only at h
  rw [if_pos hduration, if_pos hworker] at h
  cases pick with
  | none =>
      dsimp only at h
      split at h
      · rename_i hempty
        exact .inl ⟨rfl, List.isEmpty_iff.mp hempty⟩
      · cases h
  | some id =>
      dsimp only at h
      split at h
      · cases h
      · rename_i row hfind
        split at h
        · rename_i hnext
          have hid : row.id = id := by simpa using List.find?_some hfind
          exact .inr ⟨row, List.mem_of_find?_eq_some hfind, by rw [hid], hnext⟩
        · cases h

/-- Where no two jobs are created at the same time, it has one answer. -/
theorem pick_unique (hcreated : (q.jobs.map JobRow.createdAt).Nodup)
    (hduration : validDuration leaseSeconds) (hworker : storableText workerId)
    (h : leaseNext timestamp q workerId leaseSeconds pick clock = some out)
    (h' : leaseNext timestamp q workerId leaseSeconds pick' clock = some out') : pick = pick' := by
  have hswept : ((sweep timestamp (clock.nth 1) q.jobs).map JobRow.createdAt).Nodup := by
    have hkept : (sweep timestamp (clock.nth 1) q.jobs).map JobRow.createdAt =
        q.jobs.map JobRow.createdAt := Table.map_key_updateWhere _ fun _ _ _ => rfl
    rw [hkept]
    exact hcreated
  rcases leaseNext_some hduration hworker h with ⟨rfl, hnone⟩ | ⟨row, hrow, rfl, hnext⟩ <;>
    rcases leaseNext_some hduration hworker h' with ⟨rfl, hnone'⟩ | ⟨row', hrow', rfl, hnext'⟩
  · rfl
  · have hready := (of_decide_eq_true hnext').1
    rw [hnone] at hready
    cases hready
  · have hready := (of_decide_eq_true hnext).1
    rw [hnone'] at hready
    cases hready
  · have hsame := Queue.createdAt_eq_of_isNext hnext hnext'
    rw [Table.eq_of_key_eq hswept hrow hrow' hsame]

theorem serve_unique {p : QueueClient} (hcreated : (p.queue.jobs.map JobRow.createdAt).Nodup)
    (husual : request.usual) {t t' : QueueClient × QueueAnswer}
    (h : serve digest timestamp p now pick request = some t)
    (h' : serve digest timestamp p now pick' request = some t') : t = t' := by
  cases request with
  | leaseNext workerId =>
      suffices hpick : pick = pick' by
        rw [hpick] at h
        exact Option.some_inj.mp (h.symm.trans h')
      simp only [serve, Option.map_eq_some_iff] at h h'
      obtain ⟨out, h, -⟩ := h
      obtain ⟨out', h', -⟩ := h'
      exact pick_unique hcreated (by decide) (of_decide_eq_true husual).2 h h'
  | enqueue _ | cancelPending _ | renewLease _ | complete _ | fail _ _ =>
      exact Option.some_inj.mp (h.symm.trans h')

end PostgresQueue

/-! ### One call on both queues -/

/-- Corresponding states of the two queues and of their callers. -/
structure ClientSim (s p : QueueClient) : Prop where
  queue : TableSim s.queue p.queue
  issued : List.Forall₂ JobSim s.issued p.issued

namespace ClientSim

variable {s p : QueueClient}

theorem empty : ClientSim .empty .empty := ⟨⟨.nil, rfl⟩, .nil⟩

/-- The handles with one number correspond. -/
theorem of_handle (h : ClientSim s p) {handle : ℕ} {job : Job}
    (hjob : s.issued[handle]? = some job) :
    ∃ job', p.issued[handle]? = some job' ∧ JobSim job job' := by
  obtain ⟨-, hissued⟩ := h
  obtain ⟨hlt, rfl⟩ := List.getElem?_eq_some_iff.mp hjob
  have hlt' : handle < p.issued.length := hissued.length_eq ▸ hlt
  exact ⟨_, List.getElem?_eq_getElem hlt', List.Forall₂.get hissued hlt hlt'⟩

/-- The answers of calls that reject or resolve with nothing. -/
theorem settling (h : ClientSim s p) {ε ε' : Type} {result : Except ε Queue}
    {result' : Except ε' Queue} (hresult : BothAnswer TableSim result result') :
    ClientSim (s.settling result).1 (p.settling result').1 ∧
      (s.settling result).2.Agrees (p.settling result').2 := by
  cases hresult with
  | rejected _ _ => exact ⟨h, .rejected⟩
  | resolved hqueue => exact ⟨⟨hqueue, h.issued⟩, .settled⟩

variable (timestamp) in
/-- **One call.**  What SQLite answers, Postgres can answer. -/
theorem serve (h : ClientSim s p) (hnodup : (s.queue.jobs.map JobRow.id).Nodup)
    (hcounters : ∀ job ∈ s.issued, ∀ row ∈ s.queue.jobs, ∀ leasedBy leasedUntil,
      job.leasedUntil = some leasedUntil →
      SqliteJobQueue.holdsLease job.id leasedBy leasedUntil now row → job = row.toJob)
    (husual : request.usual) {t : QueueClient} {answer : QueueAnswer}
    (hserve : SqliteJobQueue.serve digest s now pick request = some (t, answer)) :
    ∃ u answer', PostgresQueue.serve digest timestamp p now pick request = some (u, answer') ∧
      ClientSim t u ∧ answer.Agrees answer' := by
  cases request with
  | enqueue input =>
      obtain ⟨hrecord, -, hstorable⟩ := of_decide_eq_true husual
      have hboth := h.queue.enqueue digest now hrecord hstorable
      simp only [SqliteJobQueue.serve, Option.some_inj] at hserve
      simp only [PostgresQueue.serve]
      generalize SqliteJobQueue.enqueue digest s.queue input _ = out at hboth hserve
      generalize PostgresQueue.enqueue digest p.queue input _ = out' at hboth
      cases hboth with
      | rejected _ _ =>
          cases hserve
          exact ⟨_, _, rfl, h, .rejected⟩
      | @resolved a b hsim =>
          cases hserve
          exact ⟨_, _, rfl, ⟨hsim.1, .cons hsim.2 h.issued⟩, .enqueued hsim.2.toAgrees⟩
  | cancelPending input =>
      obtain ⟨htype, hstorable⟩ := of_decide_eq_true husual
      obtain ⟨p', count, hcancel, hsim, hcount⟩ :=
        h.queue.cancelPending now hnodup htype hstorable
      simp only [SqliteJobQueue.serve, Option.some_inj] at hserve
      simp only [PostgresQueue.serve, hcancel]
      rw [← hcount] at hserve
      cases hserve
      exact ⟨_, _, rfl, ⟨hsim, h.issued⟩, .cancelled count⟩
  | leaseNext workerId =>
      obtain ⟨hworker, hstorable⟩ := of_decide_eq_true husual
      simp only [SqliteJobQueue.serve, Option.map_eq_some_iff] at hserve
      obtain ⟨⟨queue, job⟩, hlease, ht⟩ := hserve
      cases ht
      obtain ⟨p', out', hlease', hsim, hjob⟩ :=
        h.queue.leaseNext timestamp hnodup hworker hstorable hlease
      simp only [PostgresQueue.serve, hlease', Option.map_some]
      cases hjob with
      | none => exact ⟨_, _, rfl, ⟨hsim, h.issued⟩, .noneLeased⟩
      | some hjob => exact ⟨_, _, rfl, ⟨hsim, .cons hjob h.issued⟩, .leased hjob.toAgrees⟩
  | renewLease handle =>
      simp only [SqliteJobQueue.serve, Option.map_eq_some_iff] at hserve
      obtain ⟨job, hjob, ht⟩ := hserve
      cases ht
      obtain ⟨job', hjob', hsim⟩ := h.of_handle hjob
      obtain ⟨p', out', hrenew, hqueue, hrenewed⟩ := h.queue.renewLease now hsim
      simp only [PostgresQueue.serve, hjob', Option.map_some, hrenew]
      generalize (SqliteJobQueue.renewLease s.queue job 60 ⟨now, []⟩).2 = out at hrenewed ⊢
      cases hrenewed with
      | none => exact ⟨_, _, rfl, ⟨hqueue, h.issued⟩, .noneRenewed⟩
      | some hjob =>
          exact ⟨_, _, rfl, ⟨hqueue, .cons hjob h.issued⟩, .renewed hjob.toAgrees⟩
  | complete handle =>
      simp only [SqliteJobQueue.serve, Option.map_eq_some_iff] at hserve
      obtain ⟨job, hjob, ht⟩ := hserve
      obtain ⟨job', hjob', hsim⟩ := h.of_handle hjob
      have hboth := h.settling (h.queue.complete timestamp now hnodup hsim)
      rw [ht] at hboth
      refine ⟨_, _, ?_, hboth⟩
      rw [PostgresQueue.serve, hjob']
      rfl
  | fail handle message =>
      simp only [SqliteJobQueue.serve, Option.map_eq_some_iff] at hserve
      obtain ⟨job, hjob, ht⟩ := hserve
      obtain ⟨job', hjob', hsim⟩ := h.of_handle hjob
      have hmem : job ∈ s.issued := List.mem_of_getElem? hjob
      have hboth := h.settling (h.queue.fail timestamp now hnodup hsim
        husual fun row hrow leasedBy leasedUntil huntil hheld => by
          rw [hcounters job hmem row hrow leasedBy leasedUntil huntil hheld]
          exact ⟨rfl, rfl⟩)
      rw [ht] at hboth
      refine ⟨_, _, ?_, hboth⟩
      rw [PostgresQueue.serve, hjob']
      rfl

end ClientSim

/-! ### Runs of calls on both queues -/

/-- The caller of SQLite always gets an answer, whatever it asks with handles that it has. -/
theorem SqliteJobQueue.exists_serve {s : QueueClient}
    (hnodup : (s.queue.jobs.map JobRow.id).Nodup) (digest : String → String) (now : ℤ)
    (hhandled : request.handled s) : ∃ pick t, serve digest s now pick request = some t := by
  have hjob : ∀ {handle}, decide (handle < s.issued.length) → ∃ job, s.issued[handle]? = some job :=
    fun hlt => ⟨_, List.getElem?_eq_getElem (of_decide_eq_true hlt)⟩
  cases request with
  | enqueue _ | cancelPending _ => exact ⟨none, _, rfl⟩
  | leaseNext workerId =>
      by_cases hready : candidates ⟨now, []⟩ (sweep ⟨now, []⟩ s.queue.jobs) = []
      · refine ⟨none, ?_⟩
        simp only [serve, leaseNext, hready]
        exact ⟨_, rfl⟩
      · obtain ⟨row, hnext⟩ := Queue.exists_isNext (q := s.queue) hready
        have hmem := (List.mem_filter.mp (of_decide_eq_true hnext).1).1
        have hfind : (sweep ⟨now, []⟩ s.queue.jobs).find? (fun r => r.id = row.id) = some row :=
          Table.find?_of_mem (nodup_sweep hnodup ⟨now, []⟩) hmem
        refine ⟨some row.id, ?_⟩
        simp only [serve, leaseNext, hfind]
        rw [if_pos hnext]
        exact ⟨_, rfl⟩
  | renewLease _ | complete _ | fail _ _ =>
      obtain ⟨job, hjob⟩ := hjob hhandled
      refine ⟨none, ?_⟩
      rw [serve, hjob]
      exact ⟨_, rfl⟩

namespace QueueTwin

/-- What a step does. -/
theorem step_some {s t : QueueTwin} {call : TwinCall} (hs : step digest timestamp s call = some t) :
    (∀ c, s.clock = some c → c < call.now) ∧ call.request.usual ∧
      ∃ sqlite answer postgres answer',
        SqliteJobQueue.serve digest s.sqlite call.now call.sqlitePick call.request =
          some (sqlite, answer) ∧
        PostgresQueue.serve digest timestamp s.postgres call.now call.postgresPick call.request =
          some (postgres, answer') ∧
        t = ⟨sqlite, postgres, some call.now, (answer, answer') :: s.answers⟩ := by
  unfold step at hs
  split at hs
  · rename_i hguard
    split at hs
    · rename_i sqlite answer postgres answer' hsqlite hpostgres
      refine ⟨fun c hc => ?_, hguard.2, _, _, _, _, hsqlite, hpostgres, (Option.some_inj.mp hs).symm⟩
      simpa [hc] using hguard.1
    · cases hs
  · cases hs

/-- The invariant of both queues. -/
structure Inv (digest : String → String) (s : QueueTwin) : Prop where
  sim : ClientSim s.sqlite s.postgres
  created : (s.sqlite.queue.jobs.map JobRow.createdAt).Nodup
  past : ∀ created ∈ s.sqlite.queue.jobs.map JobRow.createdAt, ∃ c, s.clock = some c ∧ created ≤ c
  history : ∃ r, QueueRun.Reached digest 60 r ∧ s.sqlite = ⟨r.queue, r.issued⟩ ∧
    ∀ id t, r.lastCall id = some t → ∃ c, s.clock = some c ∧ t ≤ c
  answers : ∀ answer ∈ s.answers, answer.1.Agrees answer.2

theorem Inv.empty : Inv digest QueueTwin.empty where
  sim := ClientSim.empty
  created := List.nodup_nil
  past := by intro created hmem; cases hmem
  history := ⟨QueueRun.empty, .start rfl, rfl, by intro id t ht; cases ht⟩
  answers := by intro answer hmem; cases hmem

/-- What the simulation of a call asks of SQLite's past. -/
theorem Inv.past_facts {s : QueueTwin} (h : Inv digest s) :
    (s.sqlite.queue.jobs.map JobRow.id).Nodup ∧
      ∀ now, ∀ job ∈ s.sqlite.issued, ∀ row ∈ s.sqlite.queue.jobs, ∀ leasedBy leasedUntil,
        job.leasedUntil = some leasedUntil →
        SqliteJobQueue.holdsLease job.id leasedBy leasedUntil now row → job = row.toJob := by
  obtain ⟨r, hr, hsqlite, -⟩ := h.history
  rw [hsqlite]
  exact ⟨hr.inv.nodup_id, fun now job hjob row hrow leasedBy leasedUntil huntil hheld =>
    hr.inv.held_eq hjob huntil hrow hheld⟩

theorem Inv.created_postgres {s : QueueTwin} (h : Inv digest s) :
    (s.postgres.queue.jobs.map JobRow.createdAt).Nodup := by
  have hcreated : s.postgres.queue.jobs.map JobRow.createdAt =
      s.sqlite.queue.jobs.map fun row => row.createdAt * 1000 :=
    Table.forall₂_map h.sim.queue.jobs fun a b hrow => by rw [hrow.same]
  rw [hcreated, ← Function.comp_def (· * 1000) JobRow.createdAt, ← List.map_map]
  refine h.created.map fun a b hab => ?_
  have hmul : a * 1000 = b * 1000 := hab
  omega

theorem Inv.step {s t : QueueTwin} (h : Inv digest s) {call : TwinCall}
    (hs : step digest timestamp s call = some t) : Inv digest t := by
  obtain ⟨hclock, husual, sqlite, answer, postgres, answer', hsqlite, hpostgres, rfl⟩ :=
    step_some hs
  obtain ⟨hnodup, hcounters⟩ := h.past_facts
  obtain ⟨postgres', answer'', hpostgres', hsim, hanswer⟩ :=
    h.sim.serve timestamp hnodup (hcounters call.now) husual hsqlite
  -- Postgres has no answer but the one that corresponds
  have hsame := PostgresQueue.serve_unique h.created_postgres husual hpostgres hpostgres'
  cases hsame
  have hpast : ∀ created ∈ s.sqlite.queue.jobs.map JobRow.createdAt, created < call.now := by
    intro created hmem
    obtain ⟨c, hc, hle⟩ := h.past created hmem
    exact hle.trans_lt (hclock c hc)
  refine ⟨hsim, ?_, ?_, ?_, ?_⟩
  · rcases SqliteJobQueue.createdAt_serve hsqlite with hkept | hnew
    · exact hkept ▸ h.created
    · rw [hnew]
      refine h.created.append (List.nodup_singleton _) ?_
      intro created hmem hlast
      rw [List.mem_singleton] at hlast
      exact absurd hlast (hpast created hmem).ne
  · intro created hmem
    refine ⟨call.now, rfl, ?_⟩
    rcases SqliteJobQueue.createdAt_serve hsqlite with hkept | hnew
    · exact (hpast created (hkept ▸ hmem)).le
    · rw [hnew] at hmem
      rcases List.mem_append.mp hmem with hold | hlast
      · exact (hpast created hold).le
      · exact (List.mem_singleton.mp hlast).le
  · obtain ⟨r, hr, hqueue, hlast⟩ := h.history
    rw [hqueue] at hsqlite
    obtain ⟨r', hr', hqueue', hlast'⟩ := SqliteJobQueue.exists_run hr (fun id u hu => by
      obtain ⟨c, hc, hle⟩ := hlast id u hu
      exact hle.trans_lt (hclock c hc)) husual hsqlite
    exact ⟨r', hr', hqueue', fun id u hu => ⟨call.now, rfl, hlast' id u hu⟩⟩
  · intro pair hmem
    rcases List.mem_cons.mp hmem with rfl | hold
    · exact hanswer
    · exact h.answers pair hold

theorem Reached.inv {s : QueueTwin} (h : Reached digest timestamp s) : Inv digest s :=
  h.invariant (fun _ hs => hs ▸ Inv.empty) fun _ _ _ _ hInv hs => hInv.step hs

/-- **The two queues agree.**  After any calls as the callers make them, the tables agree row
by row and every call got the same answer from both; and any further call can be made, with
an answer on both sides. -/
theorem queues_agree {s : QueueTwin} (h : Reached digest timestamp s) :
    List.Forall₂ JobRow.Agrees s.sqlite.queue.jobs s.postgres.queue.jobs ∧
      (∀ answer ∈ s.answers, answer.1.Agrees answer.2) ∧
      ∀ now request, s.clock.all (· < now) → request.usual → request.handled s.sqlite →
        ∃ sqlitePick postgresPick,
          (step digest timestamp s ⟨now, request, sqlitePick, postgresPick⟩).isSome := by
  have hinv := h.inv
  refine ⟨hinv.sim.queue.jobs.imp fun _ _ hrow => hrow.toAgrees, hinv.answers, ?_⟩
  intro now request hclock husual hhandled
  obtain ⟨hnodup, hcounters⟩ := hinv.past_facts
  obtain ⟨pick, ⟨sqlite, answer⟩, hsqlite⟩ :=
    SqliteJobQueue.exists_serve hnodup digest now hhandled
  obtain ⟨postgres, answer', hpostgres, -⟩ :=
    hinv.sim.serve timestamp hnodup (hcounters now) husual hsqlite
  refine ⟨pick, pick, ?_⟩
  simp only [step, hclock, husual, and_self, if_true, hsqlite, hpostgres, Option.isSome_some]

/-- A job with one attempt, which fails. -/
def lastAttempt : List TwinCall :=
  [⟨1, .enqueue ⟨"A", "ingest.screenshot", "k", .obj [("note", .str "n")], none, some 1, none⟩,
      none, none⟩,
    ⟨2, .leaseNext "w", some "job_A:ingest.screenshot:k", some "job_A:ingest.screenshot:k"⟩,
    ⟨3, .fail 0 "no text", none, none⟩]

/-- The failed screenshot is a dead letter on both sides, its payload redacted. -/
theorem queues_agree_lastAttempt :
    ∃ s, Reached id (fun _ => "now") s ∧
      (∃ a ∈ s.sqlite.queue.jobs, a.status = .deadLetter ∧ a.redacted) ∧
      List.Forall₂ JobRow.Agrees s.sqlite.queue.jobs s.postgres.queue.jobs ∧
      (∀ answer ∈ s.answers, answer.1.Agrees answer.2) := by
  obtain ⟨s, hs⟩ : ∃ s, Transition.exec (step id fun _ => "now") empty lastAttempt = some s :=
    ⟨_, rfl⟩
  have hreached : Reached id (fun _ => "now") s := .of_exec (.start rfl) hs
  obtain ⟨hrows, hanswers, -⟩ := queues_agree hreached
  refine ⟨s, hreached, ?_, hrows, hanswers⟩
  cases hs
  decide

/-- What agreement has to leave out: SQLite writes `available_at` of a dead
letter, and takes a text that Postgres cannot hold. -/
theorem not_queues_agree_lastAttempt :
    (∃ s, Reached id (fun _ => "now") s ∧
      ∃ a ∈ s.sqlite.queue.jobs, ∃ b ∈ s.postgres.queue.jobs, b.id = a.id ∧
        a.status = .deadLetter ∧ b.status = .deadLetter ∧ b.availableAt ≠ a.availableAt * 1000) ∧
      ∃ input : EnqueueJob, isRecord input.payload ∧ 1 ≤ input.maxAttempts.getD 5 ∧
        (∃ s job, SqliteJobQueue.serve id .empty 1 none (.enqueue input) =
          some (s, .enqueued job)) ∧
        PostgresQueue.serve id (fun _ => "now") .empty 1 none (.enqueue input) =
          some (.empty, .rejected) := by
  constructor
  · obtain ⟨s, hs⟩ : ∃ s, Transition.exec (step id fun _ => "now") empty lastAttempt = some s :=
      ⟨_, rfl⟩
    refine ⟨s, .of_exec (.start rfl) hs, ?_⟩
    cases hs
    decide
  · exact ⟨⟨"A", "ingest.screenshot", "k", .obj [("note", .str (String.singleton (Char.ofNat 0)))],
      none, none, none⟩, rfl, by decide, ⟨_, _, rfl⟩, rfl⟩

end QueueTwin

end RecruitingOs
