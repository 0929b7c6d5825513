import Mathlib
import RecruitingOs.Connectors.SyncSchedule
import RecruitingOs.Http.EnqueueRequest
import RecruitingOs.Queue.Waiting

/-!
# Chains of recurring syncs

A worker that has finished a sync calls `scheduleAfter`, which enqueues the next one under
the key of the next slot of the interval; where the key has a job, `enqueue` keeps that
instead.  `ChainRun` is a `ScheduleRun` whose clock never goes back, in which the manual syncs
have keys that the server derives.

The argument is one of slots.  A job under the key of a slot waits for the start of the slot
(`JobRow.Waits`), and the successor's slot starts after the clock that the scheduler reads.  So
a job that already has the key is queued or cancelled, and a cancelled one starts afresh.
-/

namespace RecruitingOs

open SqliteJobQueue (hasKey)

/-! ### Keys and slots -/

/-- The idempotency key of `scheduleAfter`. -/
def scheduledKey (payload : ConnectorSyncPayload) (slot : ℤ) : String :=
  "scheduled:" ++ payload.provider ++ ":" ++ payload.userId ++ ":" ++ payload.organizationId ++
    ":" ++ payload.scope.getD "" ++ ":" ++ toString slot

/-- What the worker passes on: a provider that `connectorSyncPayloadSchema` admits, the id of a
user, which is a `stableId`, and of an organization, which has passed `organizationSchema`, and
no scope that is empty, which the sync route rejects. -/
def ConnectorSyncPayload.wellFormed (payload : ConnectorSyncPayload) : Bool :=
  payload.provider ∈ ["gmail", "groupme", "instagram", "linkedin"] ∧
    ':' ∉ payload.userId.toList ∧ ':' ∉ payload.organizationId.toList ∧ payload.scope ≠ some ""

/-- The payload of the next sync. -/
def ConnectorSyncPayload.next (payload : ConnectorSyncPayload) : ConnectorSyncPayload :=
  { payload with recurring := some true }

theorem colon_not_mem_provider {payload : ConnectorSyncPayload} (h : payload.wellFormed) :
    ':' ∉ payload.provider.toList := by
  obtain ⟨hprovider, -⟩ := of_decide_eq_true h
  simp only [List.mem_cons, List.not_mem_nil, or_false] at hprovider
  rcases hprovider with h | h | h | h <;> rw [h] <;> decide

/-- No scope and an empty one would share a key. -/
theorem scope_inj {scope scope' : Option String} (h : scope ≠ some "") (h' : scope' ≠ some "")
    (htext : scope.getD "" = scope'.getD "") : scope = scope' := by
  cases scope with
  | none =>
      cases scope' with
      | none => rfl
      | some text => exact absurd (congrArg some htext.symm) h'
  | some text =>
      cases scope' with
      | none => exact absurd (congrArg some htext) h
      | some text' => exact congrArg some htext

/-- **A key has one payload and one slot.** -/
theorem scheduledKey_inj {p p' : ConnectorSyncPayload} {slot slot' : ℤ} (h : p.wellFormed)
    (h' : p'.wellFormed) (hkey : scheduledKey p slot = scheduledKey p' slot') :
    p.next = p'.next ∧ slot = slot' := by
  obtain ⟨-, huser, horganization, hscope⟩ := of_decide_eq_true h
  obtain ⟨-, huser', horganization', hscope'⟩ := of_decide_eq_true h'
  unfold scheduledKey at hkey
  simp only [String.append_assoc] at hkey
  have hrest := (String.append_right_inj _).mp hkey
  obtain ⟨hprovider, hrest⟩ :=
    colon_join_inj (colon_not_mem_provider h) (colon_not_mem_provider h') hrest
  obtain ⟨huserId, hrest⟩ := colon_join_inj huser huser' hrest
  obtain ⟨horganizationId, hrest⟩ := colon_join_inj horganization horganization' hrest
  obtain ⟨hscopeText, hslot⟩ :=
    last_colon_inj (colon_not_mem_toString slot) (colon_not_mem_toString slot') hrest
  rw [Int.toString_eq_repr, Int.toString_eq_repr] at hslot
  refine ⟨?_, Int.repr_injective hslot⟩
  unfold ConnectorSyncPayload.next
  rw [hprovider, huserId, horganizationId, scope_inj hscope hscope' hscopeText]

/-- A derived key is none of a slot. -/
theorem scheduledKey_ne_derived {payload : ConnectorSyncPayload} {slot : ℤ} {text : String} :
    scheduledKey payload slot ≠ "idem_" ++ text := by
  intro h
  unfold scheduledKey at h
  have htext := congrArg String.toList h
  simp only [String.toList_append, List.append_assoc] at htext
  rw [show "scheduled:".toList = ['s', 'c', 'h', 'e', 'd', 'u', 'l', 'e', 'd', ':'] from rfl,
    show "idem_".toList = ['i', 'd', 'e', 'm', '_'] from rfl] at htext
  cases htext

/-- The next slot starts after the clock, and the job of the next slot is available in it. -/
theorem slot_bounds {interval now : ℤ} (hinterval : 0 < interval) :
    now < (now / interval + 1) * interval ∧ (now / interval + 1) * interval ≤ now + interval := by
  have hfloor := Int.ediv_mul_le now hinterval.ne'
  have hceil := Int.lt_ediv_add_one_mul_self now hinterval
  constructor
  · exact hceil
  · rw [Int.add_mul, one_mul]
    omega

/-! ### Runs -/

namespace ScheduleStep

/-- The call on the queue that a step makes. -/
def queueCall (cfg : ScheduleConfig) (s : ScheduleRun) : ScheduleStep → Option (ℤ × QueueCall)
  | .cancelPending r clock =>
      (s.routes.find? fun route => route.1 = r).map fun route =>
        (0, .cancelPending (cancelInput route.2) clock)
  | .enqueue c now clock =>
      (s.call? c).map fun call => (0, .enqueue (call.input cfg.intervalSeconds now) clock)
  | .enqueueOther input clock => some (0, .enqueue input clock)
  | .leaseNext workerId leaseSeconds pick clock =>
      some (leaseSeconds, .leaseNext workerId pick clock)
  | .renewLease job leaseSeconds clock => some (leaseSeconds, .renewLease job clock)
  | .complete job clock => some (0, .complete job clock)
  | .fail job message clock => some (0, .fail job message clock)
  | _ => none

/-- The first reading of a step on the queue; the scheduler reads the clock before `enqueue`. -/
def begins : ScheduleStep → Readings → ℤ
  | .enqueue _ now _, _ => now
  | _, clock => clock.start

/-- The handle that a worker gets. -/
def issued (q : Queue) : ScheduleStep → Option Job
  | .leaseNext workerId leaseSeconds pick clock =>
      (SqliteJobQueue.leaseNext q workerId leaseSeconds pick clock).bind Prod.snd
  | .renewLease job leaseSeconds clock => (SqliteJobQueue.renewLease q job leaseSeconds clock).2
  | _ => none

end ScheduleStep

/-- The state of a run. -/
structure ChainRun where
  run : ScheduleRun
  /-- The clock that scheduler and queue read, when the last call returned. -/
  clock : ℤ
  /-- The handles that the workers have been given. -/
  handles : List Job
  /-- The job and the payload of a `scheduleAfter`. -/
  finishing : ℕ → Option (Job × ConnectorSyncPayload)

/-- A step of a run. -/
inductive ChainStep where
  /-- `POST /api/connectors/:provider/sync` without a key of its own. -/
  | request (c : ℕ) (tenantId userId provider : String) (body : SyncBody) (now : ℤ)
  | scheduleAfter (c : ℕ) (job : Job) (payload : ConnectorSyncPayload)
  /-- Any other step. -/
  | other (label : ScheduleStep)

namespace ChainRun

/-- The clock of a step on the queue does not go back. -/
def inOrder (cfg : ScheduleConfig) (s : ChainRun) (label : ScheduleStep) : Bool :=
  (label.queueCall cfg s.run).all fun call =>
    s.clock ≤ label.begins call.2.clock ∧ label.begins call.2.clock ≤ call.2.clock.start

/-- The step has no label of its own, and a worker renews a handle that it has. -/
def admits (s : ChainRun) : ScheduleStep → Bool
  | .request _ _ _ _ | .scheduleAfter _ _ _ => false
  | .renewLease job _ _ => job ∈ s.handles
  | _ => true

/-- One step; `none` where it cannot happen. -/
def step (cfg : ScheduleConfig) (s : ChainRun) : ChainStep → Option ChainRun
  | .request c tenantId userId provider body now =>
      let key := idempotencyKey cfg.digest userId none
        ((EnqueueBody.sync provider body).hashed id) now
      (s.run.step cfg (.request c tenantId
        ⟨provider, userId, body.organizationId, body.scope, some body.recurring⟩ key)).map fun run =>
          { s with run := run }
  | .scheduleAfter c job payload =>
      if job ∈ s.handles ∧ payload.wellFormed ∧ s.run.call? c = none then
        (s.run.step cfg (.scheduleAfter c job payload)).map fun run =>
          { s with run := run, finishing := Function.update s.finishing c (some (job, payload)) }
      else none
  | .other label =>
      if s.inOrder cfg label ∧ s.admits label then
        (s.run.step cfg label).map fun run =>
          { s with
            run := run
            clock := ((label.queueCall cfg s.run).map fun call => call.2.clock.finish).getD s.clock
            handles := (label.issued s.run.queue).toList ++ s.handles }
      else none

/-- No job has been enqueued yet, and no call is in flight. -/
structure Start (s : ChainRun) : Prop where
  queue : s.run.queue = Queue.empty
  calls : s.run.calls = []
  handles : s.handles = []

/-- The states of all runs. -/
def Reached (cfg : ScheduleConfig) : ChainRun → Prop := Transition.Reachable Start (step cfg)

variable {cfg : ScheduleConfig} {s t : ChainRun}

theorem begin_queue {r r' : ScheduleRun} {call : ScheduleCall} (hs : r.begin cfg call = some r') :
    r'.queue = r.queue := by
  unfold ScheduleRun.begin at hs
  split at hs
  · cases hs
  · split at hs <;> cases hs <;> rfl

/-- A step makes its call on the queue, or leaves the queue alone. -/
theorem queue_step {r r' : ScheduleRun} {label : ScheduleStep} (hs : r.step cfg label = some r') :
    (label.queueCall cfg r = none ∧ r'.queue = r.queue) ∨
      ∃ call, label.queueCall cfg r = some call ∧
        SqliteJobQueue.step cfg.digest r.queue call = some r'.queue := by
  have hsettle : ∀ (u : ScheduleRun) result,
      (u.settle result).queue = SqliteJobQueue.settled u.queue result := by
    intro u result
    cases result <;> rfl
  cases label with
  | vault label =>
      simp only [ScheduleRun.step] at hs
      split at hs
      · cases hs
      · obtain ⟨vault, -, rfl⟩ := Option.map_eq_some_iff.mp hs
        exact .inl ⟨rfl, rfl⟩
  | revoke r key now =>
      simp only [ScheduleRun.step] at hs
      split at hs
      · cases hs
      · obtain ⟨vault, -, rfl⟩ := Option.map_eq_some_iff.mp hs
        exact .inl ⟨rfl, rfl⟩
  | cancelPending id clock =>
      simp only [ScheduleRun.step] at hs
      split at hs
      · cases hs
      · rename_i route key hroute
        cases hs
        exact .inr ⟨_, by rw [ScheduleStep.queueCall, hroute]; rfl, rfl⟩
  | request c tenantId payload idempotencyKey => exact .inl ⟨rfl, begin_queue hs⟩
  | scheduleAfter c job payload =>
      simp only [ScheduleRun.step] at hs
      split at hs
      · cases hs
        exact .inl ⟨rfl, rfl⟩
      · exact .inl ⟨rfl, begin_queue hs⟩
  | enqueue c now clock =>
      simp only [ScheduleRun.step] at hs
      split at hs
      · cases hs
      · rename_i call hcall
        cases hs
        refine .inr ⟨_, by rw [ScheduleStep.queueCall, hcall]; rfl, ?_⟩
        rw [hsettle]
        rfl
  | abort c =>
      simp only [ScheduleRun.step] at hs
      split at hs
      · cases hs
        exact .inl ⟨rfl, rfl⟩
      · cases hs
  | enqueueOther input clock =>
      simp only [ScheduleRun.step] at hs
      split at hs
      · cases hs
      · cases hs
        exact .inr ⟨_, rfl, by rw [hsettle]; rfl⟩
  | leaseNext workerId leaseSeconds pick clock =>
      obtain ⟨⟨queue, out⟩, hlease, rfl⟩ := Option.map_eq_some_iff.mp hs
      refine .inr ⟨_, rfl, ?_⟩
      simp only [SqliteJobQueue.step, hlease]
      rfl
  | renewLease job leaseSeconds clock =>
      cases hs
      exact .inr ⟨_, rfl, rfl⟩
  | complete job clock =>
      cases hs
      exact .inr ⟨_, rfl, by rw [hsettle]; rfl⟩
  | fail job message clock =>
      cases hs
      exact .inr ⟨_, rfl, by rw [hsettle]; rfl⟩

/-- A call as the credential was read for it. -/
def SameCall (a b : ScheduleCall) : Prop :=
  a.id = b.id ∧ a.caller = b.caller ∧ a.tenantId = b.tenantId ∧ a.payload = b.payload

theorem begin_calls {r r' : ScheduleRun} {new call : ScheduleCall}
    (hs : r.begin cfg new = some r') (hcall : call ∈ r'.calls) : call ∈ r.calls ∨ call = new := by
  unfold ScheduleRun.begin at hs
  split at hs
  · cases hs
  · split at hs <;> cases hs
    · exact (List.mem_cons.mp hcall).symm
    · exact .inl hcall

/-- Only the two labels of their own begin a call. -/
theorem calls_step {r r' : ScheduleRun} {label : ScheduleStep} (hadmits : s.admits label)
    (hs : r.step cfg label = some r') {call : ScheduleCall} (hcall : call ∈ r'.calls) :
    ∃ old ∈ r.calls, SameCall old call := by
  have hsettle : ∀ (u : ScheduleRun) result, (u.settle result).calls = u.calls := by
    intro u result
    cases result <;> rfl
  have hkept : ∀ {u : ScheduleRun}, u.calls = r.calls → call ∈ u.calls →
      ∃ old ∈ r.calls, SameCall old call :=
    fun hsame hmem => ⟨call, hsame ▸ hmem, rfl, rfl, rfl, rfl⟩
  cases label with
  | vault label =>
      simp only [ScheduleRun.step] at hs
      split at hs
      · cases hs
      · obtain ⟨vault, -, rfl⟩ := Option.map_eq_some_iff.mp hs
        exact hkept rfl hcall
  | revoke id key now =>
      simp only [ScheduleRun.step] at hs
      split at hs
      · cases hs
      · obtain ⟨vault, -, rfl⟩ := Option.map_eq_some_iff.mp hs
        obtain ⟨old, hold, rfl⟩ := List.mem_map.mp hcall
        refine ⟨old, hold, ?_⟩
        split <;> exact ⟨rfl, rfl, rfl, rfl⟩
  | cancelPending id clock =>
      simp only [ScheduleRun.step] at hs
      split at hs
      · cases hs
      · cases hs
        exact hkept rfl hcall
  | request c tenantId payload idempotencyKey => cases hadmits
  | scheduleAfter c job payload => cases hadmits
  | enqueue c now clock =>
      simp only [ScheduleRun.step] at hs
      split at hs
      · cases hs
      · cases hs
        rw [hsettle] at hcall
        exact ⟨call, (List.mem_filter.mp hcall).1, rfl, rfl, rfl, rfl⟩
  | abort c =>
      simp only [ScheduleRun.step] at hs
      split at hs
      · cases hs
        exact ⟨call, (List.mem_filter.mp hcall).1, rfl, rfl, rfl, rfl⟩
      · cases hs
  | enqueueOther input clock =>
      simp only [ScheduleRun.step] at hs
      split at hs
      · cases hs
      · cases hs
        exact hkept (hsettle _ _) hcall
  | leaseNext workerId leaseSeconds pick clock =>
      obtain ⟨⟨queue, out⟩, -, rfl⟩ := Option.map_eq_some_iff.mp hs
      exact hkept rfl hcall
  | renewLease job leaseSeconds clock =>
      cases hs
      exact hkept rfl hcall
  | complete job clock =>
      cases hs
      exact hkept (hsettle _ _) hcall
  | fail job message clock =>
      cases hs
      exact hkept (hsettle _ _) hcall

/-! ### The invariant -/

/-- The length of a slot, in milliseconds. -/
def interval (cfg : ScheduleConfig) : ℤ := cfg.intervalSeconds * 1000

/-- A sync job: its key is derived, or that of a slot for which it waits. -/
inductive SyncRow (cfg : ScheduleConfig) (clock : ℤ) (row : JobRow) : Prop
  | derived (text : String) (key : row.idempotencyKey = "idem_" ++ text)
  | scheduled (payload : ConnectorSyncPayload) (slot : ℤ) (wellFormed : payload.wellFormed)
      (key : row.idempotencyKey = scheduledKey payload slot)
      (payload_eq : row.payload = payload.next.toJson)
      (waits : row.Waits (slot * interval cfg) clock)

/-- What is known of a call that has read the credential. -/
def Begun (s : ChainRun) (call : ScheduleCall) : Prop :=
  match call.caller with
  | .request key => ∃ text, key = "idem_" ++ text
  | .scheduler => call.payload.wellFormed ∧ ∃ job ∈ s.handles,
      s.finishing call.id = some (job, call.payload) ∧ job.tenantId = call.tenantId

/-- The job of a handle is in the table, and the clock has reached its slot. -/
def Leased (cfg : ScheduleConfig) (s : ChainRun) (job : Job) : Prop :=
  ∃ row ∈ s.run.queue.jobs, row.id = job.id ∧ row.key = (job.tenantId, job.type, job.idempotencyKey) ∧
    ∀ payload slot, payload.wellFormed → row.type = "connector.sync" →
      row.idempotencyKey = scheduledKey payload slot → slot * interval cfg ≤ s.clock

structure Inv (cfg : ScheduleConfig) (s : ChainRun) : Prop where
  keyed : KeyedTable cfg.digest s.run.queue.jobs
  rows : ∀ row ∈ s.run.queue.jobs, row.type = "connector.sync" → SyncRow cfg s.clock row
  calls : ∀ call ∈ s.run.calls, s.Begun call
  handles : ∀ job ∈ s.handles, Leased cfg s job

theorem Start.inv (h : Start s) : Inv cfg s where
  keyed := by
    rw [h.queue]
    exact ⟨List.nodup_nil, by intro row hrow; cases hrow⟩
  rows := by
    rw [h.queue]
    intro row hrow
    cases hrow
  calls := by simp [h.calls]
  handles := by simp [h.handles]

/-- The slot of a scheduled job that is neither queued nor cancelled has begun. -/
theorem SyncRow.reached {clock : ℤ} {row : JobRow} (h : SyncRow cfg clock row)
    {payload : ConnectorSyncPayload} {slot : ℤ} (hpayload : payload.wellFormed)
    (hkey : row.idempotencyKey = scheduledKey payload slot) (hqueued : row.status ≠ .queued)
    (hcancelled : row.status ≠ .cancelled) : slot * interval cfg ≤ clock := by
  cases h with
  | derived text key => exact absurd (hkey.symm.trans key) scheduledKey_ne_derived
  | scheduled payload' slot' wellFormed key _ waits =>
      obtain ⟨-, rfl⟩ := scheduledKey_inj hpayload wellFormed (hkey.symm.trans key)
      exact waits.reached hqueued hcancelled

theorem SyncRow.of_follows {now now' : ℤ} {row new : JobRow} (h : SyncRow cfg now row)
    (htype : row.type = "connector.sync") (hfollows : Follows now now' row new) :
    SyncRow cfg now' new := by
  have hkey : new.idempotencyKey = row.idempotencyKey :=
    congrArg (fun columns => columns.2.1.2.2) hfollows.fixed
  have hpayload : new.payload = row.payload := hfollows.payload (by rw [htype]; decide)
  cases h with
  | derived text key => exact .derived text (hkey.trans key)
  | scheduled payload slot wellFormed key payload_eq waits =>
      exact .scheduled payload slot wellFormed (hkey.trans key) (hpayload.trans payload_eq)
        (hfollows.waits _ waits)

/-- The job that `scheduleAfter` asks for. -/
structure Scheduled (cfg : ScheduleConfig) (call : ScheduleCall) (now : ℤ) : Prop where
  type : (call.input cfg.intervalSeconds now).type = "connector.sync"
  key : (call.input cfg.intervalSeconds now).idempotencyKey =
    scheduledKey call.payload ((now + interval cfg) / interval cfg)
  payload : (call.input cfg.intervalSeconds now).payload = call.payload.next.toJson
  available : (call.input cfg.intervalSeconds now).availableAt = some (now + interval cfg)

theorem scheduled_input {call : ScheduleCall} (hcaller : call.caller = .scheduler) (now : ℤ) :
    Scheduled cfg call now := by
  obtain ⟨id, caller, tenantId, payload, overtaken⟩ := call
  cases hcaller
  exact ⟨rfl, rfl, rfl, rfl⟩

theorem request_input {call : ScheduleCall} {key : String} (hcaller : call.caller = .request key)
    (intervalSeconds now : ℤ) : (call.input intervalSeconds now).idempotencyKey = key := by
  obtain ⟨id, caller, tenantId, payload, overtaken⟩ := call
  cases hcaller
  rfl

section Steps

variable (hinterval : 0 < cfg.intervalSeconds)
include hinterval

theorem interval_pos : 0 < interval cfg := by
  unfold interval
  omega

/-- A job that a step enqueues waits for its slot, or has a derived key. -/
theorem Inv.enqueued (h : Inv cfg s) {label : ScheduleStep} {r : ScheduleRun}
    (hs : s.run.step cfg label = some r) {call : ℤ × QueueCall}
    (hcall : label.queueCall cfg s.run = some call) {input : EnqueueJob} {clock : Readings}
    (henqueue : call.2 = .enqueue input clock) {new : JobRow} (hnew : Enqueued input clock new)
    (htype : new.type = "connector.sync") : SyncRow cfg call.2.clock.finish new := by
  obtain ⟨-, hnewType, hnewKey⟩ := SqliteJobQueue.hasKey_iff.mp hnew.key
  cases label with
  | enqueue c now clock' =>
      obtain ⟨sync, hsync, rfl⟩ := Option.map_eq_some_iff.mp hcall
      cases henqueue
      have hbegun := h.calls sync (ScheduleRun.call?_some hsync)
      unfold Begun at hbegun
      split at hbegun
      · rename_i key hcaller
        obtain ⟨text, htext⟩ := hbegun
        exact .derived text (hnewKey.trans ((request_input hcaller _ _).trans htext))
      · rename_i hcaller
        have hinput : Scheduled cfg sync now := scheduled_input hcaller now
        refine .scheduled sync.payload _ hbegun.1 (hnewKey.trans hinput.key)
          (hnew.payload.trans hinput.payload) ⟨?_, fun _ => .inl hnew.queued⟩
        rw [hnew.available, hinput.available]
        exact Int.ediv_mul_le _ (interval_pos hinterval).ne'
  | enqueueOther input' clock' =>
      cases hcall
      cases henqueue
      simp only [ScheduleRun.step] at hs
      split at hs
      · cases hs
      · rename_i hother
        exact absurd (hnewType.symm.trans htype) hother
  | cancelPending id clock' =>
      obtain ⟨_, _, rfl⟩ := Option.map_eq_some_iff.mp hcall
      cases henqueue
  | leaseNext _ _ _ _ | renewLease _ _ _ | complete _ _ | fail _ _ _ =>
      cases hcall
      cases henqueue
  | vault _ | revoke _ _ _ | request _ _ _ _ | scheduleAfter _ _ _ | abort _ => cases hcall

/-- The rows after a step. -/
theorem Inv.rows_step (h : Inv cfg s) {label : ScheduleStep} {r : ScheduleRun}
    (hs : s.run.step cfg label = some r) {call : ℤ × QueueCall}
    (hcall : label.queueCall cfg s.run = some call)
    (hqueue : SqliteJobQueue.step cfg.digest s.run.queue call = some r.queue)
    (hclock : s.clock ≤ call.2.clock.start) :
    ∀ row ∈ r.queue.jobs, row.type = "connector.sync" → SyncRow cfg call.2.clock.finish row := by
  intro new hnew htype
  rcases SqliteJobQueue.step_follows h.keyed.nodup_id hqueue hclock hnew with
    ⟨row, hrow, hfollows⟩ | ⟨input, clock, henqueue, henqueued⟩
  · have hsame : row.type = "connector.sync" :=
      (congrArg (fun columns => columns.2.1.2.1) hfollows.fixed).symm.trans htype
    exact (h.rows row hrow hsame).of_follows hsame hfollows
  · exact h.enqueued hinterval hs hcall henqueue henqueued htype

end Steps

/-- A handle stays one: its job keeps its id and key, and the clock goes on. -/
theorem Leased.mono {job : Job} (h : Leased cfg s job) (hclock : s.clock ≤ t.clock)
    (hrows : ∀ row ∈ s.run.queue.jobs, ∃ new ∈ t.run.queue.jobs, new.fixed = row.fixed) :
    Leased cfg t job := by
  obtain ⟨row, hrow, hid, hkey, hreached⟩ := h
  obtain ⟨new, hnew, hfixed⟩ := hrows row hrow
  have hsame : new.key = row.key := congrArg (fun columns => columns.2.1) hfixed
  refine ⟨new, hnew, (congrArg Prod.fst hfixed).trans hid, hsame.trans hkey, ?_⟩
  intro payload slot hpayload htype hscheduled
  refine (hreached payload slot hpayload ?_ ?_).trans hclock
  · exact (congrArg (fun key => key.2.1) hsame).symm.trans htype
  · exact (congrArg (fun key => key.2.2) hsame).symm.trans hscheduled

theorem Begun.mono {call old : ScheduleCall} (h : s.Begun old) (hsame : SameCall old call)
    (hhandles : ∀ job ∈ s.handles, job ∈ t.handles)
    (hfinishing : t.finishing old.id = s.finishing old.id) : t.Begun call := by
  obtain ⟨hid, hcaller, htenant, hpayload⟩ := hsame
  unfold Begun at h ⊢
  rw [← hcaller]
  split
  · rename_i key hrequest
    rw [hrequest] at h
    exact h
  · rename_i hscheduler
    rw [hscheduler] at h
    obtain ⟨hwellFormed, job, hjob, hfinish, hjobTenant⟩ := h
    rw [← hpayload, ← hid, ← htenant, hfinishing]
    exact ⟨hwellFormed, job, hhandles job hjob, hfinish, hjobTenant⟩

/-- The job of a handle that a step issues. -/
theorem Inv.issued (h : Inv cfg s) {label : ScheduleStep} {r : ScheduleRun} {job : Job}
    (hadmits : s.admits label) (hs : s.run.step cfg label = some r)
    (hissued : label.issued s.run.queue = some job)
    (hrun : t.run = r) (hclock : s.clock ≤ t.clock)
    (hrows : ∀ row ∈ r.queue.jobs, row.type = "connector.sync" → SyncRow cfg t.clock row)
    (hfixed : ∀ row ∈ s.run.queue.jobs, ∃ new ∈ r.queue.jobs, new.fixed = row.fixed) :
    Leased cfg t job := by
  subst hrun
  cases label with
  | leaseNext workerId leaseSeconds pick clock =>
      obtain ⟨⟨queue, out⟩, hlease, hr⟩ := Option.map_eq_some_iff.mp hs
      have hout : out = some job := by
        simp only [ScheduleStep.issued, hlease] at hissued
        exact hissued
      subst hout
      obtain ⟨new, hnew, hid, hkey, hrunning⟩ := SqliteJobQueue.leaseNext_running hlease
      rw [← hr] at hrows
      rw [Leased, ← hr]
      refine ⟨new, hnew, hid, hkey, fun payload slot hpayload htype hscheduled => ?_⟩
      exact (hrows new hnew htype).reached hpayload hscheduled (by rw [hrunning]; decide)
        (by rw [hrunning]; decide)
  | renewLease old leaseSeconds clock =>
      rcases hrenew : SqliteJobQueue.renewLease s.run.queue old leaseSeconds clock with ⟨q', renewed⟩
      rw [ScheduleStep.issued, hrenew] at hissued
      cases hissued
      obtain ⟨_, _, -, -, -, rfl, -⟩ := SqliteJobQueue.renewLease_some hrenew
      obtain ⟨row, hrow, hid, hkey, hreached⟩ :=
        (h.handles old (of_decide_eq_true hadmits)).mono hclock hfixed
      exact ⟨row, hrow, hid, hkey, hreached⟩
  | _ => cases hissued

/-- Any other step leaves the queue and the clock alone. -/
theorem Inv.keep (h : Inv cfg s) {r : ScheduleRun} {finishing : ℕ → Option (Job × ConnectorSyncPayload)}
    (hqueue : r.queue = s.run.queue)
    (hcalls : ∀ call ∈ r.calls, Begun { s with run := r, finishing := finishing } call) :
    Inv cfg { s with run := r, finishing := finishing } where
  keyed := hqueue ▸ h.keyed
  rows := hqueue ▸ h.rows
  calls := hcalls
  handles job hjob := by
    refine (h.handles job hjob).mono le_rfl fun row hrow => ⟨row, ?_, rfl⟩
    rw [hqueue]
    exact hrow

/-- A derived key. -/
theorem derived_idempotencyKey (digest : String → String) (userId : String) (body : Json) (now : ℤ) :
    ∃ text, idempotencyKey digest userId none body now = "idem_" ++ text :=
  ⟨digest (derivedText userId body now), rfl⟩

/-- The ids of the calls in flight are not those of a new one. -/
theorem id_ne_of_call? {r : ScheduleRun} {c : ℕ} (h : r.call? c = none) {call : ScheduleCall}
    (hcall : call ∈ r.calls) : call.id ≠ c :=
  of_decide_eq_false (by simpa using List.find?_eq_none.mp h call hcall)

theorem issued_of_queueCall {label : ScheduleStep} {r : ScheduleRun}
    (h : label.queueCall cfg r = none) : label.issued r.queue = none := by
  cases label with
  | leaseNext _ _ _ _ | renewLease _ _ _ => cases h
  | _ => rfl

section Steps

variable (hinterval : 0 < cfg.intervalSeconds)
include hinterval

/-- A step on the queue keeps the invariant. -/
theorem Inv.queueStep (h : Inv cfg s) {label : ScheduleStep} {r : ScheduleRun}
    {call : ℤ × QueueCall} (horder : s.inOrder cfg label) (hadmits : s.admits label)
    (hs : s.run.step cfg label = some r) (hcall : label.queueCall cfg s.run = some call)
    (hqueue : SqliteJobQueue.step cfg.digest s.run.queue call = some r.queue) :
    Inv cfg { s with
      run := r
      clock := call.2.clock.finish
      handles := (label.issued s.run.queue).toList ++ s.handles } := by
  have hstart : s.clock ≤ call.2.clock.start := by
    rw [inOrder, hcall] at horder
    obtain ⟨hbegins, hstarts⟩ := of_decide_eq_true horder
    exact hbegins.trans hstarts
  have hclock := hstart.trans call.2.clock.start_le_finish
  have hfixed := SqliteJobQueue.step_fixed hqueue
  have hrows := h.rows_step hinterval hs hcall hqueue hstart
  refine ⟨hfixed.keyed h.keyed, hrows, fun sync hsync => ?_, fun job hjob => ?_⟩
  · obtain ⟨old, hold, hsame⟩ := calls_step hadmits hs hsync
    exact (h.calls old hold).mono hsame (fun job hjob => List.mem_append_right _ hjob) rfl
  · rcases List.mem_append.mp hjob with hnew | hold
    · exact h.issued hadmits hs (Option.mem_toList.mp hnew) rfl hclock hrows fun _ =>
        hfixed.exists_fixed
    · exact (h.handles job hold).mono hclock fun _ => hfixed.exists_fixed

theorem Inv.step (h : Inv cfg s) {label : ChainStep} (hs : s.step cfg label = some t) :
    Inv cfg t := by
  cases label with
  | request c tenantId userId provider body now =>
      obtain ⟨r, hr, rfl⟩ := Option.map_eq_some_iff.mp hs
      refine h.keep (begin_queue hr) fun call hcall => ?_
      rcases begin_calls hr hcall with hold | rfl
      · exact (h.calls call hold).mono ⟨rfl, rfl, rfl, rfl⟩ (fun _ hjob => hjob) rfl
      · exact derived_idempotencyKey _ _ _ _
  | scheduleAfter c job payload =>
      simp only [ChainRun.step] at hs
      split at hs
      · rename_i hguard
        obtain ⟨hjob, hwellFormed, hfree⟩ := hguard
        obtain ⟨r, hr, rfl⟩ := Option.map_eq_some_iff.mp hs
        have hold : ∀ call ∈ s.run.calls, Begun
            { s with
              run := r
              finishing := Function.update s.finishing c (some (job, payload)) } call :=
          fun call hmem => (h.calls call hmem).mono ⟨rfl, rfl, rfl, rfl⟩ (fun _ hjob => hjob)
            (Function.update_of_ne (id_ne_of_call? hfree hmem) _ _)
        simp only [ScheduleRun.step] at hr
        split at hr
        · cases hr
          exact h.keep rfl hold
        · refine h.keep (begin_queue hr) fun call hcall => ?_
          rcases begin_calls hr hcall with hmem | rfl
          · exact hold call hmem
          · exact ⟨hwellFormed, job, hjob, Function.update_self _ _ _, rfl⟩
      · cases hs
  | other label =>
      simp only [ChainRun.step] at hs
      split at hs
      · rename_i hguard
        obtain ⟨r, hr, rfl⟩ := Option.map_eq_some_iff.mp hs
        rcases queue_step hr with ⟨hnone, hqueue⟩ | ⟨call, hcall, hqueue⟩
        · rw [hnone, issued_of_queueCall hnone]
          refine h.keep hqueue fun call hcall => ?_
          obtain ⟨old, hold, hsame⟩ := calls_step hguard.2 hr hcall
          exact (h.calls old hold).mono hsame (fun _ hjob => hjob) rfl
        · rw [hcall]
          exact h.queueStep hinterval hguard.1 hguard.2 hr hcall hqueue
      · cases hs

theorem Reached.inv (h : Reached cfg s) : Inv cfg s :=
  Transition.Reachable.invariant (fun _ => Start.inv)
    (fun _ _ _ _ hinv hs => hinv.step hinterval hs) h

end Steps

/-! ### The successor -/

/-- A `scheduleAfter` that is to recur and finds the credential goes on to enqueue. -/
theorem scheduleAfter_begins {c : ℕ} {job : Job} {payload : ConnectorSyncPayload}
    {credential : ProviderCredential} (hs : s.step cfg (.scheduleAfter c job payload) = some t)
    (hrecurring : payload.recurring ≠ some false)
    (hget : cfg.vault.get s.run.vault.db (payload.key job.tenantId) = .ok (some credential)) :
    t.run.call? c = some ⟨c, .scheduler, job.tenantId, payload, false⟩ ∧
      t.finishing c = some (job, payload) := by
  simp only [ChainRun.step] at hs
  split at hs
  · obtain ⟨r, hr, rfl⟩ := Option.map_eq_some_iff.mp hs
    refine ⟨?_, Function.update_self _ _ _⟩
    rw [ScheduleRun.step, if_neg hrecurring, ScheduleRun.begin] at hr
    split at hr
    · cases hr
    · have hkey : cfg.vault.get s.run.vault.db
          (ScheduleCall.key ⟨c, .scheduler, job.tenantId, payload, false⟩) = .ok (some credential) :=
        hget
      rw [hkey] at hr
      cases hr
      simp [ScheduleRun.call?]
  · cases hs

/-- The slot of `scheduleAfter`. -/
theorem scheduleSlot_eq (hinterval : 0 < cfg.intervalSeconds) (now : ℤ) :
    (now + interval cfg) / interval cfg = now / interval cfg + 1 := by
  have hsum := Int.add_mul_ediv_right now 1 (interval_pos hinterval).ne'
  rw [one_mul] at hsum
  exact hsum

/-- A job that has the key of the next slot has not been leased. -/
theorem Inv.idle (h : Inv cfg s) {payload : ConnectorSyncPayload} {slot : ℤ}
    (hpayload : payload.wellFormed) (hearly : s.clock < slot * interval cfg) {row : JobRow}
    (hrow : row ∈ s.run.queue.jobs) (htype : row.type = "connector.sync")
    (hkey : row.idempotencyKey = scheduledKey payload slot) :
    row.status = .queued ∨ row.status = .cancelled := by
  by_contra hstarted
  obtain ⟨hqueued, hcancelled⟩ := not_or.mp hstarted
  exact absurd ((h.rows row hrow htype).reached hpayload hkey hqueued hcancelled)
    (not_le.mpr hearly)

/-- A job in the table under the key of a slot has the payload of the key. -/
theorem Inv.payload_eq (h : Inv cfg s) {payload : ConnectorSyncPayload} {slot : ℤ}
    (hpayload : payload.wellFormed) {row : JobRow} (hrow : row ∈ s.run.queue.jobs)
    (htype : row.type = "connector.sync") (hkey : row.idempotencyKey = scheduledKey payload slot) :
    row.payload = payload.next.toJson ∧ slot * interval cfg ≤ row.availableAt := by
  cases h.rows row hrow htype with
  | derived text hderived => exact absurd (hkey.symm.trans hderived) scheduledKey_ne_derived
  | scheduled payload' slot' hwellFormed hkey' hpayload' hwaits =>
      obtain ⟨hnext, rfl⟩ := scheduledKey_inj hpayload hwellFormed (hkey.symm.trans hkey')
      exact ⟨hnext ▸ hpayload', hwaits.available⟩

/-- What the step of an `enqueue` that returns leaves. -/
theorem enqueue_step {c : ℕ} {call : ScheduleCall} {now : ℤ} {clock : Readings}
    {out : Queue × Job} (hcall : s.run.call? c = some call)
    (hs : s.step cfg (.other (.enqueue c now clock)) = some t)
    (hreturns : SqliteJobQueue.enqueue cfg.digest s.run.queue
      (call.input cfg.intervalSeconds now) clock = .ok out) :
    s.clock ≤ now ∧ t.run.queue = out.1 := by
  simp only [ChainRun.step] at hs
  split at hs
  · rename_i hguard
    obtain ⟨r, hr, rfl⟩ := Option.map_eq_some_iff.mp hs
    have horder := hguard.1
    rw [inOrder, ScheduleStep.queueCall, hcall] at horder
    refine ⟨(of_decide_eq_true horder).1, ?_⟩
    simp only [ScheduleRun.step, hcall, hreturns] at hr
    cases hr
    rfl
  · cases hs

/-- The id of a handle whose slot has begun is not that of a job of a later slot. -/
theorem Leased.id_ne {job : Job} (h : Leased cfg s job) {payload : ConnectorSyncPayload} {slot : ℤ}
    (hpayload : payload.wellFormed) (hearly : s.clock < slot * interval cfg)
    (hkeyed : KeyedTable cfg.digest t.run.queue.jobs)
    (hfixed : FixedAfter cfg.digest s.run.queue t.run.queue) {row : JobRow}
    (hrow : row ∈ t.run.queue.jobs) (htype : row.type = "connector.sync")
    (hkey : row.idempotencyKey = scheduledKey payload slot) : row.id ≠ job.id := by
  intro hid
  obtain ⟨old, hold, holdId, -, hreached⟩ := h
  obtain ⟨new, hnew, hsame⟩ := hfixed.exists_fixed hold
  have hnewId : new.id = row.id := by
    rw [hid, ← holdId]
    exact congrArg Prod.fst hsame
  obtain rfl : new = row := Table.eq_of_key_eq hkeyed.nodup_id hnew hrow hnewId
  have holdKey : new.key = old.key := congrArg (fun columns => columns.2.1) hsame
  refine absurd (hreached payload slot hpayload ?_ ?_) (not_le.mpr hearly)
  · exact (congrArg (fun key => key.2.1) holdKey).symm.trans htype
  · exact (congrArg (fun key => key.2.2) holdKey).symm.trans hkey

/-- **A chain does not die by deduplication.**  When a `scheduleAfter(job, payload)` that has
found the credential returns, the key of the next slot has a queued job of the payload that is
not the finishing one; and no job that had the key was running or finished. -/
theorem chain_survives (h : Reached cfg s) (hinterval : 0 < cfg.intervalSeconds) {c : ℕ}
    {call : ScheduleCall} {job : Job} {payload : ConnectorSyncPayload} {now : ℤ} {clock : Readings}
    {out : Queue × Job} (hcall : s.run.call? c = some call) (hcaller : call.caller = .scheduler)
    (hfinishing : s.finishing c = some (job, payload))
    (hs : s.step cfg (.other (.enqueue c now clock)) = some t)
    (hreturns : SqliteJobQueue.enqueue cfg.digest s.run.queue
      (call.input cfg.intervalSeconds now) clock = .ok out) :
    let slot := now / interval cfg + 1
    (∃ row ∈ t.run.queue.jobs, row.status = .queued ∧ row.tenantId = job.tenantId ∧
      row.type = "connector.sync" ∧ row.payload = payload.next.toJson ∧
      row.idempotencyKey = scheduledKey payload slot ∧ slot * interval cfg ≤ row.availableAt ∧
      row.id ≠ job.id) ∧
    ∀ row ∈ s.run.queue.jobs,
      row.key = (job.tenantId, "connector.sync", scheduledKey payload slot) →
        row.status = .queued ∨ row.status = .cancelled := by
  intro slot
  have hinv : Inv cfg s := h.inv hinterval
  have hinv' : Inv cfg t := hinv.step hinterval hs
  -- the call is the `scheduleAfter` of the job
  have hbegun := hinv.calls call (ScheduleRun.call?_some hcall)
  rw [Begun, hcaller] at hbegun
  obtain ⟨hwellFormed, job', hjob, hfinish, htenant⟩ := hbegun
  have hid : call.id = c := by simpa using List.find?_some hcall
  rw [hid, hfinishing] at hfinish
  obtain ⟨rfl, rfl⟩ := Prod.mk.inj (Option.some.inj hfinish)
  -- what it enqueues, and when
  have hinput : Scheduled cfg call now := scheduled_input hcaller now
  obtain ⟨hclock, hqueue⟩ := enqueue_step hcall hs hreturns
  have hkeyEq : (call.input cfg.intervalSeconds now).idempotencyKey =
      scheduledKey call.payload slot := by
    rw [hinput.key, scheduleSlot_eq hinterval]
  have hearly : s.clock < slot * interval cfg :=
    lt_of_le_of_lt hclock (slot_bounds (interval_pos hinterval)).1
  have hidle : ∀ row ∈ s.run.queue.jobs, hasKey (call.input cfg.intervalSeconds now) row →
      row.status = .queued ∨ row.status = .cancelled := by
    intro row hrow hkey
    obtain ⟨-, htype, hidempotency⟩ := SqliteJobQueue.hasKey_iff.mp hkey
    exact hinv.idle hwellFormed hearly hrow (htype.trans hinput.type) (hidempotency.trans hkeyEq)
  refine ⟨?_, fun row hrow hkey => ?_⟩
  · have henqueue : enqueueOn .sqlite cfg.digest s.run.queue
        (call.input cfg.intervalSeconds now) clock = some (out.1, out.2) := by
      rw [enqueueOn, hreturns]
      rfl
    obtain ⟨row, hupserted, -⟩ := enqueueOn_some hinv.keyed henqueue
    obtain ⟨-, -, hfresh, hfreshKey⟩ := freshRow_spec .sqlite cfg.digest
      (call.input cfg.intervalSeconds now) clock
    obtain ⟨hrow, hkey, -⟩ := hupserted.mem hfreshKey (by rw [hfresh]; decide)
    obtain ⟨hrowTenant, hrowType, hrowKey⟩ := SqliteJobQueue.hasKey_iff.mp hkey
    rw [← hqueue] at hrow
    obtain ⟨hpayload, havailable⟩ := hinv'.payload_eq hwellFormed hrow
      (hrowType.trans hinput.type) (hrowKey.trans hkeyEq)
    refine ⟨row, hrow, hupserted.queued hfresh hidle, ?_, hrowType.trans hinput.type,
      hpayload, hrowKey.trans hkeyEq, havailable, ?_⟩
    · rw [hrowTenant, ScheduleRun.input_tenantId, htenant]
    · have hfixed : FixedAfter cfg.digest s.run.queue (SqliteJobQueue.settled s.run.queue
          ((SqliteJobQueue.enqueue cfg.digest s.run.queue (call.input cfg.intervalSeconds now)
            clock).map Prod.fst)) := SqliteJobQueue.enqueue_fixed
      rw [hreturns] at hfixed
      replace hfixed : FixedAfter cfg.digest s.run.queue t.run.queue := hqueue ▸ hfixed
      exact (hinv.handles job hjob).id_ne hwellFormed hearly hinv'.keyed hfixed hrow
        (hrowType.trans hinput.type) (hrowKey.trans hkeyEq)
  · exact hinv.idle hwellFormed hearly hrow (congrArg (fun key => key.2.1) hkey)
      (congrArg (fun key => key.2.2) hkey)

/-! ### A chain of two -/

def chainConfig : ScheduleConfig := { ScheduleRun.demoConfig with digest := id }

def chainStart : ChainRun := ⟨ScheduleRun.demoStart, 0, [], fun _ => none⟩

/-- The handle of a manual sync. -/
def manualHandle : Job where
  id := jobId id "t1" "connector.sync" (idempotencyKey id "u1" none
    ((EnqueueBody.sync "gmail" ⟨"org", none, true⟩).hashed id) 0)
  tenantId := "t1"
  type := "connector.sync"
  idempotencyKey := idempotencyKey id "u1" none
    ((EnqueueBody.sync "gmail" ⟨"org", none, true⟩).hashed id) 0
  payload := ScheduleRun.demoPayload.toJson
  status := .running
  attemptCount := 1
  maxAttempts := 5
  availableAt := 0
  leasedBy := some "worker"
  leasedUntil := some 60001

/-- A user connects and syncs, and a worker has finished the sync. -/
def manualSync : List ChainStep :=
  [.other (.vault (.callback VaultRun.demoKey VaultRun.expired (List.replicate 12 0))),
    .request 1 "t1" "u1" "gmail" ⟨"org", none, true⟩ 0, .other (.enqueue 1 0 ⟨0, []⟩),
    .other (.leaseNext "worker" 60 (some manualHandle.id) ⟨1, []⟩),
    .scheduleAfter 2 manualHandle ScheduleRun.demoPayload]

/-- The next sync is queued for the first slot. -/
theorem chain_survives_manualSync : ∃ s t, Reached chainConfig s ∧
    s.step chainConfig (.other (.enqueue 2 2 ⟨2, []⟩)) = some t ∧
    ∃ row ∈ t.run.queue.jobs, row.status = .queued ∧
      row.idempotencyKey = scheduledKey ScheduleRun.demoPayload (2 / 900000 + 1) ∧
      row.id ≠ manualHandle.id := by
  have hrun : (Transition.exec (step chainConfig) chainStart manualSync).any (fun s => decide
      (s.run.call? 2 = some ⟨2, .scheduler, "t1", ScheduleRun.demoPayload, false⟩ ∧
        s.finishing 2 = some (manualHandle, ScheduleRun.demoPayload) ∧
        (s.step chainConfig (.other (.enqueue 2 2 ⟨2, []⟩))).isSome ∧
        (SqliteJobQueue.enqueue id s.run.queue (ScheduleCall.input 900 2
          ⟨2, .scheduler, "t1", ScheduleRun.demoPayload, false⟩) ⟨2, []⟩).toOption.isSome)) =
      true := by
    decide +kernel
  obtain ⟨s, hs, hready⟩ := (Option.any_eq_true _ _).mp hrun
  obtain ⟨hcall, hfinishing, hstep, hreturns⟩ := of_decide_eq_true hready
  obtain ⟨t, ht⟩ := Option.isSome_iff_exists.mp hstep
  have hreached : Reached chainConfig s := .of_exec (.start ⟨rfl, rfl, rfl⟩) hs
  refine ⟨s, t, hreached, ht, ?_⟩
  cases henqueue : SqliteJobQueue.enqueue id s.run.queue (ScheduleCall.input 900 2
      ⟨2, .scheduler, "t1", ScheduleRun.demoPayload, false⟩) ⟨2, []⟩ with
  | error e =>
      rw [henqueue] at hreturns
      cases hreturns
  | ok out =>
      obtain ⟨⟨row, hrow, hqueued, -, -, -, hkey, -, hid⟩, -⟩ :=
        chain_survives hreached (by decide) hcall rfl hfinishing ht henqueue
      exact ⟨row, hrow, hqueued, hkey, hid⟩

end ChainRun

end RecruitingOs
