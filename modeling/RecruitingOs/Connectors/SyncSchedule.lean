import RecruitingOs.Queue.Pending
import RecruitingOs.Vault.Revocation

/-!
# Revocation and the queue of syncs

The revoke route of `src/http/routes/connectors.ts` revokes the credential and then
cancels the pending `connector.sync` jobs of the triple.  The sync route and
`ConnectorSyncScheduler.scheduleAfter` read the credential and then enqueue such a job.
Vault and queue are two stores, and nothing ties the two steps of a call together.

`ScheduleRun` is a run of any number of these calls over one vault and one queue, with
the workers of the queue, refreshes, and OAuth callbacks.  What a call that has read its
credential before a revocation enqueues after the cancellation stays pending, and so does
a running job that fails after it with attempts left.
-/

namespace RecruitingOs

open Database (CredentialKey)

/-- `ConnectorSyncPayload`. -/
structure ConnectorSyncPayload where
  provider : String
  userId : String
  organizationId : String
  scope : Option String
  recurring : Option Bool
deriving Repr, DecidableEq

namespace ConnectorSyncPayload

/-- The triple whose credential the sync uses. -/
def key (payload : ConnectorSyncPayload) (tenantId : String) : CredentialKey :=
  (tenantId, payload.userId, payload.provider)

def toJson (payload : ConnectorSyncPayload) : Json :=
  .obj
    ([("provider", .str payload.provider), ("userId", .str payload.userId),
        ("organizationId", .str payload.organizationId)] ++
      (payload.scope.map fun scope => ("scope", Json.str scope)).toList ++
      (payload.recurring.map fun recurring => ("recurring", Json.bool recurring)).toList)

end ConnectorSyncPayload

/-- Who enqueues. -/
inductive SyncCaller where
  /-- `POST /api/connectors/:provider/sync`, with its idempotency key. -/
  | request (idempotencyKey : String)
  /-- `scheduleAfter`. -/
  | scheduler
deriving Repr, DecidableEq

/-- A call that has read the credential and has not enqueued yet. -/
structure ScheduleCall where
  id : ℕ
  caller : SyncCaller
  tenantId : String
  payload : ConnectorSyncPayload
  /-- Its triple has been revoked since the credential was read. -/
  overtaken : Bool
deriving Repr, DecidableEq

namespace ScheduleCall

def key (call : ScheduleCall) : CredentialKey := call.payload.key call.tenantId

/-- The job that the call enqueues; `now` is the clock of the scheduler. -/
def input (intervalSeconds now : ℤ) (call : ScheduleCall) : EnqueueJob :=
  match call.caller with
  | .request idempotencyKey =>
      { tenantId := call.tenantId
        type := "connector.sync"
        idempotencyKey := idempotencyKey
        payload := call.payload.toJson
        priority := none
        maxAttempts := none
        availableAt := none }
  | .scheduler =>
      let intervalMs := intervalSeconds * 1000
      let availableAtMs := now + intervalMs
      let scheduleSlot := availableAtMs / intervalMs
      { tenantId := call.tenantId
        type := "connector.sync"
        idempotencyKey := "scheduled:" ++ call.payload.provider ++ ":" ++ call.payload.userId ++
          ":" ++ call.payload.organizationId ++ ":" ++ call.payload.scope.getD "" ++ ":" ++
          toString scheduleSlot
        payload := { call.payload with recurring := some true }.toJson
        priority := none
        maxAttempts := none
        availableAt := some availableAtMs }

end ScheduleCall

/-- What the revoke route cancels. -/
def cancelInput (key : CredentialKey) : CancelPendingJobs where
  tenantId := key.1
  type := "connector.sync"
  payload := [("provider", key.2.2), ("userId", key.2.1)]

/-- A `connector.sync` job of the triple. -/
def JobRow.isSync (key : CredentialKey) (row : JobRow) : Bool :=
  row.tenantId = key.1 ∧ row.type = "connector.sync" ∧
    row.payload.get? "provider" = some (.str key.2.2) ∧
    row.payload.get? "userId" = some (.str key.2.1)

/-- The state of a run. -/
structure ScheduleRun where
  vault : VaultRun
  queue : Queue
  calls : List ScheduleCall
  /-- The revoke routes that have revoked and not cancelled yet. -/
  routes : List (ℕ × CredentialKey)
  /-- The triples whose revoke route has answered, with no new connection since it revoked. -/
  answered : List CredentialKey

/-- A step of a run. -/
inductive ScheduleStep where
  /-- A refresh, or an OAuth callback. -/
  | vault (label : VaultStep)
  /-- The revoke route: `vault.revoke`. -/
  | revoke (r : ℕ) (key : CredentialKey) (now : ℤ)
  /-- The revoke route: `queue.cancelPending`, and its answer. -/
  | cancelPending (r : ℕ) (clock : Readings)
  /-- The sync route, past its other checks: `vault.get`. -/
  | request (c : ℕ) (tenantId : String) (payload : ConnectorSyncPayload) (idempotencyKey : String)
  /-- `scheduleAfter`: `vault.get`. -/
  | scheduleAfter (c : ℕ) (job : Job) (payload : ConnectorSyncPayload)
  /-- `queue.enqueue` of either. -/
  | enqueue (c : ℕ) (now : ℤ) (clock : Readings)
  /-- A call ends without enqueueing. -/
  | abort (c : ℕ)
  /-- Any other job is enqueued. -/
  | enqueueOther (input : EnqueueJob) (clock : Readings)
  | leaseNext (workerId : String) (leaseSeconds : ℤ) (pick : Option String) (clock : Readings)
  | renewLease (job : Job) (leaseSeconds : ℤ) (clock : Readings)
  | complete (job : Job) (clock : Readings)
  | fail (job : Job) (message : String) (clock : Readings)

/-- What a run is configured with. -/
structure ScheduleConfig where
  digest : String → String
  vault : Vault
  getTime : String → Option ℤ
  skewMs : ℤ
  intervalSeconds : ℤ

/-- A revocation is a step of its route only. -/
def VaultStep.isRevoke : VaultStep → Bool
  | .revoke _ _ => true
  | _ => false

namespace ScheduleRun

def call? (s : ScheduleRun) (c : ℕ) : Option ScheduleCall := s.calls.find? fun call => call.id = c

/-- The run without a call: it has returned or thrown. -/
def drop (s : ScheduleRun) (c : ℕ) : ScheduleRun :=
  { s with calls := s.calls.filter fun call => call.id ≠ c }

/-- The call that reads the credential and goes on if there is one. -/
def begin (cfg : ScheduleConfig) (s : ScheduleRun) (call : ScheduleCall) : Option ScheduleRun :=
  if (s.call? call.id).isSome then none
  else
    match cfg.vault.get s.vault.db call.key with
    | .ok (some _) => some { s with calls := call :: s.calls }
    -- `CONNECTOR_NOT_CONNECTED`, `undefined`, or the vault throws
    | _ => some s

/-- The run after a queue operation that rejects or resolves. -/
def settle (s : ScheduleRun) : Except QueueError Queue → ScheduleRun
  | .error _ => s
  | .ok queue => { s with queue := queue }

/-- One step; `none` where it cannot happen. -/
def step (cfg : ScheduleConfig) (s : ScheduleRun) : ScheduleStep → Option ScheduleRun
  | .vault label =>
      if label.isRevoke then none
      else
        (s.vault.step cfg.vault cfg.getTime cfg.skewMs label).map fun vault =>
          { s with vault := vault, answered := s.answered.filter (· ∈ vault.revoked) }
  | .revoke r key now =>
      if s.routes.any fun route => route.1 = r then none
      else
        (s.vault.step cfg.vault cfg.getTime cfg.skewMs (.revoke key now)).map fun vault =>
          { s with
            vault := vault
            routes := (r, key) :: s.routes
            calls := s.calls.map fun call =>
              if call.key = key then { call with overtaken := true } else call }
  | .cancelPending r clock =>
      match s.routes.find? fun route => route.1 = r with
      | none => none
      | some (_, key) =>
          some { s with
            queue := (SqliteJobQueue.cancelPending s.queue (cancelInput key) clock).1
            routes := s.routes.filter fun route => route.1 ≠ r
            answered := if key ∈ s.vault.revoked then key :: s.answered else s.answered }
  | .request c tenantId payload idempotencyKey =>
      s.begin cfg ⟨c, .request idempotencyKey, tenantId, payload, false⟩
  | .scheduleAfter c job payload =>
      if payload.recurring = some false then some s
      else s.begin cfg ⟨c, .scheduler, job.tenantId, payload, false⟩
  | .enqueue c now clock =>
      match s.call? c with
      | none => none
      | some call =>
          let input := call.input cfg.intervalSeconds now
          some ((s.drop c).settle
            ((SqliteJobQueue.enqueue cfg.digest s.queue input clock).map Prod.fst))
  | .abort c => if (s.call? c).isSome then some (s.drop c) else none
  | .enqueueOther input clock =>
      if input.type = "connector.sync" then none
      else some (s.settle
        ((SqliteJobQueue.enqueue cfg.digest s.queue input clock).map Prod.fst))
  | .leaseNext workerId leaseSeconds pick clock =>
      (SqliteJobQueue.leaseNext s.queue workerId leaseSeconds pick clock).map fun out =>
        { s with queue := out.1 }
  | .renewLease job leaseSeconds clock =>
      some { s with queue := (SqliteJobQueue.renewLease s.queue job leaseSeconds clock).1 }
  | .complete job clock => some (s.settle (SqliteJobQueue.complete s.queue job clock))
  | .fail job message clock => some (s.settle (SqliteJobQueue.fail s.queue job message clock))

variable {cfg : ScheduleConfig} {s t : ScheduleRun} {key : CredentialKey}

/-- No call of the triple is in flight, and no job of it is running. -/
structure Finished (s : ScheduleRun) (key : CredentialKey) : Prop where
  calls : ∀ call ∈ s.calls, call.key ≠ key
  routes : ∀ route ∈ s.routes, route.2 ≠ key
  jobs : ∀ row ∈ s.queue.jobs, row.isSync key → row.status ≠ .running

/-- No job of the triple is `queued` or `retryable_failed`. -/
def NonePending (s : ScheduleRun) (key : CredentialKey) : Prop :=
  ∀ row ∈ s.queue.jobs, row.isSync key → row.status.pending = false

/-- **No pending sync outlives a revocation.** -/
def NoPendingSync (s : ScheduleRun) : Prop :=
  ∀ key ∈ s.answered, s.Finished key → s.NonePending key

/-- The condition on a step.  A call whose triple has been revoked since it read the
credential enqueues before the route has cancelled, and a job that is running when the
route cancels does not fail before its last attempt.  The refreshes put as in
`VaultRun.PutsUnrevoked`. -/
def InTime (s : ScheduleRun) : ScheduleStep → Prop
  | .vault label => VaultRun.PutsUnrevoked s.vault label
  | .enqueue c _ _ => ∀ call, s.call? c = some call → call.overtaken → call.key ∉ s.answered
  | .fail job _ clock => ∀ leasedBy leasedUntil, job.leasedBy = some leasedBy →
      job.leasedUntil = some leasedUntil → ∀ row ∈ s.queue.jobs,
        SqliteJobQueue.holdsLease job.id leasedBy leasedUntil (clock.nth 3) row →
          ∀ key ∈ s.answered, row.isSync key → job.maxAttempts ≤ job.attemptCount
  | _ => True

/-! ### What the enqueued job names -/

@[simp] theorem ConnectorSyncPayload.toJson_provider (payload : ConnectorSyncPayload) :
    payload.toJson.get? "provider" = some (.str payload.provider) := rfl

@[simp] theorem ConnectorSyncPayload.toJson_userId (payload : ConnectorSyncPayload) :
    payload.toJson.get? "userId" = some (.str payload.userId) := rfl

theorem isSync_iff {row : JobRow} : row.isSync key ↔
    row.tenantId = key.1 ∧ row.type = "connector.sync" ∧
      row.payload.get? "provider" = some (.str key.2.2) ∧
      row.payload.get? "userId" = some (.str key.2.1) := by
  simp [JobRow.isSync]

/-- A job is one of the triple by its tenant, type and payload. -/
theorem isSync_congr {row other : JobRow} (htenant : row.tenantId = other.tenantId)
    (htype : row.type = other.type) (hpayload : row.payload = other.payload) :
    row.isSync key = other.isSync key := by
  unfold JobRow.isSync
  rw [htenant, htype, hpayload]

section Input

variable (intervalSeconds now : ℤ) (call : ScheduleCall)

@[simp] theorem input_tenantId : (call.input intervalSeconds now).tenantId = call.tenantId := by
  unfold ScheduleCall.input
  split <;> rfl

@[simp] theorem input_provider :
    (call.input intervalSeconds now).payload.get? "provider" =
      some (.str call.payload.provider) := by
  unfold ScheduleCall.input
  split <;> rfl

@[simp] theorem input_userId :
    (call.input intervalSeconds now).payload.get? "userId" = some (.str call.payload.userId) := by
  unfold ScheduleCall.input
  split <;> rfl

end Input

/-- The job of a call is one of its own triple only. -/
theorem key_of_isSync_input {row : JobRow} {call : ScheduleCall} {intervalSeconds now : ℤ}
    (htenant : row.tenantId = (call.input intervalSeconds now).tenantId)
    (hpayload : row.payload = (call.input intervalSeconds now).payload)
    (hsync : row.isSync key) : call.key = key := by
  obtain ⟨hkeyTenant, -, hprovider, huser⟩ := isSync_iff.mp hsync
  rw [htenant, input_tenantId] at hkeyTenant
  rw [hpayload, input_provider] at hprovider
  rw [hpayload, input_userId] at huser
  unfold ScheduleCall.key ConnectorSyncPayload.key
  rw [hkeyTenant, Json.str.inj (Option.some.inj huser), Json.str.inj (Option.some.inj hprovider)]

/-- What the route cancels are the pending jobs of its triple. -/
theorem isCancelCandidate_cancelInput {row : JobRow} :
    SqliteJobQueue.isCancelCandidate (cancelInput key) row =
      (row.isSync key && row.status.pending) := by
  unfold SqliteJobQueue.isCancelCandidate JobRow.isSync SqliteJobQueue.matchesPayload cancelInput
  rw [Bool.eq_iff_iff]
  simp only [List.all_cons, List.all_nil, Bool.and_true, Bool.and_eq_true, decide_eq_true_eq]
  tauto

/-! ### The invariant -/

theorem call?_some {c : ℕ} {call : ScheduleCall} (h : s.call? c = some call) : call ∈ s.calls :=
  List.mem_of_find?_eq_some h

/-- A call whose triple is revoked has been overtaken; a triple whose route has answered
is still revoked and has no pending job. -/
structure Inv (s : ScheduleRun) : Prop where
  calls : s.vault.CallInv
  marked : s.vault.Marked
  overtaken : ∀ call ∈ s.calls, call.key ∈ s.vault.revoked → call.overtaken
  revoked : ∀ key ∈ s.answered, key ∈ s.vault.revoked
  nonePending : ∀ key ∈ s.answered, s.NonePending key

/-- The pending jobs of `t` are pending in `s`, or of a triple that is not answered. -/
def KeepsNone (s t : ScheduleRun) : Prop :=
  ∀ row ∈ t.queue.jobs, row.status.pending → row ∈ s.queue.jobs ∨
    ∀ key ∈ s.answered, row.isSync key = false

theorem KeepsNone.of_subset (h : ∀ row ∈ t.queue.jobs, row.status.pending → row ∈ s.queue.jobs) :
    KeepsNone s t :=
  fun row hrow hpending => .inl (h row hrow hpending)

theorem KeepsNone.nonePending (h : KeepsNone s t) (hs : s.NonePending key)
    (hkey : key ∈ s.answered) : t.NonePending key := by
  intro row hrow hsync
  refine Bool.eq_false_iff.mpr fun hpending => ?_
  rcases h row hrow hpending with hold | hother
  · rw [hs row hold hsync] at hpending
    cases hpending
  · rw [hother key hkey] at hsync
    cases hsync

/-- A step on the queue alone keeps the invariant if it keeps the pending jobs. -/
theorem Inv.queue (h : Inv s) (hvault : t.vault = s.vault)
    (hcalls : ∀ call ∈ t.calls, call ∈ s.calls) (hanswered : t.answered = s.answered)
    (hkeeps : KeepsNone s t) : Inv t where
  calls := hvault ▸ h.calls
  marked := hvault ▸ h.marked
  overtaken call hcall hkey := h.overtaken call (hcalls call hcall) (hvault ▸ hkey)
  revoked key hkey := hvault ▸ h.revoked key (hanswered ▸ hkey)
  nonePending key hkey := by
    rw [hanswered] at hkey
    exact hkeeps.nonePending (h.nonePending key hkey) hkey

theorem settle_cases (result : Except QueueError Queue) :
    s.settle result = s ∨ ∃ queue, result = .ok queue ∧ s.settle result = { s with queue := queue } := by
  cases result with
  | error e => exact .inl rfl
  | ok queue => exact .inr ⟨queue, rfl, rfl⟩

/-- What `enqueue` leaves pending, whether it resolves or not. -/
theorem mem_settle_enqueue {digest : String → String} {q : Queue} {input : EnqueueJob}
    {clock : Readings} {row : JobRow} (hq : s.queue = q)
    (hrow : row ∈ (s.settle
      ((SqliteJobQueue.enqueue digest q input clock).map Prod.fst)).queue.jobs) :
    row ∈ s.queue.jobs ∨ row.tenantId = input.tenantId ∧ row.type = input.type ∧
      row.payload = input.payload := by
  cases henqueue : SqliteJobQueue.enqueue digest q input clock with
  | error e =>
      rw [henqueue] at hrow
      exact .inl hrow
  | ok out =>
      rw [henqueue] at hrow
      rw [hq]
      exact SqliteJobQueue.pending_enqueue henqueue hrow

/-- A vault that answers a credential answers one that is not revoked. -/
theorem Inv.not_revoked (h : Inv s) {credential : ProviderCredential}
    (hget : cfg.vault.get s.vault.db key = .ok (some credential)) : key ∉ s.vault.revoked := by
  intro hrevoked
  rw [(h.marked.final key hrevoked).1] at hget
  cases hget

theorem Inv.begin (h : Inv s) {call : ScheduleCall} (hs : s.begin cfg call = some t) : Inv t := by
  unfold ScheduleRun.begin at hs
  split at hs
  · cases hs
  · split at hs
    · rename_i credential hget
      cases hs
      refine ⟨h.calls, h.marked, fun other hother hkey => ?_, h.revoked, h.nonePending⟩
      rcases List.mem_cons.mp hother with rfl | hold
      · exact absurd hkey (h.not_revoked hget)
      · exact h.overtaken other hold hkey
    · cases hs
      exact h

/-- A refresh or a callback revokes nothing. -/
theorem revoked_of_vault {getTime : String → Option ℤ} {skewMs : ℤ} {v w : VaultRun}
    {label : VaultStep} (hlabel : ¬ label.isRevoke)
    (hs : v.step cfg.vault getTime skewMs label = some w) : ∀ key ∈ w.revoked, key ∈ v.revoked := by
  intro key hkey
  rcases VaultRun.step_cases hs with ⟨-, hsame, -⟩ | ⟨_, _, rfl, -⟩ | ⟨_, _, _, _, -, -, -, hsame, -⟩ |
    ⟨_, _, _, -, -, hfewer, -⟩
  · exact hsame ▸ hkey
  · exact absurd rfl hlabel
  · exact hsame ▸ hkey
  · rw [hfewer] at hkey
    exact (List.mem_filter.mp hkey).1

theorem Inv.vault (h : Inv s) {label : VaultStep} (hin : InTime s (.vault label))
    (hs : s.step cfg (.vault label) = some t) : Inv t := by
  simp only [ScheduleRun.step] at hs
  split at hs
  · cases hs
  · rename_i hlabel
    obtain ⟨vault, hvault, rfl⟩ := Option.map_eq_some_iff.mp hs
    have hfewer := revoked_of_vault hlabel hvault
    refine ⟨h.calls.step hvault, h.marked.step h.calls hin hvault, fun call hcall hkey => ?_,
      fun key hkey => ?_, fun key hkey => ?_⟩
    · exact h.overtaken call hcall (hfewer _ hkey)
    · exact of_decide_eq_true (List.mem_filter.mp hkey).2
    · exact h.nonePending key (List.mem_filter.mp hkey).1

/-- A revocation overtakes the calls of its triple. -/
theorem Inv.revoke (h : Inv s) {r : ℕ} {now : ℤ} (hs : s.step cfg (.revoke r key now) = some t) :
    Inv t := by
  simp only [ScheduleRun.step] at hs
  split at hs
  · cases hs
  · obtain ⟨vault, hvault, rfl⟩ := Option.map_eq_some_iff.mp hs
    have hcalls := h.calls.step hvault
    have hputs : VaultRun.PutsUnrevoked s.vault (.revoke key now) := trivial
    have hmarked := h.marked.step h.calls hputs hvault
    cases hvault
    refine ⟨hcalls, hmarked, fun call hcall hkey => ?_, fun other hother => ?_, h.nonePending⟩
    · obtain ⟨old, hold, rfl⟩ := List.mem_map.mp hcall
      by_cases hsame : old.key = key
      · rw [if_pos hsame]
      · rw [if_neg hsame] at hkey ⊢
        rcases List.mem_cons.mp hkey with habsurd | hrevoked
        · exact absurd habsurd hsame
        · exact h.overtaken old hold hrevoked
    · exact List.mem_cons_of_mem _ (h.revoked other hother)

/-- The route leaves none of its jobs pending, and none of an answered triple. -/
theorem Inv.cancelPending (h : Inv s) {r : ℕ} {clock : Readings}
    (hs : s.step cfg (.cancelPending r clock) = some t) : Inv t := by
  simp only [ScheduleRun.step] at hs
  split at hs
  · cases hs
  · rename_i id key hroute
    cases hs
    refine ⟨h.calls, h.marked, h.overtaken, fun other hother => ?_, fun other hother => ?_⟩
    · dsimp only at hother
      split at hother
      · rename_i hrevoked
        rcases List.mem_cons.mp hother with rfl | hold
        · exact hrevoked
        · exact h.revoked other hold
      · exact h.revoked other hother
    · intro row hrow hsync
      refine Bool.eq_false_iff.mpr fun hpending => ?_
      obtain ⟨hold, hleft⟩ := SqliteJobQueue.pending_cancelPending hrow hpending
      rw [isCancelCandidate_cancelInput, hpending, Bool.and_true] at hleft
      have hanswered : other ∈ s.answered := by
        dsimp only at hother
        split at hother
        · rcases List.mem_cons.mp hother with rfl | hmem
          · rw [hleft] at hsync
            cases hsync
          · exact hmem
        · exact hother
      have hnone := h.nonePending other hanswered row hold hsync
      rw [hpending] at hnone
      cases hnone

/-- What a call in time enqueues is of a triple that is not answered: either it has not
been overtaken, and the triple is not revoked, or the route has not cancelled yet. -/
theorem Inv.enqueue (h : Inv s) {c : ℕ} {now : ℤ} {clock : Readings}
    (hin : InTime s (.enqueue c now clock)) (hs : s.step cfg (.enqueue c now clock) = some t) :
    Inv t := by
  simp only [ScheduleRun.step] at hs
  split at hs
  · cases hs
  · rename_i call hcall
    have hfree : call.key ∉ s.answered := by
      intro hanswered
      have hovertaken := h.overtaken call (call?_some hcall) (h.revoked _ hanswered)
      exact hin call hcall hovertaken hanswered
    have hkeeps : KeepsNone s ((s.drop c).settle ((SqliteJobQueue.enqueue cfg.digest s.queue
        (call.input cfg.intervalSeconds now) clock).map Prod.fst)) := by
      intro row hrow _
      rcases mem_settle_enqueue rfl hrow with hold | ⟨htenant, -, hpayload⟩
      · exact .inl hold
      · refine .inr fun key hkey => Bool.eq_false_iff.mpr fun hsync => ?_
        rw [key_of_isSync_input htenant hpayload hsync] at hfree
        exact hfree hkey
    have hdrop : ∀ other ∈ (s.drop c).calls, other ∈ s.calls :=
      fun _ hother => (List.mem_filter.mp hother).1
    obtain rfl := Option.some.inj hs
    rcases settle_cases (s := s.drop c) ((SqliteJobQueue.enqueue cfg.digest s.queue
      (call.input cfg.intervalSeconds now) clock).map Prod.fst) with hsettle | ⟨queue, -, hsettle⟩
    · rw [hsettle] at hkeeps ⊢
      exact h.queue rfl hdrop rfl hkeeps
    · rw [hsettle] at hkeeps ⊢
      exact h.queue rfl hdrop rfl hkeeps

/-- A queue operation that keeps the pending jobs keeps the invariant. -/
theorem Inv.settle (h : Inv s) {result : Except QueueError Queue}
    (hkeeps : KeepsNone s (s.settle result)) : Inv (s.settle result) := by
  rcases settle_cases (s := s) result with hsettle | ⟨queue, -, hsettle⟩
  · rw [hsettle]
    exact h
  · rw [hsettle] at hkeeps ⊢
    exact h.queue rfl (fun _ hcall => hcall) rfl hkeeps

/-- A failed job that is pending again has attempts left, so no answered triple has it. -/
theorem KeepsNone.fail {job : Job} {message : String} {clock : Readings}
    (hin : InTime s (.fail job message clock)) :
    KeepsNone s (s.settle (SqliteJobQueue.fail s.queue job message clock)) := by
  intro row hrow hpending
  cases hfail : SqliteJobQueue.fail s.queue job message clock with
  | error e =>
      rw [hfail] at hrow
      exact .inl hrow
  | ok queue =>
      rw [hfail] at hrow
      rcases SqliteJobQueue.pending_fail hfail hrow with hold |
        ⟨leasedBy, leasedUntil, old, hold, hby, huntil, hheld, rfl⟩
      · exact .inl hold
      · refine .inr fun key hkey => Bool.eq_false_iff.mpr fun hsync => ?_
        by_cases hlast : job.maxAttempts ≤ job.attemptCount
        · simp [SqliteJobQueue.failRow, hlast, JobStatus.pending] at hpending
        · have hsame : old.isSync key := by
            rw [← hsync]
            exact isSync_congr rfl rfl (by simp [SqliteJobQueue.failRow, hlast])
          exact hlast (hin leasedBy leasedUntil hby huntil old hold hheld key hkey hsame)

theorem Inv.step (h : Inv s) {label : ScheduleStep} (hin : InTime s label)
    (hs : s.step cfg label = some t) : Inv t := by
  cases label with
  | vault label => exact h.vault hin hs
  | revoke r key now => exact h.revoke hs
  | cancelPending r clock => exact h.cancelPending hs
  | request c tenantId payload idempotencyKey => exact h.begin hs
  | scheduleAfter c job payload =>
      simp only [ScheduleRun.step] at hs
      split at hs
      · cases hs
        exact h
      · exact h.begin hs
  | enqueue c now clock => exact h.enqueue hin hs
  | abort c =>
      simp only [ScheduleRun.step] at hs
      split at hs
      · cases hs
        exact h.queue rfl (fun _ hcall => (List.mem_filter.mp hcall).1) rfl
          (.of_subset fun _ hrow _ => hrow)
      · cases hs
  | enqueueOther input clock =>
      simp only [ScheduleRun.step] at hs
      split at hs
      · cases hs
      · rename_i htype
        cases hs
        refine h.settle fun row hrow _ => ?_
        rcases mem_settle_enqueue rfl hrow with hold | ⟨-, hrowType, -⟩
        · exact .inl hold
        · refine .inr fun key _ => Bool.eq_false_iff.mpr fun hsync => ?_
          exact htype (hrowType ▸ (isSync_iff.mp hsync).2.1)
  | leaseNext workerId leaseSeconds pick clock =>
      obtain ⟨⟨queue, out⟩, hlease, rfl⟩ := Option.map_eq_some_iff.mp hs
      exact h.queue rfl (fun _ hcall => hcall) rfl
        (.of_subset fun _ hrow => SqliteJobQueue.pending_leaseNext hlease hrow)
  | renewLease job leaseSeconds clock =>
      cases hs
      exact h.queue rfl (fun _ hcall => hcall) rfl
        (.of_subset fun _ hrow => SqliteJobQueue.pending_renewLease hrow)
  | complete job clock =>
      cases hs
      refine h.settle (.of_subset fun row hrow hpending => ?_)
      cases hcomplete : SqliteJobQueue.complete s.queue job clock with
      | error e =>
          rw [hcomplete] at hrow
          exact hrow
      | ok queue =>
          rw [hcomplete] at hrow
          exact SqliteJobQueue.pending_complete hcomplete hrow hpending
  | fail job message clock =>
      cases hs
      exact h.settle (.fail hin)

/-! ### Every run -/

/-- No call is in flight, no route has begun, and nothing is remembered as revoked. -/
structure Start (s : ScheduleRun) : Prop where
  vault : s.vault.Quiet
  calls : s.calls = []
  routes : s.routes = []
  answered : s.answered = []

theorem Start.inv (h : Start s) : Inv s where
  calls := h.vault.inv.1
  marked := h.vault.inv.2
  overtaken := by simp [h.calls]
  revoked := by simp [h.answered]
  nonePending := by simp [h.answered]

theorem Inv.noPendingSync (h : Inv s) : NoPendingSync s :=
  fun key hkey _ => h.nonePending key hkey

/-- **No pending sync outlives a revocation**, in every run whose calls enqueue and whose
jobs fail in time.  Nothing is asked of the jobs of other triples, and nothing of a call
that reads the credential after the revocation. -/
theorem noPendingSync_of_inTime (h : Start s) {run : List ScheduleStep}
    (hin : Transition.EveryStep (step cfg) InTime s run) :
    Transition.EveryState (step cfg) NoPendingSync s run :=
  (Transition.everyState_of_everyStep (fun _ _ _ hinv hC hs => hinv.step hC hs) h.inv hin).mono
    fun _ => Inv.noPendingSync

/-! ### Calls that come late -/

/-- A vault that opens every credential as the one that has expired. -/
def demoConfig : ScheduleConfig where
  digest := fun _ => "0"
  vault := VaultRun.demoVault VaultRun.expired
  getTime := fun _ => some 0
  skewMs := 60000
  intervalSeconds := 900

def demoPayload : ConnectorSyncPayload := ⟨"gmail", "u1", "org", none, some true⟩

def demoStart : ScheduleRun := ⟨VaultRun.oneUser, Queue.empty, [], [], []⟩

theorem demoStart_start : Start demoStart := ⟨VaultRun.oneUser_quiet, rfl, rfl, rfl⟩

/-- A sync request has read the credential when the user disconnects, and enqueues when
the route has answered. -/
def lateRequest : List ScheduleStep :=
  [.vault (.callback VaultRun.demoKey VaultRun.expired (List.replicate 12 0)),
    .request 1 "t1" demoPayload "k", .revoke 1 VaultRun.demoKey 0, .cancelPending 1 ⟨1, []⟩,
    .enqueue 1 2 ⟨2, []⟩]

/-- The handle with which the worker fails its job. -/
def demoHandle : Job where
  id := "job_0"
  tenantId := "t1"
  type := "connector.sync"
  idempotencyKey := "k"
  payload := demoPayload.toJson
  status := .running
  attemptCount := 1
  maxAttempts := 5
  availableAt := 0
  leasedBy := some "worker"
  leasedUntil := some 60001

/-- A sync is running when the user disconnects, and fails when the route has answered. -/
def lateFailure : List ScheduleStep :=
  [.vault (.callback VaultRun.demoKey VaultRun.expired (List.replicate 12 0)),
    .request 1 "t1" demoPayload "k", .enqueue 1 0 ⟨0, []⟩,
    .leaseNext "worker" 60 (some "job_0") ⟨1, []⟩, .revoke 1 VaultRun.demoKey 2,
    .cancelPending 1 ⟨3, []⟩, .fail demoHandle "gmail is not connected" ⟨4, []⟩]

/-- The state that a run leaves has a pending job of the disconnected triple, and no call
or running job of it. -/
def outlived (s : ScheduleRun) : Bool :=
  VaultRun.demoKey ∈ s.answered ∧ s.calls = [] ∧ s.routes = [] ∧
    (s.queue.jobs.all fun row => row.status ≠ .running) ∧
    s.queue.jobs.any fun row => row.isSync VaultRun.demoKey ∧ row.status.pending

theorem not_noPendingSync (h : outlived s) : ¬ NoPendingSync s := by
  obtain ⟨hanswered, hcalls, hroutes, hrunning, hpending⟩ := of_decide_eq_true h
  obtain ⟨row, hrow, hlate⟩ := List.any_eq_true.mp hpending
  obtain ⟨hsync, hstatus⟩ := of_decide_eq_true hlate
  intro hnone
  have hfinished : s.Finished VaultRun.demoKey :=
    { calls := by simp [hcalls]
      routes := by simp [hroutes]
      jobs := fun row hrow _ => of_decide_eq_true (List.all_eq_true.mp hrunning row hrow) }
  rw [hnone _ hanswered hfinished row hrow hsync] at hstatus
  cases hstatus

theorem lateRequest_outlived :
    (Transition.exec (step demoConfig) demoStart lateRequest).any outlived = true := by
  decide +kernel

theorem lateFailure_outlived :
    (Transition.exec (step demoConfig) demoStart lateFailure).any outlived = true := by
  decide +kernel

/-- A run that leaves a late job. -/
theorem not_everyState {run : List ScheduleStep}
    (h : (Transition.exec (step demoConfig) demoStart run).any outlived = true) :
    ¬ Transition.EveryState (step demoConfig) NoPendingSync demoStart run := by
  obtain ⟨t, ht, hlate⟩ := (Option.any_eq_true _ _).mp h
  exact fun hall => not_noPendingSync hlate (hall.exec ht)

/-- A request in flight enqueues over the revocation. -/
theorem pendingSync_outlives :
    ¬ ∀ s, Start s → ∀ run, Transition.EveryState (step demoConfig) NoPendingSync s run :=
  fun h => not_everyState lateRequest_outlived (h demoStart demoStart_start lateRequest)

/-- So does a job that was running: its failure makes it pending again. -/
theorem failedSync_outlives :
    ¬ Transition.EveryState (step demoConfig) NoPendingSync demoStart lateFailure :=
  not_everyState lateFailure_outlived

/-- A request that is overtaken enqueues before the route cancels. -/
theorem noPendingSync_of_inTime_request :
    Transition.EveryState (step demoConfig) NoPendingSync demoStart
      [.vault (.callback VaultRun.demoKey VaultRun.expired (List.replicate 12 0)),
        .request 1 "t1" demoPayload "k", .revoke 1 VaultRun.demoKey 0, .enqueue 1 1 ⟨1, []⟩,
        .cancelPending 1 ⟨2, []⟩, .request 2 "t1" demoPayload "k"] := by
  refine noPendingSync_of_inTime demoStart_start ?_
  iterate 3
    refine fun t ht => ⟨trivial, ?_⟩
    cases ht
  refine fun t ht => ⟨fun call _ _ => List.not_mem_nil, ?_⟩
  cases ht
  exact fun t _ => ⟨trivial, fun u _ => ⟨trivial, trivial⟩⟩

end ScheduleRun

end RecruitingOs
