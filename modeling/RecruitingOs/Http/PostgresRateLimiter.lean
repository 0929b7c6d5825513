import RecruitingOs.Http.App
import RecruitingOs.Lib.FixedWindow
import RecruitingOs.Lib.Table
import RecruitingOs.Lib.Transition

/-!
# The rate limiter of the database

`PostgresRateLimiter` of `src/infrastructure/rate-limit/postgres-rate-limiter.ts`, over the
function `app.consume_rate_limit` of `migrations/002_operations.sql`.  A key has one row for each
aligned window, and the row counts the calls that have read the clock in the window.

A call reads the clock first, and takes effect with its upsert, so calls of any number of processes
interleave between the two.  Maintenance deletes rows a minute after the end of their window.  No
call is forgotten by it, since a statement is cancelled after less than that minute: what is
answered is what an ideal counter that never forgets answers (`limiter_exact`).

Times of the database are in microseconds.  `RateRun.counted` is not stored: it remembers the calls
that were counted, the newest first.
-/

namespace RecruitingOs

/-- A row of `rate_limit_buckets`. -/
structure RateBucketRow where
  keyHash : String
  windowStart : ℤ
  requestCount : ℕ
  expiresAt : ℤ
deriving Repr, DecidableEq

namespace RateBucketRow

/-- The primary key. -/
def key (row : RateBucketRow) : String × ℤ := (row.keyHash, row.windowStart)

/-- `set request_count = rate_limit_buckets.request_count + 1`. -/
def again (row : RateBucketRow) : RateBucketRow := { row with requestCount := row.requestCount + 1 }

theorem key_again (row : RateBucketRow) : row.again.key = row.key := rfl

end RateBucketRow

namespace PostgresRateLimiter

/-- The largest `integer`. -/
def maxInteger : ℕ := 2147483647

/-- `insert into rate_limit_buckets … on conflict do update … returning request_count`. -/
def countRequest (keyHash : String) (currentWindow currentReset : ℤ) (rows : List RateBucketRow) :
    Option (ℕ × List RateBucketRow) :=
  let row : RateBucketRow := ⟨keyHash, currentWindow, 1, currentReset + 60000000⟩
  let after := Table.upsert RateBucketRow.key RateBucketRow.again rows row
  (after.find? fun other => other.key = row.key).bind fun counted =>
    if maxInteger < counted.requestCount then none else some (counted.requestCount, after)

/-- The answer to the `count`-th request of a window. -/
def answer (limit count : ℕ) (currentReset : ℤ) : RateLimitResult :=
  ⟨count ≤ limit, limit - count, currentReset / 1000⟩

/-- `app.consume_rate_limit(…)`, where `clock_timestamp()` is `now`: the count, the answer and the
rows, or `none` where it raises an exception. -/
def consumeRateLimit (now : ℤ) (keyHash : String) (limit windowMs : ℕ)
    (rows : List RateBucketRow) : Option (ℕ × RateLimitResult × List RateBucketRow) :=
  if limit < 1 ∨ windowMs < 1000 ∨ maxInteger < limit ∨ maxInteger < windowMs then none
  else
    let currentWindow := FixedWindow.start (windowMs * 1000) now
    let currentReset := currentWindow + windowMs * 1000
    (countRequest keyHash currentWindow currentReset rows).map fun counted =>
      (counted.1, answer limit counted.1 currentReset, counted.2)

end PostgresRateLimiter

/-! ### Runs -/

/-- A deployment: its callers share a window, and a statement is cancelled before maintenance may
delete the row that it counts in. -/
structure RatePolicy where
  sha256 : String → String
  windowMs : ℕ
  statementTimeoutMs : ℕ
  windowMs_pos : 0 < windowMs
  statementTimeoutMs_le : statementTimeoutMs ≤ 60000

/-- A call of `consume` for a request, which has read the clock. -/
structure RateCall where
  owner : ℕ
  key : String
  limit : ℕ
  readAt : ℤ
deriving Repr, DecidableEq

/-- A call that was counted; its answer may have been lost. -/
structure RateEntry where
  call : RateCall
  count : ℕ
  result : RateLimitResult
  answered : Bool
deriving Repr, DecidableEq

/-- The limiter, with the calls that are under way. -/
structure RateRun where
  clock : ℤ
  rows : List RateBucketRow
  pending : List RateCall
  counted : List RateEntry

inductive RateStep where
  | advance (microseconds : ℕ)
  | call (owner : ℕ) (key : String) (limit : ℕ)
  | execute (i : ℕ) (answered : Bool)
  /-- The connection is lost, or the statement is cancelled. -/
  | abandon (i : ℕ)
  /-- `delete from rate_limit_buckets where expires_at < now()`, in a transaction that has started
  at `now`. -/
  | maintain (now : ℤ)

namespace RatePolicy

variable (policy : RatePolicy)

/-- The width of a window, in microseconds. -/
def width : ℕ := policy.windowMs * 1000

theorem width_pos : 0 < policy.width := Nat.mul_pos policy.windowMs_pos (by decide)

/-- The window that a time lies in. -/
def window (t : ℤ) : ℤ := FixedWindow.start policy.width t

/-- The row that a call is counted in. -/
def bucket (call : RateCall) : String × ℤ := (policy.sha256 call.key, policy.window call.readAt)

/-- When maintenance may delete the row of a window. -/
def expiry (window : ℤ) : ℤ := window + policy.width + 60000000

end RatePolicy

namespace RateRun

variable (policy : RatePolicy) (s : RateRun)

/-- The upsert of the `i`-th call; a call that takes too long has been cancelled. -/
def execute (i : ℕ) (answered : Bool) : Option RateRun :=
  (s.pending[i]?).bind fun call =>
    if call.readAt + policy.statementTimeoutMs * 1000 < s.clock then none
    else
      match PostgresRateLimiter.consumeRateLimit call.readAt (policy.sha256 call.key) call.limit
          policy.windowMs s.rows with
      | none => some { s with pending := s.pending.eraseIdx i }
      | some (count, result, rows) =>
          some
            { s with
              rows := rows
              pending := s.pending.eraseIdx i
              counted := ⟨call, count, result, answered⟩ :: s.counted }

def step : RateStep → Option RateRun
  | .advance microseconds => some { s with clock := s.clock + microseconds }
  | .call owner key limit => some { s with pending := s.pending ++ [⟨owner, key, limit, s.clock⟩] }
  | .execute i answered => s.execute policy i answered
  | .abandon i => some { s with pending := s.pending.eraseIdx i }
  | .maintain now =>
      if now ≤ s.clock then some { s with rows := s.rows.filter fun row => ¬ row.expiresAt < now }
      else none

def start (clock : ℤ) : RateRun := ⟨clock, [], [], []⟩

/-- The states of all runs. -/
def Reached : RateRun → Prop :=
  Transition.Reachable (fun s => ∃ clock, s = start clock) fun s => step policy s

/-! ### One call -/

variable {policy} {s} {t : RateRun}

/-- How many calls a row has counted. -/
def countIn (policy : RatePolicy) (counted : List RateEntry) (bucket : String × ℤ) : ℕ :=
  counted.countP fun e => policy.bucket e.call = bucket

/-- The table, as far as it has not forgotten. -/
structure Stored (policy : RatePolicy) (clock : ℤ) (rows : List RateBucketRow)
    (counted : List RateEntry) : Prop where
  unique : (rows.map RateBucketRow.key).Nodup
  counts : ∀ row ∈ rows, row.requestCount = countIn policy counted row.key ∧
    row.expiresAt = policy.expiry row.windowStart
  /-- Only rows that have expired are gone. -/
  kept : ∀ e ∈ counted, (∃ row ∈ rows, row.key = policy.bucket e.call) ∨
    policy.expiry (policy.window e.call.readAt) < clock

section Count

variable {clock : ℤ} {rows : List RateBucketRow} {counted : List RateEntry}

/-- A window without a row has counted nothing, unless it has expired. -/
theorem Stored.countIn_eq_zero (h : Stored policy clock rows counted) {bucket : String × ℤ}
    (hlive : clock ≤ policy.expiry bucket.2) (hnone : ∀ row ∈ rows, row.key ≠ bucket) :
    countIn policy counted bucket = 0 := by
  refine List.countP_eq_zero.mpr fun e he hbucket => ?_
  obtain rfl : policy.bucket e.call = bucket := of_decide_eq_true hbucket
  obtain ⟨row, hrow, hkey⟩ | hexpired := h.kept e he
  · exact hnone row hrow hkey
  · have hlive : clock ≤ policy.expiry (policy.window e.call.readAt) := hlive
    omega

/-- A call in a window that has not expired is told its rank. -/
theorem countRequest_eq {keyHash : String} {window : ℤ} {count : ℕ} {after : List RateBucketRow}
    (h : Stored policy clock rows counted) (hlive : clock ≤ policy.expiry window)
    (hcount : PostgresRateLimiter.countRequest keyHash window (window + policy.width) rows =
      some (count, after)) :
    count = countIn policy counted (keyHash, window) + 1 ∧
      after = Table.upsert RateBucketRow.key RateBucketRow.again rows
        ⟨keyHash, window, 1, policy.expiry window⟩ := by
  obtain ⟨found, hfound, hreturned⟩ := Option.bind_eq_some_iff.mp hcount
  split at hreturned
  · cases hreturned
  · cases hreturned
    refine ⟨?_, rfl⟩
    rw [Table.find?_upsert fun old _ hkey => old.key_again.trans hkey, if_pos rfl] at hfound
    obtain rfl := Option.some.inj hfound
    have hread : ∀ found : Option RateBucketRow,
        (rows.find? fun row => row.key = (keyHash, window)) = found →
        (found.elim ⟨keyHash, window, 1, policy.expiry window⟩ RateBucketRow.again).requestCount =
          countIn policy counted (keyHash, window) + 1 := by
      rintro (_ | old) hold
      · have hzero : countIn policy counted (keyHash, window) = 0 :=
          h.countIn_eq_zero hlive fun row hrow hkey =>
            List.find?_eq_none.mp hold row hrow (decide_eq_true hkey)
        rw [hzero]
        rfl
      · have hkey : old.key = (keyHash, window) := by simpa using List.find?_some hold
        rw [← hkey, ← (h.counts old (List.mem_of_find?_eq_some hold)).1]
        rfl
    exact hread _ rfl

theorem countIn_cons {e : RateEntry} {bucket : String × ℤ} :
    countIn policy (e :: counted) bucket =
      countIn policy counted bucket + if policy.bucket e.call = bucket then 1 else 0 := by
  unfold countIn
  rw [List.countP_cons]
  simp only [decide_eq_true_eq]

/-- The table after a call that was counted. -/
theorem Stored.count {e : RateEntry} (h : Stored policy clock rows counted)
    (hlive : clock ≤ policy.expiry (policy.window e.call.readAt)) :
    Stored policy clock
      (Table.upsert RateBucketRow.key RateBucketRow.again rows
        ⟨policy.sha256 e.call.key, policy.window e.call.readAt, 1,
          policy.expiry (policy.window e.call.readAt)⟩)
      (e :: counted) := by
  refine ⟨Table.nodup_key_upsert h.unique fun old _ hkey => old.key_again.trans hkey, ?_, ?_⟩
  · intro row hrow
    rw [countIn_cons]
    rcases Table.mem_upsert.mp hrow with ⟨hold, hdiff⟩ | ⟨old, hold, hsame, rfl⟩ | ⟨hall, rfl⟩
    · rw [if_neg fun heq => hdiff heq.symm]
      exact h.counts row hold
    · obtain ⟨hcount, hexpires⟩ := h.counts old hold
      have hbucket : policy.bucket e.call = old.key := hsame.symm
      refine ⟨?_, hexpires⟩
      show old.requestCount + 1 = countIn policy counted old.key + if _ = old.key then 1 else 0
      rw [if_pos hbucket, hcount]
    · -- the first call that the window counts
      have hzero : countIn policy counted (policy.bucket e.call) = 0 :=
        h.countIn_eq_zero hlive hall
      refine ⟨?_, rfl⟩
      show 1 = countIn policy counted (policy.bucket e.call) + if _ = policy.bucket e.call then 1 else 0
      rw [if_pos rfl, hzero]
  · -- an upsert deletes no key
    have hkeys : ∀ row ∈ rows, ∃ after ∈ Table.upsert RateBucketRow.key RateBucketRow.again rows
        ⟨policy.sha256 e.call.key, policy.window e.call.readAt, 1,
          policy.expiry (policy.window e.call.readAt)⟩, after.key = row.key := by
      intro row hrow
      by_cases hsame : row.key = policy.bucket e.call
      · exact ⟨_, Table.mem_upsert.mpr (.inr (.inl ⟨row, hrow, hsame, rfl⟩)), rfl⟩
      · exact ⟨row, Table.mem_upsert.mpr (.inl ⟨hrow, hsame⟩), rfl⟩
    intro other hother
    rcases List.mem_cons.mp hother with rfl | hold
    · by_cases hany : ∃ row ∈ rows, row.key = policy.bucket other.call
      · obtain ⟨row, hrow, hkey⟩ := hany
        obtain ⟨after, hafter, hsame⟩ := hkeys row hrow
        exact .inl ⟨after, hafter, hsame.trans hkey⟩
      · refine .inl ⟨_, Table.mem_upsert.mpr (.inr (.inr ⟨?_, rfl⟩)), rfl⟩
        exact fun row hrow hkey => hany ⟨row, hrow, hkey⟩
    · refine (h.kept other hold).imp_left ?_
      rintro ⟨row, hrow, hkey⟩
      obtain ⟨after, hafter, hsame⟩ := hkeys row hrow
      exact ⟨after, hafter, hsame.trans hkey⟩

/-- Maintenance deletes rows that have expired. -/
theorem Stored.maintain {now : ℤ} (h : Stored policy clock rows counted) (hnow : now ≤ clock) :
    Stored policy clock (rows.filter fun row => ¬ row.expiresAt < now) counted := by
  refine ⟨Table.nodup_key_filter h.unique _, fun row hrow => h.counts row (List.mem_of_mem_filter hrow),
    fun e he => ?_⟩
  obtain ⟨row, hrow, hkey⟩ | hexpired := h.kept e he
  · by_cases hgone : row.expiresAt < now
    · right
      have hwindow : row.windowStart = policy.window e.call.readAt := congrArg Prod.snd hkey
      rw [(h.counts row hrow).2, hwindow] at hgone
      omega
    · exact .inl ⟨row, List.mem_filter.mpr ⟨hrow, by simpa using hgone⟩, hkey⟩
  · exact .inr hexpired

end Count

/-! ### Runs -/

/-- What holds in every state of every run. -/
structure Inv (policy : RatePolicy) (s : RateRun) : Prop where
  stored : Stored policy s.clock s.rows s.counted
  pending : ∀ call ∈ s.pending, call.readAt ≤ s.clock
  ranks : FixedWindow.Counted (fun e : RateEntry => policy.bucket e.call) RateEntry.count s.counted
  answers : ∀ e ∈ s.counted, e.result = PostgresRateLimiter.answer e.call.limit e.count
    (policy.window e.call.readAt + policy.width)

theorem inv_start {clock : ℤ} : (start clock).Inv policy where
  stored := ⟨List.nodup_nil, fun _ h => (nomatch h), fun _ h => (nomatch h)⟩
  pending := fun _ h => nomatch h
  ranks := trivial
  answers := fun _ h => nomatch h

/-- A statement that is not cancelled counts before its row may be deleted. -/
theorem clock_le_expiry {call : RateCall}
    (h : ¬ call.readAt + policy.statementTimeoutMs * 1000 < s.clock) :
    s.clock ≤ policy.expiry (policy.window call.readAt) := by
  have hstart := FixedWindow.lt_start_add policy.width_pos call.readAt
  have htimeout := policy.statementTimeoutMs_le
  show s.clock ≤ FixedWindow.start policy.width call.readAt + policy.width + 60000000
  omega

theorem Inv.execute {i : ℕ} {answered : Bool} (h : s.Inv policy)
    (hstep : s.execute policy i answered = some t) : t.Inv policy := by
  obtain ⟨call, hcall, hstep⟩ := Option.bind_eq_some_iff.mp hstep
  have hpending : ∀ other ∈ s.pending.eraseIdx i, other.readAt ≤ s.clock :=
    fun other hother => h.pending other (List.mem_of_mem_eraseIdx hother)
  split at hstep
  · cases hstep
  · rename_i htime
    have hlive := clock_le_expiry htime
    split at hstep
    · cases hstep
      exact { h with pending := hpending }
    · rename_i count result rows hconsume
      cases hstep
      unfold PostgresRateLimiter.consumeRateLimit at hconsume
      split at hconsume
      · cases hconsume
      · obtain ⟨out, hout, heq⟩ := Option.map_eq_some_iff.mp hconsume
        cases heq
        obtain ⟨hcount, hrows⟩ := countRequest_eq h.stored hlive
          (show PostgresRateLimiter.countRequest (policy.sha256 call.key) _ (_ + policy.width) _ = _
            from hout)
        constructor
        · show Stored policy s.clock out.2 _
          rw [hrows]
          exact @Stored.count policy _ _ _ ⟨call, out.1, _, answered⟩ h.stored hlive
        · exact hpending
        · exact ⟨hcount, h.ranks⟩
        · intro e he
          rcases List.mem_cons.mp he with rfl | hold
          · rfl
          · exact h.answers e hold

theorem Inv.step {label : RateStep} (h : s.Inv policy) (hstep : step policy s label = some t) :
    t.Inv policy := by
  cases label with
  | advance microseconds =>
      cases hstep
      have hclock : s.clock ≤ s.clock + microseconds := by omega
      refine { h with stored := { h.stored with kept := fun e he => ?_ }, pending := fun call hcall => ?_ }
      · exact (h.stored.kept e he).imp_right fun hexpired => hexpired.trans_le hclock
      · exact (h.pending call hcall).trans hclock
  | call owner key limit =>
      cases hstep
      refine { h with pending := fun call hcall => ?_ }
      rcases List.mem_append.mp hcall with hold | hnew
      · exact h.pending call hold
      · rw [List.mem_singleton.mp hnew]
  | execute i answered => exact h.execute hstep
  | abandon i =>
      cases hstep
      exact { h with pending := fun call hcall => h.pending call (List.mem_of_mem_eraseIdx hcall) }
  | maintain now =>
      obtain ⟨hnow, heq⟩ := Option.ite_none_right_eq_some.mp hstep
      cases heq
      exact { h with stored := h.stored.maintain hnow }

theorem Reached.inv (h : Reached policy s) : s.Inv policy := by
  refine Transition.Reachable.invariant ?_ ?_ h
  · rintro s ⟨clock, rfl⟩
    exact inv_start
  · intro s label t _ hs hstep
    exact hs.step hstep

/-- The calls of a key, with a limit, that were let pass. -/
def passed (policy : RatePolicy) (keyHash : String) (limit : ℕ) (e : RateEntry) : Bool :=
  policy.sha256 e.call.key = keyHash ∧ e.call.limit = limit ∧ e.result.allowed

/-- A call is let pass exactly if its rank is within its limit. -/
theorem Inv.allowed_iff (h : s.Inv policy) {e : RateEntry} (he : e ∈ s.counted) :
    e.result.allowed ↔ e.count ≤ e.call.limit := by
  rw [h.answers e he]
  exact decide_eq_true_iff

/-- No more calls than the limit pass in a window. -/
theorem Inv.passed_window_le (h : s.Inv policy) (keyHash : String) (limit : ℕ) (window : ℤ) :
    (s.counted.countP fun e => passed policy keyHash limit e &&
      decide (policy.window e.call.readAt = window)) ≤ limit := by
  refine le_trans (List.countP_mono_left fun e he hpassed => ?_)
    ((h.ranks.countP_allowed (keyHash, window) limit).trans_le (Nat.min_le_left _ _))
  obtain ⟨hpassed, hwindow⟩ := Bool.and_eq_true_iff.mp hpassed
  obtain ⟨hkey, hlimit, hallowed⟩ := of_decide_eq_true hpassed
  have hrank := hlimit ▸ (h.allowed_iff he).mp hallowed
  exact Bool.and_eq_true_iff.mpr
    ⟨decide_eq_true (Prod.ext hkey (of_decide_eq_true hwindow)), decide_eq_true hrank⟩

theorem Inv.passed_interval_le (h : s.Inv policy) (keyHash : String) (limit : ℕ) (a : ℤ) (k : ℕ) :
    (s.counted.countP fun e => passed policy keyHash limit e &&
      decide (a ≤ e.call.readAt ∧ e.call.readAt < a + k * policy.width)) ≤ (k + 1) * limit :=
  FixedWindow.countP_interval_le policy.width_pos (h.passed_window_le keyHash limit) a k

/-- **The limiter.**  Of the calls of a key that have read the clock in a window, the first are let
pass, as many as the limit of the key, and no others; and so in an interval as long as `k` windows,
wherever it begins, no more than `k + 1` times as many. -/
theorem limiter_exact (h : Reached policy s) {keyHash : String} {limit : ℕ}
    (hlimit : ∀ e ∈ s.counted, policy.sha256 e.call.key = keyHash → e.call.limit = limit) :
    (∀ window, (s.counted.countP fun e => passed policy keyHash limit e &&
        decide (policy.window e.call.readAt = window)) =
      min limit (countIn policy s.counted (keyHash, window))) ∧
    ∀ (a : ℤ) (k : ℕ), (s.counted.countP fun e => passed policy keyHash limit e &&
        decide (a ≤ e.call.readAt ∧ e.call.readAt < a + k * policy.width)) ≤ (k + 1) * limit := by
  have hinv := h.inv
  refine ⟨fun window => ?_, hinv.passed_interval_le keyHash limit⟩
  unfold countIn
  rw [← hinv.ranks.countP_allowed (keyHash, window) limit]
  refine List.countP_congr fun e he => ?_
  unfold passed RatePolicy.bucket
  simp only [Bool.and_eq_true, decide_eq_true_eq, Prod.mk.injEq, hinv.allowed_iff he]
  constructor
  · rintro ⟨⟨hkey, hown, hrank⟩, hwindow⟩
    exact ⟨⟨hkey, hwindow⟩, hown ▸ hrank⟩
  · rintro ⟨⟨hkey, hwindow⟩, hrank⟩
    have hown := hlimit e he hkey
    exact ⟨⟨hkey, hown, hown.symm ▸ hrank⟩, hwindow⟩

/-- The window and the timeout of the deployment. -/
def minutePolicy : RatePolicy := ⟨fun key => key, 60000, 5000, by decide, by decide⟩

/-- Two calls of a key, which overtake each other. -/
def overtaken : RateRun :=
  (Transition.exec (step minutePolicy) (start 0)
    [.call 1 "user:t:alice" 1, .advance 10, .call 2 "user:t:alice" 1, .execute 1 true,
      .execute 0 true]).get rfl

theorem limiter_exact_overtaken : (overtaken.counted.countP fun e =>
    passed minutePolicy "user:t:alice" 1 e && decide (minutePolicy.window e.call.readAt = 0)) = 1 := by
  have hreached : Reached minutePolicy overtaken :=
    Transition.Reachable.of_exec (.start ⟨0, rfl⟩) (Option.some_get _).symm
  exact ((limiter_exact hreached (by decide)).1 0).trans (by decide)

end RateRun

end RecruitingOs
