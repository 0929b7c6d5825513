import Mathlib.Algebra.Order.Field.Rat
import Mathlib.Tactic.Linarith
import RecruitingOs.Lib.CircuitBreaker
import RecruitingOs.Outbound.BoundedBody

/-!
# Calls of providers

`ProviderHttpClient` of `src/infrastructure/outbound-http/provider-http-client.ts`: a loop of
attempts behind a circuit breaker.  The calls of a client come one after another; what the transport
does in each attempt and what the clock reads are parameters of a call.  The breaker is the one of
`CircuitBreaker`, over the history of the calls (`circuit_kept`).
-/

namespace RecruitingOs.Provider

open BoundedBody (BodyError ByteStream)

/-- `new URL`, `Number` and `Date.parse`, the latter two where they are finite. -/
structure ProviderPlatform extends Platform where
  parseDate : String → Option ℤ

/-- What is thrown in an attempt: an `Error`, or another value. -/
inductive Thrown
  | error (e : BodyError)
  | value
deriving DecidableEq, Repr

/-- What the transport does in an attempt, and the clock when a delay is computed from it. -/
structure Attempt where
  answer : Except Thrown BoundedBody.Response
  now : ℚ

/-- The options of a client, with their defaults. -/
structure ProviderHttpClient where
  allowedHosts : List String
  maxAttempts : ℕ := 3
  maxResponseBytes : ℕ := 6000000

/-- What happens in an attempt. -/
inductive ProviderEvent
  | called
  | threw (thrown : Thrown)
  | waited (milliseconds : ℚ)
deriving DecidableEq, Repr

/-- `retryDelayMs(value, attempt, now)`. -/
def retryDelayMs (platform : ProviderPlatform) (value : Option String) (attempt : ℕ) (now : ℚ) :
    ℚ :=
  let fallback : ℚ := min 5000 (250 * 2 ^ (attempt - 1))
  match value.filter (· ≠ "") with
  | none => fallback
  | some value =>
      match (platform.number value).filter (0 ≤ ·) with
      | some seconds => min 5000 (seconds * 1000)
      | none =>
          match platform.parseDate value with
          | some date => min 5000 (max 0 (date - now))
          | none => fallback

abbrev Next := BoundedLoop.Next (Option Thrown) (Except (Option Thrown) BoundedResponse)

/-- The `catch` of an attempt; after the last one the loop has ended. -/
def caught (client : ProviderHttpClient) (attempt : ℕ) (thrown : Thrown) :
    List ProviderEvent × Next :=
  if thrown = .error .sizeLimit then ([.threw thrown], .done (.error (some thrown)))
  else if attempt < client.maxAttempts then
    ([.threw thrown, .waited (min 1000 (100 * 2 ^ (attempt - 1)))], .again (some thrown))
  else ([.threw thrown], .done (.error (some thrown)))

/-- The `try` of an attempt, after the transport has answered. -/
def tried (platform : ProviderPlatform) (client : ProviderHttpClient) (url : FetchUrl)
    (attempt : ℕ) (a : Attempt) : List ProviderEvent × Next :=
  match a.answer with
  | .error thrown => caught client attempt thrown
  | .ok response =>
      if response.status = 429 ∨ 500 ≤ response.status then
        let unavailable : Thrown :=
          .error (.other ("Provider unavailable: " ++ toString response.status))
        match response.body.map ByteStream.cancel with
        | some (.error message) => caught client attempt (.error (.other message))
        | _ =>
            if attempt < client.maxAttempts then
              ([.waited (retryDelayMs platform (response.headers.get? "retry-after") attempt a.now)],
                .again (some unavailable))
            else caught client attempt unavailable
      else
        match BoundedBody.boundedResponse platform.number response client.maxResponseBytes
            (some url.href) with
        | .error e => caught client attempt (.error e)
        | .ok bounded => ([], .done (.ok bounded))

/-- An iteration of the loop; `lastError` is that of the attempt before. -/
def attemptRound (platform : ProviderPlatform) (client : ProviderHttpClient) (url : FetchUrl)
    (attempts : ℕ → Attempt) (attempt : ℕ) (_lastError : Option Thrown) :
    List ProviderEvent × Next :=
  (.called :: (tried platform client url attempt (attempts attempt)).1,
    (tried platform client url attempt (attempts attempt)).2)

/-- The fields of a client that change. -/
structure ProviderState where
  failures : ℕ := 0
  circuitOpenUntil : ℚ := 0
deriving DecidableEq

/-- A call: what is asked for, the clock at its two readings outside of the attempts, and the
attempts.  The second reading is made when the circuit opens. -/
structure ProviderCall where
  input : String
  checkedAt : ℚ
  attempts : ℕ → Attempt
  failedAt : ℚ

/-- What a call rejects with. -/
inductive ProviderError
  | invalidUrl
  | notAllowlisted
  | circuitOpen
  | failed (lastError : Option Thrown)
deriving DecidableEq

/-- `error.message`. -/
def ProviderError.message : ProviderError → String
  | .invalidUrl => "Invalid URL"
  | .notAllowlisted => "Provider URL is not allowlisted"
  | .circuitOpen => "Provider circuit is open"
  | .failed (some (.error e)) => e.message
  | .failed _ => "Provider request failed"

/-- The outcome of a call: the events of its attempts, its result, and the state after it. -/
structure CallResult where
  rounds : List (List ProviderEvent)
  result : Except ProviderError BoundedResponse
  state : ProviderState

/-- The failure of a call is counted. -/
def countFailure (s : ProviderState) (failedAt : ℚ) : ProviderState :=
  if 5 ≤ s.failures + 1 then { failures := 0, circuitOpenUntil := failedAt + 30000 }
  else { s with failures := s.failures + 1 }

/-- The URL is of the provider. -/
def allowed (client : ProviderHttpClient) (url : FetchUrl) : Bool :=
  url.protocol = "https:" ∧
    String.ofList (url.hostname.toList.map Char.toLower) ∈ client.allowedHosts

/-- `fetch(input, init)`. -/
def fetch (platform : ProviderPlatform) (client : ProviderHttpClient) (s : ProviderState)
    (call : ProviderCall) : CallResult :=
  match platform.parseUrl call.input none with
  | none => ⟨[], .error .invalidUrl, s⟩
  | some url =>
      if ¬ allowed client url then ⟨[], .error .notAllowlisted, s⟩
      else if call.checkedAt < s.circuitOpenUntil then ⟨[], .error .circuitOpen, s⟩
      else
        let (rounds, result) := BoundedLoop.run (attemptRound platform client url call.attempts)
          (.error none) client.maxAttempts 1 none
        match result with
        | .ok bounded => ⟨rounds, .ok bounded, { s with failures := 0 }⟩
        | .error lastError => ⟨rounds, .error (.failed lastError), countFailure s call.failedAt⟩

/-- A call in its state, with its outcome. -/
structure CallRecord where
  before : ProviderState
  call : ProviderCall
  outcome : CallResult

/-- Calls one after another. -/
def runCalls (platform : ProviderPlatform) (client : ProviderHttpClient) :
    ProviderState → List ProviderCall → List CallRecord
  | _, [] => []
  | s, call :: calls =>
      ⟨s, call, fetch platform client s call⟩ ::
        runCalls platform client (fetch platform client s call).state calls

/-! ### Attempts -/

variable {platform : ProviderPlatform} {client : ProviderHttpClient} {url : FetchUrl}
  {attempt : ℕ} {a : Attempt} {thrown : Thrown}

/-- What an attempt waits. -/
def waitedIn (events : List ProviderEvent) : ℚ :=
  (events.map fun
    | .waited milliseconds => milliseconds
    | _ => 0).sum

theorem retryDelayMs_le (platform : ProviderPlatform) (value : Option String) (attempt : ℕ)
    (now : ℚ) : retryDelayMs platform value attempt now ≤ 5000 := by
  unfold retryDelayMs
  dsimp only
  split
  · exact min_le_left _ _
  · split
    · exact min_le_left _ _
    · split
      · exact min_le_left _ _
      · exact min_le_left _ _

/-- What every attempt keeps after the call of the transport: no other call, a short wait, and no
further attempt after a body that is too large. -/
structure TriedKept (events : List ProviderEvent) (next : Next) : Prop where
  calls : events.count .called = 0
  waits : waitedIn events ≤ 5000
  sizeLimit : ∀ lastError, next = .again lastError → .threw (.error .sizeLimit) ∉ events

theorem caught_kept (client : ProviderHttpClient) (attempt : ℕ) (thrown : Thrown) :
    TriedKept (caught client attempt thrown).1 (caught client attempt thrown).2 := by
  unfold caught
  split
  · refine ⟨by simp, by simp [waitedIn], fun lastError h => by cases h⟩
  · rename_i hother
    split
    · refine ⟨by simp, ?_, fun lastError _ hmem => ?_⟩
      · have hwait : min (1000 : ℚ) (100 * 2 ^ (attempt - 1)) ≤ 1000 := min_le_left _ _
        simp only [waitedIn, List.map_cons, List.map_nil, List.sum_cons, List.sum_nil]
        linarith
      · simp only [List.mem_cons, List.not_mem_nil, or_false, reduceCtorEq,
          ProviderEvent.threw.injEq] at hmem
        exact hother hmem.symm
    · exact ⟨by simp, by simp [waitedIn], fun lastError h => by cases h⟩

theorem tried_kept (platform : ProviderPlatform) (client : ProviderHttpClient) (url : FetchUrl)
    (attempt : ℕ) (a : Attempt) :
    TriedKept (tried platform client url attempt a).1 (tried platform client url attempt a).2 := by
  unfold tried
  split
  · exact caught_kept client attempt _
  · split
    · dsimp only
      split
      · exact caught_kept client attempt _
      · split
        · refine ⟨by simp, ?_, fun lastError _ => by simp⟩
          simp only [waitedIn, List.map_cons, List.map_nil, List.sum_cons, List.sum_nil, add_zero]
          exact retryDelayMs_le platform _ attempt _
        · exact caught_kept client attempt _
    · split
      · exact caught_kept client attempt _
      · exact ⟨by simp, by simp [waitedIn], fun lastError _ => by simp⟩

/-- What the attempts of a call keep. -/
structure AttemptsKept (maxAttempts : ℕ) (rounds : List (List ProviderEvent)) : Prop where
  called : 1 ≤ rounds.flatten.count .called
  called_le : rounds.flatten.count .called ≤ maxAttempts
  waits : ∀ events ∈ rounds, waitedIn events ≤ 5000
  sizeLimit : ∀ i events, rounds[i]? = some events → .threw (.error .sizeLimit) ∈ events →
    i + 1 = rounds.length

theorem attempts_kept (platform : ProviderPlatform) (client : ProviderHttpClient) (url : FetchUrl)
    (attempts : ℕ → Attempt) (hattempts : 1 ≤ client.maxAttempts) :
    AttemptsKept client.maxAttempts (BoundedLoop.run (attemptRound platform client url attempts)
      (.error none) client.maxAttempts 1 none).1 := by
  have htried (n : ℕ) := tried_kept platform client url n (attempts n)
  have hone (n : ℕ) (s : Option Thrown) :
      (attemptRound platform client url attempts n s).1.count .called = 1 := by
    rw [attemptRound, List.count_cons_self, (htried n).calls]
  refine ⟨?_, ?_, ?_, ?_⟩
  · obtain ⟨left, hleft⟩ := Nat.exists_eq_add_of_le' hattempts
    rw [hleft]
    obtain ⟨result, -, hrun⟩ | ⟨next, -, hrun⟩ := @BoundedLoop.run_succ_cases _ _ _
      (attemptRound platform client url attempts) (.error none) left 1 none
    all_goals
      rw [hrun, List.flatten_cons, List.count_append, hone]
      exact Nat.le_add_right 1 _
  · exact BoundedLoop.run_countP (fun n s => (hone n s).le) _ _ _
  · intro events hmem
    obtain ⟨i, hi⟩ := List.mem_iff_getElem?.mp hmem
    refine BoundedLoop.run_round (P := fun _ events => waitedIn events ≤ 5000) (fun n s => ?_) hi
    have hwaits := (htried n).waits
    simpa [attemptRound, waitedIn] using hwaits
  · intro i events hi hlimit
    refine BoundedLoop.run_last (P := fun events => .threw (.error .sizeLimit) ∈ events)
      (fun n s next hagain hmem => ?_) hi hlimit
    rcases List.mem_cons.mp hmem with hcalled | hmem
    · cases hcalled
    · exact (htried n).sizeLimit next hagain hmem

/-! ### Calls -/

/-- How a call counts for the breaker. -/
def CallRecord.ended (record : CallRecord) : CircuitBreaker.Outcome × ℚ :=
  match record.outcome.result with
  | .ok _ => (.succeeded, record.call.failedAt)
  | .error (.failed _) => (.failed, record.call.failedAt)
  | .error _ => (.skipped, record.call.failedAt)

/-- The state as one of a breaker. -/
def ProviderState.breaker (s : ProviderState) : CircuitBreaker.State ℚ :=
  ⟨s.failures, s.circuitOpenUntil⟩

/-- The URL of a call is one that is asked for. -/
def Allowed (platform : ProviderPlatform) (client : ProviderHttpClient) (call : ProviderCall) :
    Prop :=
  ∃ url, platform.parseUrl call.input none = some url ∧ allowed client url = true

variable {s : ProviderState} {call : ProviderCall}

/-- What a call does, in its state. -/
theorem fetch_cases (platform : ProviderPlatform) (client : ProviderHttpClient) (s : ProviderState)
    (call : ProviderCall) (hattempts : 1 ≤ client.maxAttempts) :
    (¬ Allowed platform client call ∧ ∃ error, fetch platform client s call = ⟨[], .error error, s⟩ ∧
      (error = .invalidUrl ∨ error = .notAllowlisted)) ∨
    (Allowed platform client call ∧ call.checkedAt < s.circuitOpenUntil ∧
      fetch platform client s call = ⟨[], .error .circuitOpen, s⟩) ∨
    (Allowed platform client call ∧ ¬ call.checkedAt < s.circuitOpenUntil ∧
      ∃ rounds, AttemptsKept client.maxAttempts rounds ∧
        ((∃ bounded, fetch platform client s call = ⟨rounds, .ok bounded, { s with failures := 0 }⟩) ∨
          ∃ lastError, fetch platform client s call =
            ⟨rounds, .error (.failed lastError), countFailure s call.failedAt⟩)) := by
  unfold fetch Allowed
  cases hurl : platform.parseUrl call.input none with
  | none =>
      refine .inl ⟨?_, _, rfl, .inl rfl⟩
      rintro ⟨url, h, -⟩
      cases h
  | some url =>
      dsimp only
      by_cases hallowed : allowed client url = true
      · rw [if_neg (not_not.mpr hallowed)]
        have hsome : ∃ url', some url = some url' ∧ allowed client url' = true :=
          ⟨url, rfl, hallowed⟩
        by_cases hopen : call.checkedAt < s.circuitOpenUntil
        · rw [if_pos hopen]
          exact .inr (.inl ⟨hsome, hopen, rfl⟩)
        · rw [if_neg hopen]
          refine .inr (.inr ⟨hsome, hopen, _,
            attempts_kept platform client url call.attempts hattempts, ?_⟩)
          cases (BoundedLoop.run (attemptRound platform client url call.attempts) (.error none)
            client.maxAttempts 1 none).2 with
          | ok bounded => exact .inl ⟨bounded, rfl⟩
          | error lastError => exact .inr ⟨lastError, rfl⟩
      · rw [if_pos hallowed]
        refine .inl ⟨?_, _, rfl, .inr rfl⟩
        rintro ⟨url', h, h'⟩
        obtain rfl := Option.some_inj.mp h
        exact hallowed h'

/-- A call moves the breaker as it ended. -/
theorem fetch_breaker (platform : ProviderPlatform) (client : ProviderHttpClient)
    (s : ProviderState) (call : ProviderCall) (hattempts : 1 ≤ client.maxAttempts) :
    (fetch platform client s call).state.breaker =
      s.breaker.step 5 30000 (CallRecord.ended ⟨s, call, fetch platform client s call⟩) := by
  obtain ⟨-, error, heq, herror⟩ | ⟨-, -, heq⟩ | ⟨-, -, rounds, -, heq⟩ :=
    fetch_cases platform client s call hattempts
  · rw [heq]
    rcases herror with rfl | rfl
    · rfl
    · rfl
  · rw [heq]
    rfl
  · rcases heq with ⟨bounded, heq⟩ | ⟨lastError, heq⟩
    · rw [heq]
      rfl
    · rw [heq]
      show (countFailure s call.failedAt).breaker = if 5 ≤ s.failures + 1 then _ else _
      unfold countFailure
      split
      · rfl
      · rfl

variable {calls : List ProviderCall} {k : ℕ} {record : CallRecord}

/-! ### Runs -/

theorem outcome_of_run (h : (runCalls platform client s calls)[k]? = some record) :
    record.outcome = fetch platform client record.before record.call := by
  induction calls generalizing s k with
  | nil => cases h
  | cons call calls ih =>
      cases k with
      | zero =>
          obtain rfl := Option.some_inj.mp h
          rfl
      | succ k => exact ih h

theorem map_call_runCalls (platform : ProviderPlatform) (client : ProviderHttpClient)
    (s : ProviderState) (calls : List ProviderCall) :
    (runCalls platform client s calls).map CallRecord.call = calls := by
  induction calls generalizing s with
  | nil => rfl
  | cons call calls ih => rw [runCalls, List.map_cons, ih]

/-- The history of a call: how those before it ended, the last one first. -/
def historyOf (records : List CallRecord) (k : ℕ) : List (CircuitBreaker.Outcome × ℚ) :=
  (records.take k).reverse.map CallRecord.ended

/-- The state of a call is that of the breaker after its history. -/
theorem breaker_of_run (hattempts : 1 ≤ client.maxAttempts)
    (h : (runCalls platform client s calls)[k]? = some record) :
    record.before.breaker = (historyOf (runCalls platform client s calls) k).foldr
      (fun x breaker => breaker.step 5 30000 x) s.breaker := by
  induction calls generalizing s k with
  | nil => cases h
  | cons call calls ih =>
      cases k with
      | zero =>
          obtain rfl := Option.some_inj.mp h
          rfl
      | succ k =>
          rw [ih h, fetch_breaker platform client s call hattempts, historyOf, historyOf, runCalls,
            List.take_succ_cons, List.reverse_cons, List.map_append, List.foldr_append]
          rfl

/-- The clock does not go back, over the readings of the calls. -/
def NonDecreasing (calls : List ProviderCall) : Prop :=
  (calls.flatMap fun call => [call.checkedAt, call.failedAt]).Pairwise (· ≤ ·)

instance (calls : List ProviderCall) : Decidable (NonDecreasing calls) :=
  inferInstanceAs (Decidable (List.Pairwise _ _))

theorem NonDecreasing.records (hclock : NonDecreasing calls) :
    (runCalls platform client s calls).Pairwise fun a b =>
      a.call.failedAt ≤ b.call.checkedAt ∧ a.call.failedAt ≤ b.call.failedAt := by
  have hpairs := (List.pairwise_flatMap.mp hclock).2
  rw [← map_call_runCalls platform client s calls, List.pairwise_map] at hpairs
  exact hpairs.imp fun h => ⟨h _ (by simp) _ (by simp), h _ (by simp) _ (by simp)⟩

theorem NonDecreasing.history (hclock : NonDecreasing calls) (k : ℕ) :
    (historyOf (runCalls platform client s calls) k).Pairwise fun later earlier =>
      earlier.2 ≤ later.2 := by
  have htime (r : CallRecord) : r.ended.2 = r.call.failedAt := by
    unfold CallRecord.ended
    split <;> rfl
  rw [historyOf, List.pairwise_map, List.pairwise_reverse]
  refine (hclock.records.sublist (List.take_sublist k _)).imp fun h => ?_
  rw [htime, htime]
  exact h.2

/-- An opening of the history is not after the call. -/
theorem NonDecreasing.opened_le (hclock : NonDecreasing calls)
    (h : (runCalls platform client s calls)[k]? = some record) {opened : ℚ}
    (hopened : CircuitBreaker.OpenedAt 5 (historyOf (runCalls platform client s calls) k) opened) :
    opened ≤ record.call.checkedAt := by
  obtain ⟨r, hr, hended⟩ := List.mem_map.mp hopened.mem
  have htime : r.call.failedAt = opened := by
    unfold CallRecord.ended at hended
    split at hended
    · cases hended
    · exact congrArg Prod.snd hended
    · cases hended
  have hprefix := hclock.records.sublist
    (List.take_sublist (k + 1) (runCalls platform client s calls))
  rw [List.take_add_one, h] at hprefix
  rw [← htime]
  exact ((List.pairwise_append.mp hprefix).2.2 r (List.mem_reverse.mp hr) record (by simp)).1

/-- What a call does, after a history of calls. -/
structure CircuitKept (platform : ProviderPlatform) (client : ProviderHttpClient)
    (history : List (CircuitBreaker.Outcome × ℚ)) (record : CallRecord) : Prop where
  rejected : ¬ Allowed platform client record.call →
    record.outcome.rounds = [] ∧ record.outcome.state = record.before
  refused : Allowed platform client record.call →
    (record.outcome.result = .error .circuitOpen ↔
      (∃ opened, CircuitBreaker.OpenedAt 5 history opened ∧ opened ≤ record.call.checkedAt ∧
        record.call.checkedAt < opened + 30000) ∨
      (¬ ∃ opened, CircuitBreaker.OpenedAt 5 history opened) ∧ record.call.checkedAt < 0)
  silent : record.outcome.result = .error .circuitOpen →
    record.outcome.rounds = [] ∧ record.outcome.state = record.before
  attempts : Allowed platform client record.call → record.outcome.result ≠ .error .circuitOpen →
    AttemptsKept client.maxAttempts record.outcome.rounds

/-- **The circuit** is open exactly during the thirty seconds after the fifth failed call since the
last success or opening, and before the first opening while the clock reads less than zero. -/
theorem circuit_kept (platform : ProviderPlatform) (client : ProviderHttpClient)
    (hattempts : 1 ≤ client.maxAttempts) (calls : List ProviderCall) (hclock : NonDecreasing calls)
    (k : ℕ) (record : CallRecord) (hrecord : (runCalls platform client {} calls)[k]? = some record) :
    CircuitKept platform client (historyOf (runCalls platform client {} calls) k) record := by
  have houtcome := outcome_of_run hrecord
  have hopen : record.call.checkedAt < record.before.circuitOpenUntil ↔
      (∃ opened, CircuitBreaker.OpenedAt 5 (historyOf (runCalls platform client {} calls) k) opened ∧
        opened ≤ record.call.checkedAt ∧ record.call.checkedAt < opened + 30000) ∨
      (¬ ∃ opened, CircuitBreaker.OpenedAt 5
        (historyOf (runCalls platform client {} calls) k) opened) ∧ record.call.checkedAt < 0 := by
    have hpast := @NonDecreasing.history platform client {} calls hclock k
    have hbreaker := (CircuitBreaker.foldr_step (by decide : 0 < 5) (30000 : ℚ) 0 hpast).2
      record.call.checkedAt
    have hstate : record.before.circuitOpenUntil = _ :=
      congrArg CircuitBreaker.State.openUntil (breaker_of_run hattempts hrecord)
    rw [hstate]
    refine hbreaker.trans (or_congr (exists_congr fun opened => ?_) Iff.rfl)
    exact and_congr_right fun hopened => (and_iff_right (hclock.opened_le hrecord hopened)).symm
  obtain ⟨hnot, error, heq, herror⟩ | ⟨hallowed, hrefused, heq⟩ |
      ⟨hallowed, hclosed, rounds, hrounds, heq⟩ :=
    fetch_cases platform client record.before record.call hattempts
  · rw [← houtcome] at heq
    refine ⟨fun _ => ?_, fun h => absurd h hnot, fun _ => ?_, fun h => absurd h hnot⟩
    · rw [heq]
      exact ⟨rfl, rfl⟩
    · rw [heq]
      exact ⟨rfl, rfl⟩
  · rw [← houtcome] at heq
    refine ⟨fun h => absurd hallowed h, fun _ => ?_, fun _ => ?_, fun _ h => absurd ?_ h⟩
    · rw [heq]
      exact iff_of_true rfl (hopen.mp hrefused)
    · rw [heq]
      exact ⟨rfl, rfl⟩
    · rw [heq]
  · have hresult : record.outcome.result ≠ .error .circuitOpen ∧ record.outcome.rounds = rounds := by
      rcases heq with ⟨bounded, heq⟩ | ⟨lastError, heq⟩
      · rw [houtcome, heq]
        exact ⟨fun h => (by cases h), rfl⟩
      · rw [houtcome, heq]
        exact ⟨fun h => (by cases h), rfl⟩
    refine ⟨fun h => absurd hallowed h, fun _ => ?_, fun h => absurd h hresult.1, fun _ _ => ?_⟩
    · exact iff_of_false hresult.1 fun h => hclosed (hopen.mpr h)
    · rw [hresult.2]
      exact hrounds

/-! ### A provider that is busy -/

def busyUrl : FetchUrl :=
  ⟨"https://api.example.com/data", "https:", "", "", "", "api.example.com"⟩

def busyPlatform : ProviderPlatform where
  parseUrl text _ := if text = "https://api.example.com/data" then some busyUrl else none
  number _ := none
  parseDate _ := none

def busyClient : ProviderHttpClient where
  allowedHosts := ["api.example.com"]

/-- A call while the provider answers that it is unavailable. -/
def busyCall (now : ℚ) : ProviderCall :=
  ⟨"https://api.example.com/data", now, fun _ => ⟨.ok ⟨503, "", "", .empty, none⟩, now⟩, now⟩

/-- The sixth call in a row is made while the circuit is open. -/
theorem circuit_kept_sixth :
    CircuitKept busyPlatform busyClient
      (historyOf (runCalls busyPlatform busyClient {} (List.replicate 6 (busyCall 1000))) 5)
      ((runCalls busyPlatform busyClient {} (List.replicate 6 (busyCall 1000))).get
        ⟨5, by decide⟩) :=
  circuit_kept busyPlatform busyClient (by decide) (List.replicate 6 (busyCall 1000)) (by decide) 5
    _ (List.getElem?_eq_getElem _)

/-- A clock that has not reached zero keeps the first call from being made. -/
theorem circuit_not_kept :
    ¬ ∀ (platform : ProviderPlatform) (client : ProviderHttpClient), 1 ≤ client.maxAttempts →
      ∀ calls, NonDecreasing calls → ∀ k record,
        (runCalls platform client {} calls)[k]? = some record →
          Allowed platform client record.call →
            (record.outcome.result = .error .circuitOpen ↔
              ∃ opened, CircuitBreaker.OpenedAt 5
                (historyOf (runCalls platform client {} calls) k) opened ∧
                  opened ≤ record.call.checkedAt ∧ record.call.checkedAt < opened + 30000) := by
  intro h
  have hallowed : Allowed busyPlatform busyClient (busyCall (-1)) :=
    ⟨busyUrl, rfl, by decide +kernel⟩
  have hearly : (busyCall (-1)).checkedAt < ({} : ProviderState).circuitOpenUntil := by decide
  have hfirst := h busyPlatform busyClient (by decide) [busyCall (-1)] (by decide) 0 _ rfl hallowed
  obtain ⟨hnot, -⟩ | ⟨-, -, heq⟩ | ⟨-, hlate, -⟩ :=
    fetch_cases busyPlatform busyClient {} (busyCall (-1)) (by decide)
  · exact hnot hallowed
  · obtain ⟨opened, hopened, -⟩ := hfirst.mp (congrArg CallResult.result heq)
    cases hopened
  · exact hlate hearly

end RecruitingOs.Provider
