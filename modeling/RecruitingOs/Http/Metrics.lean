import RecruitingOs.Http.Access

/-!
# The machine credential

The hook compares the `Authorization` header with `metricsBearerToken` only where the method
and the raw path are spelled `GET /metrics`.  The router sends more spellings to that handler
(`HEAD`, and paths with escapes), and those go on to the session: a session of any role serves
in place of the token (`metrics_bearer_iff`).
-/

namespace RecruitingOs

open Relational Routing

namespace Request

/-- The `Authorization` header is `Bearer ` and the configured token. -/
def Bears (config : HttpConfig) (request : Request) : Prop :=
  ∃ token, config.metricsBearerToken = some token ∧
    request.header "authorization" = some ("Bearer " ++ token)

/-- The request is spelled as the hook compares it. -/
def IsMetrics (request : Request) : Prop := request.method = "GET" ∧ request.path = "/metrics"

end Request

/-- A hash that tells the two tokens apart tells the header. -/
theorem bears_of_matches {config : HttpConfig} {sha256 : String → String} {request : Request}
    (hfree : CollisionFree sha256 ((bearerToken (request.header "authorization")).toList ++
      config.metricsBearerToken.toList))
    (h : secureTokenMatches sha256 (bearerToken (request.header "authorization"))
      config.metricsBearerToken) : request.Bears config := by
  unfold secureTokenMatches at h
  split at h
  · rename_i candidate token hcandidate htoken
    have hcandidate := (Option.filter_eq_some_iff.mp hcandidate).1
    have htoken := (Option.filter_eq_some_iff.mp htoken).1
    have hsame : candidate = token :=
      hfree candidate (by simp [hcandidate]) token (by simp [htoken]) (of_decide_eq_true h)
    obtain ⟨text, hheader, hprefix⟩ := Option.bind_eq_some_iff.mp hcandidate
    obtain ⟨rest, hrest, hcandidate⟩ := Option.map_eq_some_iff.mp hprefix
    have htext := List.isPrefixOf?_eq_some_iff_append_eq.mp hrest
    have hbearer : text = "Bearer " ++ candidate := by
      rw [← hcandidate]
      apply String.toList_injective
      simp [← htext]
    exact ⟨token, htoken, by rw [hheader, hbearer, hsame]⟩
  · cases h

namespace App

variable {ρ : Type} {app : App ρ} {db : Database} {clock : ℕ → ℤ} {request : Request}
  {s t : HookState ρ} {authentication : Option SessionAuthentication} {decoder : Decoder}

/-- Spelled so, a request passes only with the token. -/
theorem matches_of_isMetrics (hspelled : request.IsMetrics)
    (h : exec (app.onRequest db clock request) s = (.ok authentication, t)) :
    secureTokenMatches app.sha256 (bearerToken (request.header "authorization"))
      app.config.metricsBearerToken := by
  unfold onRequest at h
  dsimp only at h
  have hprobe : ¬ (request.method = "GET" ∧ request.path ∈ probePaths) := fun hboth =>
    absurd hboth.2 (by rw [hspelled.2]; decide)
  rw [if_neg hprobe,
    if_pos (show request.method = "GET" ∧ request.path = "/metrics" from hspelled)] at h
  by_contra hmatches
  rw [if_neg hmatches] at h
  cases h

end App

/-! ### A session in place of the token -/

/-- With a live session and no limit every request passes that is not spelled as the hook
compares it. -/
theorem onRequest_signedIn {config : HttpConfig} {sha256 : String → String} {request : Request}
    {presented : String} (hspelled : ¬ request.IsMetrics)
    (hsafe : request.method ∉ unsafeMethods)
    (hcookie : (request.cookies.lookup (sessionCookieName config)).filter (· ≠ "") =
      some presented) :
    ∃ authentication t, exec ((⟨config, sha256, openLimiter⟩ : App Unit).onRequest
      (signedIn (sha256 presented) "") (fun _ => 0) request) ⟨(), none⟩ = (.ok authentication, t) := by
  unfold App.onRequest
  dsimp only
  rw [if_neg (show ¬ (request.method = "GET" ∧ request.path = "/metrics") from hspelled)]
  split
  · exact ⟨_, _, rfl⟩
  · split
    · exact ⟨_, _, rfl⟩
    · split
      · exact ⟨_, _, rfl⟩
      · have hsession : SessionService.authenticate sha256 (signedIn (sha256 presented) "") 0
            (some presented) = some ⟨⟨"usr_1", "chapel-hill", "ses_1"⟩, "", 1⟩ := by
          have hnonempty := (Option.filter_eq_some_iff.mp hcookie).2
          unfold SessionService.authenticate
          rw [Option.filter_some, if_pos hnonempty]
          simp [Database.authenticateSession, signedIn, SessionRow.live]
        unfold App.authenticateRequest
        dsimp only
        rw [hcookie]
        dsimp only
        rw [hsession]
        refine ⟨some ⟨⟨"usr_1", "chapel-hill", "ses_1"⟩, "", 1⟩, ⟨(), some (0, 0)⟩, ?_⟩
        refine exec_bind_eq_ok.mpr ⟨⟨true, 0, 0⟩, ⟨(), none⟩, rfl, ?_⟩
        rw [if_pos rfl]
        refine exec_bind_eq_ok.mpr ⟨(), ⟨(), some (0, 0)⟩, rfl, ?_⟩
        rw [if_neg fun hmutates => hsafe hmutates.1]
        rfl

/-- **The machine credential.**  Whatever the sessions, the limiter and the clock are, the
handler of `/metrics` runs only with the token: this holds exactly of the requests that are
spelled `GET /metrics`, that go elsewhere, that have the token, or that have no session
cookie. -/
theorem metrics_bearer_iff {config : HttpConfig} {sha256 : String → String} {decoder : Decoder}
    {request : Request}
    (hfree : CollisionFree sha256 ((bearerToken (request.header "authorization")).toList ++
      config.metricsBearerToken.toList)) :
    (∀ (ρ : Type) (limiter : RateLimiter ρ) (db : Database) (clock : ℕ → ℤ) (s : HookState ρ),
      (⟨config, sha256, limiter⟩ : App ρ).Runs decoder db clock request s metricsRoute →
        request.Bears config) ↔
    request.IsMetrics ∨
      route decoder appRoutes request.method request.path.toList ≠ some metricsRoute ∨
      request.Bears config ∨
      (request.cookies.lookup (sessionCookieName config)).filter (· ≠ "") = none := by
  constructor
  · intro h
    by_contra hnone
    obtain ⟨hspelled, hroute, hbears, hcookie⟩ := by simpa only [not_or] using hnone
    obtain ⟨presented, hpresented⟩ := Option.ne_none_iff_exists'.mp hcookie
    have hroute := not_not.mp hroute
    have hserves : metricsRoute.serves request.method := (route_eq_some hroute).2.1
    have hsafe : request.method ∉ unsafeMethods := by
      have hmethod : request.method = "GET" ∨ request.method = "HEAD" := by
        simpa [Route.serves, metricsRoute] using hserves
      obtain hget | hhead := hmethod
      · rw [hget]
        decide
      · rw [hhead]
        decide
    exact hbears (h Unit openLimiter (signedIn (sha256 presented) "") (fun _ => 0) ⟨(), none⟩
      ⟨hroute, onRequest_signedIn hspelled hsafe hpresented⟩)
  · rintro h ρ limiter db clock s ⟨hroute, authentication, t, hhook⟩
    by_cases hspelled : request.IsMetrics
    · exact bears_of_matches hfree (App.matches_of_isMetrics hspelled hhook)
    · obtain helsewhere | hbears | hcookie :=
        h.resolve_left hspelled
      · exact absurd hroute helsewhere
      · exact hbears
      · obtain hexempt | ⟨presented, hlookup, hnonempty, -⟩ := App.onRequest_ok hhook
        · have hmetrics := (App.not_protected_of_exempt hexempt hroute).2.resolve_left
            (not_not.mpr rfl)
          exact absurd ⟨hmetrics.1, hmetrics.2.1⟩ hspelled
        · rw [hlookup] at hcookie
          simp [hnonempty] at hcookie

/-- A development configuration with a token for the metrics. -/
def metricsConfig : HttpConfig := ⟨false, some "metrics-test-token", 60, 20, 300⟩

/-- A student's request for `/metrics`, spelled in some way. -/
def studentRequest (method url : String) : Request :=
  ⟨method, url, "10.0.0.7", [("recruiting_session", "student-token")], []⟩

theorem metrics_bearer_canonical :
    (studentRequest "GET" "/metrics?format=text").IsMetrics ∧
      ∀ (ρ : Type) (limiter : RateLimiter ρ) (db : Database) (clock : ℕ → ℤ) (s : HookState ρ),
        (⟨metricsConfig, fun text => text, limiter⟩ : App ρ).Runs asciiDecoder db clock
            (studentRequest "GET" "/metrics?format=text") s metricsRoute →
          (studentRequest "GET" "/metrics?format=text").Bears metricsConfig := by
  have hspelled : (studentRequest "GET" "/metrics?format=text").IsMetrics :=
    ⟨rfl, by decide +kernel⟩
  exact ⟨hspelled, (metrics_bearer_iff (by decide +kernel)).mpr (.inl hspelled)⟩

/-- With one letter escaped, the session of a student serves in place of the token. -/
theorem metrics_without_bearer :
    (⟨metricsConfig, fun text => text, openLimiter⟩ : App Unit).Runs asciiDecoder
        (signedIn "student-token" "") (fun _ => 0) (studentRequest "GET" "/%6detrics")
        ⟨(), none⟩ metricsRoute ∧
      ¬ (studentRequest "GET" "/%6detrics").Bears metricsConfig := by
  refine ⟨⟨by decide +kernel, onRequest_signedIn ?_ (by decide) (by decide)⟩, ?_⟩
  · unfold Request.IsMetrics
    decide +kernel
  · rintro ⟨token, -, hheader⟩
    cases hheader

end RecruitingOs
