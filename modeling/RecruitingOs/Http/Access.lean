import Mathlib.Data.List.TakeWhile
import RecruitingOs.Http.App

/-!
# Who reaches a handler

The hook lets a request pass in two ways: its raw path exempts it (`App.Exempt`), or it has a
live session and every limit admits it (`App.Admitted`, `onRequest_ok`).  A path that exempts a
request is routed as it is spelled, and the routes that it reaches are none of the protected
ones (`not_protected_of_exempt`).
-/

namespace RecruitingOs

open Relational Routing

/-- A route under `/api`, without the provider callback, or `POST /auth/logout`. -/
def isProtected (route : Route) : Bool :=
  (("/api/".toList.isPrefixOf route.path.toList) ∧ route ≠ providerCallbackRoute) ∨
    route = logoutRoute

namespace App

variable {ρ : Type} {app : App ρ} {db : Database} {clock : ℕ → ℤ} {request : Request}
  {s t : HookState ρ} {authentication : Option SessionAuthentication} {decoder : Decoder}
  {handler : Route}

/-- The limiter lets a call pass, and goes on to `t`. -/
def Allows (app : App ρ) (now : ℤ) (key : String) (limit : ℕ) (s t : HookState ρ) : Prop :=
  ∃ rate, exec (app.consume now key limit) s = (.ok rate, t) ∧ rate.allowed

/-- The raw path exempts a request from a session. -/
def Exempt (app : App ρ) (request : Request) : Prop :=
  request.method = "GET" ∧ request.path ∈ probePaths ∨
  (request.method = "GET" ∧ request.path = "/metrics" ∧
    secureTokenMatches app.sha256 (bearerToken (request.header "authorization"))
      app.config.metricsBearerToken) ∨
  request.path ∈ authenticationPaths ∨
  request.method = "GET" ∧ isCallbackPath request.path ∨
  request.path ∈ publicPaths ∨ request.method = "OPTIONS"

/-- The request has a live session, both limits let it pass, and it proves its origin where its
method is unsafe. -/
def Admitted (app : App ρ) (db : Database) (clock : ℕ → ℤ) (request : Request)
    (s : HookState ρ) : Prop :=
  ∃ presented, request.cookies.lookup (sessionCookieName app.config) = some presented ∧
    presented ≠ "" ∧ ∃ row ∈ db.sessions, row.tokenHash = app.sha256 presented ∧ row.live db (clock 1) ∧
      (∃ t, app.Allows (clock 0) ("authenticated-ip:" ++ request.ip)
          app.config.authenticatedIpRequestsPerMinute s t ∧
        ∃ u, app.Allows (clock 2) ("user:" ++ row.tenantId ++ ":" ++ row.userId)
          app.config.requestsPerMinute t u) ∧
      (request.method ∈ unsafeMethods →
        ∃ token, request.header "x-csrf-token" = some token ∧ app.sha256 token = row.csrfHash)

/-! ### The hook -/

theorem limited_ok {now : ℤ} {key : String} {limit : ℕ}
    (h : exec (app.limited now key limit) s = (.ok (), t)) :
    ∃ u, app.Allows now key limit s u := by
  obtain ⟨rate, u, hconsume, hrest⟩ := exec_bind_eq_ok.mp h
  obtain ⟨_, v, _, hlast⟩ := exec_bind_eq_ok.mp hrest
  refine ⟨u, rate, hconsume, ?_⟩
  by_contra hallowed
  rw [if_neg hallowed] at hlast
  cases hlast

/-- A request without authentication does not pass. -/
theorem anonymous_ne_ok {α : Type} {now : ℤ} {a : α} :
    exec (app.anonymous now request) s ≠ (.ok a, t) := by
  intro h
  obtain ⟨_, u, _, hrest⟩ := exec_bind_eq_ok.mp h
  cases hrest

theorem grant_ok {now : ℤ} {session : SessionAuthentication}
    (h : exec (app.grant now request session) s = (.ok authentication, t)) :
    (∃ u, app.Allows now
      ("user:" ++ session.principal.tenantId ++ ":" ++ session.principal.userId)
      app.config.requestsPerMinute s u) ∧
    (request.method ∈ unsafeMethods →
      SessionService.verifyCsrf app.sha256 session (request.header "x-csrf-token")) := by
  obtain ⟨_, u, hlimited, hrest⟩ := exec_bind_eq_ok.mp h
  refine ⟨limited_ok hlimited, fun hmutates => ?_⟩
  by_contra hcsrf
  rw [if_pos ⟨hmutates, hcsrf⟩] at hrest
  cases hrest

theorem authenticateRequest_ok
    (h : exec (app.authenticateRequest db clock request) s = (.ok authentication, t)) :
    app.Admitted db clock request s := by
  unfold authenticateRequest at h
  cases hcookie : (request.cookies.lookup (sessionCookieName app.config)).filter (· ≠ "") with
  | none =>
      rw [hcookie] at h
      exact absurd h anonymous_ne_ok
  | some presented =>
      rw [hcookie] at h
      obtain ⟨rate, u, hconsume, hrest⟩ := exec_bind_eq_ok.mp h
      by_cases hallowed : rate.allowed = true
      · rw [if_pos hallowed] at hrest
        cases hsession : SessionService.authenticate app.sha256 db (clock 1) (some presented) with
        | none =>
            rw [hsession] at hrest
            exact absurd hrest anonymous_ne_ok
        | some session =>
            rw [hsession] at hrest
            obtain ⟨huser, hcsrf⟩ := grant_ok hrest
            obtain ⟨_, hpresented, row, hrow, hhash, hlive, rfl⟩ :=
              SessionService.authenticate_eq_some hsession
            obtain rfl := Option.some.inj hpresented
            obtain ⟨hlookup, hnonempty⟩ := Option.filter_eq_some_iff.mp hcookie
            refine ⟨presented, hlookup, of_decide_eq_true hnonempty, row, hrow, hhash, hlive,
              ⟨u, ⟨rate, hconsume, hallowed⟩, huser⟩, fun hmutates => ?_⟩
            obtain ⟨token, htoken, -, hmatches⟩ :=
              SessionService.verifyCsrf_eq_true.mp (hcsrf hmutates)
            exact ⟨token, htoken, hmatches⟩
      · rw [if_neg hallowed] at hrest
        obtain ⟨_, _, _, hthrow⟩ := exec_bind_eq_ok.mp hrest
        cases hthrow

/-- **The hook.** -/
theorem onRequest_ok
    (h : exec (app.onRequest db clock request) s = (.ok authentication, t)) :
    app.Exempt request ∨ app.Admitted db clock request s := by
  unfold onRequest at h
  dsimp only at h
  split at h
  · exact .inl (.inl ‹_›)
  · split at h
    · rename_i hmetrics
      split at h
      · exact .inl (.inr (.inl ⟨hmetrics.1, hmetrics.2, ‹_›⟩))
      · cases h
    · split at h
      · rename_i hauthentication
        exact .inl (.inr (.inr (hauthentication.imp_right .inl)))
      · split at h
        · rename_i hpublic
          exact .inl (.inr (.inr (.inr (.inr hpublic))))
        · exact .inr (authenticateRequest_ok h)

end App

/-! ### Exempt paths and routes -/

/-- The paths that exempt a request by themselves. -/
def exemptPaths : List String := probePaths ++ authenticationPaths ++ publicPaths

/-- A request with an exempt path goes to a route that is not protected. -/
theorem not_protected_of_mem {decoder : Decoder} {method path : String} {handler : Route}
    (hpath : path ∈ "/metrics" :: exemptPaths)
    (h : route decoder appRoutes method path.toList = some handler) :
    isProtected handler = false ∧ (path ∈ exemptPaths → handler ≠ metricsRoute) := by
  have hplain : ∀ path ∈ "/metrics" :: exemptPaths, ∀ text ∈ segments path.toList,
      '%' ∉ text := by
    decide +kernel
  have hroutes : ∀ path ∈ "/metrics" :: exemptPaths, ∀ r ∈ appRoutes,
      accepts r.pattern (segments path.toList) →
        isProtected r = false ∧ (path ∈ exemptPaths → r ≠ metricsRoute) := by
    decide +kernel
  obtain ⟨hmem, _, haccepts⟩ := route_plain (hplain path hpath) h
  exact hroutes path hpath handler hmem haccepts

/-- The path of the provider callback, with any text for the provider. -/
theorem segments_of_isCallbackPath {path : String} (h : isCallbackPath path) :
    ∃ provider, segments path.toList =
      [[], "api".toList, "connectors".toList] ++ provider :: ["callback".toList] := by
  unfold isCallbackPath at h
  split at h
  · cases h
  · rename_i rest hrest
    obtain ⟨-, hafter⟩ := of_decide_eq_true h
    have hpath : path.toList = "/api/connectors/".toList ++ rest :=
      (List.isPrefixOf?_eq_some_iff_append_eq.mp hrest).symm
    have hnoslash : '/' ∉ rest.takeWhile (· ≠ '/') := by
      intro hmem
      simpa using List.mem_takeWhile_imp hmem
    have hsplit : path.toList = [] ++ '/' :: ("api".toList ++ '/' :: ("connectors".toList ++ '/' ::
        (rest.takeWhile (· ≠ '/') ++ '/' :: "callback".toList))) := by
      calc
        path.toList = "/api/connectors/".toList ++
            (rest.takeWhile (· ≠ '/') ++ rest.dropWhile (· ≠ '/')) := by
          rw [List.takeWhile_append_dropWhile, hpath]
        _ = "/api/connectors/".toList ++ (rest.takeWhile (· ≠ '/') ++ "/callback".toList) := by
          rw [hafter]
        _ = _ := rfl
    have hlast : segments "callback".toList = ["callback".toList] := by decide +kernel
    refine ⟨rest.takeWhile (· ≠ '/'), ?_⟩
    rw [hsplit, segments_append (by decide), segments_append (by decide),
      segments_append (by decide), segments_append hnoslash, hlast]
    rfl

/-- `GET` on such a path goes to the provider callback. -/
theorem callback_of_isCallbackPath {decoder : Decoder} {path : String} {handler : Route}
    (hpath : isCallbackPath path)
    (h : route decoder appRoutes "GET" path.toList = some handler) :
    handler = providerCallbackRoute := by
  obtain ⟨provider, hsegments⟩ := segments_of_isCallbackPath hpath
  obtain ⟨hmem, hserves, decoded, hdecoded, haccepts⟩ := route_eq_some h
  rw [hsegments] at hdecoded
  obtain ⟨own, rfl⟩ := mapM_decode_around (by decide) (by decide) hdecoded
  have hroutes : ∀ r ∈ appRoutes, r.serves "GET" →
      accepts (r.pattern.set 3 .param)
        [[], "api".toList, "connectors".toList, [], "callback".toList] →
      r = providerCallbackRoute := by
    decide +kernel
  exact hroutes handler hmem hserves (accepts_set_param haccepts 3 [])

namespace App

variable {ρ : Type} {app : App ρ} {db : Database} {clock : ℕ → ℤ} {request : Request}
  {s : HookState ρ} {decoder : Decoder} {handler : Route}

/-- **Exempt requests** reach no protected route, and `/metrics` only with the token. -/
theorem not_protected_of_exempt (hexempt : app.Exempt request)
    (h : route decoder appRoutes request.method request.path.toList = some handler) :
    isProtected handler = false ∧ (handler ≠ metricsRoute ∨
      request.method = "GET" ∧ request.path = "/metrics" ∧
        secureTokenMatches app.sha256 (bearerToken (request.header "authorization"))
          app.config.metricsBearerToken) := by
  have hfixed : request.path ∈ exemptPaths →
      isProtected handler = false ∧ handler ≠ metricsRoute := fun hmem =>
    have hboth := not_protected_of_mem (List.mem_cons_of_mem _ hmem) h
    ⟨hboth.1, hboth.2 hmem⟩
  obtain hprobe | hmetrics | hauthentication | hcallback | hpublic | hoptions := hexempt
  · exact (hfixed (List.mem_append_left _ (List.mem_append_left _ hprobe.2))).imp_right .inl
  · refine ⟨(not_protected_of_mem ?_ h).1, .inr hmetrics⟩
    rw [hmetrics.2.1]
    exact List.mem_cons_self
  · exact (hfixed (List.mem_append_left _ (List.mem_append_right _ hauthentication))).imp_right
      .inl
  · rw [hcallback.1] at h
    obtain rfl := callback_of_isCallbackPath hcallback.2 h
    exact ⟨by decide +kernel, .inl (by decide)⟩
  · exact (hfixed (List.mem_append_right _ hpublic)).imp_right .inl
  · obtain ⟨hmem, hserves, -⟩ := route_eq_some h
    rw [hoptions] at hserves
    have hnone : ∀ r ∈ appRoutes, r.serves "OPTIONS" = false := by decide +kernel
    exact absurd hserves (by rw [hnone handler hmem]; decide)

/-- **Deny by default.**  A protected handler runs only for a request with a live session that
the limits let pass and that proves its origin where its method is unsafe. -/
theorem admitted_of_runs (hprotected : isProtected handler)
    (hruns : app.Runs decoder db clock request s handler) :
    app.Admitted db clock request s := by
  obtain ⟨hroute, authentication, t, hhook⟩ := hruns
  refine (onRequest_ok hhook).resolve_left fun hexempt => ?_
  rw [(not_protected_of_exempt hexempt hroute).1] at hprotected
  cases hprotected

end App

/-- A limiter that allows every call. -/
def openLimiter : RateLimiter Unit := ⟨fun _ _ _ _ => pure ⟨true, 0, 0⟩⟩

/-- A database with one member, who has signed in with tokens of these hashes. -/
def signedIn (tokenHash csrfHash : String) : Database where
  __ := Database.empty
  memberships := [⟨"chapel-hill", "usr_1"⟩]
  sessions := [⟨"ses_1", "chapel-hill", "usr_1", tokenHash, csrfHash, 1, none⟩]

/-- A member adds an organization. -/
def organizationRequest : Request where
  method := "POST"
  url := "/api/organizations?draft=1"
  ip := "10.0.0.7"
  cookies := [("recruiting_session", "member-token")]
  headers := [("x-csrf-token", .text "member-csrf")]

theorem admitted_organizationRequest :
    (⟨⟨false, none, 60, 20, 300⟩, fun text => text, openLimiter⟩ : App Unit).Admitted
      (signedIn "member-token" "member-csrf") (fun _ => 0) organizationRequest ⟨(), none⟩ := by
  have hprotected : isProtected ⟨"POST", "/api/organizations"⟩ := by decide +kernel
  have hroute : route asciiDecoder appRoutes "POST" organizationRequest.path.toList =
      some ⟨"POST", "/api/organizations"⟩ := by
    decide +kernel
  exact App.admitted_of_runs hprotected ⟨hroute, _, _, rfl⟩

end RecruitingOs
