import RecruitingOs.Auth.SignIn

/-!
# What a step of signing in does

`AuthRun.Effect` says everything that a step can do, with the checks that it has passed; the
invariants are kept by cases on it, and no other proof opens a route.
-/

namespace RecruitingOs

namespace AuthRun

variable {β : Type} [DecidableEq β] {honest : β → Bool} {app : AuthApp} {s t : AuthRun β}

/-- The state that a step leads to. -/
inductive Effect (honest : β → Bool) (app : AuthApp) (s : AuthRun β) : AuthRun β → Prop
  | settled {options : OidcOptions} (hoidc : app.config.oidc = some options)
      (response : JsonResponse Json) :
      Effect honest app s { s with discovery := some (s.discovered app options response) }
  | redirected {options : OidcOptions} (hoidc : app.config.oidc = some options)
      (response : JsonResponse Json) (browser : β) {built : OidcState}
      (hbuilt : built.WellFormed)
      (hfresh : s.freshLogin built.state built.nonce built.verifier) :
      Effect honest app s
        { s with
          discovery := some (s.discovered app options response)
          logins := ⟨browser, built⟩ :: s.logins
          jar := Function.update s.jar browser (some (app.signer.sign built.toJson.stringify)) }
  | planted (browser : β) {cookie : String} {source : PlantedCookie β}
      (hvalue : app.signer.unsign cookie = source.value)
      (hmay : s.mayPlant honest browser source) :
      Effect honest app s
        { s with
          jar := Function.update s.jar browser (some cookie)
          planted := browser :: s.planted }
  | approved {approval : Approval β} (hmay : s.mayApprove honest approval) :
      Effect honest app s { s with approvals := approval :: s.approvals }
  | calledBack {options : OidcOptions} (hoidc : app.config.oidc = some options)
      (response tokens : JsonResponse Json) {found : Discovery} {browser : β} {code : String}
      {state : OidcState} {approval : Approval β} {claims : OidcClaims}
      (hstate : s.presentedState app browser = some state)
      (hfound : s.discovered app options response = .ok found)
      (hclaims : options.callback app.lower app.jwtVerify found tokens state = .ok claims)
      (hpayload : options.acceptedPayload app.jwtVerify found tokens = some approval.payload)
      (hmay : s.mayAnswer honest browser code approval) :
      Effect honest app s
        { s with
          discovery := some (.ok found)
          issues := s.issues ++ [callbackIssue app browser state approval claims] }
  | developed (browser : β) {email : String} (displayName : Option String)
      (hmode : app.config.mode = .development) (hproduction : app.config.production = false)
      (hdomain : endsWith (app.lower email) ("@" ++ app.lower app.config.allowedEmailDomain)) :
      Effect honest app s
        { s with issues := s.issues ++ [developmentIssue app browser email displayName] }
  | identified {i : ℕ} {issue : Issue β} {out : AuthTables (Finset Role) × String}
      (hi : s.issues[i]? = some issue) (hphase : issue.phase = .accepted)
      (hout : s.tables.upsertIdentity roleSets app.digest issue.input app.config.defaultTenantId
        issue.roles = .ok out) :
      Effect honest app s
        { s.reach i issue .identified with
          tables := out.1
          history := .signedIn issue :: s.history }
  | created {i : ℕ} {issue : Issue β} {id token csrfToken : String} {now : ℤ}
      {tables : AuthTables (Finset Role)} (hi : s.issues[i]? = some issue)
      (hphase : issue.phase = .identified) (hfresh : s.freshSession id (app.sha256 token))
      (htables : s.tables.createSession (sessionRow app issue id token csrfToken now) = .ok tables) :
      Effect honest app s
        { s.reach i issue (.created (sessionRow app issue id token csrfToken now)) with
          tables := tables }
  | returned {i : ℕ} {issue : Issue β} {row : SessionRow} (hi : s.issues[i]? = some issue)
      (hphase : issue.phase = .created row) :
      Effect honest app s
        { s.reach i issue (.returned row) with jar := s.clearedJar issue }
  | failed {i : ℕ} {issue : Issue β} {phase : IssuePhase} (hi : s.issues[i]? = some issue)
      (hphase : phase.session? = issue.session?) :
      Effect honest app s (s.reach i issue phase)
  | requested {token : String} {now : ℤ} {session : AuthenticatedSession}
      (hsession : s.authenticate app token now = some session) :
      Effect honest app s { s with requests := ⟨token, now, session⟩ :: s.requests }
  | loggedOut {request : AuthenticatedRequest} (hrequest : request ∈ s.requests) (now : ℤ) :
      Effect honest app s
        { s with
          tables := s.tables.revokeSession request.session.sessionId
            request.session.principal.tenantId now
          ended := request.session.sessionId :: s.ended }
  | erased {tenantId userId : String} (hmember : (s.tables.member? tenantId userId).isSome) :
      Effect honest app s
        { s with
          tables := s.tables.eraseAccount tenantId userId
          ended := s.sessionsOf tenantId userId ++ s.ended
          history := .erased tenantId userId :: s.history }
  | expired (tenantId : String) (now : ℤ) :
      Effect honest app s { s with tables := s.tables.expireSessions tenantId now }

/-- Where a browser returns to after a sign-in is a path. -/
theorem safeRelativeReturnTo_head (authority : List Char → Option String) (value : String) :
    (safeRelativeReturnTo authority value "/").toList.head? = some '/' := by
  cases haccepted : accepted authority value with
  | false =>
      rw [safeRelativeReturnTo_of_not_accepted haccepted]
      rfl
  | true =>
      rw [safeRelativeReturnTo_of_accepted haccepted, String.toList_ofList]
      have hnormal :=
        UrlReference.parseRest_normal localOrigin (UrlReference.afterSlash value.toList)
      obtain ⟨segment, more, hsegments⟩ := List.exists_cons_of_ne_nil hnormal.path_ne
      rw [UrlReference.Url.serialize, UrlReference.Url.pathname, hsegments]
      rfl

theorem login_effect {browser : β} {returnTo : Option String} {response : JsonResponse Json}
    {state nonce verifier : String}
    (h : s.login app browser returnTo response state nonce verifier = some t) :
    Effect honest app s t := by
  obtain ⟨options, hoidc, h⟩ := Option.bind_eq_some_iff.mp h
  dsimp only at h
  split at h
  · cases h
    exact .settled hoidc response
  · split at h
    · cases h
    · rename_i hfresh
      cases h
      have hfresh := not_not.mp hfresh
      obtain ⟨hstate, hnonce, hverifier, -⟩ := of_decide_eq_true hfresh
      exact .redirected hoidc response browser
        ⟨hstate, hnonce, hverifier, safeRelativeReturnTo_head _ _⟩ hfresh

theorem callback_effect {browser : β} {code state : String} {response tokens : JsonResponse Json}
    {approval : Approval β}
    (h : s.callback honest app browser code state response tokens approval = some t) :
    Effect honest app s t := by
  obtain ⟨options, hoidc, h⟩ := Option.bind_eq_some_iff.mp h
  split at h
  · cases h
  · obtain ⟨presented, hpresented, h⟩ := Option.bind_eq_some_iff.mp h
    split at h
    · cases h
    · dsimp only at h
      split at h
      · cases h
        exact .settled hoidc response
      · rename_i found hfound
        split at h
        · cases h
          exact .settled hoidc response
        · rename_i claims hclaims
          split at h
          · rename_i hmay
            cases h
            rw [hfound]
            exact .calledBack hoidc response tokens hpresented hfound hclaims hmay.1 hmay.2
          · cases h

theorem development_effect {browser : β} {email : String} {displayName : Option String}
    (h : s.development app browser email displayName = some t) : Effect honest app s t := by
  unfold development at h
  split at h
  · cases h
  · rename_i hconfig
    split at h
    · cases h
    · split at h
      · cases h
      · rename_i hdomain
        cases h
        obtain ⟨hmode, hproduction⟩ := not_or.mp hconfig
        exact .developed browser displayName (not_not.mp hmode) (by simpa using hproduction)
          (not_not.mp hdomain)

theorem identify_effect {i : ℕ} (h : s.identify app i = some t) : Effect honest app s t := by
  obtain ⟨issue, hi, h⟩ := Option.bind_eq_some_iff.mp h
  split at h
  · cases h
  · rename_i hphase
    have hphase := not_not.mp hphase
    split at h
    · cases h
      refine .failed hi ?_
      show none = issue.phase.session?
      rw [hphase]
      rfl
    · rename_i out hout
      cases h
      exact .identified hi hphase hout

theorem create_effect {i : ℕ} {id token csrfToken : String} {now : ℤ}
    (h : s.create app i id token csrfToken now = some t) : Effect honest app s t := by
  obtain ⟨issue, hi, h⟩ := Option.bind_eq_some_iff.mp h
  split at h
  · cases h
  · rename_i hguard
    obtain ⟨hphase, hfresh⟩ := not_or.mp hguard
    have hphase := not_not.mp hphase
    dsimp only at h
    split at h
    · cases h
      refine .failed hi ?_
      show none = issue.phase.session?
      rw [hphase]
      rfl
    · rename_i tables htables
      cases h
      exact .created hi hphase (not_not.mp hfresh) htables

theorem load_effect {i : ℕ} {now : ℤ} (h : s.load i now = some t) : Effect honest app s t := by
  obtain ⟨issue, hi, h⟩ := Option.bind_eq_some_iff.mp h
  split at h
  · rename_i row hphase
    split at h
    · cases h
      refine .failed hi ?_
      show some row = issue.phase.session?
      rw [hphase]
      rfl
    · cases h
      exact .returned hi hphase
  · cases h

/-- **Every step** has one of the effects. -/
theorem step_effect {label : AuthStep β} (h : s.step honest app label = some t) :
    Effect honest app s t := by
  cases label with
  | login browser returnTo response state nonce verifier => exact login_effect h
  | plant browser cookie source =>
      obtain ⟨⟨hvalue, hmay⟩, ht⟩ := Option.ite_none_right_eq_some.mp h
      cases ht
      exact .planted browser hvalue hmay
  | approve approval =>
      obtain ⟨hmay, ht⟩ := Option.ite_none_right_eq_some.mp h
      cases ht
      exact .approved hmay
  | callback browser code state discovery tokens approval => exact callback_effect h
  | development browser email displayName => exact development_effect h
  | identify i => exact identify_effect h
  | create i id token csrfToken now => exact create_effect h
  | load i now => exact load_effect h
  | request token now =>
      obtain ⟨session, hsession, rfl⟩ := Option.map_eq_some_iff.mp h
      exact .requested hsession
  | logout request now =>
      obtain ⟨hrequest, ht⟩ := Option.ite_none_right_eq_some.mp h
      cases ht
      exact .loggedOut hrequest now
  | erase tenantId userId =>
      obtain ⟨hmember, ht⟩ := Option.ite_none_right_eq_some.mp h
      cases ht
      exact .erased hmember
  | expire tenantId now =>
      cases h
      exact .expired tenantId now

end AuthRun

end RecruitingOs
