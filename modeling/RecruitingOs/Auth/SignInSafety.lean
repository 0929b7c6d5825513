import Mathlib.Data.List.Nodup
import RecruitingOs.Auth.SignInEffect

/-!
# Whose sessions there are

Every request that is authenticated acts for a user whose identity was established for it: in
development by the email that was entered, and else by a token of the identity provider, issued
with the nonce of the sign-in (`authenticated_bound`).  An identity of an honest browser's user is
only signed in in that browser, and an honest browser signs in only its own user's identity, unless
somebody else has put a cookie into it.

A session that was ended by a logout or an erasure authenticates no request any more
(`ended_not_authenticated`).
-/

namespace RecruitingOs

variable {β : Type} {honest : β → Bool} {app : AuthApp} {s t : AuthRun β}

/-- An identity that the identity provider has established. -/
structure Issue.ByProvider (honest : β → Bool) (app : AuthApp) (approvals : List (Approval β))
    (planted : List β) (issue : Issue β) (state : OidcState) (approval : Approval β) : Prop where
  approved : approval ∈ approvals
  nonce : approval.payload.get? "nonce" = some (.str state.nonce)
  verified : ∃ options claims, app.config.oidc = some options ∧
    Verified app.lower approval.payload options.discoveryIssuer app.config.allowedEmailDomain
      claims ∧
    issue.input = ⟨claims.identity, some claims.email, claims.displayName⟩ ∧
    issue.roles = initialRolesForIdentity app.lower (some claims.email)
      app.config.initialPlatformAdminEmails
  /-- The user of an honest browser is signed in in it. -/
  inOwnBrowser : honest approval.browser → issue.browser = approval.browser
  /-- An honest browser signs in its own user. -/
  ownUser : honest issue.browser → issue.browser ∉ planted → approval.browser = issue.browser

/-- An identity that was entered in development. -/
structure Issue.ByDevelopment (app : AuthApp) (issue : Issue β) (email : String) : Prop where
  mode : app.config.mode = .development
  notProduction : app.config.production = false
  domain : endsWith (app.lower email) ("@" ++ app.lower app.config.allowedEmailDomain)
  input : issue.input.identity = ⟨"development", app.lower email⟩
  roles : issue.roles = [.platformAdmin]

/-- How an issue came about. -/
def Issue.Bound (honest : β → Bool) (app : AuthApp) (approvals : List (Approval β))
    (planted : List β) (issue : Issue β) : Prop :=
  match issue.via with
  | .development email => issue.ByDevelopment app email
  | .callback state approval => issue.ByProvider honest app approvals planted state approval

/-- A request is authenticated by a session. -/
structure AuthenticatedRequest.ServedBy (app : AuthApp) (made : SessionRow)
    (request : AuthenticatedRequest) : Prop where
  token : made.tokenHash = app.sha256 request.token
  notExpired : request.now < made.expiresAt
  sessionId : request.session.sessionId = made.id
  csrf : request.session.csrfHash = made.csrfHash
  userId : request.session.principal.userId = made.userId
  tenantId : request.session.principal.tenantId = made.tenantId

namespace AuthRun

/-- A session of an issue. -/
def Made (issues : List (Issue β)) (made : SessionRow) : Prop :=
  ∃ issue ∈ issues, issue.session? = some made

/-! ### Issues -/

section Issues

variable {approvals approvals' : List (Approval β)} {planted planted' : List β}
  {issues issues' : List (Issue β)} {issue : Issue β}

theorem Bound.mono (h : issue.Bound honest app approvals planted)
    (happrovals : ∀ a ∈ approvals, a ∈ approvals') (hplanted : ∀ b ∈ planted, b ∈ planted') :
    issue.Bound honest app approvals' planted' := by
  unfold Issue.Bound at h ⊢
  cases hvia : issue.via with
  | development email =>
      rw [hvia] at h
      exact h
  | callback state approval =>
      rw [hvia] at h
      exact { h with
        approved := happrovals _ h.approved
        ownUser := fun hhonest hnot => h.ownUser hhonest fun hmem => hnot (hplanted _ hmem) }

/-- Of an issue only the phase changes. -/
theorem Bound.phase (h : issue.Bound honest app approvals planted) (phase : IssuePhase) :
    Issue.Bound honest app approvals planted { issue with phase := phase } := by
  unfold Issue.Bound at h ⊢
  cases hvia : issue.via with
  | development email =>
      rw [hvia] at h
      exact { h with }
  | callback state approval =>
      rw [hvia] at h
      exact { h with }

/-- What is remembered of the sessions of issues. -/
def Remembers (issues issues' : List (Issue β)) : Prop := ∀ made, Made issues made → Made issues' made

theorem remembers_append (issue : Issue β) : Remembers issues (issues ++ [issue]) := by
  rintro made ⟨old, hold, hmade⟩
  exact ⟨old, List.mem_append_left _ hold, hmade⟩

end Issues

variable {i : ℕ} {issue : Issue β} {phase : IssuePhase}

theorem mem_reach {new : Issue β} (h : new ∈ (s.reach i issue phase).issues) :
    new = { issue with phase := phase } ∨ new ∈ s.issues :=
  (List.mem_or_eq_of_mem_set h).symm

/-- A session that has been made is not forgotten. -/
theorem remembers_reach (hi : s.issues[i]? = some issue)
    (hphase : ∀ made, issue.session? = some made → phase.session? = some made) :
    Remembers s.issues (s.reach i issue phase).issues := by
  rintro made ⟨old, hold, hmade⟩
  obtain ⟨j, hj⟩ := List.mem_iff_getElem?.mp hold
  by_cases hij : i = j
  · subst hij
    obtain rfl : issue = old := Option.some.inj (hi.symm.trans hj)
    refine ⟨{ issue with phase := phase }, List.mem_iff_getElem?.mpr ⟨i, ?_⟩, hphase made hmade⟩
    show (s.issues.set i _)[i]? = _
    have hlength : i < s.issues.length := (List.getElem?_eq_some_iff.mp hi).1
    rw [List.getElem?_set_self hlength]
  · refine ⟨old, List.mem_iff_getElem?.mpr ⟨j, ?_⟩, hmade⟩
    show (s.issues.set i _)[j]? = _
    rw [List.getElem?_set_ne hij, hj]

/-! ### Sessions -/

theorem setAuth_eq_some {tables : AuthTables (Finset Role)} {tokenHash : String} {now : ℤ}
    {session : AuthenticatedSession}
    (h : setAuth.authenticateSession tables tokenHash now = some session) :
    ∃ row ∈ tables.sessions, row.tokenHash = tokenHash ∧ row.revokedAt = none ∧
      now < row.expiresAt ∧ ∃ member ∈ tables.memberships,
        AuthTables.isMember row.tenantId row.userId member ∧
        session = AuthTables.authenticated roleList row member := by
  obtain ⟨row, hrow, hjoin⟩ := Option.bind_eq_some_iff.mp h
  obtain ⟨member, hmember, rfl⟩ := Option.map_eq_some_iff.mp hjoin
  have hlive : AuthTables.isLive tokenHash now row = true := List.find?_some hrow
  obtain ⟨hhash, hrevoked, hexpires⟩ := of_decide_eq_true hlive
  exact ⟨row, List.mem_of_find?_eq_some hrow, hhash, hrevoked, hexpires, member,
    List.mem_of_find?_eq_some hmember, List.find?_some hmember, rfl⟩

theorem authenticate_eq_some [DecidableEq β] {token : String} {now : ℤ} {session : AuthenticatedSession}
    (h : s.authenticate app token now = some session) :
    setAuth.authenticateSession s.tables (app.sha256 token) now = some session := by
  unfold authenticate at h
  split at h
  · cases h
  · exact h

/-- Fewer sessions, and more of them revoked. -/
structure Shrinks (old new : List SessionRow) : Prop where
  ids : (new.map SessionRow.id).Sublist (old.map SessionRow.id)
  rows : ∀ row ∈ new, ∃ before ∈ old, (before.revokedAt.isSome → row.revokedAt.isSome) ∧
    row = { before with revokedAt := row.revokedAt }

theorem Shrinks.filter (p : SessionRow → Bool) (rows : List SessionRow) :
    Shrinks rows (rows.filter p) where
  ids := (List.filter_sublist (l := rows)).map _
  rows row hrow := ⟨row, List.mem_of_mem_filter hrow, fun h => h, rfl⟩

theorem Shrinks.trans {a b c : List SessionRow} (h : Shrinks a b) (h' : Shrinks b c) :
    Shrinks a c where
  ids := h'.ids.trans h.ids
  rows row hrow := by
    obtain ⟨between, hbetween, hlater, hrow⟩ := h'.rows row hrow
    obtain ⟨before, hbefore, hrevoked, hfirst⟩ := h.rows between hbetween
    refine ⟨before, hbefore, fun hsome => hlater (hrevoked hsome), ?_⟩
    rw [hrow, hfirst]

theorem shrinks_revoke (tables : AuthTables (Finset Role)) (sessionId tenantId : String) (now : ℤ) :
    Shrinks tables.sessions (tables.revokeSession sessionId tenantId now).sessions where
  ids := by
    show ((Table.updateWhere _ _ tables.sessions).map _).Sublist _
    rw [Table.map_key_updateWhere SessionRow.id]
    intro row _ _
    rfl
  rows row hrow := by
    obtain ⟨before, hbefore, rfl⟩ := Table.mem_updateWhere.mp hrow
    refine ⟨before, hbefore, ?_, ?_⟩
    · split
      · exact fun _ => rfl
      · exact fun h => h
    · split
      · rfl
      · rfl

theorem shrinks_erase (tables : AuthTables (Finset Role)) (tenantId userId : String) :
    Shrinks tables.sessions (tables.eraseAccount tenantId userId).sessions := by
  unfold AuthTables.eraseAccount
  split
  · exact ⟨List.Sublist.refl _, fun row hrow => ⟨row, hrow, fun h => h, rfl⟩⟩
  · exact (Shrinks.filter _ _).trans (Shrinks.filter _ _)

/-- The sessions of an erased member are gone. -/
theorem not_mem_eraseAccount {tables : AuthTables (Finset Role)} {tenantId userId : String}
    (hmember : (tables.member? tenantId userId).isSome) {row : SessionRow}
    (hrow : row ∈ (tables.eraseAccount tenantId userId).sessions) :
    ¬ (row.tenantId = tenantId ∧ row.userId = userId) := by
  unfold AuthTables.eraseAccount at hrow
  rw [if_neg (not_not.mpr hmember)] at hrow
  exact of_decide_eq_true (List.mem_filter.mp (List.mem_of_mem_filter hrow)).2

/-! ### The invariants -/

/-- The invariants of signing in. -/
structure Inv (honest : β → Bool) (app : AuthApp) (s : AuthRun β) : Prop where
  nonces : (s.logins.map fun l => l.state.nonce).Nodup
  approvals : ∀ a ∈ s.approvals, ∀ l ∈ s.logins, honest l.browser →
    a.payload.get? "nonce" = some (.str l.state.nonce) → a.browser = l.browser
  jars : ∀ b state, s.presentedState app b = some state → ∃ l ∈ s.logins, l.state = state ∧
    (l.browser = b ∨ b ∈ s.planted ∧ ¬ honest l.browser)
  discovery : ∀ options found, app.config.oidc = some options → s.discovery = some (.ok found) →
    found.issuer = options.discoveryIssuer
  bound : ∀ issue ∈ s.issues, issue.Bound honest app s.approvals s.planted
  made : ∀ issue ∈ s.issues, ∀ row, issue.session? = some row →
    row.userId = issue.userId app.digest ∧ row.tenantId = app.config.defaultTenantId
  ids : (s.tables.sessions.map SessionRow.id).Nodup
  sessions : ∀ row ∈ s.tables.sessions, ∃ made, Made s.issues made ∧
    row = { made with revokedAt := row.revokedAt }
  requests : ∀ request ∈ s.requests, ∃ made, Made s.issues made ∧ request.ServedBy app made
  ended : ∀ id ∈ s.ended, (∃ made, Made s.issues made ∧ made.id = id) ∧
    ∀ row ∈ s.tables.sessions, row.id = id → row.revokedAt.isSome

namespace Inv

/-- The document that is found, now or earlier, is one of the configured issuer. -/
theorem issuer_eq (h : s.Inv honest app) {options : OidcOptions}
    (hoidc : app.config.oidc = some options) {response : JsonResponse Json} {found : Discovery}
    (hfound : s.discovered app options response = .ok found) :
    found.issuer = options.discoveryIssuer := by
  unfold discovered at hfound
  cases hcached : s.discovery with
  | some cached =>
      rw [hcached] at hfound
      refine h.discovery options found hoidc ?_
      rw [hcached]
      exact congrArg some hfound
  | none =>
      rw [hcached] at hfound
      exact discover_issuer hfound

theorem settle (h : s.Inv honest app) {options : OidcOptions}
    (hoidc : app.config.oidc = some options) (response : JsonResponse Json) :
    Inv honest app { s with discovery := some (s.discovered app options response) } :=
  { h with
    discovery := fun options' found hoidc' hfound => by
      obtain rfl : options = options' := Option.some.inj (hoidc.symm.trans hoidc')
      exact h.issuer_eq hoidc (Option.some.inj hfound) }

/-- An issue begins. -/
theorem accept (h : s.Inv honest app) {issue : Issue β} (hbound : issue.Bound honest app s.approvals s.planted)
    (hphase : issue.phase = .accepted) :
    Inv honest app { s with issues := s.issues ++ [issue] } := by
  have hkeep : Remembers s.issues (s.issues ++ [issue]) := remembers_append issue
  have hnone : issue.session? = none := by
    show issue.phase.session? = none
    rw [hphase]
    rfl
  refine { h with bound := ?_, made := ?_, sessions := ?_, requests := ?_, ended := ?_ }
  · intro other hother
    rcases List.mem_append.mp hother with hold | hnew
    · exact h.bound other hold
    · rw [List.mem_singleton.mp hnew]
      exact hbound
  · intro other hother row hrow
    rcases List.mem_append.mp hother with hold | hnew
    · exact h.made other hold row hrow
    · rw [List.mem_singleton.mp hnew, hnone] at hrow
      cases hrow
  · intro row hrow
    obtain ⟨made, hmade, heq⟩ := h.sessions row hrow
    exact ⟨made, hkeep made hmade, heq⟩
  · intro request hrequest
    obtain ⟨made, hmade, hserved⟩ := h.requests request hrequest
    exact ⟨made, hkeep made hmade, hserved⟩
  · intro id hid
    obtain ⟨⟨made, hmade, heq⟩, hrows⟩ := h.ended id hid
    exact ⟨⟨made, hkeep made hmade, heq⟩, hrows⟩

/-- An issue goes on; a session that it has made stays its session. -/
theorem reach (h : s.Inv honest app) {i : ℕ} {issue : Issue β} {phase : IssuePhase}
    (hi : s.issues[i]? = some issue) (hphase : phase.session? = issue.session?) :
    Inv honest app (s.reach i issue phase) := by
  have hmem : issue ∈ s.issues := List.mem_of_getElem? hi
  have hkeep : Remembers s.issues (s.reach i issue phase).issues :=
    remembers_reach hi fun made hmade => hphase.trans hmade
  refine { h with bound := ?_, made := ?_, sessions := ?_, requests := ?_, ended := ?_ }
  · intro other hother
    rcases mem_reach hother with rfl | hold
    · exact Bound.phase (h.bound issue hmem) phase
    · exact h.bound other hold
  · intro other hother row hrow
    rcases mem_reach hother with rfl | hold
    · exact h.made issue hmem row (hphase.symm.trans hrow)
    · exact h.made other hold row hrow
  · intro row hrow
    obtain ⟨made, hmade, heq⟩ := h.sessions row hrow
    exact ⟨made, hkeep made hmade, heq⟩
  · intro request hrequest
    obtain ⟨made, hmade, hserved⟩ := h.requests request hrequest
    exact ⟨made, hkeep made hmade, hserved⟩
  · intro id hid
    obtain ⟨⟨made, hmade, heq⟩, hrows⟩ := h.ended id hid
    exact ⟨⟨made, hkeep made hmade, heq⟩, hrows⟩

/-- Sessions are deleted or revoked. -/
theorem shrink (h : s.Inv honest app) {tables : AuthTables (Finset Role)}
    (hshrink : Shrinks s.tables.sessions tables.sessions) :
    Inv honest app { s with tables := tables } := by
  refine { h with ids := h.ids.sublist hshrink.ids, sessions := ?_, ended := ?_ }
  · intro row hrow
    obtain ⟨before, hbefore, -, heq⟩ := hshrink.rows row hrow
    obtain ⟨made, hmade, hbeforeEq⟩ := h.sessions before hbefore
    refine ⟨made, hmade, ?_⟩
    rw [heq, hbeforeEq]
  · intro id hid
    obtain ⟨hmade, hrows⟩ := h.ended id hid
    refine ⟨hmade, fun row hrow hrowId => ?_⟩
    obtain ⟨before, hbefore, hrevoked, heq⟩ := hshrink.rows row hrow
    refine hrevoked (hrows before hbefore ?_)
    rw [heq] at hrowId
    exact hrowId

/-- The other tables do not matter. -/
theorem withTables (h : s.Inv honest app) {tables : AuthTables (Finset Role)}
    (hsessions : tables.sessions = s.tables.sessions) :
    Inv honest app { s with tables := tables } := by
  refine h.shrink ?_
  rw [hsessions]
  exact ⟨List.Sublist.refl _, fun row hrow => ⟨row, hrow, fun h => h, rfl⟩⟩

/-- Sessions end. -/
theorem withEnded (h : s.Inv honest app) (ids : List String)
    (hids : ∀ id ∈ ids, (∃ made, Made s.issues made ∧ made.id = id) ∧
      ∀ row ∈ s.tables.sessions, row.id = id → row.revokedAt.isSome) :
    Inv honest app { s with ended := ids ++ s.ended } :=
  { h with
    ended := fun id hid => (List.mem_append.mp hid).elim (hids id) (h.ended id) }

/-- A session is created for an issue that has none. -/
theorem create (h : s.Inv honest app) {i : ℕ} {issue : Issue β} {id token csrfToken : String}
    {now : ℤ} {tables : AuthTables (Finset Role)} (hi : s.issues[i]? = some issue)
    (hphase : issue.phase = .identified) (hfresh : s.freshSession id (app.sha256 token))
    (htables : s.tables.createSession (sessionRow app issue id token csrfToken now) = .ok tables) :
    Inv honest app
      { s.reach i issue (.created (sessionRow app issue id token csrfToken now)) with
        tables := tables } := by
  have hmem : issue ∈ s.issues := List.mem_of_getElem? hi
  have hkeep : Remembers s.issues
      (s.reach i issue (.created (sessionRow app issue id token csrfToken now))).issues := by
    refine remembers_reach hi fun made hmade => ?_
    have hnone : issue.phase.session? = some made := hmade
    rw [hphase] at hnone
    cases hnone
  -- the issue with its new session
  have hmade : Made (s.reach i issue (.created (sessionRow app issue id token csrfToken now))).issues
      (sessionRow app issue id token csrfToken now) := by
    refine ⟨{ issue with phase := .created _ }, List.mem_iff_getElem?.mpr ⟨i, ?_⟩, rfl⟩
    exact List.getElem?_set_self (List.getElem?_eq_some_iff.mp hi).1
  obtain ⟨rfl, -, hids, -⟩ := AuthTables.createSession_ok htables
  refine { h with bound := ?_, made := ?_, ids := ?_, sessions := ?_, requests := ?_, ended := ?_ }
  · intro other hother
    rcases mem_reach hother with rfl | hold
    · exact Bound.phase (h.bound issue hmem) _
    · exact h.bound other hold
  · intro other hother row hrow
    rcases mem_reach hother with rfl | hold
    · cases hrow
      exact ⟨rfl, rfl⟩
    · exact h.made other hold row hrow
  · exact Table.nodup_key_append h.ids hids
  · intro row hrow
    rcases List.mem_append.mp hrow with hold | hnew
    · obtain ⟨made, hold, heq⟩ := h.sessions row hold
      exact ⟨made, hkeep made hold, heq⟩
    · rw [List.mem_singleton.mp hnew]
      exact ⟨_, hmade, rfl⟩
  · intro request hrequest
    obtain ⟨made, hmade, hserved⟩ := h.requests request hrequest
    exact ⟨made, hkeep made hmade, hserved⟩
  · intro ended hended
    obtain ⟨⟨made, hold, rfl⟩, hrows⟩ := h.ended ended hended
    refine ⟨⟨made, hkeep made hold, rfl⟩, fun row hrow hrowId => ?_⟩
    rcases List.mem_append.mp hrow with hold' | hnew
    · exact hrows row hold' hrowId
    · -- the id of the new session is new
      rw [List.mem_singleton.mp hnew] at hrowId
      obtain ⟨other, hother, hsession⟩ := hold
      have hnew := List.all_eq_true.mp hfresh other hother
      rw [hsession] at hnew
      exact absurd hrowId.symm (of_decide_eq_true hnew).1

/-- What a browser presents once one jar has changed. -/
theorem presentedState_update [DecidableEq β] {jar : β → Option String} {browser b : β}
    {cookie : Option String} {state : OidcState} (ht : t.jar = Function.update jar browser cookie)
    (h : t.presentedState app b = some state) :
    (b = browser ∧ ∃ text value, cookie = some text ∧ app.signer.unsign text = some value ∧
        OidcState.ofText value = some state) ∨
      (b ≠ browser ∧ presentedState app { t with jar := jar } b = some state) := by
  by_cases hb : b = browser
  · subst hb
    refine .inl ⟨rfl, ?_⟩
    unfold presentedState at h
    rw [ht, Function.update_self] at h
    obtain ⟨value, hvalue, hstate⟩ := Option.bind_eq_some_iff.mp h
    obtain ⟨text, htext, hunsign⟩ := Option.bind_eq_some_iff.mp hvalue
    exact ⟨text, value, (Option.filter_eq_some_iff.mp htext).1, hunsign, hstate⟩
  · refine .inr ⟨hb, ?_⟩
    unfold presentedState at h ⊢
    rwa [ht, Function.update_of_ne hb] at h

theorem redirect [DecidableEq β] (h : s.Inv honest app) {browser : β} {built : OidcState}
    (hfresh : s.freshLogin built.state built.nonce built.verifier) :
    Inv honest app
      { s with
        logins := ⟨browser, built⟩ :: s.logins
        jar := Function.update s.jar browser (some (app.signer.sign built.toJson.stringify)) } := by
  obtain ⟨-, -, -, hlogins, happrovals⟩ := of_decide_eq_true hfresh
  refine { h with nonces := ?_, approvals := ?_, jars := ?_ }
  · refine List.nodup_cons.mpr ⟨fun hmem => ?_, h.nonces⟩
    obtain ⟨l, hl, hnonce⟩ := List.mem_map.mp hmem
    exact of_decide_eq_true (List.all_eq_true.mp hlogins l hl) hnonce
  · intro a ha l hl hhonest hnonce
    rcases List.mem_cons.mp hl with rfl | hold
    · exact absurd hnonce (of_decide_eq_true (List.all_eq_true.mp happrovals a ha))
    · exact h.approvals a ha l hold hhonest hnonce
  · intro b state hstate
    rcases presentedState_update rfl hstate with ⟨rfl, text, value, htext, hunsign, hread⟩ | ⟨-, hold⟩
    · cases htext
      rw [app.signer.unsign_sign] at hunsign
      cases hunsign
      exact ⟨⟨b, built⟩, List.mem_cons_self, (OidcState.eq_of_ofText hread).symm, .inl rfl⟩
    · obtain ⟨l, hl, hrest⟩ := h.jars b state hold
      exact ⟨l, List.mem_cons_of_mem _ hl, hrest⟩

theorem plant [DecidableEq β] (h : s.Inv honest app) {browser : β} {cookie : String}
    {source : PlantedCookie β} (hvalue : app.signer.unsign cookie = source.value)
    (hmay : s.mayPlant honest browser source) :
    Inv honest app
      { s with
        jar := Function.update s.jar browser (some cookie)
        planted := browser :: s.planted } := by
  refine { h with jars := ?_, bound := ?_ }
  · intro b state hstate
    rcases presentedState_update rfl hstate with ⟨rfl, text, value, htext, hunsign, hread⟩ | ⟨-, hold⟩
    · cases htext
      rw [hvalue] at hunsign
      cases source with
      | login l =>
          cases hunsign
          obtain ⟨hl, hknown⟩ := of_decide_eq_true hmay
          refine ⟨l, hl, (OidcState.eq_of_ofText hread).symm, ?_⟩
          exact hknown.symm.imp_right fun hnot => ⟨List.mem_cons_self, hnot⟩
      | provider other =>
          cases hunsign
          rw [oidcState_provider] at hread
          cases hread
      | forged => cases hunsign
    · obtain ⟨l, hl, heq, hbrowser⟩ := h.jars b state hold
      exact ⟨l, hl, heq, hbrowser.imp_right fun ⟨hmem, hnot⟩ => ⟨List.mem_cons_of_mem _ hmem, hnot⟩⟩
  · intro issue hissue
    exact Bound.mono (h.bound issue hissue) (fun _ ha => ha) fun _ hb => List.mem_cons_of_mem _ hb

theorem approve [DecidableEq β] (h : s.Inv honest app) {approval : Approval β}
    (hmay : s.mayApprove honest approval) :
    Inv honest app { s with approvals := approval :: s.approvals } := by
  obtain ⟨-, hlogins⟩ := of_decide_eq_true hmay
  refine { h with approvals := ?_, bound := ?_ }
  · intro a ha l hl hhonest hnonce
    rcases List.mem_cons.mp ha with rfl | hold
    · have hl := of_decide_eq_true (List.all_eq_true.mp hlogins l hl)
      exact hl.resolve_left fun hnot => hnot ⟨hhonest, hnonce⟩
    · exact h.approvals a hold l hl hhonest hnonce
  · intro issue hissue
    exact Bound.mono (h.bound issue hissue) (fun _ ha => List.mem_cons_of_mem _ ha) fun _ hb => hb

theorem clear [DecidableEq β] (h : s.Inv honest app) (issue : Issue β) :
    Inv honest app { s with jar := s.clearedJar issue } := by
  refine { h with jars := ?_ }
  intro b state hstate
  unfold clearedJar at hstate
  split at hstate
  · rcases presentedState_update rfl hstate with ⟨-, text, value, htext, -⟩ | ⟨-, hold⟩
    · cases htext
    · exact h.jars b state hold
  · exact h.jars b state hstate

theorem oidc_domain {options : OidcOptions} (hoidc : app.config.oidc = some options) :
    options.allowedEmailDomain = app.config.allowedEmailDomain := by
  unfold AuthConfig.oidc at hoidc
  split at hoidc
  · cases hoidc
    rfl
  · cases hoidc

/-- **A callback** signs in an identity in the browser that asked for it. -/
theorem bound_callback [DecidableEq β] (h : s.Inv honest app) {options : OidcOptions}
    (hoidc : app.config.oidc = some options) {response tokens : JsonResponse Json}
    {found : Discovery} {browser : β} {code : String} {state : OidcState} {approval : Approval β}
    {claims : OidcClaims} (hstate : s.presentedState app browser = some state)
    (hfound : s.discovered app options response = .ok found)
    (hclaims : options.callback app.lower app.jwtVerify found tokens state = .ok claims)
    (hpayload : options.acceptedPayload app.jwtVerify found tokens = some approval.payload)
    (hmay : s.mayAnswer honest browser code approval) :
    (callbackIssue app browser state approval claims).Bound honest app s.approvals s.planted := by
  obtain ⟨payload, haccepted, hnonce, hverified⟩ := callback_ok hclaims
  obtain rfl : payload = approval.payload := Option.some.inj (haccepted.symm.trans hpayload)
  obtain ⟨happroved, -, hknows⟩ := of_decide_eq_true hmay
  obtain ⟨l, hl, rfl, hbrowser⟩ := h.jars browser state hstate
  have hself : honest l.browser → l.browser = browser := fun hhonest =>
    hbrowser.resolve_right fun hplanted => hplanted.2 hhonest
  refine { approved := happroved, nonce := hnonce, verified := ?_, inOwnBrowser := ?_, ownUser := ?_ }
  · refine ⟨options, claims, hoidc, ?_, rfl, rfl⟩
    rw [← h.issuer_eq hoidc hfound, ← oidc_domain hoidc]
    exact hverified
  · -- whose request is it that the nonce belongs to?
    intro hhonest
    by_cases hl' : honest l.browser
    · exact (hself hl').symm.trans (h.approvals approval happroved l hl hl' hnonce).symm
    · rcases hknows with hown | hnot | hleaked
      · exact hown.symm
      · exact absurd hhonest hnot
      · obtain ⟨other, hother, hmatches⟩ := List.any_eq_true.mp hleaked
        obtain ⟨hsame, hotherNonce⟩ := of_decide_eq_true hmatches
        have hnonces : other.state.nonce = l.state.nonce := by
          rw [hnonce] at hotherNonce
          exact (Json.str.inj (Option.some.inj hotherNonce)).symm
        obtain rfl : other = l := List.inj_on_of_nodup_map h.nonces hother hl hnonces
        rw [hsame] at hl'
        exact absurd hhonest hl'
  · intro hhonest hplanted
    have hlBrowser : l.browser = browser := hbrowser.resolve_right fun hin => hplanted hin.1
    have hlHonest : honest l.browser := by
      rw [hlBrowser]
      exact hhonest
    exact (h.approvals approval happroved l hl hlHonest hnonce).trans hlBrowser

theorem bound_development [DecidableEq β] {browser : β} {email : String}
    {displayName : Option String} (hmode : app.config.mode = .development)
    (hproduction : app.config.production = false)
    (hdomain : endsWith (app.lower email) ("@" ++ app.lower app.config.allowedEmailDomain)) :
    (developmentIssue app browser email displayName).Bound honest app s.approvals s.planted :=
  { mode := hmode, notProduction := hproduction, domain := hdomain, input := rfl, roles := rfl }

/-- A request is served by a session that was made. -/
theorem served [DecidableEq β] (h : s.Inv honest app) {token : String} {now : ℤ}
    {session : AuthenticatedSession} (hsession : s.authenticate app token now = some session) :
    ∃ made, Made s.issues made ∧ AuthenticatedRequest.ServedBy app made ⟨token, now, session⟩ := by
  obtain ⟨row, hrow, hhash, -, hexpires, member, -, -, rfl⟩ :=
    setAuth_eq_some (authenticate_eq_some hsession)
  obtain ⟨made, hmade, heq⟩ := h.sessions row hrow
  have hfields : row.tokenHash = made.tokenHash ∧ row.expiresAt = made.expiresAt ∧
      row.id = made.id ∧ row.csrfHash = made.csrfHash ∧ row.userId = made.userId ∧
        row.tenantId = made.tenantId := by
    rw [heq]
    exact ⟨rfl, rfl, rfl, rfl, rfl, rfl⟩
  obtain ⟨htoken, hexpiresAt, hid, hcsrf, huser, htenant⟩ := hfields
  refine ⟨made, hmade, ?_⟩
  exact
    { token := htoken.symm.trans hhash
      notExpired := hexpiresAt ▸ hexpires
      sessionId := hid
      csrf := hcsrf
      userId := huser
      tenantId := htenant }

theorem tenantId_eq (h : s.Inv honest app) {made : SessionRow} (hmade : Made s.issues made) :
    made.tenantId = app.config.defaultTenantId := by
  obtain ⟨issue, hissue, hsession⟩ := hmade
  exact (h.made issue hissue made hsession).2

theorem logout (h : s.Inv honest app) {request : AuthenticatedRequest}
    (hrequest : request ∈ s.requests) (now : ℤ) :
    Inv honest app
      { s with
        tables := s.tables.revokeSession request.session.sessionId
          request.session.principal.tenantId now
        ended := request.session.sessionId :: s.ended } := by
  obtain ⟨made, hmade, hserved⟩ := h.requests request hrequest
  have hshrunk := h.shrink (shrinks_revoke s.tables request.session.sessionId
    request.session.principal.tenantId now)
  refine hshrunk.withEnded [request.session.sessionId] fun id hid => ?_
  obtain rfl := List.mem_singleton.mp hid
  refine ⟨⟨made, hmade, hserved.sessionId.symm⟩, fun row hrow hrowId => ?_⟩
  obtain ⟨before, hbefore, rfl⟩ := Table.mem_updateWhere.mp hrow
  split
  · rfl
  · -- the row has the id, and every session is one of the tenant
    rename_i hother
    rw [if_neg hother] at hrowId
    obtain ⟨source, hsource, heq⟩ := h.sessions before hbefore
    refine absurd (decide_eq_true ⟨hrowId, ?_⟩) hother
    rw [hserved.tenantId, h.tenantId_eq hmade, ← h.tenantId_eq hsource, heq]

theorem erase (h : s.Inv honest app) {tenantId userId : String}
    (hmember : (s.tables.member? tenantId userId).isSome) :
    Inv honest app
      { s with
        tables := s.tables.eraseAccount tenantId userId
        ended := s.sessionsOf tenantId userId ++ s.ended
        history := .erased tenantId userId :: s.history } := by
  have hshrink := shrinks_erase s.tables tenantId userId
  have hended : Inv honest app
      { s with
        tables := s.tables.eraseAccount tenantId userId
        ended := s.sessionsOf tenantId userId ++ s.ended } := by
    refine (h.shrink hshrink).withEnded (s.sessionsOf tenantId userId) fun id hid => ?_
    obtain ⟨row, hrow, rfl⟩ := List.mem_map.mp hid
    obtain ⟨hrow, howner⟩ := List.mem_filter.mp hrow
    obtain ⟨made, hmade, heq⟩ := h.sessions row hrow
    refine ⟨⟨made, hmade, by rw [heq]⟩, fun later hlater hid => ?_⟩
    obtain ⟨before, hbefore, -, hlaterEq⟩ := hshrink.rows later hlater
    obtain rfl : before = row := by
      refine Table.eq_of_key_eq h.ids hbefore hrow ?_
      rw [hlaterEq] at hid
      exact hid
    refine absurd ?_ (not_mem_eraseAccount hmember hlater)
    rw [hlaterEq]
    exact of_decide_eq_true howner
  exact { hended with }

/-- **One step** keeps the invariants. -/
theorem step [DecidableEq β] (h : s.Inv honest app) (heffect : Effect honest app s t) :
    t.Inv honest app := by
  cases heffect with
  | settled hoidc response => exact h.settle hoidc response
  | redirected hoidc response browser hbuilt hfresh =>
      have hsettled := h.settle hoidc response
      exact hsettled.redirect hfresh
  | planted browser hvalue hmay => exact h.plant hvalue hmay
  | approved hmay => exact h.approve hmay
  | calledBack hoidc response tokens hstate hfound hclaims hpayload hmay =>
      have hsettled := h.settle hoidc response
      rw [hfound] at hsettled
      have hbound := h.bound_callback hoidc hstate hfound hclaims hpayload hmay
      exact hsettled.accept hbound rfl
  | developed browser displayName hmode hproduction hdomain =>
      exact h.accept (bound_development hmode hproduction hdomain) rfl
  | @identified i issue out hi hphase hout =>
      have hreach : Inv honest app (s.reach i issue .identified) := by
        refine h.reach hi ?_
        show none = issue.phase.session?
        rw [hphase]
        rfl
      have htables := hreach.withTables (AuthTables.upsertIdentity_sessions hout)
      exact { htables with }
  | created hi hphase hfresh htables => exact h.create hi hphase hfresh htables
  | @returned i issue row hi hphase =>
      have hreach : Inv honest app (s.reach i issue (.returned row)) := by
        refine h.reach hi ?_
        show some row = issue.phase.session?
        rw [hphase]
        rfl
      exact hreach.clear issue
  | failed hi hphase => exact h.reach hi hphase
  | requested hsession =>
      refine { h with requests := ?_ }
      intro request hrequest
      rcases List.mem_cons.mp hrequest with rfl | hold
      · exact h.served hsession
      · exact h.requests request hold
  | loggedOut hrequest now => exact h.logout hrequest now
  | erased hmember => exact h.erase hmember
  | expired tenantId now => exact h.shrink (Shrinks.filter _ _)

end Inv

theorem inv_start : (start : AuthRun β).Inv honest app where
  nonces := List.nodup_nil
  approvals _ ha := nomatch ha
  jars _ _ h := nomatch h
  discovery _ _ _ h := nomatch h
  bound _ h := nomatch h
  made _ h := nomatch h
  ids := List.nodup_nil
  sessions _ h := nomatch h
  requests _ h := nomatch h
  ended _ h := nomatch h

variable [DecidableEq β]

theorem Reached.inv (h : Reached honest app s) : s.Inv honest app := by
  refine Transition.Reachable.invariant ?_ ?_ h
  · rintro s rfl
    exact inv_start
  · intro s label t _ hs hstep
    exact hs.step (step_effect hstep)

/-- **Sign-ins are bound to browsers.**  A request that is authenticated acts for the user of an
identity that was established for it: in development by the email that was entered, and else by a
token of the identity provider with the nonce of the sign-in.  The user of an honest browser is
signed in in that browser only, and an honest browser signs in only its own user, if nobody has
put a cookie into it. -/
theorem authenticated_bound (h : Reached honest app s) {request : AuthenticatedRequest}
    (hrequest : request ∈ s.requests) :
    ∃ issue ∈ s.issues, ∃ made, issue.session? = some made ∧ request.ServedBy app made ∧
      request.session.principal.userId = issue.userId app.digest ∧
      request.session.principal.tenantId = app.config.defaultTenantId ∧
      issue.Bound honest app s.approvals s.planted := by
  have hinv := h.inv
  obtain ⟨made, ⟨issue, hissue, hsession⟩, hserved⟩ := hinv.requests request hrequest
  obtain ⟨huser, htenant⟩ := hinv.made issue hissue made hsession
  exact ⟨issue, hissue, made, hsession, hserved, hserved.userId.trans huser,
    hserved.tenantId.trans htenant, hinv.bound issue hissue⟩

theorem authenticated_bound_development : ∃ request ∈ developmentRun.requests,
    ∃ issue ∈ developmentRun.issues, request.session.principal.userId = issue.userId id ∧
      issue.Bound (fun _ => true) developmentApp developmentRun.approvals
        developmentRun.planted := by
  obtain ⟨request, hrequest⟩ : ∃ request, request ∈ developmentRun.requests :=
    ⟨_, List.mem_cons_self⟩
  obtain ⟨issue, hissue, _, _, _, huser, _, hbound⟩ :=
    authenticated_bound developmentRun_reached hrequest
  exact ⟨request, hrequest, issue, hissue, huser, hbound⟩

/-- **An ended session stays ended.**  Once a logout or an erasure has ended a session, no later
request is authenticated by it, whatever happens between. -/
theorem ended_not_authenticated (h : Reached honest app s)
    (hlater : Transition.Later (fun s => step honest app s) s t) {id : String} (hended : id ∈ s.ended)
    {token : String} {now : ℤ} {session : AuthenticatedSession}
    (hsession : t.authenticate app token now = some session) : session.sessionId ≠ id := by
  have hkept : id ∈ t.ended := by
    refine Transition.Later.keep (P := fun u => id ∈ u.ended) ?_ h hlater hended
    intro s label t _ hmem hstep
    cases step_effect hstep with
    | loggedOut hrequest now => exact List.mem_cons_of_mem _ hmem
    | erased hmember => exact List.mem_append_right _ hmem
    | _ => exact hmem
  have hinv : t.Inv honest app := Reached.inv (h.later hlater)
  obtain ⟨row, hrow, -, hrevoked, -, member, -, -, rfl⟩ :=
    setAuth_eq_some (authenticate_eq_some hsession)
  intro hid
  have hsome := (hinv.ended id hkept).2 row hrow hid
  rw [hrevoked] at hsome
  cases hsome

/-- Signed out. -/
def signedOutRun : AuthRun Unit :=
  (step (fun _ => true) developmentApp developmentRun
    (.logout (developmentRun.requests.head (by decide)) 3)).get rfl

/-- Signed in again. -/
def signedInAgainRun : AuthRun Unit :=
  (Transition.exec (fun s => step (fun _ => true) developmentApp s) signedOutRun
    (developmentSteps 1 "other" "fresh")).get rfl

theorem ended_not_authenticated_development : ∃ session : AuthenticatedSession,
    signedInAgainRun.authenticate developmentApp "fresh" 4 = some session ∧
      session.sessionId ≠ "session" := by
  have hreached : Reached (fun _ => true) developmentApp signedOutRun :=
    developmentRun_reached.next _ (Option.some_get _).symm
  obtain ⟨session, hsession⟩ : ∃ session,
      signedInAgainRun.authenticate developmentApp "fresh" 4 = some session := ⟨_, rfl⟩
  exact ⟨session, hsession, ended_not_authenticated hreached
    (Transition.Later.of_exec (Option.some_get _).symm) (by decide) hsession⟩

end AuthRun

end RecruitingOs
