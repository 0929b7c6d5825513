import Mathlib.Data.List.Pairwise
import RecruitingOs.Auth.ConnectedAccounts
import RecruitingOs.Privacy.Effect

/-!
# Whose accounts there are

A credential that the vault answers for a user holds tokens of an account whose owner has approved a
request of that user to connect it, and no other user's; the user has consented to the processing,
and the consent is in the audit log (`credential_approved`).  Refreshes keep it so, and planted
cookies do not change it.
-/

namespace RecruitingOs

open Database (CredentialKey)

/-- An account was approved on a request of the connection. -/
def Connect.Approved (app : ConnectApp) (c : Connect) (approval : AccountApproval) : Prop :=
  c.state.provider = approval.provider ∧
    if app.checksChallenge approval.provider then
      app.challenge c.state.verifier = approval.challenge
    else c.state.state = approval.state

/-- No code is bound to two such connections. -/
def Connect.Differ (app : ConnectApp) (c d : Connect) : Prop :=
  c.state.state ≠ d.state.state ∧ app.challenge c.state.verifier ≠ app.challenge d.state.verifier

instance (app : ConnectApp) : Std.Symm (Connect.Differ app) :=
  ⟨fun _ _ h => ⟨h.1.symm, h.2.symm⟩⟩

/-- The account of a grant was approved for a triple. -/
def Owned (app : ConnectApp) (connects : List Connect) (key : CredentialKey)
    (grant : ProviderGrant) : Prop :=
  ∃ c ∈ connects, c.state.key = key ∧ c.Approved app grant.approval

/-- The tokens of a credential were granted for a triple. -/
structure Held (app : ConnectApp) (connects : List Connect) (grants : List ProviderGrant)
    (key : CredentialKey) (credential : ProviderCredential) : Prop where
  metadata : credential.metadata = none
  access : ∃ grant ∈ grants, grant.accessToken = credential.accessToken ∧
    Owned app connects key grant
  refresh : ∀ token, credential.refreshToken = some token → token ≠ "" →
    ∃ grant ∈ grants, grant.refreshToken = some token ∧ Owned app connects key grant

/-- A row was sealed by the vault, for its own triple. -/
def SealedRow (app : ConnectApp) (connects : List Connect) (grants : List ProviderGrant)
    (row : CredentialRow) : Prop :=
  ∃ credential nonce, Held app connects grants row.key credential ∧ nonce.length = 12 ∧
    row.encryptedPayload = (app.vault.sealed row.key credential nonce).encryptedPayload ∧
    row.keyVersion = app.vault.keyVersion

/-- Equal tokens are tokens of one approval. -/
structure SameTokens (grants : List ProviderGrant) : Prop where
  access : ∀ a ∈ grants, ∀ b ∈ grants, a.accessToken = b.accessToken → a.approval = b.approval
  refresh : ∀ a ∈ grants, ∀ b ∈ grants, ∀ token, token ≠ "" → a.refreshToken = some token →
    b.refreshToken = some token → a.approval = b.approval

/-- The credential that a refresh works on. -/
def RefreshPhase.credential : RefreshPhase → ProviderCredential
  | .refreshing credential | .putting credential => credential

section Lists

variable {app : ConnectApp} {connects connects' : List Connect} {grants grants' : List ProviderGrant}
  {key : CredentialKey} {credential : ProviderCredential} {row : CredentialRow}

theorem Owned.mono (h : ∀ c ∈ connects, c ∈ connects') {grant : ProviderGrant}
    (howned : Owned app connects key grant) : Owned app connects' key grant := by
  obtain ⟨c, hc, hkey, happroved⟩ := howned
  exact ⟨c, h c hc, hkey, happroved⟩

theorem Held.mono (hconnects : ∀ c ∈ connects, c ∈ connects') (hgrants : ∀ g ∈ grants, g ∈ grants')
    (h : Held app connects grants key credential) : Held app connects' grants' key credential := by
  refine ⟨h.metadata, ?_, fun token htoken hne => ?_⟩
  · obtain ⟨grant, hgrant, haccess, howned⟩ := h.access
    exact ⟨grant, hgrants grant hgrant, haccess, howned.mono hconnects⟩
  · obtain ⟨grant, hgrant, hrefresh, howned⟩ := h.refresh token htoken hne
    exact ⟨grant, hgrants grant hgrant, hrefresh, howned.mono hconnects⟩

theorem SealedRow.mono (hconnects : ∀ c ∈ connects, c ∈ connects')
    (hgrants : ∀ g ∈ grants, g ∈ grants') (h : SealedRow app connects grants row) :
    SealedRow app connects' grants' row := by
  obtain ⟨credential, nonce, hheld, hrow⟩ := h
  exact ⟨credential, nonce, hheld.mono hconnects hgrants, hrow⟩

theorem SameTokens.cons {new : ProviderGrant} (h : SameTokens grants)
    (hfresh : ∀ grant ∈ grants, grant.approval = new.approval ∨
      (grant.accessToken ≠ new.accessToken ∧
        (new.refreshToken = none ∨ new.refreshToken = some "" ∨
          grant.refreshToken ≠ new.refreshToken))) : SameTokens (new :: grants) := by
  have haccess : ∀ a ∈ grants, a.accessToken = new.accessToken → a.approval = new.approval :=
    fun a ha heq => (hfresh a ha).resolve_right fun hdiff => hdiff.1 heq
  have hrefresh : ∀ a ∈ grants, ∀ token, token ≠ "" → a.refreshToken = some token →
      new.refreshToken = some token → a.approval = new.approval := by
    intro a ha token hne hold hnew
    refine (hfresh a ha).resolve_right ?_
    rintro ⟨-, hnone | hempty | hdiff⟩
    · rw [hnew] at hnone
      cases hnone
    · exact hne (Option.some.inj (hnew.symm.trans hempty))
    · exact hdiff (hold.trans hnew.symm)
  constructor
  · intro a ha b hb heq
    rcases List.mem_cons.mp ha with rfl | holdA <;> rcases List.mem_cons.mp hb with rfl | holdB
    · rfl
    · exact (haccess b holdB heq.symm).symm
    · exact haccess a holdA heq
    · exact h.access a holdA b holdB heq
  · intro a ha b hb token hne htokenA htokenB
    rcases List.mem_cons.mp ha with rfl | holdA <;> rcases List.mem_cons.mp hb with rfl | holdB
    · rfl
    · exact (hrefresh b holdB token hne htokenB htokenA).symm
    · exact hrefresh a holdA token hne htokenA htokenB
    · exact h.refresh a holdA b holdB token hne htokenA htokenB

/-- A credential that a refresh has answered is held as the one that was refreshed. -/
theorem Held.refreshed {token : TokenAnswer} {approval : AccountApproval} {now : ℤ}
    {refreshed : ProviderCredential} {presented : String} (h : Held app connects grants key credential)
    (htokens : SameTokens grants) (hpresented : credential.refreshToken = some presented)
    (hne : presented ≠ "")
    (hgrant : ∃ grant ∈ grants, grant.approval = approval ∧ grant.refreshToken = some presented)
    (hrefresh : refreshCredential credential token now = some refreshed) :
    Held app connects (ConnectRun.issued approval token :: grants) key refreshed := by
  obtain ⟨old, hold, holdToken, howned⟩ := h.refresh presented hpresented hne
  -- the account of the refresh token is the account that was held
  have hissued : Owned app connects key (ConnectRun.issued approval token) := by
    obtain ⟨grant, hmem, rfl, htoken⟩ := hgrant
    rw [htokens.refresh grant hmem old hold presented hne htoken holdToken]
    exact howned
  unfold refreshCredential at hrefresh
  rw [hpresented] at hrefresh
  split at hrefresh
  · rename_i refreshToken accessToken hfilter haccess
    cases hrefresh
    obtain rfl : presented = refreshToken :=
      Option.some.inj (Option.filter_eq_some_iff.mp hfilter).1
    refine ⟨h.metadata, ⟨_, List.mem_cons_self, ?_, hissued⟩, fun kept hkept hkeptNe => ?_⟩
    · show token.accessToken.getD "" = accessToken
      rw [(Option.filter_eq_some_iff.mp haccess).1, Option.getD_some]
    · cases hnew : token.refreshToken with
      | some fresh =>
          obtain rfl : fresh = kept := by simpa [hnew] using hkept
          exact ⟨_, List.mem_cons_self, hnew, hissued⟩
      | none =>
          obtain rfl : presented = kept := by simpa [hnew] using hkept
          exact ⟨old, List.mem_cons_of_mem _ hold, holdToken, howned⟩
  · cases hrefresh

/-- What the vault answers was held. -/
theorem held_of_get {db : Database} (hrows : ∀ row ∈ db.credentials, SealedRow app connects grants row)
    (hget : app.vault.get db key = .ok (some credential)) :
    Held app connects grants key credential := by
  unfold Vault.get at hget
  split at hget
  · cases hget
  · rename_i stored hstored
    have hkey : stored.key = key := by simpa using List.find?_some hstored
    obtain ⟨sealedCredential, nonce, hheld, hnonce, hpayload, hversion⟩ :=
      hrows stored (List.mem_of_find?_eq_some hstored)
    rw [hkey] at hheld hpayload
    split at hget
    · cases hget
    · rw [Vault.opened_sealed app.lawful hnonce (app.parse_stringify _ hheld.metadata) hpayload
        hversion] at hget
      cases hget
      exact hheld

/-- A put seals the row of its triple. -/
theorem sealedRow_of_saved {db db' : Database} {nonce : List UInt8} (hnonce : nonce.length = 12)
    (hrows : ∀ row ∈ db.credentials, SealedRow app connects grants row)
    (hheld : Held app connects grants key credential)
    (hsaved : Database.Saved db db' (app.vault.sealed key credential nonce)) :
    ∀ row ∈ db'.credentials, SealedRow app connects grants row := by
  intro row hrow
  by_cases hsame : row.key = key
  · obtain ⟨-, hpayload, hversion⟩ := hsaved.fresh row hrow hsame
    subst hsame
    exact ⟨credential, nonce, hheld, hnonce, hpayload, hversion⟩
  · exact hrows row ((hsaved.others row hsame).mp hrow)

end Lists

/-! ### The vault's steps -/

namespace VaultRun

variable {vault : Vault} {getTime : String → Option ℤ} {skewMs : ℤ} {s t : VaultRun}

theorem mem_drop {c : ℕ} {call : RefreshCall} (h : call ∈ (s.drop c).calls) : call ∈ s.calls :=
  List.mem_of_mem_filter h

theorem step_get {c : ℕ} {key : CredentialKey} {now : ℤ}
    (h : s.step vault getTime skewMs (.get c key now) = some t) :
    t.db = s.db ∧ ∀ call ∈ t.calls, call ∈ s.calls ∨ ∃ credential,
      call = ⟨c, key, .refreshing credential⟩ ∧ vault.get s.db key = .ok (some credential) := by
  simp only [step] at h
  split at h
  · cases h
  · split at h
    · rename_i credential hget
      split at h
      · cases h
        refine ⟨rfl, fun call hcall => ?_⟩
        rcases List.mem_cons.mp hcall with rfl | hold
        · exact .inr ⟨credential, rfl, hget⟩
        · exact .inl hold
      · cases h
        exact ⟨rfl, fun call hcall => .inl hcall⟩
    · cases h
      exact ⟨rfl, fun call hcall => .inl hcall⟩

theorem step_refresh {c : ℕ} {token : TokenAnswer} {now : ℤ}
    (h : s.step vault getTime skewMs (.refresh c token now) = some t) :
    t.db = s.db ∧ ∀ call ∈ t.calls, call ∈ s.calls ∨ ∃ old credential refreshed,
      s.call? c = some old ∧ old.phase = .refreshing credential ∧
        refreshCredential credential token now = some refreshed ∧
        call = ⟨c, old.key, .putting refreshed⟩ := by
  simp only [step] at h
  split at h
  · rename_i id key credential hcall
    split at h
    · cases h
      exact ⟨rfl, fun call hmem => .inl (mem_drop hmem)⟩
    · rename_i refreshed hrefresh
      cases h
      refine ⟨rfl, fun call hmem => ?_⟩
      rcases List.mem_cons.mp hmem with rfl | hold
      · exact .inr ⟨_, credential, refreshed, hcall, rfl, hrefresh, rfl⟩
      · exact .inl (mem_drop hold)
  · cases h

theorem step_put {c : ℕ} {nonce : List UInt8}
    (h : s.step vault getTime skewMs (.put c nonce) = some t) :
    (∀ call ∈ t.calls, call ∈ s.calls) ∧ (t.db = s.db ∨ ∃ call ∈ s.calls,
      Database.Saved s.db t.db (vault.sealed call.key call.phase.credential nonce)) := by
  simp only [step] at h
  split at h
  · rename_i id key refreshed hcall
    split at h
    · cases h
      exact ⟨fun _ => mem_drop, .inl rfl⟩
    · rename_i db hput
      cases h
      exact ⟨fun _ => mem_drop, .inr ⟨_, (call?_some hcall).1,
        Database.saveCredential_ok Vault.sealed_revokedAt (Vault.put_ok hput)⟩⟩
  · cases h

theorem step_callback {key : CredentialKey} {credential : ProviderCredential} {nonce : List UInt8}
    (h : s.step vault getTime skewMs (.callback key credential nonce) = some t) :
    t.calls = s.calls ∧
      (t.db = s.db ∨ Database.Saved s.db t.db (vault.sealed key credential nonce)) := by
  simp only [step] at h
  split at h
  · cases h
    exact ⟨rfl, .inl rfl⟩
  · rename_i db hput
    cases h
    exact ⟨rfl, .inr (Database.saveCredential_ok Vault.sealed_revokedAt (Vault.put_ok hput))⟩

end VaultRun

/-! ### Every run -/

/-- The consent of a connection, which an erasure may have made anonymous. -/
def Recorded (events : List AuditEventRow) (c : Connect) : Prop :=
  (∃ id requestId, c.event = connectEvent id requestId c.state) ∧
    (c.event ∈ events ∨ Database.anonymousEvent c.event ∈ events)

/-- An event stays, if need be without its actor. -/
theorem Recorded.updateWhere {events : List AuditEventRow} {p : AuditEventRow → Bool} {c : Connect}
    (h : Recorded events c) :
    Recorded (Table.updateWhere p Database.anonymousEvent events) c := by
  refine h.imp_right fun hevent => ?_
  rcases hevent with hmem | hmem
  · by_cases hp : p c.event
    · exact .inr (Table.mem_updateWhere.mpr ⟨_, hmem, if_pos hp⟩)
    · exact .inl (Table.mem_updateWhere.mpr ⟨_, hmem, if_neg hp⟩)
  · right
    refine Table.mem_updateWhere.mpr ⟨_, hmem, ?_⟩
    split <;> rfl

namespace ConnectRun

variable {β : Type} {app : ConnectApp} {s t : ConnectRun β}

/-- The state of a cookie that is valid is that of a connection. -/
def Presents (app : ConnectApp) (jar : β → Option String) (connects : List Connect) : Prop :=
  ∀ browser cookie text state, jar browser = some cookie → app.signer.unsign cookie = some text →
    ProviderOAuthState.ofText text = some state → ∃ c ∈ connects, c.state = state

/-- What holds in every state of every run. -/
structure Inv (app : ConnectApp) (s : ConnectRun β) : Prop where
  distinct : s.connects.Pairwise (Connect.Differ app)
  recorded : ∀ c ∈ s.connects, Recorded s.vault.db.auditEvents c
  jar : Presents app s.jar s.connects
  approved : ∀ grant ∈ s.grants, grant.approval ∈ s.approvals
  tokens : SameTokens s.grants
  exchanged : ∀ e ∈ s.exchanged, Held app s.connects s.grants e.key e.credential
  calls : ∀ call ∈ s.vault.calls, Held app s.connects s.grants call.key call.phase.credential
  rows : ∀ row ∈ s.vault.db.credentials, SealedRow app s.connects s.grants row

theorem Initial.inv (h : Initial s) : s.Inv app where
  distinct := by rw [h.connects]; exact List.Pairwise.nil
  recorded := by rw [h.connects]; exact fun _ h => nomatch h
  jar := fun browser cookie _ _ hcookie => by
    rw [h.jar browser] at hcookie
    cases hcookie
  approved := by rw [h.grants]; exact fun _ h => nomatch h
  tokens := by rw [h.grants]; exact ⟨fun _ h => (nomatch h), fun _ h => (nomatch h)⟩
  exchanged := by rw [h.exchanged]; exact fun _ h => nomatch h
  calls := by rw [h.calls]; exact fun _ h => nomatch h
  rows := by rw [h.credentials]; exact fun _ h => nomatch h

/-- The state that a callback is served with belongs to a connection. -/
theorem Presents.connect {browser : β} {state : ProviderOAuthState}
    (h : Presents app s.jar s.connects) (hstate : s.presentedState app browser = some state) :
    ∃ c ∈ s.connects, c.state = state := by
  obtain ⟨text, htext, hparse⟩ := Option.bind_eq_some_iff.mp hstate
  obtain ⟨cookie, hcookie, hunsign⟩ := Option.bind_eq_some_iff.mp htext
  exact h browser cookie text state (Option.filter_eq_some_iff.mp hcookie).1 hunsign hparse

theorem Presents.update [DecidableEq β] {browser : β} {cookie : String} {connects : List Connect}
    (h : Presents app s.jar connects)
    (hnew : ∀ text state, app.signer.unsign cookie = some text →
      ProviderOAuthState.ofText text = some state → ∃ c ∈ connects, c.state = state) :
    Presents app (Function.update s.jar browser (some cookie)) connects := by
  intro other found text state hfound hunsign hparse
  by_cases hsame : other = browser
  · rw [hsame, Function.update_self] at hfound
    cases hfound
    exact hnew text state hunsign hparse
  · rw [Function.update_of_ne hsame] at hfound
    exact h other found text state hfound hunsign hparse

theorem Presents.mono {jar : β → Option String} {connects connects' : List Connect}
    (hconnects : ∀ c ∈ connects, c ∈ connects') (h : Presents app jar connects) :
    Presents app jar connects' := by
  intro browser cookie text state hcookie hunsign hparse
  obtain ⟨c, hc, hstate⟩ := h browser cookie text state hcookie hunsign hparse
  exact ⟨c, hconnects c hc, hstate⟩

theorem Inv.connect [DecidableEq β] {browser : β} {provider : OAuthProvider}
    {userId tenantId state verifier eventId requestId : String} (h : s.Inv app)
    (hstep : s.connect app browser provider userId tenantId state verifier eventId requestId =
      some t) : t.Inv app := by
  unfold ConnectRun.connect at hstep
  split at hstep
  · cases hstep
  · rename_i hguard
    obtain ⟨-, hfresh⟩ := not_or.mp hguard
    obtain ⟨-, -, hnew⟩ := of_decide_eq_true (not_not.mp hfresh)
    split at hstep
    · cases hstep
    · rename_i built query hauthorization
      obtain ⟨-, -, -, hstate, hverifier, -⟩ :=
        ProviderConfiguration.authorization_ok hauthorization
      dsimp only at hstep
      split at hstep
      · cases hstep
      · rename_i events hevents
        obtain ⟨-, rfl⟩ := Database.insertAudit_eq_ok.mp hevents
        cases hstep
        have hold : ∀ c ∈ s.connects,
            c ∈ (⟨built, connectEvent eventId requestId built⟩ : Connect) :: s.connects :=
          fun c hc => List.mem_cons_of_mem _ hc
        constructor
        case distinct =>
          refine List.Pairwise.cons (fun c hc => ?_) h.distinct
          obtain ⟨hstateNe, hchallengeNe⟩ := of_decide_eq_true (List.all_eq_true.mp hnew c hc)
          show built.state ≠ _ ∧ app.challenge built.verifier ≠ _
          rw [hstate, hverifier]
          exact ⟨hstateNe.symm, hchallengeNe.symm⟩
        case recorded =>
          intro c hc
          rcases List.mem_cons.mp hc with rfl | hc
          · exact ⟨⟨eventId, requestId, rfl⟩,
              .inl (List.mem_append_right _ (List.mem_singleton.mpr rfl))⟩
          · refine (h.recorded c hc).imp_right fun hevent => hevent.imp ?_ ?_
            · exact List.mem_append_left _
            · exact List.mem_append_left _
        case jar =>
          refine Presents.update (h.jar.mono hold) fun text found hunsign hparse => ?_
          rw [app.signer.unsign_sign] at hunsign
          cases hunsign
          exact ⟨_, List.mem_cons_self, (ProviderOAuthState.eq_of_ofText hparse).symm⟩
        case approved => exact h.approved
        case tokens => exact h.tokens
        case exchanged => exact fun e he => (h.exchanged e he).mono hold fun _ hg => hg
        case calls => exact fun call hcall => (h.calls call hcall).mono hold fun _ hg => hg
        case rows => exact fun row hrow => (h.rows row hrow).mono hold fun _ hg => hg

theorem Inv.plant [DecidableEq β] {browser : β} {cookie : String} {source : PlantedCookie β} (h : s.Inv app)
    (hstep : s.plant app browser cookie source = some t) : t.Inv app := by
  obtain ⟨⟨hvalue, hmay⟩, heq⟩ := Option.ite_none_right_eq_some.mp hstep
  cases heq
  refine { h with jar := h.jar.update fun text state hunsign hparse => ?_ }
  rw [hvalue] at hunsign
  cases source with
  | login l =>
      -- a cookie of a sign-in names no provider
      cases hunsign
      rw [providerState_oidc] at hparse
      cases hparse
  | provider planted =>
      cases hunsign
      obtain ⟨c, hc, hsame⟩ := List.any_eq_true.mp hmay
      exact ⟨c, hc, (of_decide_eq_true hsame).trans (ProviderOAuthState.eq_of_ofText hparse).symm⟩
  | forged => cases hunsign

theorem Inv.approve {approval : AccountApproval} (h : s.Inv app)
    (hstep : s.approve approval = some t) : t.Inv app := by
  obtain ⟨-, heq⟩ := Option.ite_none_right_eq_some.mp hstep
  cases heq
  exact { h with approved := fun grant hgrant => List.mem_cons_of_mem _ (h.approved grant hgrant) }

theorem freshTokens_iff {new : ProviderGrant} (h : s.freshTokens new) :
    ∀ grant ∈ s.grants, grant.approval = new.approval ∨
      (grant.accessToken ≠ new.accessToken ∧
        (new.refreshToken = none ∨ new.refreshToken = some "" ∨
          grant.refreshToken ≠ new.refreshToken)) :=
  fun grant hgrant => of_decide_eq_true (List.all_eq_true.mp h grant hgrant)

theorem Inv.callback {browser : β} {provider : OAuthProvider}
    {userId tenantId code state : String} {answer : JsonResponse TokenAnswer}
    {approval : AccountApproval} {now : ℤ} (h : s.Inv app)
    (hstep : s.callback app browser provider userId tenantId code state answer approval now =
      some t) : t.Inv app := by
  unfold ConnectRun.callback at hstep
  split at hstep
  · cases hstep
  · obtain ⟨presented, hpresented, hstep⟩ := Option.bind_eq_some_iff.mp hstep
    split at hstep
    · cases hstep
    · rename_i hmismatch
      obtain ⟨hstate, hmismatch⟩ := not_or.mp hmismatch
      obtain ⟨hprovider, -⟩ := not_or.mp hmismatch
      split at hstep
      · cases hstep
        exact h
      · rename_i credential hcredential
        obtain ⟨-, token, rfl, haccess, -, hrefresh, hmetadata⟩ :=
          ProviderConfiguration.callback_ok hcredential
        dsimp only at hstep
        obtain ⟨⟨hown, hexchange, htokens⟩, heq⟩ := Option.ite_none_right_eq_some.mp hstep
        cases heq
        obtain ⟨hmem, -, hbound⟩ := of_decide_eq_true hexchange
        obtain ⟨c, hc, hcstate⟩ := h.jar.connect hpresented
        -- the code was issued on the request of this connection
        have hissued : Owned app s.connects presented.key (issued approval token) := by
          refine ⟨c, hc, by rw [hcstate], ?_, ?_⟩
          · rw [hcstate]
            exact (not_not.mp hprovider).trans hown.symm
          · show if app.checksChallenge approval.provider then _ else _
            rw [hcstate]
            split
            · rename_i hchecks
              rw [if_pos hchecks] at hbound
              exact hbound.symm
            · rename_i hchecks
              rw [if_neg hchecks] at hbound
              exact (not_not.mp hstate).trans hbound.symm
        have hgrants : ∀ g ∈ s.grants, g ∈ issued approval token :: s.grants :=
          fun g hg => List.mem_cons_of_mem _ hg
        constructor
        case distinct => exact h.distinct
        case recorded => exact h.recorded
        case jar => exact h.jar
        case approved =>
          intro grant hgrant
          rcases List.mem_cons.mp hgrant with rfl | hold
          · exact hmem
          · exact h.approved grant hold
        case tokens => exact h.tokens.cons (freshTokens_iff htokens)
        case exchanged =>
          intro e he
          rcases List.mem_append.mp he with hold | hnew
          · exact (h.exchanged e hold).mono (fun _ hc => hc) hgrants
          · rw [List.mem_singleton.mp hnew]
            refine ⟨hmetadata, ⟨_, List.mem_cons_self, ?_, hissued⟩, fun kept hkept _ =>
              ⟨_, List.mem_cons_self, ?_, hissued⟩⟩
            · show token.accessToken.getD "" = credential.accessToken
              rw [haccess, Option.getD_some]
            · exact hrefresh.symm.trans hkept
        case calls => exact fun call hcall => (h.calls call hcall).mono (fun _ hc => hc) hgrants
        case rows => exact fun row hrow => (h.rows row hrow).mono (fun _ hc => hc) hgrants

/-! The vault's steps. -/

theorem Inv.store {i : ℕ} {nonce : List UInt8} (h : s.Inv app)
    (hstep : s.store app i nonce = some t) : t.Inv app := by
  obtain ⟨e, he, hstep⟩ := Option.bind_eq_some_iff.mp hstep
  split at hstep
  · cases hstep
  · rename_i hnonce
    obtain ⟨vault, hvault, rfl⟩ := Option.map_eq_some_iff.mp hstep
    obtain ⟨hcalls, hdb⟩ := VaultRun.step_callback hvault
    have hheld := h.exchanged e (List.mem_of_getElem? he)
    have hexchanged : ∀ other ∈ s.exchanged.eraseIdx i,
        Held app s.connects s.grants other.key other.credential :=
      fun other hother => h.exchanged other (List.mem_of_mem_eraseIdx hother)
    have hcallsHeld : ∀ call ∈ vault.calls,
        Held app s.connects s.grants call.key call.phase.credential := by
      rw [hcalls]
      exact h.calls
    rcases hdb with hsame | hsaved
    · refine { h with
        recorded := ?_, exchanged := hexchanged, calls := hcallsHeld, rows := ?_ }
      · show ∀ c ∈ s.connects, Recorded vault.db.auditEvents c
        rw [hsame]
        exact h.recorded
      · show ∀ row ∈ vault.db.credentials, _
        rw [hsame]
        exact h.rows
    · refine { h with
        recorded := ?_, exchanged := hexchanged, calls := hcallsHeld
        rows := sealedRow_of_saved (not_not.mp hnonce) h.rows hheld hsaved }
      show ∀ c ∈ s.connects, Recorded vault.db.auditEvents c
      rw [hsaved.only]
      exact h.recorded

theorem Inv.get {c : ℕ} {key : CredentialKey} {now : ℤ} (h : s.Inv app)
    (hstep : s.vaultStep app (.get c key now) = some t) : t.Inv app := by
  obtain ⟨vault, hvault, rfl⟩ := Option.map_eq_some_iff.mp hstep
  obtain ⟨hdb, hcalls⟩ := VaultRun.step_get hvault
  refine { h with recorded := ?_, calls := fun call hcall => ?_, rows := ?_ }
  · show ∀ c ∈ s.connects, Recorded vault.db.auditEvents c
    rw [hdb]
    exact h.recorded
  · rcases hcalls call hcall with hold | ⟨credential, rfl, hget⟩
    · exact h.calls call hold
    · exact held_of_get h.rows hget
  · show ∀ row ∈ vault.db.credentials, _
    rw [hdb]
    exact h.rows

theorem Inv.refresh {c : ℕ} {token : TokenAnswer} {approval : AccountApproval} {now : ℤ}
    (h : s.Inv app) (hstep : s.refresh app c token approval now = some t) : t.Inv app := by
  obtain ⟨⟨hgrant, hfresh⟩, hstep⟩ := Option.ite_none_right_eq_some.mp hstep
  obtain ⟨vault, hvault, rfl⟩ := Option.map_eq_some_iff.mp hstep
  obtain ⟨hdb, hcalls⟩ := VaultRun.step_refresh hvault
  obtain ⟨grant, hmem, hof⟩ := List.any_eq_true.mp hgrant
  obtain ⟨happroval, hsome, htoken⟩ := of_decide_eq_true hof
  have hconnects : ∀ c ∈ s.connects, c ∈ s.connects := fun _ hc => hc
  have hgrants : ∀ g ∈ s.grants, g ∈ issued approval token :: s.grants :=
    fun g hg => List.mem_cons_of_mem _ hg
  constructor
  case distinct => exact h.distinct
  case recorded =>
    show ∀ c ∈ s.connects, Recorded vault.db.auditEvents c
    rw [hdb]
    exact h.recorded
  case jar => exact h.jar
  case approved =>
    intro other hother
    rcases List.mem_cons.mp hother with rfl | hold
    · show approval ∈ s.approvals
      rw [← happroval]
      exact h.approved grant hmem
    · exact h.approved other hold
  case tokens => exact h.tokens.cons (freshTokens_iff hfresh)
  case exchanged => exact fun e he => (h.exchanged e he).mono hconnects hgrants
  case calls =>
    intro call hcall
    rcases hcalls call hcall with hold | ⟨old, credential, refreshed, hfind, hphase, hrefresh, rfl⟩
    · exact (h.calls call hold).mono hconnects hgrants
    · have hold := h.calls old (VaultRun.call?_some hfind).1
      rw [hphase] at hold
      -- the token that the call presents is that of its credential
      have hpresented : s.presentedToken c = credential.refreshToken.filter (· ≠ "") := by
        unfold presentedToken
        rw [hfind, Option.bind_some, hphase]
      obtain ⟨presented, hpresentedSome⟩ := Option.isSome_iff_exists.mp hsome
      obtain ⟨hcredential, hne⟩ :=
        Option.filter_eq_some_iff.mp (hpresented.symm.trans hpresentedSome)
      exact hold.refreshed h.tokens hcredential (of_decide_eq_true hne)
        ⟨grant, hmem, happroval, htoken.trans hpresentedSome⟩ hrefresh
  case rows =>
    show ∀ row ∈ vault.db.credentials, _
    rw [hdb]
    exact fun row hrow => (h.rows row hrow).mono hconnects hgrants

theorem Inv.put {c : ℕ} {nonce : List UInt8} (h : s.Inv app) (hnonce : nonce.length = 12)
    (hstep : s.vaultStep app (.put c nonce) = some t) : t.Inv app := by
  obtain ⟨vault, hvault, rfl⟩ := Option.map_eq_some_iff.mp hstep
  obtain ⟨hcalls, hdb⟩ := VaultRun.step_put hvault
  have hcallsHeld : ∀ call ∈ vault.calls,
      Held app s.connects s.grants call.key call.phase.credential :=
    fun call hcall => h.calls call (hcalls call hcall)
  rcases hdb with hsame | ⟨call, hcall, hsaved⟩
  · refine { h with recorded := ?_, calls := hcallsHeld, rows := ?_ }
    · show ∀ c ∈ s.connects, Recorded vault.db.auditEvents c
      rw [hsame]
      exact h.recorded
    · show ∀ row ∈ vault.db.credentials, _
      rw [hsame]
      exact h.rows
  · refine { h with
      recorded := ?_, calls := hcallsHeld
      rows := sealedRow_of_saved hnonce h.rows (h.calls call hcall) hsaved }
    show ∀ c ∈ s.connects, Recorded vault.db.auditEvents c
    rw [hsaved.only]
    exact h.recorded

theorem Inv.abort {c : ℕ} (h : s.Inv app) (hstep : s.vaultStep app (.abort c) = some t) :
    t.Inv app := by
  obtain ⟨vault, hvault, rfl⟩ := Option.map_eq_some_iff.mp hstep
  obtain ⟨-, heq⟩ := Option.ite_none_right_eq_some.mp hvault
  cases heq
  exact { h with calls := fun call hcall => h.calls call (VaultRun.mem_drop hcall) }

theorem Inv.revoke {key : CredentialKey} {now : ℤ} (h : s.Inv app)
    (hstep : s.vaultStep app (.revoke key now) = some t) : t.Inv app := by
  obtain ⟨vault, hvault, rfl⟩ := Option.map_eq_some_iff.mp hstep
  cases hvault
  refine { h with rows := fun row hrow => ?_ }
  -- a revocation leaves the payload
  obtain ⟨old, hold, rfl⟩ := Table.mem_updateWhere.mp hrow
  split
  · exact h.rows old hold
  · exact h.rows old hold

theorem Inv.erase {dialect : Dialect} {tenantId userId operationId : String} {now : ℤ}
    (h : s.Inv app) (hstep : s.erase app dialect tenantId userId operationId now = some t) :
    t.Inv app := by
  unfold ConnectRun.erase at hstep
  split at hstep
  · cases hstep
  · rename_i db result herase
    cases hstep
    by_cases hmember : s.vault.db.isMember tenantId userId = true
    · have hswept := Database.eraseAccount_swept hmember herase
      refine { h with recorded := fun c hc => ?_, rows := fun row hrow => ?_ }
      · obtain ⟨foreign, audit, -, hevents⟩ := hswept.auditEvents
        show Recorded db.auditEvents c
        rw [hevents]
        exact (h.recorded c hc).updateWhere.updateWhere.imp_right fun hevent =>
          hevent.imp (List.mem_append_left _) (List.mem_append_left _)
      · exact h.rows row (List.mem_of_mem_filter (hswept.credentials.subset hrow))
    · rw [Database.eraseAccount_not_member (Bool.eq_false_iff.mpr hmember)] at herase
      cases herase
      exact h

theorem Inv.step [DecidableEq β] {label : ConnectStep β} (h : s.Inv app)
    (hstep : s.step app label = some t) : t.Inv app := by
  cases label with
  | connect browser provider userId tenantId state verifier eventId requestId =>
      exact h.connect hstep
  | plant browser cookie source => exact h.plant hstep
  | approve approval => exact h.approve hstep
  | callback browser provider userId tenantId code state answer approval now =>
      exact h.callback hstep
  | store i nonce => exact h.store hstep
  | get c key now => exact h.get hstep
  | refresh c token approval now => exact h.refresh hstep
  | put c nonce =>
      obtain ⟨hnonce, hstep⟩ := Option.ite_none_right_eq_some.mp hstep
      exact h.put hnonce hstep
  | abort c => exact h.abort hstep
  | revoke key now => exact h.revoke hstep
  | erase dialect tenantId userId operationId now => exact h.erase hstep

theorem Reached.inv [DecidableEq β] (h : Reached app s) : s.Inv app := by
  refine Transition.Reachable.invariant (fun _ hs => hs.inv) ?_ h
  intro s label t _ hs hstep
  exact hs.step hstep

/-- Two connections that an account was approved on are one. -/
theorem Inv.connect_unique (h : s.Inv app) {c d : Connect} {approval : AccountApproval}
    (hc : c ∈ s.connects) (hd : d ∈ s.connects) (hcApproved : c.Approved app approval)
    (hdApproved : d.Approved app approval) : c = d := by
  by_contra hne
  have hdiffer : Connect.Differ app c d := h.distinct.forall hc hd hne
  have hcBound := hcApproved.2
  have hdBound := hdApproved.2
  split at hcBound
  · rename_i hchecks
    rw [if_pos hchecks] at hdBound
    exact hdiffer.2 (hcBound.trans hdBound.symm)
  · rename_i hchecks
    rw [if_neg hchecks] at hdBound
    exact hdiffer.1 (hcBound.trans hdBound.symm)

end ConnectRun

/-! ### A deployment -/

namespace ProviderCredential

/-- A field that is a text. -/
def textField (value : Json) (key : String) : Option String :=
  match value.get? key with
  | some (.str text) => some text
  | _ => none

/-- The texts of a list. -/
def texts : Json → List String
  | .arr items => items.filterMap fun item =>
      match item with
      | .str text => some text
      | _ => none
  | _ => []

/-- `JSON.parse(text)`, of the text of a credential. -/
def ofText (text : String) : Option ProviderCredential :=
  (Json.parse text).bind fun value =>
    (textField value "accessToken").map fun accessToken =>
      { accessToken := accessToken
        refreshToken := textField value "refreshToken"
        expiresAt := textField value "expiresAt"
        scopes := ((value.get? "scopes").map texts).getD []
        metadata := value.get? "metadata" }

theorem printable_texts (scopes : List String) : (Json.arr (scopes.map .str)).printable := by
  show Json.printableItems (scopes.map .str) = true
  induction scopes with
  | nil => rfl
  | cons scope rest ih => exact decide_eq_true ⟨rfl, ih⟩

theorem texts_map (scopes : List String) : texts (.arr (scopes.map .str)) = scopes := by
  induction scopes with
  | nil => rfl
  | cons scope rest ih => exact congrArg (scope :: ·) ih

theorem ofText_stringify (credential : ProviderCredential) (h : credential.metadata = none) :
    ofText credential.stringify = some credential := by
  obtain ⟨accessToken, refreshToken, expiresAt, scopes, metadata⟩ := credential
  obtain rfl : metadata = none := h
  have hscopes := printable_texts scopes
  cases refreshToken <;> cases expiresAt <;>
  · unfold ofText stringify
    rw [Json.parse_stringify (by simpa [Json.printable, Json.printableFields] using hscopes)]
    exact congrArg (fun found => some (ProviderCredential.mk accessToken _ _ found none))
      (texts_map scopes)

end ProviderCredential

/-- The bytes of a character, the highest first. -/
def charBytes (c : Char) : List UInt8 :=
  [UInt8.ofNat (c.toNat / 65536), UInt8.ofNat (c.toNat / 256), UInt8.ofNat c.toNat]

/-- The characters of bytes. -/
def ofBytes : List UInt8 → List Char
  | a :: b :: c :: rest => Char.ofNat (a.toNat * 65536 + b.toNat * 256 + c.toNat) :: ofBytes rest
  | _ => []

theorem ofBytes_flatMap (text : List Char) : ofBytes (text.flatMap charBytes) = text := by
  induction text with
  | nil => rfl
  | cons c rest ih =>
      have hcode : (UInt8.ofNat (c.toNat / 65536)).toNat * 65536 +
          (UInt8.ofNat (c.toNat / 256)).toNat * 256 + (UInt8.ofNat c.toNat).toNat = c.toNat := by
        have hvalid : c.toNat < 1114112 := by
          have h := c.valid
          have hval : c.toNat = c.val.toNat := rfl
          rcases h with h | h <;> omega
        simp only [UInt8.toNat_ofNat']
        omega
      rw [List.flatMap_cons]
      show Char.ofNat _ :: ofBytes (rest.flatMap charBytes) = c :: rest
      rw [hcode, ih, Char.ofNat_toNat]

/-- A vault whose ciphertext is the text. -/
def openVault : Vault where
  crypto :=
    { encrypt := fun _ _ text => (List.replicate 16 0, text.toList.flatMap charBytes)
      decrypt := fun _ _ _ ciphertext => some (String.ofList (ofBytes ciphertext))
      parse := ProviderCredential.ofText }
  digest := fun _ => "0"
  keyVersion := "v1"

theorem openVault_lawful : openVault.crypto.Lawful where
  tag_length _ _ _ := rfl
  decrypt_encrypt nonce aad text := by
    show some (String.ofList (ofBytes (text.toList.flatMap charBytes))) = some text
    rw [ofBytes_flatMap, String.ofList_toList]

/-- One provider; its access tokens do not expire. -/
def connectApp : ConnectApp where
  configuration := fun _ => some ⟨some "client", none, some "https://recruiting-os.purdue.edu/c"⟩
  vault := openVault
  signer := markingSigner
  authority := fun _ => none
  challenge := fun verifier => verifier
  getTime := fun _ => none
  refreshSkewMs := 60000
  checksChallenge := fun _ => true
  lawful := openVault_lawful
  parse_stringify := ProviderCredential.ofText_stringify

namespace ConnectRun

/-- Before the first connection of a user. -/
def unconnected : ConnectRun Unit where
  vault := ⟨{ Database.empty with users := [⟨"usr_pete", "issuer", "pete"⟩] }, [], []⟩
  jar := fun _ => none
  exchanged := []
  connects := []
  approvals := []
  grants := []

/-- The account that the user connects. -/
def petesAccount : AccountApproval := ⟨.gmail, "pete@gmail.com", "state", "verifier", "code"⟩

/-- The user connects it. -/
def connected : ConnectRun Unit :=
  (Transition.exec (fun s => step connectApp s) unconnected
    [.connect () .gmail "usr_pete" "default" "state" "verifier" "aud_1" "req_1",
      .approve petesAccount,
      .callback () .gmail "usr_pete" "default" "code" "state"
        (.body ⟨some "access", none, none, some "mail"⟩) petesAccount 0,
      .store 0 (List.replicate 12 0)]).get (by decide +kernel)

end ConnectRun

end RecruitingOs
