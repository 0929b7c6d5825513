import RecruitingOs.Auth.SignInSafety

/-!
# Who becomes an administrator

A member has the role `platform_admin` exactly if a sign-in has granted it since the account was
last erased (`Bootstrapped`).  No part of the program grants `organization_editor`, so whoever may
act for an organization is such an administrator (`hasOrganizationAccess_iff`).
-/

namespace RecruitingOs

variable {β : Type} {honest : β → Bool} {app : AuthApp} {s t : AuthRun β}

/-- A sign-in has granted `platform_admin`, and the account was not erased since. -/
def Bootstrapped (app : AuthApp) (tenantId userId : String) : List (MemberEvent β) → Prop
  | [] => False
  | .signedIn issue :: before =>
      (tenantId = app.config.defaultTenantId ∧ userId = issue.userId app.digest ∧
        .platformAdmin ∈ issue.roles) ∨ Bootstrapped app tenantId userId before
  | .erased tenant user :: before =>
      ¬ (tenantId = tenant ∧ userId = user) ∧ Bootstrapped app tenantId userId before

/-- Why a sign-in grants `platform_admin`. -/
def Issue.Entitled (app : AuthApp) (issue : Issue β) : Prop :=
  (∃ email, issue.via = .development email) ∨
    ∃ email, issue.input.email = some email ∧
      app.lower (trim email) ∈ app.config.initialPlatformAdminEmails

theorem platformAdmin_mem_initialRoles {lower : String → String} {email : Option String}
    {admins : List String} (h : .platformAdmin ∈ initialRolesForIdentity lower email admins) :
    ∃ text, email = some text ∧ lower (trim text) ∈ admins := by
  unfold initialRolesForIdentity at h
  split at h
  · cases h with
    | tail _ h => cases h
  · rename_i text htext
    split at h
    · rename_i hadmin
      exact ⟨text, (Option.filter_eq_some_iff.mp htext).1, hadmin⟩
    · cases h with
      | tail _ h => cases h

namespace Issue.Bound

variable {approvals : List (Approval β)} {planted : List β} {issue : Issue β}

theorem roles_grantable (h : issue.Bound honest app approvals planted) : issue.roles ∈ grantable := by
  unfold Issue.Bound at h
  split at h
  · rw [h.roles]
    decide
  · obtain ⟨options, claims, -, -, -, hroles⟩ := h.verified
    rw [hroles]
    exact initialRolesForIdentity_grantable

theorem entitled (h : issue.Bound honest app approvals planted)
    (hadmin : .platformAdmin ∈ issue.roles) : issue.Entitled app := by
  unfold Issue.Bound at h
  split at h
  · rename_i email hvia
    exact .inl ⟨email, hvia⟩
  · obtain ⟨options, claims, -, -, hinput, hroles⟩ := h.verified
    rw [hroles] at hadmin
    obtain ⟨email, hemail, hadmin⟩ := platformAdmin_mem_initialRoles hadmin
    refine .inr ⟨email, ?_, hadmin⟩
    rw [hinput]
    exact hemail

end Issue.Bound

/-! ### Memberships -/

namespace AuthTables

variable {tables : AuthTables (Finset Role)}

theorem member?_isSome {tenantId userId : String} : (tables.member? tenantId userId).isSome ↔
    ∃ row ∈ tables.memberships, row.tenantId = tenantId ∧ row.userId = userId := by
  unfold member?
  rw [List.find?_isSome]
  simp [isMember]

/-- What a sign-in does to memberships. -/
structure Joined (tables after : AuthTables (Finset Role)) (tenantId userId : String)
    (roles : List Role) : Prop where
  member : (after.member? tenantId userId).isSome
  others : ∀ tenant user, (tables.member? tenant user).isSome → (after.member? tenant user).isSome
  rows : ∀ row ∈ after.memberships,
    (∃ before ∈ tables.memberships, row.tenantId = before.tenantId ∧ row.userId = before.userId ∧
      ∀ role, role ∈ row.roles ↔ role ∈ before.roles ∨
        (row.tenantId = tenantId ∧ row.userId = userId ∧ .platformAdmin ∈ roles ∧ role ∈ roles)) ∨
    (row.tenantId = tenantId ∧ row.userId = userId ∧ row.roles = roles.toFinset ∧
      tables.member? tenantId userId = none)

theorem joined_of_added {between : AuthTables (Finset Role)} {tenantId userId : String}
    {roles : List Role} {users : List IdentityRow}
    (h : addMembership { tables with users := users } ⟨tenantId, userId, roles.toFinset, []⟩ =
      .ok between) : (between.member? tenantId userId).isSome ∧
      (∀ row ∈ tables.memberships, row ∈ between.memberships) ∧
      ∀ row ∈ between.memberships, row ∈ tables.memberships ∨
        row = ⟨tenantId, userId, roles.toFinset, []⟩ ∧ tables.member? tenantId userId = none := by
  rcases addMembership_ok h with ⟨hmember, rfl⟩ | ⟨hnone, rfl⟩
  · exact ⟨hmember, fun _ hrow => hrow, fun _ hrow => .inl hrow⟩
  · refine ⟨member?_isSome.mpr ⟨_, List.mem_append_right _ List.mem_cons_self, rfl, rfl⟩,
      fun _ hrow => List.mem_append_left _ hrow, fun row hrow => ?_⟩
    exact (List.mem_append.mp hrow).imp_right fun hnew => ⟨List.mem_singleton.mp hnew, hnone⟩

theorem joined {digest : String → String} {input : IdentityInput} {tenantId : String}
    {roles : List Role} {out : AuthTables (Finset Role) × String}
    (h : tables.upsertIdentity roleSets digest input tenantId roles = .ok out) :
    Joined tables out.1 tenantId (userId digest input.identity) roles := by
  obtain ⟨-, users, between, hadded, hout⟩ := upsertIdentity_ok h
  obtain ⟨hmember, hold, hrows⟩ := joined_of_added hadded
  have hothers : ∀ tenant user, (tables.member? tenant user).isSome →
      (between.member? tenant user).isSome := by
    intro tenant user hsome
    obtain ⟨row, hrow, hkey⟩ := member?_isSome.mp hsome
    exact member?_isSome.mpr ⟨row, hold row hrow, hkey⟩
  rw [hout]
  by_cases hadmin : .platformAdmin ∈ roles
  · rw [if_pos hadmin]
    -- the update keeps who is a member, and adds the roles to the row of the user
    have hkeys : ∀ tenant user, (between.member? tenant user).isSome →
        ((between.grantRoles roleSets tenantId (userId digest input.identity) roles).member?
          tenant user).isSome := by
      intro tenant user hsome
      obtain ⟨row, hrow, htenant, huser⟩ := member?_isSome.mp hsome
      refine member?_isSome.mpr ⟨_, Table.mem_updateWhere.mpr ⟨row, hrow, rfl⟩, ?_⟩
      split
      · exact ⟨htenant, huser⟩
      · exact ⟨htenant, huser⟩
    refine ⟨hkeys _ _ hmember, fun tenant user hsome => hkeys _ _ (hothers tenant user hsome), ?_⟩
    intro row hrow
    obtain ⟨old, hold', rfl⟩ := Table.mem_updateWhere.mp hrow
    by_cases hsame : isMember tenantId (userId digest input.identity) old
    · rw [if_pos hsame]
      obtain ⟨htenant, huser⟩ := of_decide_eq_true hsame
      rcases hrows old hold' with hbefore | ⟨rfl, hnone⟩
      · refine .inl ⟨old, hbefore, rfl, rfl, fun role => ?_⟩
        simp [roleSets, htenant, huser, hadmin]
      · refine .inr ⟨rfl, rfl, ?_, hnone⟩
        simp [roleSets]
    · rw [if_neg hsame]
      rcases hrows old hold' with hbefore | ⟨rfl, -⟩
      · refine .inl ⟨old, hbefore, rfl, rfl, fun role => ?_⟩
        constructor
        · exact .inl
        · rintro (hrole | ⟨htenant, huser, -⟩)
          · exact hrole
          · exact absurd (decide_eq_true ⟨htenant, huser⟩) hsame
      · exact absurd (decide_eq_true ⟨rfl, rfl⟩) hsame
  · rw [if_neg hadmin]
    refine ⟨hmember, hothers, fun row hrow => ?_⟩
    rcases hrows row hrow with hbefore | ⟨rfl, hnone⟩
    · refine .inl ⟨row, hbefore, rfl, rfl, fun role => ?_⟩
      simp [hadmin]
    · exact .inr ⟨rfl, rfl, rfl, hnone⟩

theorem mem_eraseAccount_memberships {tenantId userId : String}
    (hmember : (tables.member? tenantId userId).isSome) {row : MemberRow (Finset Role)} :
    row ∈ (tables.eraseAccount tenantId userId).memberships ↔
      row ∈ tables.memberships ∧ ¬ (row.tenantId = tenantId ∧ row.userId = userId) := by
  unfold eraseAccount
  rw [if_neg (not_not.mpr hmember), List.mem_filter]
  simp only [isMember, decide_eq_true_eq]

end AuthTables

/-! ### The invariant -/

namespace AuthRun

/-- Roles and the history of sign-ins agree. -/
structure RoleInv (honest : β → Bool) (app : AuthApp) (s : AuthRun β) : Prop where
  rows : ∀ row ∈ s.tables.memberships,
    .platformAdmin ∈ row.roles ↔ Bootstrapped app row.tenantId row.userId s.history
  members : ∀ tenant user, Bootstrapped app tenant user s.history →
    (s.tables.member? tenant user).isSome
  editors : ∀ row ∈ s.tables.memberships, .organizationEditor ∉ row.roles
  history : ∀ issue, .signedIn issue ∈ s.history → issue.Bound honest app s.approvals s.planted

theorem not_editor_of_grantable {roles : List Role} (h : roles ∈ grantable) :
    .organizationEditor ∉ roles := by
  unfold grantable at h
  simp only [List.mem_cons, List.not_mem_nil, or_false] at h
  rcases h with rfl | rfl
  · decide
  · decide

namespace RoleInv

theorem signIn (h : s.RoleInv honest app) {i : ℕ} {issue : Issue β} {phase : IssuePhase}
    {out : AuthTables (Finset Role) × String}
    (hbound : issue.Bound honest app s.approvals s.planted)
    (hout : s.tables.upsertIdentity roleSets app.digest issue.input app.config.defaultTenantId
      issue.roles = .ok out) :
    RoleInv honest app
      { s.reach i issue phase with tables := out.1, history := .signedIn issue :: s.history } := by
  have hjoined := AuthTables.joined hout
  have heditor := not_editor_of_grantable hbound.roles_grantable
  refine ⟨fun row hrow => ?_, fun tenant user hboot => ?_, fun row hrow => ?_, fun old hold => ?_⟩
  · show _ ↔ (_ ∧ _ ∧ _) ∨ Bootstrapped app row.tenantId row.userId s.history
    rcases hjoined.rows row hrow with ⟨before, hbefore, htenant, huser, hroles⟩ |
      ⟨htenant, huser, hroles, hnone⟩
    · rw [hroles, h.rows before hbefore, ← htenant, ← huser]
      constructor
      · rintro (hold | ⟨htenant, huser, hadmin, -⟩)
        · exact .inr hold
        · exact .inl ⟨htenant, huser, hadmin⟩
      · rintro (⟨htenant, huser, hadmin⟩ | hold)
        · exact .inr ⟨htenant, huser, hadmin, hadmin⟩
        · exact .inl hold
    · -- who was no member before was not an administrator
      have hnot : ¬ Bootstrapped app row.tenantId row.userId s.history := by
        intro hboot
        have hsome := h.members _ _ hboot
        rw [htenant, huser, hnone] at hsome
        cases hsome
      rw [hroles, List.mem_toFinset]
      exact ⟨fun hadmin => .inl ⟨htenant, huser, hadmin⟩,
        fun hcase => hcase.elim (fun hsame => hsame.2.2) fun hboot => absurd hboot hnot⟩
  · rcases hboot with ⟨rfl, rfl, -⟩ | hold
    · exact hjoined.member
    · exact hjoined.others _ _ (h.members _ _ hold)
  · rcases hjoined.rows row hrow with ⟨before, hbefore, -, -, hroles⟩ | ⟨-, -, hroles, -⟩
    · rw [hroles]
      rintro (hold | ⟨-, -, -, hrole⟩)
      · exact h.editors before hbefore hold
      · exact heditor hrole
    · rw [hroles, List.mem_toFinset]
      exact heditor
  · rcases List.mem_cons.mp hold with hnew | hbefore
    · cases hnew
      exact hbound
    · exact h.history old hbefore

theorem erase (h : s.RoleInv honest app) {tenantId userId : String} {ended : List String}
    (hmember : (s.tables.member? tenantId userId).isSome) :
    RoleInv honest app
      { s with
        tables := s.tables.eraseAccount tenantId userId
        ended := ended
        history := .erased tenantId userId :: s.history } := by
  refine ⟨fun row hrow => ?_, fun tenant user hboot => ?_, fun row hrow => ?_, fun old hold => ?_⟩
  · obtain ⟨hrow, hother⟩ := (AuthTables.mem_eraseAccount_memberships hmember).mp hrow
    rw [h.rows row hrow]
    exact ⟨fun hboot => ⟨hother, hboot⟩, fun hboot => hboot.2⟩
  · obtain ⟨row, hrow, htenant, huser⟩ := AuthTables.member?_isSome.mp (h.members _ _ hboot.2)
    refine AuthTables.member?_isSome.mpr ⟨row, ?_, htenant, huser⟩
    refine (AuthTables.mem_eraseAccount_memberships hmember).mpr ⟨hrow, ?_⟩
    rw [htenant, huser]
    exact hboot.1
  · exact h.editors row ((AuthTables.mem_eraseAccount_memberships hmember).mp hrow).1
  · rcases List.mem_cons.mp hold with hnew | hbefore
    · cases hnew
    · exact h.history old hbefore

/-- More approvals and cookies leave it as it is. -/
theorem mono (h : s.RoleInv honest app) (hmemberships : t.tables.memberships = s.tables.memberships)
    (hhistory : t.history = s.history) (happrovals : ∀ a ∈ s.approvals, a ∈ t.approvals)
    (hplanted : ∀ b ∈ s.planted, b ∈ t.planted) : t.RoleInv honest app := by
  obtain ⟨hrows, hmembers, heditors, hbound⟩ := h
  rw [← hmemberships] at hrows heditors
  rw [← hhistory] at hrows hmembers hbound
  refine ⟨hrows, fun tenant user hboot => ?_, heditors, fun issue hissue => ?_⟩
  · unfold AuthTables.member?
    rw [hmemberships]
    exact hmembers tenant user hboot
  · exact Bound.mono (hbound issue hissue) happrovals hplanted

/-- **One step** keeps roles and history in agreement. -/
theorem step [DecidableEq β] (h : s.RoleInv honest app) (hinv : s.Inv honest app)
    (heffect : Effect honest app s t) : t.RoleInv honest app := by
  cases heffect with
  | identified hi hphase hout =>
      exact h.signIn (hinv.bound _ (List.mem_of_getElem? hi)) hout
  | erased hmember => exact h.erase hmember
  | created hi hphase hfresh htables =>
      obtain ⟨rfl, -⟩ := AuthTables.createSession_ok htables
      exact h.mono rfl rfl (fun _ ha => ha) fun _ hb => hb
  | planted browser hvalue hmay =>
      exact h.mono rfl rfl (fun _ ha => ha) fun _ hb => List.mem_cons_of_mem _ hb
  | approved hmay => exact h.mono rfl rfl (fun _ ha => List.mem_cons_of_mem _ ha) fun _ hb => hb
  | _ => exact h.mono rfl rfl (fun _ ha => ha) fun _ hb => hb

end RoleInv

variable [DecidableEq β]

theorem Reached.roleInv (h : Reached honest app s) : s.RoleInv honest app := by
  refine Transition.Reachable.invariant ?_ ?_ h
  · rintro s rfl
    exact ⟨fun _ h => (nomatch h), fun _ _ h => h.elim, fun _ h => (nomatch h), fun _ h => (nomatch h)⟩
  · intro s label t hs hrole hstep
    exact hrole.step (Reached.inv hs) (step_effect hstep)

/-- **Administrators.**  Whoever is authenticated may act for an organization exactly if a sign-in
has made them a platform administrator since their account was last erased; and a sign-in does so
only for an identity that was established for it, in development or by an email that is configured
as that of an administrator. -/
theorem hasOrganizationAccess_iff (h : Reached honest app s) {token : String} {now : ℤ}
    {session : AuthenticatedSession} (hsession : s.authenticate app token now = some session)
    (organizationId : String) :
    (session.principal.hasOrganizationAccess organizationId ↔
      Bootstrapped app session.principal.tenantId session.principal.userId s.history) ∧
    ∀ issue, .signedIn issue ∈ s.history → .platformAdmin ∈ issue.roles →
      issue.Bound honest app s.approvals s.planted ∧ issue.Entitled app := by
  have hroles := h.roleInv
  refine ⟨?_, fun issue hissue hadmin => ?_⟩
  · obtain ⟨row, hrow, -, -, -, member, hmember, hjoin, rfl⟩ :=
      setAuth_eq_some (authenticate_eq_some hsession)
    obtain ⟨htenant, huser⟩ := of_decide_eq_true hjoin
    have heditor := hroles.editors member hmember
    show AuthPrincipal.hasOrganizationAccess ⟨_, _, roleList member.roles, _⟩ _ ↔
      Bootstrapped app row.tenantId row.userId s.history
    rw [← htenant, ← huser, ← hroles.rows member hmember]
    simp [AuthPrincipal.hasOrganizationAccess, heditor]
  · have hbound := hroles.history issue hissue
    exact ⟨hbound, hbound.entitled hadmin⟩

theorem hasOrganizationAccess_iff_development : ∃ session : AuthenticatedSession,
    developmentRun.authenticate developmentApp "token" 2 = some session ∧
      session.principal.hasOrganizationAccess "org" = true := by
  obtain ⟨session, hsession, htenant, huser⟩ : ∃ session,
      developmentRun.authenticate developmentApp "token" 2 = some session ∧
        session.principal.tenantId = "default" ∧
        session.principal.userId = "usr_development:pete@purdue.edu" := ⟨_, rfl, rfl, by decide⟩
  refine ⟨session, hsession,
    (hasOrganizationAccess_iff developmentRun_reached hsession "org").1.mpr ?_⟩
  rw [htenant, huser]
  exact .inl ⟨rfl, by decide, by decide⟩

end AuthRun

end RecruitingOs
