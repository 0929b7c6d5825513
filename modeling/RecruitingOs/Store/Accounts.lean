import RecruitingOs.Store.Sources

/-!
# Accounts

Signing in (`upsertIdentity`, `createSession` of the auth repositories), and what a
member leaves behind besides evidence: organizations (`upsertOrganization`) and
opportunity overrides (`putOpportunityOverride`).
-/

namespace RecruitingOs

/-- `OidcIdentity`, the fields that identify. -/
structure OidcIdentity where
  issuer : String
  subject : String
deriving Repr, DecidableEq

/-- The id of the user of an identity. -/
def userId (digest : String → String) (identity : OidcIdentity) : String :=
  stableId digest "usr" (identity.issuer ++ ":" ++ identity.subject)

namespace Database

/-- `insert into users … on conflict(issuer,subject) do update`. -/
def upsertUser (db : Database) (user : UserRow) : Except StoreError Database :=
  if db.users.any fun old => old.issuer = user.issuer ∧ old.subject = user.subject then .ok db
  else
    match Table.insert UserRow.id db.users user with
    | none => .error (.unique "users.id")
    | some users => .ok { db with users := users }

/-- `insert into memberships … on conflict do nothing`. -/
def addMembership (db : Database) (row : MembershipRow) : Except StoreError Database :=
  if row ∈ db.memberships then .ok db
  else if ¬ db.users.any fun user => user.id = row.userId then .error (.foreignKey "memberships")
  else .ok { db with memberships := db.memberships ++ [row] }

/-- `upsertIdentity(identity, tenantId)`. -/
def upsertIdentity (digest : String → String) (db : Database) (identity : OidcIdentity)
    (tenantId : String) : Except StoreError Database := do
  let id := RecruitingOs.userId digest identity
  let db ← db.upsertUser ⟨id, identity.issuer, identity.subject⟩
  db.addMembership ⟨tenantId, id⟩

/-- `createSession(input)`. -/
def createSession (db : Database) (row : SessionRow) : Except StoreError Database :=
  if ¬ db.users.any fun user => user.id = row.userId then .error (.foreignKey "sessions")
  else if db.sessions.any fun old => old.tokenHash = row.tokenHash then
    .error (.unique "sessions.token_hash")
  else
    match Table.insert SessionRow.id db.sessions row with
    | none => .error (.unique "sessions.id")
    | some sessions => .ok { db with sessions := sessions }

/-- `upsertOrganization(organization, tenantId)`. -/
def upsertOrganization (db : Database) (row : OrganizationRow) : Database :=
  if row ∈ db.organizations then db
  else { db with organizations := db.organizations ++ [row] }

/-- `putOpportunityOverride(override, tenantId)`; only Postgres checks that the actor is
a user. -/
def putOpportunityOverride (dialect : Dialect) (db : Database) (override : OpportunityOverride) :
    Except StoreError Database :=
  match override.actorId.filter (· ≠ "") with
  | none => .error .actorRequired
  | some actorId =>
      if dialect = .postgres ∧ ¬ db.users.any (fun user => user.id = actorId) then
        .error (.foreignKey "opportunity_overrides")
      else if ¬ db.organizations.any fun o =>
          o.tenantId = override.tenantId ∧ o.id = override.organizationId then
        .error (.foreignKey "opportunity_overrides")
      else
        match Table.insert (fun row => row.override.id) db.overrides ⟨override, false⟩ with
        | none => .error (.unique "opportunity_overrides.id")
        | some overrides => .ok { db with overrides := overrides }

/-! ### What the calls do -/

variable {dialect : Dialect} {digest : String → String} {db db' : Database}

/-- Signing in adds at most the user and the membership. -/
theorem upsertIdentity_ok {identity : OidcIdentity} {tenantId : String}
    (h : db.upsertIdentity digest identity tenantId = .ok db') :
    ∃ users memberships, db' = { db with users := users, memberships := memberships } ∧
      (∀ m ∈ db.memberships, m ∈ memberships) ∧
      ∀ m ∈ memberships, m ∈ db.memberships ∨
        m = ⟨tenantId, RecruitingOs.userId digest identity⟩ := by
  unfold upsertIdentity at h
  obtain ⟨between, huser, h⟩ := bind_eq_ok.mp h
  obtain ⟨users, rfl⟩ : ∃ users, between = { db with users := users } := by
    unfold upsertUser at huser
    split at huser
    · cases huser
      exact ⟨_, rfl⟩
    · split at huser
      · cases huser
      · cases huser
        exact ⟨_, rfl⟩
  unfold addMembership at h
  split at h
  · cases h
    exact ⟨_, _, rfl, fun m hm => hm, fun m hm => .inl hm⟩
  · split at h
    · cases h
    · cases h
      refine ⟨_, _, rfl, fun m hm => List.mem_append_left _ hm, fun m hm => ?_⟩
      exact (List.mem_append.mp hm).imp_right List.mem_singleton.mp

theorem createSession_ok {row : SessionRow} (h : db.createSession row = .ok db') :
    ∃ sessions, db' = { db with sessions := sessions } ∧
      ∀ r ∈ sessions, r ∈ db.sessions ∨ r = row := by
  unfold createSession at h
  split at h
  · cases h
  · split at h
    · cases h
    · split at h
      · cases h
      · rename_i sessions hinsert
        cases h
        refine ⟨sessions, rfl, fun r hr => ?_⟩
        rw [(Table.insert_eq_some.mp hinsert).2] at hr
        exact (List.mem_append.mp hr).imp_right List.mem_singleton.mp

theorem upsertOrganization_eq (row : OrganizationRow) :
    ∃ organizations, db.upsertOrganization row = { db with organizations := organizations } := by
  unfold upsertOrganization
  split
  · exact ⟨_, rfl⟩
  · exact ⟨_, rfl⟩

theorem putOpportunityOverride_ok {override : OpportunityOverride}
    (h : db.putOpportunityOverride dialect override = .ok db') :
    ∃ overrides, db' = { db with overrides := overrides } := by
  unfold putOpportunityOverride at h
  split at h
  · cases h
  · split at h
    · cases h
    · split at h
      · cases h
      · split at h
        · cases h
        · cases h
          exact ⟨_, rfl⟩

end Database

end RecruitingOs
