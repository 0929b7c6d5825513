import RecruitingOs.Lib.Transition
import RecruitingOs.Privacy.Effect
import RecruitingOs.Queue.Sqlite
import RecruitingOs.Store.Accounts
import RecruitingOs.Store.ConnectorState
import RecruitingOs.Vault.Credentials

/-!
# Runs of the database

What the members of the tenants do to the database before, between and after erasures:
sign in, contribute sources that workers process, connect providers, synchronize,
override opportunities, and erase their accounts.  A call that throws is rolled back and
is no step.

`PrivacyRun.staged` remembers every call of `stageSource` that has returned.
-/

namespace RecruitingOs

/-- A call of `stageSource`. -/
structure StageCall where
  tenantId : String
  source : SourceItem
deriving Repr, DecidableEq

/-- `source.contributorUserId`, which counts only if it is not empty. -/
def StageCall.contributor (call : StageCall) : Option String :=
  call.source.contributorUserId.filter (· ≠ "")

/-- The state of a run. -/
structure PrivacyRun where
  db : Database
  staged : List StageCall

/-- The scope of a member's cursor: the member, or a group of the member. -/
def cursorScope (userId : String) : Option String → String
  | none => userId
  | some group => userId ++ ":" ++ group

/-- A step of a run. -/
inductive PrivacyStep where
  | signIn (identity : OidcIdentity) (tenantId : String)
  | createSession (row : SessionRow)
  | upsertOrganization (row : OrganizationRow)
  | stageSource (source : SourceItem) (tenantId : String)
  | markSourceProcessing (versionId tenantId : String) (now : ℤ)
  | putClaims (claims : List Claim)
  | markSourceSucceeded (versionId tenantId : String) (now : ℤ)
  | markSourceFailed (versionId : String) (failure : Database.ProcessingFailure) (tenantId : String)
      (now : ℤ)
  | saveCredential (row : CredentialRow)
  | enqueue (input : EnqueueJob) (clock : Readings)
  | setConnectorState (connector tenantId userId : String) (group cursor : Option String)
      (metadata : Json)
  | putOpportunityOverride (override : OpportunityOverride)
  | eraseAccount (tenantId userId operationId : String) (now : ℤ)

/-- The comparison of claim values in a database. -/
def Dialect.sameValue : Dialect → Json → Json → Bool
  | .sqlite => sqliteSameValue
  | .postgres => postgresSameValue

namespace PrivacyRun

/-- The run with the database of a call that returned. -/
def commit (s : PrivacyRun) (call : Except StoreError Database) : Option PrivacyRun :=
  call.toOption.map fun db => { s with db := db }

/-- One step.  Sessions and credentials are stored for members; the foreign key of
`claims` asks for the version. -/
def step (dialect : Dialect) (digest sha256 : String → String) (s : PrivacyRun) :
    PrivacyStep → Option PrivacyRun
  | .signIn identity tenantId => s.commit (s.db.upsertIdentity digest identity tenantId)
  | .createSession row =>
      if s.db.isMember row.tenantId row.userId then s.commit (s.db.createSession row) else none
  | .upsertOrganization row => some { s with db := s.db.upsertOrganization row }
  | .stageSource source tenantId =>
      (s.db.stageSource digest sha256 source tenantId).toOption.map fun out =>
        ⟨out.1, ⟨tenantId, source⟩ :: s.staged⟩
  | .markSourceProcessing versionId tenantId now =>
      s.commit ((s.db.markSourceProcessing versionId tenantId now).map Prod.fst)
  | .putClaims claims =>
      if claims.all fun claim => s.db.sourceVersions.any fun v => v.id = claim.sourceItemId then
        (RecruitingOs.putClaims dialect.sameValue s.db.claims claims).map fun rows =>
          { s with db := { s.db with claims := rows } }
      else none
  | .markSourceSucceeded versionId tenantId now =>
      some { s with db := s.db.markSourceSucceeded versionId tenantId now }
  | .markSourceFailed versionId failure tenantId now =>
      some { s with db := s.db.markSourceFailed versionId failure tenantId now }
  | .saveCredential row =>
      if s.db.isMember row.tenantId row.userId then s.commit (s.db.saveCredential row) else none
  | .enqueue input clock =>
      (SqliteJobQueue.enqueue digest s.db.queue input clock).toOption.map fun out =>
        { s with db := { s.db with queue := out.1 } }
  | .setConnectorState connector tenantId userId group cursor metadata =>
      s.commit (s.db.setConnectorState connector (cursorScope userId group) cursor metadata tenantId
        (some userId))
  | .putOpportunityOverride override => s.commit (s.db.putOpportunityOverride dialect override)
  | .eraseAccount tenantId userId operationId now =>
      s.commit ((s.db.eraseAccount dialect digest tenantId userId operationId now).map Prod.fst)

/-- The state after the migrations. -/
def start : PrivacyRun := ⟨Database.empty, []⟩

/-- The states that a run can reach. -/
def Reached (dialect : Dialect) (digest sha256 : String → String) : PrivacyRun → Prop :=
  Transition.Reachable (· = start) (step dialect digest sha256)

variable {s t : PrivacyRun}

theorem commit_eq_some {call : Except StoreError Database} (h : s.commit call = some t) :
    ∃ db, call = .ok db ∧ t = { s with db := db } := by
  cases call with
  | error e => cases h
  | ok db =>
      cases h
      exact ⟨db, rfl, rfl⟩

theorem map_toOption_eq_some {ε α β : Type} {x : Except ε α} {f : α → β} {b : β}
    (h : x.toOption.map f = some b) : ∃ a, x = .ok a ∧ b = f a := by
  cases x with
  | error e => cases h
  | ok a =>
      cases h
      exact ⟨a, rfl, rfl⟩

theorem map_eq_ok {α β : Type} {x : Except StoreError α} {f : α → β} {b : β}
    (h : x.map f = .ok b) : ∃ a, x = .ok a ∧ b = f a := by
  cases x with
  | error e => cases h
  | ok a =>
      cases h
      exact ⟨a, rfl, rfl⟩

/-- The database after a call, table by table. -/
def Effect (dialect : Dialect) (digest sha256 : String → String) (db db' : Database) :
    PrivacyStep → Prop
  | .signIn identity tenantId => ∃ users memberships,
      db' = { db with users := users, memberships := memberships } ∧
        (∀ m ∈ db.memberships, m ∈ memberships) ∧
        ∀ m ∈ memberships, m ∈ db.memberships ∨ m = ⟨tenantId, userId digest identity⟩
  | .createSession row => db.isMember row.tenantId row.userId ∧ ∃ sessions,
      db' = { db with sessions := sessions } ∧ ∀ r ∈ sessions, r ∈ db.sessions ∨ r = row
  | .upsertOrganization _ => ∃ organizations, db' = { db with organizations := organizations }
  | .stageSource source tenantId => ∃ staged,
      db.stageSource digest sha256 source tenantId = .ok (db', staged)
  | .markSourceProcessing id tenantId _ | .markSourceSucceeded id tenantId _
  | .markSourceFailed id _ tenantId _ => ∃ f : SourceVersionRow → SourceVersionRow,
      db' = db.updateVersion tenantId id f ∧
        ∀ v, (f v).id = v.id ∧ (f v).sourceId = v.sourceId ∧ (f v).tenantId = v.tenantId
  | .putClaims claims => ∃ rows, db' = { db with claims := rows } ∧
      RecruitingOs.putClaims dialect.sameValue db.claims claims = some rows ∧
      ∀ c ∈ claims, ∃ v ∈ db.sourceVersions, v.id = c.sourceItemId
  | .saveCredential row => db.isMember row.tenantId row.userId ∧ db.saveCredential row = .ok db'
  | .enqueue input clock => ∃ queue job, db' = { db with queue := queue } ∧
      SqliteJobQueue.enqueue digest db.queue input clock = .ok (queue, job)
  | .setConnectorState connector tenantId userId group cursor metadata =>
      db.setConnectorState connector (cursorScope userId group) cursor metadata tenantId
        (some userId) = .ok db'
  | .putOpportunityOverride override => db.putOpportunityOverride dialect override = .ok db'
  | .eraseAccount tenantId userId operationId now => ∃ result,
      db.eraseAccount dialect digest tenantId userId operationId now = .ok (db', result)

/-- The calls that have returned, after a step. -/
def stagedAfter (s : PrivacyRun) : PrivacyStep → List StageCall
  | .stageSource source tenantId => ⟨tenantId, source⟩ :: s.staged
  | _ => s.staged

/-- **What a step can do.** -/
theorem step_effect {dialect : Dialect} {digest sha256 : String → String} {label : PrivacyStep}
    (hs : s.step dialect digest sha256 label = some t) :
    Effect dialect digest sha256 s.db t.db label ∧ t.staged = s.stagedAfter label := by
  cases label with
  | signIn identity tenantId =>
      obtain ⟨db, hok, rfl⟩ := commit_eq_some hs
      exact ⟨Database.upsertIdentity_ok hok, rfl⟩
  | createSession row =>
      simp only [step] at hs
      split at hs
      · rename_i hmember
        obtain ⟨db, hok, rfl⟩ := commit_eq_some hs
        exact ⟨⟨hmember, Database.createSession_ok hok⟩, rfl⟩
      · cases hs
  | upsertOrganization row =>
      cases hs
      exact ⟨Database.upsertOrganization_eq row, rfl⟩
  | stageSource source tenantId =>
      obtain ⟨⟨db, staged⟩, hok, rfl⟩ := map_toOption_eq_some hs
      exact ⟨⟨staged, hok⟩, rfl⟩
  | markSourceProcessing id tenantId now =>
      obtain ⟨db, hok, rfl⟩ := commit_eq_some hs
      obtain ⟨⟨_, attempt⟩, hok, rfl⟩ := map_eq_ok hok
      unfold Database.markSourceProcessing at hok
      split at hok
      · cases hok
      · cases hok
        refine ⟨⟨_, rfl, fun v => ?_⟩, rfl⟩
        split <;> exact ⟨rfl, rfl, rfl⟩
  | putClaims claims =>
      simp only [step] at hs
      split at hs
      · rename_i hversions
        obtain ⟨rows, hrows, rfl⟩ := Option.map_eq_some_iff.mp hs
        refine ⟨⟨rows, rfl, hrows, fun c hc => ?_⟩, rfl⟩
        obtain ⟨v, hv, hid⟩ := List.any_eq_true.mp (List.all_eq_true.mp hversions c hc)
        exact ⟨v, hv, of_decide_eq_true hid⟩
      · cases hs
  | markSourceSucceeded id tenantId now | markSourceFailed id failure tenantId now =>
      cases hs
      exact ⟨⟨_, rfl, fun _ => ⟨rfl, rfl, rfl⟩⟩, rfl⟩
  | saveCredential row =>
      simp only [step] at hs
      split at hs
      · rename_i hmember
        obtain ⟨db, hok, rfl⟩ := commit_eq_some hs
        exact ⟨⟨hmember, hok⟩, rfl⟩
      · cases hs
  | enqueue input clock =>
      obtain ⟨⟨queue, job⟩, hok, rfl⟩ := map_toOption_eq_some hs
      exact ⟨⟨queue, job, rfl, hok⟩, rfl⟩
  | setConnectorState connector tenantId userId group cursor metadata =>
      obtain ⟨db, hok, rfl⟩ := commit_eq_some hs
      exact ⟨hok, rfl⟩
  | putOpportunityOverride override =>
      obtain ⟨db, hok, rfl⟩ := commit_eq_some hs
      exact ⟨hok, rfl⟩
  | eraseAccount tenantId userId operationId now =>
      obtain ⟨db, hok, rfl⟩ := commit_eq_some hs
      obtain ⟨⟨_, result⟩, hok, rfl⟩ := map_eq_ok hok
      exact ⟨⟨result, hok⟩, rfl⟩

end PrivacyRun

end RecruitingOs
