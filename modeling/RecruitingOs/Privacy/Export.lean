import Mathlib
import RecruitingOs.Lib.Parts
import RecruitingOs.Privacy.Evidence
import RecruitingOs.Resolver.Review

/-!
# What an account exports

`exportAccount` of `sqlite-privacy-repository.ts` and of `postgres-privacy-repository.ts`.  The
two take an empty text differently, and agree on everything else.

The export tells what an erasure will remove: `shared` looks for the links of others that are
there now, while the erasure deletes the links of the user and looks for any that is left.
`export_foretells_erasure` is that the two come to the same, and that the erasure shows in the
exports of the others by their `shared` only.
-/

namespace RecruitingOs

/-- The columns that only the export reads, by the key of their row. -/
structure ExportColumns where
  /-- `email`, `display_name` and `created_at` of `users`. -/
  user : String → Option String × Option String × ℤ
  /-- `roles`, `organization_ids` and `created_at` of `memberships`. -/
  membership : MembershipRow → List Role × List String × ℤ
  /-- `created_at` of `credentials`. -/
  connectedAt : String → ℤ
  /-- `created_at` of `source_version_contributors`. -/
  linkedAt : ContributorRow → ℤ
  /-- `created_at` of `audit_events`. -/
  happenedAt : String → ℤ

/-- An entry of `connectors`. -/
structure ExportedConnector where
  provider : String
  scopes : List String
  expiresAt : Option String
  revokedAt : Option ℤ
  createdAt : ℤ
deriving DecidableEq

/-- An entry of `contributions`. -/
structure ExportedContribution where
  sourceVersionId : String
  organizationId : String
  sourceType : SourceType
  title : Option String
  url : Option String
  publishedAt : Option String
  fetchedAt : String
  status : SourceVersionStatus
  shared : Bool
deriving DecidableEq

/-- An entry of `activity`. -/
structure ExportedActivity where
  action : String
  resourceType : String
  resourceId : Option String
  createdAt : ℤ
deriving DecidableEq

/-- `AccountDataExport['identity']`. -/
structure ExportedIdentity where
  id : String
  issuer : String
  subject : String
  email : Option String
  displayName : Option String
  createdAt : ℤ
deriving DecidableEq

/-- `AccountDataExport['membership']`. -/
structure ExportedMembership where
  tenantId : String
  roles : List Role
  organizationIds : List String
  createdAt : ℤ
deriving DecidableEq

/-- `AccountDataExport`. -/
structure AccountDataExport where
  generatedAt : ℤ
  identity : ExportedIdentity
  membership : ExportedMembership
  connectors : List ExportedConnector
  contributions : List ExportedContribution
  activity : List ExportedActivity
deriving DecidableEq

/-- `x ? String(x) : undefined`, and `x ?? undefined`. -/
def Dialect.text (dialect : Dialect) (value : Option String) : Option String :=
  match dialect with
  | .sqlite => value.filter (· ≠ "")
  | .postgres => value

namespace Database

/-- The rows that `contributions` joins. -/
def contributionRows (db : Database) (tenantId userId : String) :
    List (ContributorRow × SourceVersionRow × SourceRow) :=
  (db.contributors.filter fun link => link.tenantId = tenantId ∧ link.userId = userId).flatMap
    fun link =>
      (db.sourceVersions.filter fun v =>
          v.id = link.sourceVersionId ∧ v.tenantId = link.tenantId).flatMap fun v =>
        (db.sources.filter fun s => s.id = v.sourceId ∧ s.tenantId = v.tenantId).map fun s =>
          (link, v, s)

/-- `exists(select 1 from source_version_contributors other where …)`. -/
def shared (links : List ContributorRow) (link : ContributorRow) : Bool :=
  links.any fun other => other.tenantId = link.tenantId ∧
    other.sourceVersionId = link.sourceVersionId ∧ other.userId ≠ link.userId

/-- An entry of `contributions`, of joined rows. -/
def exportedContribution (dialect : Dialect) (links : List ContributorRow)
    (row : ContributorRow × SourceVersionRow × SourceRow) : ExportedContribution where
  sourceVersionId := row.2.1.id
  organizationId := row.2.1.organizationId
  sourceType := row.2.2.sourceType
  title := if row.2.2.sourceType.isPrivate then none else dialect.text row.2.2.title
  url := if row.2.2.sourceType.isPrivate then none else dialect.text row.2.2.url
  publishedAt := dialect.text row.2.1.publishedAt
  fetchedAt := row.2.1.fetchedAt
  status := row.2.1.status
  shared := shared links row.1

def exportedConnector (dialect : Dialect) (columns : ExportColumns) (row : CredentialRow) :
    ExportedConnector where
  provider := row.provider
  scopes := row.scopes
  expiresAt := dialect.text row.expiresAt
  revokedAt := row.revokedAt
  createdAt := columns.connectedAt row.id

def exportedActivity (dialect : Dialect) (columns : ExportColumns) (event : AuditEventRow) :
    ExportedActivity where
  action := event.action
  resourceType := event.resourceType
  resourceId := dialect.text event.resourceId
  createdAt := columns.happenedAt event.id

/-- The three lists of an export; rows with equal times stay in the order of the table. -/
def connectors (dialect : Dialect) (columns : ExportColumns) (db : Database)
    (tenantId userId : String) : List ExportedConnector :=
  ((db.credentials.filter fun row => row.tenantId = tenantId ∧ row.userId = userId).insertionSort
    fun a b => a.provider ≤ b.provider).map (exportedConnector dialect columns)

def contributions (dialect : Dialect) (columns : ExportColumns) (db : Database)
    (tenantId userId : String) : List ExportedContribution :=
  ((db.contributionRows tenantId userId).insertionSort fun a b =>
    columns.linkedAt b.1 ≤ columns.linkedAt a.1).map (exportedContribution dialect db.contributors)

def activity (dialect : Dialect) (columns : ExportColumns) (db : Database)
    (tenantId userId : String) : List ExportedActivity :=
  ((db.auditEvents.filter fun event =>
      event.tenantId = tenantId ∧ event.actorId = some userId).insertionSort fun a b =>
    columns.happenedAt b.id ≤ columns.happenedAt a.id).map (exportedActivity dialect columns)

/-- `exportAccount(tenantId, userId)`. -/
def exportAccount (dialect : Dialect) (columns : ExportColumns) (db : Database)
    (tenantId userId : String) (now : ℤ) : Option AccountDataExport :=
  if db.isMember tenantId userId then
    (db.users.find? fun user => user.id = userId).map fun user =>
      let (email, displayName, createdAt) := columns.user user.id
      let (roles, organizationIds, joinedAt) := columns.membership ⟨tenantId, userId⟩
      { generatedAt := now
        identity := ⟨user.id, user.issuer, user.subject, dialect.text email,
          dialect.text displayName, createdAt⟩
        membership := ⟨tenantId, roles, organizationIds, joinedAt⟩
        connectors := connectors dialect columns db tenantId userId
        contributions := contributions dialect columns db tenantId userId
        activity := activity dialect columns db tenantId userId }
  else none

end Database

/-- What an erasure of the account would delete: a private entry that nobody shares. -/
def ExportedContribution.removable (c : ExportedContribution) : Bool :=
  c.sourceType.isPrivate ∧ ¬ c.shared

/-- The export of a user once somebody else's links are gone. -/
def AccountDataExport.without (links : List ContributorRow) (tenantId userId : String)
    (data : AccountDataExport) : AccountDataExport :=
  { data with
    contributions := data.contributions.map fun c =>
      { c with
        shared := Database.shared (Database.withoutLinks links tenantId userId)
          ⟨data.membership.tenantId, c.sourceVersionId, data.identity.id⟩ } }

namespace SqlitePrivacyRepository

/-- `SqlitePrivacyRepository.exportAccount`. -/
def exportAccount := Database.exportAccount .sqlite

end SqlitePrivacyRepository

namespace PostgresPrivacyRepository

/-- `PostgresPrivacyRepository.exportAccount`. -/
def exportAccount := Database.exportAccount .postgres

end PostgresPrivacyRepository

/-! ### The tables after an erasure -/

/-- What a deletion removes. -/
theorem length_sub_filter {ρ : Type} (p : ρ → Prop) [DecidablePred p] (rows : List ρ) :
    rows.length - (rows.filter fun row => ¬ p row).length = (rows.filter fun row => p row).length := by
  have hsplit := List.length_eq_length_filter_add (l := rows) fun row => decide (p row)
  have hnot : (rows.filter fun row => ¬ p row) = rows.filter fun row => ! decide (p row) :=
    List.filter_congr fun row _ => decide_not
  rw [hnot]
  omega

namespace Database

variable {dialect : Dialect} {digest sha256 : String → String} {db db' : Database}
  {tenantId userId operationId : String} {now : ℤ} {result : AccountErasureResult}

/-- The identity is kept when the membership is deleted. -/
def staysMember (db : Database) (tenantId userId : String) : Bool :=
  (db.memberships.filter fun m => ¬ (m.tenantId = tenantId ∧ m.userId = userId)).any fun m =>
    m.userId = userId

/-- The ids of the versions that an erasure deletes. -/
def orphanIds (dialect : Dialect) (db : Database) (tenantId userId : String) : List String :=
  (db.orphans dialect tenantId userId).map Prod.fst

/-- The tables of an erasure that an export reads, in their order, and what it counts. -/
structure ErasedTables (dialect : Dialect) (db : Database) (tenantId userId : String)
    (db' : Database) (result : AccountErasureResult) : Prop where
  users : db'.users =
    db.users.filter fun user => db.staysMember tenantId userId ∨ user.id ≠ userId
  memberships : db'.memberships =
    db.memberships.filter fun m => ¬ (m.tenantId = tenantId ∧ m.userId = userId)
  versions : db'.sourceVersions =
    withoutVersions db.sourceVersions tenantId (db.orphanIds dialect tenantId userId)
  sources : db'.sources = withoutEmptySources db.sources db'.sourceVersions tenantId
  contributors : db'.contributors = (withoutLinks db.contributors tenantId userId).filter fun link =>
    ¬ versionGone db.sourceVersions tenantId (db.orphanIds dialect tenantId userId)
      link.sourceVersionId
  credentials : db'.credentials = (db.credentials.filter fun row =>
      ¬ (row.tenantId = tenantId ∧ row.userId = userId)).filter fun row =>
    db.staysMember tenantId userId ∨ row.userId ≠ userId
  auditEvents : ∃ audit, audit.actorId = none ∧ db'.auditEvents =
    Table.updateWhere (fun event => (dialect = .postgres ∧ ¬ db.staysMember tenantId userId) ∧
        event.actorId = some userId) anonymousEvent
      (Table.updateWhere (fun event => event.tenantId = tenantId ∧ event.actorId = some userId)
        anonymousEvent db.auditEvents) ++ [audit]
  credentialsDeleted : result.credentialsDeleted = db.credentials.length -
    (db.credentials.filter fun row => ¬ (row.tenantId = tenantId ∧ row.userId = userId)).length
  contributionsRemoved : result.contributionsRemoved =
    db.contributors.length - (withoutLinks db.contributors tenantId userId).length
  privateSourceVersionsDeleted : result.privateSourceVersionsDeleted =
    db.sourceVersions.length - db'.sourceVersions.length
  affectedOrganizationIds : result.affectedOrganizationIds =
    ((db.orphans dialect tenantId userId).map Prod.snd).eraseDups

theorem eraseAccount_tables (hmember : db.isMember tenantId userId)
    (h : db.eraseAccount dialect digest tenantId userId operationId now = .ok (db', result)) :
    ErasedTables dialect db tenantId userId db' result := by
  unfold eraseAccount at h
  rw [if_neg (by simpa using hmember)] at h
  obtain ⟨jobs, hjobs, h⟩ := bind_eq_ok.mp h
  obtain ⟨overrides, hoverrides, h⟩ := bind_eq_ok.mp h
  obtain ⟨allJobs, hall, h⟩ := bind_eq_ok.mp h
  obtain ⟨audited, haudited, h⟩ := bind_eq_ok.mp h
  cases h
  obtain ⟨-, rfl⟩ := insertAudit_eq_ok.mp haudited
  exact ⟨rfl, rfl, rfl, rfl, rfl, rfl, ⟨_, rfl, rfl⟩, rfl, rfl, rfl, rfl⟩

/-! ### The joined rows -/

theorem mem_contributionRows {row : ContributorRow × SourceVersionRow × SourceRow} :
    row ∈ db.contributionRows tenantId userId ↔
      row.1 ∈ db.contributors ∧ row.1.tenantId = tenantId ∧ row.1.userId = userId ∧
        row.2.1 ∈ db.sourceVersions ∧ row.2.1.id = row.1.sourceVersionId ∧
        row.2.1.tenantId = row.1.tenantId ∧ row.2.2 ∈ db.sources ∧
        row.2.2.id = row.2.1.sourceId ∧ row.2.2.tenantId = row.2.1.tenantId := by
  unfold contributionRows
  simp only [List.mem_flatMap, List.mem_filter, List.mem_map, decide_eq_true_eq]
  constructor
  · rintro ⟨link, ⟨hlink, htenant, huser⟩, v, ⟨hv, hid, hvt⟩, source, ⟨hs, hsid, hst⟩, rfl⟩
    exact ⟨hlink, htenant, huser, hv, hid, hvt, hs, hsid, hst⟩
  · obtain ⟨link, v, source⟩ := row
    rintro ⟨hlink, htenant, huser, hv, hid, hvt, hs, hsid, hst⟩
    exact ⟨link, ⟨hlink, htenant, huser⟩, v, ⟨hv, hid, hvt⟩, source, ⟨hs, hsid, hst⟩, rfl⟩

/-- A selection that finds one row only. -/
theorem filter_eq_singleton {ρ κ : Type} {key : ρ → κ} {rows : List ρ} {p : ρ → Bool} {row : ρ}
    (hn : (rows.map key).Nodup) (hrow : row ∈ rows) (hp : p row)
    (hkey : ∀ other ∈ rows, p other → key other = key row) : rows.filter p = [row] := by
  have hnodup : (rows.filter p).Nodup := hn.of_map.filter _
  have hmem : ∀ other, other ∈ rows.filter p ↔ other ∈ [row] := by
    intro other
    rw [List.mem_filter, List.mem_singleton]
    constructor
    · rintro ⟨hother, hpo⟩
      exact Table.eq_of_key_eq hn hother hrow (hkey other hother hpo)
    · rintro rfl
      exact ⟨hrow, hp⟩
  exact List.perm_singleton.mp
    ((List.perm_ext_iff_of_nodup hnodup (List.nodup_singleton row)).mpr hmem)

/-- **Each link is joined once.** -/
theorem map_contributionRows {staged : List StageCall}
    (h : PrivacyRun.EvidenceInv digest sha256 db staged) :
    (db.contributionRows tenantId userId).map Prod.fst =
      db.contributors.filter fun link => link.tenantId = tenantId ∧ link.userId = userId := by
  unfold contributionRows
  rw [List.map_flatMap]
  conv_rhs => rw [← List.flatMap_singleton' (List.filter _ _)]
  refine List.flatMap_congr fun link hlink => ?_
  obtain ⟨-, v, hv, hid, htenant⟩ := h.links link (List.mem_filter.mp hlink).1
  obtain ⟨source, hsource, hsid, hst, -⟩ := h.origin v hv
  rw [filter_eq_singleton h.versionIds hv (decide_eq_true ⟨hid, htenant⟩)
    fun other _ hother => (of_decide_eq_true hother).1.trans hid.symm]
  rw [List.flatMap_singleton, filter_eq_singleton h.sourceIds hsource (decide_eq_true ⟨hsid, hst⟩)
    fun other _ hother => (of_decide_eq_true hother).1.trans hsid.symm]
  rfl

variable {columns : ExportColumns} {staged : List StageCall}

theorem mem_contributions {c : ExportedContribution} :
    c ∈ contributions dialect columns db tenantId userId ↔
      ∃ row ∈ db.contributionRows tenantId userId,
        exportedContribution dialect db.contributors row = c := by
  unfold contributions
  rw [List.mem_map]
  simp only [List.mem_insertionSort]

theorem shared_iff {links : List ContributorRow} {link : ContributorRow} :
    shared links link ↔ ∃ other ∈ links, other.tenantId = link.tenantId ∧
      other.sourceVersionId = link.sourceVersionId ∧ other.userId ≠ link.userId := by
  unfold shared
  simp only [List.any_eq_true, decide_eq_true_eq]

/-- **`shared` before and after.**  An entry is of a version that the erasure deletes exactly if
it is private and not shared. -/
theorem removable_iff (h : PrivacyRun.EvidenceInv digest sha256 db staged)
    {row : ContributorRow × SourceVersionRow × SourceRow}
    (hrow : row ∈ db.contributionRows tenantId userId) :
    (exportedContribution dialect db.contributors row).removable ↔
      SoleEvidence db tenantId userId row.2.1 := by
  obtain ⟨⟨linkTenant, linkVersion, linkUser⟩, v, source⟩ := row
  have hjoined := mem_contributionRows.mp hrow
  dsimp only at hjoined ⊢
  obtain ⟨hlink, rfl, rfl, hv, rfl, hvt, hs, hsid, -⟩ := hjoined
  have hremovable : (exportedContribution dialect db.contributors
      (⟨linkTenant, v.id, linkUser⟩, v, source)).removable ↔
      source.sourceType.isPrivate ∧ ¬ shared db.contributors ⟨linkTenant, v.id, linkUser⟩ :=
    decide_eq_true_iff
  rw [hremovable, shared_iff, h.soleEvidence_iff hv]
  constructor
  · rintro ⟨hprivate, hnot⟩
    refine ⟨⟨hvt, hlink, fun other hother htenant hversion => ?_⟩, fun r hr hrv => ?_⟩
    · by_contra huser
      exact hnot ⟨other, hother, htenant, hversion, huser⟩
    · rw [Table.eq_of_key_eq h.sourceIds hr hs (hrv.trans hsid.symm)]
      exact hprivate
  · rintro ⟨⟨-, -, hlast⟩, hprivate⟩
    refine ⟨hprivate source hs hsid, ?_⟩
    rintro ⟨other, hother, htenant, hversion, huser⟩
    exact huser (hlast other hother htenant hversion)

/-- A removable entry is of a version that the erasure deletes. -/
theorem sole_of_removable (h : PrivacyRun.EvidenceInv digest sha256 db staged)
    {c : ExportedContribution} (hc : c ∈ contributions dialect columns db tenantId userId)
    (hremovable : c.removable) :
    ∃ v ∈ db.sourceVersions, SoleEvidence db tenantId userId v ∧ c.sourceVersionId = v.id ∧
      c.organizationId = v.organizationId := by
  obtain ⟨row, hrow, rfl⟩ := mem_contributions.mp hc
  exact ⟨row.2.1, (mem_contributionRows.mp hrow).2.2.2.1, (removable_iff h hrow).mp hremovable, rfl,
    rfl⟩

/-- A version that the erasure deletes has a removable entry. -/
theorem removable_of_sole (h : PrivacyRun.EvidenceInv digest sha256 db staged)
    {v : SourceVersionRow} (hv : v ∈ db.sourceVersions) (hsole : SoleEvidence db tenantId userId v) :
    ∃ c ∈ contributions dialect columns db tenantId userId, c.removable ∧
      c.sourceVersionId = v.id ∧ c.organizationId = v.organizationId := by
  obtain ⟨source, hs, hsid, hst, -⟩ := hsole.source
  have hrow : (⟨tenantId, v.id, userId⟩, v, source) ∈ db.contributionRows tenantId userId :=
    mem_contributionRows.mpr ⟨hsole.linked, rfl, rfl, hv, rfl, hsole.tenant, hs, hsid, hst⟩
  exact ⟨_, mem_contributions.mpr ⟨_, hrow, rfl⟩, (removable_iff h hrow).mpr hsole, rfl, rfl⟩

/-- No version is listed twice. -/
theorem nodup_contributions (h : PrivacyRun.EvidenceInv digest sha256 db staged)
    (hlinks : db.contributors.Nodup) :
    ((contributions dialect columns db tenantId userId).map
      ExportedContribution.sourceVersionId).Nodup := by
  have hids : ((contributions dialect columns db tenantId userId).map
      ExportedContribution.sourceVersionId).Perm
      ((db.contributionRows tenantId userId).map fun row => row.2.1.id) := by
    unfold contributions
    rw [List.map_map]
    exact (List.perm_insertionSort _ _).map _
  rw [hids.nodup_iff]
  have hversion : (db.contributionRows tenantId userId).map (fun row => row.2.1.id) =
      ((db.contributionRows tenantId userId).map Prod.fst).map ContributorRow.sourceVersionId := by
    rw [List.map_map]
    exact List.map_congr_left fun row hrow => (mem_contributionRows.mp hrow).2.2.2.2.1
  rw [hversion, map_contributionRows h]
  -- the links of one user differ in their versions
  refine List.Nodup.map_on ?_ (hlinks.filter _)
  intro a ha b hb hsame
  obtain ⟨-, hta, hua⟩ := by simpa using ha
  obtain ⟨-, htb, hub⟩ := by simpa using hb
  cases a
  cases b
  simp_all

variable (columns) in
/-- **The counts of an erasure** are those of the export. -/
theorem ErasedTables.counts (h : PrivacyRun.EvidenceInv digest sha256 db staged)
    (hlinks : db.contributors.Nodup)
    (he : ErasedTables dialect db tenantId userId db' result) :
    result.credentialsDeleted = (connectors dialect columns db tenantId userId).length ∧
      result.contributionsRemoved = (contributions dialect columns db tenantId userId).length ∧
      result.privateSourceVersionsDeleted =
        ((contributions dialect columns db tenantId userId).filter
          ExportedContribution.removable).length := by
  refine ⟨?_, ?_, ?_⟩
  · rw [he.credentialsDeleted]
    unfold connectors
    rw [List.length_map, List.length_insertionSort]
    exact length_sub_filter
      (fun row : CredentialRow => row.tenantId = tenantId ∧ row.userId = userId) _
  · rw [he.contributionsRemoved]
    unfold contributions
    rw [List.length_map, List.length_insertionSort, ← List.length_map (f := Prod.fst),
      map_contributionRows h]
    exact length_sub_filter
      (fun link : ContributorRow => link.tenantId = tenantId ∧ link.userId = userId) _
  · -- both count the ids of the versions with sole evidence
    rw [he.privateSourceVersionsDeleted, he.versions]
    unfold withoutVersions
    rw [length_sub_filter fun v : SourceVersionRow => v.tenantId = tenantId ∧
      v.id ∈ db.orphanIds dialect tenantId userId, ← List.length_map SourceVersionRow.id,
      ← List.length_map ExportedContribution.sourceVersionId]
    refine List.Perm.length_eq ?_
    refine (List.perm_ext_iff_of_nodup (Table.nodup_key_filter h.versionIds _)
      (Table.nodup_key_filter (nodup_contributions h hlinks) _)).mpr fun id => ?_
    simp only [List.mem_map, List.mem_filter, decide_eq_true_eq]
    constructor
    · rintro ⟨v, ⟨hv, -, horphan⟩, rfl⟩
      obtain ⟨c, hc, hremovable, hid, -⟩ :=
        removable_of_sole h hv ((mem_orphanIds h.versionIds hv).mp horphan)
      exact ⟨c, ⟨hc, hremovable⟩, hid⟩
    · rintro ⟨c, ⟨hc, hremovable⟩, rfl⟩
      obtain ⟨v, hv, hsole, hid, -⟩ := sole_of_removable h hc hremovable
      exact ⟨v, ⟨hv, hsole.tenant, (mem_orphanIds h.versionIds hv).mpr hsole⟩, hid.symm⟩

/-! ### The exports of the others -/

section Others

variable {t u : String}

/-- A member other than the erased one, of whom the identity stays. -/
theorem staysMember_of_other (hmember : db.isMember t u)
    (hother : ¬ (t = tenantId ∧ u = userId)) (huser : u = userId) :
    db.staysMember tenantId userId := by
  refine List.any_eq_true.mpr ⟨⟨t, u⟩, List.mem_filter.mpr ⟨?_, decide_eq_true hother⟩, ?_⟩
  · exact isMember_iff.mp hmember
  · exact decide_eq_true huser

theorem ErasedTables.isMember_other (he : ErasedTables dialect db tenantId userId db' result)
    (hother : ¬ (t = tenantId ∧ u = userId)) : db'.isMember t u = db.isMember t u := by
  rw [Bool.eq_iff_iff, isMember_iff, isMember_iff, he.memberships, List.mem_filter]
  exact ⟨And.left, fun hmem => ⟨hmem, decide_eq_true hother⟩⟩

theorem ErasedTables.user_other (he : ErasedTables dialect db tenantId userId db' result)
    (hmember : db.isMember t u) (hother : ¬ (t = tenantId ∧ u = userId)) :
    (db'.users.find? fun user => user.id = u) = db.users.find? fun user => user.id = u := by
  rw [← List.head?_filter, ← List.head?_filter, he.users, Table.filter_filter_of_imp]
  intro user _ hid
  refine decide_eq_true ?_
  by_cases huser : user.id = userId
  · exact .inl (staysMember_of_other hmember hother ((of_decide_eq_true hid).symm.trans huser))
  · exact .inr huser

theorem ErasedTables.connectors_other (he : ErasedTables dialect db tenantId userId db' result)
    (hmember : db.isMember t u) (hother : ¬ (t = tenantId ∧ u = userId)) :
    connectors dialect columns db' t u = connectors dialect columns db t u := by
  unfold connectors
  rw [he.credentials, Table.filter_filter_of_imp, Table.filter_filter_of_imp]
  · intro row _ hown
    obtain ⟨rfl, rfl⟩ := of_decide_eq_true hown
    exact decide_eq_true hother
  · intro row _ hown
    obtain ⟨rfl, rfl⟩ := of_decide_eq_true hown
    refine decide_eq_true ?_
    by_cases huser : row.userId = userId
    · exact .inl (staysMember_of_other hmember hother huser)
    · exact .inr huser

theorem ErasedTables.activity_other (he : ErasedTables dialect db tenantId userId db' result)
    (hmember : db.isMember t u) (hother : ¬ (t = tenantId ∧ u = userId)) :
    activity dialect columns db' t u = activity dialect columns db t u := by
  obtain ⟨audit, hactor, hevents⟩ := he.auditEvents
  have hlast : ([audit].filter fun event => event.tenantId = t ∧ event.actorId = some u) = [] := by
    simp [hactor]
  unfold activity
  rw [hevents, List.filter_append, hlast, List.append_nil,
    Table.filter_updateWhere_of_disjoint, Table.filter_updateWhere_of_disjoint]
  · intro event _ hgone
    obtain ⟨htenant, hactor⟩ := of_decide_eq_true hgone
    refine ⟨decide_eq_false ?_, decide_eq_false (by simp [anonymousEvent])⟩
    rintro ⟨rfl, hu⟩
    exact hother ⟨htenant, Option.some_inj.mp (hu.symm.trans hactor)⟩
  · intro event _ hgone
    obtain ⟨⟨-, hgone⟩, hactor⟩ := of_decide_eq_true hgone
    refine ⟨decide_eq_false ?_, decide_eq_false (by simp [anonymousEvent])⟩
    rintro ⟨-, hu⟩
    have huser : u = userId := Option.some_inj.mp (hu.symm.trans hactor)
    exact hgone (staysMember_of_other hmember hother huser)

/-- Others keep the rows that they contribute. -/
theorem ErasedTables.contributionRows_other (h : PrivacyRun.EvidenceInv digest sha256 db staged)
    (he : ErasedTables dialect db tenantId userId db' result)
    (hother : ¬ (t = tenantId ∧ u = userId)) :
    db'.contributionRows t u = db.contributionRows t u := by
  -- a version that somebody else contributes stays
  have hstays : ∀ link ∈ db.contributors, link.tenantId = t → link.userId = u →
      ∀ v ∈ db.sourceVersions, v.id = link.sourceVersionId →
        ¬ SoleEvidence db tenantId userId v := by
    rintro link hlink rfl rfl v hv hid hsole
    obtain ⟨-, w, hw, hwid, hwtenant⟩ := h.links link hlink
    obtain rfl : w = v := Table.eq_of_key_eq h.versionIds hw hv (hwid.trans hid.symm)
    have htenant : link.tenantId = tenantId := hwtenant.symm.trans hsole.tenant
    exact hother ⟨htenant, hsole.sole link hlink htenant hid.symm⟩
  have hlinks : (db'.contributors.filter fun link => link.tenantId = t ∧ link.userId = u) =
      db.contributors.filter fun link => link.tenantId = t ∧ link.userId = u := by
    rw [he.contributors]
    unfold withoutLinks
    rw [Table.filter_filter_of_imp, Table.filter_filter_of_imp]
    · intro link _ hown
      obtain ⟨htenant, huser⟩ := of_decide_eq_true hown
      exact decide_eq_true fun herased =>
        hother ⟨htenant.symm.trans herased.1, huser.symm.trans herased.2⟩
    · intro link hlink hown
      obtain ⟨htenant, huser⟩ := of_decide_eq_true hown
      have hmem := (List.mem_filter.mp hlink).1
      exact decide_eq_true ((not_versionGone h.versionIds).mpr fun v hv hid =>
        hstays link hmem htenant huser v hv hid)
  unfold contributionRows
  rw [hlinks]
  refine List.flatMap_congr fun link hlink => ?_
  obtain ⟨hmem, hown⟩ := List.mem_filter.mp hlink
  obtain ⟨htenant, huser⟩ := of_decide_eq_true hown
  have hversions : (db'.sourceVersions.filter fun v =>
        v.id = link.sourceVersionId ∧ v.tenantId = link.tenantId) =
      db.sourceVersions.filter fun v =>
        v.id = link.sourceVersionId ∧ v.tenantId = link.tenantId := by
    rw [he.versions]
    unfold withoutVersions
    rw [Table.filter_filter_of_imp]
    intro v hv hid
    refine decide_eq_true fun horphan => ?_
    exact hstays link hmem htenant huser v hv (of_decide_eq_true hid).1
      ((mem_orphanIds h.versionIds hv).mp horphan.2)
  rw [hversions]
  refine List.flatMap_congr fun v hv => ?_
  rw [he.sources]
  unfold withoutEmptySources
  rw [Table.filter_filter_of_imp]
  intro source _ hid
  refine decide_eq_true ?_
  rintro ⟨-, hempty⟩
  rw [← hversions] at hv
  exact hempty (List.any_eq_true.mpr ⟨v, (List.mem_filter.mp hv).1,
    decide_eq_true (of_decide_eq_true hid).1.symm⟩)

/-- The links that are left of a version which stays. -/
theorem ErasedTables.shared_other
    (he : ErasedTables dialect db tenantId userId db' result) {link : ContributorRow}
    (hlink : link ∈ db'.contributors) :
    shared db'.contributors link = shared (withoutLinks db.contributors tenantId userId) link := by
  have hlinks := he.contributors
  rw [hlinks] at hlink
  have hkept := of_decide_eq_true (List.mem_filter.mp hlink).2
  rw [Bool.eq_iff_iff, shared_iff, shared_iff, hlinks]
  simp only [List.mem_filter, decide_eq_true_eq]
  constructor
  · rintro ⟨other, ⟨hother, -⟩, hrest⟩
    exact ⟨other, hother, hrest⟩
  · rintro ⟨other, hother, htenant, hversion, huser⟩
    exact ⟨other, ⟨hother, hversion ▸ hkept⟩, htenant, hversion, huser⟩

theorem ErasedTables.contributions_other (h : PrivacyRun.EvidenceInv digest sha256 db staged)
    (he : ErasedTables dialect db tenantId userId db' result)
    (hother : ¬ (t = tenantId ∧ u = userId)) :
    contributions dialect columns db' t u =
      (contributions dialect columns db t u).map fun c =>
        { c with
          shared := shared (withoutLinks db.contributors tenantId userId)
            ⟨t, c.sourceVersionId, u⟩ } := by
  unfold contributions
  rw [he.contributionRows_other h hother, List.map_map]
  refine List.map_congr_left fun row hrow => ?_
  rw [List.mem_insertionSort] at hrow
  have hnow : row.1 ∈ db'.contributors := by
    rw [← he.contributionRows_other h hother] at hrow
    exact (mem_contributionRows.mp hrow).1
  obtain ⟨⟨linkTenant, linkVersion, linkUser⟩, v, source⟩ := row
  have hjoined := mem_contributionRows.mp hrow
  dsimp only at hjoined
  obtain ⟨-, rfl, rfl, -, rfl, -⟩ := hjoined
  unfold exportedContribution
  rw [he.shared_other hnow]
  rfl

/-- The export of anybody else changes in what is `shared` only. -/
theorem ErasedTables.export_other (h : PrivacyRun.EvidenceInv digest sha256 db staged)
    (he : ErasedTables dialect db tenantId userId db' result)
    (hother : ¬ (t = tenantId ∧ u = userId)) :
    exportAccount dialect columns db' t u now = (exportAccount dialect columns db t u now).map
      (AccountDataExport.without db.contributors tenantId userId) := by
  unfold exportAccount
  rw [he.isMember_other hother]
  split
  case isTrue hmember =>
    rw [he.user_other hmember hother, he.connectors_other hmember hother,
      he.contributions_other h hother, he.activity_other hmember hother, Option.map_map]
    cases huser : db.users.find? fun user => user.id = u with
    | none => rfl
    | some user =>
        -- the identity of the export is the one asked for
        have hid := List.find?_some huser
        obtain rfl : user.id = u := of_decide_eq_true hid
        rfl
  case isFalse => rfl

end Others

/-- The account is gone from its own export. -/
theorem ErasedTables.export_self (he : ErasedTables dialect db tenantId userId db' result) :
    exportAccount dialect columns db' tenantId userId now = none := by
  unfold exportAccount
  refine if_neg fun hmember => ?_
  rw [isMember_iff, he.memberships, List.mem_filter] at hmember
  exact of_decide_eq_true hmember.2 ⟨rfl, rfl⟩

/-! ### What an export foretells -/

/-- The lists of an export say what the erasure counts, which versions it deletes and which
organizations lose evidence. -/
structure Foretells (data : AccountDataExport) (db db' : Database) (result : AccountErasureResult) :
    Prop where
  credentialsDeleted : result.credentialsDeleted = data.connectors.length
  contributionsRemoved : result.contributionsRemoved = data.contributions.length
  privateSourceVersionsDeleted : result.privateSourceVersionsDeleted =
    (data.contributions.filter ExportedContribution.removable).length
  versions : ∀ v, v ∈ db'.sourceVersions ↔ v ∈ db.sourceVersions ∧
    ¬ ∃ c ∈ data.contributions, c.removable ∧ c.sourceVersionId = v.id
  affectedOrganizations : ∀ organizationId, organizationId ∈ result.affectedOrganizationIds ↔
    ∃ c ∈ data.contributions, c.removable ∧ c.organizationId = organizationId

theorem exportAccount_eq_some {data : AccountDataExport}
    (h : exportAccount dialect columns db tenantId userId now = some data) :
    db.isMember tenantId userId ∧
      data.connectors = connectors dialect columns db tenantId userId ∧
      data.contributions = contributions dialect columns db tenantId userId := by
  unfold exportAccount at h
  split at h
  case isTrue hmember =>
    obtain ⟨user, -, rfl⟩ := Option.map_eq_some_iff.mp h
    exact ⟨hmember, rfl, rfl⟩
  case isFalse => cases h

theorem ErasedTables.foretold (h : PrivacyRun.EvidenceInv digest sha256 db staged)
    (hlinks : db.contributors.Nodup)
    (he : ErasedTables dialect db tenantId userId db' result) {data : AccountDataExport}
    (hconnectors : data.connectors = connectors dialect columns db tenantId userId)
    (hcontributions : data.contributions = contributions dialect columns db tenantId userId) :
    Foretells data db db' result := by
  obtain ⟨hcredentials, hremoved, hdeleted⟩ := he.counts columns h hlinks
  rw [← hconnectors] at hcredentials
  rw [← hcontributions] at hremoved hdeleted
  refine ⟨hcredentials, hremoved, hdeleted, fun v => ?_, fun organizationId => ?_⟩
  · rw [he.versions]
    unfold orphanIds
    rw [mem_withoutVersions h.versionIds, hcontributions]
    refine and_congr_right fun hv => not_congr ⟨fun hsole => ?_, ?_⟩
    · obtain ⟨c, hc, hremovable, hid, -⟩ := removable_of_sole h hv hsole
      exact ⟨c, hc, hremovable, hid⟩
    · rintro ⟨c, hc, hremovable, hid⟩
      obtain ⟨w, hw, hsole, hwid, -⟩ := sole_of_removable h hc hremovable
      obtain rfl : w = v := Table.eq_of_key_eq h.versionIds hw hv (hwid.symm.trans hid)
      exact hsole
  · rw [he.affectedOrganizationIds, mem_affected h.versionIds, hcontributions]
    constructor
    · rintro ⟨v, hv, hsole, rfl⟩
      obtain ⟨c, hc, hremovable, -, horg⟩ := removable_of_sole h hv hsole
      exact ⟨c, hc, hremovable, horg⟩
    · rintro ⟨c, hc, hremovable, rfl⟩
      obtain ⟨v, hv, hsole, -, horg⟩ := sole_of_removable h hc hremovable
      exact ⟨v, hv, hsole, horg.symm⟩

end Database

namespace PrivacyRun

variable {dialect : Dialect} {digest sha256 : String → String} {s : PrivacyRun}

/-- A user contributes a version once. -/
theorem Reached.links_nodup (h : Reached dialect digest sha256 s) : s.db.contributors.Nodup := by
  refine Transition.Reachable.invariant (I := fun s => s.db.contributors.Nodup) ?_ ?_ h
  · rintro _ rfl
    exact List.nodup_nil
  · intro s label t hs hnodup hst
    obtain ⟨heffect, -⟩ := step_effect hst
    obtain ⟨db, staged⟩ := t
    change Effect dialect digest sha256 s.db db label at heffect
    show db.contributors.Nodup
    change s.db.contributors.Nodup at hnodup
    cases label with
    | signIn identity tenantId =>
        obtain ⟨_, _, rfl, -⟩ := heffect
        exact hnodup
    | createSession row =>
        obtain ⟨-, _, rfl, -⟩ := heffect
        exact hnodup
    | upsertOrganization row =>
        obtain ⟨_, rfl⟩ := heffect
        exact hnodup
    | stageSource source tenantId =>
        obtain ⟨result, hok⟩ := heffect
        obtain ⟨between, linked, row, hsource, ⟨versions, -, hlink⟩, -, -, -, rfl⟩ :=
          Database.stageSource_ok hok
        obtain ⟨sources, rfl, -⟩ := Database.upsertSource_ok hsource
        obtain ⟨links, rfl, hlinks⟩ := Database.addContributor?_ok hlink
        rcases hlinks with ⟨-, rfl⟩ | ⟨user, -, -, ⟨-, rfl⟩ | ⟨hnew, -, rfl⟩⟩
        · exact hnodup
        · exact hnodup
        · exact List.Nodup.append hnodup (List.nodup_singleton _)
            (List.disjoint_singleton.mpr hnew)
    | markSourceProcessing id tenantId now | markSourceSucceeded id tenantId now
    | markSourceFailed id failure tenantId now =>
        obtain ⟨_, rfl, -⟩ := heffect
        exact hnodup
    | putClaims claims =>
        obtain ⟨_, rfl, -⟩ := heffect
        exact hnodup
    | saveCredential row =>
        obtain ⟨-, hok⟩ := heffect
        obtain ⟨_, rfl, -⟩ := Database.saveCredential_upsert hok
        exact hnodup
    | enqueue input clock =>
        obtain ⟨_, _, rfl, -⟩ := heffect
        exact hnodup
    | setConnectorState connector tenantId userId group cursor metadata =>
        obtain ⟨-, rfl⟩ := Database.setConnectorState_ok heffect
        exact hnodup
    | putOpportunityOverride override =>
        obtain ⟨_, rfl⟩ := Database.putOpportunityOverride_ok heffect
        exact hnodup
    | eraseAccount tenantId userId operationId now =>
        obtain ⟨result, hok⟩ := heffect
        cases hmember : s.db.isMember tenantId userId with
        | false =>
            rw [Database.eraseAccount_not_member hmember] at hok
            cases hok
            exact hnodup
        | true =>
            rw [(Database.eraseAccount_tables hmember hok).contributors]
            exact (hnodup.filter _).filter _

/-- **An export foretells the erasure**, whatever has been written into the audit log.  After it,
nothing is left to export of the account, and everybody else exports what they did, but for what
they shared with it. -/
theorem export_foretells_erasure (h : Reached dialect digest sha256 s)
    (events : List AuditEventRow) {columns : ExportColumns} {tenantId userId operationId : String}
    {now later : ℤ} {data : AccountDataExport} {db' : Database} {result : AccountErasureResult}
    (hexport : Database.exportAccount dialect columns { s.db with auditEvents := events } tenantId
      userId now = some data)
    (herase : Database.eraseAccount dialect digest { s.db with auditEvents := events } tenantId
      userId operationId later = .ok (db', result)) :
    Database.Foretells data s.db db' result ∧
      (∀ time, Database.exportAccount dialect columns db' tenantId userId time = none) ∧
      ∀ t u time, ¬ (t = tenantId ∧ u = userId) →
        Database.exportAccount dialect columns db' t u time =
          (Database.exportAccount dialect columns { s.db with auditEvents := events } t u time).map
            (AccountDataExport.without s.db.contributors tenantId userId) := by
  obtain ⟨hmember, hconnectors, hcontributions⟩ := Database.exportAccount_eq_some hexport
  have hinv : EvidenceInv digest sha256 { s.db with auditEvents := events } s.staged :=
    h.inv.evidence.frame rfl rfl rfl h.inv.evidence.claims fun _ hm => hm
  have he := Database.eraseAccount_tables hmember herase
  have hforetold := he.foretold hinv h.links_nodup hconnectors hcontributions
  refine ⟨?_, fun time => he.export_self, fun t u time hother => he.export_other hinv hother⟩
  exact { hforetold with }

/-- The message of `shared` before the first member leaves. -/
def beforeErasure : List PrivacyStep := shared.dropLast

/-- The columns of the witness. -/
def plainColumns : ExportColumns where
  user _ := (none, none, 0)
  membership _ := ([.student], ["*"], 0)
  connectedAt _ := 0
  linkedAt _ := 0
  happenedAt _ := 0

/-- The second member stops sharing the message, and keeps it. -/
theorem export_foretells_erasure_shared :
    ∃ s, Transition.exec (step .sqlite demoDigest fun _ => "") start beforeErasure = some s ∧
      ∃ data out, Database.exportAccount .sqlite plainColumns s.db "t" memberA 0 = some data ∧
        s.db.eraseAccount .sqlite demoDigest "t" memberA "1" 0 = .ok out ∧
        Database.Foretells data s.db out.1 out.2 ∧
        data.contributions.map ExportedContribution.shared = [true] ∧
        (Database.exportAccount .sqlite plainColumns out.1 "t" memberB 0).map
          (fun data => data.contributions.map ExportedContribution.shared) = some [false] := by
  obtain ⟨s, hs⟩ : ∃ s, Transition.exec (step .sqlite demoDigest fun _ => "") start beforeErasure =
      some s := ⟨_, rfl⟩
  have hreached : Reached .sqlite demoDigest (fun _ => "") s :=
    Transition.Reachable.of_exec (.start rfl) hs
  obtain ⟨data, hdata⟩ : ∃ data,
      Database.exportAccount .sqlite plainColumns s.db "t" memberA 0 = some data := by
    cases hs
    exact ⟨_, rfl⟩
  obtain ⟨out, hout⟩ : ∃ out,
      s.db.eraseAccount .sqlite demoDigest "t" memberA "1" 0 = .ok out := by
    cases hs
    exact ⟨_, rfl⟩
  refine ⟨s, hs, data, out, hdata, hout,
    (export_foretells_erasure hreached s.db.auditEvents hdata hout).1, ?_⟩
  cases hs
  cases hdata
  cases hout
  decide

end PrivacyRun

end RecruitingOs
