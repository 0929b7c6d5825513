import RecruitingOs.Store.Schema

/-!
# Staging sources

`stageSource`, `markSourceProcessing`, `markSourceSucceeded` and `markSourceFailed` of
`src/store.ts`; the Postgres store executes the same statements.  `sha256` is the hex
digest of a text, `digest` its first 24 digits.

`stageSource_ok` says all that a call can do, and `Database.setStatus` is what the
other three do to the versions.
-/

namespace RecruitingOs

/-- `contentHash(source)`. -/
def contentHash (sha256 : String → String) (source : SourceItem) : String :=
  sha256 (Json.stringify (.obj
    [("rawText", .str source.rawText), ("media", .arr source.media),
      ("publishedAt", source.publishedAt.elim .null .str),
      ("metadata", source.metadata.getD (.obj []))]))

/-- `sourceIdentity(source)`. -/
def sourceIdentity (source : SourceItem) : String :=
  (source.externalId.or source.url).getD source.id

/-- The id of the source of an item. -/
def sourceId (digest : String → String) (tenantId : String) (source : SourceItem) : String :=
  stableId digest "src" (tenantId ++ ":" ++ source.organizationId ++ ":" ++
    source.sourceType.text ++ ":" ++ sourceIdentity source)

/-- The id of the source of a key. -/
def sourceKeyId (digest : String → String) : String × String × SourceType × String → String
  | (tenantId, organizationId, sourceType, identityKey) =>
      stableId digest "src" (tenantId ++ ":" ++ organizationId ++ ":" ++ sourceType.text ++ ":" ++
        identityKey)

/-- The id of the version of an item. -/
def versionId (digest sha256 : String → String) (tenantId : String) (source : SourceItem) :
    String :=
  stableId digest "srcv" (sourceId digest tenantId source ++ ":" ++ contentHash sha256 source)

/-- `StageSourceResult`. -/
structure StageSourceResult where
  sourceId : String
  versionId : String
  status : SourceVersionStatus
  shouldProcess : Bool
  unchanged : Bool
  attemptCount : ℕ
deriving Repr, DecidableEq

namespace Database

/-- The source row of an item. -/
def sourceRow (digest : String → String) (tenantId : String) (source : SourceItem) :
    SourceRow where
  id := RecruitingOs.sourceId digest tenantId source
  tenantId := tenantId
  organizationId := source.organizationId
  sourceType := source.sourceType
  identityKey := sourceIdentity source
  externalId := source.externalId
  url := source.url
  title := source.title

/-- The version row of an item that is new. -/
def versionRow (digest sha256 : String → String) (tenantId : String) (source : SourceItem) :
    SourceVersionRow where
  id := RecruitingOs.versionId digest sha256 tenantId source
  sourceId := RecruitingOs.sourceId digest tenantId source
  tenantId := tenantId
  organizationId := source.organizationId
  contentHash := RecruitingOs.contentHash sha256 source
  rawText := source.rawText
  media := source.media
  publishedAt := source.publishedAt
  fetchedAt := source.fetchedAt
  metadata := source.metadata.getD (.obj [])
  status := .received
  attemptCount := 0
  nextAttemptAt := none
  lastError := none
  startedAt := none
  completedAt := none

/-- `insert into sources … on conflict … do update`. -/
def upsertSource (db : Database) (row : SourceRow) : Except StoreError Database :=
  let refresh (old : SourceRow) : SourceRow :=
    { old with externalId := row.externalId, url := row.url, title := row.title }
  if db.sources.any fun old => old.key = row.key then
    .ok { db with sources := Table.updateWhere (fun old => old.key = row.key) refresh db.sources }
  else if ¬ db.organizations.any fun o => o.tenantId = row.tenantId ∧ o.id = row.organizationId
  then .error (.foreignKey "sources")
  else
    match Table.insert SourceRow.id db.sources row with
    | none => .error (.unique "sources.id")
    | some sources => .ok { db with sources := sources }

/-- `insert or ignore into source_versions`: a conflict of the id or of
`(source_id, content_hash)` is ignored, a missing source is not. -/
def insertVersion (db : Database) (row : SourceVersionRow) : Except StoreError Database :=
  if db.sourceVersions.any fun old =>
      old.id = row.id ∨ (old.sourceId = row.sourceId ∧ old.contentHash = row.contentHash) then
    .ok db
  else if ¬ db.sources.any fun s => s.id = row.sourceId then .error (.foreignKey "source_versions")
  else .ok { db with sourceVersions := db.sourceVersions ++ [row] }

/-- The contributor link: only a member may contribute. -/
def addContributor (db : Database) (row : ContributorRow) : Except StoreError Database :=
  if ¬ db.isMember row.tenantId row.userId then .error .notMember
  else if row ∈ db.contributors then .ok db
  else if ¬ db.sourceVersions.any fun v => v.id = row.sourceVersionId then
    .error (.foreignKey "source_version_contributors")
  else .ok { db with contributors := db.contributors ++ [row] }

/-- `if (source.contributorUserId) …`. -/
def addContributor? (db : Database) (tenantId versionId : String) (userId : Option String) :
    Except StoreError Database :=
  match userId.filter (· ≠ "") with
  | none => .ok db
  | some userId => db.addContributor ⟨tenantId, versionId, userId⟩

/-- `where tenant_id=? and id=?`. -/
def isVersion (tenantId id : String) (row : SourceVersionRow) : Bool :=
  row.tenantId = tenantId ∧ row.id = id

/-- `status==='received' || status==='retryable_failed'`. -/
def stageable : SourceVersionStatus → Bool
  | .received | .retryableFailed => true
  | _ => false

/-- The end of `stageSource`: queue the version if it has to be processed. -/
def queueVersion (db : Database) (tenantId sourceId versionId : String) :
    Except StoreError (Database × StageSourceResult) :=
  match db.sourceVersions.find? (isVersion tenantId versionId) with
  | none => .error .notStaged
  | some row =>
      let queue (old : SourceVersionRow) : SourceVersionRow :=
        { old with status := .queued, nextAttemptAt := none }
      let staged :=
        { db with
          sourceVersions := Table.updateWhere (isVersion tenantId versionId) queue
            db.sourceVersions }
      .ok (if stageable row.status then staged else db,
        { sourceId := sourceId
          versionId := versionId
          status := if stageable row.status then .queued else row.status
          shouldProcess := stageable row.status
          unchanged := row.status ≠ .received
          attemptCount := row.attemptCount })

/-- `stageSource(source, tenantId)`, one transaction. -/
def stageSource (digest sha256 : String → String) (db : Database) (source : SourceItem)
    (tenantId : String) : Except StoreError (Database × StageSourceResult) := do
  let db ← db.upsertSource (sourceRow digest tenantId source)
  let db ← db.insertVersion (versionRow digest sha256 tenantId source)
  let id := RecruitingOs.versionId digest sha256 tenantId source
  let db ← db.addContributor? tenantId id source.contributorUserId
  db.queueVersion tenantId (RecruitingOs.sourceId digest tenantId source) id

/-- An `update source_versions … where tenant_id=? and id=?`. -/
def updateVersion (db : Database) (tenantId id : String)
    (f : SourceVersionRow → SourceVersionRow) : Database :=
  { db with sourceVersions := Table.updateWhere (isVersion tenantId id) f db.sourceVersions }

/-- `status in ('queued','retryable_failed','received')`. -/
def processable : SourceVersionStatus → Bool
  | .queued | .retryableFailed | .received => true
  | _ => false

/-- `markSourceProcessing(versionId, tenantId)`: the attempt count, or a throw. -/
def markSourceProcessing (db : Database) (id tenantId : String) (now : ℤ) :
    Except StoreError (Database × ℕ) :=
  match db.sourceVersions.find? (fun row => isVersion tenantId id row ∧ processable row.status) with
  | none => .error .notReady
  | some row =>
      let process (old : SourceVersionRow) : SourceVersionRow :=
        if processable old.status then
          { old with
            status := .processing
            attemptCount := old.attemptCount + 1
            startedAt := some now
            lastError := none }
        else old
      .ok (db.updateVersion tenantId id process, row.attemptCount + 1)

/-- `markSourceSucceeded(versionId, tenantId)`. -/
def markSourceSucceeded (db : Database) (id tenantId : String) (now : ℤ) : Database :=
  db.updateVersion tenantId id fun row =>
    { row with
      status := .succeeded, completedAt := some now, nextAttemptAt := none, lastError := none }

/-- `ProcessingFailure`. -/
structure ProcessingFailure where
  retryable : Bool
  message : String
  nextAttemptAt : Option ℤ
deriving Repr, DecidableEq

/-- `markSourceFailed(versionId, failure, tenantId)`. -/
def markSourceFailed (db : Database) (id : String) (failure : ProcessingFailure)
    (tenantId : String) (now : ℤ) : Database :=
  db.updateVersion tenantId id fun row =>
    { row with
      status := if failure.retryable then .retryableFailed else .terminalFailed
      lastError := some (String.ofList (failure.message.toList.take 500))
      nextAttemptAt := failure.nextAttemptAt
      completedAt := some now }

/-! ### What staging can do -/

section Specs

variable {digest sha256 : String → String} {db db' : Database} {tenantId : String}
  {source : SourceItem} {result : StageSourceResult}

theorem bind_eq_ok {α β : Type} {x : Except StoreError α} {f : α → Except StoreError β} {b : β} :
    (x >>= f) = .ok b ↔ ∃ a, x = .ok a ∧ f a = .ok b :=
  except_bind_eq_ok

theorem refused_eq_ok {α : Type} {c : Prop} [Decidable c] {e : StoreError} {a b : α} :
    (if c then Except.error e else .ok a) = .ok b ↔ ¬ c ∧ b = a := by
  by_cases hc : c
  · rw [if_pos hc]
    constructor
    · intro h
      cases h
    · rintro ⟨hnot, -⟩
      exact absurd hc hnot
  · rw [if_neg hc, Except.ok.injEq]
    constructor
    · rintro rfl
      exact ⟨hc, rfl⟩
    · rintro ⟨-, rfl⟩
      rfl

/-- The source is refreshed, or new under a new id. -/
theorem upsertSource_ok {row : SourceRow} (h : db.upsertSource row = .ok db') :
    ∃ sources, db' = { db with sources := sources } ∧
      (((∃ old ∈ db.sources, old.key = row.key) ∧
        sources = Table.updateWhere (fun old => old.key = row.key)
          (fun old => { old with externalId := row.externalId, url := row.url, title := row.title })
          db.sources) ∨
      ((∀ old ∈ db.sources, old.key ≠ row.key) ∧ (∀ old ∈ db.sources, old.id ≠ row.id) ∧
        sources = db.sources ++ [row])) := by
  unfold upsertSource at h
  dsimp only at h
  split at h
  · rename_i hany
    cases h
    refine ⟨_, rfl, .inl ⟨?_, rfl⟩⟩
    simpa using hany
  · rename_i hany
    split at h
    · cases h
    · split at h
      · cases h
      · rename_i sources hinsert
        cases h
        obtain ⟨hnew, rfl⟩ := Table.insert_eq_some.mp hinsert
        refine ⟨_, rfl, .inr ⟨?_, hnew, rfl⟩⟩
        simpa using hany

/-- The version is there already, or appended. -/
theorem insertVersion_ok {row : SourceVersionRow} (h : db.insertVersion row = .ok db') :
    ∃ versions, db' = { db with sourceVersions := versions } ∧
      (versions = db.sourceVersions ∨
        ((∀ old ∈ db.sourceVersions, old.id ≠ row.id) ∧ (∃ s ∈ db.sources, s.id = row.sourceId) ∧
          versions = db.sourceVersions ++ [row])) := by
  unfold insertVersion at h
  split at h
  · cases h
    exact ⟨_, rfl, .inl rfl⟩
  · rename_i hany
    split at h
    · cases h
    · rename_i hsource
      cases h
      refine ⟨_, rfl, .inr ⟨?_, by simpa using hsource, rfl⟩⟩
      intro old hold hid
      exact hany (List.any_eq_true.mpr ⟨old, hold, decide_eq_true (.inl hid)⟩)

/-- The link is there already or appended, for a member. -/
theorem addContributor?_ok {versionId : String} {userId : Option String}
    (h : db.addContributor? tenantId versionId userId = .ok db') :
    ∃ contributors, db' = { db with contributors := contributors } ∧
      (userId.filter (· ≠ "") = none ∧ contributors = db.contributors ∨
        ∃ user, userId.filter (· ≠ "") = some user ∧ db.isMember tenantId user ∧
          ((⟨tenantId, versionId, user⟩ ∈ db.contributors ∧ contributors = db.contributors) ∨
            (⟨tenantId, versionId, user⟩ ∉ db.contributors ∧
              (∃ v ∈ db.sourceVersions, v.id = versionId) ∧
              contributors = db.contributors ++ [⟨tenantId, versionId, user⟩]))) := by
  unfold addContributor? at h
  split at h
  · rename_i hnone
    cases h
    exact ⟨_, rfl, .inl ⟨hnone, rfl⟩⟩
  · rename_i user hsome
    unfold addContributor at h
    split at h
    · cases h
    · rename_i hmember
      have hmember' : db.isMember tenantId user := by simpa using hmember
      split at h
      · rename_i hin
        cases h
        exact ⟨_, rfl, .inr ⟨user, hsome, hmember', .inl ⟨hin, rfl⟩⟩⟩
      · rename_i hin
        split at h
        · cases h
        · rename_i hversion
          cases h
          exact ⟨_, rfl, .inr ⟨user, hsome, hmember', .inr ⟨hin, by simpa using hversion, rfl⟩⟩⟩

/-- A staged version is queued if it has to be processed and left alone otherwise. -/
theorem queueVersion_ok {sourceId versionId : String}
    (h : db.queueVersion tenantId sourceId versionId = .ok (db', result)) :
    ∃ row, db.sourceVersions.find? (isVersion tenantId versionId) = some row ∧
      result =
        { sourceId := sourceId
          versionId := versionId
          status := if stageable row.status then .queued else row.status
          shouldProcess := stageable row.status
          unchanged := row.status ≠ .received
          attemptCount := row.attemptCount } ∧
      db' = { db with
        sourceVersions := if stageable row.status then
            Table.updateWhere (isVersion tenantId versionId)
              (fun old => { old with status := .queued, nextAttemptAt := none }) db.sourceVersions
          else db.sourceVersions } := by
  unfold queueVersion at h
  split at h
  · cases h
  · rename_i row hfind
    dsimp only at h
    cases h
    refine ⟨row, hfind, rfl, ?_⟩
    split <;> rfl

/-- **What `stageSource` can do.** -/
theorem stageSource_ok (h : db.stageSource digest sha256 source tenantId = .ok (db', result)) :
    ∃ between linked row,
      db.upsertSource (sourceRow digest tenantId source) = .ok between ∧
      (∃ versions, between.insertVersion (versionRow digest sha256 tenantId source) =
          .ok { between with sourceVersions := versions } ∧
        { between with sourceVersions := versions }.addContributor? tenantId
          (RecruitingOs.versionId digest sha256 tenantId source) source.contributorUserId =
            .ok linked) ∧
      linked.sourceVersions.find?
        (isVersion tenantId (RecruitingOs.versionId digest sha256 tenantId source)) = some row ∧
      result.versionId = RecruitingOs.versionId digest sha256 tenantId source ∧
      result.shouldProcess = stageable row.status ∧
      db' = { linked with
        sourceVersions := if stageable row.status then
            Table.updateWhere
              (isVersion tenantId (RecruitingOs.versionId digest sha256 tenantId source))
              (fun old => { old with status := .queued, nextAttemptAt := none })
              linked.sourceVersions
          else linked.sourceVersions } := by
  unfold stageSource at h
  obtain ⟨between, hsource, h⟩ := bind_eq_ok.mp h
  obtain ⟨inserted, hversion, h⟩ := bind_eq_ok.mp h
  obtain ⟨linked, hlink, h⟩ := bind_eq_ok.mp h
  obtain ⟨row, hfind, hresult, hdb⟩ := queueVersion_ok h
  obtain ⟨versions, hinserted, -⟩ := insertVersion_ok hversion
  rw [hinserted] at hversion hlink
  refine ⟨between, linked, row, hsource, ⟨versions, hversion, hlink⟩, hfind, ?_, ?_, hdb⟩
  · rw [hresult]
  · rw [hresult]

/-- Staging touches three tables. -/
theorem stageSource_frame (h : db.stageSource digest sha256 source tenantId = .ok (db', result)) :
    ∃ sources versions links, db' = { db with
      sources := sources, sourceVersions := versions, contributors := links } := by
  obtain ⟨between, linked, row, hsource, ⟨versions, -, hlink⟩, -, -, -, rfl⟩ := stageSource_ok h
  obtain ⟨sources, rfl, -⟩ := upsertSource_ok hsource
  obtain ⟨links, rfl, -⟩ := addContributor?_ok hlink
  exact ⟨_, _, _, rfl⟩

theorem isVersion_iff {id : String} {row : SourceVersionRow} :
    isVersion tenantId id row ↔ row.tenantId = tenantId ∧ row.id = id := by
  simp [isVersion]

/-- What `stageSource` does to the versions. -/
theorem stageSource_versions
    (h : db.stageSource digest sha256 source tenantId = .ok (db', result)) :
    result.versionId = RecruitingOs.versionId digest sha256 tenantId source ∧
      ∃ versions row,
        (versions = db.sourceVersions ∨
          (∀ old ∈ db.sourceVersions, old.id ≠ result.versionId) ∧
            versions = db.sourceVersions ++ [versionRow digest sha256 tenantId source]) ∧
        versions.find? (isVersion tenantId result.versionId) = some row ∧
        result.shouldProcess = stageable row.status ∧
        db'.sourceVersions =
          if stageable row.status then
            Table.updateWhere (isVersion tenantId result.versionId)
              (fun old => { old with status := .queued, nextAttemptAt := none }) versions
          else versions := by
  obtain ⟨between, linked, row, hsource, ⟨versions, hversion, hlink⟩, hfind, hid, hprocess, rfl⟩ :=
    stageSource_ok h
  obtain ⟨sources, rfl, -⟩ := upsertSource_ok hsource
  obtain ⟨contributors, rfl, -⟩ := addContributor?_ok hlink
  obtain ⟨versions', heq, hcases⟩ := insertVersion_ok hversion
  obtain rfl : versions = versions' := congrArg Database.sourceVersions heq
  refine ⟨hid, versions, row, ?_, ?_, hprocess, ?_⟩
  · rcases hcases with hsame | ⟨hnew, -, happend⟩
    · exact .inl hsame
    · exact .inr ⟨by rw [hid]; exact hnew, happend⟩
  · rw [hid]
    exact hfind
  · rw [hid]

/-- An insert of a version with a new id keeps the ids unique. -/
theorem nodup_insertedVersion {rows versions : List SourceVersionRow}
    (hn : (rows.map SourceVersionRow.id).Nodup)
    (h : versions = rows ∨ ∃ new : SourceVersionRow, (∀ old ∈ rows, old.id ≠ new.id) ∧
      versions = rows ++ [new]) : (versions.map SourceVersionRow.id).Nodup := by
  rcases h with rfl | ⟨new, hnew, rfl⟩
  · exact hn
  · exact Table.nodup_key_append hn hnew

/-- Queueing the version that is found leaves those that are not stageable. -/
theorem mem_queuedVersions {versions : List SourceVersionRow} {id : String}
    {row old : SourceVersionRow} (hn : (versions.map SourceVersionRow.id).Nodup)
    (hfind : versions.find? (isVersion tenantId id) = some row) (hold : old ∈ versions)
    (hstatus : stageable old.status = false) :
    old ∈ if stageable row.status then
        Table.updateWhere (isVersion tenantId id)
          (fun old => { old with status := .queued, nextAttemptAt := none }) versions
      else versions := by
  split
  · rename_i hstageable
    refine Table.mem_updateWhere.mpr ⟨old, hold, if_neg fun hid => ?_⟩
    -- the row that is found is the only one with the id, and it is stageable
    have hrow := isVersion_iff.mp (List.find?_some hfind)
    have hsame : old = row := Table.eq_of_key_eq hn hold (List.mem_of_find?_eq_some hfind)
      ((isVersion_iff.mp hid).2.trans hrow.2.symm)
    rw [hsame, hstageable] at hstatus
    cases hstatus
  · exact hold

/-- `stageSource` keeps the ids unique. -/
theorem stageSource_nodup
    (h : db.stageSource digest sha256 source tenantId = .ok (db', result))
    (hn : (db.sourceVersions.map SourceVersionRow.id).Nodup) :
    (db'.sourceVersions.map SourceVersionRow.id).Nodup := by
  obtain ⟨hid, versions, row, hversions, -, -, hqueued⟩ := stageSource_versions h
  rw [hid] at hversions
  have hinserted := nodup_insertedVersion hn
    (hversions.imp_right fun hnew => ⟨versionRow digest sha256 tenantId source, hnew⟩)
  rw [hqueued]
  split
  · rw [Table.map_key_updateWhere (f := fun old => { old with
      status := .queued, nextAttemptAt := none }) SourceVersionRow.id fun _ _ _ => rfl]
    exact hinserted
  · exact hinserted

/-- A version that does not have to be processed is left as it is. -/
theorem stageSource_kept
    (h : db.stageSource digest sha256 source tenantId = .ok (db', result))
    (hn : (db.sourceVersions.map SourceVersionRow.id).Nodup) {old : SourceVersionRow}
    (hold : old ∈ db.sourceVersions) (hstatus : stageable old.status = false) :
    old ∈ db'.sourceVersions := by
  obtain ⟨hid, versions, row, hversions, hfind, -, hqueued⟩ := stageSource_versions h
  have hmem : old ∈ versions := by
    rcases hversions with rfl | ⟨-, rfl⟩
    · exact hold
    · exact List.mem_append_left _ hold
  rw [hid] at hversions
  have hinserted := nodup_insertedVersion hn
    (hversions.imp_right fun hnew => ⟨versionRow digest sha256 tenantId source, hnew⟩)
  rw [hqueued]
  exact mem_queuedVersions hinserted hfind hmem hstatus

/-- A version that has to be processed is queued. -/
theorem stageSource_queued
    (h : db.stageSource digest sha256 source tenantId = .ok (db', result))
    (hprocess : result.shouldProcess) :
    ∃ row ∈ db'.sourceVersions, isVersion tenantId result.versionId row ∧ row.status = .queued := by
  obtain ⟨-, versions, row, -, hfind, hshould, hqueued⟩ := stageSource_versions h
  have hstageable : stageable row.status := hshould ▸ hprocess
  have hid := List.find?_some hfind
  refine ⟨{ row with status := .queued, nextAttemptAt := none }, ?_, hid, rfl⟩
  rw [hqueued, if_pos hstageable]
  exact Table.mem_updateWhere.mpr
    ⟨row, List.mem_of_find?_eq_some hfind, if_pos hid⟩

/-- An update of one version leaves the others. -/
theorem mem_updateVersion_of_ne {id : String} {f : SourceVersionRow → SourceVersionRow}
    {row : SourceVersionRow} (hrow : row ∈ db.sourceVersions) (hid : row.id ≠ id) :
    row ∈ (db.updateVersion tenantId id f).sourceVersions :=
  Table.mem_updateWhere.mpr ⟨row, hrow, if_neg fun hversion => hid (isVersion_iff.mp hversion).2⟩

theorem mem_updateVersion {id : String} {f : SourceVersionRow → SourceVersionRow}
    {row : SourceVersionRow} (hrow : row ∈ db.sourceVersions) (hid : isVersion tenantId id row) :
    f row ∈ (db.updateVersion tenantId id f).sourceVersions :=
  Table.mem_updateWhere.mpr ⟨row, hrow, if_pos hid⟩

theorem updateVersion_ids {id : String} {f : SourceVersionRow → SourceVersionRow}
    (hf : ∀ row, (f row).id = row.id) :
    (db.updateVersion tenantId id f).sourceVersions.map SourceVersionRow.id =
      db.sourceVersions.map SourceVersionRow.id :=
  Table.map_key_updateWhere SourceVersionRow.id fun row _ _ => hf row

end Specs

end Database

end RecruitingOs
