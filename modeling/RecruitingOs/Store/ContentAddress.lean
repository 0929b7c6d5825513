import RecruitingOs.Lib.Transition
import RecruitingOs.Store.Sources

/-!
# Versions are addressed by their content

The id of a version hashes the key of its source, `tenant:organization:type:identity`,
and the hash of the serialized content.  Organization ids and source types have no
colon and a digest has a fixed length, so both joined texts can be taken apart again
(`versionId_eq_iff`), and where the hash does not collide an id is as good as what it
was made from.

`StageRun` has any calls of `stageSource`, of all tenants, between any changes of
status.  `Addressed` is its invariant: every row was made from a call and every call has
its row; `content_addressing` reads the claim of content addressing off it.
-/

namespace RecruitingOs

/-- The text that `contentHash` hashes. -/
def SourceItem.serializedContent (source : SourceItem) : String :=
  Json.stringify (.obj
    [("rawText", .str source.rawText), ("media", .arr source.media),
      ("publishedAt", source.publishedAt.elim .null .str),
      ("metadata", source.metadata.getD (.obj []))])

/-- The same text, from the columns of a version. -/
def SourceVersionRow.serializedContent (row : SourceVersionRow) : String :=
  Json.stringify (.obj
    [("rawText", .str row.rawText), ("media", .arr row.media),
      ("publishedAt", row.publishedAt.elim .null .str), ("metadata", row.metadata)])

theorem contentHash_eq {sha256 : String → String} {source : SourceItem} :
    contentHash sha256 source = sha256 source.serializedContent := rfl

/-- The text that the id of a source hashes. -/
def sourceText (tenantId : String) (source : SourceItem) : String :=
  tenantId ++ ":" ++ source.organizationId ++ ":" ++ source.sourceType.text ++ ":" ++
    sourceIdentity source

/-- The text that the id of a version hashes. -/
def versionText (digest sha256 : String → String) (tenantId : String) (source : SourceItem) :
    String :=
  sourceId digest tenantId source ++ ":" ++ contentHash sha256 source

/-- What the id of a version is made from. -/
structure ContentAddress where
  organizationId : String
  sourceType : SourceType
  identity : String
  content : String
deriving Repr, DecidableEq

def SourceItem.address (source : SourceItem) : ContentAddress where
  organizationId := source.organizationId
  sourceType := source.sourceType
  identity := sourceIdentity source
  content := source.serializedContent

/-- The columns that are written when a version is inserted, and by no update. -/
structure ContentColumns where
  id : String
  sourceId : String
  tenantId : String
  organizationId : String
  contentHash : String
  rawText : String
  media : List Json
  publishedAt : Option String
  fetchedAt : String
  metadata : Json
deriving Repr, DecidableEq

def SourceVersionRow.contentColumns (row : SourceVersionRow) : ContentColumns where
  id := row.id
  sourceId := row.sourceId
  tenantId := row.tenantId
  organizationId := row.organizationId
  contentHash := row.contentHash
  rawText := row.rawText
  media := row.media
  publishedAt := row.publishedAt
  fetchedAt := row.fetchedAt
  metadata := row.metadata

/-! ### Ids -/

/-- The source type with a text. -/
def SourceType.ofText? : String → Option SourceType
  | "gmail" => some .gmail
  | "groupme" => some .groupme
  | "instagram" => some .instagram
  | "linkedin" => some .linkedin
  | "website" => some .website
  | "bio_link" => some .bioLink
  | "application" => some .application
  | "screenshot" => some .screenshot
  | "heel_life" => some .heelLife
  | _ => none

theorem SourceType.ofText?_text (t : SourceType) : SourceType.ofText? t.text = some t := by
  cases t <;> rfl

theorem SourceType.text_injective : Function.Injective SourceType.text := by
  intro a b h
  have hsome : some a = some b := by
    rw [← a.ofText?_text, ← b.ofText?_text, h]
  exact Option.some.inj hsome

theorem SourceType.noColon (t : SourceType) : ':' ∉ t.text.toList := by
  cases t <;> decide

/-- The key of a source can be read off its text. -/
theorem sourceText_inj {tenantId : String} {a b : SourceItem} {orgA orgB : OrganizationId}
    (ha : a.organizationId = orgA.text) (hb : b.organizationId = orgB.text) :
    sourceText tenantId a = sourceText tenantId b ↔
      a.organizationId = b.organizationId ∧ a.sourceType = b.sourceType ∧
        sourceIdentity a = sourceIdentity b := by
  have hassoc : ∀ source : SourceItem, sourceText tenantId source =
      (tenantId ++ ":") ++ (source.organizationId ++ (":" ++
        (source.sourceType.text ++ (":" ++ sourceIdentity source)))) := by
    intro source
    simp only [sourceText, String.append_assoc]
  constructor
  · intro h
    rw [hassoc, hassoc] at h
    have htenant := congrArg String.toList h
    simp only [String.toList_append (s := tenantId ++ ":")] at htenant
    have hkey := String.toList_injective (List.append_cancel_left htenant)
    rw [ha, hb] at hkey ⊢
    obtain ⟨horg, hrest⟩ := colon_join_inj orgA.noColon orgB.noColon hkey
    obtain ⟨htype, hidentity⟩ := colon_join_inj a.sourceType.noColon b.sourceType.noColon hrest
    exact ⟨horg, SourceType.text_injective htype, hidentity⟩
  · rintro ⟨horg, htype, hidentity⟩
    rw [hassoc, hassoc, horg, htype, hidentity]

/-- **Ids and addresses.**  Where the hashes do not collide, two items of a tenant have
one version id exactly when they have one address. -/
theorem versionId_eq_iff {digest sha256 : String → String} {tenantId : String} {a b : SourceItem}
    {orgA orgB : OrganizationId} (ha : a.organizationId = orgA.text)
    (hb : b.organizationId = orgB.text) (hlength : ∀ text, (digest text).length = 24)
    (hd : CollisionFree digest [sourceText tenantId a, versionText digest sha256 tenantId a,
      sourceText tenantId b, versionText digest sha256 tenantId b])
    (hs : CollisionFree sha256 [a.serializedContent, b.serializedContent]) :
    versionId digest sha256 tenantId a = versionId digest sha256 tenantId b ↔
      a.address = b.address := by
  have hsource : sourceId digest tenantId a = sourceId digest tenantId b ↔
      sourceText tenantId a = sourceText tenantId b := by
    constructor
    · intro h
      exact hd _ (by simp) _ (by simp) (stableId_inj.mp h)
    · intro h
      exact congrArg (stableId digest "src") h
  constructor
  · intro h
    have htext : versionText digest sha256 tenantId a = versionText digest sha256 tenantId b :=
      hd _ (by simp) _ (by simp) (stableId_inj.mp h)
    -- the id of a source has a fixed length, so the joined text splits behind it
    have hlist := congrArg String.toList htext
    simp only [versionText, String.toList_append, List.append_assoc] at hlist
    have hlengths : ∀ source, (sourceId digest tenantId source).toList.length = 28 := by
      intro source
      rw [String.length_toList, sourceId, stableId, String.length_append, hlength]
      rfl
    obtain ⟨hid, hrest⟩ := List.append_inj hlist ((hlengths a).trans (hlengths b).symm)
    have hhash : contentHash sha256 a = contentHash sha256 b :=
      String.toList_injective (List.append_cancel_left hrest)
    obtain ⟨horg, htype, hidentity⟩ :=
      (sourceText_inj ha hb).mp (hsource.mp (String.toList_injective hid))
    have hcontent : a.serializedContent = b.serializedContent :=
      hs _ (by simp) _ (by simp) hhash
    simp only [SourceItem.address, horg, htype, hidentity, hcontent]
  · intro h
    simp only [SourceItem.address, ContentAddress.mk.injEq] at h
    obtain ⟨horg, htype, hidentity, hcontent⟩ := h
    have hid := hsource.mpr ((sourceText_inj ha hb).mpr ⟨horg, htype, hidentity⟩)
    rw [versionId, versionId, hid, contentHash_eq, contentHash_eq, hcontent]

/-! ### Runs -/

/-- A `stageSource` that has answered. -/
structure StagedCall where
  tenantId : String
  source : SourceItem
  versionId : String
deriving Repr, DecidableEq

/-- A database, and the calls that have staged into it. -/
structure StageRun where
  db : Database
  staged : List StagedCall

/-- A call of `stageSource` or a change of status; the organization of an item is one
that the API admits. -/
inductive StageStep where
  | stage (tenantId : String) (org : OrganizationId) (source : SourceItem)
  | markProcessing (tenantId id : String) (now : ℤ)
  | markSucceeded (tenantId id : String) (now : ℤ)
  | markFailed (tenantId id : String) (failure : Database.ProcessingFailure) (now : ℤ)

namespace StageRun

variable (digest sha256 : String → String)

/-- One step. -/
def step (s : StageRun) : StageStep → Option StageRun
  | .stage tenantId org source =>
      let source := { source with organizationId := org.text }
      match s.db.stageSource digest sha256 source tenantId with
      | .error _ => some s
      | .ok (db, result) => some ⟨db, ⟨tenantId, source, result.versionId⟩ :: s.staged⟩
  | .markProcessing tenantId id now =>
      match s.db.markSourceProcessing id tenantId now with
      | .error _ => some s
      | .ok (db, _) => some { s with db := db }
  | .markSucceeded tenantId id now =>
      some { s with db := s.db.markSourceSucceeded id tenantId now }
  | .markFailed tenantId id failure now =>
      some { s with db := s.db.markSourceFailed id failure tenantId now }

/-- The states that runs reach from a database without sources. -/
def Reached : StageRun → Prop :=
  Transition.Reachable (fun s => s.db.sources = [] ∧ s.db.sourceVersions = [] ∧ s.staged = [])
    (step digest sha256)

/-- The texts that the calls of a tenant have hashed for ids. -/
def hashed (s : StageRun) (tenantId : String) : List String :=
  (s.staged.filter fun call => call.tenantId = tenantId).flatMap fun call =>
    [sourceText tenantId call.source, versionText digest sha256 tenantId call.source]

/-- The contents that the calls of a tenant have hashed. -/
def contents (s : StageRun) (tenantId : String) : List String :=
  (s.staged.filter fun call => call.tenantId = tenantId).map fun call =>
    call.source.serializedContent

end StageRun

/-- The row, joined with its source, is about this item of the tenant: its key and its
content, column by column. -/
def Database.Holds (db : Database) (tenantId : String) (source : SourceItem)
    (row : SourceVersionRow) : Prop :=
  row.tenantId = tenantId ∧ row.serializedContent = source.serializedContent ∧
    ∃ r ∈ db.sources, r.id = row.sourceId ∧
      r.key = (tenantId, source.organizationId, source.sourceType, sourceIdentity source)

namespace StageRun

variable {digest sha256 : String → String} {s t : StageRun}

/-- Every row was made from a call, and every call has its row. -/
structure Addressed (digest sha256 : String → String) (s : StageRun) : Prop where
  versionIds : (s.db.sourceVersions.map SourceVersionRow.id).Nodup
  sourceKeys : ∀ r ∈ s.db.sources, r.id = sourceKeyId digest r.key
  origin : ∀ v ∈ s.db.sourceVersions, ∃ call ∈ s.staged,
    v.contentColumns =
        (Database.versionRow digest sha256 call.tenantId call.source).contentColumns ∧
      ∃ r ∈ s.db.sources, r.key = (Database.sourceRow digest call.tenantId call.source).key
  answers : ∀ call ∈ s.staged,
    call.versionId = versionId digest sha256 call.tenantId call.source ∧
      (∃ org : OrganizationId, call.source.organizationId = org.text) ∧
      ∃ v ∈ s.db.sourceVersions, v.tenantId = call.tenantId ∧ v.id = call.versionId

/-- A queued version has the content that it had. -/
theorem contentColumns_queued {versions versions' : List SourceVersionRow}
    {p : SourceVersionRow → Bool} {queued : Bool}
    (h : versions' = if queued then Table.updateWhere p
        (fun old => { old with status := .queued, nextAttemptAt := none }) versions
      else versions) :
    versions'.map SourceVersionRow.contentColumns =
      versions.map SourceVersionRow.contentColumns := by
  rw [h]
  split
  · exact Table.map_key_updateWhere SourceVersionRow.contentColumns fun _ _ _ => rfl
  · rfl

/-- A change of status keeps it. -/
theorem Addressed.status (h : Addressed digest sha256 s) {versions : List SourceVersionRow}
    (hcolumns : versions.map SourceVersionRow.contentColumns =
      s.db.sourceVersions.map SourceVersionRow.contentColumns) :
    Addressed digest sha256 { s with db := { s.db with sourceVersions := versions } } := by
  refine ⟨?_, h.sourceKeys, ?_, ?_⟩
  · have hids := congrArg (List.map ContentColumns.id) hcolumns
    rw [List.map_map, List.map_map] at hids
    show (versions.map (ContentColumns.id ∘ SourceVersionRow.contentColumns)).Nodup
    rw [hids]
    exact h.versionIds
  · intro v hv
    obtain ⟨old, hold, hsame⟩ := Table.exists_of_map_eq hcolumns hv
    rw [← hsame]
    exact h.origin old hold
  · intro call hcall
    obtain ⟨hanswer, horg, v, hv, htenant, hid⟩ := h.answers call hcall
    obtain ⟨new, hnew, hsame⟩ := Table.exists_of_map_eq hcolumns.symm hv
    exact ⟨hanswer, horg, new, hnew, (congrArg ContentColumns.tenantId hsame).trans htenant,
      (congrArg ContentColumns.id hsame).trans hid⟩

/-- The sources after an upsert: the old ones under their ids and keys, and the item's. -/
theorem upsertSource_sources {db db' : Database} {row : SourceRow}
    (h : db.upsertSource row = .ok db') :
    (∀ old ∈ db.sources, ∃ r ∈ db'.sources, r.key = old.key) ∧
      (∃ r ∈ db'.sources, r.key = row.key) ∧
      ∀ r ∈ db'.sources, r = row ∨ ∃ old ∈ db.sources, old.id = r.id ∧ old.key = r.key := by
  obtain ⟨sources, rfl, ⟨⟨old, hold, hkey⟩, rfl⟩ | ⟨-, -, rfl⟩⟩ := Database.upsertSource_ok h
  · have hstays : ∀ old ∈ db.sources, ∃ r ∈ Table.updateWhere
        (fun old : SourceRow => old.key = row.key) (fun old => { old with
          externalId := row.externalId, url := row.url, title := row.title }) db.sources,
        r.key = old.key := fun old hold =>
      ⟨_, Table.mem_updateWhere.mpr ⟨old, hold, rfl⟩, by split <;> rfl⟩
    obtain ⟨r, hr, hrKey⟩ := hstays old hold
    refine ⟨hstays, ⟨r, hr, hrKey.trans hkey⟩, fun r hr => ?_⟩
    obtain ⟨old, hold, rfl⟩ := Table.mem_updateWhere.mp hr
    exact .inr ⟨old, hold, by split <;> rfl, by split <;> rfl⟩
  · refine ⟨fun old hold => ⟨old, List.mem_append_left _ hold, rfl⟩, ⟨row, by simp, rfl⟩,
      fun r hr => ?_⟩
    rcases List.mem_append.mp hr with hold | hlast
    · exact .inr ⟨r, hold, rfl, rfl⟩
    · exact .inl (List.mem_singleton.mp hlast)

/-- **Staging** keeps it, and remembers the call. -/
theorem Addressed.stage (h : Addressed digest sha256 s) {tenantId : String} {source : SourceItem}
    {db : Database} {result : StageSourceResult} {org : OrganizationId}
    (horg : source.organizationId = org.text)
    (hok : s.db.stageSource digest sha256 source tenantId = .ok (db, result)) :
    Addressed digest sha256 ⟨db, ⟨tenantId, source, result.versionId⟩ :: s.staged⟩ := by
  obtain ⟨hid, versions, row, hversions, hfind, -, hqueued⟩ := Database.stageSource_versions hok
  obtain ⟨between, linked, found, hsource, ⟨inserted, -, hlink⟩, -, -, -, hdb⟩ :=
    Database.stageSource_ok hok
  obtain ⟨links, rfl, -⟩ := Database.addContributor?_ok hlink
  have hsources : db.sources = between.sources := by
    rw [hdb]
  obtain ⟨hstays, hown, hfrom⟩ := upsertSource_sources hsource
  rw [← hsources] at hstays hown hfrom
  have hrow := Database.isVersion_iff.mp (List.find?_some hfind)
  -- the invariant holds before the version is queued
  have hbefore : Addressed digest sha256 ⟨{ db with sourceVersions := versions },
      ⟨tenantId, source, result.versionId⟩ :: s.staged⟩ := by
    refine ⟨?_, ?_, ?_, ?_⟩
    · rcases hversions with rfl | ⟨hnew, rfl⟩
      · exact h.versionIds
      · refine Table.nodup_key_append h.versionIds fun old hold => ?_
        rw [hid] at hnew
        exact hnew old hold
    · intro r hr
      rcases hfrom r hr with rfl | ⟨old, hold, hrId, hrKey⟩
      · rfl
      · rw [← hrId, ← hrKey]
        exact h.sourceKeys old hold
    · have hold : ∀ v ∈ s.db.sourceVersions, ∃ call ∈ (⟨tenantId, source, result.versionId⟩ :: s.staged),
          v.contentColumns =
              (Database.versionRow digest sha256 call.tenantId call.source).contentColumns ∧
            ∃ r ∈ db.sources,
              r.key = (Database.sourceRow digest call.tenantId call.source).key := by
        intro v hv
        obtain ⟨call, hcall, hcolumns, r, hr, hkey⟩ := h.origin v hv
        obtain ⟨r', hr', hkey'⟩ := hstays r hr
        exact ⟨call, List.mem_cons_of_mem _ hcall, hcolumns, r', hr', hkey'.trans hkey⟩
      intro v hv
      rcases hversions with rfl | ⟨-, rfl⟩
      · exact hold v hv
      · rcases List.mem_append.mp hv with hv | hlast
        · exact hold v hv
        · rw [List.mem_singleton.mp hlast]
          exact ⟨_, List.mem_cons_self, rfl, hown⟩
    · intro call hcall
      rcases List.mem_cons.mp hcall with rfl | hcall
      · exact ⟨hid, ⟨org, horg⟩, row, List.mem_of_find?_eq_some hfind, hrow.1, hrow.2⟩
      · obtain ⟨hanswer, hcallOrg, v, hv, hrest⟩ := h.answers call hcall
        refine ⟨hanswer, hcallOrg, v, ?_, hrest⟩
        rcases hversions with rfl | ⟨-, rfl⟩
        · exact hv
        · exact List.mem_append_left _ hv
  exact hbefore.status (contentColumns_queued hqueued)

/-- What a step does to the content of the versions: at most it appends a row. -/
theorem step_columns {label : StageStep} (hs : s.step digest sha256 label = some t) :
    s.db.sourceVersions.map SourceVersionRow.contentColumns <+:
      t.db.sourceVersions.map SourceVersionRow.contentColumns := by
  have hupdate : ∀ (tenantId id : String) (f : SourceVersionRow → SourceVersionRow),
      (∀ row, (f row).contentColumns = row.contentColumns) →
      s.db.sourceVersions.map SourceVersionRow.contentColumns <+:
        (s.db.updateVersion tenantId id f).sourceVersions.map SourceVersionRow.contentColumns := by
    intro tenantId id f hf
    have hsame :
        (s.db.updateVersion tenantId id f).sourceVersions.map SourceVersionRow.contentColumns =
          s.db.sourceVersions.map SourceVersionRow.contentColumns :=
      Table.map_key_updateWhere SourceVersionRow.contentColumns fun row _ _ => hf row
    exact hsame.symm ▸ List.prefix_rfl
  cases label with
  | stage tenantId org source =>
      simp only [step] at hs
      split at hs
      · cases hs
        exact List.prefix_rfl
      · rename_i db result hok
        cases hs
        obtain ⟨-, versions, row, hversions, -, -, hqueued⟩ := Database.stageSource_versions hok
        rw [contentColumns_queued hqueued]
        rcases hversions with rfl | ⟨-, rfl⟩
        · exact List.prefix_rfl
        · rw [List.map_append]
          exact List.prefix_append _ _
  | markProcessing tenantId id now =>
      simp only [step] at hs
      split at hs
      · cases hs
        exact List.prefix_rfl
      · rename_i db attempt hok
        cases hs
        unfold Database.markSourceProcessing at hok
        split at hok
        · cases hok
        · cases hok
          refine hupdate tenantId id _ fun row => ?_
          split <;> rfl
  | markSucceeded tenantId id now =>
      cases hs
      exact hupdate tenantId id _ fun _ => rfl
  | markFailed tenantId id failure now =>
      cases hs
      exact hupdate tenantId id _ fun _ => rfl

theorem Addressed.step (h : Addressed digest sha256 s) {label : StageStep}
    (hs : s.step digest sha256 label = some t) : Addressed digest sha256 t := by
  cases label with
  | stage tenantId org source =>
      simp only [StageRun.step] at hs
      split at hs
      · cases hs
        exact h
      · rename_i db result hok
        cases hs
        exact h.stage rfl hok
  | markProcessing tenantId id now =>
      simp only [StageRun.step] at hs
      split at hs
      · cases hs
        exact h
      · rename_i db attempt hok
        cases hs
        unfold Database.markSourceProcessing at hok
        split at hok
        · cases hok
        · cases hok
          refine h.status (Table.map_key_updateWhere SourceVersionRow.contentColumns ?_)
          intro row _ _
          split <;> rfl
  | markSucceeded tenantId id now =>
      cases hs
      exact h.status (Table.map_key_updateWhere SourceVersionRow.contentColumns fun _ _ _ => rfl)
  | markFailed tenantId id failure now =>
      cases hs
      exact h.status (Table.map_key_updateWhere SourceVersionRow.contentColumns fun _ _ _ => rfl)

theorem Reached.addressed (h : Reached digest sha256 s) : Addressed digest sha256 s := by
  refine Transition.Reachable.invariant (I := Addressed digest sha256) ?_ ?_ h
  · rintro s ⟨hsources, hversions, hstaged⟩
    refine ⟨?_, ?_, ?_, ?_⟩ <;> simp [hsources, hversions, hstaged]
  · intro s label t _ hinv hs
    exact hinv.step hs

/-- The row that a call was answered with is about its item. -/
theorem Addressed.holds_origin (h : Addressed digest sha256 s) {v : SourceVersionRow}
    (hv : v ∈ s.db.sourceVersions) :
    ∃ call ∈ s.staged, call.tenantId = v.tenantId ∧ call.versionId = v.id ∧
      s.db.Holds call.tenantId call.source v := by
  obtain ⟨call, hcall, hcolumns, r, hr, hkey⟩ := h.origin v hv
  have hanswer := (h.answers call hcall).1
  simp only [SourceVersionRow.contentColumns, Database.versionRow, ContentColumns.mk.injEq]
    at hcolumns
  obtain ⟨hid, hsource, htenant, -, -, hrawText, hmedia, hpublished, -, hmetadata⟩ := hcolumns
  refine ⟨call, hcall, htenant.symm, hanswer.trans hid.symm, htenant, ?_, r, hr, ?_, hkey⟩
  · rw [SourceVersionRow.serializedContent, hrawText, hmedia, hpublished, hmetadata]
    rfl
  · rw [h.sourceKeys r hr, hkey, hsource]
    rfl

/-- The id of a row is determined by the item that it is about. -/
theorem Addressed.id_of_holds (h : Addressed digest sha256 s) {v : SourceVersionRow}
    (hv : v ∈ s.db.sourceVersions) {tenantId : String} {source : SourceItem}
    (hholds : s.db.Holds tenantId source v) : v.id = versionId digest sha256 tenantId source := by
  obtain ⟨-, hcontent, r, hr, hrv, hkey⟩ := hholds
  obtain ⟨call, -, hcolumns, -⟩ := h.origin v hv
  have hsourceId : v.sourceId = sourceId digest tenantId source := by
    rw [← hrv, h.sourceKeys r hr, hkey]
    rfl
  simp only [SourceVersionRow.contentColumns, Database.versionRow, ContentColumns.mk.injEq]
    at hcolumns
  obtain ⟨hid, hsource, -, -, -, hrawText, hmedia, hpublished, -, hmetadata⟩ := hcolumns
  have hhash : contentHash sha256 call.source = contentHash sha256 source := by
    rw [contentHash_eq, contentHash_eq, ← hcontent, SourceVersionRow.serializedContent, hrawText,
      hmedia, hpublished, hmetadata]
    rfl
  rw [hid, versionId, versionId, hhash, ← hsource, hsourceId]

/-- **Content addressing.**  Take any calls of `stageSource`, of any tenants, between any
changes of status, and a tenant on whose texts the hashes do not collide.  Its calls get
one version id exactly when their items have one address; every item that was staged is
held by exactly one row, and every row of the tenant was staged; and no later step changes
the content of a row. -/
theorem content_addressing (h : Reached digest sha256 s) (tenantId : String)
    (hlength : ∀ text, (digest text).length = 24)
    (hd : CollisionFree digest (s.hashed digest sha256 tenantId))
    (hs : CollisionFree sha256 (s.contents tenantId)) :
    (∀ a ∈ s.staged, ∀ b ∈ s.staged, a.tenantId = tenantId → b.tenantId = tenantId →
      (a.versionId = b.versionId ↔ a.source.address = b.source.address)) ∧
    (s.db.sourceVersions.map SourceVersionRow.id).Nodup ∧
    (∀ a ∈ s.staged, a.tenantId = tenantId →
      ∃! v, v ∈ s.db.sourceVersions ∧ s.db.Holds tenantId a.source v) ∧
    (∀ v ∈ s.db.sourceVersions, v.tenantId = tenantId →
      ∃ a ∈ s.staged, a.tenantId = tenantId ∧ a.versionId = v.id ∧
        s.db.Holds tenantId a.source v) ∧
    ∀ t, Transition.Later (step digest sha256) s t →
      s.db.sourceVersions.map SourceVersionRow.contentColumns <+:
        t.db.sourceVersions.map SourceVersionRow.contentColumns := by
  have hinv := Reached.addressed h
  have hids : ∀ a ∈ s.staged, ∀ b ∈ s.staged, a.tenantId = tenantId → b.tenantId = tenantId →
      (a.versionId = b.versionId ↔ a.source.address = b.source.address) := by
    intro a ha b hb hat hbt
    obtain ⟨haId, ⟨orgA, horgA⟩, -⟩ := hinv.answers a ha
    obtain ⟨hbId, ⟨orgB, horgB⟩, -⟩ := hinv.answers b hb
    have htexts : ∀ call ∈ s.staged, call.tenantId = tenantId →
        sourceText tenantId call.source ∈ s.hashed digest sha256 tenantId ∧
        versionText digest sha256 tenantId call.source ∈ s.hashed digest sha256 tenantId ∧
        call.source.serializedContent ∈ s.contents tenantId := by
      intro call hcall hct
      have hmem : call ∈ s.staged.filter fun call => call.tenantId = tenantId :=
        List.mem_filter.mpr ⟨hcall, decide_eq_true hct⟩
      exact ⟨List.mem_flatMap.mpr ⟨call, hmem, by simp⟩,
        List.mem_flatMap.mpr ⟨call, hmem, by simp⟩, List.mem_map_of_mem hmem⟩
    obtain ⟨haSource, haVersion, haContent⟩ := htexts a ha hat
    obtain ⟨hbSource, hbVersion, hbContent⟩ := htexts b hb hbt
    rw [haId, hbId, hat, hbt]
    refine versionId_eq_iff horgA horgB hlength (hd.of_subset fun text htext => ?_)
      (hs.of_subset fun text htext => ?_)
    · simp only [List.mem_cons, List.not_mem_nil, or_false] at htext
      rcases htext with rfl | rfl | rfl | rfl
      · exact haSource
      · exact haVersion
      · exact hbSource
      · exact hbVersion
    · simp only [List.mem_cons, List.not_mem_nil, or_false] at htext
      rcases htext with rfl | rfl
      · exact haContent
      · exact hbContent
  refine ⟨hids, hinv.versionIds, fun a ha hat => ?_, fun v hv hvt => ?_, fun t ht => ?_⟩
  · obtain ⟨hanswer, -, v, hv, hvt, hvid⟩ := hinv.answers a ha
    obtain ⟨call, hcall, hcallTenant, hcallId, hholds⟩ := hinv.holds_origin hv
    -- the row was made from a call with the same id, hence with the same address
    have haddress := (hids call hcall a ha (hcallTenant.trans (hvt.trans hat)) hat).mp
      (hcallId.trans hvid)
    simp only [SourceItem.address, ContentAddress.mk.injEq] at haddress
    obtain ⟨horg, htype, hidentity, hcontent⟩ := haddress
    have hown : s.db.Holds tenantId a.source v := by
      obtain ⟨htenant, hserialized, r, hr, hrv, hkey⟩ := hholds
      refine ⟨hvt.trans hat, hserialized.trans hcontent, r, hr, hrv, ?_⟩
      rw [hkey, horg, htype, hidentity, hcallTenant, hvt, hat]
    refine ⟨v, ⟨hv, hown⟩, ?_⟩
    rintro w ⟨hw, hwHolds⟩
    refine Table.eq_of_key_eq hinv.versionIds hw hv ?_
    rw [hinv.id_of_holds hw hwHolds, hinv.id_of_holds hv hown]
  · obtain ⟨call, hcall, hcallTenant, hcallId, hholds⟩ := hinv.holds_origin hv
    have htenant := hcallTenant.trans hvt
    rw [htenant] at hholds
    exact ⟨call, hcall, htenant, hcallId, hholds⟩
  · refine ht.keep (P := fun t => s.db.sourceVersions.map SourceVersionRow.contentColumns <+:
      t.db.sourceVersions.map SourceVersionRow.contentColumns) ?_ h List.prefix_rfl
    intro u label w _ hkept hstep
    exact hkept.trans (step_columns hstep)

/-- The hash of the texts below, and zeros elsewhere. -/
def pageSha256 (text : String) : String :=
  if text = "\x7b\"rawText\":\"Applications close on 10 September.\",\"media\":[],\"publishedAt\":null,\"metadata\":\x7b\x7d\x7d" then
    "fedec56e1f9457867de8404cf8f60f8a648f68b4e07efd560bb16230afa3638f"
  else if text = "\x7b\"rawText\":\"Applications close on 12 September.\",\"media\":[],\"publishedAt\":null,\"metadata\":\x7b\x7d\x7d" then
    "71652254ba40debc90507820a06f779a9b09c08d4a429ac69dfc50179190699b"
  else "0000000000000000000000000000000000000000000000000000000000000000"

/-- Its first 24 digits, of the texts that the ids of the pages hash. -/
def pageDigest (text : String) : String :=
  if text = "t1:club:website:https://club.example/apply" then "320902c997c88978fbee8ebf"
  else if text = "src_320902c997c88978fbee8ebf:" ++
      "fedec56e1f9457867de8404cf8f60f8a648f68b4e07efd560bb16230afa3638f" then
    "5ccba9f7e39f9d5820eb6b7c"
  else if text = "src_320902c997c88978fbee8ebf:" ++
      "71652254ba40debc90507820a06f779a9b09c08d4a429ac69dfc50179190699b" then
    "08ef4249c3b02612d6834c19"
  else "000000000000000000000000"

/-- A page, as it is fetched. -/
def page (rawText : String) : SourceItem where
  id := "https://club.example/apply"
  tenantId := some "t1"
  contributorUserId := none
  organizationId := "club"
  sourceType := .website
  externalId := none
  url := some "https://club.example/apply"
  title := none
  rawText := rawText
  media := []
  publishedAt := none
  fetchedAt := "2026-09-01T00:00:00.000Z"
  metadata := none

/-- The page is staged, and staged again after its text has changed. -/
def changedPage : List StageStep :=
  let club : OrganizationId := ⟨"club", by decide, by decide⟩
  [.stage "t1" club (page "Applications close on 10 September."),
    .stage "t1" club (page "Applications close on 12 September.")]

/-- The changed page is another version of the same source. -/
theorem content_addressing_changedPage :
    ∃ s, Transition.exec (step pageDigest pageSha256)
        ⟨{ Database.empty with organizations := [⟨"t1", "club"⟩] }, []⟩ changedPage = some s ∧
      s.staged.length = 2 ∧
      ∀ a ∈ s.staged, ∃! v, v ∈ s.db.sourceVersions ∧ s.db.Holds "t1" a.source v := by
  have hrun : (Transition.exec (step pageDigest pageSha256)
      ⟨{ Database.empty with organizations := [⟨"t1", "club"⟩] }, []⟩ changedPage).any (fun s =>
        s.staged.length = 2 ∧ (s.staged.all fun a => a.tenantId = "t1") ∧
          CollisionFree pageDigest (s.hashed pageDigest pageSha256 "t1") ∧
          CollisionFree pageSha256 (s.contents "t1")) := by
    decide +kernel
  obtain ⟨s, hs, hfacts⟩ := (Option.any_eq_true _ _).mp hrun
  obtain ⟨htwo, htenant, hd, hsha⟩ := of_decide_eq_true hfacts
  have hreach : Reached pageDigest pageSha256 s :=
    Transition.Reachable.of_exec (.start ⟨rfl, rfl, rfl⟩) hs
  have hlength : ∀ text, (pageDigest text).length = 24 := by
    intro text
    unfold pageDigest
    split_ifs <;> decide
  obtain ⟨-, -, hone, -, -⟩ := content_addressing hreach "t1" hlength hd hsha
  exact ⟨s, hs, htwo, fun a ha => hone a ha (of_decide_eq_true (List.all_eq_true.mp htenant a ha))⟩

end StageRun

end RecruitingOs
