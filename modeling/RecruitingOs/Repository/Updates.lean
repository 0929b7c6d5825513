import RecruitingOs.Repository.Agreeable

/-!
# Calls that write

From corresponding databases, an agreeable call gives the same answer in both stores, or
both throw the same; and the databases correspond again, unless a statement was refused inside
a transaction, which Postgres then aborts (`update_agrees`).

The proofs follow the programs, by the rules of `Lib/Relational`: each statement commutes with
the image, and keeps a database sound.
-/

namespace RecruitingOs.Repository

open Relational

variable {τ : Type} {options : Options} {server : Server} {s t : Tables String} {p : Tables ℤ}
  {tenantId : String}

/-! ### Statements keep a database sound -/

theorem hasOrganization_iff {tenantId organizationId : String} :
    s.hasOrganization tenantId organizationId ↔
      ∃ o ∈ s.organizations, o.key = (tenantId, organizationId) := by
  simp [Tables.hasOrganization]

theorem Sound.ensureTenant {digest : String → String} (hs : Sound digest s) {id : String}
    (h : Tables.ensureTenant id s = some t) : Sound digest t := by
  cases h
  refine { hs with organization_tenant := fun o ho => ?_ }
  have hold := hs.organization_tenant o ho
  dsimp only
  split
  · exact hold
  · exact List.mem_append_left _ hold

/-- An address that is not given is kept. -/
theorem Sound.upsertOrganization {digest : String → String} (hs : Sound digest s)
    {row : OrganizationRow}
    (hrow : NoEmptyText [row.heelLifeUrl, row.websiteUrl, row.instagramHandle, row.linkedinUrl])
    (h : Tables.upsertOrganization row s = some t) : Sound digest t := by
  unfold Tables.upsertOrganization at h
  dsimp only at h
  split at h
  case isFalse => cases h
  rename_i htenant
  cases h
  refine { hs with
    organization_tenant := fun o ho => ?_
    source_organization := fun source hsource => ?_
    organization_texts := fun o ho => ?_ }
  · rcases Table.mem_upsert.mp ho with ⟨hold, -⟩ | ⟨old, hold, -, rfl⟩ | ⟨-, rfl⟩
    · exact hs.organization_tenant o hold
    · exact hs.organization_tenant old hold
    · exact htenant
  · obtain ⟨o, ho, hkey⟩ := hasOrganization_iff.mp (hs.source_organization source hsource)
    refine hasOrganization_iff.mpr ?_
    by_cases hsame : o.key = row.key
    · exact ⟨_, Table.mem_upsert.mpr (.inr (.inl ⟨o, ho, hsame, rfl⟩)), hkey⟩
    · exact ⟨o, Table.mem_upsert.mpr (.inl ⟨ho, hsame⟩), hkey⟩
  · rcases Table.mem_upsert.mp ho with ⟨hold, -⟩ | ⟨old, hold, -, rfl⟩ | ⟨-, rfl⟩
    · exact hs.organization_texts o hold
    · have htexts := hs.organization_texts old hold
      simp only [noEmptyText_cons, noEmptyText_nil, and_true] at htexts hrow ⊢
      exact ⟨or_ne hrow.1 htexts.1, or_ne hrow.2.1 htexts.2.1, or_ne hrow.2.2.1 htexts.2.2.1,
        or_ne hrow.2.2.2 htexts.2.2.2⟩
    · exact hrow

theorem source_tenant {a b : SourceRow} (h : a.key = b.key) : a.tenantId = b.tenantId :=
  congrArg Prod.fst h

theorem source_organizationId {a b : SourceRow} (h : a.key = b.key) :
    a.organizationId = b.organizationId :=
  congrArg (fun key => key.2.1) h

/-- Sources that are refreshed under their ids and keys. -/
theorem Sound.refreshSources {digest : String → String} (hs : Sound digest s)
    {sources : List SourceRow}
    (hsame : sources.map (fun source => (source.id, source.key)) =
      s.sources.map fun source => (source.id, source.key))
    (htexts : ∀ source ∈ sources, NoEmptyText [source.externalId, source.url, source.title]) :
    Sound digest { s with sources := sources } := by
  have hfrom : ∀ source ∈ sources,
      ∃ old ∈ s.sources, old.id = source.id ∧ old.key = source.key := by
    intro source hsource
    obtain ⟨old, hold, hboth⟩ := Table.exists_of_map_eq hsame hsource
    exact ⟨old, hold, Prod.ext_iff.mp hboth⟩
  refine { hs with
    source_organization := fun source hsource => ?_
    source_id := fun source hsource => ?_
    source_nodup := ?_
    version_source := fun v hv => ?_
    source_texts := htexts }
  · obtain ⟨old, hold, -, hkey⟩ := hfrom source hsource
    have horg := hs.source_organization old hold
    rwa [source_tenant hkey, source_organizationId hkey] at horg
  · obtain ⟨old, hold, hid, hkey⟩ := hfrom source hsource
    rw [← hid, ← hkey]
    exact hs.source_id old hold
  · have hids := congrArg (List.map Prod.fst) hsame
    rw [List.map_map, List.map_map] at hids
    show (sources.map SourceRow.id).Nodup
    rw [show sources.map SourceRow.id = s.sources.map SourceRow.id from hids]
    exact hs.source_nodup
  · obtain ⟨old, hold, hid, htenant⟩ := hs.version_source v hv
    obtain ⟨source, hsource, hboth⟩ := Table.exists_of_map_eq hsame.symm hold
    obtain ⟨hid', hkey⟩ := Prod.ext_iff.mp hboth
    exact ⟨source, hsource, hid'.trans hid, (source_tenant hkey).trans htenant⟩

/-- A source is refreshed under its id, or new under the hash of its key. -/
theorem Sound.upsertSource {digest : String → String} (hs : Sound digest s) {row : SourceRow}
    (hid : row.id = sourceKeyId digest row.key)
    (htexts : NoEmptyText [row.externalId, row.url, row.title])
    (h : Tables.upsertSource row s = some t) :
    Sound digest t ∧ t.versions = s.versions ∧
      ∃ source ∈ t.sources, source.id = row.id ∧ source.key = row.key := by
  unfold Tables.upsertSource at h
  dsimp only at h
  split at h
  · rename_i hany
    cases h
    obtain ⟨old, hold, hkey⟩ := List.any_eq_true.mp hany
    have hkey : old.key = row.key := of_decide_eq_true hkey
    refine ⟨hs.refreshSources (Table.map_key_updateWhere _ fun _ _ _ => rfl) ?_, rfl, _,
      Table.mem_updateWhere.mpr ⟨old, hold, if_pos (decide_eq_true hkey)⟩, ?_, hkey⟩
    · intro source hsource
      obtain ⟨old, hold, rfl⟩ := Table.mem_updateWhere.mp hsource
      split
      · exact htexts
      · exact hs.source_texts old hold
    · show old.id = row.id
      rw [hs.source_id old hold, hkey, hid]
  · split at h
    case isFalse => cases h
    rename_i hnew horg
    obtain ⟨sources, hinsert, rfl⟩ := Option.map_eq_some_iff.mp h
    obtain ⟨hfresh, rfl⟩ := Table.insert_eq_some.mp hinsert
    refine ⟨{ hs with
      source_organization := fun source hsource => ?_
      source_id := fun source hsource => ?_
      source_nodup := Table.nodup_key_append hs.source_nodup hfresh
      version_source := fun v hv => ?_
      source_texts := fun source hsource => ?_ }, rfl, row, by simp, rfl, rfl⟩
    · rcases List.mem_append.mp hsource with hold | hlast
      · exact hs.source_organization source hold
      · rw [List.mem_singleton.mp hlast]
        exact horg
    · rcases List.mem_append.mp hsource with hold | hlast
      · exact hs.source_id source hold
      · rw [List.mem_singleton.mp hlast]
        exact hid
    · obtain ⟨old, hold, hboth⟩ := hs.version_source v hv
      exact ⟨old, List.mem_append_left _ hold, hboth⟩
    · rcases List.mem_append.mp hsource with hold | hlast
      · exact hs.source_texts source hold
      · rw [List.mem_singleton.mp hlast]
        exact htexts

/-- An organization has a tenant. -/
theorem Sound.tenant_of_organization {digest : String → String} (hs : Sound digest s)
    {organizationId : String} (h : s.hasOrganization tenantId organizationId) :
    tenantId ∈ s.tenants := by
  obtain ⟨o, ho, hkey⟩ := hasOrganization_iff.mp h
  have htenant := hs.organization_tenant o ho
  rwa [show o.tenantId = tenantId from congrArg Prod.fst hkey] at htenant

/-- What is accepted is not empty. -/
theorem noEmptyText_of_accepted {texts : List (Option String)} (h : server.AcceptsAll texts) :
    NoEmptyText texts := by
  intro hempty
  have haccepted := h "" hempty
  rw [server.accepts_empty] at haccepted
  cases haccepted

theorem Server.AcceptsAll.mono {texts texts' : List (Option String)}
    (h : server.AcceptsAll texts) (hsub : texts' ⊆ texts) : server.AcceptsAll texts' :=
  fun text htext => h text (hsub htext)

/-- What an update of a version leaves alone. -/
def VersionRow.fixed (row : VersionRow τ) : String × String × String × String × Option τ :=
  (row.id, row.sourceId, row.tenantId, row.contentHash, row.publishedAt)

theorem VersionRow.fixed_eq {a b : VersionRow τ} (h : a.fixed = b.fixed) :
    a.id = b.id ∧ a.sourceId = b.sourceId ∧ a.tenantId = b.tenantId ∧
      a.contentHash = b.contentHash ∧ a.publishedAt = b.publishedAt := by
  simpa only [VersionRow.fixed, Prod.mk.injEq] using h

theorem Sound.updateVersion {digest : String → String} (hs : Sound digest s)
    {g : VersionRow String → VersionRow String} {id : String} (hg : ∀ v, (g v).fixed = v.fixed)
    (h : Tables.updateVersion tenantId id g s = some t) : Sound digest t := by
  cases h
  have hfrom : ∀ v ∈ Table.updateWhere (Tables.isVersion tenantId id) g s.versions,
      ∃ old ∈ s.versions, old.fixed = v.fixed := by
    intro v hv
    exact Table.exists_of_map_eq
      (Table.map_key_updateWhere VersionRow.fixed fun old _ _ => hg old) hv
  refine { hs with
    version_source := fun v hv => ?_, version_id := fun v hv => ?_, version_texts := fun v hv => ?_ }
  all_goals
    obtain ⟨old, hold, hsame⟩ := hfrom v hv
    obtain ⟨hid, hsource, htenant, hhash, hpublished⟩ := VersionRow.fixed_eq hsame
  · rw [← hsource, ← htenant]
    exact hs.version_source old hold
  · rw [← hid, ← hsource, ← hhash]
    exact hs.version_id old hold
  · rw [← hpublished]
    exact hs.version_texts old hold

/-! ### Programs that correspond -/

/-- Both stores return the same, on corresponding databases. -/
def Agreed (options : Options) (server : Server) (a : Answer String) (b : Answer ℤ)
    (s : Tables String) (p : Tables ℤ) : Prop :=
  b = a.map server.instant Json.canonical ∧ Corresponds options server s p

/-- Both stores throw the same; where no statement was refused, on corresponding databases. -/
def Failed (options : Options) (server : Server) (e e' : Failure) (s : Tables String)
    (p : Tables ℤ) : Prop :=
  e' = e ∧ (e = .refused ∨ Corresponds options server s p)

/-- A statement that commutes with the image. -/
theorem related_execute {C D : Tables String → Prop} {f : Tables String → Option (Tables String)}
    {g : Tables ℤ → Option (Tables ℤ)}
    (himage : ∀ s, Sound options.digest s → C s → g (image server s) = (f s).map (image server))
    (hkeep : ∀ s t, Sound options.digest s → C s → f s = some t →
      Sound options.digest t ∧ D t) :
    Related (fun s p => Corresponds options server s p ∧ C s) (execute f) (execute g)
      (fun _ _ s p => Corresponds options server s p ∧ D s) (Failed options server) := by
  refine Related.statement fun s p ⟨hp, hC⟩ => ?_
  have hg := himage s hp.sound hC
  rw [← hp.image] at hg
  cases hf : f s with
  | none =>
      rw [hg, hf]
      exact ⟨rfl, .inl rfl⟩
  | some t =>
      rw [hg, hf]
      obtain ⟨hsound, hD⟩ := hkeep s t hp.sound hC hf
      exact ⟨⟨rfl, hsound⟩, hD⟩

/-- A row of the tenant is permitted. -/
theorem permitted_own {rowTenantId : String} (htenant : tenantId ≠ "")
    (hown : rowTenantId = tenantId) (f : Tables ℤ → Option (Tables ℤ)) (p : Tables ℤ) :
    PostgresStore.permitted tenantId rowTenantId f p = f p := by
  simp [PostgresStore.permitted, PostgresStore.permits, htenant, hown]

theorem permitted_self (htenant : tenantId ≠ "") (f : Tables ℤ → Option (Tables ℤ))
    (p : Tables ℤ) : PostgresStore.permitted tenantId tenantId f p = f p :=
  permitted_own htenant rfl f p

/-- A program that ends without an answer of its own. -/
theorem related_done {C : Tables String → Prop} :
    Related (fun s p => Corresponds options server s p ∧ C s)
      (pure .done : Session String (Answer String)) (pure .done : Session ℤ (Answer ℤ))
      (Agreed options server) (Failed options server) :=
  Related.pure fun _ _ hp => ⟨rfl, hp.1⟩

theorem related_upsertOrganization {organization : Organization} (htenant : tenantId ≠ "")
    (htexts : NoEmptyText [organization.heelLifeUrl, organization.websiteUrl,
      organization.instagramHandle, organization.linkedinUrl]) :
    Related (fun s p => Corresponds options server s p ∧ True)
      (Store.upsertOrganization organization tenantId)
      (PostgresStore.upsertOrganization organization tenantId)
      (Agreed options server) (Failed options server) := by
  have hfirst : Related (fun s p => Corresponds options server s p ∧ True)
      (execute (Tables.ensureTenant tenantId)) (execute (Tables.ensureTenant tenantId))
      (fun _ _ s p => Corresponds options server s p ∧ True) (Failed options server) :=
    related_execute (fun _ _ _ => rfl) fun _ _ hs _ h => ⟨hs.ensureTenant h, trivial⟩
  have hsecond : Related (fun s p => Corresponds options server s p ∧ True)
      (execute (Tables.upsertOrganization (organization.row tenantId)))
      (execute (PostgresStore.permitted tenantId tenantId
        (Tables.upsertOrganization (organization.row tenantId))))
      (fun _ _ s p => Corresponds options server s p ∧ True) (Failed options server) := by
    refine related_execute (fun s _ _ => ?_) fun s t hs _ h =>
      ⟨hs.upsertOrganization htexts h, trivial⟩
    rw [permitted_self htenant]
    exact map_upsertOrganization _
  exact hfirst.bind fun _ _ => hsecond.bind fun _ _ => related_done

/-- An update of a version. -/
theorem related_updateVersion {g : VersionRow String → VersionRow String}
    {g' : VersionRow ℤ → VersionRow ℤ} {id : String} (hg : ∀ v, (g v).fixed = v.fixed)
    (himage : ∀ v, g' (v.map server.micros Json.canonical) =
      (g v).map server.micros Json.canonical) :
    Related (fun s p => Corresponds options server s p ∧ True)
      (execute (Tables.updateVersion tenantId id g))
      (execute (Tables.updateVersion tenantId id g'))
      (fun _ _ s p => Corresponds options server s p ∧ True) (Failed options server) :=
  related_execute (fun _ _ _ => map_updateVersion tenantId id himage) fun _ _ hs _ h =>
    ⟨hs.updateVersion hg h, trivial⟩

/-- The version that a program finds is the image of the one that the other finds. -/
theorem find?_version (s : Tables String) {q : VersionRow String → Bool}
    {q' : VersionRow ℤ → Bool} (hq : ∀ v, q' (v.map server.micros Json.canonical) = q v) :
    (image server s).versions.find? q' =
      (s.versions.find? q).map (VersionRow.map server.micros Json.canonical) := by
  show (s.versions.map _).find? q' = _
  rw [List.find?_map]
  congr 2
  funext v
  exact hq v

theorem related_queueVersion {missing missing' sourceId versionId : String} :
    Related (fun s p => Corresponds options server s p ∧
        ∃ row ∈ s.versions, Tables.isVersion tenantId versionId row)
      (queueVersion missing tenantId sourceId versionId)
      (queueVersion missing' tenantId sourceId versionId)
      (Agreed options server) (Failed options server) := by
  unfold queueVersion
  have hread : Related (fun s p => Corresponds options server s p ∧
        ∃ row ∈ s.versions, Tables.isVersion tenantId versionId row)
      (read fun db : Tables String => db.versions.find? (Tables.isVersion tenantId versionId))
      (read fun db : Tables ℤ => db.versions.find? (Tables.isVersion tenantId versionId))
      (fun a b s p => (Corresponds options server s p ∧ True) ∧ a.isSome ∧
        b = a.map (VersionRow.map server.micros Json.canonical)) (Failed options server) := by
    refine Related.read fun s p ⟨hp, row, hrow, hversion⟩ => ⟨⟨hp, trivial⟩, ?_, ?_⟩
    · exact List.find?_isSome.mpr ⟨row, hrow, hversion⟩
    · rw [hp.image]
      exact find?_version s fun _ => rfl
  refine hread.bind fun a b => Related.assume (fun _ _ h => h.2) fun ⟨hsome, hb⟩ => ?_
  obtain ⟨row, rfl⟩ := Option.isSome_iff_exists.mp hsome
  rw [hb]
  dsimp only [Option.map_some, VersionRow.map]
  refine Related.mono (fun _ _ h => h.1) (fun _ _ _ _ h => h) (fun _ _ _ _ h => h) ?_
  split
  · refine Related.bind (related_updateVersion ?_ ?_) fun _ _ =>
      Related.pure fun _ _ hp => ⟨rfl, hp.1⟩
    · exact fun _ => rfl
    · exact fun _ => rfl
  · exact Related.pure fun _ _ hp => ⟨rfl, hp.1⟩

theorem related_markProcessing {id : String} {now : ℤ} :
    Related (fun s p => Corresponds options server s p ∧
        ∀ v ∈ s.versions, v.id = id → v.attemptCount + 1 < 2 ^ 31)
      (markProcessing (fun _ => true) id tenantId now)
      (markProcessing (· < 2 ^ 31) id tenantId now)
      (Agreed options server) (Failed options server) := by
  unfold markProcessing
  dsimp only
  have hread : Related (fun s p => Corresponds options server s p ∧
        ∀ v ∈ s.versions, v.id = id → v.attemptCount + 1 < 2 ^ 31)
      (read fun db : Tables String => db.versions.find? fun row =>
        Tables.isVersion tenantId id row ∧ Database.processable row.status)
      (read fun db : Tables ℤ => db.versions.find? fun row =>
        Tables.isVersion tenantId id row ∧ Database.processable row.status)
      (fun a b s p => (Corresponds options server s p ∧ True) ∧
        (∀ row, a = some row → row.attemptCount + 1 < 2 ^ 31) ∧
        b = a.map (VersionRow.map server.micros Json.canonical)) (Failed options server) := by
    refine Related.read fun s p ⟨hp, hcount⟩ => ⟨⟨hp, trivial⟩, fun row hfind => ?_, ?_⟩
    · have hready := List.find?_some hfind
      have hready := of_decide_eq_true hready
      exact hcount row (List.mem_of_find?_eq_some hfind) (of_decide_eq_true hready.1).2
    · rw [hp.image]
      exact find?_version s fun _ => rfl
  refine hread.bind fun a b => Related.assume (fun _ _ h => h.2) fun ⟨hcount, hb⟩ => ?_
  rw [hb]
  refine Related.mono (fun _ _ h => h.1) (fun _ _ _ _ h => h) (fun _ _ _ _ h => h) ?_
  cases a with
  | none => exact Related.throw fun _ _ hp => ⟨rfl, .inr hp.1⟩
  | some row =>
      dsimp only [Option.map_some, VersionRow.map]
      simp only [if_true, decide_eq_true (hcount row rfl)]
      refine Related.bind (related_updateVersion (fun v => ?_) fun v => ?_) fun _ _ =>
        Related.pure fun _ _ hp => ⟨rfl, hp.1⟩
      · split <;> rfl
      · dsimp only [VersionRow.map]
        split <;> rfl

theorem related_markSucceeded {id : String} {now : ℤ} :
    Related (fun s p => Corresponds options server s p ∧ True)
      (markSucceeded id tenantId now) (markSucceeded id tenantId now)
      (Agreed options server) (Failed options server) := by
  refine Related.bind (related_updateVersion ?_ ?_) fun _ _ => related_done
  · exact fun _ => rfl
  · exact fun _ => rfl

/-- A timestamp that is accepted, or none. -/
theorem time?_image {text : Option String} (h : ∀ t, text = some t → server.accepts t) :
    (PostgresStore.columns server).time? text = some (text.map server.micros) := by
  cases text with
  | none => rfl
  | some t => simp [Columns.time?, PostgresStore.columns, h t rfl]

theorem time_image {text : String} (h : server.accepts text) :
    (PostgresStore.columns server).time text = some (server.micros text) := by
  simp [PostgresStore.columns, h]

theorem time?_store (text : Option String) : Store.columns.time? text = some text := by
  cases text <;> rfl

theorem related_markFailed {id : String} {failure : ProcessingFailure} {now : ℤ}
    (htime : server.AcceptsAll [failure.nextAttemptAt]) :
    Related (fun s p => Corresponds options server s p ∧ True)
      (markFailed Store.columns id failure tenantId now)
      (markFailed (PostgresStore.columns server) id failure tenantId now)
      (Agreed options server) (Failed options server) := by
  unfold markFailed
  rw [time?_store, time?_image fun t ht => htime t (by simp [ht])]
  simp only [Option.bind_some]
  refine Related.bind (related_updateVersion ?_ ?_) fun _ _ => related_done
  · exact fun _ => rfl
  · exact fun _ => rfl

/-! ### Staging -/

section Staging

variable {source : SourceItem}

/-- No other version has the id of the item's version. -/
def NoCollision (options : Options) (tenantId : String) (source : SourceItem)
    (s : Tables String) : Prop :=
  ∀ v ∈ s.versions, v.id = versionId options.digest options.sha256 tenantId source →
    v.sourceId = sourceId options.digest tenantId source ∧
      v.contentHash = contentHash options.sha256 source

/-- The source of the item is there. -/
def HasSource (options : Options) (tenantId : String) (source : SourceItem)
    (s : Tables String) : Prop :=
  ∃ row ∈ s.sources, row.id = sourceId options.digest tenantId source ∧
    row.key = (Database.sourceRow options.digest tenantId source).key

/-- The version of the item is there. -/
def HasVersion (options : Options) (tenantId : String) (source : SourceItem)
    (s : Tables String) : Prop :=
  ∃ row ∈ s.versions, Tables.isVersion tenantId
    (versionId options.digest options.sha256 tenantId source) row

/-- The version row of the item in SQLite. -/
def storedVersion (options : Options) (tenantId : String) (source : SourceItem) :
    VersionRow String where
  id := versionId options.digest options.sha256 tenantId source
  sourceId := sourceId options.digest tenantId source
  tenantId := tenantId
  organizationId := source.organizationId
  contentHash := contentHash options.sha256 source
  rawText := source.rawText
  media := .arr source.media
  publishedAt := source.publishedAt
  fetchedAt := source.fetchedAt
  metadata := source.metadata.getD (.obj [])
  status := .received
  attemptCount := 0
  nextAttemptAt := none
  lastError := none
  startedAt := none
  completedAt := none

theorem version_store : Store.columns.version options.digest options.sha256 tenantId source =
    some (storedVersion options tenantId source) := by
  unfold Columns.version
  rw [time?_store]
  rfl

theorem version_image
    (htime : server.AcceptsAll [source.publishedAt, some source.fetchedAt]) :
    (PostgresStore.columns server).version options.digest options.sha256 tenantId source =
      some ((storedVersion options tenantId source).map server.micros Json.canonical) := by
  unfold Columns.version
  rw [time?_image fun t ht => htime t (by simp [ht]), time_image (htime _ (by simp))]
  rfl

/-- A version with the source and the content of the item is the version of the item. -/
theorem isVersion_of_content (hs : Sound options.digest s)
    (hsource : HasSource options tenantId source s) {v : VersionRow String} (hv : v ∈ s.versions)
    (hid : v.sourceId = sourceId options.digest tenantId source)
    (hhash : v.contentHash = contentHash options.sha256 source) :
    Tables.isVersion tenantId (versionId options.digest options.sha256 tenantId source) v := by
  obtain ⟨row, hrow, hrowId, hkey⟩ := hsource
  obtain ⟨own, hown, hownId, htenant⟩ := hs.version_source v hv
  have hsame : own = row := Table.eq_of_key_eq hs.source_nodup hown hrow
    (hownId.trans (hid.trans hrowId.symm))
  have htenant' : v.tenantId = tenantId := by
    rw [← htenant, hsame]
    exact source_tenant hkey
  refine decide_eq_true ⟨htenant', ?_⟩
  rw [hs.version_id v hv, hid, hhash]
  rfl

theorem related_upsertSource (htenant : tenantId ≠ "")
    (htexts : NoEmptyText [source.externalId, source.url, source.title]) :
    Related (fun s p => Corresponds options server s p ∧ NoCollision options tenantId source s)
      (execute (Tables.upsertSource (Database.sourceRow options.digest tenantId source)))
      (execute (PostgresStore.permitted tenantId tenantId
        (Tables.upsertSource (Database.sourceRow options.digest tenantId source))))
      (fun _ _ s p => Corresponds options server s p ∧
        (NoCollision options tenantId source s ∧ HasSource options tenantId source s))
      (Failed options server) := by
  refine related_execute (fun s _ _ => ?_) fun s t hs hfree h => ?_
  · rw [permitted_self htenant]
    exact map_upsertSource _
  · obtain ⟨hsound, hversions, hsource⟩ := hs.upsertSource rfl htexts h
    refine ⟨hsound, ?_, hsource⟩
    unfold NoCollision
    rw [hversions]
    exact hfree

/-- Whether SQLite ignores the version or inserts it. -/
theorem insertVersion_cases (hs : Sound options.digest s)
    (hfree : NoCollision options tenantId source s)
    (hsource : HasSource options tenantId source s) :
    (HasVersion options tenantId source s ∧
        Store.insertVersion (storedVersion options tenantId source) s = some s ∧
        ∃ v ∈ s.versions, v.sourceId = sourceId options.digest tenantId source ∧
          v.contentHash = contentHash options.sha256 source) ∨
      ((∀ v ∈ s.versions, v.id ≠ versionId options.digest options.sha256 tenantId source ∧
          ¬ (v.sourceId = sourceId options.digest tenantId source ∧
            v.contentHash = contentHash options.sha256 source)) ∧
        Store.insertVersion (storedVersion options tenantId source) s =
          some { s with versions := s.versions ++ [storedVersion options tenantId source] }) := by
  by_cases hcontent : ∃ v ∈ s.versions, v.sourceId = sourceId options.digest tenantId source ∧
      v.contentHash = contentHash options.sha256 source
  · left
    obtain ⟨v, hv, hid, hhash⟩ := hcontent
    refine ⟨⟨v, hv, isVersion_of_content hs hsource hv hid hhash⟩, ?_, v, hv, hid, hhash⟩
    exact if_pos (List.any_eq_true.mpr ⟨v, hv, decide_eq_true (.inr ⟨hid, hhash⟩)⟩)
  · right
    have hnew : ∀ v ∈ s.versions, v.id ≠ versionId options.digest options.sha256 tenantId source ∧
        ¬ (v.sourceId = sourceId options.digest tenantId source ∧
          v.contentHash = contentHash options.sha256 source) := by
      intro v hv
      have hother := fun hboth => hcontent ⟨v, hv, hboth⟩
      exact ⟨fun hid => hother (hfree v hv hid), hother⟩
    refine ⟨hnew, ?_⟩
    obtain ⟨row, hrow, hrowId, -⟩ := hsource
    unfold Store.insertVersion
    rw [if_neg, if_pos]
    · exact List.any_eq_true.mpr ⟨row, hrow, decide_eq_true hrowId⟩
    · intro hany
      obtain ⟨v, hv, hboth⟩ := List.any_eq_true.mp hany
      rcases of_decide_eq_true hboth with hid | hboth
      · exact (hnew v hv).1 hid
      · exact (hnew v hv).2 hboth

theorem related_insertVersion (htenant : tenantId ≠ "")
    (htime : server.AcceptsAll [source.publishedAt, some source.fetchedAt]) :
    Related (fun s p => Corresponds options server s p ∧
        (NoCollision options tenantId source s ∧ HasSource options tenantId source s))
      (execute fun db => (Store.columns.version options.digest options.sha256 tenantId
        source).bind fun row => Store.insertVersion row db)
      (execute (PostgresStore.permitted tenantId tenantId fun db =>
        ((PostgresStore.columns server).version options.digest options.sha256 tenantId
          source).bind fun row => PostgresStore.insertVersion row db))
      (fun _ _ s p => Corresponds options server s p ∧ HasVersion options tenantId source s)
      (Failed options server) := by
  rw [version_store, version_image htime]
  simp only [Option.bind_some]
  refine related_execute (fun s hs ⟨hfree, hsource⟩ => ?_) fun s t hs ⟨hfree, hsource⟩ h => ?_
  · rw [permitted_self htenant]
    have hany : (image server s).versions.any (fun old =>
        old.sourceId = sourceId options.digest tenantId source ∧
          old.contentHash = contentHash options.sha256 source) =
        s.versions.any fun old => old.sourceId = sourceId options.digest tenantId source ∧
          old.contentHash = contentHash options.sha256 source := List.any_map
    have hinsert : (∀ v ∈ s.versions,
        v.id ≠ versionId options.digest options.sha256 tenantId source ∧
          ¬ (v.sourceId = sourceId options.digest tenantId source ∧
            v.contentHash = contentHash options.sha256 source)) →
        Table.insert VersionRow.id (image server s).versions
          ((storedVersion options tenantId source).map server.micros Json.canonical) =
          some ((s.versions ++ [storedVersion options tenantId source]).map
            (VersionRow.map server.micros Json.canonical)) := by
      intro hnew
      refine Table.insert_eq_some.mpr ⟨fun old hold => ?_, by rw [List.map_append]; rfl⟩
      obtain ⟨v, hv, rfl⟩ := List.mem_map.mp hold
      exact (hnew v hv).1
    unfold PostgresStore.insertVersion
    show (if (image server s).versions.any (fun old =>
        old.sourceId = sourceId options.digest tenantId source ∧
          old.contentHash = contentHash options.sha256 source) then _ else _) = _
    rw [hany]
    rcases insertVersion_cases hs hfree hsource with ⟨-, hstore, v, hv, hboth⟩ | ⟨hnew, hstore⟩
    · rw [hstore, if_pos (List.any_eq_true.mpr ⟨v, hv, decide_eq_true hboth⟩)]
      rfl
    · rw [hstore, if_neg, if_pos, hinsert hnew]
      · rfl
      · obtain ⟨row, hrow, hrowId, hkey⟩ := hsource
        have horg : s.hasOrganization tenantId source.organizationId := by
          have hrowOrg := hs.source_organization row hrow
          rwa [source_tenant hkey, source_organizationId hkey] at hrowOrg
        exact ⟨List.any_eq_true.mpr ⟨row, hrow, decide_eq_true hrowId⟩,
          hs.tenant_of_organization horg, horg⟩
      · intro hthere
        obtain ⟨v, hv, hboth⟩ := List.any_eq_true.mp hthere
        exact (hnew v hv).2 (of_decide_eq_true hboth)
  · rcases insertVersion_cases hs hfree hsource with ⟨hthere, hstore, -⟩ | ⟨hnew, hstore⟩
    · rw [hstore] at h
      cases h
      exact ⟨hs, hthere⟩
    · rw [hstore] at h
      cases h
      obtain ⟨row, hrow, hrowId, hkey⟩ := hsource
      refine ⟨{ hs with
        version_source := fun v hv => ?_
        version_id := fun v hv => ?_
        version_texts := fun v hv => ?_ }, storedVersion options tenantId source, by simp,
        decide_eq_true ⟨rfl, rfl⟩⟩
      · rcases List.mem_append.mp hv with hold | hlast
        · exact hs.version_source v hold
        · rw [List.mem_singleton.mp hlast]
          exact ⟨row, hrow, hrowId, source_tenant hkey⟩
      · rcases List.mem_append.mp hv with hold | hlast
        · exact hs.version_id v hold
        · rw [List.mem_singleton.mp hlast]
          rfl
      · rcases List.mem_append.mp hv with hold | hlast
        · exact hs.version_texts v hold
        · rw [List.mem_singleton.mp hlast]
          exact noEmptyText_of_accepted (htime.mono (by simp [storedVersion]))

/-- The contributor link: in SQLite a link that is there is ignored, in Postgres it is not
inserted again. -/
theorem related_addContributor (htenant : tenantId ≠ "") :
    Related (fun s p => Corresponds options server s p ∧ HasVersion options tenantId source s)
      (Store.addContributor tenantId (versionId options.digest options.sha256 tenantId source)
        source.contributorUserId)
      (PostgresStore.addContributor tenantId
        (versionId options.digest options.sha256 tenantId source) source.contributorUserId)
      (fun _ _ s p => Corresponds options server s p ∧ HasVersion options tenantId source s)
      (Failed options server) := by
  unfold Store.addContributor PostgresStore.addContributor
  cases source.contributorUserId.filter (· ≠ "") with
  | none => exact Related.pure fun _ _ hp => hp
  | some user =>
      intro s p ⟨hp, hversion⟩
      obtain ⟨version, hmem, hid⟩ := hversion
      have hversion : HasVersion options tenantId source s := ⟨version, hmem, hid⟩
      obtain rfl : p = image server s := hp.image
      have hmember : (image server s).isMember tenantId user = s.isMember tenantId user := rfl
      have hlinks : (image server s).contributors = s.contributors := rfl
      simp only [exec_bind, exec_read, hmember, hlinks]
      obtain ⟨link, hlink⟩ : ∃ link : ContributorRow, link =
        ⟨tenantId, versionId options.digest options.sha256 tenantId source, user⟩ := ⟨_, rfl⟩
      rw [← hlink]
      by_cases hmembership : s.isMember tenantId user
      · rw [if_pos hmembership]
        by_cases hlinked : link ∈ s.contributors
        · have hignored : Store.insertContributor link s = some s := if_pos hlinked
          rw [if_neg (by simp [hlinked]), if_neg (by simp [hlinked]), execute, exec_statement,
            hignored]
          exact ⟨hp, hversion⟩
        · have hinsert : Store.insertContributor link s =
              some { s with contributors := s.contributors ++ [link] } := by
            unfold Store.insertContributor
            rw [if_neg hlinked, if_pos]
            rw [hlink]
            exact ⟨List.any_eq_true.mpr ⟨version, hmem,
              decide_eq_true (of_decide_eq_true hid).2⟩, hmembership⟩
          have hinsert' : PostgresStore.insertContributor link (image server s) =
              some { image server s with contributors := s.contributors ++ [link] } := by
            refine if_pos (List.any_eq_true.mpr ⟨_, List.mem_map_of_mem hmem, ?_⟩)
            rw [hlink]
            exact hid
          rw [if_pos ⟨hmembership, by simp [hlinked]⟩, execute, execute, exec_statement,
            exec_statement, hinsert, permitted_self htenant, hinsert']
          refine ⟨⟨rfl, { hp.sound with contributor_member := fun l hl => ?_ }⟩, version, hmem, hid⟩
          rcases List.mem_append.mp hl with hold | hlast
          · exact hp.sound.contributor_member l hold
          · rw [List.mem_singleton.mp hlast, hlink]
            exact hmembership
      · have hlinked : link ∉ s.contributors := by
          intro hmem
          refine hmembership ?_
          have hmember := hp.sound.contributor_member link hmem
          rwa [hlink] at hmember
        rw [if_neg hmembership, if_neg (by simp [hmembership]), if_pos (by simp [hlinked])]
        exact ⟨rfl, .inr hp⟩

/-- The operation of `stageSource`. -/
theorem related_stageSource (htenant : tenantId ≠ "")
    (htime : server.AcceptsAll [source.publishedAt, some source.fetchedAt])
    (htexts : NoEmptyText [source.externalId, source.url, source.title]) :
    Related (fun s p => Corresponds options server s p ∧ NoCollision options tenantId source s)
      (Store.stageSource options source tenantId)
      (PostgresStore.stageSource options server source tenantId)
      (Agreed options server) (Failed options server) :=
  (related_upsertSource htenant htexts).bind fun _ _ =>
    (related_insertVersion htenant htime).bind fun _ _ =>
      (related_addContributor htenant).bind fun _ _ => related_queueVersion

end Staging

/-! ### Claims -/

section Claims

variable {claim : Claim}

/-- The row of a claim in SQLite. -/
def storedClaim (tenantId : String) (claim : Claim) : ClaimRow String where
  id := claim.id
  tenantId := claim.tenantId.getD tenantId
  organizationId := claim.organizationId
  sourceVersionId := claim.sourceItemId
  field := claim.field
  value := claim.value
  confidence := claim.confidence
  publishedAt := claim.publishedAt
  extractedAt := claim.extractedAt
  supersedes := claim.supersedes.getD []
  evidence := claim.evidence
  temporalPrecision := claim.temporalPrecision

theorem putClaim_store : Store.putClaim tenantId claim s =
    s.upsertClaim sqliteSameValue Store.references (storedClaim tenantId claim) := by
  unfold Store.putClaim Columns.claim
  rw [time?_store]
  rfl

theorem putClaim_image (htenant : tenantId ≠ "") (h : claim.Agreeable server tenantId s) :
    PostgresStore.putClaim server tenantId claim p =
      p.upsertClaim (fun a b => a = b) PostgresStore.references
        ((storedClaim tenantId claim).map server.micros Json.canonical) := by
  obtain ⟨hown, -, htime, -⟩ := h
  unfold PostgresStore.putClaim Columns.claim
  rw [time?_image fun t ht => htime t (by simp [ht]), time_image (htime _ (by simp))]
  exact permitted_own htenant hown _ p

/-- **What an upsert of a claim can do**: refresh the rows with its key, or append it. -/
theorem upsertClaim_some {same : Json → Json → Bool}
    {references : Tables τ → ClaimRow τ → Bool} {row : ClaimRow τ} {db out : Tables τ}
    (h : db.upsertClaim same references row = some out) :
    ∃ claims, out = { db with claims := claims } ∧ ∀ new ∈ claims,
      (∃ old ∈ db.claims, new.sourceVersionId = old.sourceVersionId ∧ new.field = old.field ∧
        new.value = old.value ∧ new.publishedAt = old.publishedAt ∧
        (new.evidence = old.evidence ∨ new.evidence = row.evidence)) ∨ new = row := by
  unfold Tables.upsertClaim at h
  dsimp only at h
  split at h
  · cases h
  split at h
  · cases h
    refine ⟨_, rfl, fun new hnew => .inl ?_⟩
    obtain ⟨old, hold, rfl⟩ := Table.mem_updateWhere.mp hnew
    refine ⟨old, hold, ?_⟩
    split
    · exact ⟨rfl, rfl, rfl, rfl, .inr rfl⟩
    · exact ⟨rfl, rfl, rfl, rfl, .inl rfl⟩
  split at h
  · obtain ⟨claims, hinsert, rfl⟩ := Option.map_eq_some_iff.mp h
    obtain ⟨-, rfl⟩ := Table.insert_eq_some.mp hinsert
    refine ⟨_, rfl, fun new hnew => ?_⟩
    rcases List.mem_append.mp hnew with hold | hlast
    · exact .inl ⟨new, hold, rfl, rfl, rfl, rfl, .inl rfl⟩
    · exact .inr (List.mem_singleton.mp hlast)
  · cases h

/-- What the claims of a batch still have to meet. -/
def BatchAgrees (server : Server) (tenantId : String) (claims : List Claim) (s : Tables String) :
    Prop :=
  (∀ claim ∈ claims, claim.Agreeable server tenantId s) ∧ ClaimsAgree claims s

theorem related_putClaim (htenant : tenantId ≠ "") {rest : List Claim} :
    Related (fun s p => Corresponds options server s p ∧
        BatchAgrees server tenantId (claim :: rest) s)
      (execute (Store.putClaim tenantId claim))
      (execute (PostgresStore.putClaim server tenantId claim))
      (fun _ _ s p => Corresponds options server s p ∧ BatchAgrees server tenantId rest s)
      (Failed options server) := by
  refine related_execute (fun s hs ⟨hgood, hvalues⟩ => ?_) fun s t hs ⟨hgood, hvalues⟩ h => ?_
  · have hclaim := hgood claim List.mem_cons_self
    rw [putClaim_store, putClaim_image htenant hclaim]
    refine map_upsertClaim (fun old hold hversion hfield => ?_) ?_
    · exact hvalues.1 claim List.mem_cons_self old hold hversion hfield
    · have horg : s.hasOrganization tenantId claim.organizationId := hclaim.2.1
      have hreferences : PostgresStore.references (image server s)
          ((storedClaim tenantId claim).map server.micros Json.canonical) =
          decide ((s.versions.any fun v => v.id = claim.sourceItemId) ∧
            claim.tenantId.getD tenantId ∈ s.tenants ∧
            s.hasOrganization (claim.tenantId.getD tenantId) claim.organizationId) := by
        unfold PostgresStore.references
        congr 2
        show ((s.versions.map _).any _ = true) = _
        rw [List.any_map]
        rfl
      show PostgresStore.references (image server s) _ = _
      rw [hreferences, hclaim.1, Bool.eq_iff_iff]
      simp only [Store.references, storedClaim, horg, hs.tenant_of_organization horg, and_true,
        decide_eq_true_eq]
      exact Iff.rfl
  · rw [putClaim_store] at h
    obtain ⟨claims, rfl, hfrom⟩ := upsertClaim_some h
    have hclaim := hgood claim List.mem_cons_self
    obtain ⟨-, -, htime, hevidence⟩ := hclaim
    refine ⟨{ hs with claim_texts := fun new hnew => ?_ }, ?_, ?_, ?_⟩
    · rcases hfrom new hnew with ⟨old, hold, -, -, -, hpublished, hsame⟩ | rfl
      · have htexts := hs.claim_texts old hold
        rcases hsame with hsame | hsame
        · rw [hpublished, hsame]
          exact htexts
        · rw [hpublished, hsame]
          exact noEmptyText_cons.mpr ⟨(noEmptyText_cons.mp htexts).1, hevidence⟩
      · have hpublished : NoEmptyText [claim.publishedAt] :=
          noEmptyText_of_accepted (htime.mono (by simp))
        exact noEmptyText_cons.mpr ⟨(noEmptyText_cons.mp hpublished).1, hevidence⟩
    · exact fun c hc => hgood c (List.mem_cons_of_mem _ hc)
    · intro c hc new hnew hversion hfield
      rcases hfrom new hnew with ⟨old, hold, hsameVersion, hsameField, hsame, -⟩ | rfl
      · rw [hsame]
        exact hvalues.1 c (List.mem_cons_of_mem _ hc) old hold (hsameVersion ▸ hversion)
          (hsameField ▸ hfield)
      · exact hvalues.2 c (List.mem_cons_of_mem _ hc) claim List.mem_cons_self hversion hfield
    · exact fun c hc other hother =>
        hvalues.2 c (List.mem_cons_of_mem _ hc) other (List.mem_cons_of_mem _ hother)

theorem related_putClaims {claims : List Claim} (htenant : claims ≠ [] → tenantId ≠ "") :
    Related (fun s p => Corresponds options server s p ∧ BatchAgrees server tenantId claims s)
      (Store.putClaims claims tenantId) (PostgresStore.putClaims server claims tenantId)
      (Agreed options server) (Failed options server) := by
  have hloop : Related
      (fun s p => Corresponds options server s p ∧ BatchAgrees server tenantId claims s)
      (claims.forM fun claim => execute (Store.putClaim tenantId claim))
      (claims.forM fun claim => execute (PostgresStore.putClaim server tenantId claim))
      (fun _ _ s p => Corresponds options server s p ∧ BatchAgrees server tenantId [] s)
      (Failed options server) := by
    cases claims with
    | nil => exact Related.pure fun _ _ hp => hp
    | cons first rest =>
        exact Related.forM
          (I := fun claims s p => Corresponds options server s p ∧
            BatchAgrees server tenantId claims s)
          (fun _ _ => related_putClaim (htenant (List.cons_ne_nil _ _))) _
  exact hloop.bind fun _ _ => related_done

end Claims

/-! ### Opportunities, overrides and cursors -/

section Rest

variable {opportunity : Opportunity}

/-- The row of an opportunity in SQLite. -/
def storedOpportunity (tenantId : String) (opportunity : Opportunity) :
    OpportunityRow String where
  id := opportunity.id
  tenantId := opportunity.tenantId.getD tenantId
  organizationId := opportunity.organizationId
  kind := opportunity.kind
  title := opportunity.title
  deadlineAt := opportunity.deadlineAt
  startsAt := opportunity.startsAt
  url := opportunity.url
  role := opportunity.role
  confidence := opportunity.confidence
  stale := opportunity.stale
  sourceClaimIds := opportunity.sourceClaimIds
  explanation := opportunity.explanation
  resolverVersion := opportunity.resolverVersion.getD "resolver-v1"
  resolvedAt := opportunity.resolvedAt
  deadlinePrecision := opportunity.deadlinePrecision
  startsAtPrecision := opportunity.startsAtPrecision

theorem putOpportunity_store : Store.putOpportunity tenantId opportunity s =
    s.insertOpportunity (storedOpportunity tenantId opportunity) := by
  unfold Store.putOpportunity Columns.opportunity
  rw [time?_store, time?_store]
  rfl

theorem putOpportunity_image (htenant : tenantId ≠ "")
    (h : opportunity.Agreeable server tenantId) :
    PostgresStore.putOpportunity server tenantId opportunity p =
      p.insertOpportunity ((storedOpportunity tenantId opportunity).map server.micros) := by
  obtain ⟨hown, hversion, htime, -⟩ := h
  obtain ⟨version, hversion⟩ := Option.isSome_iff_exists.mp hversion
  unfold PostgresStore.putOpportunity Columns.opportunity storedOpportunity
  rw [time?_image fun t ht => htime t (by simp [ht]), time?_image fun t ht => htime t (by simp [ht]),
    time_image (htime _ (by simp)), hversion]
  exact permitted_own htenant hown _ p

theorem related_putOpportunity (htenant : tenantId ≠ "")
    (h : opportunity.Agreeable server tenantId) :
    Related (fun s p => Corresponds options server s p ∧ True)
      (execute (Store.putOpportunity tenantId opportunity))
      (execute (PostgresStore.putOpportunity server tenantId opportunity))
      (fun _ _ s p => Corresponds options server s p ∧ True) (Failed options server) := by
  refine related_execute (fun s _ _ => ?_) fun s t hs _ hput => ⟨?_, trivial⟩
  · rw [putOpportunity_store, putOpportunity_image htenant h]
    exact map_insertOpportunity _
  · rw [putOpportunity_store] at hput
    unfold Tables.insertOpportunity at hput
    split at hput
    case isFalse => cases hput
    obtain ⟨rows, hinsert, rfl⟩ := Option.map_eq_some_iff.mp hput
    obtain ⟨-, rfl⟩ := Table.insert_eq_some.mp hinsert
    refine { hs with opportunity_texts := fun row hrow => ?_ }
    rcases List.mem_append.mp hrow with hold | hlast
    · exact hs.opportunity_texts row hold
    · obtain ⟨-, -, htime, htexts⟩ := h
      have hdates : NoEmptyText [opportunity.deadlineAt, opportunity.startsAt] :=
        noEmptyText_of_accepted (htime.mono (by simp))
      simp only [noEmptyText_cons, noEmptyText_nil, and_true] at hdates htexts
      rw [List.mem_singleton.mp hlast]
      simp only [storedOpportunity, noEmptyText_cons, noEmptyText_nil, and_true]
      exact ⟨hdates.1, hdates.2, htexts.1, htexts.2⟩

theorem related_replaceOpportunities {organizationId : String} {opportunities : List Opportunity}
    (htenant : opportunities ≠ [] → tenantId ≠ "")
    (h : ∀ opportunity ∈ opportunities, opportunity.Agreeable server tenantId) :
    Related (fun s p => Corresponds options server s p ∧ True)
      (Store.replaceOpportunities organizationId opportunities tenantId)
      (PostgresStore.replaceOpportunities server organizationId opportunities tenantId)
      (Agreed options server) (Failed options server) := by
  have hdelete : Related (fun s p => Corresponds options server s p ∧ True)
      (execute (Tables.deleteOpportunities tenantId organizationId))
      (execute (Tables.deleteOpportunities tenantId organizationId))
      (fun _ _ s p => Corresponds options server s p ∧ True) (Failed options server) := by
    refine related_execute (fun _ _ _ => map_deleteOpportunities _ _) fun s t hs _ hdelete => ?_
    cases hdelete
    exact ⟨{ hs with opportunity_texts := fun row hrow =>
      hs.opportunity_texts row (List.mem_of_mem_filter hrow) }, trivial⟩
  have hloop : ∀ batch : List Opportunity, batch ⊆ opportunities →
      Related (fun s p => Corresponds options server s p ∧ True)
        (batch.forM fun opportunity => execute (Store.putOpportunity tenantId opportunity))
        (batch.forM fun opportunity =>
          execute (PostgresStore.putOpportunity server tenantId opportunity))
        (fun _ _ s p => Corresponds options server s p ∧ True) (Failed options server) := by
    intro batch
    induction batch with
    | nil => exact fun _ => Related.pure fun _ _ hp => hp
    | cons first rest ih =>
        intro hsub
        have hfirst : first ∈ opportunities := hsub List.mem_cons_self
        exact Related.bind
          (related_putOpportunity (htenant (List.ne_nil_of_mem hfirst)) (h first hfirst))
          fun _ _ => ih fun o ho => hsub (List.mem_cons_of_mem _ ho)
  exact hdelete.bind fun _ _ => (hloop _ (List.Subset.refl _)).bind fun _ _ => related_done

/-- The row of an override in SQLite. -/
def storedOverride (tenantId : String) (override : OpportunityOverride) : OverrideRow String where
  id := override.id
  tenantId := tenantId
  opportunityId := override.opportunityId
  organizationId := override.organizationId
  actorId := override.actorId
  patch := override.patch
  reason := override.reason
  createdAt := override.createdAt
  revokedAt := none

/-- An override whose actor is a user. -/
theorem related_putOpportunityOverride {override : OpportunityOverride}
    (hactor : (override.actorId.filter (· ≠ "")).isSome) (htenant : tenantId ≠ "")
    (htime : server.accepts override.createdAt) :
    Related (fun s p => Corresponds options server s p ∧
        ∀ actor, override.actorId = some actor → actor ∈ s.users)
      (Store.putOpportunityOverride override tenantId)
      (PostgresStore.putOpportunityOverride server override tenantId)
      (Agreed options server) (Failed options server) := by
  obtain ⟨actor, hactor⟩ := Option.isSome_iff_exists.mp hactor
  obtain ⟨hgiven, hne⟩ := Option.filter_eq_some_iff.mp hactor
  unfold Store.putOpportunityOverride PostgresStore.putOpportunityOverride
  have hstore : Store.columns.override tenantId override =
      some (storedOverride tenantId override) := rfl
  have himage : (PostgresStore.columns server).override tenantId override =
      some ((storedOverride tenantId override).map server.micros Json.canonical) := by
    unfold Columns.override
    rw [time_image htime]
    rfl
  rw [hstore, himage, if_neg (by rw [hactor]; exact Bool.false_ne_true)]
  simp only [Option.bind_some]
  refine Related.bind (related_execute (D := fun _ => True) (fun s hs huser => ?_)
    fun s t hs _ hput => ⟨?_, trivial⟩) fun _ _ => related_done
  · rw [permitted_self htenant]
    by_cases horg : s.hasOrganization tenantId override.organizationId
    · rw [if_pos]
      · exact map_insertOverride _
      · refine ⟨hs.tenant_of_organization horg, ?_⟩
        show override.actorId.all _ = true
        rw [hgiven]
        exact decide_eq_true (huser actor hgiven)
    · -- both foreign keys are refused
      have hrefused : s.insertOverride (storedOverride tenantId override) = none := if_neg horg
      rw [hrefused]
      split
      · exact if_neg horg
      · rfl
  · unfold Tables.insertOverride at hput
    split at hput
    case isFalse => cases hput
    obtain ⟨rows, hinsert, rfl⟩ := Option.map_eq_some_iff.mp hput
    obtain ⟨-, rfl⟩ := Table.insert_eq_some.mp hinsert
    refine { hs with override_texts := fun row hrow => ?_ }
    rcases List.mem_append.mp hrow with hold | hlast
    · exact hs.override_texts row hold
    · rw [List.mem_singleton.mp hlast]
      refine noEmptyText_cons.mpr ⟨?_, noEmptyText_nil⟩
      show override.actorId ≠ some ""
      rw [hgiven]
      intro hempty
      cases hempty
      exact absurd hne (by decide)

/-- A cursor that is not empty. -/
theorem related_setConnectorState {connector scope : String} {cursor : Option String}
    {metadata : Option Json} {ownerUserId : Option String} (htenant : tenantId ≠ "")
    (hcursor : NoEmptyText [cursor]) :
    Related (fun s p => Corresponds options server s p ∧ True)
      (Store.setConnectorState connector scope cursor metadata tenantId ownerUserId)
      (PostgresStore.setConnectorState server connector scope cursor metadata tenantId ownerUserId)
      (Agreed options server) (Failed options server) := by
  refine Related.bind (related_execute (D := fun _ => True) (fun s _ _ => ?_)
    fun s t hs _ h => ⟨?_, trivial⟩) fun _ _ => related_done
  · rw [permitted_self htenant]
    exact map_upsertConnectorState
      (Store.columns.connectorState connector scope cursor metadata tenantId ownerUserId)
  · unfold Tables.upsertConnectorState at h
    split at h
    case isFalse => cases h
    cases h
    refine { hs with cursor_texts := fun row hrow => ?_ }
    rcases Table.mem_upsert.mp hrow with ⟨hold, -⟩ | ⟨old, hold, -, rfl⟩ | ⟨-, rfl⟩
    · exact hs.cursor_texts row hold
    · exact hcursor
    · exact hcursor

end Rest

/-! ### What a call of SQLite leaves when it fails -/

/-- A program that leaves the tables where it fails. -/
def Keeps {α : Type} (x : Session String α) (s : Tables String) : Prop :=
  ∀ e t, exec x s = (.error e, t) → t = s

theorem keeps_statement {f : Tables String → Option (Tables String)} {a : Answer String} :
    Keeps (do execute f; return a) s := by
  intro e t h
  rw [exec_bind, execute, exec_statement] at h
  revert h
  cases f s with
  | none =>
      intro h
      cases h
      rfl
  | some u =>
      intro h
      cases h

theorem keeps_upsertOrganization {organization : Organization} :
    Keeps (Store.upsertOrganization organization tenantId) s := by
  intro e t h
  obtain ⟨u, hu⟩ : ∃ u, Tables.ensureTenant tenantId s = some u := ⟨_, rfl⟩
  have htenant : tenantId ∈ u.tenants := by
    cases hu
    dsimp only
    split
    · assumption
    · simp
  obtain ⟨v, hv⟩ : ∃ v, Tables.upsertOrganization (organization.row tenantId) u = some v :=
    ⟨_, if_pos htenant⟩
  unfold Store.upsertOrganization at h
  rw [exec_bind, execute, exec_statement, hu] at h
  dsimp only at h
  rw [exec_bind, execute, exec_statement, hv] at h
  cases h

theorem keeps_markProcessing {fits : ℕ → Bool} {id : String} {now : ℤ} :
    Keeps (markProcessing fits id tenantId now) s := by
  intro e t h
  unfold markProcessing at h
  rw [exec_bind, exec_read] at h
  dsimp only at h
  split at h
  · cases h
    rfl
  · exact keeps_statement e t h

theorem keeps_putOpportunityOverride {override : OpportunityOverride} :
    Keeps (Store.putOpportunityOverride override tenantId) s := by
  intro e t h
  unfold Store.putOpportunityOverride at h
  split at h
  · cases h
    rfl
  · exact keeps_statement e t h

theorem keeps_putClaims {claims : List Claim}
    (h : AllOrNothing (Store.putClaim tenantId) claims s) :
    Keeps (Store.putClaims claims tenantId) s := by
  intro e t hexec
  unfold Store.putClaims at hexec
  rw [exec_bind] at hexec
  rcases h with hall | hfirst
  · obtain ⟨u, hu⟩ : ∃ u, exec (claims.forM fun claim => execute (Store.putClaim tenantId claim)) s =
        (.ok (), u) := exec_forM_of_allAdmitted hall
    rw [hu] at hexec
    cases hexec
  · cases claims with
    | nil => cases hexec
    | cons first rest =>
        have hrefused : exec ((first :: rest).forM fun claim =>
            execute (Store.putClaim tenantId claim)) s = (.error .refused, s) :=
          exec_forM_of_refused (hfirst first rfl)
        rw [hrefused] at hexec
        cases hexec
        rfl

theorem keeps_replaceOpportunities {organizationId : String} {opportunities : List Opportunity}
    (h : ∀ t, s.deleteOpportunities tenantId organizationId = some t →
      AllAdmitted (Store.putOpportunity tenantId) opportunities t ∨
        t = s ∧ ∀ first ∈ opportunities.head?, Store.putOpportunity tenantId first t = none) :
    Keeps (Store.replaceOpportunities organizationId opportunities tenantId) s := by
  intro e t hexec
  unfold Store.replaceOpportunities at hexec
  rw [exec_bind, execute, exec_statement] at hexec
  obtain ⟨deleted, hdeleted⟩ : ∃ u, s.deleteOpportunities tenantId organizationId = some u :=
    ⟨_, rfl⟩
  rw [hdeleted] at hexec
  dsimp only at hexec
  rw [exec_bind] at hexec
  rcases h deleted hdeleted with hall | ⟨rfl, hfirst⟩
  · obtain ⟨u, hu⟩ : ∃ u, exec (opportunities.forM fun opportunity =>
        execute (Store.putOpportunity tenantId opportunity)) deleted = (.ok (), u) :=
      exec_forM_of_allAdmitted hall
    rw [hu] at hexec
    cases hexec
  · cases opportunities with
    | nil => cases hexec
    | cons first rest =>
        have hrefused : exec ((first :: rest).forM fun opportunity =>
            execute (Store.putOpportunity tenantId opportunity)) deleted =
              (.error .refused, deleted) :=
          exec_forM_of_refused (hfirst first rfl)
        rw [hrefused] at hexec
        cases hexec
        rfl

/-! ### The call -/

/-- Both stores throw the same; the databases correspond, unless a statement was refused in a
transaction that is open. -/
def FailedIn (options : Options) (server : Server) (inTransaction : Bool) (e e' : Failure)
    (s : Tables String) (p : Tables ℤ) : Prop :=
  e' = e ∧ (inTransaction ∧ e = .refused ∨ Corresponds options server s p)

theorem agrees_of_related {pre : Tables String → Tables ℤ → Prop} {inTransaction : Bool}
    {texts : List String} {x store : Session String (Answer String)} {y : Session ℤ (Answer ℤ)}
    (hp : Corresponds options server s p) (htexts : ∀ text ∈ texts, hasNul text = false)
    (hrelated : Related pre x y (Agreed options server) (Failed options server)) (hpre : pre s p)
    (hstore : exec store s = exec (atomically inTransaction x) s) :
    Outcomes (Agreed options server) (FailedIn options server inTransaction) (exec store s)
      (exec (PostgresStore.withTenant ⟨inTransaction, false⟩ texts y) p) := by
  have hnone : texts.any hasNul = false := by
    simpa using htexts
  have hwith : PostgresStore.withTenant ⟨inTransaction, false⟩ texts y =
      atomically inTransaction y := by
    unfold PostgresStore.withTenant
    rw [if_neg (by simp [hnone])]
  rw [hstore, hwith]
  refine Outcomes.atomically (hrelated s p hpre) (fun hopen e e' t q h => ?_)
    fun _ e e' t q h => ⟨h.1, .inr hp⟩
  exact ⟨h.1, h.2.imp_left fun hrefused => ⟨hopen, hrefused⟩⟩

/-- **An agreeable call that writes.** -/
theorem update_agrees {inTransaction : Bool} {now : ℤ} {call : Update}
    (hp : Corresponds options server s p)
    (hcall : call.Agreeable options server inTransaction s) :
    Outcomes (Agreed options server) (FailedIn options server inTransaction)
      (exec (Store.update options inTransaction now call) s)
      (exec (PostgresStore.update options server ⟨inTransaction, false⟩ now call) p) := by
  unfold PostgresStore.update
  by_cases hactor : PostgresStore.missingActor call
  · rw [if_pos hactor]
    cases call with
    | putOpportunityOverride override _ =>
        have hthrow : exec (Store.putOpportunityOverride override
            ((Update.putOpportunityOverride override ‹_›).tenant options.defaultTenantId)) s =
            (.error (.thrown "Opportunity override actor is required"), s) := by
          have hmissing : (override.actorId.filter (· ≠ "")).isNone := hactor
          unfold Store.putOpportunityOverride
          rw [if_pos hmissing]
          rfl
        show Outcomes _ _ (exec (Store.putOpportunityOverride override _) s) _
        rw [hthrow]
        exact ⟨rfl, .inr hp⟩
    | _ => cases hactor
  rw [if_neg hactor]
  obtain ⟨htexts, hcall⟩ := hcall.resolve_left hactor
  cases call with
  | upsertOrganization organization _ =>
      exact agrees_of_related hp htexts (related_upsertOrganization hcall.1 hcall.2) ⟨hp, trivial⟩
        (exec_atomically_of_kept fun _ => keeps_upsertOrganization).symm
  | stageSource source _ =>
      obtain ⟨htenant, htime, hempty, hfree⟩ := hcall
      exact agrees_of_related hp htexts (related_stageSource htenant htime hempty) ⟨hp, hfree⟩ rfl
  | markSourceProcessing id _ =>
      refine agrees_of_related hp htexts related_markProcessing ⟨hp, hcall⟩ (Eq.symm ?_)
      exact exec_atomically_of_kept fun _ => keeps_markProcessing
  | markSourceSucceeded id _ =>
      exact agrees_of_related hp htexts related_markSucceeded ⟨hp, trivial⟩
        (exec_atomically_of_kept fun _ => keeps_statement).symm
  | markSourceFailed id failure _ =>
      exact agrees_of_related hp htexts (related_markFailed hcall) ⟨hp, trivial⟩
        (exec_atomically_of_kept fun _ => keeps_statement).symm
  | putClaims claims _ =>
      obtain ⟨htenant, hgood, hvalues, hwhole⟩ := hcall
      exact agrees_of_related hp htexts (related_putClaims htenant) ⟨hp, hgood, hvalues⟩
        (exec_atomically_of_kept fun hopen =>
          keeps_putClaims (hwhole.resolve_left (by simp [hopen]))).symm
  | replaceOpportunities organizationId opportunities _ =>
      obtain ⟨htenant, hgood, hwhole⟩ := hcall
      exact agrees_of_related hp htexts (related_replaceOpportunities htenant hgood) ⟨hp, trivial⟩
        (exec_atomically_of_kept fun hopen =>
          keeps_replaceOpportunities (hwhole.resolve_left (by simp [hopen]))).symm
  | putOpportunityOverride override _ =>
      obtain ⟨htenant, htime, huser⟩ := hcall
      have hgiven : (override.actorId.filter (· ≠ "")).isSome :=
        Option.isSome_iff_ne_none.mpr fun hnone => hactor (Option.isNone_iff_eq_none.mpr hnone)
      exact agrees_of_related hp htexts (related_putOpportunityOverride hgiven htenant htime)
        ⟨hp, huser⟩ (exec_atomically_of_kept fun _ => keeps_putOpportunityOverride).symm
  | setConnectorState connector scope cursor metadata _ ownerUserId =>
      exact agrees_of_related hp htexts (related_setConnectorState hcall.1 hcall.2) ⟨hp, trivial⟩
        (exec_atomically_of_kept fun _ => keeps_statement).symm

end RecruitingOs.Repository
