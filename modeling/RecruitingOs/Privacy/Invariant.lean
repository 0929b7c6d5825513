import RecruitingOs.Privacy.Run

/-!
# What every run keeps

* `EvidenceInv` — the tables of the evidence and the calls that built them: keys are
  unique, nothing refers to a version or a source that is not there, the type of a
  source is the one that its versions were staged with, and a private version that was
  only staged with contributors has a link.
* `AccountInv` — who the members are, and that sessions, credentials and cursors belong
  to members.

An erasure keeps both because it deletes the versions with `SoleEvidence` and what hangs
on them, and nothing else of anybody else.
-/

namespace RecruitingOs

/-- What identifies a version, and its source. -/
def SourceVersionRow.identity (v : SourceVersionRow) : String × String × String :=
  (v.id, v.sourceId, v.tenantId)

/-- What identifies a source. -/
def SourceRow.identity (row : SourceRow) : String × String × String × SourceType × String :=
  (row.id, row.key)

theorem Database.isMember_iff {db : Database} {tenantId userId : String} :
    db.isMember tenantId userId ↔ ⟨tenantId, userId⟩ ∈ db.memberships := by
  unfold Database.isMember
  simp only [List.any_eq_true, decide_eq_true_eq]
  constructor
  · rintro ⟨⟨_, _⟩, hm, rfl, rfl⟩
    exact hm
  · intro hm
    exact ⟨_, hm, rfl, rfl⟩

theorem exists_version {rows rows' : List SourceVersionRow}
    (h : rows'.map SourceVersionRow.identity = rows.map SourceVersionRow.identity)
    {v : SourceVersionRow} (hv : v ∈ rows') :
    ∃ old ∈ rows, old.id = v.id ∧ old.sourceId = v.sourceId ∧ old.tenantId = v.tenantId := by
  obtain ⟨old, hold, hsame⟩ := Table.exists_of_map_eq h hv
  simp only [SourceVersionRow.identity, Prod.mk.injEq] at hsame
  exact ⟨old, hold, hsame⟩

theorem exists_source {rows rows' : List SourceRow}
    (h : rows'.map SourceRow.identity = rows.map SourceRow.identity)
    {r : SourceRow} (hr : r ∈ rows') :
    ∃ old ∈ rows, old.id = r.id ∧ old.key = r.key ∧ old.tenantId = r.tenantId ∧
      old.sourceType = r.sourceType := by
  obtain ⟨old, hold, hsame⟩ := Table.exists_of_map_eq h hr
  simp only [SourceRow.identity, SourceRow.key, Prod.mk.injEq] at hsame
  obtain ⟨hid, htenant, horg, htype, hkey⟩ := hsame
  refine ⟨old, hold, hid, ?_, htenant, htype⟩
  simp only [SourceRow.key, htenant, horg, htype, hkey]

/-- The call has staged this version. -/
def StageCall.stages (digest sha256 : String → String) (call : StageCall)
    (tenantId id : String) : Prop :=
  call.tenantId = tenantId ∧ versionId digest sha256 call.tenantId call.source = id

namespace PrivacyRun

variable {dialect : Dialect} {digest sha256 : String → String} {s t : PrivacyRun}

/-- The version was only ever staged with contributors. -/
def Contributed (digest sha256 : String → String) (staged : List StageCall)
    (tenantId id : String) : Prop :=
  ∀ call ∈ staged, call.stages digest sha256 tenantId id → call.contributor.isSome

/-- The invariant of the evidence. -/
structure EvidenceInv (digest sha256 : String → String) (db : Database)
    (staged : List StageCall) : Prop where
  versionIds : (db.sourceVersions.map SourceVersionRow.id).Nodup
  sourceIds : (db.sources.map SourceRow.id).Nodup
  keyIds : ∀ r ∈ db.sources, r.id = sourceKeyId digest r.key
  origin : ∀ v ∈ db.sourceVersions, ∃ r ∈ db.sources, r.id = v.sourceId ∧
    r.tenantId = v.tenantId ∧ ∃ call ∈ staged, call.stages digest sha256 v.tenantId v.id ∧
      call.source.sourceType = r.sourceType
  links : ∀ link ∈ db.contributors, db.isMember link.tenantId link.userId ∧
    ∃ v ∈ db.sourceVersions, v.id = link.sourceVersionId ∧ v.tenantId = link.tenantId
  claims : ∀ claim ∈ db.claims, ∃ v ∈ db.sourceVersions, v.id = claim.sourceItemId
  owned : ∀ v ∈ db.sourceVersions, ∀ r ∈ db.sources, r.id = v.sourceId →
    r.sourceType.isPrivate → Contributed digest sha256 staged v.tenantId v.id →
      ∃ link ∈ db.contributors, link.tenantId = v.tenantId ∧ link.sourceVersionId = v.id

variable {db db' : Database} {staged : List StageCall}

/-! ### Steps that leave the evidence alone -/

/-- A statement that keeps the identities of sources and versions, and refers to them in
what it adds, keeps the evidence. -/
theorem EvidenceInv.frame (h : EvidenceInv digest sha256 db staged)
    (hsources : db'.sources.map SourceRow.identity = db.sources.map SourceRow.identity)
    (hversions : db'.sourceVersions.map SourceVersionRow.identity =
      db.sourceVersions.map SourceVersionRow.identity)
    (hlinks : db'.contributors = db.contributors)
    (hclaims : ∀ claim ∈ db'.claims, ∃ v ∈ db.sourceVersions, v.id = claim.sourceItemId)
    (hmembers : ∀ m ∈ db.memberships, m ∈ db'.memberships) :
    EvidenceInv digest sha256 db' staged := by
  have hnew : ∀ v ∈ db.sourceVersions, ∃ new ∈ db'.sourceVersions,
      new.id = v.id ∧ new.sourceId = v.sourceId ∧ new.tenantId = v.tenantId :=
    fun v hv => exists_version hversions.symm hv
  constructor
  case versionIds =>
    have hids := congrArg (List.map Prod.fst) hversions
    rw [List.map_map, List.map_map] at hids
    show (db'.sourceVersions.map (Prod.fst ∘ SourceVersionRow.identity)).Nodup
    rw [hids]
    exact h.versionIds
  case sourceIds =>
    have hids := congrArg (List.map Prod.fst) hsources
    rw [List.map_map, List.map_map] at hids
    show (db'.sources.map (Prod.fst ∘ SourceRow.identity)).Nodup
    rw [hids]
    exact h.sourceIds
  case keyIds =>
    intro r hr
    obtain ⟨old, hold, hid, hkey, -⟩ := exists_source hsources hr
    rw [← hid, ← hkey]
    exact h.keyIds old hold
  case origin =>
    intro v hv
    obtain ⟨old, hold, hid, hsource, htenant⟩ := exists_version hversions hv
    obtain ⟨r, hr, hrId, hrTenant, call, hcall, hstages, htype⟩ := h.origin old hold
    obtain ⟨r', hr', hrId', -, hrTenant', hrType'⟩ := exists_source hsources.symm hr
    rw [← hid, ← hsource, ← htenant]
    exact ⟨r', hr', hrId'.trans hrId, hrTenant'.trans hrTenant, call, hcall, hstages,
      htype.trans hrType'.symm⟩
  case links =>
    intro link hlink
    rw [hlinks] at hlink
    obtain ⟨hmember, v, hv, hid, htenant⟩ := h.links link hlink
    obtain ⟨new, hmem, hnewId, -, hnewTenant⟩ := hnew v hv
    exact ⟨Database.isMember_iff.mpr (hmembers _ (Database.isMember_iff.mp hmember)), new, hmem,
      hnewId.trans hid, hnewTenant.trans htenant⟩
  case claims =>
    intro claim hclaim
    obtain ⟨v, hv, hid⟩ := hclaims claim hclaim
    obtain ⟨new, hmem, hnewId, -⟩ := hnew v hv
    exact ⟨new, hmem, hnewId.trans hid⟩
  case owned =>
    intro v hv r hr hrv hprivate hcontributed
    obtain ⟨old, hold, hid, hsource, htenant⟩ := exists_version hversions hv
    obtain ⟨r', hr', hrId', -, -, hrType'⟩ := exists_source hsources hr
    rw [hlinks, ← hid, ← htenant]
    rw [← hid, ← htenant] at hcontributed
    refine h.owned old hold r' hr' (hrId'.trans (hrv.trans hsource.symm)) ?_ hcontributed
    rw [hrType']
    exact hprivate

/-! ### Staging -/

/-- The source of a call is there under its key. -/
theorem EvidenceInv.upsertSource (h : EvidenceInv digest sha256 db staged) {row : SourceRow}
    (hok : db.upsertSource row = .ok db') (hrow : row.id = sourceKeyId digest row.key) :
    EvidenceInv digest sha256 db' staged ∧ ∃ r ∈ db'.sources, r.key = row.key := by
  obtain ⟨sources, rfl, ⟨⟨old, hold, hkey⟩, rfl⟩ | ⟨-, hnewId, rfl⟩⟩ :=
    Database.upsertSource_ok hok
  · have hsame : (Table.updateWhere (fun old : SourceRow => old.key = row.key)
        (fun old => { old with externalId := row.externalId, url := row.url, title := row.title })
        db.sources).map SourceRow.identity = db.sources.map SourceRow.identity :=
      Table.map_key_updateWhere SourceRow.identity fun _ _ _ => rfl
    refine ⟨h.frame hsame rfl rfl h.claims fun _ hm => hm, ?_⟩
    obtain ⟨new, hnew, -, hnewKey, -⟩ := exists_source hsame.symm hold
    exact ⟨new, hnew, hnewKey.trans hkey⟩
  · refine ⟨{ h with
      sourceIds := Table.nodup_key_append h.sourceIds hnewId, keyIds := ?_, origin := ?_,
      owned := ?_ }, row, by simp, rfl⟩
    · intro r hr
      rcases List.mem_append.mp hr with hold | hlast
      · exact h.keyIds r hold
      · rw [List.mem_singleton.mp hlast]
        exact hrow
    · intro v hv
      obtain ⟨r, hr, hrest⟩ := h.origin v hv
      exact ⟨r, List.mem_append_left _ hr, hrest⟩
    · intro v hv r hr hrv hprivate hcontributed
      rcases List.mem_append.mp hr with hold | hlast
      · exact h.owned v hv r hold hrv hprivate hcontributed
      · -- no version has the new source yet
        obtain ⟨r', hr', hr'v, -⟩ := h.origin v hv
        rw [List.mem_singleton.mp hlast] at hrv
        exact absurd (hr'v.trans hrv.symm) (hnewId r' hr')

/-- A version row of the item is stored, or was there. -/
theorem EvidenceInv.linked (h : EvidenceInv digest sha256 db staged) {source : SourceItem}
    {tenantId : String} {versions : List SourceVersionRow} {links : List ContributorRow}
    {row : SourceVersionRow}
    (hsource : ∃ r ∈ db.sources, r.key = (Database.sourceRow digest tenantId source).key)
    (hversions : versions = db.sourceVersions ∨
      (∀ old ∈ db.sourceVersions, old.id ≠ versionId digest sha256 tenantId source) ∧
        versions = db.sourceVersions ++ [Database.versionRow digest sha256 tenantId source])
    (hrow : row ∈ versions) (hid : row.id = versionId digest sha256 tenantId source)
    (htenant : row.tenantId = tenantId)
    (hlinks : StageCall.contributor ⟨tenantId, source⟩ = none ∧ links = db.contributors ∨
      ∃ user, StageCall.contributor ⟨tenantId, source⟩ = some user ∧ db.isMember tenantId user ∧
        ∀ link, link ∈ links ↔ link ∈ db.contributors ∨
          link = ⟨tenantId, versionId digest sha256 tenantId source, user⟩) :
    EvidenceInv digest sha256 { db with sourceVersions := versions, contributors := links }
      (⟨tenantId, source⟩ :: staged) := by
  have hstays : ∀ v ∈ db.sourceVersions, v ∈ versions := by
    intro v hv
    rcases hversions with rfl | ⟨-, rfl⟩
    · exact hv
    · exact List.mem_append_left _ hv
  have hcases : ∀ v ∈ versions, v ∈ db.sourceVersions ∨
      v = Database.versionRow digest sha256 tenantId source := by
    intro v hv
    rcases hversions with rfl | ⟨-, rfl⟩
    · exact .inl hv
    · exact (List.mem_append.mp hv).imp_right List.mem_singleton.mp
  have hlinkStays : ∀ link ∈ db.contributors, link ∈ links := by
    intro link hlink
    rcases hlinks with ⟨-, rfl⟩ | ⟨user, -, -, hmem⟩
    · exact hlink
    · exact (hmem link).mpr (.inl hlink)
  constructor
  case versionIds =>
    rcases hversions with rfl | ⟨hnew, rfl⟩
    · exact h.versionIds
    · exact Table.nodup_key_append h.versionIds hnew
  case sourceIds => exact h.sourceIds
  case keyIds => exact h.keyIds
  case origin =>
    intro v hv
    rcases hcases v hv with hold | rfl
    · obtain ⟨r, hr, hrv, hrt, call, hcall, hrest⟩ := h.origin v hold
      exact ⟨r, hr, hrv, hrt, call, List.mem_cons_of_mem _ hcall, hrest⟩
    · obtain ⟨r, hr, hkey⟩ := hsource
      refine ⟨r, hr, ?_, congrArg Prod.fst hkey, ⟨tenantId, source⟩, List.mem_cons_self,
        ⟨rfl, rfl⟩, (congrArg (fun key => key.2.2.1) hkey).symm⟩
      rw [h.keyIds r hr, hkey]
      rfl
  case links =>
    intro link hlink
    have hnew : link ∈ db.contributors ∨ db.isMember tenantId link.userId ∧
        link.tenantId = tenantId ∧ link.sourceVersionId = versionId digest sha256 tenantId source := by
      rcases hlinks with ⟨-, rfl⟩ | ⟨user, -, hmember, hmem⟩
      · exact .inl hlink
      · rcases (hmem link).mp hlink with hold | rfl
        · exact .inl hold
        · exact .inr ⟨hmember, rfl, rfl⟩
    rcases hnew with hold | ⟨hmember, hlinkTenant, hlinkVersion⟩
    · obtain ⟨hmember, v, hv, hrest⟩ := h.links link hold
      exact ⟨hmember, v, hstays v hv, hrest⟩
    · refine ⟨?_, row, hrow, hid.trans hlinkVersion.symm, htenant.trans hlinkTenant.symm⟩
      rw [hlinkTenant]
      exact hmember
  case claims =>
    intro claim hclaim
    obtain ⟨v, hv, hrest⟩ := h.claims claim hclaim
    exact ⟨v, hstays v hv, hrest⟩
  case owned =>
    intro v hv r hr hrv hprivate hcontributed
    rcases hcases v hv with hold | rfl
    · obtain ⟨link, hlink, hrest⟩ := h.owned v hold r hr hrv hprivate
        fun call hcall => hcontributed call (List.mem_cons_of_mem _ hcall)
      exact ⟨link, hlinkStays link hlink, hrest⟩
    · -- the call itself has a contributor
      have hsome := hcontributed ⟨tenantId, source⟩ List.mem_cons_self ⟨rfl, rfl⟩
      rcases hlinks with ⟨hnone, -⟩ | ⟨user, -, -, hmem⟩
      · rw [hnone] at hsome
        cases hsome
      · exact ⟨_, (hmem _).mpr (.inr rfl), rfl, rfl⟩

/-- **Staging** keeps the invariant, and remembers the call. -/
theorem EvidenceInv.stageSource (h : EvidenceInv digest sha256 db staged) {source : SourceItem}
    {tenantId : String} {result : StageSourceResult}
    (hok : db.stageSource digest sha256 source tenantId = .ok (db', result)) :
    EvidenceInv digest sha256 db' (⟨tenantId, source⟩ :: staged) := by
  obtain ⟨between, linked, row, hsource, ⟨versions, hversion, hlink⟩, hfind, -, -, rfl⟩ :=
    Database.stageSource_ok hok
  obtain ⟨hbetween, hkeyed⟩ := h.upsertSource hsource rfl
  obtain ⟨versions', heq, hcases⟩ := Database.insertVersion_ok hversion
  obtain rfl : versions = versions' := congrArg Database.sourceVersions heq
  obtain ⟨links, rfl, hlinks⟩ := Database.addContributor?_ok hlink
  have hrow := List.mem_of_find?_eq_some hfind
  have hisVersion : row.tenantId = tenantId ∧ row.id = versionId digest sha256 tenantId source := by
    simpa [Database.isVersion] using List.find?_some hfind
  have hstored := hbetween.linked hkeyed
    (hcases.imp_right fun hnew => ⟨hnew.1, hnew.2.2⟩) hrow hisVersion.2 hisVersion.1 <| by
      rcases hlinks with hnone | ⟨user, hsome, hmember, ⟨hin, rfl⟩ | ⟨-, -, rfl⟩⟩
      · exact .inl hnone
      · refine .inr ⟨user, hsome, hmember, fun link => ⟨.inl, ?_⟩⟩
        rintro (hold | rfl)
        · exact hold
        · exact hin
      · exact .inr ⟨user, hsome, hmember, fun link => by simp⟩
  refine hstored.frame rfl ?_ rfl hstored.claims fun _ hm => hm
  split
  · exact Table.map_key_updateWhere SourceVersionRow.identity fun _ _ _ => rfl
  · rfl

/-! ### Erasing -/

section Erase

variable {tenantId userId operationId : String} {now : ℤ}

/-- A private version that survives has a link of somebody else. -/
theorem EvidenceInv.link_survives (h : EvidenceInv digest sha256 db staged)
    (he : Database.Erased dialect digest db tenantId userId operationId now db')
    {v : SourceVersionRow} (hv : v ∈ db'.sourceVersions) {r : SourceRow} (hr : r ∈ db.sources)
    (hrv : r.id = v.sourceId) (hprivate : r.sourceType.isPrivate)
    (hcontributed : Contributed digest sha256 staged v.tenantId v.id) :
    ∃ link ∈ db'.contributors, link.tenantId = v.tenantId ∧ link.sourceVersionId = v.id := by
  obtain ⟨hold, hsole⟩ := (he.versions.2 v).mp hv
  have hkept : ∀ link ∈ db.contributors, link.tenantId = v.tenantId →
      link.sourceVersionId = v.id → ¬ (link.tenantId = tenantId ∧ link.userId = userId) →
        link ∈ db'.contributors := by
    intro link hlink htenant hversion hother
    refine (he.contributors link).mpr ⟨hlink, hother, fun w hw hwid => ?_⟩
    rw [Table.eq_of_key_eq h.versionIds hw hold (hwid.trans hversion)]
    exact hsole
  obtain ⟨link, hlink, htenant, hversion⟩ := h.owned v hold r hr hrv hprivate hcontributed
  by_cases hmine : link.tenantId = tenantId ∧ link.userId = userId
  · -- the user contributes it, so somebody else does too
    by_contra hnone
    refine hsole ⟨htenant.symm.trans hmine.1, ?_, ?_, fun other hother hotherTenant hotherVersion => ?_⟩
    · obtain ⟨r', hr', hr'v, hr't, -⟩ := h.origin v hold
      obtain rfl : r' = r := Table.eq_of_key_eq h.sourceIds hr' hr (hr'v.trans hrv.symm)
      exact ⟨r', hr, hrv, hr't, hprivate⟩
    · obtain ⟨linkTenant, linkVersion, linkUser⟩ := link
      obtain ⟨rfl, rfl⟩ := hmine
      obtain rfl : linkVersion = v.id := hversion
      exact hlink
    · by_contra hdiff
      refine hnone ⟨other, hkept other hother ?_ hotherVersion fun hboth => hdiff hboth.2, ?_,
        hotherVersion⟩
      · exact hotherTenant.trans (hmine.1.symm.trans htenant)
      · exact hotherTenant.trans (hmine.1.symm.trans htenant)
  · exact ⟨link, hkept link hlink htenant hversion hmine, htenant, hversion⟩

/-- **Erasing** keeps the invariant. -/
theorem EvidenceInv.erase (h : EvidenceInv digest sha256 db staged)
    (he : Database.Erased dialect digest db tenantId userId operationId now db') :
    EvidenceInv digest sha256 db' staged := by
  have hsources : ∀ r ∈ db'.sources, r ∈ db.sources := fun r hr => ((he.sources.2 r).mp hr).1
  constructor
  case versionIds => exact h.versionIds.sublist (he.versions.1.map SourceVersionRow.id)
  case sourceIds => exact h.sourceIds.sublist (he.sources.1.map SourceRow.id)
  case keyIds => exact fun r hr => h.keyIds r (hsources r hr)
  case origin =>
    intro v hv
    obtain ⟨r, hr, hrv, hrest⟩ := h.origin v ((he.versions.2 v).mp hv).1
    exact ⟨r, (he.sources.2 r).mpr ⟨hr, fun _ => ⟨v, hv, hrv.symm⟩⟩, hrv, hrest⟩
  case links =>
    intro link hlink
    obtain ⟨hold, hother, hversions⟩ := (he.contributors link).mp hlink
    obtain ⟨hmember, v, hv, hid, htenant⟩ := h.links link hold
    refine ⟨?_, v, (he.versions.2 v).mpr ⟨hv, hversions v hv hid⟩, hid, htenant⟩
    exact Database.isMember_iff.mpr
      ((he.memberships _).mpr ⟨Database.isMember_iff.mp hmember, hother⟩)
  case claims =>
    intro claim hclaim
    obtain ⟨hold, hversions⟩ := (he.claims claim).mp hclaim
    obtain ⟨v, hv, hid⟩ := h.claims claim hold
    exact ⟨v, (he.versions.2 v).mpr ⟨hv, hversions v hv hid⟩, hid⟩
  case owned =>
    intro v hv r hr hrv hprivate hcontributed
    exact h.link_survives he hv (hsources r hr) hrv hprivate hcontributed

end Erase

/-! ### Accounts -/

/-- The invariant of the accounts. -/
structure AccountInv (digest : String → String) (db : Database) : Prop where
  members : ∀ m ∈ db.memberships, ∃ identity, m.userId = userId digest identity
  sessions : ∀ row ∈ db.sessions, db.isMember row.tenantId row.userId
  credentials : ∀ row ∈ db.credentials, db.isMember row.tenantId row.userId
  cursors : ∀ row ∈ db.connectorState, ∀ owner, row.ownerUserId = some owner →
    db.isMember row.tenantId owner ∧ ∃ group, row.scope = cursorScope owner group

/-- A statement that only adds members keeps the accounts. -/
theorem AccountInv.frame (h : AccountInv digest db)
    (hmembers : ∀ m ∈ db'.memberships, m ∈ db.memberships ∨ ∃ i, m.userId = userId digest i)
    (hkept : ∀ m ∈ db.memberships, m ∈ db'.memberships)
    (hsessions : ∀ row ∈ db'.sessions, row ∈ db.sessions ∨ db.isMember row.tenantId row.userId)
    (hcredentials : ∀ row ∈ db'.credentials, (∃ old ∈ db.credentials, old.key = row.key) ∨
      db.isMember row.tenantId row.userId)
    (hcursors : ∀ row ∈ db'.connectorState, row ∈ db.connectorState ∨
      ∃ owner, row.ownerUserId = some owner ∧ db.isMember row.tenantId owner ∧
        ∃ group, row.scope = cursorScope owner group) : AccountInv digest db' := by
  have hmember : ∀ tenantId userId, db.isMember tenantId userId → db'.isMember tenantId userId :=
    fun tenantId userId hm =>
      Database.isMember_iff.mpr (hkept _ (Database.isMember_iff.mp hm))
  constructor
  case members =>
    intro m hm
    rcases hmembers m hm with hold | hnew
    · exact h.members m hold
    · exact hnew
  case sessions =>
    intro row hrow
    rcases hsessions row hrow with hold | hnew
    · exact hmember _ _ (h.sessions row hold)
    · exact hmember _ _ hnew
  case credentials =>
    intro row hrow
    rcases hcredentials row hrow with ⟨old, hold, hkey⟩ | hnew
    · simp only [CredentialRow.key, Prod.mk.injEq] at hkey
      rw [← hkey.1, ← hkey.2.1]
      exact hmember _ _ (h.credentials old hold)
    · exact hmember _ _ hnew
  case cursors =>
    intro row hrow owner howner
    rcases hcursors row hrow with hold | ⟨owner', howner', hnew, hscope⟩
    · exact (h.cursors row hold owner howner).imp_left (hmember _ _)
    · obtain rfl : owner' = owner := Option.some.inj (howner'.symm.trans howner)
      exact ⟨hmember _ _ hnew, hscope⟩

/-- A statement on other tables keeps the accounts. -/
theorem AccountInv.keep (h : AccountInv digest db) (hmemberships : db'.memberships = db.memberships)
    (hsessions : db'.sessions = db.sessions) (hcredentials : db'.credentials = db.credentials)
    (hcursors : db'.connectorState = db.connectorState) : AccountInv digest db' :=
  h.frame (fun _ hm => .inl (hmemberships ▸ hm)) (fun _ hm => hmemberships ▸ hm)
    (fun _ hrow => .inl (hsessions ▸ hrow))
    (fun row hrow => .inl ⟨row, hcredentials ▸ hrow, rfl⟩) fun _ hrow => .inl (hcursors ▸ hrow)

theorem AccountInv.erase {tenantId userId operationId : String} {now : ℤ}
    (h : AccountInv digest db)
    (he : Database.Erased dialect digest db tenantId userId operationId now db') :
    AccountInv digest db' := by
  have hmember : ∀ t u, db.isMember t u → ¬ (t = tenantId ∧ u = userId) → db'.isMember t u :=
    fun t u hm hother => Database.isMember_iff.mpr
      ((he.memberships _).mpr ⟨Database.isMember_iff.mp hm, hother⟩)
  constructor
  case members => exact fun m hm => h.members m ((he.memberships m).mp hm).1
  case sessions =>
    intro row hrow
    obtain ⟨hold, hother, -⟩ := (he.sessions row).mp hrow
    exact hmember _ _ (h.sessions row hold) hother
  case credentials =>
    intro row hrow
    obtain ⟨hold, hother, -⟩ := (he.credentials row).mp hrow
    exact hmember _ _ (h.credentials row hold) hother
  case cursors =>
    intro row hrow owner howner
    obtain ⟨hold, hother⟩ := (he.connectorState row).mp hrow
    refine (h.cursors row hold owner howner).imp_left fun hm => hmember _ _ hm ?_
    rintro ⟨htenant, rfl⟩
    exact hother ⟨htenant, .inr howner⟩

/-! ### Every step, every run -/

/-- What every step keeps. -/
structure Inv (digest sha256 : String → String) (s : PrivacyRun) : Prop where
  evidence : EvidenceInv digest sha256 s.db s.staged
  accounts : AccountInv digest s.db

theorem Inv.step (h : Inv digest sha256 s) {label : PrivacyStep}
    (hs : s.step dialect digest sha256 label = some t) : Inv digest sha256 t := by
  obtain ⟨heffect, hstaged⟩ := step_effect hs
  obtain ⟨db, staged⟩ := t
  change Effect dialect digest sha256 s.db db label at heffect
  change staged = s.stagedAfter label at hstaged
  subst hstaged
  cases label with
  | signIn identity tenantId =>
      obtain ⟨users, memberships, rfl, hkept, hnew⟩ := heffect
      refine ⟨h.evidence.frame rfl rfl rfl h.evidence.claims hkept,
        h.accounts.frame (fun m hm => (hnew m hm).imp_right ?_) hkept (fun _ => .inl)
          (fun row hrow => .inl ⟨row, hrow, rfl⟩) fun _ => .inl⟩
      rintro rfl
      exact ⟨identity, rfl⟩
  | createSession row =>
      obtain ⟨hmember, sessions, rfl, hnew⟩ := heffect
      refine ⟨h.evidence.frame rfl rfl rfl h.evidence.claims fun _ hm => hm,
        h.accounts.frame (fun _ => .inl) (fun _ hm => hm)
          (fun r hr => (hnew r hr).imp_right ?_) (fun row hrow => .inl ⟨row, hrow, rfl⟩)
          fun _ => .inl⟩
      rintro rfl
      exact hmember
  | upsertOrganization row =>
      obtain ⟨organizations, rfl⟩ := heffect
      exact ⟨h.evidence.frame rfl rfl rfl h.evidence.claims fun _ hm => hm,
        h.accounts.keep rfl rfl rfl rfl⟩
  | stageSource source tenantId =>
      obtain ⟨result, hok⟩ := heffect
      obtain ⟨sources, versions, links, heq⟩ := Database.stageSource_frame hok
      refine ⟨h.evidence.stageSource hok, ?_⟩
      show AccountInv digest db
      rw [heq]
      exact h.accounts.keep rfl rfl rfl rfl
  | markSourceProcessing id tenantId now | markSourceSucceeded id tenantId now
  | markSourceFailed id failure tenantId now =>
      obtain ⟨f, rfl, hf⟩ := heffect
      refine ⟨h.evidence.frame rfl ?_ rfl h.evidence.claims fun _ hm => hm,
        h.accounts.keep rfl rfl rfl rfl⟩
      refine Table.map_key_updateWhere SourceVersionRow.identity fun v _ _ => ?_
      obtain ⟨hid, hsource, htenant⟩ := hf v
      rw [SourceVersionRow.identity, hid, hsource, htenant]
      rfl
  | putClaims claims =>
      obtain ⟨rows, rfl, hrows, hversions⟩ := heffect
      refine ⟨h.evidence.frame rfl rfl rfl (fun claim hclaim => ?_) fun _ hm => hm,
        h.accounts.keep rfl rfl rfl rfl⟩
      have hversion : ∀ {a b : Claim}, a.identity = b.identity →
          a.sourceItemId = b.sourceItemId := fun h => (Claim.identity_eq_iff.mp h).2.2.2.1
      rcases (putClaims_identity hrows).2 claim hclaim with
        ⟨old, hold, hsame⟩ | ⟨new, hnew, hsame⟩
      · obtain ⟨v, hv, hid⟩ := h.evidence.claims old hold
        exact ⟨v, hv, hid.trans (hversion hsame)⟩
      · -- the foreign key has found its version
        obtain ⟨v, hv, hid⟩ := hversions new hnew
        exact ⟨v, hv, hid.trans (hversion hsame)⟩
  | saveCredential row =>
      obtain ⟨hmember, hok⟩ := heffect
      obtain ⟨refresh, rfl, hrefresh⟩ := Database.saveCredential_upsert hok
      refine ⟨h.evidence.frame rfl rfl rfl h.evidence.claims fun _ hm => hm,
        h.accounts.frame (fun _ => .inl) (fun _ hm => hm) (fun _ => .inl) (fun r hr => ?_)
          fun _ => .inl⟩
      rcases Table.mem_upsert.mp hr with ⟨hold, -⟩ | ⟨old, hold, -, rfl⟩ | ⟨-, rfl⟩
      · exact .inl ⟨r, hold, rfl⟩
      · exact .inl ⟨old, hold, (hrefresh old).1.symm⟩
      · exact .inr hmember
  | enqueue input clock =>
      obtain ⟨queue, job, rfl, -⟩ := heffect
      exact ⟨h.evidence.frame rfl rfl rfl h.evidence.claims fun _ hm => hm,
        h.accounts.keep rfl rfl rfl rfl⟩
  | setConnectorState connector tenantId userId group cursor metadata =>
      obtain ⟨howner, rfl⟩ := Database.setConnectorState_ok heffect
      refine ⟨h.evidence.frame rfl rfl rfl h.evidence.claims fun _ hm => hm,
        h.accounts.frame (fun _ => .inl) (fun _ hm => hm) (fun _ => .inl)
          (fun row hrow => .inl ⟨row, hrow, rfl⟩) fun row hrow => ?_⟩
      rcases Table.mem_upsert.mp hrow with ⟨hold, -⟩ | ⟨-, -, -, rfl⟩ | ⟨-, rfl⟩
      · exact .inl hold
      · exact .inr ⟨userId, rfl, howner, group, rfl⟩
      · exact .inr ⟨userId, rfl, howner, group, rfl⟩
  | putOpportunityOverride override =>
      obtain ⟨overrides, rfl⟩ := Database.putOpportunityOverride_ok heffect
      exact ⟨h.evidence.frame rfl rfl rfl h.evidence.claims fun _ hm => hm,
        h.accounts.keep rfl rfl rfl rfl⟩
  | eraseAccount tenantId userId operationId now =>
      obtain ⟨result, hok⟩ := heffect
      cases hmember : s.db.isMember tenantId userId with
      | false =>
          rw [Database.eraseAccount_not_member hmember] at hok
          cases hok
          exact h
      | true =>
          have he := Database.eraseAccount_ok h.evidence.versionIds hmember hok
          exact ⟨h.evidence.erase he, h.accounts.erase he⟩

/-- **Every reachable state has the invariant.** -/
theorem Reached.inv (h : Reached dialect digest sha256 s) : Inv digest sha256 s := by
  refine Transition.Reachable.invariant ?_ (fun _ _ _ _ hinv hs => hinv.step hs) h
  rintro s rfl
  refine ⟨⟨List.nodup_nil, List.nodup_nil, ?_, ?_, ?_, ?_, ?_⟩, ?_, ?_, ?_, ?_⟩
  all_goals
    intro row hrow
    cases hrow

end PrivacyRun

end RecruitingOs
