import RecruitingOs.Ingest.Model

/-!
# What a step of an ingest call does

* `Stages` — a call stages its source: the versions after it, and the call that begins
  or returns.
* `Moves` — a call goes on to its next phase, or is gone, and its version changes with it.
* `step_cases` — every step is one of the two.
* `OwnInv` — each call finds its version in the status of its phase, and the owner of a
  version is the only call on it.  Every step keeps it, a crash included.
-/

namespace RecruitingOs

/-- `queued` and `processing`: some call works on the version. -/
def SourceVersionStatus.busy : SourceVersionStatus → Bool
  | .queued | .processing => true
  | _ => false

/-- A version that is being worked on does not have to be processed. -/
theorem SourceVersionStatus.not_stageable {status : SourceVersionStatus} (h : status.busy) :
    Database.stageable status = false := by
  cases status <;> first | rfl | cases h

/-- The status that a call in this phase finds its version in. -/
def IngestPhase.status : IngestPhase → SourceVersionStatus
  | .staged => .queued
  | .processing _ | .failing _ _ => .processing
  | .processed => .succeeded

theorem IngestCall.owner_iff {call : IngestCall} : call.owner ↔ call.phase.status.busy := by
  obtain ⟨-, -, -, -, phase⟩ := call
  cases phase <;> simp [IngestCall.owner, IngestPhase.status, SourceVersionStatus.busy]

theorem IngestCall.owns_iff {call : IngestCall} {tenantId id : String} :
    call.owns tenantId id ↔ call.owner ∧ call.tenantId = tenantId ∧ call.versionId = id := by
  simp [IngestCall.owns]

theorem claimsOf_version {digest : String → String} {tenantId versionId : String}
    {source : SourceItem} {extractedAt : ℕ → ℤ} {extracted : List ExtractedClaim} :
    ∀ claim ∈ claimsOf digest tenantId versionId source extractedAt extracted,
      claim.sourceItemId = versionId := by
  intro claim hclaim
  obtain ⟨pair, -, rfl⟩ := List.mem_map.mp hclaim
  rfl

namespace Database

variable {digest : String → String} {db db' : Database} {tenantId : String}

/-- The claims of a version. -/
def claimsOn (db : Database) (id : String) : List Claim :=
  db.claims.filter fun c => c.sourceItemId = id

/-- The claims transaction stores claims of its version only. -/
theorem claimsTransaction_claimsOn {getTime : Json → Option ℤ} {claims : List Claim}
    {clock : Resolver.Clock} {orgId versionId id : String} {now : ℤ}
    (h : db.claimsTransaction getTime digest claims clock orgId tenantId versionId now = some db')
    (hclaims : ∀ claim ∈ claims, claim.sourceItemId = versionId) (hid : id ≠ versionId) :
    db'.claimsOn id = db.claimsOn id := by
  simp only [claimsTransaction, resolve, Option.bind_eq_some_iff, Option.map_eq_some_iff] at h
  obtain ⟨stored, hstored, resolved, ⟨opportunities, -, rfl⟩, rfl⟩ := h
  exact putClaims_other (fun claim hclaim => hclaims claim hclaim ▸ hid.symm) hstored

/-- The claims transaction succeeds its version and touches no other. -/
theorem claimsTransaction_versions {getTime : Json → Option ℤ} {claims : List Claim}
    {clock : Resolver.Clock} {orgId versionId : String} {now : ℤ}
    (h : db.claimsTransaction getTime digest claims clock orgId tenantId versionId now = some db') :
    db'.sourceVersions = Table.updateWhere (isVersion tenantId versionId)
      (fun row => { row with
        status := .succeeded, completedAt := some now, nextAttemptAt := none, lastError := none })
      db.sourceVersions := by
  simp only [claimsTransaction, resolve, Option.bind_eq_some_iff, Option.map_eq_some_iff] at h
  obtain ⟨stored, -, resolved, ⟨opportunities, -, rfl⟩, rfl⟩ := h
  rfl

end Database

namespace IngestRun

variable {getTime : Json → Option ℤ} {digest sha256 : String → String} {s t : IngestRun}

/-! ### What a step of one call does -/

theorem call?_some {c : ℕ} {call : IngestCall} (h : s.call? c = some call) :
    call ∈ s.calls ∧ call.id = c :=
  ⟨List.mem_of_find?_eq_some h, by simpa using List.find?_some h⟩

/-- How a version fares when a call in a phase goes on to the next: a call is told the attempt
that it has just counted, and the fifth failure is final. -/
inductive Turn (row new : SourceVersionRow) : IngestPhase → Option IngestPhase → Prop
  | process (hstatus : Database.processable row.status) (hnew : new.status = .processing)
      (hcount : new.attemptCount = row.attemptCount + 1) :
      Turn row new .staged (some (.processing (row.attemptCount + 1)))
  | commit (attempt : ℕ) (hnew : new.status = .succeeded)
      (hcount : new.attemptCount = row.attemptCount) :
      Turn row new (.processing attempt) (some .processed)
  | throw (attempt : ℕ) (message : String) (hsame : new = row) :
      Turn row new (.processing attempt) (some (.failing attempt message))
  | fail (attempt : ℕ) (message : String)
      (hnew : new.status = if attempt < 5 then .retryableFailed else .terminalFailed)
      (hcount : new.attemptCount = row.attemptCount) :
      Turn row new (.failing attempt message) none
  | leave (phase : IngestPhase) (hsame : new = row) : Turn row new phase none

/-- The call goes on to `next`, or is gone, and `change` happens to its version. -/
structure Moves (s t : IngestRun) (call : IngestCall) (change : SourceVersionRow → SourceVersionRow)
    (next : Option IngestPhase) : Prop where
  mem : call ∈ s.calls
  versions : t.db.sourceVersions =
    Table.updateWhere (Database.isVersion call.tenantId call.versionId) change s.db.sourceVersions
  calls : ∀ x, x ∈ t.calls ↔ x ∈ s.calls ∧ x.id ≠ call.id ∨
    ∃ phase, next = some phase ∧ x = { call with phase := phase }
  nodup : (s.calls.map IngestCall.id).Nodup → (t.calls.map IngestCall.id).Nodup
  key : ∀ row, (change row).id = row.id ∧ (change row).tenantId = row.tenantId
  /-- The version of another call is not touched. -/
  own : call.owner ∨ ∀ row, change row = row
  /-- The status follows the phase. -/
  status : ∀ phase, next = some phase → ∀ row, row.status = call.phase.status →
    (change row).status = phase.status
  turn : ∀ row ∈ s.db.sourceVersions, Database.isVersion call.tenantId call.versionId row →
    Turn row (change row) call.phase next
  /-- The claims of the other versions, and of all versions where the call owns none. -/
  claims : ∀ id, call.owner = false ∨ id ≠ call.versionId → t.db.claimsOn id = s.db.claimsOn id

theorem mem_setPhase {c : ℕ} {phase : IngestPhase} {call : IngestCall}
    (hn : (s.calls.map IngestCall.id).Nodup) (h : s.call? c = some call) (x : IngestCall) :
    x ∈ (s.setPhase c phase).calls ↔ x ∈ s.calls ∧ x.id ≠ call.id ∨
      ∃ phase', some phase = some phase' ∧ x = { call with phase := phase' } := by
  obtain ⟨hcall, rfl⟩ := call?_some h
  show x ∈ Table.updateWhere _ _ s.calls ↔ _
  rw [Table.mem_updateWhere]
  constructor
  · rintro ⟨old, hold, rfl⟩
    by_cases hid : old.id = call.id
    · obtain rfl := Table.eq_of_key_eq hn hold hcall hid
      simp
    · exact .inl (by simp [hid, hold])
  · rintro (⟨hx, hid⟩ | ⟨phase', hphase, rfl⟩)
    · exact ⟨x, hx, by simp [hid]⟩
    · cases hphase
      exact ⟨call, hcall, by simp⟩

theorem nodup_setPhase {c : ℕ} {phase : IngestPhase} (hn : (s.calls.map IngestCall.id).Nodup) :
    ((s.setPhase c phase).calls.map IngestCall.id).Nodup := by
  have hids : (s.setPhase c phase).calls.map IngestCall.id = s.calls.map IngestCall.id :=
    Table.map_key_updateWhere IngestCall.id fun _ _ _ => rfl
  rw [hids]
  exact hn

theorem mem_drop {c : ℕ} {call : IngestCall} (h : s.call? c = some call) (x : IngestCall) :
    x ∈ (s.drop c).calls ↔ x ∈ s.calls ∧ x.id ≠ call.id ∨
      ∃ phase, none = some phase ∧ x = { call with phase := phase } := by
  obtain ⟨-, rfl⟩ := call?_some h
  simp [drop]

theorem nodup_drop {c : ℕ} (hn : (s.calls.map IngestCall.id).Nodup) :
    ((s.drop c).calls.map IngestCall.id).Nodup :=
  Table.nodup_key_filter hn _

/-! ### The invariant -/

/-- What every step keeps, a crash included. -/
structure OwnInv (s : IngestRun) : Prop where
  nodup_call : (s.calls.map IngestCall.id).Nodup
  nodup_version : (s.db.sourceVersions.map SourceVersionRow.id).Nodup
  /-- Each call finds its version in the status of its phase. -/
  version : ∀ call ∈ s.calls, ∃ row ∈ s.db.sourceVersions,
    Database.isVersion call.tenantId call.versionId row ∧ row.status = call.phase.status
  /-- The owner of a version is the only call on it. -/
  alone : ∀ call ∈ s.calls, call.owner → ∀ x ∈ s.calls,
    x.tenantId = call.tenantId → x.versionId = call.versionId → x = call

/-- The version that a call works on is determined by its id. -/
theorem OwnInv.find_version (h : OwnInv s) {tenantId id : String} {row : SourceVersionRow}
    (hrow : row ∈ s.db.sourceVersions) (hid : Database.isVersion tenantId id row) :
    s.db.sourceVersions.find? (Database.isVersion tenantId id) = some row := by
  have hsome : (s.db.sourceVersions.find? (Database.isVersion tenantId id)).isSome := by
    rw [List.find?_isSome]
    exact ⟨row, hrow, hid⟩
  obtain ⟨found, hfound⟩ := Option.isSome_iff_exists.mp hsome
  have hmem := List.mem_of_find?_eq_some hfound
  have hkey : found.id = row.id := by
    have hfoundId := Database.isVersion_iff.mp (List.find?_some hfound)
    rw [hfoundId.2, (Database.isVersion_iff.mp hid).2]
  rw [hfound, Table.eq_of_key_eq h.nodup_version hmem hrow hkey]

/-- A call that owns its version after it has moved owned it before: no step makes an
owner of a call that was none. -/
theorem OwnInv.owner_before (h : OwnInv s) {call : IngestCall}
    {change : SourceVersionRow → SourceVersionRow} {next : Option IngestPhase}
    (hm : Moves s t call change next) {phase : IngestPhase} (hnext : next = some phase)
    (howner : { call with phase := phase }.owner) : call.owner := by
  rcases hm.own with hcall | hsame
  · exact hcall
  · obtain ⟨row, -, -, hstatus⟩ := h.version call hm.mem
    have hphase := hm.status phase hnext row hstatus
    rw [hsame row, hstatus] at hphase
    rw [IngestCall.owner_iff] at howner ⊢
    rw [hphase]
    exact howner

theorem OwnInv.moves (h : OwnInv s) {call : IngestCall}
    {change : SourceVersionRow → SourceVersionRow} {next : Option IngestPhase}
    (hm : Moves s t call change next) : OwnInv t := by
  refine ⟨hm.nodup h.nodup_call, ?_, ?_, ?_⟩
  · rw [hm.versions, Table.map_key_updateWhere _ fun row _ _ => (hm.key row).1]
    exact h.nodup_version
  · intro x hx
    rw [hm.versions]
    rcases (hm.calls x).mp hx with ⟨hold, hid⟩ | ⟨phase, hnext, rfl⟩
    · obtain ⟨row, hrow, hversion, hstatus⟩ := h.version x hold
      refine ⟨row, Table.mem_updateWhere.mpr ⟨row, hrow, ?_⟩, hversion, hstatus⟩
      split
      · rename_i hcall
        -- another call on the version that moves: then the moving call owns nothing
        rcases hm.own with howner | hsame
        · have hx' := Database.isVersion_iff.mp hversion
          have hc' := Database.isVersion_iff.mp hcall
          have hxcall : x = call := h.alone call hm.mem howner x hold
            (hx'.1.symm.trans hc'.1) (hx'.2.symm.trans hc'.2)
          exact absurd (congrArg IngestCall.id hxcall) hid
        · exact hsame row
      · rfl
    · obtain ⟨row, hrow, hversion, hstatus⟩ := h.version call hm.mem
      refine ⟨change row, Table.mem_updateWhere.mpr ⟨row, hrow, if_pos hversion⟩, ?_, ?_⟩
      · have hkey := hm.key row
        have hrow' := Database.isVersion_iff.mp hversion
        exact Database.isVersion_iff.mpr ⟨hkey.2.trans hrow'.1, hkey.1.trans hrow'.2⟩
      · exact hm.status phase hnext row hstatus
  · intro a ha howner b hb htenant hversion
    rcases (hm.calls a).mp ha with ⟨haold, haid⟩ | ⟨phase, hnext, rfl⟩
    · rcases (hm.calls b).mp hb with ⟨hbold, -⟩ | ⟨phase, hnext, rfl⟩
      · exact h.alone a haold howner b hbold htenant hversion
      · have := h.alone a haold howner call hm.mem htenant hversion
        exact absurd (congrArg IngestCall.id this).symm haid
    · rcases (hm.calls b).mp hb with ⟨hbold, hbid⟩ | ⟨phase', hnext', rfl⟩
      · have hcall := h.owner_before hm hnext howner
        have := h.alone call hm.mem hcall b hbold htenant hversion
        exact absurd (congrArg IngestCall.id this) hbid
      · cases hnext.symm.trans hnext'
        rfl

/-! ### Staging -/

/-- A call stages its source: the versions, and the call that begins or returns. -/
structure Stages (s t : IngestRun) (c : ℕ) (tenantId id : String) (source : SourceItem)
    (versions : List SourceVersionRow) (row : SourceVersionRow) : Prop where
  fresh : s.call? c = none
  inserted : versions = s.db.sourceVersions ∨
    (∀ old ∈ s.db.sourceVersions, old.id ≠ id) ∧
      ∃ new : SourceVersionRow, new.id = id ∧ (new.status = .received ∧ new.attemptCount = 0) ∧
        versions = s.db.sourceVersions ++ [new]
  found : versions.find? (Database.isVersion tenantId id) = some row
  versions : t.db.sourceVersions =
    if Database.stageable row.status then
      Table.updateWhere (Database.isVersion tenantId id)
        (fun old => { old with status := .queued, nextAttemptAt := none }) versions
    else versions
  calls : t.calls =
    if Database.stageable row.status then ⟨c, tenantId, source, id, .staged⟩ :: s.calls
    else s.calls
  returns : t.returns =
    if Database.stageable row.status then s.returns else t.returned tenantId id :: s.returns
  claims : t.db.claims = s.db.claims

section Stages

variable {c : ℕ} {tenantId id : String} {source : SourceItem}
  {versions : List SourceVersionRow} {row : SourceVersionRow}

/-- The versions that are found, before and after `stageSource` queues one. -/
theorem Stages.mem_versions (hst : Stages s t c tenantId id source versions row) {old : SourceVersionRow}
    (hold : old ∈ s.db.sourceVersions) : old ∈ versions := by
  rcases hst.inserted with rfl | ⟨-, new, -, -, rfl⟩
  · exact hold
  · exact List.mem_append_left _ hold

theorem Stages.nodup (hst : Stages s t c tenantId id source versions row)
    (hn : (s.db.sourceVersions.map SourceVersionRow.id).Nodup) :
    (versions.map SourceVersionRow.id).Nodup := by
  refine Database.nodup_insertedVersion hn (hst.inserted.imp_right ?_)
  rintro ⟨hnew, new, rfl, -, hversions⟩
  exact ⟨new, hnew, hversions⟩

/-- A version that is not stageable is left as it is. -/
theorem Stages.kept {old : SourceVersionRow} (hst : Stages s t c tenantId id source versions row)
    (hn : (s.db.sourceVersions.map SourceVersionRow.id).Nodup)
    (hold : old ∈ versions) (hstatus : Database.stageable old.status = false) :
    old ∈ t.db.sourceVersions := by
  rw [hst.versions]
  exact Database.mem_queuedVersions (hst.nodup hn) hst.found hold hstatus

/-- Where a row after `stageSource` comes from. -/
theorem Stages.origin {new : SourceVersionRow} (hst : Stages s t c tenantId id source versions row) (hnew : new ∈ t.db.sourceVersions) :
    new ∈ s.db.sourceVersions ∨ Database.stageable new.status ∨
      Database.stageable row.status ∧ Database.isVersion tenantId id new := by
  have hinserted : ∀ old ∈ versions, old ∈ s.db.sourceVersions ∨ Database.stageable old.status := by
    intro old hold
    rcases hst.inserted with rfl | ⟨-, received, -, hstatus, rfl⟩
    · exact .inl hold
    · rcases List.mem_append.mp hold with hold | hlast
      · exact .inl hold
      · rw [List.mem_singleton.mp hlast, hstatus.1]
        exact .inr rfl
  rw [hst.versions] at hnew
  split at hnew
  · rename_i hstageable
    obtain ⟨old, hold, rfl⟩ := Table.mem_updateWhere.mp hnew
    split
    · rename_i hid
      exact .inr (.inr ⟨hstageable, hid⟩)
    · rcases hinserted old hold with hsame | hstatus
      · exact .inl hsame
      · exact .inr (.inl hstatus)
  · rcases hinserted new hnew with hsame | hstatus
    · exact .inl hsame
    · exact .inr (.inl hstatus)

theorem OwnInv.stages (h : OwnInv s) (hst : Stages s t c tenantId id source versions row) : OwnInv t := by
  have hfresh : ∀ call ∈ s.calls, call.id ≠ c := by
    have := List.find?_eq_none.mp hst.fresh
    simpa using this
  have hphase : ∀ phase : IngestPhase, Database.stageable phase.status = false := by
    intro phase
    cases phase <;> rfl
  have hold : ∀ call ∈ s.calls, ∃ row ∈ t.db.sourceVersions,
      Database.isVersion call.tenantId call.versionId row ∧ row.status = call.phase.status := by
    intro call hcall
    obtain ⟨old, hmem, hversion, hstatus⟩ := h.version call hcall
    have hkept : Database.stageable old.status = false := by
      rw [hstatus]
      exact hphase call.phase
    exact ⟨old, hst.kept h.nodup_version (hst.mem_versions hmem) hkept, hversion, hstatus⟩
  have hnodup : (t.db.sourceVersions.map SourceVersionRow.id).Nodup := by
    rw [hst.versions]
    split
    · rw [Table.map_key_updateWhere (f := fun old => { old with
        status := .queued, nextAttemptAt := none }) SourceVersionRow.id fun _ _ _ => rfl]
      exact hst.nodup h.nodup_version
    · exact hst.nodup h.nodup_version
  by_cases hstageable : Database.stageable row.status
  · have hcalls : t.calls = ⟨c, tenantId, source, id, .staged⟩ :: s.calls := by
      rw [hst.calls, if_pos hstageable]
    -- no call is on a version that has to be processed
    have hother : ∀ x ∈ s.calls, ¬ (x.tenantId = tenantId ∧ x.versionId = id) := by
      rintro x hx ⟨htenant, hid⟩
      obtain ⟨old, hmem, hversion, hstatus⟩ := h.version x hx
      have hrow := Database.isVersion_iff.mp (List.find?_some hst.found)
      have hxid := Database.isVersion_iff.mp hversion
      have hsame : old = row := Table.eq_of_key_eq (hst.nodup h.nodup_version)
        (hst.mem_versions hmem) (List.mem_of_find?_eq_some hst.found)
        (hxid.2.trans (hid.trans hrow.2.symm))
      rw [← hsame, hstatus, hphase x.phase] at hstageable
      cases hstageable
    refine ⟨?_, hnodup, ?_, ?_⟩
    · rw [hcalls, List.map_cons, List.nodup_cons]
      refine ⟨?_, h.nodup_call⟩
      rw [List.mem_map]
      rintro ⟨call, hcall, hid⟩
      exact hfresh call hcall hid
    · intro call hcall
      rw [hcalls] at hcall
      rcases List.mem_cons.mp hcall with rfl | hcall
      · have hrow := List.find?_some hst.found
        refine ⟨{ row with status := .queued, nextAttemptAt := none }, ?_, hrow, rfl⟩
        rw [hst.versions, if_pos hstageable]
        exact Table.mem_updateWhere.mpr
          ⟨row, List.mem_of_find?_eq_some hst.found, if_pos hrow⟩
      · exact hold call hcall
    · intro a ha howner b hb htenant hversion
      rw [hcalls] at ha hb
      rcases List.mem_cons.mp ha with rfl | ha
      · rcases List.mem_cons.mp hb with rfl | hb
        · rfl
        · exact absurd ⟨htenant, hversion⟩ (hother b hb)
      · rcases List.mem_cons.mp hb with rfl | hb
        · exact absurd ⟨htenant.symm, hversion.symm⟩ (hother a ha)
        · exact h.alone a ha howner b hb htenant hversion
  · have hcalls : t.calls = s.calls := by
      rw [hst.calls, if_neg hstageable]
    refine ⟨?_, hnodup, ?_, ?_⟩
    · rw [hcalls]
      exact h.nodup_call
    · rw [hcalls]
      exact hold
    · rw [hcalls]
      exact h.alone

end Stages

/-! ### All steps -/

/-- A call that `stageSource` refuses has done nothing. -/
theorem stages_of_stage {c : ℕ} {source : SourceItem} {tenantId : String}
    (hs : s.step getTime digest sha256 (.stage c source tenantId) = some t) :
    t = s ∨ ∃ versions row,
      Stages s t c tenantId (versionId digest sha256 tenantId source) source versions row := by
  simp only [step] at hs
  split at hs
  · cases hs
  · rename_i hfresh
    split at hs
    · cases hs
      exact .inl rfl
    · rename_i db result hstage
      obtain ⟨hid, versions, row, hinserted, hfound, hprocess, hdb⟩ :=
        Database.stageSource_versions hstage
      rw [hid] at hinserted hfound hdb
      have hinserted' : versions = s.db.sourceVersions ∨
          (∀ old ∈ s.db.sourceVersions, old.id ≠ versionId digest sha256 tenantId source) ∧
            ∃ new : SourceVersionRow, new.id = versionId digest sha256 tenantId source ∧
              (new.status = .received ∧ new.attemptCount = 0) ∧
              versions = s.db.sourceVersions ++ [new] :=
        hinserted.imp_right fun ⟨hnew, happend⟩ => ⟨hnew, _, rfl, ⟨rfl, rfl⟩, happend⟩
      have hnone : s.call? c = none := by simpa using hfresh
      have hclaims : db.claims = s.db.claims := by
        obtain ⟨_, _, _, rfl⟩ := Database.stageSource_frame hstage
        rfl
      refine .inr ⟨versions, row, ?_⟩
      by_cases hstageable : Database.stageable row.status
      · rw [if_pos (hprocess.trans hstageable)] at hs
        cases hs
        exact ⟨hnone, hinserted', hfound, hdb, by rw [if_pos hstageable, hid],
          by rw [if_pos hstageable], hclaims⟩
      · rw [if_neg (fun hp => hstageable (hprocess.symm.trans hp))] at hs
        cases hs
        exact ⟨hnone, hinserted', hfound, hdb, by rw [if_neg hstageable],
          by rw [if_neg hstageable, hid]; rfl, hclaims⟩

/-- A call that owns its version finds it. -/
theorem moves_of_process (h : OwnInv s) {c : ℕ} {now : ℤ}
    (hs : s.step getTime digest sha256 (.process c now) = some t) :
    ∃ call change next, Moves s t call change (some next) ∧ t.returns = s.returns := by
  simp only [step] at hs
  split at hs
  · rename_i tenantId source id hcall
    obtain ⟨hmem, -⟩ := call?_some hcall
    obtain ⟨row, hrow, hversion, hstatus⟩ := h.version _ hmem
    have hfind : s.db.sourceVersions.find? (fun row =>
        Database.isVersion tenantId id row ∧ Database.processable row.status) ≠ none := by
      rw [Ne, List.find?_eq_none]
      intro hnone
      exact hnone row hrow (decide_eq_true ⟨hversion, by rw [hstatus]; rfl⟩)
    split at hs
    · rename_i herror
      unfold Database.markSourceProcessing at herror
      split at herror
      · rename_i hnone
        exact absurd hnone hfind
      · cases herror
    · rename_i db attempt hok
      unfold Database.markSourceProcessing at hok
      split at hok
      · cases hok
      · rename_i found hfound
        cases hok
        cases hs
        refine ⟨_, _, .processing _, ⟨hmem, rfl, mem_setPhase h.nodup_call hcall, nodup_setPhase,
          ?_, .inl rfl, ?_, ?_, fun _ _ => rfl⟩, rfl⟩
        · intro row
          constructor <;> (split <;> rfl)
        · rintro phase hphase row hrow
          cases hphase
          rw [if_pos (by rw [hrow]; rfl)]
          rfl
        · intro old hold holdVersion
          -- the row that is counted is the one that was found
          have hfoundKey : Database.isVersion tenantId id found ∧
              Database.processable found.status := by
            simpa using List.find?_some hfound
          have hsame : old = found := Table.eq_of_key_eq h.nodup_version hold
            (List.mem_of_find?_eq_some hfound)
            ((Database.isVersion_iff.mp holdVersion).2.trans
              (Database.isVersion_iff.mp hfoundKey.1).2.symm)
          subst hsame
          dsimp only
          rw [if_pos hfoundKey.2]
          exact .process hfoundKey.2 rfl rfl
  · cases hs

/-- **What a step can do.**  A call stages its source, or goes on, or is gone; only a
crash takes away an owner and leaves its version as it is. -/
theorem step_cases (h : OwnInv s) {label : IngestStep}
    (hs : s.step getTime digest sha256 label = some t) :
    t = s ∨
    (∃ c source tenantId versions row, label = .stage c source tenantId ∧
      Stages s t c tenantId (versionId digest sha256 tenantId source) source versions row) ∨
    ∃ call change next, Moves s t call change next ∧
      (t.returns = s.returns ∨
        ∃ r : IngestReturn, r.status = some .succeeded ∧ t.returns = r :: s.returns) ∧
      (next = none → (∀ row, (change row).status.busy = false) ∨ call.owner = false ∨
        label = .crash call.id) := by
  cases label with
  | stage c source tenantId =>
      rcases stages_of_stage hs with hsame | ⟨versions, row, hstages⟩
      · exact .inl hsame
      · exact .inr (.inl ⟨c, source, tenantId, versions, row, rfl, hstages⟩)
  | process c now =>
      obtain ⟨call, change, next, hmoves, hreturns⟩ := moves_of_process h hs
      exact .inr (.inr ⟨call, change, some next, hmoves, .inl hreturns, fun hnone => nomatch hnone⟩)
  | commit c extracted extractedAt clock now =>
      simp only [step] at hs
      split at hs
      · rename_i tenantId source id attempt hcall
        obtain ⟨hmem, -⟩ := call?_some hcall
        obtain ⟨db, hdb, rfl⟩ := Option.map_eq_some_iff.mp hs
        refine .inr (.inr ⟨_, _, some .processed, ⟨hmem, Database.claimsTransaction_versions hdb,
          mem_setPhase h.nodup_call hcall, nodup_setPhase, fun _ => ⟨rfl, rfl⟩, .inl rfl, ?_,
          fun _ _ _ => .commit attempt rfl rfl, ?_⟩, .inl rfl, ?_⟩)
        · intro phase hphase row hrow
          cases hphase
          rfl
        · rintro other (habsurd | hother)
          · cases habsurd
          · exact Database.claimsTransaction_claimsOn hdb claimsOf_version hother
        · intro hnext
          cases hnext
      · cases hs
  | throw c message =>
      simp only [step] at hs
      split at hs
      · rename_i tenantId source id attempt hcall
        cases hs
        obtain ⟨hmem, -⟩ := call?_some hcall
        refine .inr (.inr ⟨_, fun row => row, some (.failing attempt message),
          ⟨hmem, (Table.updateWhere_self _ _).symm, mem_setPhase h.nodup_call hcall, nodup_setPhase,
            fun _ => ⟨rfl, rfl⟩, .inl rfl, ?_, fun _ _ _ => .throw attempt message rfl,
            fun _ _ => rfl⟩, .inl rfl, ?_⟩)
        · intro phase hphase row hrow
          cases hphase
          exact hrow
        · intro hnext
          cases hnext
      · cases hs
  | markFailed c now =>
      simp only [step] at hs
      split at hs
      · rename_i tenantId source id attempt message hcall
        cases hs
        obtain ⟨hmem, -⟩ := call?_some hcall
        refine .inr (.inr ⟨_, _, none, ⟨hmem, rfl, mem_drop hcall, nodup_drop,
          fun _ => ⟨rfl, rfl⟩, .inl rfl, ?_, fun _ _ _ => .fail attempt message ?_ rfl,
          fun _ _ => rfl⟩, .inl rfl, ?_⟩)
        · intro phase hphase
          cases hphase
        · simp [IngestCall.failure]
        · intro _
          refine .inl fun row => ?_
          dsimp only
          split <;> rfl
      · cases hs
  | finish c =>
      simp only [step] at hs
      split at hs
      · rename_i tenantId source id hcall
        cases hs
        obtain ⟨hmem, -⟩ := call?_some hcall
        obtain ⟨row, hrow, hversion, hstatus⟩ := h.version _ hmem
        refine .inr (.inr ⟨_, fun row => row, none, ⟨hmem, (Table.updateWhere_self _ _).symm,
          mem_drop hcall, nodup_drop, fun _ => ⟨rfl, rfl⟩, .inr fun _ => rfl, ?_,
          fun _ _ _ => .leave _ rfl, fun _ _ => rfl⟩, .inr ⟨_, ?_, rfl⟩, fun _ => .inr (.inl rfl)⟩)
        · intro phase hphase
          cases hphase
        · have hfind := h.find_version hrow hversion
          show (s.db.sourceVersions.find? _).map SourceVersionRow.status = _
          rw [hfind]
          exact congrArg some hstatus
      · cases hs
  | crash c =>
      simp only [step] at hs
      split at hs
      · rename_i hsome
        cases hs
        obtain ⟨call, hcall⟩ := Option.isSome_iff_exists.mp hsome
        obtain ⟨hmem, rfl⟩ := call?_some hcall
        refine .inr (.inr ⟨call, fun row => row, none, ⟨hmem, (Table.updateWhere_self _ _).symm,
          mem_drop hcall, nodup_drop, fun _ => ⟨rfl, rfl⟩, .inr fun _ => rfl, ?_,
          fun _ _ _ => .leave _ rfl, fun _ _ => rfl⟩, .inl rfl, fun _ => .inr (.inr rfl)⟩)
        intro phase hphase
        cases hphase
      · cases hs

/-- No step deletes a version. -/
theorem step_keeps_version (h : OwnInv s) {label : IngestStep}
    (hs : s.step getTime digest sha256 label = some t) {tenantId id : String}
    (hrow : ∃ row ∈ s.db.sourceVersions, Database.isVersion tenantId id row) :
    ∃ row ∈ t.db.sourceVersions, Database.isVersion tenantId id row := by
  obtain ⟨row, hrow, hid⟩ := hrow
  rcases step_cases h hs with
    rfl | ⟨_, _, _, _, _, -, hstage⟩ | ⟨call, change, _, hmoves, -, -⟩
  · exact ⟨row, hrow, hid⟩
  · have hmem := hstage.mem_versions hrow
    rw [hstage.versions]
    split
    · exact ⟨_, Table.mem_updateWhere.mpr ⟨row, hmem, rfl⟩, by split <;> exact hid⟩
    · exact ⟨row, hmem, hid⟩
  · rw [hmoves.versions]
    refine ⟨_, Table.mem_updateWhere.mpr ⟨row, hrow, rfl⟩, ?_⟩
    split
    · have hkey := hmoves.key row
      have hrowid := Database.isVersion_iff.mp hid
      exact Database.isVersion_iff.mpr ⟨hkey.2.trans hrowid.1, hkey.1.trans hrowid.2⟩
    · exact hid

/-- A call that is gone leaves the others as they were. -/
theorem OwnInv.drop (h : OwnInv s) (c : ℕ) : OwnInv (s.drop c) where
  nodup_call := nodup_drop h.nodup_call
  nodup_version := h.nodup_version
  version := fun call hcall => h.version call (List.mem_filter.mp hcall).1
  alone := fun call hcall howner x hx =>
    h.alone call (List.mem_filter.mp hcall).1 howner x (List.mem_filter.mp hx).1

theorem OwnInv.step (h : OwnInv s) {label : IngestStep}
    (hs : s.step getTime digest sha256 label = some t) : OwnInv t := by
  rcases step_cases h hs with rfl | ⟨_, _, _, _, _, _, hstage⟩ | ⟨_, _, _, hmoves, -, -⟩
  · exact h
  · exact h.stages hstage
  · exact h.moves hmoves

end IngestRun

end RecruitingOs
