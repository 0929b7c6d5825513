import RecruitingOs.Ingest.Effects

/-!
# Every version that is being worked on has an owner

`stageSource` answers `shouldProcess` only for a version that is new or has failed, and
queues it; nothing ever takes a version out of `queued` or `processing` but the call
that put it there.  So the six-status machine is sound as long as that call lives: the
version of a call that returns is settled, or some other call owns it (`Covered`).

The death of an owner breaks that, and `stranded_forever` says that nothing repairs it:
the job is leased again, `stageSource` answers that there is nothing to do, and the job
is completed.  `settled_iff_ownerLives` puts the two together.
-/

namespace RecruitingOs

/-- A normal return that is safe for the job: the version was settled at that moment,
or another live call owned it. -/
def IngestReturn.safe (r : IngestReturn) : Prop :=
  r.status = some .succeeded ∨ r.status = some .terminalFailed ∨ r.owned

namespace IngestRun

variable {getTime : Json → Option ℤ} {digest sha256 : String → String} {s t : IngestRun}

/-- Every version that is being worked on has a live owner, and every return is safe. -/
structure Covered (s : IngestRun) : Prop where
  owned : ∀ row ∈ s.db.sourceVersions, row.status.busy →
    ∃ call ∈ s.calls, call.owns row.tenantId row.id
  returns : ∀ r ∈ s.returns, r.safe

/-- A version that has been found is settled, stageable or being worked on. -/
theorem returned_safe (howned : ∀ row ∈ s.db.sourceVersions, row.status.busy →
      ∃ call ∈ s.calls, call.owns row.tenantId row.id)
    {tenantId id : String} {row : SourceVersionRow}
    (hfind : s.db.sourceVersions.find? (Database.isVersion tenantId id) = some row)
    (hstatus : Database.stageable row.status = false) : (s.returned tenantId id).safe := by
  have hid := Database.isVersion_iff.mp (List.find?_some hfind)
  have hrecord : (s.returned tenantId id).status = some row.status := by
    show (s.db.sourceVersions.find? _).map SourceVersionRow.status = _
    rw [hfind]
    rfl
  by_cases hbusy : row.status.busy
  · obtain ⟨call, hcall, hown⟩ := howned row (List.mem_of_find?_eq_some hfind) hbusy
    rw [hid.1, hid.2] at hown
    exact .inr (.inr (List.any_eq_true.mpr ⟨call, hcall, hown⟩))
  · cases hrow : row.status with
    | succeeded => exact .inl (hrecord.trans (congrArg some hrow))
    | terminalFailed => exact .inr (.inl (hrecord.trans (congrArg some hrow)))
    | received | retryableFailed =>
        rw [hrow] at hstatus
        cases hstatus
    | queued | processing =>
        rw [hrow] at hbusy
        exact absurd rfl hbusy

/-- The condition on a step: a worker that dies does not own a version, that is, its
call has not staged yet, or has marked its version succeeded. -/
def OwnerLives (s : IngestRun) : IngestStep → Prop
  | .crash c => ∀ call ∈ s.calls, call.id = c → call.owner = false
  | _ => True

theorem Covered.stages (hc : Covered s) {c : ℕ} {tenantId id : String}
    {source : SourceItem} {versions : List SourceVersionRow} {row : SourceVersionRow}
    (hst : Stages s t c tenantId id source versions row) : Covered t := by
  have hmono : ∀ call ∈ s.calls, call ∈ t.calls := by
    intro call hcall
    rw [hst.calls]
    split
    · exact List.mem_cons_of_mem _ hcall
    · exact hcall
  have howned : ∀ new ∈ t.db.sourceVersions, new.status.busy →
      ∃ call ∈ t.calls, call.owns new.tenantId new.id := by
    intro new hnew hbusy
    rcases hst.origin hnew with hold | hstageable | ⟨hstageable, hid⟩
    · obtain ⟨call, hcall, hown⟩ := hc.owned new hold hbusy
      exact ⟨call, hmono call hcall, hown⟩
    · rw [SourceVersionStatus.not_stageable hbusy] at hstageable
      cases hstageable
    · have hkey := Database.isVersion_iff.mp hid
      refine ⟨⟨c, tenantId, source, id, .staged⟩, ?_, ?_⟩
      · rw [hst.calls, if_pos hstageable]
        exact List.mem_cons_self
      · exact IngestCall.owns_iff.mpr ⟨rfl, hkey.1.symm, hkey.2.symm⟩
  refine ⟨howned, fun r hr => ?_⟩
  rw [hst.returns] at hr
  split at hr
  · exact hc.returns r hr
  · rename_i hsettled
    rcases List.mem_cons.mp hr with rfl | hr
    · have hversions : t.db.sourceVersions = versions := by
        rw [hst.versions, if_neg hsettled]
      have hfind : t.db.sourceVersions.find? (Database.isVersion tenantId id) = some row := by
        rw [hversions]
        exact hst.found
      exact returned_safe howned hfind (Bool.eq_false_iff.mpr hsettled)
    · exact hc.returns r hr

theorem Covered.moves (h : OwnInv s) (hc : Covered s) {call : IngestCall}
    {change : SourceVersionRow → SourceVersionRow} {next : Option IngestPhase}
    (hm : Moves s t call change next)
    (hreturns : t.returns = s.returns ∨
      ∃ r : IngestReturn, r.status = some .succeeded ∧ t.returns = r :: s.returns)
    (hleft : next = none → (∀ row, (change row).status.busy = false) ∨ call.owner = false) :
    Covered t := by
  refine ⟨fun new hnew hbusy => ?_, fun r hr => ?_⟩
  · rw [hm.versions] at hnew
    obtain ⟨old, hold, rfl⟩ := Table.mem_updateWhere.mp hnew
    -- the owner of an old version is still there, unless it is the call that moves
    have hother : old.status.busy → (∃ x ∈ t.calls, x.owns old.tenantId old.id) ∨
        call.owns old.tenantId old.id := by
      intro holdBusy
      obtain ⟨x, hx, hown⟩ := hc.owned old hold holdBusy
      by_cases hid : x.id = call.id
      · rw [← Table.eq_of_key_eq h.nodup_call hx hm.mem hid]
        exact .inr hown
      · exact .inl ⟨x, (hm.calls x).mpr (.inl ⟨hx, hid⟩), hown⟩
    split at hbusy
    · rename_i hversion
      rw [if_pos hversion, (hm.key old).1, (hm.key old).2]
      have hid := Database.isVersion_iff.mp hversion
      cases next with
      | some phase =>
          have hstatus : old.status = call.phase.status := by
            obtain ⟨row, hrow, hrowid, hrowstatus⟩ := h.version call hm.mem
            have hsame : old = row := Table.eq_of_key_eq h.nodup_version hold hrow
              (hid.2.trans (Database.isVersion_iff.mp hrowid).2.symm)
            rw [hsame, hrowstatus]
          rw [hm.status phase rfl old hstatus] at hbusy
          refine ⟨{ call with phase := phase }, (hm.calls _).mpr (.inr ⟨phase, rfl, rfl⟩), ?_⟩
          exact IngestCall.owns_iff.mpr ⟨IngestCall.owner_iff.mpr hbusy, hid.1.symm, hid.2.symm⟩
      | none =>
          rcases hleft rfl with hquiet | hfree
          · rw [hquiet old] at hbusy
            cases hbusy
          · rcases hm.own with howner | hsame
            · rw [hfree] at howner
              cases howner
            · rw [hsame old] at hbusy
              rcases hother hbusy with hx | hown
              · exact hx
              · have howner := (IngestCall.owns_iff.mp hown).1
                rw [hfree] at howner
                cases howner
    · rename_i hversion
      rw [if_neg hversion]
      rcases hother hbusy with hx | hown
      · exact hx
      · have hown' := IngestCall.owns_iff.mp hown
        exact absurd (Database.isVersion_iff.mpr ⟨hown'.2.1.symm, hown'.2.2.symm⟩) hversion
  · rcases hreturns with hsame | ⟨new, hstatus, hcons⟩
    · rw [hsame] at hr
      exact hc.returns r hr
    · rw [hcons] at hr
      rcases List.mem_cons.mp hr with rfl | hr
      · exact .inl hstatus
      · exact hc.returns r hr

theorem Covered.step (h : OwnInv s) (hc : Covered s) {label : IngestStep}
    (hlives : OwnerLives s label) (hs : s.step getTime digest sha256 label = some t) :
    Covered t := by
  rcases step_cases h hs with
    rfl | ⟨_, _, _, _, _, _, hstage⟩ | ⟨call, change, next, hmoves, hreturns, hleft⟩
  · exact hc
  · exact hc.stages hstage
  · refine hc.moves h hmoves hreturns fun hnext => ?_
    rcases hleft hnext with hquiet | hfree | rfl
    · exact .inl hquiet
    · exact .inr hfree
    · exact .inr (hlives call hmoves.mem rfl)

/-! ### A version without an owner stays so -/

/-- The version is queued or processing, and no live call owns it. -/
def Stranded (tenantId id : String) (s : IngestRun) : Prop :=
  (∃ row ∈ s.db.sourceVersions, Database.isVersion tenantId id row ∧ row.status.busy) ∧
    ∀ call ∈ s.calls, ¬ call.owns tenantId id

/-- Whatever happens, a `stageSource` of this version answers that there is nothing to do. -/
def NeverProcessed (getTime : Json → Option ℤ) (digest sha256 : String → String)
    (tenantId id : String) (s : IngestRun) : Prop :=
  ∀ t, Transition.Later (step getTime digest sha256) s t → ∀ source db result,
    versionId digest sha256 tenantId source = id →
    t.db.stageSource digest sha256 source tenantId = .ok (db, result) →
    result.shouldProcess = false

/-- What a `stageSource` of a busy version finds. -/
theorem busy_not_staged (hn : (s.db.sourceVersions.map SourceVersionRow.id).Nodup)
    {tenantId : String} {source : SourceItem} {db : Database} {result : StageSourceResult}
    {row : SourceVersionRow} (hrow : row ∈ s.db.sourceVersions)
    (hid : row.id = versionId digest sha256 tenantId source) (hbusy : row.status.busy)
    (hstage : s.db.stageSource digest sha256 source tenantId = .ok (db, result)) :
    result.shouldProcess = false := by
  obtain ⟨hresult, versions, found, hinserted, hfind, hprocess, -⟩ :=
    Database.stageSource_versions hstage
  rcases hinserted with rfl | ⟨hnew, -⟩
  · have hfound := Database.isVersion_iff.mp (List.find?_some hfind)
    have hsame : found = row := Table.eq_of_key_eq hn (List.mem_of_find?_eq_some hfind) hrow
      (hfound.2.trans (hresult.trans hid.symm))
    rw [hprocess, hsame]
    exact SourceVersionStatus.not_stageable hbusy
  · exact absurd (hid.trans hresult.symm) (hnew row hrow)

theorem Stranded.step (h : OwnInv s) {tenantId id : String} (hst : Stranded tenantId id s)
    {label : IngestStep} (hs : s.step getTime digest sha256 label = some t) :
    Stranded tenantId id t := by
  obtain ⟨⟨row, hrow, hversion, hbusy⟩, hfree⟩ := hst
  have hsettled := SourceVersionStatus.not_stageable hbusy
  rcases step_cases h hs with
    rfl | ⟨c, source, tenant, versions, found, -, hstage⟩ | ⟨call, change, next, hmoves, -, -⟩
  · exact ⟨⟨row, hrow, hversion, hbusy⟩, hfree⟩
  · have hmem := hstage.mem_versions hrow
    refine ⟨⟨row, hstage.kept h.nodup_version hmem hsettled, hversion, hbusy⟩, fun x hx => ?_⟩
    rw [hstage.calls] at hx
    split at hx
    · rename_i hstageable
      rcases List.mem_cons.mp hx with rfl | hx
      · intro hown
        -- the call that begins would have found this very row
        have hfound := Database.isVersion_iff.mp (List.find?_some hstage.found)
        have hsame : found = row := Table.eq_of_key_eq (hstage.nodup h.nodup_version)
          (List.mem_of_find?_eq_some hstage.found) hmem
          (hfound.2.trans ((IngestCall.owns_iff.mp hown).2.2.trans
            (Database.isVersion_iff.mp hversion).2.symm))
        rw [hsame, hsettled] at hstageable
        cases hstageable
      · exact hfree x hx
    · exact hfree x hx
  · have hnot : ¬ (call.owner ∧ Database.isVersion call.tenantId call.versionId row) := by
      rintro ⟨howner, hcall⟩
      have hcallid := Database.isVersion_iff.mp hcall
      have hid := Database.isVersion_iff.mp hversion
      exact hfree call hmoves.mem (IngestCall.owns_iff.mpr
        ⟨howner, hcallid.1.symm.trans hid.1, hcallid.2.symm.trans hid.2⟩)
    refine ⟨⟨row, ?_, hversion, hbusy⟩, fun x hx hown => ?_⟩
    · rw [hmoves.versions]
      refine Table.mem_updateWhere.mpr ⟨row, hrow, ?_⟩
      split
      · rename_i hcall
        rcases hmoves.own with howner | hsame
        · exact absurd ⟨howner, hcall⟩ hnot
        · exact hsame row
      · rfl
    · rcases (hmoves.calls x).mp hx with ⟨hold, -⟩ | ⟨phase, hnext, rfl⟩
      · exact hfree x hold hown
      · obtain ⟨howner, htenant, hid⟩ := IngestCall.owns_iff.mp hown
        have hcall := h.owner_before hmoves hnext howner
        exact hfree call hmoves.mem (IngestCall.owns_iff.mpr ⟨hcall, htenant, hid⟩)

/-- **A stranded version is stranded for good.**  However often its job is leased again,
no call will ever process it. -/
theorem stranded_forever (h : OwnInv s) {tenantId id : String} (hst : Stranded tenantId id s) :
    NeverProcessed getTime digest sha256 tenantId id s := by
  intro t ht source db result hid hstage
  have hboth : OwnInv t ∧ Stranded tenantId id t := by
    have hstart : Transition.Reachable (· = s) (step getTime digest sha256) s := .start rfl
    refine ht.keep (P := fun s => OwnInv s ∧ Stranded tenantId id s) ?_ hstart ⟨h, hst⟩
    intro u a v _ hu huv
    exact ⟨hu.1.step huv, hu.2.step hu.1 huv⟩
  obtain ⟨hinv, ⟨row, hrow, hversion, hbusy⟩, -⟩ := hboth
  have hrowid := (Database.isVersion_iff.mp hversion).2
  exact busy_not_staged hinv.nodup_version hrow (hrowid.trans hid.symm) hbusy hstage

/-! ### Every run -/

/-- The promise: every normal return is safe, and no version is left in `queued` or
`processing` with no live owner while every later `stageSource` of it answers that
there is nothing to do. -/
def Settled (getTime : Json → Option ℤ) (digest sha256 : String → String) (s : IngestRun) : Prop :=
  (∀ r ∈ s.returns, r.safe) ∧
    ¬ ∃ tenantId id, Stranded tenantId id s ∧ NeverProcessed getTime digest sha256 tenantId id s

theorem Covered.settled (hc : Covered s) : Settled getTime digest sha256 s := by
  refine ⟨hc.returns, ?_⟩
  rintro ⟨tenantId, id, ⟨⟨row, hrow, hversion, hbusy⟩, hfree⟩, -⟩
  obtain ⟨call, hcall, hown⟩ := hc.owned row hrow hbusy
  have hid := Database.isVersion_iff.mp hversion
  rw [hid.1, hid.2] at hown
  exact hfree call hcall hown

/-- The death of an owner strands its version. -/
theorem OwnInv.crash_strands (h : OwnInv s) {call : IngestCall} (hcall : call ∈ s.calls)
    (howner : call.owner)
    (hs : s.step getTime digest sha256 (.crash call.id) = some t) :
    Stranded call.tenantId call.versionId t := by
  simp only [IngestRun.step] at hs
  split at hs
  · cases hs
    obtain ⟨row, hrow, hversion, hstatus⟩ := h.version call hcall
    refine ⟨⟨row, hrow, hversion, ?_⟩, fun x hx hown => ?_⟩
    · rw [hstatus]
      exact IngestCall.owner_iff.mp howner
    · obtain ⟨hx, hid⟩ := List.mem_filter.mp hx
      obtain ⟨-, htenant, hversion⟩ := IngestCall.owns_iff.mp hown
      have hsame := h.alone call hcall howner x hx htenant hversion
      simp [hsame] at hid
  · cases hs

/-- Nothing is in flight. -/
structure Quiet (s : IngestRun) : Prop where
  calls : s.calls = []
  returns : s.returns = []
  nodup : (s.db.sourceVersions.map SourceVersionRow.id).Nodup
  idle : ∀ row ∈ s.db.sourceVersions, row.status.busy = false

theorem Quiet.inv (h : Quiet s) : OwnInv s ∧ Covered s := by
  refine ⟨⟨?_, h.nodup, ?_, ?_⟩, ?_, ?_⟩
  · simp [h.calls]
  · simp [h.calls]
  · simp [h.calls]
  · intro row hrow hbusy
    rw [h.idle row hrow] at hbusy
    cases hbusy
  · simp [h.returns]

/-- **Ingest settles what it stages, exactly.**  From any database with nothing in
flight, a run of any number of ingest calls, on any sources and with crashes anywhere,
keeps the promise in each of its states if and only if no worker dies while its call
owns a version. -/
theorem settled_iff_ownerLives (h : Quiet s) (run : List IngestStep) :
    Transition.EveryState (step getTime digest sha256) (Settled getTime digest sha256) s run ↔
      Transition.EveryStep (step getTime digest sha256) OwnerLives s run := by
  refine Transition.everyState_iff_everyStep (I := fun s => OwnInv s ∧ Covered s)
    ?_ (fun _ hinv => hinv.2.settled) ?_ h.inv
  · intro u label v hinv hlives hs
    exact ⟨hinv.1.step hs, hinv.2.step hinv.1 hlives hs⟩
  · intro u label v hinv hs hsettled
    cases label with
    | crash c =>
        rintro call hcall rfl
        by_contra howner
        have hstranded := hinv.1.crash_strands hcall (Bool.not_eq_false _ ▸ howner) hs
        exact hsettled.2 ⟨_, _, hstranded, stranded_forever (hinv.1.step hs) hstranded⟩
    | stage _ _ _ | process _ _ | commit _ _ _ _ _ | throw _ _ | markFailed _ _ | finish _ =>
        trivial

/-! ### A retry after a death -/

/-- A posted text, as it is fetched. -/
def demoSource : SourceItem where
  id := "https://club.example/apply"
  tenantId := some "t1"
  contributorUserId := none
  organizationId := "club"
  sourceType := .website
  externalId := none
  url := some "https://club.example/apply"
  title := none
  rawText := "Applications close on 10 September."
  media := []
  publishedAt := none
  fetchedAt := "2026-09-01T00:00:00.000Z"
  metadata := none

/-- A tenant with one organization and no evidence yet. -/
def oneClub : IngestRun where
  db := { Database.empty with organizations := [⟨"t1", "club"⟩] }
  calls := []
  returns := []

theorem oneClub_quiet : Quiet oneClub where
  calls := rfl
  returns := rfl
  nodup := List.nodup_nil
  idle := fun _ hrow => absurd hrow List.not_mem_nil

/-- The worker of call 1 dies right after `stageSource`; the job is leased again. -/
def retryAfterDeath : List IngestStep :=
  [.stage 1 demoSource "t1", .crash 1, .stage 2 demoSource "t1"]

/-- The retry returns normally although the version is queued and nobody owns it. -/
theorem retryAfterDeath_not_settled :
    ¬ ∀ s : IngestRun, Quiet s → ∀ run,
      Transition.EveryState (step (fun _ => none) (fun _ => "0") (fun _ => "0"))
        (Settled (fun _ => none) (fun _ => "0") (fun _ => "0")) s run := by
  intro h
  obtain ⟨t, ht⟩ : ∃ t, Transition.exec (step (fun _ => none) (fun _ => "0") (fun _ => "0"))
      oneClub retryAfterDeath = some t := ⟨_, rfl⟩
  have hsettled := (h oneClub oneClub_quiet retryAfterDeath).exec ht
  cases ht
  have hsafe := hsettled.1 ⟨"srcv_0", some .queued, false⟩ List.mem_cons_self
  rcases hsafe with habsurd | habsurd | habsurd
  · cases habsurd
  · cases habsurd
  · cases habsurd

/-- A call that fails, and its retry, settle the version. -/
theorem settled_iff_ownerLives_retry :
    Transition.EveryState (step (fun _ => none) (fun _ => "0") (fun _ => "0"))
      (Settled (fun _ => none) (fun _ => "0") (fun _ => "0")) oneClub
      [.stage 1 demoSource "t1", .process 1 0, .throw 1 "timeout", .markFailed 1 1,
        .stage 2 demoSource "t1", .process 2 2] := by
  rw [settled_iff_ownerLives oneClub_quiet]
  iterate 6
    refine fun t ht => ⟨trivial, ?_⟩
    cases ht
  trivial

end IngestRun

end RecruitingOs
