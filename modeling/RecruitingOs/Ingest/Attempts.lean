import RecruitingOs.Ingest.Ownership

/-!
# Single owner, bounded attempts

`markSourceSucceeded` and `markSourceFailed` update their version whatever its status
is, so neither protects a settled version: it is protected by who may hold it.  Every
step is a `Turn` of one call on its version, and a call that may write is the only one
on it (`OwnInv.alone`).

* `Counted` — the attempts of a version are bounded, and a call in `processing` or
  `failing` knows the count of its version.
* Settled rows and their claims stay as they are (`settled_step`, `settled_later`).
* `single_owner_bounded_attempts` — both, over all runs of ingest calls with crashes.
-/

namespace RecruitingOs

/-- `succeeded` and `terminal_failed`. -/
def SourceVersionStatus.settled : SourceVersionStatus → Bool
  | .succeeded | .terminalFailed => true
  | _ => false

/-- The attempt that a call has been told. -/
def IngestPhase.attempt? : IngestPhase → Option ℕ
  | .processing attempt | .failing attempt _ => some attempt
  | .staged | .processed => none

/-- At most five attempts, and at most four where another one may follow. -/
def SourceVersionRow.bounded (row : SourceVersionRow) : Prop :=
  row.attemptCount ≤ 5 ∧ (Database.processable row.status → row.attemptCount < 5)

/-- A turn keeps the bound, and the call knows the new count. -/
theorem Turn.bounded {row new : SourceVersionRow} {phase : IngestPhase} {next : Option IngestPhase}
    (h : IngestRun.Turn row new phase next) (hrow : row.bounded)
    (hknown : ∀ attempt, phase.attempt? = some attempt → row.attemptCount = attempt) :
    new.bounded ∧ ∀ later, next = some later → ∀ attempt, later.attempt? = some attempt →
      new.attemptCount = attempt := by
  cases h with
  | process hstatus hnew hcount =>
      have hless := hrow.2 hstatus
      refine ⟨⟨by omega, fun hp => ?_⟩, ?_⟩
      · rw [hnew] at hp
        cases hp
      · intro later hlater attempt hattempt
        cases hlater
        cases hattempt
        exact hcount
  | commit attempt hnew hcount =>
      refine ⟨⟨by rw [hcount]; exact hrow.1, fun hp => ?_⟩, ?_⟩
      · rw [hnew] at hp
        cases hp
      · intro later hlater attempt hattempt
        cases hlater
        cases hattempt
  | throw attempt message hsame =>
      subst hsame
      refine ⟨hrow, fun later hlater told hattempt => ?_⟩
      cases hlater
      exact hknown told hattempt
  | fail attempt message hnew hcount =>
      have hattempt : row.attemptCount = attempt := hknown attempt rfl
      refine ⟨⟨by rw [hcount]; exact hrow.1, fun hp => ?_⟩, ?_⟩
      · -- the fifth failure is terminal
        by_contra hmany
        rw [hnew, if_neg (by omega)] at hp
        cases hp
      · intro later hlater
        cases hlater
  | leave phase hsame =>
      subst hsame
      refine ⟨hrow, fun later hlater => ?_⟩
      cases hlater

namespace IngestRun

variable {getTime : Json → Option ℤ} {digest sha256 : String → String} {s t : IngestRun}

/-- The attempts of every version are bounded, and every call that has counted knows
the count of its version. -/
structure Counted (s : IngestRun) : Prop where
  bounded : ∀ row ∈ s.db.sourceVersions, row.bounded
  known : ∀ call ∈ s.calls, ∀ row ∈ s.db.sourceVersions,
    Database.isVersion call.tenantId call.versionId row →
      ∀ attempt, call.phase.attempt? = some attempt → row.attemptCount = attempt

theorem Counted.moves (h : OwnInv s) (hc : Counted s) {call : IngestCall}
    {change : SourceVersionRow → SourceVersionRow} {next : Option IngestPhase}
    (hm : Moves s t call change next) : Counted t := by
  have hturn : ∀ row ∈ s.db.sourceVersions,
      Database.isVersion call.tenantId call.versionId row → (change row).bounded ∧
        ∀ later, next = some later → ∀ attempt, later.attempt? = some attempt →
          (change row).attemptCount = attempt := fun row hrow hid =>
    Turn.bounded (hm.turn row hrow hid) (hc.bounded row hrow) (hc.known call hm.mem row hrow hid)
  refine ⟨fun new hnew => ?_, fun x hx new hnew hid attempt hattempt => ?_⟩
  · rw [hm.versions] at hnew
    obtain ⟨row, hrow, rfl⟩ := Table.mem_updateWhere.mp hnew
    split
    · rename_i hversion
      exact (hturn row hrow hversion).1
    · exact hc.bounded row hrow
  · rw [hm.versions] at hnew
    obtain ⟨row, hrow, rfl⟩ := Table.mem_updateWhere.mp hnew
    rcases (hm.calls x).mp hx with ⟨hold, hother⟩ | ⟨phase, hnext, rfl⟩
    · split at hid
      · rename_i hversion
        rw [if_pos hversion]
        -- another call on the version that moves: then the moving call owns nothing
        rcases hm.own with howner | hsame
        · have hkey := hm.key row
          have hxid := Database.isVersion_iff.mp hid
          have hcid := Database.isVersion_iff.mp hversion
          have hxcall : x = call := h.alone call hm.mem howner x hold
            (hxid.1.symm.trans (hkey.2.trans hcid.1)) (hxid.2.symm.trans (hkey.1.trans hcid.2))
          exact absurd (congrArg IngestCall.id hxcall) hother
        · rw [hsame row] at hid ⊢
          exact hc.known x hold row hrow hid attempt hattempt
      · rename_i hversion
        rw [if_neg hversion]
        exact hc.known x hold row hrow hid attempt hattempt
    · split at hid
      · rename_i hversion
        rw [if_pos hversion]
        exact (hturn row hrow hversion).2 phase hnext attempt hattempt
      · rename_i hversion
        exact absurd hid hversion

theorem Counted.stages (hc : Counted s) {c : ℕ} {tenantId id : String}
    {source : SourceItem} {versions : List SourceVersionRow} {row : SourceVersionRow}
    (h : OwnInv s) (hst : Stages s t c tenantId id source versions row) : Counted t := by
  have hversions : ∀ old ∈ versions, old ∈ s.db.sourceVersions ∨ old.attemptCount = 0 := by
    intro old hold
    rcases hst.inserted with rfl | ⟨-, received, -, hnew, rfl⟩
    · exact .inl hold
    · rcases List.mem_append.mp hold with hold | hlast
      · exact .inl hold
      · rw [List.mem_singleton.mp hlast]
        exact .inr hnew.2
  have hcount : ∀ new ∈ t.db.sourceVersions, ∃ old ∈ versions,
      new.attemptCount = old.attemptCount ∧
        (Database.processable new.status → Database.processable old.status) := by
    intro new hnew
    rw [hst.versions] at hnew
    split at hnew
    · rename_i hstageable
      obtain ⟨old, hold, rfl⟩ := Table.mem_updateWhere.mp hnew
      refine ⟨old, hold, by split <;> rfl, fun hp => ?_⟩
      split at hp
      · rename_i hid
        -- the row that is queued is the one that was found
        have hrow := Database.isVersion_iff.mp (List.find?_some hst.found)
        have hsame : old = row := Table.eq_of_key_eq (hst.nodup h.nodup_version) hold
          (List.mem_of_find?_eq_some hst.found)
          ((Database.isVersion_iff.mp hid).2.trans hrow.2.symm)
        rw [hsame]
        revert hstageable
        cases row.status <;> simp [Database.stageable, Database.processable]
      · exact hp
    · exact ⟨new, hnew, rfl, fun hp => hp⟩
  refine ⟨fun new hnew => ?_, fun x hx new hnew hid attempt hattempt => ?_⟩
  · obtain ⟨old, hold, hsame, hstatus⟩ := hcount new hnew
    rcases hversions old hold with hin | hzero
    · have hbound := hc.bounded old hin
      exact ⟨hsame ▸ hbound.1, fun hp => hsame ▸ hbound.2 (hstatus hp)⟩
    · refine ⟨?_, fun _ => ?_⟩ <;> omega
  · have hx' : x ∈ s.calls := by
      rw [hst.calls] at hx
      split at hx
      · rcases List.mem_cons.mp hx with rfl | hx
        · cases hattempt
        · exact hx
      · exact hx
    -- the version of a call is not stageable, so it is kept
    obtain ⟨old, hold, hversion, hstatus⟩ := h.version x hx'
    have hkept : old ∈ t.db.sourceVersions := by
      refine hst.kept h.nodup_version (hst.mem_versions hold) ?_
      rw [hstatus]
      cases x.phase <;> rfl
    have hsame : new = old := Table.eq_of_key_eq (h.stages hst).nodup_version hnew hkept
      ((Database.isVersion_iff.mp hid).2.trans (Database.isVersion_iff.mp hversion).2.symm)
    rw [hsame]
    exact hc.known x hx' old hold hversion attempt hattempt

theorem Counted.step (h : OwnInv s) (hc : Counted s) {label : IngestStep}
    (hs : s.step getTime digest sha256 label = some t) : Counted t := by
  rcases step_cases h hs with rfl | ⟨_, _, _, _, _, _, hstage⟩ | ⟨_, _, _, hmoves, -, -⟩
  · exact hc
  · exact hc.stages h hstage
  · exact hc.moves h hmoves

/-! ### What is settled stays -/

/-- A settled version is not the version of an owner. -/
theorem OwnInv.not_owner (h : OwnInv s) {row : SourceVersionRow} (hrow : row ∈ s.db.sourceVersions)
    (hsettled : row.status.settled) {call : IngestCall} (hcall : call ∈ s.calls)
    (hid : row.id = call.versionId) : call.owner = false := by
  obtain ⟨old, hold, hversion, hstatus⟩ := h.version call hcall
  have hsame : row = old := Table.eq_of_key_eq h.nodup_version hrow hold
    (hid.trans (Database.isVersion_iff.mp hversion).2.symm)
  rw [hsame, hstatus] at hsettled
  revert hsettled
  obtain ⟨_, _, _, _, phase⟩ := call
  cases phase <;> simp [IngestPhase.status, SourceVersionStatus.settled, IngestCall.owner]

/-- One step leaves a settled version and its claims. -/
theorem settled_step (h : OwnInv s) {row : SourceVersionRow} (hrow : row ∈ s.db.sourceVersions)
    (hsettled : row.status.settled) {label : IngestStep}
    (hs : s.step getTime digest sha256 label = some t) :
    row ∈ t.db.sourceVersions ∧ t.db.claimsOn row.id = s.db.claimsOn row.id := by
  rcases step_cases h hs with
    rfl | ⟨c, source, tenantId, versions, found, -, hstage⟩ | ⟨call, change, next, hmoves, -, -⟩
  · exact ⟨hrow, rfl⟩
  · refine ⟨hstage.kept h.nodup_version (hstage.mem_versions hrow) ?_, ?_⟩
    · revert hsettled
      cases row.status <;> simp [SourceVersionStatus.settled, Database.stageable]
    · rw [Database.claimsOn, Database.claimsOn, hstage.claims]
  · refine ⟨?_, hmoves.claims row.id ?_⟩
    · rw [hmoves.versions]
      refine Table.mem_updateWhere.mpr ⟨row, hrow, ?_⟩
      split
      · rename_i hid
        have howner := h.not_owner hrow hsettled hmoves.mem (Database.isVersion_iff.mp hid).2
        rcases hmoves.own with hyes | hsame
        · rw [howner] at hyes
          cases hyes
        · exact hsame row
      · rfl
    · by_cases hid : row.id = call.versionId
      · exact .inl (h.not_owner hrow hsettled hmoves.mem hid)
      · exact .inr hid

/-! ### Every run -/

/-- Nothing has been staged yet. -/
def Unstaged (s : IngestRun) : Prop := s.calls = [] ∧ s.db.sourceVersions = []

theorem reachable_counted (h : Transition.Reachable Unstaged (step getTime digest sha256) s) :
    OwnInv s ∧ Counted s := by
  refine h.invariant (I := fun s => OwnInv s ∧ Counted s) ?_ ?_
  · rintro s ⟨hcalls, hversions⟩
    refine ⟨⟨?_, ?_, ?_, ?_⟩, ?_, ?_⟩ <;> simp [hcalls, hversions]
  · intro s label t _ hinv hs
    exact ⟨hinv.1.step hs, hinv.2.step hinv.1 hs⟩

theorem settled_later (h : Transition.Reachable Unstaged (step getTime digest sha256) s)
    {row : SourceVersionRow} (hrow : row ∈ s.db.sourceVersions) (hsettled : row.status.settled)
    (ht : Transition.Later (step getTime digest sha256) s t) :
    row ∈ t.db.sourceVersions ∧ t.db.claimsOn row.id = s.db.claimsOn row.id := by
  refine ht.keep (P := fun t => row ∈ t.db.sourceVersions ∧
    t.db.claimsOn row.id = s.db.claimsOn row.id) ?_ h ⟨hrow, rfl⟩
  intro u label v hu hkept hs
  obtain ⟨hmem, hclaims⟩ := settled_step (reachable_counted hu).1 hkept.1 hsettled hs
  exact ⟨hmem, hclaims.trans hkept.2⟩

/-- The owners of a version are one call at most. -/
theorem OwnInv.countP_owns (h : OwnInv s) (tenantId id : String) :
    s.calls.countP (IngestCall.owns tenantId id) ≤ 1 := by
  have hnodup : (s.calls.filter (IngestCall.owns tenantId id)).Nodup :=
    h.nodup_call.of_map.filter _
  rw [List.countP_eq_length_filter]
  match howners : s.calls.filter (IngestCall.owns tenantId id) with
  | [] => exact Nat.zero_le 1
  | [_] => exact le_rfl
  | a :: b :: rest =>
      have ha := List.mem_filter.mp (howners ▸ List.mem_cons_self : a ∈ s.calls.filter _)
      have hb := List.mem_filter.mp
        (howners ▸ List.mem_cons_of_mem _ List.mem_cons_self : b ∈ s.calls.filter _)
      obtain ⟨howner, htenant, hversion⟩ := IngestCall.owns_iff.mp ha.2
      obtain ⟨-, htenant', hversion'⟩ := IngestCall.owns_iff.mp hb.2
      have hsame : b = a := h.alone a ha.1 howner b hb.1 (htenant'.trans htenant.symm)
        (hversion'.trans hversion.symm)
      rw [howners, hsame] at hnodup
      exact absurd List.mem_cons_self (List.nodup_cons.mp hnodup).1

/-- **Single owner and bounded attempts.**  Whatever ingest calls run, on any sources, in
any order and with crashes anywhere: a version has one owner at most; it has been attempted
five times at most, and fewer where it may be attempted again; and once it has succeeded or
failed for good, no later step changes it or its claims. -/
theorem single_owner_bounded_attempts
    (h : Transition.Reachable Unstaged (step getTime digest sha256) s) :
    (∀ tenantId id, s.calls.countP (IngestCall.owns tenantId id) ≤ 1) ∧
    (∀ row ∈ s.db.sourceVersions, row.attemptCount ≤ 5 ∧
      (row.status = .received ∨ row.status = .queued ∨ row.status = .retryableFailed →
        row.attemptCount < 5)) ∧
    ∀ row ∈ s.db.sourceVersions, row.status = .succeeded ∨ row.status = .terminalFailed →
      ∀ t, Transition.Later (step getTime digest sha256) s t →
        row ∈ t.db.sourceVersions ∧ (∀ v ∈ t.db.sourceVersions, v.id = row.id → v = row) ∧
          t.db.claimsOn row.id = s.db.claimsOn row.id := by
  obtain ⟨hinv, hcounted⟩ := reachable_counted h
  refine ⟨hinv.countP_owns, fun row hrow => ?_, fun row hrow hstatus t ht => ?_⟩
  · obtain ⟨hmost, hless⟩ := hcounted.bounded row hrow
    refine ⟨hmost, fun hstatus => hless ?_⟩
    rcases hstatus with hstatus | hstatus | hstatus <;> rw [hstatus] <;> rfl
  · have hsettled : row.status.settled := by
      rcases hstatus with hstatus | hstatus <;> rw [hstatus] <;> rfl
    obtain ⟨hkept, hclaims⟩ := settled_later h hrow hsettled ht
    refine ⟨hkept, fun v hv hid => ?_, hclaims⟩
    exact Table.eq_of_key_eq (reachable_counted (h.later ht)).1.nodup_version hv hkept hid

/-- Five calls on one document; the extractor fails in each. -/
def fiveFailures : List IngestStep :=
  [1, 2, 3, 4, 5].flatMap fun c =>
    [.stage c demoSource "t1", .process c c, .throw c "timeout", .markFailed c c]

/-- The fifth failure is final: a sixth call leaves the version alone. -/
theorem single_owner_bounded_attempts_fifth :
    ∃ s t row, Transition.exec (step (fun _ => none) (fun _ => "0") (fun _ => "0")) oneClub
        fiveFailures = some s ∧
      row ∈ s.db.sourceVersions ∧ row.status = .terminalFailed ∧ row.attemptCount = 5 ∧
      step (fun _ => none) (fun _ => "0") (fun _ => "0") s (.stage 6 demoSource "t1") = some t ∧
      row ∈ t.db.sourceVersions := by
  obtain ⟨s, hs⟩ : ∃ s, Transition.exec (step (fun _ => none) (fun _ => "0") (fun _ => "0"))
      oneClub fiveFailures = some s := ⟨_, rfl⟩
  obtain ⟨t, ht⟩ : ∃ t, step (fun _ => none) (fun _ => "0") (fun _ => "0") s
      (.stage 6 demoSource "t1") = some t := by
    cases hs
    exact ⟨_, rfl⟩
  obtain ⟨row, hrow, hstatus, hcount⟩ : ∃ row ∈ s.db.sourceVersions,
      row.status = .terminalFailed ∧ row.attemptCount = 5 := by
    cases hs
    exact ⟨_, List.mem_cons_self, rfl, rfl⟩
  have hreach : Transition.Reachable Unstaged
      (step (fun _ => none) (fun _ => "0") (fun _ => "0")) s :=
    Transition.Reachable.of_exec (.start ⟨rfl, rfl⟩) hs
  have hkept := (single_owner_bounded_attempts hreach).2.2 row hrow (.inr hstatus) t
    (Relation.ReflTransGen.single ⟨_, ht⟩)
  exact ⟨s, t, row, hs, hrow, hstatus, hcount, ht, hkept.1⟩

end IngestRun

end RecruitingOs
