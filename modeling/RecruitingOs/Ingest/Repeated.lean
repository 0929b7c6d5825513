import RecruitingOs.Ingest.Model
import RecruitingOs.Store.Claims
import RecruitingOs.Store.ContentAddress

/-!
# Claims that a document makes more than once

The extractor may find one field and value several times, and `putClaims` keeps one row for them:
the first is inserted, and `on conflict … do update` writes the confidence and the evidence of each
later one over it, but not the temporal precision.  `stored_unmixed_iff` says which documents are
stored without a mixture.
-/

namespace RecruitingOs

/-- What the row of a claim keeps of the extraction. -/
def Claim.extraction (c : Claim) : ExtractedClaim :=
  ⟨c.field, c.value, c.confidence, c.evidence, c.temporalPrecision⟩

/-- One field and value. -/
def ExtractedClaim.sameStatement (sameValue : Json → Json → Bool) (a b : ExtractedClaim) : Bool :=
  a.field = b.field ∧ sameValue a.value b.value

/-- The claims of a document that repeat a statement, itself among them. -/
def repetitions (sameValue : Json → Json → Bool) (extracted : List ExtractedClaim)
    (e : ExtractedClaim) : List ExtractedClaim :=
  extracted.filter (e.sameStatement sameValue)

/-- The rows of a version that state it. -/
def statingRows (sameValue : Json → Json → Bool) (versionId : String) (rows : List Claim)
    (e : ExtractedClaim) : List Claim :=
  rows.filter fun row => row.sourceItemId = versionId ∧ e.sameStatement sameValue row.extraction

/-- A row has confidence, evidence and precision from one claim that states the same. -/
def Unmixed (sameValue : Json → Json → Bool) (extracted : List ExtractedClaim) (row : Claim) :
    Prop :=
  ∃ e ∈ extracted, e.sameStatement sameValue row.extraction ∧ row.confidence = e.confidence ∧
    row.evidence = e.evidence ∧ row.temporalPrecision = e.temporalPrecision

/-- Some repetition has the confidence and the evidence of the last and the precision of the
first. -/
def Reconcilable (sameValue : Json → Json → Bool) (extracted : List ExtractedClaim)
    (e : ExtractedClaim) : Prop :=
  ∀ first last, (repetitions sameValue extracted e).head? = some first →
    (repetitions sameValue extracted e).getLast? = some last →
    ∃ c ∈ repetitions sameValue extracted e, c.confidence = last.confidence ∧
      c.evidence = last.evidence ∧ c.temporalPrecision = first.temporalPrecision

/-- The values that a database takes for equal. -/
structure Comparison (sameValue : Json → Json → Bool) : Prop where
  refl : ∀ v, sameValue v v
  symm : ∀ {v w}, sameValue v w → sameValue w v
  trans : ∀ {u v w}, sameValue u v → sameValue v w → sameValue u w

theorem comparison_sqlite : Comparison sqliteSameValue where
  refl v := by simp [sqliteSameValue]
  symm h := decide_eq_true (of_decide_eq_true h).symm
  trans h h' := decide_eq_true ((of_decide_eq_true h).trans (of_decide_eq_true h'))

theorem comparison_postgres : Comparison postgresSameValue where
  refl v := by simp [postgresSameValue]
  symm h := decide_eq_true (of_decide_eq_true h).symm
  trans h h' := decide_eq_true ((of_decide_eq_true h).trans (of_decide_eq_true h'))

variable {sameValue : Json → Json → Bool} {digest : String → String}
  {tenantId versionId : String} {source : SourceItem} {extractedAt : ℕ → ℤ}
  {extracted : List ExtractedClaim} {rows out claims : List Claim} {claim row : Claim}
  {e : ExtractedClaim}

variable (digest tenantId versionId source extractedAt extracted) in
theorem map_extraction_claimsOf :
    (claimsOf digest tenantId versionId source extractedAt extracted).map Claim.extraction =
      extracted := by
  rw [claimsOf, List.map_map]
  exact List.zipIdx_map_fst 0 extracted

theorem sourceItemId_of_mem_claimsOf {c : Claim}
    (h : c ∈ claimsOf digest tenantId versionId source extractedAt extracted) :
    c.sourceItemId = versionId := by
  obtain ⟨pair, -, rfl⟩ := List.mem_map.mp h
  rfl

variable (sameValue digest tenantId versionId source extractedAt extracted e) in
/-- The rows of a statement, by the claims that are put. -/
theorem statingRows_claimsOf :
    (statingRows sameValue versionId
        (claimsOf digest tenantId versionId source extractedAt extracted) e).map
      Claim.extraction = repetitions sameValue extracted e := by
  have hfilter : statingRows sameValue versionId
      (claimsOf digest tenantId versionId source extractedAt extracted) e =
        (claimsOf digest tenantId versionId source extractedAt extracted).filter
          (e.sameStatement sameValue ∘ Claim.extraction) := by
    refine List.filter_congr fun c hc => ?_
    simp [sourceItemId_of_mem_claimsOf hc]
  rw [hfilter, repetitions, ← List.filter_map, map_extraction_claimsOf]

theorem ExtractedClaim.sameStatement_refl (hsame : Comparison sameValue) (e : ExtractedClaim) :
    e.sameStatement sameValue e :=
  decide_eq_true ⟨rfl, hsame.refl e.value⟩

theorem ExtractedClaim.sameStatement_symm (hsame : Comparison sameValue) {a b : ExtractedClaim}
    (h : a.sameStatement sameValue b) : b.sameStatement sameValue a :=
  decide_eq_true ⟨(of_decide_eq_true h).1.symm, hsame.symm (of_decide_eq_true h).2⟩

theorem ExtractedClaim.sameStatement_trans (hsame : Comparison sameValue)
    {a b c : ExtractedClaim} (h : a.sameStatement sameValue b) (h' : b.sameStatement sameValue c) :
    a.sameStatement sameValue c :=
  decide_eq_true ⟨(of_decide_eq_true h).1.trans (of_decide_eq_true h').1,
    hsame.trans (of_decide_eq_true h).2 (of_decide_eq_true h').2⟩

theorem sameKey_iff {a b : Claim} : a.sameKey sameValue b ↔
    a.sourceItemId = b.sourceItemId ∧ a.extraction.sameStatement sameValue b.extraction := by
  unfold Claim.sameKey ExtractedClaim.sameStatement Claim.extraction
  rw [decide_eq_true_iff, decide_eq_true_iff]

/-- `do update set`. -/
def Claim.refreshed (claim row : Claim) : Claim :=
  { row with
    confidence := claim.confidence
    evidence := claim.evidence
    extractedAt := claim.extractedAt }

/-! ### One claim -/

/-- A row with the key of a claim states `e` if and only if the claim does. -/
theorem states_iff_of_sameKey (hsame : Comparison sameValue) {a b : Claim}
    (h : a.sameKey sameValue b) :
    (b.sourceItemId = versionId ∧ e.sameStatement sameValue b.extraction) ↔
      (a.sourceItemId = versionId ∧ e.sameStatement sameValue a.extraction) := by
  obtain ⟨hversion, hstatement⟩ := sameKey_iff.mp h
  rw [hversion]
  refine and_congr_right fun _ => ⟨fun hb => ?_, fun ha => ?_⟩
  · exact ExtractedClaim.sameStatement_trans hsame hb
      (ExtractedClaim.sameStatement_symm hsame hstatement)
  · exact ExtractedClaim.sameStatement_trans hsame ha hstatement

/-- A claim that states something else does not touch the rows of `e`. -/
theorem statingRows_putClaim_of_not (hsame : Comparison sameValue)
    (h : putClaim sameValue rows claim = some out)
    (hclaim : ¬ (claim.sourceItemId = versionId ∧ e.sameStatement sameValue claim.extraction)) :
    statingRows sameValue versionId out e = statingRows sameValue versionId rows e := by
  rcases putClaim_eq_some h with ⟨-, rfl⟩ | ⟨-, rfl⟩
  · refine Table.filter_updateWhere_of_disjoint fun row _ hkey => ?_
    have hrow : ¬ (row.sourceItemId = versionId ∧ e.sameStatement sameValue row.extraction) :=
      mt (states_iff_of_sameKey hsame hkey).mp hclaim
    exact ⟨decide_eq_false hrow, decide_eq_false hrow⟩
  · unfold statingRows
    rw [List.filter_append, List.filter_cons, if_neg (decide_eq_true_iff.not.mpr hclaim),
      List.filter_nil, List.append_nil]

/-- A claim that states `e` refreshes its rows, or becomes the only one. -/
theorem statingRows_putClaim (hsame : Comparison sameValue)
    (h : putClaim sameValue rows claim = some out)
    (hclaim : claim.sourceItemId = versionId ∧ e.sameStatement sameValue claim.extraction) :
    statingRows sameValue versionId out e =
      if (statingRows sameValue versionId rows e).isEmpty then [claim]
      else (statingRows sameValue versionId rows e).map claim.refreshed := by
  have hkeys : ∀ row, claim.sameKey sameValue row = true ↔
      (row.sourceItemId = versionId ∧ e.sameStatement sameValue row.extraction) := by
    intro row
    refine ⟨fun hkey => (states_iff_of_sameKey hsame hkey).mpr hclaim, fun hrow => ?_⟩
    refine sameKey_iff.mpr ⟨hclaim.1.trans hrow.1.symm, ?_⟩
    exact ExtractedClaim.sameStatement_trans hsame
      (ExtractedClaim.sameStatement_symm hsame hclaim.2) hrow.2
  have hfilter : ∀ rows : List Claim, statingRows sameValue versionId rows e =
      rows.filter (claim.sameKey sameValue) := by
    intro rows
    refine List.filter_congr fun row _ => ?_
    rw [← Bool.eq_iff_iff.mpr (hkeys row |>.trans decide_eq_true_iff.symm)]
  rw [hfilter, hfilter]
  unfold putClaim at h
  dsimp only at h
  by_cases hany : rows.any (claim.sameKey sameValue) = true
  · rw [if_pos hany, Option.some_inj] at h
    subst h
    obtain ⟨row, hrow, hkey⟩ := List.any_eq_true.mp hany
    have hne : (rows.filter (claim.sameKey sameValue)).isEmpty = false :=
      List.isEmpty_eq_false_iff_exists_mem.mpr ⟨row, List.mem_filter.mpr ⟨hrow, hkey⟩⟩
    rw [hne, if_neg Bool.false_ne_true]
    unfold Table.updateWhere
    rw [List.filter_map]
    have hstays : claim.sameKey sameValue ∘ (fun row =>
        if claim.sameKey sameValue row then claim.refreshed row else row) =
          claim.sameKey sameValue := by
      funext row
      show claim.sameKey sameValue (if _ then _ else _) = _
      split
      · rfl
      · rfl
    refine (congrArg (fun p => (rows.filter p).map _) hstays).trans ?_
    refine List.map_congr_left fun row hrow => ?_
    exact if_pos (List.mem_filter.mp hrow).2
  · rw [if_neg hany] at h
    obtain ⟨-, rfl⟩ := Table.insert_eq_some.mp h
    have hnone : rows.filter (claim.sameKey sameValue) = [] := by
      rw [List.filter_eq_nil_iff]
      exact fun row hrow hkey => hany (List.any_eq_true.mpr ⟨row, hrow, hkey⟩)
    rw [List.filter_append, hnone, List.nil_append]
    exact List.filter_cons_of_pos ((hkeys claim).mpr hclaim)

/-! ### All claims of the document -/

/-- A row that the repetitions of a statement leave: the precision of the first, the rest of the
last. -/
structure LeftBy (first last : ExtractedClaim) (row : Claim) : Prop where
  confidence : row.confidence = last.confidence
  evidence : row.evidence = last.evidence
  temporalPrecision : row.temporalPrecision = first.temporalPrecision

/-- From one row on, each repetition refreshes it. -/
theorem statingRows_putClaims_one (hsame : Comparison sameValue)
    (h : putClaims sameValue rows claims = some out)
    (hone : statingRows sameValue versionId rows e = [row]) :
    ∃ left, statingRows sameValue versionId out e = [left] ∧
      LeftBy row.extraction
        (((statingRows sameValue versionId claims e).getLast?.getD row).extraction) left := by
  induction claims generalizing rows row with
  | nil =>
      cases h
      exact ⟨row, hone, rfl, rfl, rfl⟩
  | cons claim claims ih =>
      rw [putClaims, Option.bind_eq_some_iff] at h
      obtain ⟨between, hclaim, hrest⟩ := h
      by_cases hstates :
          claim.sourceItemId = versionId ∧ e.sameStatement sameValue claim.extraction
      · have hbetween : statingRows sameValue versionId between e = [claim.refreshed row] := by
          rw [statingRows_putClaim hsame hclaim hstates, hone]
          rfl
        obtain ⟨left, hleft, hconfidence, hevidence, hprecision⟩ := ih hrest hbetween
        refine ⟨left, hleft, ?_, ?_, hprecision⟩
        · unfold statingRows at hconfidence ⊢
          rw [List.filter_cons, if_pos (decide_eq_true hstates), List.getLast?_cons]
          generalize List.getLast? _ = last at hconfidence ⊢
          cases last with
          | none => exact hconfidence
          | some _ => exact hconfidence
        · unfold statingRows at hevidence ⊢
          rw [List.filter_cons, if_pos (decide_eq_true hstates), List.getLast?_cons]
          generalize List.getLast? _ = last at hevidence ⊢
          cases last with
          | none => exact hevidence
          | some _ => exact hevidence
      · have hbetween : statingRows sameValue versionId between e = [row] :=
          (statingRows_putClaim_of_not hsame hclaim hstates).trans hone
        have hskip : statingRows sameValue versionId (claim :: claims) e =
            statingRows sameValue versionId claims e :=
          (List.filter_cons ..).trans (if_neg (decide_eq_true_iff.not.mpr hstates))
        rw [hskip]
        exact ih hrest hbetween

/-- **One row for each statement**, with what the first and the last repetition leave. -/
theorem statingRows_putClaims (hsame : Comparison sameValue)
    (h : putClaims sameValue rows claims = some out)
    (hnone : statingRows sameValue versionId rows e = []) {first last : Claim}
    (hfirst : (statingRows sameValue versionId claims e).head? = some first)
    (hlast : (statingRows sameValue versionId claims e).getLast? = some last) :
    ∃ left, statingRows sameValue versionId out e = [left] ∧
      LeftBy first.extraction last.extraction left := by
  induction claims generalizing rows with
  | nil => cases hfirst
  | cons claim claims ih =>
      rw [putClaims, Option.bind_eq_some_iff] at h
      obtain ⟨between, hclaim, hrest⟩ := h
      by_cases hstates :
          claim.sourceItemId = versionId ∧ e.sameStatement sameValue claim.extraction
      · have hcons : statingRows sameValue versionId (claim :: claims) e =
            claim :: statingRows sameValue versionId claims e :=
          (List.filter_cons ..).trans (if_pos (decide_eq_true hstates))
        have hbetween : statingRows sameValue versionId between e = [claim] := by
          rw [statingRows_putClaim hsame hclaim hstates, hnone]
          rfl
        rw [hcons, List.head?_cons, Option.some_inj] at hfirst
        rw [hcons, List.getLast?_cons, Option.some_inj] at hlast
        subst hfirst hlast
        exact statingRows_putClaims_one hsame hrest hbetween
      · have hskip : statingRows sameValue versionId (claim :: claims) e =
            statingRows sameValue versionId claims e :=
          (List.filter_cons ..).trans (if_neg (decide_eq_true_iff.not.mpr hstates))
        rw [hskip] at hfirst hlast
        exact ih hrest ((statingRows_putClaim_of_not hsame hclaim hstates).trans hnone)
          hfirst hlast

theorem exists_first_last {α : Type} {xs : List α} {x : α} (h : x ∈ xs) :
    ∃ first last, xs.head? = some first ∧ xs.getLast? = some last := by
  have hne : xs ≠ [] := List.ne_nil_of_mem h
  exact ⟨xs.head hne, xs.getLast hne, List.head?_eq_some_head hne, List.getLast?_eq_some_getLast hne⟩

/-- The row of a statement that a document makes. -/
theorem exists_statingRow (hsame : Comparison sameValue)
    (hnew : ∀ row ∈ rows, row.sourceItemId ≠ versionId)
    (hput : putClaims sameValue rows
      (claimsOf digest tenantId versionId source extractedAt extracted) = some out)
    (he : e ∈ extracted) :
    ∃ first last left, (repetitions sameValue extracted e).head? = some first ∧
      (repetitions sameValue extracted e).getLast? = some last ∧
      statingRows sameValue versionId out e = [left] ∧ LeftBy first last left := by
  have hmem : e ∈ repetitions sameValue extracted e :=
    List.mem_filter.mpr ⟨he, e.sameStatement_refl hsame⟩
  have hnone : statingRows sameValue versionId rows e = [] := by
    rw [statingRows, List.filter_eq_nil_iff]
    exact fun row hrow hstates => hnew row hrow (of_decide_eq_true hstates).1
  rw [← statingRows_claimsOf sameValue digest tenantId versionId source extractedAt extracted e]
    at hmem ⊢
  obtain ⟨c, hc, -⟩ := List.mem_map.mp hmem
  obtain ⟨first, last, hfirst, hlast⟩ := exists_first_last hc
  obtain ⟨left, hleft, hby⟩ := statingRows_putClaims hsame hput hnone hfirst hlast
  refine ⟨first.extraction, last.extraction, left, ?_, ?_, hleft, hby⟩
  · rw [List.head?_map, hfirst, Option.map_some]
  · rw [List.getLast?_map, hlast, Option.map_some]

/-- Every row of the version states something that the document says. -/
theorem exists_stated (hsame : Comparison sameValue)
    (hnew : ∀ row ∈ rows, row.sourceItemId ≠ versionId)
    (hput : putClaims sameValue rows
      (claimsOf digest tenantId versionId source extractedAt extracted) = some out)
    (hrow : row ∈ out) (hversion : row.sourceItemId = versionId) :
    ∃ e ∈ extracted, row ∈ statingRows sameValue versionId out e := by
  rcases (putClaims_identity hput).2 row hrow with ⟨old, hold, hid⟩ | ⟨new, hmem, hid⟩
  · exact absurd ((Claim.identity_eq_iff.mp hid).2.2.2.1.trans hversion) (hnew old hold)
  · obtain ⟨-, -, -, -, hfield, hvalue⟩ := Claim.identity_eq_iff.mp hid
    have hextracted : new.extraction ∈ extracted := by
      rw [← map_extraction_claimsOf digest tenantId versionId source extractedAt extracted]
      exact List.mem_map_of_mem hmem
    refine ⟨new.extraction, hextracted, List.mem_filter.mpr ⟨hrow, ?_⟩⟩
    refine decide_eq_true ⟨hversion, decide_eq_true ⟨hfield, ?_⟩⟩
    show sameValue new.value row.value = true
    rw [hvalue]
    exact hsame.refl row.value

/-- The row is no mixture exactly where the repetitions can be reconciled. -/
theorem unmixed_iff (hsame : Comparison sameValue) {first last : ExtractedClaim}
    (hfirst : (repetitions sameValue extracted e).head? = some first)
    (hlast : (repetitions sameValue extracted e).getLast? = some last)
    (hstates : e.sameStatement sameValue row.extraction) (hleft : LeftBy first last row) :
    Unmixed sameValue extracted row ↔ Reconcilable sameValue extracted e := by
  constructor
  · rintro ⟨c, hc, hrow, hconfidence, hevidence, hprecision⟩ first' last' hfirst' hlast'
    obtain rfl := Option.some_inj.mp (hfirst.symm.trans hfirst')
    obtain rfl := Option.some_inj.mp (hlast.symm.trans hlast')
    refine ⟨c, List.mem_filter.mpr ⟨hc, ?_⟩, hconfidence.symm.trans hleft.confidence,
      hevidence.symm.trans hleft.evidence, hprecision.symm.trans hleft.temporalPrecision⟩
    exact ExtractedClaim.sameStatement_trans hsame hstates
      (ExtractedClaim.sameStatement_symm hsame hrow)
  · intro h
    obtain ⟨c, hc, hconfidence, hevidence, hprecision⟩ := h first last hfirst hlast
    obtain ⟨hmem, hsays⟩ := List.mem_filter.mp hc
    refine ⟨c, hmem, ?_, hleft.confidence.trans hconfidence.symm,
      hleft.evidence.trans hevidence.symm, hleft.temporalPrecision.trans hprecision.symm⟩
    exact ExtractedClaim.sameStatement_trans hsame
      (ExtractedClaim.sameStatement_symm hsame hsays) hstates

/-- **Stored claims** of a version have one row for each statement, and are no mixtures exactly
where the repetitions of each statement can be reconciled. -/
theorem stored_unmixed_iff (digest : String → String) (tenantId versionId : String)
    (source : SourceItem) (extractedAt : ℕ → ℤ) (extracted : List ExtractedClaim)
    (rows out : List Claim) (sameValue : Json → Json → Bool)
    (hdatabase : sameValue = sqliteSameValue ∨ sameValue = postgresSameValue)
    (hnew : ∀ row ∈ rows, row.sourceItemId ≠ versionId)
    (hput : putClaims sameValue rows
      (claimsOf digest tenantId versionId source extractedAt extracted) = some out) :
    ((∀ row ∈ out, row.sourceItemId = versionId → Unmixed sameValue extracted row) ∧
        ∀ e ∈ extracted, (statingRows sameValue versionId out e).length = 1) ↔
      ∀ e ∈ extracted, Reconcilable sameValue extracted e := by
  have hsame : Comparison sameValue := by
    rcases hdatabase with rfl | rfl
    · exact comparison_sqlite
    · exact comparison_postgres
  constructor
  · rintro ⟨hunmixed, -⟩ e he
    obtain ⟨first, last, left, hfirst, hlast, hleft, hby⟩ := exists_statingRow hsame hnew hput he
    have hmem : left ∈ statingRows sameValue versionId out e := hleft ▸ List.mem_singleton_self left
    obtain ⟨hout, hstates⟩ := List.mem_filter.mp hmem
    obtain ⟨hversion, hstates⟩ := of_decide_eq_true hstates
    exact (unmixed_iff hsame hfirst hlast hstates hby).mp (hunmixed left hout hversion)
  · intro h
    refine ⟨fun row hrow hversion => ?_, fun e he => ?_⟩
    · obtain ⟨e, he, hmem⟩ := exists_stated hsame hnew hput hrow hversion
      obtain ⟨first, last, left, hfirst, hlast, hleft, hby⟩ := exists_statingRow hsame hnew hput he
      obtain rfl := List.mem_singleton.mp (hleft ▸ hmem)
      have hstates := (of_decide_eq_true (List.mem_filter.mp hmem).2).2
      exact (unmixed_iff hsame hfirst hlast hstates hby).mpr (h e he)
    · obtain ⟨_, _, left, _, _, hleft, _⟩ := exists_statingRow hsame hnew hput he
      rw [hleft, List.length_singleton]

/-- Repetitions with one precision can be reconciled. -/
theorem reconcilable_of_precision (h : ∀ c ∈ repetitions sameValue extracted e,
    c.temporalPrecision = e.temporalPrecision) : Reconcilable sameValue extracted e := by
  intro first last hfirst hlast
  have hmem := List.mem_of_getLast? hlast
  refine ⟨last, hmem, rfl, rfl, ?_⟩
  rw [h last hmem, h first (List.mem_of_mem_head? hfirst)]

/-! ### A deadline with and without its time -/

/-- The deadline, as the extractor reads it off a line without a time. -/
def bareDeadline : ExtractedClaim :=
  ⟨.applicationDeadline, .str "2026-09-30T23:59:00-04:00", 94 / 100,
    some "Applications are due September 30", some .date⟩

/-- The same deadline, off a line that says 11:59 PM. -/
def timedDeadline : ExtractedClaim :=
  ⟨.applicationDeadline, .str "2026-09-30T23:59:00-04:00", 94 / 100,
    some "Applications are due September 30 at 11:59 PM", some .dateTime⟩

/-- The claims of a page, all extracted at one time. -/
def deadlineClaims (extracted : List ExtractedClaim) : List Claim :=
  claimsOf id "t1" "v1" (StageRun.page "Applications are due September 30") (fun _ => 0) extracted

/-- A page that states its deadline once. -/
theorem stored_unmixed_bare :
    (∀ row ∈ deadlineClaims [bareDeadline], row.sourceItemId = "v1" →
        Unmixed sqliteSameValue [bareDeadline] row) ∧
      ∀ e ∈ [bareDeadline],
        (statingRows sqliteSameValue "v1" (deadlineClaims [bareDeadline]) e).length = 1 := by
  refine (stored_unmixed_iff id "t1" "v1" (StageRun.page "Applications are due September 30")
    (fun _ => 0) [bareDeadline] [] (deadlineClaims [bareDeadline]) sqliteSameValue (.inl rfl)
    (fun _ hrow => absurd hrow List.not_mem_nil) (by decide +kernel)).mpr ?_
  intro e he
  obtain rfl := List.mem_singleton.mp he
  exact reconcilable_of_precision (by decide +kernel)

/-- A page that states it both ways leaves the evidence of the second with the precision of the
first. -/
theorem stored_mixed :
    ¬ ∀ (digest : String → String) (tenantId versionId : String) (source : SourceItem)
      (extractedAt : ℕ → ℤ) (extracted : List ExtractedClaim) (rows out : List Claim),
      (∀ row ∈ rows, row.sourceItemId ≠ versionId) →
      putClaims sqliteSameValue rows
          (claimsOf digest tenantId versionId source extractedAt extracted) = some out →
        (∀ row ∈ out, row.sourceItemId = versionId → Unmixed sqliteSameValue extracted row) ∧
          ∀ e ∈ extracted, (statingRows sqliteSameValue versionId out e).length = 1 := by
  intro h
  have hput : ∃ out, putClaims sqliteSameValue [] (deadlineClaims [bareDeadline, timedDeadline]) =
      some out ∧ ∃ row ∈ out, row.sourceItemId = "v1" ∧
        row.evidence = timedDeadline.evidence ∧ row.temporalPrecision = some .date := by
    refine ⟨_, Option.eq_some_of_isSome (by decide +kernel), ?_⟩
    decide +kernel
  obtain ⟨out, hput, row, hrow, hversion, hevidence, hprecision⟩ := hput
  obtain ⟨e, he, -, -, hevidence', hprecision'⟩ := (h id "t1" "v1" _ (fun _ => 0) _ [] out
    (fun _ hrow => absurd hrow List.not_mem_nil) hput).1 row hrow hversion
  rw [hevidence] at hevidence'
  rw [hprecision] at hprecision'
  rcases List.mem_cons.mp he with rfl | hsecond
  · exact absurd hevidence' (by decide +kernel)
  · obtain rfl := List.mem_singleton.mp hsecond
    exact absurd hprecision' (by decide +kernel)

end RecruitingOs
