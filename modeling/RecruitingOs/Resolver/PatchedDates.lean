import RecruitingOs.Resolver.Ties

/-!
# Dates that an override sets

`resolveOrganization` computes `stale` from the date in the claims and folds the overrides over the
result; a patch of the date leaves the flag as it is.  So an open opportunity says whether its date
has passed exactly where the last date that a reviewer has set lies on the side of `now` where the
date of the claims does (`stale_matches_iff`).
-/

namespace RecruitingOs

/-- The time of a date that an opportunity shows.  An empty start is no date. -/
def dateTime (getTime : Json → Option ℤ) : OpportunityKind → String → Option ℤ
  | .application, text => getTime (.str text)
  | .event, text => if text = "" then none else getTime (.str text)
  | .task, _ => none

/-- The time up to which an opportunity is current: the time of its deadline, or of its start. -/
def Opportunity.shownTime (getTime : Json → Option ℤ) (o : Opportunity) : Option ℤ :=
  match o.kind with
  | .application => o.deadlineAt.bind (dateTime getTime .application)
  | .event => (o.startsAt.filter Json.truthy).bind getTime
  | .task => none

/-- The date that a patch sets for a kind of opportunity. -/
def OpportunityPatch.date (patch : OpportunityPatch) : OpportunityKind → Option String
  | .application => patch.deadlineAt
  | .event => patch.startsAt
  | .task => none

namespace Resolver

/-- The last date that the overrides set for an opportunity. -/
def lastPatched (overrides : List OpportunityOverride) (id : String) (kind : OpportunityKind) :
    Option String :=
  ((overrides.filter fun override => override.opportunityId = id).filterMap
    fun override => override.patch.date kind).getLast?

/-- The opportunity was closed by an `application_open=false` claim. -/
def ClosedByClaim (getTime : Json → Option ℤ) (view : View) (clock : Clock) (o : Opportunity) :
    Prop :=
  o.kind = .application ∧ explicitlyClosed getTime view clock = true

/-- The flag matches the date. -/
def FlagMatches (getTime : Json → Option ℤ) (now : ℤ) (o : Opportunity) : Prop :=
  o.stale = true ↔ ∃ d, o.shownTime getTime = some d ∧ d < now

/-- An opportunity as it is computed from the claims, before the overrides. -/
structure Computed (getTime : Json → Option ℤ) (closed : Bool) (now : ℤ) (st : Standing)
    (o : Opportunity) : Prop where
  id : o.id = st.id
  kind : o.kind = st.kind
  stale : o.stale = st.staleAt now
  date : o.shownTime getTime = st.date
  closed : st.closed = true ↔ o.kind = .application ∧ closed = true

/-- The last date that the overrides set for the opportunity that they find with an id lies on the
side of `now` where the date of the claims does. -/
def SameSide (getTime : Json → Option ℤ) (now : ℤ) (overrides : List OpportunityOverride)
    (standings : List Standing) : Prop :=
  ∀ id st, standings.find? (fun st => st.id = id) = some st → st.closed = false →
    ∀ text, lastPatched overrides id st.kind = some text →
      ((dateTime getTime st.kind text).any (· < now) ↔ st.date.any (· < now))

variable {getTime : Json → Option ℤ} {digest : String → String} {view : View} {clock : Clock}
  {orgId : String} {now : ℤ} {kind : OpportunityKind} {o : Opportunity} {st : Standing}
  {override : OpportunityOverride} {overrides : List OpportunityOverride} {closed : Bool}
  {sts : List Standing} {out : List Opportunity}

/-! ### The claims -/

theorem application_computed :
    List.Forall₂ (Computed getTime (explicitlyClosed getTime view clock) now)
      (applicationStanding getTime digest view clock orgId)
      (application getTime digest view clock orgId now) := by
  have hshows : List.Forall₂ (fun st o => Standing.Shows st o now)
      (applicationStanding getTime digest view clock orgId)
      (application getTime digest view clock orgId now) := application_standing
  by_cases h : (bestDeadline getTime view clock).isSome ∨ (latestOpen getTime view).isSome
  · have happlication : application getTime digest view clock orgId now = [_] := if_pos h
    rw [applicationStanding, if_pos h, happlication] at hshows ⊢
    obtain ⟨hid, hkind, hstale, -⟩ := (List.forall₂_cons.mp hshows).1
    exact List.forall₂_cons.mpr ⟨⟨hid, hkind, hstale, rfl, by simp⟩, .nil⟩
  · have happlication : application getTime digest view clock orgId now = [] := if_neg h
    rw [applicationStanding, if_neg h, happlication]
    exact .nil

theorem event_computed (table : List (String × Option ℚ)) (resolvedAt : ℤ) (c : Claim) :
    Computed getTime closed now (eventStanding getTime digest orgId c)
      (eventOpportunity getTime digest table orgId now resolvedAt c) where
  id := rfl
  kind := rfl
  stale := (event_standing table resolvedAt c).stale
  date := rfl
  closed := by simp [eventStanding, eventOpportunity]

/-- The opportunities, as the claims determine them. -/
theorem resolved_computed :
    List.Forall₂ (Computed getTime (explicitlyClosed getTime view clock) now)
      (standings getTime digest view clock orgId)
      (resolved getTime digest view clock orgId now) := by
  refine List.rel_append application_computed ?_
  generalize (application getTime digest view clock orgId now).length = first
  rw [← List.zipIdx_map_fst 0 (eventClaims view.claims), List.map_map, List.zipIdx_map_fst]
  refine List.forall₂_map_left_iff.mpr (List.forall₂_map_right_iff.mpr ?_)
  exact List.forall₂_same.mpr fun pair _ => event_computed _ _ pair.1

/-! ### The overrides, one opportunity at a time -/

theorem foldl_applyOverride_nil (overrides : List OpportunityOverride) :
    overrides.foldl applyOverride [] = [] := by
  induction overrides with
  | nil => rfl
  | cons override overrides ih => exact ih

/-- The overrides of an id patch the first opportunity that has it, the others the rest. -/
theorem foldl_applyOverride_filter (overrides : List OpportunityOverride) (o : Opportunity)
    (rest : List Opportunity) :
    overrides.foldl applyOverride (o :: rest) = overrides.foldl patchById o ::
      (overrides.filter fun override => override.opportunityId ≠ o.id).foldl applyOverride rest := by
  induction overrides generalizing o rest with
  | nil => rfl
  | cons override overrides ih =>
      rw [List.foldl_cons, List.foldl_cons, applyOverride, patchById]
      by_cases hid : o.id = override.opportunityId
      · rw [if_pos hid, if_pos hid, ih, List.filter_cons_of_neg (by simp [hid])]
        rfl
      · rw [if_neg hid, if_neg hid, ih, List.filter_cons_of_pos (by simp [Ne.symm hid]),
          List.foldl_cons]

theorem patchById_id (o : Opportunity) (override : OpportunityOverride) :
    (patchById o override).id = o.id := by
  unfold patchById
  split
  · rfl
  · rfl

theorem patchById_kind (o : Opportunity) (override : OpportunityOverride) :
    (patchById o override).kind = o.kind := by
  unfold patchById
  split
  · rfl
  · rfl

theorem patchById_stale (h : override.patch.stale = none) (o : Opportunity) :
    (patchById o override).stale = o.stale := by
  unfold patchById
  split
  · rw [applyPatch, h, Option.getD_none]
  · rfl

/-- A patch of the date is what counts from then on. -/
theorem applyPatch_shownTime (o : Opportunity) (override : OpportunityOverride) :
    (applyPatch override o).shownTime getTime =
      (override.patch.date o.kind).elim (o.shownTime getTime) (dateTime getTime o.kind) := by
  unfold Opportunity.shownTime
  show (match o.kind with | .application => _ | .event => _ | .task => _) = _
  cases o.kind with
  | application =>
      show ((override.patch.deadlineAt.or o.deadlineAt).bind _) =
        override.patch.deadlineAt.elim _ _
      cases override.patch.deadlineAt with
      | none => rfl
      | some text => rfl
  | event =>
      show ((((override.patch.startsAt.map Json.str).or o.startsAt).filter Json.truthy).bind getTime)
        = override.patch.startsAt.elim _ _
      cases override.patch.startsAt with
      | none => rfl
      | some text =>
          rw [Option.map_some, Option.some_or, Option.elim_some, dateTime]
          by_cases hempty : text = ""
          · rw [if_pos hempty, Option.filter_some_neg (by simp [Json.truthy, hempty]),
              Option.bind_none]
          · rw [if_neg hempty, Option.filter_some_pos (by simp [Json.truthy, hempty]),
              Option.bind_some]
  | task => rfl

theorem lastPatched_cons (override : OpportunityOverride) (overrides : List OpportunityOverride)
    (id : String) (kind : OpportunityKind) :
    lastPatched (override :: overrides) id kind = (lastPatched overrides id kind).or
      (if override.opportunityId = id then override.patch.date kind else none) := by
  unfold lastPatched
  by_cases hid : override.opportunityId = id
  · rw [List.filter_cons, if_pos (decide_eq_true hid), if_pos hid]
    cases hdate : override.patch.date kind with
    | none => rw [List.filterMap_cons, hdate, Option.or_none]
    | some text =>
        rw [List.filterMap_cons, hdate, List.getLast?_cons]
        generalize List.getLast? _ = last
        cases last with
        | none => rfl
        | some _ => rfl
  · rw [List.filter_cons, if_neg (decide_eq_true_iff.not.mpr hid), if_neg hid, Option.or_none]

/-- The overrides of other opportunities are of no account. -/
theorem lastPatched_filter {id other : String} (h : id ≠ other) :
    lastPatched (overrides.filter fun override => override.opportunityId ≠ other) id kind =
      lastPatched overrides id kind := by
  unfold lastPatched
  rw [List.filter_filter]
  congr 3
  funext override
  by_cases hid : override.opportunityId = id
  · simp [hid, h]
  · simp [hid]

theorem lastPatched_filter_self {id : String} :
    lastPatched (overrides.filter fun override => override.opportunityId ≠ id) id kind = none := by
  have hnil : (overrides.filter fun override => override.opportunityId ≠ id).filter
      (fun override => override.opportunityId = id) = [] := by
    rw [List.filter_filter, List.filter_eq_nil_iff]
    intro override _
    simp
  unfold lastPatched
  rw [hnil]
  rfl

/-- **A run of overrides** leaves the flag alone and sets the last of the dates. -/
theorem foldl_patchById (getTime : Json → Option ℤ)
    (h : ∀ override ∈ overrides, override.patch.stale = none) (o : Opportunity) :
    (overrides.foldl patchById o).id = o.id ∧ (overrides.foldl patchById o).kind = o.kind ∧
      (overrides.foldl patchById o).stale = o.stale ∧
      (overrides.foldl patchById o).shownTime getTime =
        (lastPatched overrides o.id o.kind).elim (o.shownTime getTime)
          (dateTime getTime o.kind) := by
  induction overrides generalizing o with
  | nil => exact ⟨rfl, rfl, rfl, rfl⟩
  | cons override overrides ih =>
      obtain ⟨hid, hkind, hstale, htime⟩ :=
        ih (fun other hother => h other (List.mem_cons_of_mem _ hother)) (patchById o override)
      rw [patchById_id] at hid htime
      rw [patchById_kind] at hkind htime
      rw [patchById_stale (h override List.mem_cons_self)] at hstale
      refine ⟨hid, hkind, hstale, htime.trans ?_⟩
      rw [lastPatched_cons]
      cases lastPatched overrides o.id o.kind with
      | some text => rfl
      | none =>
          rw [Option.none_or, Option.elim_none, patchById]
          by_cases hnames : o.id = override.opportunityId
          · rw [if_pos hnames, if_pos hnames.symm, applyPatch_shownTime]
          · rw [if_neg hnames, if_neg (Ne.symm hnames), Option.elim_none]

/-! ### The flag and the date -/

theorem exists_lt_iff {d : Option ℤ} : (∃ t, d = some t ∧ t < now) ↔ d.any (· < now) = true := by
  cases d with
  | none => simp
  | some t => simp

/-- One opportunity: the flag is that of the claims, the date that of the last override. -/
theorem Computed.flagMatches_iff (hcomputed : Computed getTime closed now st o)
    (h : ∀ override ∈ overrides, override.patch.stale = none) :
    (¬ ((overrides.foldl patchById o).kind = .application ∧ closed = true) →
        FlagMatches getTime now (overrides.foldl patchById o)) ↔
      (st.closed = false → ∀ text, lastPatched overrides st.id st.kind = some text →
        ((dateTime getTime st.kind text).any (· < now) ↔ st.date.any (· < now))) := by
  obtain ⟨-, hkind, hstale, htime⟩ := foldl_patchById getTime h o
  unfold FlagMatches
  rw [exists_lt_iff, hkind, hstale, htime, ← hcomputed.closed, Bool.not_eq_true,
    hcomputed.stale, hcomputed.id, hcomputed.date, hcomputed.kind]
  refine forall_congr' fun hopen => ?_
  have hflag : st.staleAt now = st.date.any (· < now) := by
    unfold Standing.staleAt
    simp [hopen]
  rw [hflag]
  cases lastPatched overrides st.id st.kind with
  | none => simp
  | some text => simp [iff_comm]

/-- The opportunities of a list, in the order in which the overrides look for them. -/
theorem flagMatches_iff (hcomputed : List.Forall₂ (Computed getTime closed now) sts out)
    (h : ∀ override ∈ overrides, override.patch.stale = none) :
    (∀ o ∈ overrides.foldl applyOverride out, ¬ (o.kind = .application ∧ closed = true) →
        FlagMatches getTime now o) ↔ SameSide getTime now overrides sts := by
  induction hcomputed generalizing overrides with
  | nil =>
      rw [foldl_applyOverride_nil]
      constructor
      · intro _ id st hfound
        cases hfound
      · intro _ o ho
        cases ho
  | @cons st o sts out hfirst _ ih =>
      rw [foldl_applyOverride_filter, List.forall_mem_cons, hfirst.flagMatches_iff h,
        ih fun override hmem => h override (List.mem_of_mem_filter hmem), hfirst.id]
      unfold SameSide
      constructor
      · rintro ⟨hhead, hrest⟩ id found hfound hopen text htext
        by_cases hid : st.id = id
        · rw [List.find?_cons_of_pos (by exact decide_eq_true hid), Option.some_inj] at hfound
          subst hfound hid
          exact hhead hopen text htext
        · rw [List.find?_cons_of_neg (by exact decide_eq_true_iff.not.mpr hid)] at hfound
          exact hrest id found hfound hopen text (by rwa [lastPatched_filter (Ne.symm hid)])
      · intro hall
        refine ⟨fun hopen => hall st.id st (List.find?_cons_of_pos (by exact decide_eq_true rfl)) hopen, ?_⟩
        intro id found hfound hopen text htext
        by_cases hid : st.id = id
        · subst hid
          rw [lastPatched_filter_self] at htext
          cases htext
        · rw [lastPatched_filter (Ne.symm hid)] at htext
          exact hall id found
            (by rwa [List.find?_cons_of_neg (by exact decide_eq_true_iff.not.mpr hid)]) hopen text htext

/-- **The flag matches the date** of every opportunity that no claim closes exactly where no
reviewer has moved a date to the other side of `now`. -/
theorem stale_matches_iff (getTime : Json → Option ℤ) (digest : String → String) (view : View)
    (clock : Clock) (orgId : String) (now : ℤ)
    (h : ∀ override ∈ view.overrides, override.patch.stale = none) :
    (∀ o ∈ resolveOrganization getTime digest view clock orgId now,
        ¬ ClosedByClaim getTime view clock o → FlagMatches getTime now o) ↔
      SameSide getTime now view.overrides (standings getTime digest view clock orgId) :=
  flagMatches_iff resolved_computed h

/-! ### A deadline that a reviewer moves -/

/-- The times of the example: the deadline, and the one that the reviewer knows of. -/
def extendedTimes : Json → Option ℤ
  | .str "2026-09-01" => some 1788220800000
  | .str "2026-09-10" => some 1788998400000
  | .str "2026-10-02T17:00:00-04:00" => some 1790974800000
  | _ => none

/-- A reviewer sets the deadline and does not say whether it has passed. -/
def extension : OpportunityOverride where
  id := "override-1"
  tenantId := "t1"
  opportunityId := stableId id "opp" "club:application"
  organizationId := "club"
  actorId := some "reviewer-1"
  patch := ⟨none, some "2026-10-02T17:00:00-04:00", none, none, none⟩
  reason := "Confirmed directly with the organization president."
  createdAt := "2026-09-20T12:00:00.000Z"

/-- One post with a deadline. -/
def extendedView (deadline : String) : View where
  claims := [postClaim "c1" "post" .applicationDeadline (.str deadline) "2026-09-01"]
  sourceType _ := some .website
  overrides := [extension]

/-- Before the deadline of the post, the reviewer may set a later one. -/
theorem stale_matches_extended :
    SameSide extendedTimes 1788220800000 (extendedView "2026-09-10").overrides
        (standings extendedTimes id (extendedView "2026-09-10") (.at 1788220800000) "club") ∧
      ∀ o ∈ resolveOrganization extendedTimes id (extendedView "2026-09-10") (.at 1788220800000)
          "club" 1788220800000,
        ¬ ClosedByClaim extendedTimes (extendedView "2026-09-10") (.at 1788220800000) o →
          FlagMatches extendedTimes 1788220800000 o := by
  have hstandings : standings extendedTimes id (extendedView "2026-09-10") (.at 1788220800000)
      "club" = [⟨stableId id "opp" "club:application", .application, false, some 1788998400000,
        some (.str "2026-09-10")⟩] := by decide +kernel
  have hlast : lastPatched (extendedView "2026-09-10").overrides
      (stableId (fun text => text) "opp" "club:application") .application =
        some "2026-10-02T17:00:00-04:00" := by decide +kernel
  have hsame : SameSide extendedTimes 1788220800000 (extendedView "2026-09-10").overrides
      (standings extendedTimes id (extendedView "2026-09-10") (.at 1788220800000) "club") := by
    rw [hstandings]
    intro id st hfound hopen text htext
    obtain rfl := List.mem_singleton.mp (List.mem_of_find?_eq_some hfound)
    have hid := List.find?_some hfound
    obtain rfl := of_decide_eq_true hid
    obtain rfl := Option.some_inj.mp (hlast.symm.trans htext)
    decide +kernel
  exact ⟨hsame, (stale_matches_iff extendedTimes id (extendedView "2026-09-10") (.at 1788220800000)
    "club" 1788220800000 (by decide +kernel)).mpr hsame⟩

/-- After it, the later deadline is shown as past. -/
theorem stale_not_matches :
    ¬ ∀ (getTime : Json → Option ℤ) (digest : String → String) (view : View) (clock : Clock)
      (orgId : String) (now : ℤ), (∀ override ∈ view.overrides, override.patch.stale = none) →
      ∀ o ∈ resolveOrganization getTime digest view clock orgId now,
        ¬ ClosedByClaim getTime view clock o → FlagMatches getTime now o := by
  intro h
  have hmatches := h extendedTimes id (extendedView "2026-09-10") (.at 1789862400000) "club"
    1789862400000 (by decide +kernel)
  have hshown : ∃ o ∈ resolveOrganization extendedTimes id (extendedView "2026-09-10")
      (.at 1789862400000) "club" 1789862400000, o.kind = .application ∧ o.stale = true ∧
        o.shownTime extendedTimes = some 1790974800000 := by decide +kernel
  obtain ⟨o, ho, hkind, hstale, htime⟩ := hshown
  have hopen : ¬ ClosedByClaim extendedTimes (extendedView "2026-09-10") (.at 1789862400000) o :=
    fun hclosed => absurd hclosed.2 (by decide +kernel)
  obtain ⟨d, hd, hpassed⟩ := (hmatches o ho hopen).mp hstale
  obtain rfl := Option.some_inj.mp (htime.symm.trans hd)
  exact absurd hpassed (by decide)

end Resolver

end RecruitingOs
