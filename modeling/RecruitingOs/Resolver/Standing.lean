import RecruitingOs.Resolver.Output
import RecruitingOs.Store.Overrides

/-!
# What the evidence says about an opportunity

Of an opportunity only the flag `stale`, and the explanation that repeats it, depends on the
`now` of the resolution.  A `Standing` is what the flag is read off: whether the evidence
closes the opportunity, and the date up to which it is open.  `resolved_standings` says that
the resolver computes the standings and then reads off the flags; `exists_standing` and
`exists_opportunity` that this stays so after the overrides for the opportunities that none
of them names.
-/

namespace RecruitingOs

/-- The date that an opportunity shows: the deadline of an application, the start of an
event. -/
def Opportunity.shownDate (o : Opportunity) : Option Json :=
  match o.kind with
  | .application => o.deadlineAt.map .str
  | .event => o.startsAt
  | .task => none

namespace Resolver

/-- What the evidence says about an opportunity, whatever the time is. -/
structure Standing where
  id : String
  kind : OpportunityKind
  closed : Bool
  /-- The time that is compared with `now`. -/
  date : Option ℤ
  shown : Option Json
deriving Repr, DecidableEq

namespace Standing

/-- The flag at a time. -/
def staleAt (st : Standing) (now : ℤ) : Bool := st.closed ∨ st.date.any (· < now)

/-- The opportunity shows the standing, with the flag of the time. -/
structure Shows (st : Standing) (o : Opportunity) (now : ℤ) : Prop where
  id : o.id = st.id
  kind : o.kind = st.kind
  stale : o.stale = st.staleAt now
  shownDate : o.shownDate = st.shown

/-- The evidence does not close the opportunity, and its date has passed in between. -/
def PassedSince (st : Standing) (since now : ℤ) : Prop :=
  st.closed = false ∧ ∃ d, st.date = some d ∧ since ≤ d ∧ d < now

/-- The time that the listed date denotes. -/
def listedTime (column : TextColumn) (getTime : Json → Option ℤ) (st : Standing) : Option ℤ :=
  (column.get st.shown).bind fun text => getTime (.str text)

/-- Where the listed date has passed, the flag says so. -/
def Legible (column : TextColumn) (getTime : Json → Option ℤ) (st : Standing) (now : ℤ) : Prop :=
  ∀ d, st.listedTime column getTime = some d → d < now → st.staleAt now = true

/-- The flag is the same at two times exactly if the date has not passed in between. -/
theorem staleAt_eq_iff {st : Standing} {since now : ℤ} (h : since ≤ now) :
    st.staleAt since = st.staleAt now ↔ ¬ st.PassedSince since now := by
  obtain ⟨id, kind, closed, date, shown⟩ := st
  unfold staleAt PassedSince
  cases closed with
  | true => simp
  | false =>
      cases date with
      | none => simp
      | some d =>
          have hbool : (decide (d < since) = decide (d < now)) ↔ ¬ (since ≤ d ∧ d < now) := by
            rw [decide_eq_decide]
            omega
          simpa using hbool

end Standing

section Parts

variable (getTime : Json → Option ℤ)

/-- The best-supported deadline. -/
def bestDeadline (view : View) (clock : Clock) : Option Claim :=
  (sortDescending (fun c => score (scores getTime view clock) (some c))
    (view.claims.filter fun c => c.field = .applicationDeadline)).head?

/-- The newest claim on whether applications are open. -/
def latestOpen (view : View) : Option Claim :=
  newest getTime (view.claims.filter fun c => c.field = .applicationOpen)

def latestOpenTime (view : View) : Option ℤ :=
  ((latestOpen getTime view).map (claimTime getTime)).getD (some 0)

def deadlineClaimTime (view : View) (clock : Clock) : Option ℤ :=
  ((bestDeadline getTime view clock).map (claimTime getTime)).getD (some 0)

def explicitlyClosed (view : View) (clock : Clock) : Bool :=
  (latestOpen getTime view).any (·.value = .bool false) ∧
    notBefore (latestOpenTime getTime view) (deadlineClaimTime getTime view clock)

def reopened (view : View) (clock : Clock) : Bool :=
  (latestOpen getTime view).any (·.value = .bool true) ∧
    after (latestOpenTime getTime view) (deadlineClaimTime getTime view clock)

/-- The deadline that the application shows; a newer opening suppresses it. -/
def shownDeadline (view : View) (clock : Clock) : Option String :=
  if reopened getTime view clock then none
  else (bestDeadline getTime view clock).map fun c => c.value.toText

/-- The application. -/
def applicationStanding (digest : String → String) (view : View) (clock : Clock)
    (orgId : String) : List Standing :=
  if (bestDeadline getTime view clock).isSome ∨ (latestOpen getTime view).isSome then
    [{  id := stableId digest "opp" (orgId ++ ":application")
        kind := .application
        closed := explicitlyClosed getTime view clock
        date := (shownDeadline getTime view clock).bind fun text => getTime (.str text)
        shown := (shownDeadline getTime view clock).map .str }]
  else []

/-- The event of a claim. -/
def eventStanding (digest : String → String) (orgId : String) (c : Claim) : Standing where
  id := stableId digest "opp" (orgId ++ ":event:" ++ eventKey c.value)
  kind := .event
  closed := false
  date := ((c.value.get? "startsAt").filter Json.truthy).bind getTime
  shown := c.value.get? "startsAt"

/-- The standings of all opportunities of an organization. -/
def standings (digest : String → String) (view : View) (clock : Clock) (orgId : String) :
    List Standing :=
  applicationStanding getTime digest view clock orgId ++
    (eventClaims view.claims).map (eventStanding getTime digest orgId)

end Parts

variable {getTime : Json → Option ℤ} {digest : String → String} {view : View} {clock : Clock}
  {orgId : String} {now : ℤ}

/-! ### The resolver computes the standings -/

theorem application_standing :
    List.Forall₂ (fun st o => Standing.Shows st o now)
      (applicationStanding getTime digest view clock orgId)
      (application getTime digest view clock orgId now) := by
  by_cases h : (bestDeadline getTime view clock).isSome ∨ (latestOpen getTime view).isSome
  · have happlication : application getTime digest view clock orgId now = [_] := if_pos h
    rw [applicationStanding, if_pos h, happlication]
    refine List.forall₂_cons.mpr ⟨⟨rfl, rfl, ?_, rfl⟩, .nil⟩
    -- a suppressed deadline is not compared, and its time is not part of the standing
    show decide (explicitlyClosed getTime view clock = true ∨
      (¬ reopened getTime view clock = true ∧
        (((bestDeadline getTime view clock).map fun c => c.value.toText).bind fun text =>
          getTime (.str text)).any (· < now) = true)) = _
    rw [Standing.staleAt, shownDeadline]
    cases reopened getTime view clock <;> simp
  · have happlication : application getTime digest view clock orgId now = [] := if_neg h
    rw [applicationStanding, if_neg h, happlication]
    exact .nil

theorem event_standing (table : List (String × Option ℚ)) (resolvedAt : ℤ) (c : Claim) :
    (eventStanding getTime digest orgId c).Shows
      (eventOpportunity getTime digest table orgId now resolvedAt c) now where
  id := rfl
  kind := rfl
  stale := by
    rw [Standing.staleAt, eventStanding, eventOpportunity]
    cases hstart : c.value.get? "startsAt" with
    | none => rfl
    | some startsAt => cases htruthy : startsAt.truthy <;> simp [Option.filter, htruthy]
  shownDate := rfl

/-- **The resolver reads the flags off the standings.** -/
theorem resolved_standings :
    List.Forall₂ (fun st o => Standing.Shows st o now)
      (standings getTime digest view clock orgId)
      (resolved getTime digest view clock orgId now) := by
  refine List.rel_append application_standing ?_
  generalize (application getTime digest view clock orgId now).length = first
  rw [← List.zipIdx_map_fst 0 (eventClaims view.claims), List.map_map, List.zipIdx_map_fst]
  refine List.forall₂_map_left_iff.mpr (List.forall₂_map_right_iff.mpr ?_)
  exact List.forall₂_same.mpr fun pair _ => event_standing _ _ pair.1

/-- The ids do not depend on the time either. -/
theorem standings_ids :
    (standings getTime digest view clock orgId).map Standing.id =
      (resolved getTime digest view clock orgId now).map Opportunity.id := by
  rw [← List.forall₂_eq_eq_eq, List.forall₂_map_left_iff, List.forall₂_map_right_iff]
  exact resolved_standings.imp fun _ _ hshows => hshows.id.symm

/-! ### What no override names -/

theorem exists_right_of_forall₂ {α β : Type} {R : α → β → Prop} {xs : List α} {ys : List β}
    (h : List.Forall₂ R xs ys) {x : α} (hx : x ∈ xs) : ∃ y ∈ ys, R x y := by
  induction h with
  | nil => cases hx
  | cons hfirst _ ih =>
      rcases List.mem_cons.mp hx with rfl | hrest
      · exact ⟨_, List.mem_cons_self, hfirst⟩
      · obtain ⟨y, hy, hrel⟩ := ih hrest
        exact ⟨y, List.mem_cons_of_mem _ hy, hrel⟩

theorem mem_applyOverride_iff {override : OpportunityOverride} {o : Opportunity}
    (h : override.opportunityId ≠ o.id) {out : List Opportunity} :
    o ∈ applyOverride out override ↔ o ∈ out := by
  induction out with
  | nil => exact Iff.rfl
  | cons first rest ih =>
      unfold applyOverride
      split
      · rename_i hid
        have hpatched : o ≠ applyPatch override first := by
          rintro rfl
          exact h hid.symm
        have hfirst : o ≠ first := by
          rintro rfl
          exact h hid.symm
        simp [hpatched, hfirst]
      · rw [List.mem_cons, List.mem_cons, ih]

theorem mem_foldl_applyOverride_iff {o : Opportunity} {overrides : List OpportunityOverride}
    (h : ∀ override ∈ overrides, override.opportunityId ≠ o.id) {out : List Opportunity} :
    o ∈ overrides.foldl applyOverride out ↔ o ∈ out := by
  induction overrides generalizing out with
  | nil => exact Iff.rfl
  | cons override rest ih =>
      rw [List.foldl_cons, ih fun other hother => h other (List.mem_cons_of_mem _ hother),
        mem_applyOverride_iff (h override List.mem_cons_self)]

/-- An opportunity that no override names shows its standing. -/
theorem exists_standing {o : Opportunity}
    (ho : o ∈ resolveOrganization getTime digest view clock orgId now)
    (h : ∀ override ∈ view.overrides, override.opportunityId ≠ o.id) :
    ∃ st ∈ standings getTime digest view clock orgId, st.Shows o now :=
  exists_right_of_forall₂ resolved_standings.flip ((mem_foldl_applyOverride_iff h).mp ho)

variable (now) in
/-- A standing that no override names is shown. -/
theorem exists_opportunity {st : Standing}
    (hst : st ∈ standings getTime digest view clock orgId)
    (h : ∀ override ∈ view.overrides, override.opportunityId ≠ st.id) :
    ∃ o ∈ resolveOrganization getTime digest view clock orgId now, st.Shows o now := by
  have hresolved : List.Forall₂ (fun st o => Standing.Shows st o now)
      (standings getTime digest view clock orgId)
      (resolved getTime digest view clock orgId now) := resolved_standings
  obtain ⟨o, ho, hshows⟩ := exists_right_of_forall₂ hresolved hst
  rw [← hshows.id] at h
  exact ⟨o, (mem_foldl_applyOverride_iff h).mpr ho, hshows⟩

/-- The output has distinct ids exactly if the standings do. -/
theorem resolveOrganization_ids_nodup_iff :
    ((resolveOrganization getTime digest view clock orgId now).map Opportunity.id).Nodup ↔
      ((standings getTime digest view clock orgId).map Standing.id).Nodup := by
  rw [standings_ids, resolveOrganization, map_foldl_applyOverride fun _ _ => rfl]

/-! ### The listing -/

/-- What is listed is the same opportunity with the date as text. -/
theorem listed_shownDate (column : TextColumn) (o : Opportunity) :
    (listedOpportunity column o).shownDate = (column.get o.shownDate).map .str := by
  obtain ⟨id, org, kind, title, deadlineAt, startsAt, url, confidence, stale, ids, explanation,
    resolvedAt, version, deadlinePrecision, startsAtPrecision⟩ := o
  cases kind with
  | application =>
      cases deadlineAt with
      | none => rfl
      | some text => simp [Opportunity.shownDate, listedOpportunity, TextColumn.get, column.read_str]
  | event => rfl
  | task => rfl

/-- A date that is a text is read as such. -/
theorem date_of_text {st : Standing} (hst : st ∈ standings getTime digest view clock orgId)
    {text : String} (hshown : st.shown = some (.str text)) (hne : text ≠ "") :
    st.date = getTime (.str text) := by
  rcases List.mem_append.mp hst with happlication | hevent
  · unfold applicationStanding at happlication
    split at happlication
    · rw [List.mem_singleton.mp happlication] at hshown ⊢
      obtain ⟨deadline, hdeadline, hsame⟩ := Option.map_eq_some_iff.mp hshown
      cases hsame
      dsimp only
      rw [hdeadline, Option.bind_some]
    · cases happlication
  · obtain ⟨c, -, rfl⟩ := List.mem_map.mp hevent
    have hstart : c.value.get? "startsAt" = some (.str text) := hshown
    have htruthy : (Json.str text).truthy = true := by simp [Json.truthy, hne]
    rw [eventStanding, hstart, Option.filter_some_pos htruthy, Option.bind_some]

/-- So it is listed as the resolver has read it. -/
theorem legible_of_text (column : TextColumn) {st : Standing}
    (hst : st ∈ standings getTime digest view clock orgId)
    (htext : ∀ value, st.shown = some value → ∃ text, value = .str text) :
    st.Legible column getTime now := by
  intro d hlisted hpassed
  obtain ⟨listed, hget, htime⟩ := Option.bind_eq_some_iff.mp hlisted
  obtain ⟨hread, hne⟩ := Option.filter_eq_some_iff.mp hget
  obtain ⟨value, hshown, hvalue⟩ := Option.bind_eq_some_iff.mp hread
  obtain ⟨text, rfl⟩ := htext value hshown
  rw [column.read_str, Option.some_inj] at hvalue
  subst hvalue
  have hdate := date_of_text hst hshown (of_decide_eq_true hne)
  rw [htime] at hdate
  simp [Standing.staleAt, hdate, hpassed]

end Resolver

end RecruitingOs
