import Mathlib
import RecruitingOs.Ingest.Model
import RecruitingOs.Lib.OrderBy
import RecruitingOs.Resolver.Aging

/-!
# Ties

`listClaims` sorts by `coalesce(published_at,extracted_at)` and leaves the order of claims with one
time open, and the claims of an ingest are stamped with the clock one by one.  What the application
shows depends on neither where the claims that tie for the first place agree, and where an ingest
does not contradict itself (`application_steady`).
-/

namespace RecruitingOs

/-- The flag, the deadline and the link of an opportunity. -/
structure ApplicationFields where
  stale : Bool
  deadlineAt : Option String
  url : Option Json
deriving DecidableEq

def Opportunity.applicationFields (o : Opportunity) : ApplicationFields :=
  ⟨o.stale, o.deadlineAt, o.url⟩

/-- `coalesce(published_at,extracted_at)`. -/
def Claim.coalesced (c : Claim) : String := c.publishedAt.getD c.extractedAt

/-- What the claim says about applications being open, if it says anything. -/
def Claim.announces (c : Claim) : Option Bool :=
  match c.value with
  | .bool announced => some announced
  | _ => none

/-- `listClaims` answers with the rows in some order that its `order by` admits. -/
abbrev Listed (rows listed : List Claim) : Prop := Listing.OrderedBy Claim.coalesced rows listed

namespace Resolver

/-- The fields of the application opportunity in the output. -/
def applicationFields (out : List Opportunity) : List ApplicationFields :=
  (out.filter fun o => o.kind = .application).map Opportunity.applicationFields

/-- What `resolveOrganization` computes for the application from the claims that were listed, all
of them scored at one reading of the clock. -/
def resolvedFields (getTime : Json → Option ℤ) (digest : String → String)
    (sourceType : String → Option SourceType) (overrides : List OpportunityOverride)
    (orgId : String) (t now : ℤ) (listed : List Claim) : List ApplicationFields :=
  applicationFields
    (resolveOrganization getTime digest ⟨listed, sourceType, overrides⟩ (.at t) orgId now)

/-- The rows of a field. -/
def fieldRows (field : ClaimField) (rows : List Claim) : List Claim :=
  rows.filter fun c => c.field = field

/-- The first of the claims of a field with the highest score. -/
def leading (getTime : Json → Option ℤ) (sourceType : String → Option SourceType) (t : ℤ)
    (field : ClaimField) (listed : List Claim) : Option Claim :=
  Leader.leader (Leader.byScore (scoreClaim getTime sourceType t)) (fieldRows field listed)

/-- `getTime()` of the newest-first comparison. -/
def timeScore (getTime : Json → Option ℤ) (c : Claim) : Option ℚ :=
  (claimTime getTime c).map fun t => (t : ℚ)

/-- Rows that tie for the first place agree: in whatever order they are listed, a row with the time
and the score of the one that leads says the same. -/
def TiesAgree {α : Type} (score : Claim → Option ℚ) (meaning : Claim → α) (rows : List Claim) :
    Prop :=
  ∀ listed, Listed rows listed → ∀ a, Leader.leader (Leader.byScore score) listed = some a →
    ∀ b ∈ rows, b.coalesced = a.coalesced → score b = score a → meaning b = meaning a

variable {getTime : Json → Option ℤ} {digest : String → String} {view view' : View}
  {clock clock' : Clock} {sourceType : String → Option SourceType}
  {overrides : List OpportunityOverride} {orgId : String} {t now : ℤ} {field : ClaimField}
  {rows rows' listed listed' : List Claim} {a b c : Claim}

/-- What the database lists. -/
theorem listed_listClaims (db : Database) (orgId tenantId : String) :
    Listed (db.claims.filter fun c => c.tenantId = tenantId ∧ c.organizationId = orgId)
      (db.listClaims orgId tenantId) := by
  let before (a b : Claim) : Prop := a.coalesced ≤ b.coalesced
  have : Std.Total before := ⟨fun a b => le_total a.coalesced b.coalesced⟩
  have : IsTrans Claim before := ⟨fun _ _ _ => le_trans⟩
  exact ⟨List.perm_insertionSort before _, List.pairwise_insertionSort before _⟩

theorem claimTime_eq (c : Claim) : claimTime getTime c = getTime (.str c.coalesced) := rfl

theorem claimTime_congr (h : a.coalesced = b.coalesced) :
    claimTime getTime a = claimTime getTime b := by
  rw [claimTime_eq, claimTime_eq, h]

/-- Whether a score is missing depends on the time only. -/
theorem isSome_scoreClaim (h : a.coalesced = b.coalesced) :
    (scoreClaim getTime sourceType t a).isSome = (scoreClaim getTime sourceType t b).isSome := by
  unfold scoreClaim
  rw [Option.isSome_map, Option.isSome_map, claimTime_congr h]

theorem isSome_timeScore (h : a.coalesced = b.coalesced) :
    (timeScore getTime a).isSome = (timeScore getTime b).isSome := by
  unfold timeScore
  rw [claimTime_congr h]

theorem listed_fieldRows (h : Listed rows listed) :
    Listed (fieldRows field rows) (fieldRows field listed) :=
  ⟨h.1.filter _, h.2.filter _⟩

/-! ### The overrides -/

/-- One patch, by the id. -/
def patchById (o : Opportunity) (override : OpportunityOverride) : Opportunity :=
  if o.id = override.opportunityId then applyPatch override o else o

/-- The overrides patch the first opportunity for itself. -/
theorem foldl_applyOverride_cons (overrides : List OpportunityOverride) (o : Opportunity)
    (rest : List Opportunity) :
    ∃ rest', overrides.foldl applyOverride (o :: rest) = overrides.foldl patchById o :: rest' ∧
      rest'.map Opportunity.kind = rest.map Opportunity.kind := by
  induction overrides generalizing o rest with
  | nil => exact ⟨rest, rfl, rfl⟩
  | cons override overrides ih =>
      rw [List.foldl_cons, List.foldl_cons]
      by_cases hid : o.id = override.opportunityId
      · rw [applyOverride, if_pos hid, patchById, if_pos hid]
        exact ih _ _
      · rw [applyOverride, if_neg hid, patchById, if_neg hid]
        obtain ⟨rest', heq, hkind⟩ := ih o (applyOverride rest override)
        exact ⟨rest', heq, hkind.trans (map_applyOverride (fun _ _ => rfl) rest override)⟩

/-- Two opportunities with one id, one kind and the same fields. -/
def SameFields (o o' : Opportunity) : Prop :=
  o.id = o'.id ∧ o.kind = o'.kind ∧ o.applicationFields = o'.applicationFields

theorem SameFields.patchById {o o' : Opportunity} (h : SameFields o o')
    (override : OpportunityOverride) :
    SameFields (patchById o override) (patchById o' override) := by
  obtain ⟨hid, hkind, hfields⟩ := h
  obtain ⟨hstale, hdeadline, hurl⟩ := ApplicationFields.mk.inj hfields
  unfold Resolver.patchById
  rw [hid]
  split
  · refine ⟨hid, hkind, ?_⟩
    unfold applyPatch Opportunity.applicationFields
    rw [hstale, hdeadline, hurl]
  · exact ⟨hid, hkind, hfields⟩

theorem SameFields.foldl {o o' : Opportunity} (h : SameFields o o')
    (overrides : List OpportunityOverride) :
    SameFields (overrides.foldl Resolver.patchById o) (overrides.foldl Resolver.patchById o') := by
  induction overrides generalizing o o' with
  | nil => exact h
  | cons override overrides ih => exact ih (h.patchById override)

/-- Events have none of the fields. -/
theorem applicationFields_of_kinds {out : List Opportunity}
    (h : ∀ kind ∈ out.map Opportunity.kind, kind ≠ .application) : applicationFields out = [] := by
  unfold applicationFields
  rw [List.filter_eq_nil_iff.mpr, List.map_nil]
  intro o ho
  exact decide_eq_true_iff.not.mpr (h o.kind (List.mem_map_of_mem ho))

theorem applicationFields_cons {o : Opportunity} {rest : List Opportunity}
    (h : ∀ kind ∈ rest.map Opportunity.kind, kind ≠ .application) :
    applicationFields (o :: rest) =
      if o.kind = .application then [o.applicationFields] else [] := by
  have hrest := applicationFields_of_kinds h
  unfold applicationFields at hrest ⊢
  by_cases hkind : o.kind = .application
  · rw [List.filter_cons, if_pos (decide_eq_true hkind), List.map_cons, hrest, if_pos hkind]
  · rw [List.filter_cons, if_neg (decide_eq_true_iff.not.mpr hkind), hrest, if_neg hkind]

/-- **Overrides** do not tell apart two outputs that start with the same fields. -/
theorem applicationFields_foldl {o o' : Opportunity} {rest rest' : List Opportunity}
    (h : SameFields o o') (hrest : ∀ kind ∈ rest.map Opportunity.kind, kind ≠ .application)
    (hrest' : ∀ kind ∈ rest'.map Opportunity.kind, kind ≠ .application) :
    applicationFields (overrides.foldl applyOverride (o :: rest)) =
      applicationFields (overrides.foldl applyOverride (o' :: rest')) := by
  obtain ⟨out, hout, hkinds⟩ := foldl_applyOverride_cons overrides o rest
  obtain ⟨out', hout', hkinds'⟩ := foldl_applyOverride_cons overrides o' rest'
  obtain ⟨-, hkind, hfields⟩ := h.foldl overrides
  rw [hout, hout', applicationFields_cons (hkinds ▸ hrest),
    applicationFields_cons (hkinds' ▸ hrest'), hkind, hfields]

/-! ### What the application shows -/

/-- The link claim that leads. -/
def bestUrl (getTime : Json → Option ℤ) (view : View) (clock : Clock) : Option Claim :=
  (sortDescending (fun c => score (scores getTime view clock) (some c))
    (view.claims.filter fun c => c.field = .applicationUrl)).head?

/-- Two views show the same application: they agree on whether there is one, on what closes it, on
the deadline that it shows, and on the link. -/
structure SameApplication (getTime : Json → Option ℤ) (view view' : View) (clock clock' : Clock) :
    Prop where
  deadline : (bestDeadline getTime view clock).isSome = (bestDeadline getTime view' clock').isSome
  opening : (latestOpen getTime view).isSome = (latestOpen getTime view').isSome
  closed : explicitlyClosed getTime view clock = explicitlyClosed getTime view' clock'
  shown : shownDeadline getTime view clock = shownDeadline getTime view' clock'
  url : (bestUrl getTime view clock).map (fun c => c.value.toText) =
    (bestUrl getTime view' clock').map fun c => c.value.toText

/-- The fields, read off the standing of the application. -/
def shownFields (getTime : Json → Option ℤ) (view : View) (clock : Clock) (now : ℤ) :
    ApplicationFields where
  stale := explicitlyClosed getTime view clock ∨
    ((shownDeadline getTime view clock).bind fun text => getTime (.str text)).any (· < now)
  deadlineAt := shownDeadline getTime view clock
  url := ((bestUrl getTime view clock).map fun c => c.value.toText).map .str

theorem application_eq_nil (hdeadline : (bestDeadline getTime view clock).isSome = false)
    (hopening : (latestOpen getTime view).isSome = false) :
    application getTime digest view clock orgId now = [] := by
  refine if_neg ?_
  rintro (h | h)
  · exact Bool.false_ne_true (hdeadline.symm.trans h)
  · exact Bool.false_ne_true (hopening.symm.trans h)

/-- The application, if there is one. -/
theorem application_eq_singleton (digest : String → String) (orgId : String) (now : ℤ)
    (h : (bestDeadline getTime view clock).isSome = true ∨
      (latestOpen getTime view).isSome = true) :
    ∃ o, application getTime digest view clock orgId now = [o] ∧
      o.id = stableId digest "opp" (orgId ++ ":application") ∧ o.kind = .application ∧
      o.applicationFields = shownFields getTime view clock now := by
  refine ⟨_, if_pos h, rfl, rfl, ?_⟩
  refine ApplicationFields.mk.injEq _ _ _ _ _ _ ▸ ⟨?_, rfl, ?_⟩
  · show decide (explicitlyClosed getTime view clock = true ∨
      (¬ reopened getTime view clock = true ∧
        (((bestDeadline getTime view clock).map fun c => c.value.toText).bind fun text =>
          getTime (.str text)).any (· < now) = true)) =
      decide (explicitlyClosed getTime view clock = true ∨
        ((shownDeadline getTime view clock).bind fun text =>
          getTime (.str text)).any (· < now) = true)
    unfold shownDeadline
    cases reopened getTime view clock with
    | true => simp
    | false => simp
  · show (bestUrl getTime view clock).map (fun c => Json.str c.value.toText) =
      ((bestUrl getTime view clock).map fun c => c.value.toText).map .str
    rw [Option.map_map]
    rfl

theorem kinds_of_events (events : List (Claim × ℕ)) (f : ℕ → ℤ) (table : List (String × Option ℚ)) :
    ∀ kind ∈ (events.map fun pair =>
      eventOpportunity getTime digest table orgId now (f pair.2) pair.1).map Opportunity.kind,
      kind ≠ .application := by
  intro kind hkind
  obtain ⟨o, ho, rfl⟩ := List.mem_map.mp hkind
  obtain ⟨pair, -, rfl⟩ := List.mem_map.mp ho
  exact OpportunityKind.noConfusion

/-- Without an application, no override makes one. -/
theorem applicationFields_of_none (h : application getTime digest view clock orgId now = []) :
    applicationFields (resolveOrganization getTime digest view clock orgId now) = [] := by
  refine applicationFields_of_kinds ?_
  rw [resolveOrganization, map_foldl_applyOverride (fun _ _ => rfl)]
  unfold resolved
  dsimp only
  rw [h, List.nil_append]
  exact kinds_of_events _ (fun j => clock.resolvedAt ([].length + j)) _

/-- **The same application** has the same fields after the same overrides. -/
theorem applicationFields_congr (h : SameApplication getTime view view' clock clock')
    (hoverrides : view.overrides = view'.overrides) :
    applicationFields (resolveOrganization getTime digest view clock orgId now) =
      applicationFields (resolveOrganization getTime digest view' clock' orgId now) := by
  by_cases hsome : (bestDeadline getTime view clock).isSome = true ∨
      (latestOpen getTime view).isSome = true
  · obtain ⟨o, ho, hid, hkind, hfields⟩ := application_eq_singleton digest orgId now hsome
    rw [h.deadline, h.opening] at hsome
    obtain ⟨o', ho', hid', hkind', hfields'⟩ := application_eq_singleton digest orgId now hsome
    have hsame : SameFields o o' := by
      refine ⟨hid.trans hid'.symm, hkind.trans hkind'.symm, ?_⟩
      rw [hfields, hfields']
      unfold shownFields
      rw [h.closed, h.shown, h.url]
    unfold resolveOrganization resolved
    dsimp only
    rw [ho, ho', hoverrides]
    exact applicationFields_foldl hsame
      (kinds_of_events _ (fun j => clock.resolvedAt ([o].length + j)) _)
      (kinds_of_events _ (fun j => clock'.resolvedAt ([o'].length + j)) _)
  · obtain ⟨hdeadline, hopening⟩ := not_or.mp hsome
    rw [Bool.not_eq_true] at hdeadline hopening
    rw [applicationFields_of_none (application_eq_nil hdeadline hopening),
      applicationFields_of_none
        (application_eq_nil (h.deadline ▸ hdeadline) (h.opening ▸ hopening))]

/-! ### Listings of the same rows -/

theorem head?_ranked (overrides : List OpportunityOverride) (hids : (listed.map Claim.id).Nodup) :
    (sortDescending
      (fun c => score (scores getTime ⟨listed, sourceType, overrides⟩ (.at t)) (some c))
      (fieldRows field listed)).head? = leading getTime sourceType t field listed := by
  refine (head?_sortDescending _ _).trans (Leader.leader_congr fun a ha b hb => ?_)
  have hscore : ∀ c ∈ fieldRows field listed,
      score (scores getTime ⟨listed, sourceType, overrides⟩ (.at t)) (some c) =
        scoreClaim getTime sourceType t c := by
    intro c hc
    exact score_still hids (List.mem_filter.mp hc).1
  rw [hscore a ha, hscore b hb]
  rfl

theorem bestDeadline_listed (overrides : List OpportunityOverride)
    (hids : (listed.map Claim.id).Nodup) :
    bestDeadline getTime ⟨listed, sourceType, overrides⟩ (.at t) =
      leading getTime sourceType t .applicationDeadline listed :=
  head?_ranked overrides hids

theorem bestUrl_listed (overrides : List OpportunityOverride) (hids : (listed.map Claim.id).Nodup) :
    bestUrl getTime ⟨listed, sourceType, overrides⟩ (.at t) =
      leading getTime sourceType t .applicationUrl listed :=
  head?_ranked overrides hids

theorem latestOpen_listed (sourceType : String → Option SourceType)
    (overrides : List OpportunityOverride) : latestOpen getTime ⟨listed, sourceType, overrides⟩ =
    Leader.leader (Leader.byScore (timeScore getTime)) (fieldRows .applicationOpen listed) :=
  head?_sortDescending _ _

/-- **Ties that agree**: the leaders of two listings mean the same and have the same time. -/
theorem TiesAgree.leaders {α : Type} {score : Claim → Option ℚ} {meaning : Claim → α}
    (h : TiesAgree score meaning rows)
    (hscore : ∀ a b : Claim, a.coalesced = b.coalesced → (score a).isSome = (score b).isSome)
    (hlisted : Listed rows listed) (hlisted' : Listed rows listed') :
    (Leader.leader (Leader.byScore score) listed).map meaning =
        (Leader.leader (Leader.byScore score) listed').map meaning ∧
      (Leader.leader (Leader.byScore score) listed).map Claim.coalesced =
        (Leader.leader (Leader.byScore score) listed').map Claim.coalesced := by
  have htied : Leader.TiedLeaders Claim.coalesced score listed listed' :=
    Leader.tiedLeaders_of_sorted (hlisted.1.trans hlisted'.1.symm) hlisted.2 hlisted'.2
      fun a _ b _ => hscore a b
  unfold Leader.TiedLeaders at htied
  cases hfirst : Leader.leader (Leader.byScore score) listed with
  | none =>
      rw [hfirst] at htied
      generalize Leader.leader (Leader.byScore score) listed' = second at htied
      cases htied with
      | none => exact ⟨rfl, rfl⟩
  | some a =>
      have hagree := h listed hlisted a hfirst
      rw [hfirst] at htied
      cases hsecond : Leader.leader (Leader.byScore score) listed' with
      | none =>
          rw [hsecond] at htied
          cases htied
      | some b =>
          have hb := hlisted'.1.subset (Leader.mem_of_leader hsecond)
          rw [hsecond] at htied
          cases htied with
          | some hties =>
              refine ⟨?_, congrArg some hties.1⟩
              exact congrArg some (hagree b hb hties.1.symm hties.2.symm).symm

theorem any_value_eq (opening : Option Claim) (announced : Bool) :
    opening.any (·.value = .bool announced) =
      decide ((opening.map Claim.announces).join = some announced) := by
  cases opening with
  | none => rfl
  | some c =>
      show decide (c.value = .bool announced) = decide (c.announces = some announced)
      unfold Claim.announces
      cases c.value with
      | bool b => simp
      | _ => rfl

/-- The standing depends on what the two leading claims say, and when. -/
theorem closed_and_reopened_congr
    (hdeadline : (bestDeadline getTime view clock).map Claim.coalesced =
      (bestDeadline getTime view' clock').map Claim.coalesced)
    (hopening : (latestOpen getTime view).map Claim.coalesced =
      (latestOpen getTime view').map Claim.coalesced)
    (hannounces : (latestOpen getTime view).map Claim.announces =
      (latestOpen getTime view').map Claim.announces) :
    explicitlyClosed getTime view clock = explicitlyClosed getTime view' clock' ∧
      reopened getTime view clock = reopened getTime view' clock' := by
  have htime : ∀ best best' : Option Claim, best.map Claim.coalesced = best'.map Claim.coalesced →
      best.map (claimTime getTime) = best'.map (claimTime getTime) := by
    intro best best' h
    have hmap : ∀ x : Option Claim, x.map (claimTime getTime) =
        (x.map Claim.coalesced).map fun text => getTime (.str text) := fun x => by
      rw [Option.map_map]
      rfl
    rw [hmap, hmap, h]
  unfold explicitlyClosed reopened latestOpenTime deadlineClaimTime
  rw [any_value_eq, any_value_eq, any_value_eq, any_value_eq, hannounces, htime _ _ hdeadline,
    htime _ _ hopening]
  exact ⟨rfl, rfl⟩

theorem isSome_of_map_eq {α β : Type} {f : α → β} {x y : Option α} (h : x.map f = y.map f) :
    x.isSome = y.isSome := by
  rw [← Option.isSome_map (f := f), h, Option.isSome_map]

/-- The rows that decide the application agree where they tie. -/
structure ApplicationTiesAgree (getTime : Json → Option ℤ) (sourceType : String → Option SourceType)
    (t : ℤ) (rows : List Claim) : Prop where
  deadline : TiesAgree (scoreClaim getTime sourceType t) (fun c => c.value.toText)
    (fieldRows .applicationDeadline rows)
  url : TiesAgree (scoreClaim getTime sourceType t) (fun c => c.value.toText)
    (fieldRows .applicationUrl rows)
  opening : TiesAgree (timeScore getTime) Claim.announces (fieldRows .applicationOpen rows)

/-- **Order.**  Two listings of the same rows show the same application. -/
theorem sameApplication_of_listed (hids : (rows.map Claim.id).Nodup)
    (h : ApplicationTiesAgree getTime sourceType t rows) (hlisted : Listed rows listed)
    (hlisted' : Listed rows listed') :
    SameApplication getTime ⟨listed, sourceType, overrides⟩ ⟨listed', sourceType, overrides⟩
      (.at t) (.at t) := by
  have hids1 : (listed.map Claim.id).Nodup := (hlisted.1.map Claim.id).nodup_iff.mpr hids
  have hids2 : (listed'.map Claim.id).Nodup := (hlisted'.1.map Claim.id).nodup_iff.mpr hids
  have hleads : ∀ field, TiesAgree (scoreClaim getTime sourceType t) (fun c => c.value.toText)
      (fieldRows field rows) →
      (leading getTime sourceType t field listed).map (fun c => c.value.toText) =
          (leading getTime sourceType t field listed').map (fun c => c.value.toText) ∧
        (leading getTime sourceType t field listed).map Claim.coalesced =
          (leading getTime sourceType t field listed').map Claim.coalesced := fun field hties =>
    hties.leaders (fun _ _ => isSome_scoreClaim) (listed_fieldRows hlisted)
      (listed_fieldRows hlisted')
  obtain ⟨hdeadline, hdeadlineTime⟩ := hleads _ h.deadline
  obtain ⟨hurl, -⟩ := hleads _ h.url
  obtain ⟨hannounces, hopeningTime⟩ := h.opening.leaders (fun _ _ => isSome_timeScore)
    (listed_fieldRows hlisted) (listed_fieldRows hlisted')
  rw [← bestDeadline_listed overrides hids1, ← bestDeadline_listed overrides hids2]
    at hdeadline hdeadlineTime
  rw [← bestUrl_listed overrides hids1, ← bestUrl_listed overrides hids2] at hurl
  rw [← latestOpen_listed sourceType overrides, ← latestOpen_listed sourceType overrides]
    at hannounces hopeningTime
  obtain ⟨hclosed, hreopened⟩ := closed_and_reopened_congr hdeadlineTime hopeningTime hannounces
  refine ⟨isSome_of_map_eq hdeadline, isSome_of_map_eq hannounces, hclosed, ?_, hurl⟩
  unfold shownDeadline
  rw [hreopened]
  split
  · rfl
  · exact hdeadline

/-! ### The readings of an ingest -/

/-- `extractedAt: nowIso()`. -/
def stampedAt (ms : ℤ) (c : Claim) : Claim := { c with extractedAt := IsoTime.toISOString ms }

@[simp]
theorem stampedAt_id (ms : ℤ) (c : Claim) : (stampedAt ms c).id = c.id := by rw [stampedAt]

@[simp]
theorem stampedAt_sourceItemId (ms : ℤ) (c : Claim) :
    (stampedAt ms c).sourceItemId = c.sourceItemId := by rw [stampedAt]

@[simp]
theorem stampedAt_field (ms : ℤ) (c : Claim) : (stampedAt ms c).field = c.field := by rw [stampedAt]

@[simp]
theorem stampedAt_value (ms : ℤ) (c : Claim) : (stampedAt ms c).value = c.value := by rw [stampedAt]

@[simp]
theorem stampedAt_confidence (ms : ℤ) (c : Claim) : (stampedAt ms c).confidence = c.confidence := by
  rw [stampedAt]

/-- Each claim with its reading. -/
def stamped (s : ℕ → ℤ) (claims : List Claim) : List Claim :=
  claims.zipIdx.map fun pair => stampedAt (s pair.2) pair.1

/-- The claims of an organization, and those of one ingest among them.  Its source has no
publication time; confidences are checked to be in the unit interval. -/
structure Ingested where
  others : List Claim
  extracted : List Claim
  versionId : String
  ids : ((others ++ extracted).map Claim.id).Nodup
  unpublished : ∀ c ∈ extracted, c.publishedAt = none
  version : ∀ c ∈ extracted, c.sourceItemId = versionId
  confidence : ∀ c ∈ extracted, 0 ≤ c.confidence

/-- The rows that are stored. -/
def Ingested.stored (ing : Ingested) (s : ℕ → ℤ) : List Claim :=
  ing.others ++ stamped s ing.extracted

/-- Readings of the clock that do not go back, and that `new Date` reads back. -/
structure Readings (getTime : Json → Option ℤ) (s : ℕ → ℤ) : Prop where
  monotone : Monotone s
  nonneg : ∀ i, 0 ≤ s i
  parsed : ∀ i, getTime (.str (IsoTime.toISOString (s i))) = some (s i)

variable {s s' : ℕ → ℤ} {ing : Ingested} {i j : ℕ}

/-- The claims of `ingest` are stamped claims. -/
theorem claimsOf_eq_stamped (tenantId versionId : String) (source : SourceItem)
    (extracted : List ExtractedClaim) :
    claimsOf digest tenantId versionId source s extracted =
      stamped s (claimsOf digest tenantId versionId source s' extracted) := by
  refine List.ext_getElem? fun i => ?_
  simp only [claimsOf, stamped, List.getElem?_map, List.getElem?_zipIdx, Option.map_map]
  cases extracted[i]? with
  | none => rfl
  | some e => rfl

/-- New claims are stored behind the old ones. -/
theorem putClaims_append {sameValue : Json → Json → Bool} {claims : List Claim}
    (hids : ((rows ++ claims).map Claim.id).Nodup)
    (hkeys : (rows ++ claims).Pairwise fun a b => b.sameKey sameValue a = false) :
    putClaims sameValue rows claims = some (rows ++ claims) := by
  induction claims generalizing rows with
  | nil => rw [putClaims, List.append_nil]
  | cons claim rest ih =>
      have hkey : rows.any (claim.sameKey sameValue) = false :=
        List.any_eq_false.mpr fun old hold => by
          rw [(List.pairwise_append.mp hkeys).2.2 old hold claim List.mem_cons_self]
          exact Bool.false_ne_true
      have hid : ∀ old ∈ rows, old.id ≠ claim.id := fun old hold => by
        rw [List.map_append, List.map_cons] at hids
        exact (List.nodup_append.mp hids).2.2 _ (List.mem_map_of_mem hold) _ List.mem_cons_self
      have hput : putClaim sameValue rows claim = some (rows ++ [claim]) := by
        unfold putClaim
        dsimp only
        rw [hkey, if_neg Bool.false_ne_true]
        exact Table.insert_eq_some.mpr ⟨hid, rfl⟩
      rw [putClaims, hput, Option.bind_some, List.append_cons rows claim rest]
      rw [List.append_cons rows claim rest] at hids hkeys
      exact ih hids hkeys

theorem mem_stored : c ∈ ing.stored s ↔
    c ∈ ing.others ∨ ∃ i e, ing.extracted[i]? = some e ∧ c = stampedAt (s i) e := by
  unfold Ingested.stored stamped
  rw [List.mem_append, List.mem_map]
  refine or_congr_right ⟨?_, ?_⟩
  · rintro ⟨⟨e, i⟩, he, rfl⟩
    exact ⟨i, e, List.mem_zipIdx_iff_getElem?.mp he, rfl⟩
  · rintro ⟨i, e, he, rfl⟩
    exact ⟨(e, i), List.mem_zipIdx_iff_getElem?.mpr he, rfl⟩

theorem ids_stored : ((ing.stored s).map Claim.id).Nodup := by
  have hids : (stamped s ing.extracted).map Claim.id = ing.extracted.map Claim.id := by
    conv_rhs => rw [← List.zipIdx_map_fst 0 ing.extracted]
    unfold stamped
    rw [List.map_map, List.map_map]
    exact List.map_congr_left fun pair _ => stampedAt_id (s pair.2) pair.1
  rw [Ingested.stored, List.map_append, hids, ← List.map_append]
  exact ing.ids

theorem claimTime_stampedAt (hs : Readings getTime s) (hc : ing.extracted[i]? = some c) :
    claimTime getTime (stampedAt (s i) c) = some (s i) := by
  have htext : (stampedAt (s i) c).coalesced = IsoTime.toISOString (s i) := by
    unfold stampedAt Claim.coalesced
    rw [ing.unpublished c (List.mem_of_getElem? hc)]
    rfl
  rw [claimTime_eq, htext]
  exact hs.parsed i

theorem recency_anti {age age' : ℤ} (h : age ≤ age') : recency age' ≤ recency age := by
  have hage : ((age : ℤ) : ℚ) ≤ ((age' : ℤ) : ℚ) := by exact_mod_cast h
  have hdays : max 0 ((age : ℚ) / 86400000) ≤ max 0 ((age' : ℚ) / 86400000) :=
    max_le_max_left 0 (div_le_div_of_nonneg_right hage (by norm_num))
  have hcapped : min (max 0 ((age : ℚ) / 86400000)) 365 ≤ min (max 0 ((age' : ℚ) / 86400000)) 365 :=
    min_le_min_right 365 hdays
  exact max_le_max_left _ (by linarith)

/-- The authority of the source. -/
def sourceAuthority (sourceType : String → Option SourceType) (versionId : String) : ℚ :=
  ((sourceType versionId).map authority).getD (5 / 10)

theorem sourceAuthority_pos (sourceType : String → Option SourceType) (versionId : String) :
    0 < sourceAuthority sourceType versionId := by
  unfold sourceAuthority
  cases sourceType versionId with
  | none => exact (by norm_num : (0 : ℚ) < 5 / 10)
  | some source => exact authority_pos source

theorem score_stampedAt (hs : Readings getTime s) (hc : ing.extracted[i]? = some c) :
    scoreClaim getTime sourceType t (stampedAt (s i) c) =
      some (c.confidence * sourceAuthority sourceType ing.versionId * recency (t - s i)) := by
  rw [← ing.version c (List.mem_of_getElem? hc), scoreClaim, claimTime_stampedAt hs hc,
    stampedAt_sourceItemId, stampedAt_confidence]
  rfl

/-- The later claim of an ingest has the higher score, if it is the more confident. -/
theorem later_exceeds (hs : Readings getTime s) (ha : ing.extracted[i]? = some a)
    (hb : ing.extracted[j]? = some b) (hij : i ≤ j) (hlt : a.confidence < b.confidence) :
    Leader.byScore (scoreClaim getTime sourceType t) (stampedAt (s j) b) (stampedAt (s i) a) =
      true := by
  have hnonneg := ing.confidence a (List.mem_of_getElem? ha)
  have hpos := sourceAuthority_pos sourceType ing.versionId
  have hrecency : recency (t - s i) ≤ recency (t - s j) :=
    recency_anti (sub_le_sub_left (hs.monotone hij) t)
  rw [Leader.byScore, score_stampedAt hs ha, score_stampedAt hs hb, Option.any_some,
    Option.any_some]
  refine decide_eq_true ?_
  calc a.confidence * sourceAuthority sourceType ing.versionId * recency (t - s i)
      ≤ a.confidence * sourceAuthority sourceType ing.versionId * recency (t - s j) :=
        mul_le_mul_of_nonneg_left hrecency (mul_nonneg hnonneg hpos.le)
    _ < b.confidence * sourceAuthority sourceType ing.versionId * recency (t - s j) :=
        mul_lt_mul_of_pos_right (mul_lt_mul_of_pos_right hlt hpos) (recency_pos _)

/-! ### An ingest that does not contradict itself -/

/-- The ingest has no claim of the field. -/
def Silent (ing : Ingested) (field : ClaimField) : Prop := ∀ c ∈ ing.extracted, c.field ≠ field

/-- Claims of the field that differ are of the ingest, and the later one is the more confident. -/
structure Settled (ing : Ingested) (field : ClaimField) : Prop where
  others : ∀ a ∈ fieldRows field ing.others,
    ∀ b ∈ fieldRows field ing.others ++ fieldRows field ing.extracted,
      a.value.toText = b.value.toText
  later : ing.extracted.Pairwise fun a b => a.field = field → b.field = field →
    a.value.toText ≠ b.value.toText → a.confidence < b.confidence

/-- The ingest does not make the leading text of the field depend on the readings. -/
def Steady (getTime : Json → Option ℤ) (sourceType : String → Option SourceType) (t : ℤ)
    (ing : Ingested) (field : ClaimField) : Prop :=
  (Silent ing field ∧ TiesAgree (scoreClaim getTime sourceType t) (fun c => c.value.toText)
    (fieldRows field ing.others)) ∨ Settled ing field

/-- All claims of the field are of the ingest. -/
def OnlyIngested (ing : Ingested) (field : ClaimField) : Prop := ∀ c ∈ ing.others, c.field ≠ field

/-- All opening claims say the same, and where there are deadlines too, which of them is newer does
not depend on the readings. -/
inductive Unanimous (getTime : Json → Option ℤ) (ing : Ingested) : Option Bool → Prop where
  /-- They say neither that applications are open nor that they are closed. -/
  | neither : Unanimous getTime ing none
  /-- There is no deadline, and the other opening claims are dated. -/
  | noDeadline {announced : Option Bool} (own : OnlyIngested ing .applicationDeadline)
      (silent : Silent ing .applicationDeadline)
      (dated : ∀ c ∈ fieldRows .applicationOpen ing.others,
        ∃ u, claimTime getTime c = some u ∧ 0 ≤ u) :
      Unanimous getTime ing announced
  /-- Applications are open, and no deadline is extracted before that. -/
  | opened (openings : OnlyIngested ing .applicationOpen)
      (deadlines : OnlyIngested ing .applicationDeadline)
      (order : ing.extracted.Pairwise fun a b =>
        ¬ (a.field = .applicationDeadline ∧ b.field = .applicationOpen)) :
      Unanimous getTime ing (some true)
  /-- Applications are closed, and no deadline is extracted after that. -/
  | closed (openings : OnlyIngested ing .applicationOpen)
      (deadlines : OnlyIngested ing .applicationDeadline)
      (order : ing.extracted.Pairwise fun a b =>
        ¬ (a.field = .applicationOpen ∧ b.field = .applicationDeadline)) :
      Unanimous getTime ing (some false)

/-- All opening claims say this. -/
def AllAnnounce (ing : Ingested) (announced : Option Bool) : Prop :=
  ∀ c ∈ ing.others ++ ing.extracted, c.field = .applicationOpen → c.announces = announced

/-- The ingest does not make the standing of the application depend on the readings. -/
def SteadyStanding (getTime : Json → Option ℤ) (ing : Ingested) : Prop :=
  (Silent ing .applicationOpen ∧ Silent ing .applicationDeadline ∧
    TiesAgree (timeScore getTime) Claim.announces (fieldRows .applicationOpen ing.others)) ∨
  ∃ announced, AllAnnounce ing announced ∧ Unanimous getTime ing announced

theorem mem_fieldRows_stored (h : Listed (ing.stored s) listed) : c ∈ fieldRows field listed ↔
    c ∈ fieldRows field ing.others ∨
      ∃ i e, ing.extracted[i]? = some e ∧ e.field = field ∧ c = stampedAt (s i) e := by
  unfold fieldRows
  rw [List.mem_filter, h.1.mem_iff, mem_stored, List.mem_filter, decide_eq_true_iff, or_and_right]
  refine or_congr_right ⟨?_, ?_⟩
  · rintro ⟨⟨i, e, he, rfl⟩, hfield⟩
    exact ⟨i, e, he, (stampedAt_field _ e).symm.trans hfield, rfl⟩
  · rintro ⟨i, e, he, hfield, rfl⟩
    exact ⟨⟨i, e, he, rfl⟩, (stampedAt_field _ e).trans hfield⟩

/-- The fields that the ingest is silent on have the other rows only. -/
theorem listed_of_silent (hsilent : Silent ing field) (h : Listed (ing.stored s) listed) :
    Listed (fieldRows field ing.others) (fieldRows field listed) := by
  have hrows : fieldRows field (ing.stored s) = fieldRows field ing.others := by
    have hnone : fieldRows field (stamped s ing.extracted) = [] := by
      refine List.filter_eq_nil_iff.mpr fun c hc => ?_
      obtain ⟨pair, hpair, rfl⟩ := List.mem_map.mp hc
      rw [decide_eq_true_iff, stampedAt_field]
      exact hsilent pair.1 (List.fst_mem_of_mem_zipIdx hpair)
    unfold fieldRows at hnone ⊢
    rw [Ingested.stored, List.filter_append, hnone, List.append_nil]
  rw [← hrows]
  exact listed_fieldRows h

theorem mem_extracted (hc : ing.extracted[i]? = some c) (hfield : c.field = field) :
    c ∈ fieldRows field ing.others ++ fieldRows field ing.extracted :=
  List.mem_append_right _ (List.mem_filter.mpr ⟨List.mem_of_getElem? hc, decide_eq_true hfield⟩)

/-- Whether the field has rows does not depend on the readings. -/
theorem fieldRows_ne_nil (h : Listed (ing.stored s) listed) (h' : Listed (ing.stored s') listed')
    (hne : fieldRows field listed ≠ []) : fieldRows field listed' ≠ [] := by
  obtain ⟨c, hc⟩ := List.exists_mem_of_ne_nil _ hne
  obtain hother | ⟨i, e, he, hfield, -⟩ := (mem_fieldRows_stored h).mp hc
  · exact List.ne_nil_of_mem ((mem_fieldRows_stored h').mpr (Or.inl hother))
  · exact List.ne_nil_of_mem ((mem_fieldRows_stored h').mpr (Or.inr ⟨i, e, he, hfield, rfl⟩))

theorem isSome_leader {exceeds : Claim → Claim → Bool} {claims : List Claim} :
    (Leader.leader exceeds claims).isSome = true ↔ claims ≠ [] := by
  rw [← Option.ne_none_iff_isSome]
  exact Leader.leader_eq_none.not

theorem isSome_leader_eq (exceeds : Claim → Claim → Bool) (field : ClaimField)
    (h : Listed (ing.stored s) listed) (h' : Listed (ing.stored s') listed') :
    (Leader.leader exceeds (fieldRows field listed)).isSome =
      (Leader.leader exceeds (fieldRows field listed')).isSome := by
  rw [Bool.eq_iff_iff, isSome_leader, isSome_leader]
  exact ⟨fieldRows_ne_nil h h', fieldRows_ne_nil h' h⟩

/-- A later claim with another text is ahead of an earlier one. -/
theorem not_leader_of_later (hs : Readings getTime s) (hsettled : Settled ing field)
    (h : Listed (ing.stored s) listed) (ha : ing.extracted[i]? = some a)
    (hb : ing.extracted[j]? = some b) (hafield : a.field = field) (hbfield : b.field = field)
    (hij : i < j) (hne : a.value.toText ≠ b.value.toText) :
    leading getTime sourceType t field listed ≠ some (stampedAt (s i) a) := by
  intro hleader
  have hbehind : a.confidence < b.confidence := by
    obtain ⟨hi, rfl⟩ := List.getElem?_eq_some_iff.mp ha
    obtain ⟨hj, rfl⟩ := List.getElem?_eq_some_iff.mp hb
    exact List.pairwise_iff_getElem.mp hsettled.later i j hi hj hij hafield hbfield hne
  -- the claims differ, so that all rows of the field are of the ingest, and dated
  have hscored : ∀ c ∈ fieldRows field listed,
      (scoreClaim getTime sourceType t c).isSome = true := by
    intro c hc
    obtain hother | ⟨k, e, he, -, rfl⟩ := (mem_fieldRows_stored h).mp hc
    · have hsame := (hsettled.others c hother a (mem_extracted ha hafield)).symm.trans
        (hsettled.others c hother b (mem_extracted hb hbfield))
      exact absurd hsame hne
    · rw [score_stampedAt hs he]
      rfl
  have hbmem : stampedAt (s j) b ∈ fieldRows field listed :=
    (mem_fieldRows_stored h).mpr (Or.inr ⟨j, b, hb, hbfield, rfl⟩)
  have hle := Leader.byScore_of_leader hscored hleader hbmem
  rw [later_exceeds hs ha hb hij.le hbehind] at hle
  cases hle

/-- **A settled field** leads with one text, whatever the readings. -/
theorem Settled.leaders (hsettled : Settled ing field) (hs : Readings getTime s)
    (hs' : Readings getTime s') (h : Listed (ing.stored s) listed)
    (h' : Listed (ing.stored s') listed') :
    (leading getTime sourceType t field listed).map (fun c => c.value.toText) =
      (leading getTime sourceType t field listed').map fun c => c.value.toText := by
  have hsome : (leading getTime sourceType t field listed).isSome =
      (leading getTime sourceType t field listed').isSome := isSome_leader_eq _ field h h'
  cases hfirst : leading getTime sourceType t field listed with
  | none =>
      rw [hfirst] at hsome
      rw [Option.isSome_eq_false_iff.mp hsome.symm |> Option.isNone_iff_eq_none.mp]
  | some a =>
      rw [hfirst] at hsome
      obtain ⟨b, hsecond⟩ := Option.isSome_iff_exists.mp hsome.symm
      rw [hsecond]
      suffices htext : a.value.toText = b.value.toText from congrArg some htext
      obtain hother | ⟨i, e, he, hfield, rfl⟩ :=
        (mem_fieldRows_stored h).mp (Leader.mem_of_leader hfirst)
      all_goals
        obtain hother' | ⟨j, e', he', hfield', rfl⟩ :=
          (mem_fieldRows_stored h').mp (Leader.mem_of_leader hsecond)
      · exact hsettled.others a hother b (List.mem_append_left _ hother')
      · rw [stampedAt_value]
        exact hsettled.others a hother e' (mem_extracted he' hfield')
      · rw [stampedAt_value]
        exact (hsettled.others b hother' e (mem_extracted he hfield)).symm
      · rw [stampedAt_value, stampedAt_value]
        by_contra hne
        obtain hlt | rfl | hlt := lt_trichotomy i j
        · exact not_leader_of_later hs hsettled h he he' hfield hfield' hlt hne hfirst
        · obtain rfl := Option.some.inj (he.symm.trans he')
          exact hne rfl
        · exact not_leader_of_later hs' hsettled h' he' he hfield' hfield hlt (Ne.symm hne) hsecond

theorem Steady.leaders (hsteady : Steady getTime sourceType t ing field) (hs : Readings getTime s)
    (hs' : Readings getTime s') (h : Listed (ing.stored s) listed)
    (h' : Listed (ing.stored s') listed') :
    (leading getTime sourceType t field listed).map (fun c => c.value.toText) =
      (leading getTime sourceType t field listed').map fun c => c.value.toText := by
  obtain ⟨hsilent, hties⟩ | hsettled := hsteady
  · exact (hties.leaders (fun _ _ => isSome_scoreClaim) (listed_of_silent hsilent h)
      (listed_of_silent hsilent h')).1
  · exact hsettled.leaders hs hs' h h'

/-- A claim of a field that only the ingest has. -/
theorem exists_stamped (hown : OnlyIngested ing field) (h : Listed (ing.stored s) listed)
    (hc : c ∈ fieldRows field listed) :
    ∃ i e, ing.extracted[i]? = some e ∧ e.field = field ∧ c = stampedAt (s i) e := by
  obtain hother | hstamped := (mem_fieldRows_stored h).mp hc
  · obtain ⟨hmem, hfield⟩ := List.mem_filter.mp hother
    exact absurd (of_decide_eq_true hfield) (hown c hmem)
  · exact hstamped

/-- Where the one field precedes the other, so do the readings. -/
theorem reading_le {field' : ClaimField} (hs : Readings getTime s)
    (horder : ing.extracted.Pairwise fun a b => ¬ (a.field = field' ∧ b.field = field))
    (ha : ing.extracted[i]? = some a) (hb : ing.extracted[j]? = some b) (hafield : a.field = field)
    (hbfield : b.field = field') : s i ≤ s j := by
  refine hs.monotone (not_lt.mp fun hlt => ?_)
  obtain ⟨hi, rfl⟩ := List.getElem?_eq_some_iff.mp ha
  obtain ⟨hj, rfl⟩ := List.getElem?_eq_some_iff.mp hb
  exact List.pairwise_iff_getElem.mp horder j i hj hi hlt ⟨hbfield, hafield⟩

/-- Opening claims that all say the same. -/
theorem announces_latestOpen {announced : Option Bool} (h : Listed (ing.stored s) listed)
    (hannounced : AllAnnounce ing announced)
    (hc : c ∈ fieldRows .applicationOpen listed) : c.announces = announced := by
  obtain hother | ⟨i, e, he, hfield, rfl⟩ := (mem_fieldRows_stored h).mp hc
  · exact hannounced c (List.mem_append_left _ (List.mem_filter.mp hother).1)
      (of_decide_eq_true (List.mem_filter.mp hother).2)
  · have hvalue : (stampedAt (s i) e).announces = e.announces := by
      unfold Claim.announces
      rw [stampedAt_value]
    exact hvalue.trans (hannounced e (List.mem_append_right _ (List.mem_of_getElem? he)) hfield)

/-- **Unanimous openings**: the application is closed if they say so, and no opening suppresses a
deadline. -/
theorem standing_of_unanimous (sourceType : String → Option SourceType)
    (overrides : List OpportunityOverride) (t : ℤ) {announced : Option Bool}
    (hs : Readings getTime s)
    (h : Listed (ing.stored s) listed)
    (hannounced : AllAnnounce ing announced)
    (hunanimous : Unanimous getTime ing announced) :
    explicitlyClosed getTime ⟨listed, sourceType, overrides⟩ (.at t) =
        decide (announced = some false ∧
          (latestOpen getTime ⟨listed, sourceType, overrides⟩).isSome = true) ∧
      shownDeadline getTime ⟨listed, sourceType, overrides⟩ (.at t) =
        (bestDeadline getTime ⟨listed, sourceType, overrides⟩ (.at t)).map fun c =>
          c.value.toText := by
  have hids : (listed.map Claim.id).Nodup := (h.1.map Claim.id).nodup_iff.mpr ids_stored
  have hbestmem : ∀ best, bestDeadline getTime ⟨listed, sourceType, overrides⟩ (.at t) = some best →
      best ∈ fieldRows .applicationDeadline listed := by
    intro best hbest
    exact Leader.mem_of_leader ((bestDeadline_listed overrides hids).symm.trans hbest)
  unfold explicitlyClosed shownDeadline reopened latestOpenTime deadlineClaimTime
  rw [any_value_eq, any_value_eq]
  cases hlatest : latestOpen getTime ⟨listed, sourceType, overrides⟩ with
  | none => exact ⟨by simp, by simp⟩
  | some opening =>
      have hmem : opening ∈ fieldRows .applicationOpen listed :=
        Leader.mem_of_leader ((latestOpen_listed sourceType overrides).symm.trans hlatest)
      simp only [Option.map_some, Option.join_some, announces_latestOpen h hannounced hmem,
        Option.getD_some, Option.isSome_some, and_true]
      cases hunanimous with
      | neither => exact ⟨by simp, by simp⟩
      | noDeadline own silent dated =>
          have hnone : bestDeadline getTime ⟨listed, sourceType, overrides⟩ (.at t) = none := by
            refine Option.eq_none_iff_forall_ne_some.mpr fun best hbest => ?_
            obtain ⟨i, e, he, hfield, -⟩ := exists_stamped own h (hbestmem best hbest)
            exact silent e (List.mem_of_getElem? he) hfield
          have htime : notBefore (claimTime getTime opening) (some 0) = true := by
            obtain hother | ⟨i, e, he, -, rfl⟩ := (mem_fieldRows_stored h).mp hmem
            · obtain ⟨u, hu, hpos⟩ := dated opening hother
              rw [hu]
              exact decide_eq_true hpos
            · rw [claimTime_stampedAt hs he]
              exact decide_eq_true (hs.nonneg i)
          rw [hnone]
          simp [htime]
      | opened openings deadlines order =>
          refine ⟨by simp, ?_⟩
          cases hbest : bestDeadline getTime ⟨listed, sourceType, overrides⟩ (.at t) with
          | none => simp
          | some best =>
              obtain ⟨i, e, he, hfield, rfl⟩ := exists_stamped openings h hmem
              obtain ⟨j, e', he', hfield', rfl⟩ := exists_stamped deadlines h (hbestmem best hbest)
              have hle := reading_le hs order he he' hfield hfield'
              have hafter : after (claimTime getTime (stampedAt (s i) e))
                  (claimTime getTime (stampedAt (s j) e')) = false := by
                rw [claimTime_stampedAt hs he, claimTime_stampedAt hs he']
                exact decide_eq_false (not_lt.mpr hle)
              simp [hafter]
      | closed openings deadlines order =>
          refine ⟨?_, by simp⟩
          cases hbest : bestDeadline getTime ⟨listed, sourceType, overrides⟩ (.at t) with
          | none =>
              obtain ⟨i, e, he, -, rfl⟩ := exists_stamped openings h hmem
              have htime : notBefore (claimTime getTime (stampedAt (s i) e)) (some 0) = true := by
                rw [claimTime_stampedAt hs he]
                exact decide_eq_true (hs.nonneg i)
              simp [htime]
          | some best =>
              obtain ⟨i, e, he, hfield, rfl⟩ := exists_stamped openings h hmem
              obtain ⟨j, e', he', hfield', rfl⟩ := exists_stamped deadlines h (hbestmem best hbest)
              have hle := reading_le hs order he' he hfield' hfield
              have hbefore : notBefore (claimTime getTime (stampedAt (s i) e))
                  (claimTime getTime (stampedAt (s j) e')) = true := by
                rw [claimTime_stampedAt hs he, claimTime_stampedAt hs he']
                exact decide_eq_true hle
              simp [hbefore]

/-- **Readings.**  Two ways to stamp the claims of a steady ingest show the same application. -/
theorem sameApplication_of_steady (hs : Readings getTime s) (hs' : Readings getTime s')
    (h : Listed (ing.stored s) listed) (h' : Listed (ing.stored s') listed')
    (hdeadline : Steady getTime sourceType t ing .applicationDeadline)
    (hurl : Steady getTime sourceType t ing .applicationUrl)
    (hstanding : SteadyStanding getTime ing) :
    SameApplication getTime ⟨listed, sourceType, overrides⟩ ⟨listed', sourceType, overrides⟩
      (.at t) (.at t) := by
  have hids : (listed.map Claim.id).Nodup := (h.1.map Claim.id).nodup_iff.mpr ids_stored
  have hids' : (listed'.map Claim.id).Nodup := (h'.1.map Claim.id).nodup_iff.mpr ids_stored
  have hdeadlines := hdeadline.leaders hs hs' h h'
  have hurls := hurl.leaders hs hs' h h'
  rw [← bestDeadline_listed overrides hids, ← bestDeadline_listed overrides hids'] at hdeadlines
  rw [← bestUrl_listed overrides hids, ← bestUrl_listed overrides hids'] at hurls
  have hopenings := isSome_leader_eq (Leader.byScore (timeScore getTime)) .applicationOpen h h'
  rw [← latestOpen_listed sourceType overrides, ← latestOpen_listed sourceType overrides]
    at hopenings
  suffices hstands :
      explicitlyClosed getTime ⟨listed, sourceType, overrides⟩ (.at t) =
          explicitlyClosed getTime ⟨listed', sourceType, overrides⟩ (.at t) ∧
        shownDeadline getTime ⟨listed, sourceType, overrides⟩ (.at t) =
          shownDeadline getTime ⟨listed', sourceType, overrides⟩ (.at t) from
    ⟨isSome_of_map_eq hdeadlines, hopenings, hstands.1, hstands.2, hurls⟩
  obtain ⟨hopen, hsilent, hties⟩ | ⟨announced, hannounced, hunanimous⟩ := hstanding
  · -- the rows that decide are not of the ingest, and the leading ones have one time
    obtain ⟨hannounces, htime⟩ := hties.leaders (fun _ _ => isSome_timeScore)
      (listed_of_silent hopen h) (listed_of_silent hopen h')
    have hdeadlineTime :
        (bestDeadline getTime ⟨listed, sourceType, overrides⟩ (.at t)).map Claim.coalesced =
          (bestDeadline getTime ⟨listed', sourceType, overrides⟩ (.at t)).map Claim.coalesced := by
      have htied : TiesAgree (scoreClaim getTime sourceType t) (fun _ => ())
          (fieldRows .applicationDeadline ing.others) := fun _ _ _ _ _ _ _ _ => rfl
      rw [bestDeadline_listed overrides hids, bestDeadline_listed overrides hids']
      exact (htied.leaders (fun _ _ => isSome_scoreClaim) (listed_of_silent hsilent h)
        (listed_of_silent hsilent h')).2
    rw [← latestOpen_listed sourceType overrides, ← latestOpen_listed sourceType overrides]
      at hannounces htime
    obtain ⟨hclosed, hreopened⟩ := closed_and_reopened_congr hdeadlineTime htime hannounces
    refine ⟨hclosed, ?_⟩
    unfold shownDeadline
    rw [hreopened]
    split
    · rfl
    · exact hdeadlines
  · obtain ⟨hclosed, hshown⟩ :=
      standing_of_unanimous sourceType overrides t hs h hannounced hunanimous
    obtain ⟨hclosed', hshown'⟩ :=
      standing_of_unanimous sourceType overrides t hs' h' hannounced hunanimous
    exact ⟨by rw [hclosed, hclosed', hopenings], by rw [hshown, hshown', hdeadlines]⟩

/-- The times of the examples: 1 January, a millisecond later, and the deadlines. -/
def tieTimes : Json → Option ℤ
  | .str "2026-01-01T00:00:00.000Z" => some 1767225600000
  | .str "2026-01-01T00:00:00.001Z" => some 1767225600001
  | .str "2026-01-31" => some 1769817600000
  | .str "2026-12-31" => some 1798675200000
  | _ => none

/-- A claim of a post of 1 January. -/
def tiedClaim (id deadline : String) : Claim :=
  postClaim id "post" .applicationDeadline (.str deadline) "2026-01-01T00:00:00.000Z"

/-- What the extractor finds on a page, as the claims of its version. -/
def pageClaims (extracted : List ExtractedClaim) : List Claim :=
  claimsOf id "t1" "v1" (StageRun.page "Applications are closed. Apply now for next year.")
    (fun _ => 0) extracted

/-- The claims of a page that says that applications are closed and that one may apply now. -/
def contradictoryPage : Ingested where
  others := []
  extracted := pageClaims [
    ⟨.applicationOpen, .bool false, 98 / 100, some "Explicit closed-language in source", none⟩,
    ⟨.status, .str "closed", 98 / 100, some "Explicit closed-language in source", none⟩,
    ⟨.applicationOpen, .bool true, 92 / 100, some "Explicit open-language in source", none⟩]
  versionId := "v1"
  ids := by decide +kernel
  unpublished := by decide +kernel
  version := by decide +kernel
  confidence := by decide +kernel

/-- The claims of a page that says that one may apply now, until a deadline. -/
def openPage : Ingested where
  others := [tiedClaim "c1" "2026-01-31"]
  extracted := pageClaims [
    ⟨.applicationUrl, .str "https://club.example/apply", 8 / 10, none, none⟩,
    ⟨.applicationUrl, .str "https://club.example/form", 9 / 10, none, none⟩]
  versionId := "v1"
  ids := by decide +kernel
  unpublished := by decide +kernel
  version := by decide +kernel
  confidence := by decide +kernel

/-- The clock does not move from one claim to the next. -/
def fastReadings (_ : ℕ) : ℤ := 1767225600000

/-- The clock moves on before the third claim. -/
def slowReadings (i : ℕ) : ℤ := if i < 2 then 1767225600000 else 1767225600001

theorem readings_fast : Readings tieTimes fastReadings where
  monotone _ _ _ := le_refl _
  nonneg i := by
    unfold fastReadings
    decide
  parsed i := by
    unfold fastReadings
    decide +kernel

theorem readings_slow : Readings tieTimes slowReadings where
  monotone i j hij := by
    unfold slowReadings
    split
    · split
      · exact le_refl _
      · decide
    · rw [if_neg (by omega)]
  nonneg i := by
    unfold slowReadings
    split
    · decide
    · decide
  parsed i := by
    unfold slowReadings
    split
    · decide +kernel
    · decide +kernel

theorem tiesAgree_of_subsingleton {α : Type} {score : Claim → Option ℚ} {meaning : Claim → α}
    (h : ∀ a ∈ rows, ∀ b ∈ rows, meaning a = meaning b) : TiesAgree score meaning rows :=
  fun _ hlisted a ha b hb _ _ => h b hb a (hlisted.1.subset (Leader.mem_of_leader ha))

end Resolver

end RecruitingOs
