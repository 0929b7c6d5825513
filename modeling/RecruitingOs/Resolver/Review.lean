import RecruitingOs.Ingest.Atomic
import RecruitingOs.Store.Accounts
import RecruitingOs.Store.Overrides

/-!
# Reviewed overrides

`ReviewRun` is a SQLite database between override requests, with all requests that were
accepted.  `mem_foldl_applyOverride` and `foldl_applyPatch_field` say what all overrides
together make of an opportunity: a field has the value of the last stored patch that says
something about it.  A `null` never gets into a stored patch, so such a field keeps what an
older patch or the claims say; `overrides_survive_iff` is the exact statement.
-/

namespace RecruitingOs

namespace Resolver

/-! ### All overrides of an opportunity -/

theorem applyPatch_field (override : OpportunityOverride) (o : Opportunity) (f : PatchField) :
    (applyPatch override o).field f = (override.patch.field f).or (o.field f) := by
  obtain ⟨_, _, _, _, _, ⟨title, deadlineAt, startsAt, url, stale⟩, _, _⟩ := override
  cases f with
  | title => cases title <;> rfl
  | deadlineAt => cases deadlineAt <;> rfl
  | startsAt => cases startsAt <;> rfl
  | url => cases url <;> rfl
  | stale => cases stale <;> rfl

/-- The last patch that says something about a field wins. -/
theorem foldl_applyPatch_field (overrides : List OpportunityOverride) (o : Opportunity)
    (f : PatchField) :
    (overrides.foldl (fun o override => applyPatch override o) o).field f =
      (overrides.reverse.findSome? fun override => override.patch.field f).or (o.field f) := by
  induction overrides generalizing o with
  | nil => rfl
  | cons override rest ih =>
      rw [List.foldl_cons, ih, applyPatch_field, List.reverse_cons, List.findSome?_append,
        Option.or_assoc]
      simp

theorem mem_applyOverride {override : OpportunityOverride} :
    ∀ {out : List Opportunity}, (out.map Opportunity.id).Nodup →
      ∀ o ∈ applyOverride out override, ∃ o' ∈ out,
        o = if o'.id = override.opportunityId then applyPatch override o' else o' := by
  intro out
  induction out with
  | nil =>
      intro _ o ho
      cases ho
  | cons first rest ih =>
      intro hn o ho
      obtain ⟨hfirst, hrest⟩ := List.nodup_cons.mp hn
      unfold applyOverride at ho
      split at ho
      · rename_i hid
        rcases List.mem_cons.mp ho with rfl | ho
        · exact ⟨first, List.mem_cons_self, by rw [if_pos hid]⟩
        · refine ⟨o, List.mem_cons_of_mem _ ho, ?_⟩
          rw [if_neg]
          rintro hsame
          exact hfirst (hid.trans hsame.symm ▸ List.mem_map_of_mem ho)
      · rename_i hid
        rcases List.mem_cons.mp ho with rfl | ho
        · exact ⟨o, List.mem_cons_self, by rw [if_neg hid]⟩
        · obtain ⟨o', ho', hsame⟩ := ih hrest o ho
          exact ⟨o', List.mem_cons_of_mem _ ho', hsame⟩

/-- An opportunity of the output is one that was there before, with all patches for it. -/
theorem mem_foldl_applyOverride (overrides : List OpportunityOverride) :
    ∀ {out : List Opportunity}, (out.map Opportunity.id).Nodup →
      ∀ o ∈ overrides.foldl applyOverride out, ∃ o' ∈ out, o'.id = o.id ∧
        o = (overrides.filter fun override => override.opportunityId = o.id).foldl
          (fun o override => applyPatch override o) o' := by
  induction overrides with
  | nil =>
      intro out _ o ho
      exact ⟨o, ho, rfl, rfl⟩
  | cons override rest ih =>
      intro out hn o ho
      have hids : (applyOverride out override).map Opportunity.id = out.map Opportunity.id :=
        map_applyOverride (fun _ _ => rfl) out override
      obtain ⟨between, hbetween, hid, ho⟩ := ih (hids ▸ hn) o ho
      obtain ⟨first, hfirst, hsame⟩ := mem_applyOverride hn between hbetween
      have hfirstId : first.id = between.id := by
        rw [hsame]
        split <;> rfl
      refine ⟨first, hfirst, hfirstId.trans hid, ?_⟩
      by_cases hmine : override.opportunityId = o.id
      · rw [List.filter_cons_of_pos (by simpa using hmine), List.foldl_cons]
        rw [if_pos ((hfirstId.trans hid).trans hmine.symm)] at hsame
        rw [← hsame]
        exact ho
      · rw [List.filter_cons_of_neg (by simpa using hmine)]
        rw [if_neg fun h => hmine (h.symm.trans (hfirstId.trans hid))] at hsame
        rw [← hsame]
        exact ho

end Resolver

/-! ### The route -/

/-- `Role`. -/
inductive Role where
  | student
  | organizationEditor
  | platformAdmin
deriving Repr, DecidableEq

/-- `AuthPrincipal`. -/
structure AuthPrincipal where
  userId : String
  tenantId : String
  roles : List Role
  organizationIds : List String
deriving Repr, DecidableEq

/-- `requireOrganizationAccess(principal, organizationId)` returns. -/
def AuthPrincipal.hasOrganizationAccess (principal : AuthPrincipal) (organizationId : String) :
    Bool :=
  .platformAdmin ∈ principal.roles ∨
    (.organizationEditor ∈ principal.roles ∧ organizationId ∈ principal.organizationIds)

/-- A request, with the readings of the clock that serve it. -/
structure OverrideRequest where
  principal : AuthPrincipal
  organizationId : String
  opportunityId : String
  body : Json
  dateNow : ℕ
  createdAt : ℤ
  resolvedAt : ℤ
  clock : Resolver.Clock

/-- An accepted request, as it is stored. -/
structure Review where
  id : String
  tenantId : String
  organizationId : String
  opportunityId : String
  actorId : String
  patch : SubmittedPatch
  reason : String
  createdAt : String
deriving Repr, DecidableEq

/-- The override that is read back; its patch is parsed from the stored text. -/
def Review.override (review : Review) : OpportunityOverride where
  id := review.id
  tenantId := review.tenantId
  opportunityId := review.opportunityId
  organizationId := review.organizationId
  actorId := some review.actorId
  patch := .ofText (objectText (routePatch review.patch))
  reason := review.reason
  createdAt := review.createdAt

/-- The parts of the platform that the route calls. -/
structure ReviewContext where
  formats : Formats
  column : TextColumn
  getTime : Json → Option ℤ
  digest : String → String

/-- A database, with the requests that have been accepted so far. -/
structure ReviewRun where
  db : Database
  reviews : List Review

/-- What happens to the database: a request, or anything that leaves the overrides. -/
inductive ReviewStep where
  | review (request : OverrideRequest)
  | other (db : Database)

namespace ReviewRun

variable (ctx : ReviewContext)

/-- `z.string().min(1).max(80)`. -/
def isIdParam (id : String) : Bool := 1 ≤ utf16Length id ∧ utf16Length id ≤ 80

/-- The override route; `none` where the request is refused or the transaction throws. -/
def accept (s : ReviewRun) (request : OverrideRequest) : Option ReviewRun :=
  let principal := request.principal
  if ¬ (isIdParam request.organizationId ∧ isIdParam request.opportunityId ∧
      principal.hasOrganizationAccess request.organizationId) then none
  else (OverrideBody.parse ctx.formats request.body).bind fun body =>
    let listed := s.db.listOpportunities ctx.column request.organizationId principal.tenantId
    if ¬ listed.any (fun o => o.id = request.opportunityId) then none
    else
      let review : Review :=
        { id := stableId ctx.digest "override" (principal.tenantId ++ ":" ++
            request.opportunityId ++ ":" ++ Nat.repr request.dateNow ++ ":" ++ principal.userId)
          tenantId := principal.tenantId
          organizationId := request.organizationId
          opportunityId := request.opportunityId
          actorId := principal.userId
          patch := body.patch
          reason := body.reason
          createdAt := IsoTime.toISOString request.createdAt }
      match s.db.putOpportunityOverride .sqlite review.override with
      | .error _ => none
      | .ok db =>
          (db.resolve ctx.getTime ctx.digest request.clock request.organizationId
            principal.tenantId request.resolvedAt).map fun db => ⟨db, s.reviews ++ [review]⟩

/-- One step. -/
def step (s : ReviewRun) : ReviewStep → Option ReviewRun
  | .review request => s.accept ctx request
  | .other db => if db.overrides = s.db.overrides then some { s with db := db } else none

/-- The states that are reached from a database without overrides. -/
def Reached : ReviewRun → Prop :=
  Transition.Reachable (fun s => s.db.overrides = [] ∧ s.reviews = []) (step ctx)

/-- The accepted requests for an organization, in the order of the listing. -/
def reviewsOf (s : ReviewRun) (tenantId orgId : String) : List Review :=
  (s.reviews.filter fun review =>
    review.tenantId = tenantId ∧ review.organizationId = orgId).insertionSort
      fun a b => a.createdAt ≤ b.createdAt

/-- What the latest request that names a field says about it. -/
def latest (s : ReviewRun) (tenantId orgId opportunityId : String) (f : PatchField) :
    Option (Option Json) :=
  ((s.reviewsOf tenantId orgId).filter fun review =>
    review.opportunityId = opportunityId).reverse.findSome? fun review => review.patch.field f

/-- **Overrides survive.**  A stored patch comes back as it was submitted, and whatever
run of the resolver still produces an opportunity, each field has what the latest request
that names it says, a field submitted as `null` nothing at all. -/
structure OverridesSurvive (s : ReviewRun) : Prop where
  stored : ∀ review ∈ s.reviews,
    storedEntries (objectText (routePatch review.patch)) = routePatch review.patch
  resolved : ∀ tenantId orgId clock now db',
    s.db.resolve ctx.getTime ctx.digest clock orgId tenantId now = some db' →
      ∀ o ∈ db'.opportunitiesOf tenantId orgId, ∀ f value,
        s.latest tenantId orgId o.id f = some value → o.field f = value
  listed : ∀ tenantId orgId clock now db',
    s.db.resolve ctx.getTime ctx.digest clock orgId tenantId now = some db' →
      ∀ o ∈ db'.listOpportunities ctx.column orgId tenantId, ∀ f value,
        s.latest tenantId orgId o.id f = some value → o.field f = value

/-! ### The invariant -/

variable {ctx} {s t : ReviewRun}

/-- The rows are the accepted requests. -/
structure Inv (s : ReviewRun) : Prop where
  rows : s.db.overrides = s.reviews.map fun review => ⟨review.override, false⟩
  admitted : ∀ review ∈ s.reviews, review.patch.Admitted

theorem OverrideBody_parse_admitted {formats : Formats} {value : Json} {body : OverrideBody}
    (h : OverrideBody.parse formats value = some body) : body.patch.Admitted := by
  unfold OverrideBody.parse at h
  simp only [Option.bind_eq_bind, Option.bind_eq_some_iff] at h
  obtain ⟨fields, -, patch, ⟨json, -, hpatch⟩, reason, -, hbody⟩ := h
  cases hbody
  exact SubmittedPatch.parse_admitted hpatch

/-- An insert of an override appends its row. -/
theorem putOpportunityOverride_rows {db db' : Database} {override : OpportunityOverride}
    (h : db.putOpportunityOverride .sqlite override = .ok db') :
    db'.overrides = db.overrides ++ [⟨override, false⟩] := by
  unfold Database.putOpportunityOverride at h
  split at h
  · cases h
  · split at h
    · cases h
    · split at h
      · cases h
      · split at h
        · cases h
        · rename_i overrides hinsert
          cases h
          exact (Table.insert_eq_some.mp hinsert).2

theorem Inv.step {label : ReviewStep} (h : Inv s) (hs : s.step ctx label = some t) : Inv t := by
  cases label with
  | review request =>
      simp only [ReviewRun.step, accept] at hs
      split at hs
      · cases hs
      · obtain ⟨body, hbody, hs⟩ := Option.bind_eq_some_iff.mp hs
        split at hs
        · cases hs
        · split at hs
          · cases hs
          · rename_i db hput
            obtain ⟨resolved, hresolve, rfl⟩ := Option.map_eq_some_iff.mp hs
            obtain ⟨⟨opportunities, rfl⟩, -⟩ := Database.resolve_eq_some hresolve
            refine ⟨?_, fun review hreview => ?_⟩
            · rw [List.map_append, ← h.rows]
              show db.overrides = _
              exact putOpportunityOverride_rows hput
            · rcases List.mem_append.mp hreview with hreview | hreview
              · exact h.admitted review hreview
              · rw [List.mem_singleton.mp hreview]
                exact OverrideBody_parse_admitted hbody
  | other db =>
      simp only [ReviewRun.step] at hs
      split at hs
      · rename_i hsame
        cases hs
        exact ⟨hsame.trans h.rows, h.admitted⟩
      · cases hs

theorem Reached.inv (h : Reached ctx s) : Inv s := by
  refine Transition.Reachable.invariant (I := Inv) ?_ (fun _ _ _ _ hs hstep => hs.step hstep) h
  rintro s ⟨hrows, hreviews⟩
  exact ⟨by rw [hrows, hreviews]; rfl, by rw [hreviews]; simp⟩

/-- The listing is the accepted requests in order. -/
theorem Inv.listOpportunityOverrides (h : Inv s) (tenantId orgId : String) :
    s.db.listOpportunityOverrides orgId tenantId =
      (s.reviewsOf tenantId orgId).map Review.override := by
  rw [Database.listOpportunityOverrides, reviewsOf, h.rows,
    List.map_insertionSort (fun a b : Review => a.createdAt ≤ b.createdAt)
      (fun a b : OpportunityOverride => a.createdAt ≤ b.createdAt) Review.override _
      (fun _ _ _ _ => Iff.rfl)]
  congr 1
  rw [List.filter_map, List.map_map]
  have hfilter : (fun row : OverrideRow => decide (row.override.tenantId = tenantId ∧
      row.override.organizationId = orgId ∧ ¬ row.revoked = true)) ∘
        (fun review : Review => (⟨review.override, false⟩ : OverrideRow)) =
      fun review : Review => decide (review.tenantId = tenantId ∧ review.organizationId = orgId) := by
    funext review
    simp [Review.override]
  rw [hfilter]
  rfl

/-! ### Survival -/

/-- The latest request for a field and the last stored patch that says something agree,
unless a request says `null`. -/
theorem findSome?_override {reviews : List Review} (hnull : ∀ review ∈ reviews, ∀ f,
    review.patch.field f ≠ some none) (f : PatchField) :
    (reviews.findSome? fun review => review.patch.field f) =
      (reviews.findSome? fun review => review.override.patch.field f).map some := by
  induction reviews with
  | nil => rfl
  | cons review rest ih =>
      have hfield : review.override.patch.field f = (review.patch.field f).join :=
        ofText_field review.patch f
      rw [List.findSome?_cons, List.findSome?_cons, hfield,
        ih fun r hr => hnull r (List.mem_cons_of_mem _ hr)]
      cases hsaid : review.patch.field f with
      | none => rfl
      | some value =>
          cases value with
          | none => exact absurd hsaid (hnull review List.mem_cons_self f)
          | some value => rfl

/-- **One run of the resolver.** -/
theorem Inv.resolved (h : Inv s) (hnull : ∀ review ∈ s.reviews, ∀ f,
    review.patch.field f ≠ some none) {tenantId orgId : String} {clock : Resolver.Clock} {now : ℤ}
    {db' : Database}
    (hresolve : s.db.resolve ctx.getTime ctx.digest clock orgId tenantId now = some db')
    {o : Opportunity} (ho : o ∈ db'.opportunitiesOf tenantId orgId) {f : PatchField}
    {value : Option Json} (hlatest : s.latest tenantId orgId o.id f = some value) :
    o.field f = value ∧ ∃ review ∈ s.reviews, review.patch.field f = some value := by
  obtain ⟨hopportunities, houtput, -⟩ := Database.resolve_eq_some hresolve
  obtain ⟨rows, hreplace, -⟩ := Option.map_eq_some_iff.mp hresolve
  have hn := (replaceOpportunities_eq_some.mp hreplace).1
  rw [houtput] at ho
  unfold Resolver.resolveOrganization at ho hn
  rw [Resolver.map_foldl_applyOverride (f := Opportunity.id) (fun _ _ => rfl)] at hn
  obtain ⟨before, -, -, ho⟩ := Resolver.mem_foldl_applyOverride _ hn o ho
  have hfor : ((s.db.view orgId tenantId).overrides.filter fun override =>
      override.opportunityId = o.id) =
      ((s.reviewsOf tenantId orgId).filter fun review =>
        review.opportunityId = o.id).map Review.override := by
    show (s.db.listOpportunityOverrides orgId tenantId).filter _ = _
    rw [h.listOpportunityOverrides, List.filter_map]
    rfl
  have hmem : ∀ review ∈ ((s.reviewsOf tenantId orgId).filter fun review =>
      review.opportunityId = o.id).reverse, review ∈ s.reviews := by
    intro review hreview
    have hin := (List.mem_filter.mp (List.mem_reverse.mp hreview)).1
    rw [reviewsOf, List.mem_insertionSort] at hin
    exact (List.mem_filter.mp hin).1
  obtain ⟨review, hreview, hsaid⟩ := List.exists_of_findSome?_eq_some hlatest
  refine ⟨?_, review, hmem review hreview, hsaid⟩
  have hlast := findSome?_override (fun r hr => hnull r (hmem r hr)) f
  have hsome := hlast.symm.trans hlatest
  obtain ⟨v, hv, rfl⟩ := Option.map_eq_some_iff.mp hsome
  rw [ho, hfor, Resolver.foldl_applyPatch_field, ← List.map_reverse, List.findSome?_map]
  have hcomp : ((fun override : OpportunityOverride => override.patch.field f) ∘ Review.override) =
      fun review => review.override.patch.field f := rfl
  rw [hcomp, hv, Option.some_or]

/-- **When reviewed overrides survive.**  In every state that override requests and other
changes reach, all overrides survive, and come back as they were submitted, exactly if no
accepted request has submitted a field as `null`. -/
theorem overrides_survive_iff (h : Reached ctx s) :
    s.OverridesSurvive ctx ↔
      ∀ review ∈ s.reviews, ∀ f, review.patch.field f ≠ some none := by
  have hinv := h.inv
  constructor
  · intro hsurvive review hreview
    exact (readBack_iff review.patch).mp (hsurvive.stored review hreview)
  · intro hnull
    constructor
    case stored =>
      intro review hreview
      exact (readBack_iff review.patch).mpr (hnull review hreview)
    case resolved =>
      intro tenantId orgId clock now db' hresolve o ho f value hlatest
      exact (hinv.resolved hnull hresolve ho hlatest).1
    case listed =>
      intro tenantId orgId clock now db' hresolve o ho f value hlatest
      obtain ⟨row, hrow, rfl⟩ := Database.mem_listOpportunities.mp ho
      obtain ⟨hfield, review, hreview, hsaid⟩ := hinv.resolved hnull hresolve hrow hlatest
      cases value with
      | none => exact absurd hsaid (hnull review hreview f)
      | some value =>
          exact listedOpportunity_field hfield (hinv.admitted review hreview f value hsaid)

/-! ### A page with a deadline -/

/-- The digests of the texts below, and those of the page. -/
def reviewDigest (text : String) : String :=
  if text = "srcv_5ccba9f7e39f9d5820eb6b7c:0:application_deadline:\"2026-09-10\"" then
    "68157cf6ef8c0fcd61b6d72f"
  else if text = "t1:opp_956ef1c39f421d076f10bf5c:1788220800000:u1" then "2dda0857775220c0c92b176f"
  else IngestContext.clubDigest text

/-- A service that meets two instants. -/
def deadlineContext : IngestContext where
  getTime value :=
    if value = .str "2026-09-10" then some 1788998400000
    else IngestContext.clubContext.getTime value
  digest := reviewDigest
  sha256 := StageRun.pageSha256
  parseUrl _ := none

/-- The extractor reads a deadline. -/
def deadlineEnv : DocumentEnv :=
  { IngestContext.openEnv with
    extraction := .ok ⟨[⟨.applicationDeadline, .str "2026-09-10", 92 / 100, none, some .date⟩], []⟩ }

/-- A database that has ingested the page. -/
def deadlineDatabase : Database :=
  (deadlineContext.document deadlineEnv { Database.empty with organizations := [⟨"t1", "club"⟩] }
    (StageRun.page "Applications close on 10 September.") "t1").1

/-- The platform of the requests below. -/
def reviewContext : ReviewContext where
  formats :=
    { datetime := fun text => text = "2026-10-02T17:00:00-04:00"
      url := fun _ => false
      parseUrl := fun _ => none
      datetime_empty := by decide }
  column :=
    { read := textOf ∘ some
      read_str := fun _ => rfl }
  getTime := deadlineContext.getTime
  digest := reviewDigest

/-- An administrator overrides the deadline of the application. -/
def deadlineReview (deadlineAt : Json) : List ReviewStep :=
  [.other deadlineDatabase,
    .review
      { principal := ⟨"u1", "t1", [.platformAdmin], []⟩
        organizationId := "club"
        opportunityId := "opp_956ef1c39f421d076f10bf5c"
        body := .obj
          [("patch", .obj [("deadlineAt", deadlineAt)]), ("reason", .str "Confirmed by the club.")]
        dateNow := 1788220800000
        createdAt := 1788220800000
        resolvedAt := 1788220800000
        clock := IngestContext.openEnv.clock }]

/-- The state before the page. -/
def beforePage : ReviewRun := ⟨{ Database.empty with organizations := [⟨"t1", "club"⟩] }, []⟩

theorem beforePage_reached : Reached reviewContext beforePage := .start ⟨rfl, rfl⟩

/-- A deadline that a request clears is still there after the next run of the resolver. -/
theorem overrides_not_survive :
    ∃ s, Reached reviewContext s ∧ ¬ s.OverridesSurvive reviewContext ∧
      ∃ db' o, s.db.resolve reviewContext.getTime reviewContext.digest IngestContext.openEnv.clock
          "club" "t1" 1788220800000 = some db' ∧
        o ∈ db'.opportunitiesOf "t1" "club" ∧
        s.latest "t1" "club" o.id .deadlineAt = some none ∧ o.deadlineAt = some "2026-09-10" := by
  have hrun : (Transition.exec (step reviewContext) beforePage (deadlineReview .null)).any fun s =>
      (s.db.resolve reviewContext.getTime reviewContext.digest IngestContext.openEnv.clock "club"
        "t1" 1788220800000).any fun db' => (db'.opportunitiesOf "t1" "club").any fun o =>
          s.latest "t1" "club" o.id .deadlineAt = some none ∧ o.deadlineAt = some "2026-09-10" := by
    decide +kernel
  obtain ⟨s, hs, hresolved⟩ := (Option.any_eq_true _ _).mp hrun
  obtain ⟨db', hresolve, ho⟩ := (Option.any_eq_true _ _).mp hresolved
  obtain ⟨o, ho, hend⟩ := List.any_eq_true.mp ho
  obtain ⟨hlatest, hdeadline⟩ := of_decide_eq_true hend
  refine ⟨s, beforePage_reached.of_exec hs, fun hsurvive => ?_, db', o, hresolve, ho, hlatest,
    hdeadline⟩
  have hcleared := hsurvive.resolved "t1" "club" _ _ db' hresolve o ho .deadlineAt none hlatest
  rw [Opportunity.field, hdeadline] at hcleared
  cases hcleared

/-- A deadline that a request sets survives. -/
theorem overrides_survive_deadline :
    ∃ s, Transition.exec (step reviewContext) beforePage
        (deadlineReview (.str "2026-10-02T17:00:00-04:00")) = some s ∧
      s.OverridesSurvive reviewContext := by
  have hrun : (Transition.exec (step reviewContext) beforePage
      (deadlineReview (.str "2026-10-02T17:00:00-04:00"))).any fun s =>
        s.reviews.all fun review =>
          PatchField.all.all fun f => review.patch.field f ≠ some none := by
    decide +kernel
  obtain ⟨s, hs, hreviews⟩ := (Option.any_eq_true _ _).mp hrun
  refine ⟨s, hs, (overrides_survive_iff (beforePage_reached.of_exec hs)).mpr ?_⟩
  intro review hreview f
  have hall := List.all_eq_true.mp (List.all_eq_true.mp hreviews review hreview) f
    (by cases f <;> decide)
  exact of_decide_eq_true hall

end ReviewRun

end RecruitingOs
