import Mathlib.Data.List.Sort
import Mathlib.Data.Rat.Cast.Order
import RecruitingOs.Domain.Models

/-!
# `resolveOrganization`

The function of `src/resolver.ts`, as the opportunities that it computes from the
answers of its reads: `listClaims`, `getSource` (of which it uses the source type)
and `listOpportunityOverrides`.

Two parts of the platform are parameters.  `digest` is the hash of `stableId`, and
`getTime` is `new Date(value).getTime()`, `none` for `NaN`.  Scores are exact
rationals, `none` for `NaN`; a comparison with `NaN` makes `Array.sort` treat the
two elements as equal.
-/

namespace RecruitingOs

namespace Resolver

/-! ### Numbers that may be `NaN` -/

/-- `Math.max`. -/
def maxNum (a b : Option ℚ) : Option ℚ := a.bind fun a => b.map fun b => max a b

/-- `a - b > 0` as the comparator of `sort` sees it. -/
def exceeds (a b : Option ℚ) : Bool := a.any fun a => b.any fun b => b < a

/-- `xs.sort((a, b) => key(b) - key(a))`: stable, the largest key first. -/
def sortDescending {α : Type} (key : α → Option ℚ) (xs : List α) : List α :=
  xs.insertionSort fun a b => ¬ exceeds (key b) (key a)

/-! ### The parts of `resolveOrganization` -/

/-- `authority`. -/
def authority : SourceType → ℚ
  | .application => 1
  | .groupme => 96 / 100
  | .instagram => 94 / 100
  | .gmail => 92 / 100
  | .linkedin => 88 / 100
  | .website => 78 / 100
  | .bioLink => 75 / 100
  | .screenshot => 72 / 100
  | .heelLife => 55 / 100

def resolverVersion : String := "resolver-v2"

/-- What `resolveOrganization` reads. -/
structure View where
  claims : List Claim
  sourceType : String → Option SourceType
  overrides : List OpportunityOverride

/-- The clock: the reading that scores the `i`-th claim, and the one that stamps the
`j`-th opportunity. -/
structure Clock where
  scoredAt : ℕ → ℤ
  resolvedAt : ℕ → ℤ

section Parts

variable (getTime : Json → Option ℤ)

/-- `new Date(c.publishedAt ?? c.extractedAt).getTime()`. -/
def claimTime (c : Claim) : Option ℤ := getTime (.str (c.publishedAt.getD c.extractedAt))

/-- `scoreClaim`. -/
def scoreClaim (sourceType : String → Option SourceType) (now : ℤ) (c : Claim) : Option ℚ :=
  let a := ((sourceType c.sourceItemId).map authority).getD (5 / 10)
  (claimTime getTime c).map fun t =>
    let ageDays : ℚ := max 0 ((now - t : ℤ) / 86400000)
    let recency : ℚ := max (55 / 100) (1 - min ageDays 365 / 800)
    c.confidence * a * recency

/-- The map `scores`: claim ids are the key of the table, so each has one entry. -/
def scores (view : View) (clock : Clock) : List (String × Option ℚ) :=
  view.claims.zipIdx.map fun (c, i) =>
    (c.id, scoreClaim getTime view.sourceType (clock.scoredAt i) c)

/-- `score(claim)`. -/
def score (table : List (String × Option ℚ)) : Option Claim → Option ℚ
  | some c => (table.lookup c.id).getD (some 0)
  | none => some 0

/-- `newest(xs)`. -/
def newest (xs : List Claim) : Option Claim :=
  (sortDescending (fun c => (claimTime getTime c).map fun t => (t : ℚ)) xs).head?

/-- `a >= b` and `a > b` for times that may be `NaN`. -/
def notBefore (a b : Option ℤ) : Bool := a.any fun a => b.any fun b => b ≤ a

def after (a b : Option ℤ) : Bool := a.any fun a => b.any fun b => b < a

/-- The application opportunity. -/
def application (digest : String → String) (view : View) (clock : Clock) (orgId : String)
    (now : ℤ) : List Opportunity :=
  let rank := fun c => score (scores getTime view clock) (some c)
  let field := fun f => view.claims.filter fun c => c.field = f
  let bestDeadline := (sortDescending rank (field .applicationDeadline)).head?
  let bestUrl := (sortDescending rank (field .applicationUrl)).head?
  let latestOpen := newest getTime (field .applicationOpen)
  if bestDeadline.isSome ∨ latestOpen.isSome then
    let deadlineAt := bestDeadline.map fun c => c.value.toText
    let deadlineTime := deadlineAt.bind fun text => getTime (.str text)
    let latestOpenTime := (latestOpen.map (claimTime getTime)).getD (some 0)
    let deadlineClaimTime := (bestDeadline.map (claimTime getTime)).getD (some 0)
    let explicitlyClosed : Bool :=
      latestOpen.any (·.value = .bool false) ∧ notBefore latestOpenTime deadlineClaimTime
    let reopened : Bool :=
      latestOpen.any (·.value = .bool true) ∧ after latestOpenTime deadlineClaimTime
    let stale : Bool := explicitlyClosed ∨ (¬ reopened ∧ deadlineTime.any (· < now))
    [{  id := stableId digest "opp" (orgId ++ ":application")
        organizationId := orgId
        kind := .application
        title := "Application"
        deadlineAt := if reopened then none else deadlineAt
        startsAt := none
        url := bestUrl.map fun c => .str c.value.toText
        confidence := maxNum (score (scores getTime view clock) bestDeadline)
          (score (scores getTime view clock) latestOpen)
        stale := stale
        sourceClaimIds :=
          ([bestDeadline, bestUrl, latestOpen].filterMap fun c => c.map Claim.id).filter (· ≠ "")
        explanation :=
          if reopened then
            "A newer source says applications are open; older deadline suppressed until a current deadline is confirmed."
          else if explicitlyClosed then
            "The newest authoritative source says applications are closed."
          else if stale then "The best-supported deadline is in the past."
          else "Resolved from the highest-confidence application claims."
        resolvedAt := clock.resolvedAt 0
        resolverVersion := resolverVersion
        deadlinePrecision := if reopened then none else
          bestDeadline.bind Claim.temporalPrecision
        startsAtPrecision := none }]
  else []

/-- The part of an event's id that its claim determines:
`${v.title}:${v.startsAt ?? ''}`. -/
def eventKey (value : Json) : String :=
  Json.toTemplate (value.get? "title") ++ ":" ++
    ((value.get? "startsAt").filter (· ≠ .null)).elim "" Json.toText

/-- The event claims that make an opportunity. -/
def eventClaims (claims : List Claim) : List Claim :=
  claims.filter fun c => c.field = .event ∧ c.value.isObject

/-- The opportunity of one event claim. -/
def eventOpportunity (digest : String → String) (table : List (String × Option ℚ))
    (orgId : String) (now resolvedAt : ℤ) (c : Claim) : Opportunity where
  id := stableId digest "opp" (orgId ++ ":event:" ++ eventKey c.value)
  organizationId := orgId
  kind := .event
  title := ((c.value.get? "title").filter (· ≠ .null)).elim "Recruiting event" Json.toText
  deadlineAt := none
  startsAt := c.value.get? "startsAt"
  url := c.value.get? "url"
  confidence := score table (some c)
  stale := (c.value.get? "startsAt").any fun startsAt =>
    startsAt.truthy ∧ (getTime startsAt).any (· < now)
  sourceClaimIds := [c.id]
  explanation := "Event extracted from recruiting source."
  resolvedAt := resolvedAt
  resolverVersion := resolverVersion
  deadlinePrecision := none
  startsAtPrecision := c.value.get? "startsAtPrecision"

/-- The opportunities before the overrides: `out` after the loop over the events. -/
def resolved (digest : String → String) (view : View) (clock : Clock) (orgId : String)
    (now : ℤ) : List Opportunity :=
  let first := application getTime digest view clock orgId now
  let table := scores getTime view clock
  first ++ (eventClaims view.claims).zipIdx.map fun (c, j) =>
    eventOpportunity getTime digest table orgId now (clock.resolvedAt (first.length + j)) c

end Parts

/-! ### Overrides -/

/-- `Object.assign(opportunity, override.patch, …)`. -/
def applyPatch (override : OpportunityOverride) (o : Opportunity) : Opportunity :=
  { o with
    title := override.patch.title.getD o.title
    deadlineAt := override.patch.deadlineAt.or o.deadlineAt
    startsAt := (override.patch.startsAt.map Json.str).or o.startsAt
    url := (override.patch.url.map Json.str).or o.url
    stale := override.patch.stale.getD o.stale
    explanation := o.explanation ++ " Reviewed override: " ++ override.reason
    resolverVersion := resolverVersion ++ "+review" }

/-- One round of the loop over the overrides: the first opportunity with the id. -/
def applyOverride (out : List Opportunity) (override : OpportunityOverride) : List Opportunity :=
  match out with
  | [] => []
  | o :: rest =>
      if o.id = override.opportunityId then applyPatch override o :: rest
      else o :: applyOverride rest override

/-- The opportunities that `resolveOrganization(store, orgId, now, tenantId)` hands to
`replaceOpportunities` and returns. -/
def resolveOrganization (getTime : Json → Option ℤ) (digest : String → String) (view : View)
    (clock : Clock) (orgId : String) (now : ℤ) : List Opportunity :=
  view.overrides.foldl applyOverride (resolved getTime digest view clock orgId now)

end Resolver

end RecruitingOs
