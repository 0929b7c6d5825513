import RecruitingOs.Lib.DerivedView
import RecruitingOs.Resolver.Output
import RecruitingOs.Store.Claims

/-!
# Concurrent resolutions over Postgres

The claims transaction of an ingest, an override and a `privacy.reconcile` all
resolve the organization: they list its claims and overrides and replace its
opportunities.  `PostgresStore` runs them at READ COMMITTED and locks nothing that
they share, so each is a transaction of the derived view `opportunitiesView`.  (A
reconcile writes no evidence and reads outside its transaction, which at READ
COMMITTED is the same.)

A transaction that read the claims before another one committed and commits after
it puts back opportunities without the other's evidence; `lost_claim` is such a run.
`opportunities_of_fresh` is what holds: the stored opportunities are those of all
committed evidence in every state where the transaction that committed last had read
the claims after every other commit.
-/

namespace RecruitingOs

open Resolver

/-- The stored evidence of one organization: its claims and its active overrides. -/
structure Evidence where
  claims : List Claim
  overrides : List OpportunityOverride
deriving Repr, DecidableEq

/-- A row of evidence that a transaction writes. -/
inductive EvidenceWrite where
  | putClaim (claim : Claim)
  | putOverride (override : OpportunityOverride)
deriving Repr, DecidableEq

/-- The clock and the `now` of one resolution. -/
structure ResolveTime where
  clock : Clock
  now : ℤ

namespace Evidence

/-- The table that a write leaves, `none` where it violates a key. -/
def write? (e : Evidence) : EvidenceWrite → Option Evidence
  | .putClaim claim =>
      (putClaim postgresSameValue e.claims claim).map fun claims => { e with claims := claims }
  | .putOverride override =>
      (Table.insert OpportunityOverride.id e.overrides override).map fun overrides =>
        { e with overrides := overrides }

/-- Two writes of one row. -/
def conflicts : EvidenceWrite → EvidenceWrite → Bool
  | .putClaim a, .putClaim b => a.sameKey postgresSameValue b ∨ a.id = b.id
  | .putOverride a, .putOverride b => a.id = b.id
  | _, _ => false

variable (getTime : Json → Option ℤ)

/-- An answer of `listClaims`: the claims in some order of
`coalesce(published_at,extracted_at)`. -/
def isListing (e : Evidence) (claims : List Claim) : Bool :=
  claims.isPerm e.claims ∧
    claims.Pairwise fun a b => ¬ after (claimTime getTime a) (claimTime getTime b)

/-- An answer of `listOpportunityOverrides`: the overrides in some order of
`created_at`. -/
def isOverrideListing (e : Evidence) (overrides : List OpportunityOverride) : Bool :=
  overrides.isPerm e.overrides ∧
    overrides.Pairwise fun a b =>
      ¬ after (getTime (.str a.createdAt)) (getTime (.str b.createdAt))

end Evidence

/-- The opportunities of an organization as a view derived from its evidence. -/
def opportunitiesView (getTime : Json → Option ℤ) (digest : String → String)
    (sourceType : String → Option SourceType) (orgId : String) :
    DerivedView Evidence EvidenceWrite (List Claim) (List OpportunityOverride) ResolveTime
      Opportunity String where
  write e w := (e.write? w).getD e
  admits e w := (e.write? w).isSome
  conflicts := Evidence.conflicts
  first := Evidence.isListing getTime
  second := Evidence.isOverrideListing getTime
  derive claims overrides time :=
    resolveOrganization getTime digest ⟨claims, sourceType, overrides⟩ time.clock orgId time.now
  key := Opportunity.id

/-- The state of all transactions on one organization. -/
abbrev OrganizationState := DerivedView.State Evidence EvidenceWrite (List Claim) Opportunity

/-- One statement of a transaction on one organization. -/
abbrev OrganizationStep :=
  DerivedView.Step EvidenceWrite (List Claim) (List OpportunityOverride) ResolveTime

namespace OrganizationState

variable {getTime : Json → Option ℤ} {digest : String → String}
  {sourceType : String → Option SourceType} {orgId : String} {s : OrganizationState}

/-- The committed opportunities are what `resolveOrganization` computes, at some clock
reading, from the committed claims and the active overrides. -/
def Agrees (getTime : Json → Option ℤ) (digest : String → String)
    (sourceType : String → Option SourceType) (orgId : String) (s : OrganizationState) : Prop :=
  ∃ claims overrides clock now,
    s.evidence.isListing getTime claims ∧ s.evidence.isOverrideListing getTime overrides ∧
    (s.rows.map DerivedView.Row.content).Perm
      (resolveOrganization getTime digest ⟨claims, sourceType, overrides⟩ clock orgId now)

theorem agrees_iff :
    Agrees getTime digest sourceType orgId s ↔
      (opportunitiesView getTime digest sourceType orgId).Consistent s := by
  constructor
  · rintro ⟨claims, overrides, clock, now, hclaims, hoverrides, hrows⟩
    exact ⟨claims, overrides, ⟨clock, now⟩, hclaims, hoverrides, hrows⟩
  · rintro ⟨claims, overrides, time, hclaims, hoverrides, hrows⟩
    exact ⟨claims, overrides, time.clock, time.now, hclaims, hoverrides, hrows⟩

/-- A state with no transaction in flight whose opportunities agree with the evidence. -/
structure AtRest (getTime : Json → Option ℤ) (digest : String → String)
    (sourceType : String → Option SourceType) (orgId : String) (s : OrganizationState) : Prop where
  nodup_rid : (s.rows.map DerivedView.Row.rid).Nodup
  rid_lt : ∀ row ∈ s.rows, row.rid < s.nextRid
  txs : s.txs = []
  agrees : Agrees getTime digest sourceType orgId s

/-- **Derived state under concurrency.**  In every state of every run of transactions on
one organization, the stored opportunities agree with all committed claims and active
overrides if the transaction that committed last had listed the claims after every
other commit. -/
theorem opportunities_of_fresh (h : AtRest getTime digest sourceType orgId s)
    (run : List OrganizationStep) :
    Transition.EveryState (DerivedView.step (opportunitiesView getTime digest sourceType orgId))
      (fun s => s.fresh → Agrees getTime digest sourceType orgId s) s run := by
  have hsettled : DerivedView.Settled (opportunitiesView getTime digest sourceType orgId) s :=
    ⟨h.nodup_rid, h.rid_lt, h.txs, agrees_iff.mp h.agrees⟩
  refine (DerivedView.consistent_of_fresh hsettled run).mono ?_
  intro t ht hfresh
  exact agrees_iff.mpr (ht hfresh)

/-! ### Two ingests at once -/

/-- An organization without evidence. -/
def blank : OrganizationState := ⟨⟨[], []⟩, [], 0, 0, true, []⟩

theorem blank_atRest : AtRest getTime digest sourceType orgId blank where
  nodup_rid := List.nodup_nil
  rid_lt := by
    intro row hrow
    cases hrow
  txs := rfl
  agrees := ⟨[], [], ⟨fun _ => 0, fun _ => 0⟩, 0, rfl, rfl, List.Perm.refl _⟩

/-- The claim of an event with this title. -/
def eventClaim (id title : String) : Claim where
  id := id
  tenantId := "t1"
  organizationId := "chess-club"
  sourceItemId := "srcv_" ++ id
  field := .event
  value := .obj [("title", .str title)]
  confidence := 1
  publishedAt := none
  extractedAt := "2026-09-01T12:00:00.000Z"
  supersedes := []
  evidence := none
  temporalPrecision := none

def meeting : Claim := eventClaim "clm_1" "Info session"

def coffee : Claim := eventClaim "clm_2" "Coffee chat"

def atZero : ResolveTime := ⟨⟨fun _ => 0, fun _ => 0⟩, 0⟩

/-- The statements of the claims transaction of one ingest up to its commit, where the
committed rows are `rids`. -/
def ingestUntilRead (t : ℕ) (claim : Claim) : List OrganizationStep :=
  [.start t, .write t (.putClaim claim), .readFirst t [claim], .readSecond t [] atZero]

def replaceAndCommit (t : ℕ) (rids : List ℕ) : List OrganizationStep :=
  .delete t :: (rids.map (.deleteRow t) ++ [.fill t, .insert t, .commit t])

/-- Two ingests list the claims before either commits. -/
def overlapping : List OrganizationStep :=
  ingestUntilRead 1 meeting ++ ingestUntilRead 2 coffee ++ replaceAndCommit 1 [] ++
    replaceAndCommit 2 [0]

/-- The resolver computes an opportunity for each event claim. -/
theorem eventClaims_length_le (getTime : Json → Option ℤ) (digest : String → String)
    (orgId : String) (view : View) (clock : Clock) (now : ℤ) :
    (eventClaims view.claims).length ≤
      (resolveOrganization getTime digest view clock orgId now).length := by
  have hids := congrArg List.length (map_foldl_applyOverride (f := Opportunity.id)
    (fun _ _ => rfl) view.overrides (resolved getTime digest view clock orgId now))
  rw [List.length_map, List.length_map] at hids
  rw [resolveOrganization, hids]
  unfold resolved
  dsimp only
  rw [List.length_append, List.length_map, List.length_zipIdx]
  exact Nat.le_add_left _ _

/-- After `overlapping` no transaction is in flight, both claims are committed and the
stored opportunities lack the first ingest's event. -/
theorem lost_claim :
    ¬ ∀ (getTime : Json → Option ℤ) (sourceType : String → Option SourceType)
      (s : OrganizationState), AtRest getTime id sourceType "chess-club" s → ∀ run,
      Transition.EveryState
        (DerivedView.step (opportunitiesView getTime id sourceType "chess-club"))
        (fun s => s.txs = [] → Agrees getTime id sourceType "chess-club" s) s run := by
  intro h
  obtain ⟨t, ht⟩ : ∃ t, Transition.exec
      (DerivedView.step (opportunitiesView (fun _ => none) id (fun _ => none) "chess-club"))
      blank overlapping = some t := ⟨_, rfl⟩
  have hstate := (h (fun _ => none) (fun _ => none) blank blank_atRest overlapping).exec ht
  have hquiet : t.txs = [] ∧ t.evidence.claims = [meeting, coffee] ∧ t.rows.length = 1 := by
    cases ht
    exact ⟨rfl, rfl, rfl⟩
  obtain ⟨htxs, hclaims, hrows⟩ := hquiet
  obtain ⟨claims, overrides, clock, now, hlisting, -, hperm⟩ := hstate htxs
  have hevents : (eventClaims claims).length = 2 := by
    have hclaimsPerm : claims.Perm t.evidence.claims :=
      List.isPerm_iff.mp (of_decide_eq_true hlisting).1
    rw [hclaims] at hclaimsPerm
    exact (hclaimsPerm.filter _).length_eq.trans rfl
  have hlength := eventClaims_length_le (fun _ => none) id "chess-club"
    ⟨claims, fun _ => none, overrides⟩ clock now
  rw [← hperm.length_eq, List.length_map, hrows] at hlength
  rw [hevents] at hlength
  omega

/-- One ingest on its own leaves the opportunities of its claim. -/
theorem opportunities_of_fresh_single :
    ∃ t, Transition.exec
        (DerivedView.step (opportunitiesView (fun _ => none) id (fun _ => none) "chess-club"))
        blank (ingestUntilRead 1 meeting ++ replaceAndCommit 1 []) = some t ∧
      t.rows.length = 1 ∧ Agrees (fun _ => none) id (fun _ => none) "chess-club" t := by
  obtain ⟨t, ht⟩ : ∃ t, Transition.exec
      (DerivedView.step (opportunitiesView (fun _ => none) id (fun _ => none) "chess-club"))
      blank (ingestUntilRead 1 meeting ++ replaceAndCommit 1 []) = some t := ⟨_, rfl⟩
  have hstate := (opportunities_of_fresh blank_atRest
    (ingestUntilRead 1 meeting ++ replaceAndCommit 1 [])).exec ht
  refine ⟨t, ht, ?_, hstate ?_⟩
  · cases ht
    rfl
  · cases ht
    rfl

end OrganizationState

end RecruitingOs
