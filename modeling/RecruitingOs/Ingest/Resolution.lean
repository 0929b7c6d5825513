import RecruitingOs.Ingest.Model
import RecruitingOs.Resolver.Output

/-!
# The stored opportunities after a resolution

`Database.resolve` runs wherever the organization is recomputed: in the claims
transaction, after an override and after an erasure.  `resolve_eq_some` is all that it
does: the opportunities of one organization become the resolver's output on what the
database holds, and everything else stays.
-/

namespace RecruitingOs

namespace Database

variable {getTime : Json → Option ℤ} {digest : String → String} {db db' : Database}
  {clock : Resolver.Clock} {orgId tenantId : String} {now : ℤ}

/-- The opportunities of an organization, as they are stored. -/
def opportunitiesOf (db : Database) (tenantId orgId : String) : List Opportunity :=
  (db.opportunities.filter (OpportunityRow.ofOrganization tenantId orgId)).map
    OpportunityRow.opportunity

/-- The resolver reads other tables than the one that it writes. -/
@[simp]
theorem view_opportunities (opportunities : List OpportunityRow) :
    { db with opportunities := opportunities }.view orgId tenantId = db.view orgId tenantId :=
  rfl

theorem ofOrganization_iff {row : OpportunityRow} :
    row.ofOrganization tenantId orgId ↔
      row.tenantId = tenantId ∧ row.opportunity.organizationId = orgId := by
  simp [OpportunityRow.ofOrganization]

/-- **What a resolution can do.** -/
theorem resolve_eq_some (h : db.resolve getTime digest clock orgId tenantId now = some db') :
    (∃ opportunities, db' = { db with opportunities := opportunities }) ∧
      db'.opportunitiesOf tenantId orgId =
        Resolver.resolveOrganization getTime digest (db.view orgId tenantId) clock orgId now ∧
      (db'.opportunities.filter fun row => ¬ row.ofOrganization tenantId orgId) =
        db.opportunities.filter fun row => ¬ row.ofOrganization tenantId orgId := by
  obtain ⟨opportunities, hreplace, rfl⟩ := Option.map_eq_some_iff.mp h
  refine ⟨⟨opportunities, rfl⟩, ?_, ?_⟩
  all_goals
    obtain ⟨-, -, rfl⟩ := replaceOpportunities_eq_some.mp hreplace
    have hown : ∀ o ∈ Resolver.resolveOrganization getTime digest (db.view orgId tenantId) clock
        orgId now, (OpportunityRow.mk tenantId o).ofOrganization tenantId orgId := fun o ho =>
      ofOrganization_iff.mpr ⟨rfl, Resolver.organizationId_of_mem ho⟩
  · rw [opportunitiesOf, List.filter_append]
    have hrest : (db.opportunities.filter fun row => ¬ row.ofOrganization tenantId orgId).filter
        (OpportunityRow.ofOrganization tenantId orgId) = [] := by
      rw [List.filter_eq_nil_iff]
      intro row hrow
      simpa using (List.mem_filter.mp hrow).2
    rw [hrest, List.nil_append, List.filter_eq_self.mpr, List.map_map]
    · exact List.map_id _
    · intro row hrow
      obtain ⟨o, ho, rfl⟩ := List.mem_map.mp hrow
      exact hown o ho
  · have hnone : ((Resolver.resolveOrganization getTime digest (db.view orgId tenantId) clock orgId
        now).map (OpportunityRow.mk tenantId)).filter
          (fun row => ¬ row.ofOrganization tenantId orgId) = [] := by
      rw [List.filter_eq_nil_iff]
      intro row hrow
      obtain ⟨o, ho, rfl⟩ := List.mem_map.mp hrow
      simp [hown o ho]
    rw [List.filter_append, hnone, List.append_nil, List.filter_filter]
    simp only [Bool.and_self]

/-- A stored opportunity names claims that are stored, of its organization and tenant. -/
theorem sourceClaimIds_of_resolve
    (h : db.resolve getTime digest clock orgId tenantId now = some db') {o : Opportunity}
    (ho : o ∈ db'.opportunitiesOf tenantId orgId) :
    ∀ id ∈ o.sourceClaimIds, ∃ c ∈ db'.claims,
      c.id = id ∧ c.tenantId = tenantId ∧ c.organizationId = orgId := by
  obtain ⟨⟨opportunities, rfl⟩, houtput, -⟩ := resolve_eq_some h
  intro id hid
  rw [houtput] at ho
  obtain ⟨c, hc, hcid⟩ := Resolver.sourceClaimIds_of_mem ho id hid
  have hlisted : c ∈ db.listClaims orgId tenantId := hc
  rw [listClaims, List.mem_insertionSort, List.mem_filter, decide_eq_true_eq] at hlisted
  exact ⟨c, hlisted.1, hcid, hlisted.2⟩

end Database

end RecruitingOs
