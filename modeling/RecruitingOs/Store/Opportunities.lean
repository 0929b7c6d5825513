import RecruitingOs.Domain.Models
import RecruitingOs.Lib.Table

/-!
# The `opportunities` table

`replaceOpportunities` of `src/store.ts` and of the Postgres store: delete the rows
of the organization, then one `insert` for each opportunity.  A violation of the
primary key `(tenant_id, id)` aborts the transaction, so the result is `none`.
-/

namespace RecruitingOs

/-- A row of `opportunities`. -/
structure OpportunityRow where
  tenantId : String
  opportunity : Opportunity
deriving Repr, DecidableEq

/-- The primary key. -/
def OpportunityRow.key (row : OpportunityRow) : String × String :=
  (row.tenantId, row.opportunity.id)

/-- `where tenant_id=? and organization_id=?`. -/
def OpportunityRow.ofOrganization (tenantId orgId : String) (row : OpportunityRow) : Bool :=
  row.tenantId = tenantId ∧ row.opportunity.organizationId = orgId

/-- `replaceOpportunities(organizationId, opportunities, tenantId)`. -/
def replaceOpportunities (rows : List OpportunityRow) (tenantId orgId : String)
    (opportunities : List Opportunity) : Option (List OpportunityRow) :=
  Table.insertAll OpportunityRow.key
    (rows.filter fun row => ¬ row.ofOrganization tenantId orgId)
    (opportunities.map (OpportunityRow.mk tenantId))

/-- The replacement goes through exactly when the new ids are pairwise distinct and
no other organization of the tenant has one of them. -/
theorem replaceOpportunities_eq_some {rows out : List OpportunityRow} {tenantId orgId : String}
    {opportunities : List Opportunity} :
    replaceOpportunities rows tenantId orgId opportunities = some out ↔
      (opportunities.map Opportunity.id).Nodup ∧
      (∀ row ∈ rows, row.tenantId = tenantId → row.opportunity.organizationId ≠ orgId →
        ∀ o ∈ opportunities, row.opportunity.id ≠ o.id) ∧
      out = (rows.filter fun row => ¬ row.ofOrganization tenantId orgId) ++
        opportunities.map (OpportunityRow.mk tenantId) := by
  have hnodup : ((opportunities.map (OpportunityRow.mk tenantId)).map OpportunityRow.key).Nodup ↔
      (opportunities.map Opportunity.id).Nodup := by
    rw [List.map_map]
    apply Table.nodup_map_congr
    intro a _ b _
    simp [OpportunityRow.key]
  have hdisjoint : (∀ old ∈ rows.filter fun row => ¬ row.ofOrganization tenantId orgId,
        ∀ new ∈ opportunities.map (OpportunityRow.mk tenantId),
          OpportunityRow.key old ≠ OpportunityRow.key new) ↔
      ∀ row ∈ rows, row.tenantId = tenantId → row.opportunity.organizationId ≠ orgId →
        ∀ o ∈ opportunities, row.opportunity.id ≠ o.id := by
    constructor
    · intro h row hrow htenant horg o ho hid
      refine h row ?_ ⟨tenantId, o⟩ (List.mem_map_of_mem ho) ?_
      · rw [List.mem_filter]
        refine ⟨hrow, decide_eq_true fun hsame => horg (of_decide_eq_true hsame).2⟩
      · exact Prod.ext htenant hid
    · intro h old hold new hnew hkey
      obtain ⟨o, ho, rfl⟩ := List.mem_map.mp hnew
      obtain ⟨hmem, hother⟩ := List.mem_filter.mp hold
      have htenant : old.tenantId = tenantId := congrArg Prod.fst hkey
      have hid : old.opportunity.id = o.id := congrArg Prod.snd hkey
      refine h old hmem htenant ?_ o ho hid
      intro horg
      exact of_decide_eq_true hother (decide_eq_true ⟨htenant, horg⟩)
  unfold replaceOpportunities
  rw [Table.insertAll_eq_some, hnodup, hdisjoint]

end RecruitingOs
