import RecruitingOs.Resolver.Resolve

/-!
# What the resolver returns

The facts about an opportunity in the output that do not depend on which claims win:
its organization, the claims that it names, and which of its fields the overrides leave
alone (`map_foldl_applyOverride`).
-/

namespace RecruitingOs

namespace Resolver

variable {getTime : Json → Option ℤ} {digest : String → String} {view : View} {clock : Clock}
  {orgId : String} {now : ℤ}

section Overrides

variable {α : Type} {f : Opportunity → α}

theorem map_applyOverride (hf : ∀ override o, f (applyPatch override o) = f o)
    (out : List Opportunity) (override : OpportunityOverride) :
    (applyOverride out override).map f = out.map f := by
  induction out with
  | nil => rfl
  | cons o rest ih =>
      unfold applyOverride
      split
      · rw [List.map_cons, List.map_cons, hf]
      · rw [List.map_cons, List.map_cons, ih]

/-- A field that no patch writes is the same before and after all overrides. -/
theorem map_foldl_applyOverride (hf : ∀ override o, f (applyPatch override o) = f o)
    (overrides : List OpportunityOverride) (out : List Opportunity) :
    (overrides.foldl applyOverride out).map f = out.map f := by
  induction overrides generalizing out with
  | nil => rfl
  | cons override rest ih =>
      rw [List.foldl_cons, ih, map_applyOverride hf]

/-- So each opportunity of the output has that field from one before the overrides. -/
theorem exists_resolved (hf : ∀ override o, f (applyPatch override o) = f o)
    {o : Opportunity} (ho : o ∈ resolveOrganization getTime digest view clock orgId now) :
    ∃ o' ∈ resolved getTime digest view clock orgId now, f o' = f o := by
  have hmem : f o ∈ (resolveOrganization getTime digest view clock orgId now).map f :=
    List.mem_map_of_mem ho
  rw [resolveOrganization, map_foldl_applyOverride hf] at hmem
  exact List.mem_map.mp hmem

end Overrides

/-- What holds of the application and of every event holds of all opportunities. -/
theorem forall_resolved {P : Opportunity → Prop}
    (happlication : ∀ o ∈ application getTime digest view clock orgId now, P o)
    (hevent : ∀ c ∈ eventClaims view.claims, ∀ resolvedAt,
      P (eventOpportunity getTime digest (scores getTime view clock) orgId now resolvedAt c))
    {o : Opportunity} (ho : o ∈ resolved getTime digest view clock orgId now) : P o := by
  unfold resolved at ho
  dsimp only at ho
  rcases List.mem_append.mp ho with hin | hin
  · exact happlication o hin
  · obtain ⟨⟨c, j⟩, hc, rfl⟩ := List.mem_map.mp hin
    exact hevent c (List.mem_zipIdx_iff_getElem?.mp hc |> List.mem_of_getElem?) _

/-- The output is about the organization. -/
theorem organizationId_of_mem {o : Opportunity}
    (ho : o ∈ resolveOrganization getTime digest view clock orgId now) :
    o.organizationId = orgId := by
  obtain ⟨o', ho', hsame⟩ := exists_resolved (f := Opportunity.organizationId)
    (fun _ _ => rfl) ho
  rw [← hsame]
  refine forall_resolved (P := fun o => o.organizationId = orgId) ?_ (fun _ _ _ => rfl) ho'
  intro o ho
  unfold application at ho
  dsimp only at ho
  split at ho
  · rw [List.mem_singleton.mp ho]
  · cases ho

theorem mem_of_head?_sortDescending {α : Type} {key : α → Option ℚ} {xs : List α} {x : α}
    (h : (sortDescending key xs).head? = some x) : x ∈ xs := by
  have hmem : x ∈ sortDescending key xs := List.mem_of_mem_head? h
  unfold sortDescending at hmem
  rwa [List.mem_insertionSort] at hmem

/-- An opportunity names claims of the view only, with or without overrides. -/
theorem sourceClaimIds_of_mem {o : Opportunity}
    (ho : o ∈ resolveOrganization getTime digest view clock orgId now) :
    ∀ id ∈ o.sourceClaimIds, ∃ c ∈ view.claims, c.id = id := by
  obtain ⟨o', ho', hsame⟩ := exists_resolved (f := Opportunity.sourceClaimIds)
    (fun _ _ => rfl) ho
  rw [← hsame]
  refine forall_resolved (P := fun o => ∀ id ∈ o.sourceClaimIds, ∃ c ∈ view.claims, c.id = id)
    ?_ ?_ ho'
  · intro o ho id hid
    unfold application at ho
    dsimp only at ho
    split at ho
    · rw [List.mem_singleton.mp ho] at hid
      obtain ⟨best, hbest, hsome⟩ := List.mem_filterMap.mp (List.mem_filter.mp hid).1
      obtain ⟨c, rfl, rfl⟩ := Option.map_eq_some_iff.mp hsome
      -- each of the three is the first of some of the claims
      have hfirst : ∀ (key : Claim → Option ℚ) (f : ClaimField),
          (sortDescending key (view.claims.filter fun c => c.field = f)).head? = some c →
            c ∈ view.claims := fun key f h =>
        (List.mem_filter.mp (mem_of_head?_sortDescending h)).1
      refine ⟨c, ?_, rfl⟩
      simp only [List.mem_cons, List.not_mem_nil, or_false] at hbest
      rcases hbest with hbest | hbest | hbest <;> exact hfirst _ _ hbest.symm
    · cases ho
  · intro c hc resolvedAt id hid
    exact ⟨c, (List.mem_filter.mp hc).1, (List.mem_singleton.mp hid).symm⟩

end Resolver

end RecruitingOs
