import RecruitingOs.Domain.Models
import RecruitingOs.Lib.Table

/-!
# The `claims` table

The upsert of `putClaims`.  Its conflict target `(source_version_id, field, value)`
compares the stored value, which SQLite keeps as text and Postgres as `jsonb`;
`sameValue` is that comparison.
-/

namespace RecruitingOs

/-- `value` in SQLite: the text that `JSON.stringify` wrote. -/
def sqliteSameValue (a b : Json) : Bool := a.stringify = b.stringify

/-- `value` in Postgres: the `jsonb` value. -/
def postgresSameValue (a b : Json) : Bool := a.canonical = b.canonical

/-- `unique(source_version_id,field,value)`. -/
def Claim.sameKey (sameValue : Json → Json → Bool) (a b : Claim) : Bool :=
  a.sourceItemId = b.sourceItemId ∧ a.field = b.field ∧ sameValue a.value b.value

/-- One `insert into claims … on conflict … do update`; `none` where another row has
the id. -/
def putClaim (sameValue : Json → Json → Bool) (claims : List Claim) (claim : Claim) :
    Option (List Claim) :=
  let refresh (row : Claim) : Claim :=
    { row with
      confidence := claim.confidence
      evidence := claim.evidence
      extractedAt := claim.extractedAt }
  if claims.any (claim.sameKey sameValue) then
    some (Table.updateWhere (claim.sameKey sameValue) refresh claims)
  else Table.insert Claim.id claims claim

/-- `putClaims(claims)`. -/
def putClaims (sameValue : Json → Json → Bool) : List Claim → List Claim → Option (List Claim)
  | rows, [] => some rows
  | rows, claim :: rest => (putClaim sameValue rows claim).bind fun rows => putClaims sameValue rows rest

/-- **What `putClaim` can do**: refresh the rows with its key, or append the claim. -/
theorem putClaim_eq_some {sameValue : Json → Json → Bool} {claims out : List Claim} {claim : Claim}
    (h : putClaim sameValue claims claim = some out) :
    (∃ old ∈ claims, claim.sameKey sameValue old) ∧
        out = Table.updateWhere (claim.sameKey sameValue)
          (fun row => { row with
            confidence := claim.confidence
            evidence := claim.evidence
            extractedAt := claim.extractedAt }) claims ∨
      (∀ old ∈ claims, old.id ≠ claim.id) ∧ out = claims ++ [claim] := by
  unfold putClaim at h
  dsimp only at h
  split at h
  · rename_i hany
    cases h
    exact .inl ⟨List.any_eq_true.mp hany, rfl⟩
  · exact .inr (Table.insert_eq_some.mp h)

theorem Claim.sameKey_version {sameValue : Json → Json → Bool} {a b : Claim}
    (h : a.sameKey sameValue b) : a.sourceItemId = b.sourceItemId :=
  (of_decide_eq_true h).1

/-- The claims of the other versions are left alone. -/
theorem putClaims_other {sameValue : Json → Json → Bool} {id : String} {claims : List Claim}
    (hother : ∀ claim ∈ claims, claim.sourceItemId ≠ id) :
    ∀ {rows out : List Claim}, putClaims sameValue rows claims = some out →
      (out.filter fun c => c.sourceItemId = id) = rows.filter fun c => c.sourceItemId = id := by
  induction claims with
  | nil =>
      intro rows out h
      cases h
      rfl
  | cons claim rest ih =>
      intro rows out h
      rw [putClaims, Option.bind_eq_some_iff] at h
      obtain ⟨between, hclaim, hrest⟩ := h
      have hid : claim.sourceItemId ≠ id := hother claim List.mem_cons_self
      rw [ih (fun c hc => hother c (List.mem_cons_of_mem _ hc)) hrest]
      rcases putClaim_eq_some hclaim with ⟨-, rfl⟩ | ⟨-, rfl⟩
      · refine Table.filter_updateWhere_of_disjoint fun row hrow hsame => ?_
        have hversion := Claim.sameKey_version hsame
        have hrowid : row.sourceItemId ≠ id := fun h => hid (hversion.trans h)
        simp [hrowid]
      · simp [hid]

/-- The columns of a claim that the upsert does not refresh and that say what it is about. -/
def Claim.identity (c : Claim) : String × String × String × String × ClaimField × Json :=
  (c.id, c.tenantId, c.organizationId, c.sourceItemId, c.field, c.value)

theorem Claim.identity_eq_iff {a b : Claim} : a.identity = b.identity ↔
    a.id = b.id ∧ a.tenantId = b.tenantId ∧ a.organizationId = b.organizationId ∧
      a.sourceItemId = b.sourceItemId ∧ a.field = b.field ∧ a.value = b.value := by
  simp only [Claim.identity, Prod.mk.injEq]

theorem putClaim_identity {sameValue : Json → Json → Bool} {claims out : List Claim} {claim : Claim}
    (h : putClaim sameValue claims claim = some out) :
    (∀ old ∈ claims, ∃ row ∈ out, row.identity = old.identity) ∧
      ∀ row ∈ out, (∃ old ∈ claims, old.identity = row.identity) ∨
        claim.identity = row.identity := by
  rcases putClaim_eq_some h with ⟨-, rfl⟩ | ⟨-, rfl⟩
  · have hsame : (Table.updateWhere (claim.sameKey sameValue)
        (fun row => { row with
          confidence := claim.confidence
          evidence := claim.evidence
          extractedAt := claim.extractedAt }) claims).map Claim.identity =
        claims.map Claim.identity :=
      Table.map_key_updateWhere Claim.identity fun _ _ _ => rfl
    exact ⟨fun old hold => Table.exists_of_map_eq hsame.symm hold,
      fun row hrow => .inl (Table.exists_of_map_eq hsame hrow)⟩
  · refine ⟨fun old hold => ⟨old, List.mem_append_left _ hold, rfl⟩, fun row hrow => ?_⟩
    rcases List.mem_append.mp hrow with hold | hlast
    · exact .inl ⟨row, hold, rfl⟩
    · exact .inr (congrArg Claim.identity (List.mem_singleton.mp hlast).symm)

/-- **What `putClaims` leaves**: the old claims under their identities, and nothing that
was neither old nor put. -/
theorem putClaims_identity {sameValue : Json → Json → Bool} {claims : List Claim} :
    ∀ {rows out : List Claim}, putClaims sameValue rows claims = some out →
      (∀ old ∈ rows, ∃ row ∈ out, row.identity = old.identity) ∧
        ∀ row ∈ out, (∃ old ∈ rows, old.identity = row.identity) ∨
          ∃ new ∈ claims, new.identity = row.identity := by
  induction claims with
  | nil =>
      intro rows out h
      cases h
      exact ⟨fun old hold => ⟨old, hold, rfl⟩, fun row hrow => .inl ⟨row, hrow, rfl⟩⟩
  | cons claim rest ih =>
      intro rows out h
      rw [putClaims, Option.bind_eq_some_iff] at h
      obtain ⟨between, hclaim, hrest⟩ := h
      obtain ⟨hstays, hfrom⟩ := putClaim_identity hclaim
      obtain ⟨hstays', hfrom'⟩ := ih hrest
      refine ⟨fun old hold => ?_, fun row hrow => ?_⟩
      · obtain ⟨mid, hmid, hsame⟩ := hstays old hold
        obtain ⟨row, hrow, hsame'⟩ := hstays' mid hmid
        exact ⟨row, hrow, hsame'.trans hsame⟩
      · rcases hfrom' row hrow with ⟨mid, hmid, hsame⟩ | ⟨new, hnew, hsame⟩
        · rcases hfrom mid hmid with ⟨old, hold, hsame'⟩ | hsame'
          · exact .inl ⟨old, hold, hsame'.trans hsame⟩
          · exact .inr ⟨claim, List.mem_cons_self, hsame'.trans hsame⟩
        · exact .inr ⟨new, List.mem_cons_of_mem _ hnew, hsame⟩

/-- Every claim that is put has a row with its key. -/
theorem putClaims_stored {sameValue : Json → Json → Bool} (hrefl : ∀ v, sameValue v v)
    {claims : List Claim} : ∀ {rows out : List Claim}, putClaims sameValue rows claims = some out →
      ∀ claim ∈ claims, ∃ row ∈ out, claim.sameKey sameValue row := by
  have hkey : ∀ {claim a b : Claim}, a.identity = b.identity → claim.sameKey sameValue a →
      claim.sameKey sameValue b := by
    intro claim a b hsame h
    obtain ⟨-, -, -, hversion, hfield, hvalue⟩ := Claim.identity_eq_iff.mp hsame
    unfold Claim.sameKey at h ⊢
    rw [← hversion, ← hfield, ← hvalue]
    exact h
  induction claims with
  | nil =>
      intro rows out _ claim hmem
      cases hmem
  | cons claim rest ih =>
      intro rows out h c hc
      rw [putClaims, Option.bind_eq_some_iff] at h
      obtain ⟨between, hclaim, hrest⟩ := h
      rcases List.mem_cons.mp hc with rfl | hc
      · obtain ⟨mid, hmid, hmidKey⟩ : ∃ mid ∈ between, c.sameKey sameValue mid := by
          rcases putClaim_eq_some hclaim with ⟨⟨old, hold, hold'⟩, rfl⟩ | ⟨-, rfl⟩
          · refine ⟨_, Table.mem_updateWhere.mpr ⟨old, hold, if_pos hold'⟩, ?_⟩
            exact hkey (a := old) rfl hold'
          · refine ⟨c, by simp, ?_⟩
            simp [Claim.sameKey, hrefl]
        obtain ⟨row, hrow, hsame⟩ := (putClaims_identity hrest).1 mid hmid
        exact ⟨row, hrow, hkey hsame.symm hmidKey⟩
      · exact ih hrest c hc

end RecruitingOs
