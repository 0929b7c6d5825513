import Mathlib.Data.List.ProdSigma
import RecruitingOs.Repository.Agreeable

/-!
# Calls that read

An agreeable query on corresponding databases has answers that agree: whatever SQLite lists
and whatever Postgres lists have the same rows, with their timestamps as instants and their
JSON values as values, in the same order up to rows with one key (`Answer.Agrees`).
-/

namespace RecruitingOs.Repository

open Listing

/-- **The two answers are the same.**  Timestamps are compared as instants, and lists up to the
order of rows that `order by` does not tell apart. -/
def Answer.Agrees (server : Server) : Answer String → Answer ℤ → Prop
  | .organizations listed, .organizations listed' =>
      SameOrder OrganizationRow.name listed listed'
  | .claims listed, .claims listed' =>
      SameOrder (fun claim => claim.publishedAt.getD claim.extractedAt)
        (listed.map (ClaimRow.map server.instant Json.canonical)) listed'
  | .opportunities listed, .opportunities listed' =>
      SameOrder (fun opportunity => opportunity.deadlineAt.or opportunity.startsAt)
        (listed.map (OpportunityRow.map server.instant)) listed'
  | .overrides listed, .overrides listed' =>
      SameOrder OverrideRow.createdAt
        (listed.map (OverrideRow.map server.instant Json.canonical)) listed'
  | answer, answer' => answer' = answer.map server.instant Json.canonical

variable {options : Options} {server : Server} {s : Tables String} {p : Tables ℤ}
  {tenantId : String}

/-! ### A row as both stores read it -/

theorem mapOrganization_of_sound {row : OrganizationRow}
    (h : NoEmptyText [row.heelLifeUrl, row.websiteUrl, row.instagramHandle, row.linkedinUrl]) :
    Store.mapOrganization row = row := by
  simp only [noEmptyText_cons, noEmptyText_nil, and_true] at h
  obtain ⟨hheel, hwebsite, hinstagram, hlinkedin⟩ := h
  simp only [Store.mapOrganization, text_of_ne hheel, text_of_ne hwebsite,
    text_of_ne hinstagram, text_of_ne hlinkedin]

theorem listedClaim_image {row : ClaimRow String} (h : NoEmptyText [row.publishedAt, row.evidence]) :
    (Store.listedClaim row).map server.instant Json.canonical =
      PostgresStore.listedClaim (row.map server.micros Json.canonical) := by
  simp only [noEmptyText_cons, noEmptyText_nil, and_true] at h
  simp only [Store.listedClaim, text_of_ne h.1, text_of_ne h.2, ClaimRow.map,
    PostgresStore.listedClaim, Option.map_map]
  rfl

theorem listedOpportunity_image {row : OpportunityRow String}
    (h : NoEmptyText [row.deadlineAt, row.startsAt, row.url, row.role]) :
    (Store.listedOpportunity row).map server.instant =
      PostgresStore.listedOpportunity (row.map server.micros) := by
  simp only [noEmptyText_cons, noEmptyText_nil, and_true] at h
  obtain ⟨hdeadline, hstarts, hurl, hrole⟩ := h
  simp only [Store.listedOpportunity, text_of_ne hdeadline, text_of_ne hstarts, text_of_ne hurl,
    text_of_ne hrole, OpportunityRow.map, PostgresStore.listedOpportunity, Option.map_map]
  rfl

theorem listedOverride_image {row : OverrideRow String} (h : NoEmptyText [row.actorId]) :
    (Store.listedOverride row).map server.instant Json.canonical =
      PostgresStore.listedOverride (row.map server.micros Json.canonical) := by
  simp only [noEmptyText_cons, noEmptyText_nil, and_true] at h
  simp only [Store.listedOverride, text_of_ne h, OverrideRow.map, PostgresStore.listedOverride,
    Option.map_map]
  rfl

/-! ### Listings -/

section Lists

universe u v w x

variable {ρ : Type u} {ρ' : Type v} {κ : Type w} {κ' : Type x} {α β : Type}

/-- Two listings of the same rows, in SQLite by `key` and in Postgres by `key'`. -/
theorem listings_agree [LE κ] [PartialOrder κ'] {key : ρ → κ} {key' : ρ' → κ'} {f : ρ → ρ'}
    {k : β → α} (k' : κ' → α) {rows listed : List ρ} {listed' : List ρ'} (h : OrderedBy key rows listed)
    (h' : OrderedBy key' (rows.map f) listed')
    (hkey : ∀ a ∈ rows, ∀ b ∈ rows, key a ≤ key b → key' (f a) ≤ key' (f b))
    {view : ρ → β} {view' : ρ' → β} (hview : ∀ row ∈ rows, view row = view' (f row))
    (hk : ∀ row, k (view' row) = k' (key' row)) :
    SameOrder k (listed.map view) (listed'.map view') := by
  have hsame : SameOrder k ((listed.map f).map view') (listed'.map view') :=
    ((h.map hkey).sameOrder h').map hk
  rw [List.map_map] at hsame
  rwa [List.map_congr_left fun row hrow => hview row (h.1.subset hrow)]

end Lists

/-- The newest version that Postgres joins is the image of the one SQLite joins: the source of
a version is of its tenant. -/
theorem sourceRows_image (hs : Sound options.digest s) (id : String) :
    PostgresStore.sourceRows (image server s) tenantId id =
      (Store.sourceRows s tenantId id).map
        (Prod.map (VersionRow.map server.micros Json.canonical) fun source => source) := by
  have hproduct : ∀ (versions : List (VersionRow String)) (sources : List SourceRow),
      (versions.map (VersionRow.map server.micros Json.canonical)) ×ˢ sources =
        (versions ×ˢ sources).map
          (Prod.map (VersionRow.map server.micros Json.canonical) fun source => source) := by
    intro versions sources
    induction versions with
    | nil => rfl
    | cons v rest ih =>
        rw [List.map_cons, List.product_cons, List.product_cons, List.map_append, ih, List.map_map]
        rfl
  unfold PostgresStore.sourceRows Store.sourceRows
  show ((s.versions.map _) ×ˢ s.sources).filter _ = _
  rw [hproduct, List.filter_map]
  congr 1
  refine List.filter_congr fun row hrow => ?_
  obtain ⟨v, source⟩ := row
  obtain ⟨hv, hsource⟩ := List.mem_product.mp hrow
  show decide (source.id = v.sourceId ∧ source.tenantId = tenantId ∧ v.tenantId = tenantId ∧
    (v.id = id ∨ source.id = id)) = decide (source.id = v.sourceId ∧ v.tenantId = tenantId ∧
      (v.id = id ∨ source.id = id))
  obtain ⟨own, hown, hownId, htenant⟩ := hs.version_source v hv
  rw [decide_eq_decide]
  constructor
  · rintro ⟨hid, -, hrest⟩
    exact ⟨hid, hrest⟩
  · rintro ⟨hid, hversion, hrest⟩
    have hsame : source = own := Table.eq_of_key_eq hs.source_nodup hsource hown
      (hid.trans hownId.symm)
    exact ⟨hid, hsame ▸ htenant.trans hversion, hversion, hrest⟩

theorem storedSource_image {row : VersionRow String × SourceRow}
    (hversion : NoEmptyText [row.1.publishedAt])
    (hsource : NoEmptyText [row.2.externalId, row.2.url, row.2.title]) :
    PostgresStore.storedSource
        (Prod.map (VersionRow.map server.micros Json.canonical) (fun source => source) row) =
      (Store.storedSource row).map server.instant Json.canonical := by
  simp only [noEmptyText_cons, noEmptyText_nil, and_true] at hversion hsource
  obtain ⟨hexternal, hurl, htitle⟩ := hsource
  simp only [Store.storedSource, text_of_ne hversion, text_of_ne hexternal, text_of_ne hurl,
    text_of_ne htitle, StoredSource.map, PostgresStore.storedSource, Prod.map, VersionRow.map,
    Option.map_map]
  rfl

theorem organization_agrees (hs : Sound options.digest s) (id : String) :
    (s.organizations.find? fun o => o.key = (tenantId, id)).map Store.mapOrganization =
      s.organizations.find? fun o => o.key = (tenantId, id) := by
  cases hfind : s.organizations.find? fun o => o.key = (tenantId, id) with
  | none => rfl
  | some o =>
      rw [Option.map_some, mapOrganization_of_sound
        (hs.organization_texts o (List.mem_of_find?_eq_some hfind))]

/-- Dated opportunities are sorted like their instants, undated ones not at all. -/
theorem opportunityKey_image {a b : OpportunityRow String} {rows : List (OpportunityRow String)}
    (halike : server.SortsAlike (rows.filterMap fun row => row.deadlineAt.or row.startsAt))
    (hdated : (∀ row ∈ rows, (row.deadlineAt.or row.startsAt).isSome) ∨
      ∀ row ∈ rows, (row.deadlineAt.or row.startsAt) = none)
    (ha : a ∈ rows) (hb : b ∈ rows) (hle : Store.opportunityKey a ≤ Store.opportunityKey b) :
    PostgresStore.opportunityKey (a.map server.micros) ≤
      PostgresStore.opportunityKey (b.map server.micros) := by
  have hkey : ∀ row : OpportunityRow String, PostgresStore.opportunityKey (row.map server.micros) =
      (row.deadlineAt.or row.startsAt).map server.micros := by
    intro row
    show (row.deadlineAt.map _).or (row.startsAt.map _) = _
    cases row.deadlineAt <;> rfl
  rw [hkey, hkey]
  rcases hdated with hdated | hundated
  · obtain ⟨x, hx⟩ := Option.isSome_iff_exists.mp (hdated a ha)
    obtain ⟨y, hy⟩ := Option.isSome_iff_exists.mp (hdated b hb)
    have hle : (x : WithBot String) ≤ y := by
      have hle' := hle
      unfold Store.opportunityKey at hle'
      rwa [hx, hy] at hle'
    rw [hx, hy]
    exact WithTop.coe_le_coe.mpr (halike x (List.mem_filterMap.mpr ⟨a, ha, hx⟩) y
      (List.mem_filterMap.mpr ⟨b, hb, hy⟩) (WithBot.coe_le_coe.mp hle))
  · rw [hundated a ha, hundated b hb]
    exact le_refl (⊤ : WithTop ℤ)

/-- **An agreeable call that reads.** -/
theorem query_agrees {inTransaction : Bool} {call : Query} {a : Answer String} {b : Answer ℤ}
    (hp : Corresponds options server s p) (hcall : call.Agreeable options server s)
    (ha : Store.Answers options s call a)
    (hb : PostgresStore.Answers options server ⟨inTransaction, false⟩ p call b) :
    a.Agrees server b := by
  obtain ⟨htexts, hcall⟩ := hcall
  have hs := hp.sound
  obtain rfl := hp.image
  unfold PostgresStore.Answers at hb
  dsimp only at hb
  rw [if_neg (by simpa using htexts)] at hb
  cases call with
  | getOrganization id tenant =>
      have ha : a = .organization _ := ha
      rw [ha, hb, organization_agrees hs]
      rfl
  | listOrganizations tenant =>
      obtain ⟨listed, hlisted, rfl⟩ := ha
      obtain ⟨listed', hlisted', rfl⟩ := hb
      have hread : listed.map Store.mapOrganization = listed := by
        conv_rhs => rw [← List.map_id listed]
        refine List.map_congr_left fun o ho => mapOrganization_of_sound ?_
        exact hs.organization_texts o (List.mem_of_mem_filter (hlisted.1.subset ho))
      have hcollated : OrderedBy (fun o : OrganizationRow => server.collate o.name)
          (s.organizations.filter fun o => o.tenantId =
            Query.tenant options.defaultTenantId (.listOrganizations tenant)) listed := by
        refine ⟨hlisted.1, hlisted.2.imp_of_mem fun {a b} ha hb hle => ?_⟩
        obtain ⟨ha, hatenant⟩ := List.mem_filter.mp (hlisted.1.subset ha)
        obtain ⟨hb, hbtenant⟩ := List.mem_filter.mp (hlisted.1.subset hb)
        exact hcall a ha b hb (of_decide_eq_true hatenant) (of_decide_eq_true hbtenant) hle
      obtain ⟨hperm, hkeys⟩ := hcollated.sameOrder hlisted'
      show SameOrder OrganizationRow.name (listed.map Store.mapOrganization) listed'
      rw [hread]
      refine ⟨hperm, List.map_injective_iff.mpr server.collate_injective ?_⟩
      rw [List.map_map, List.map_map]
      exact hkeys
  | getSource id tenant =>
      obtain ⟨listed, hlisted, rfl⟩ := ha
      obtain ⟨listed', hlisted', rfl⟩ := hb
      obtain ⟨halike, hunique⟩ := hcall
      rw [sourceRows_image hs] at hlisted'
      have hmapped : OrderedBy
          (fun row : VersionRow ℤ × SourceRow => OrderDual.toDual row.1.fetchedAt)
          ((Store.sourceRows s (tenant.getD options.defaultTenantId) id).map
            (Prod.map (VersionRow.map server.micros Json.canonical) fun source => source))
          (listed.map
            (Prod.map (VersionRow.map server.micros Json.canonical) fun source => source)) :=
        hlisted.map fun a ha b hb hle =>
          halike _ (List.mem_map_of_mem hb) _ (List.mem_map_of_mem ha) hle
      have hhead := hmapped.head? hlisted' fun x hx y hy hkey => by
        obtain ⟨a, ha, rfl⟩ := List.mem_map.mp hx
        obtain ⟨b, hb, rfl⟩ := List.mem_map.mp hy
        rw [hunique a ha b hb hkey]
      show Answer.source (listed'.head?.map PostgresStore.storedSource) =
        .source ((listed.head?.map Store.storedSource).map
          (StoredSource.map server.instant Json.canonical))
      rw [← hhead, List.head?_map, Option.map_map, Option.map_map]
      cases hnewest : listed.head? with
      | none => rfl
      | some row =>
          have hrow := hlisted.1.subset (List.mem_of_mem_head? hnewest)
          obtain ⟨hversion, hsource⟩ := List.mem_product.mp (List.mem_of_mem_filter hrow)
          exact congrArg (fun source => Answer.source (some source))
            (storedSource_image (hs.version_texts _ hversion) (hs.source_texts _ hsource))
  | listClaims organizationId tenant =>
      obtain ⟨listed, hlisted, rfl⟩ := ha
      obtain ⟨listed', hlisted', rfl⟩ := hb
      have hrows : (image server s).claims.filter (fun row => row.tenantId =
            Query.tenant options.defaultTenantId (.listClaims organizationId tenant) ∧
              row.organizationId = organizationId) =
          (s.claims.filter fun row => row.tenantId =
            Query.tenant options.defaultTenantId (.listClaims organizationId tenant) ∧
              row.organizationId = organizationId).map
            (ClaimRow.map server.micros Json.canonical) := List.filter_map
      rw [hrows] at hlisted'
      show SameOrder _ ((listed.map Store.listedClaim).map
        (ClaimRow.map server.instant Json.canonical)) (listed'.map PostgresStore.listedClaim)
      rw [List.map_map]
      have hkey : ∀ row : ClaimRow String,
          (row.publishedAt.map server.micros).getD (server.micros row.extractedAt) =
            server.micros (row.publishedAt.getD row.extractedAt) := by
        intro row
        cases row.publishedAt <;> rfl
      refine listings_agree PostgresStore.toIso hlisted hlisted' (fun a ha b hb hle => ?_)
        (fun row hrow => ?_) fun row => ?_
      · show (a.publishedAt.map server.micros).getD (server.micros a.extractedAt) ≤
          (b.publishedAt.map server.micros).getD (server.micros b.extractedAt)
        rw [hkey, hkey]
        exact hcall _ (List.mem_map_of_mem ha) _ (List.mem_map_of_mem hb) hle
      · exact listedClaim_image (hs.claim_texts row (List.mem_of_mem_filter hrow))
      · show (row.publishedAt.map PostgresStore.toIso).getD (PostgresStore.toIso row.extractedAt) = _
        cases row.publishedAt <;> rfl
  | listOpportunities organizationId tenant =>
      obtain ⟨listed, hlisted, rfl⟩ := ha
      obtain ⟨listed', hlisted', rfl⟩ := hb
      obtain ⟨halike, hdated⟩ := hcall
      have hrows : (image server s).opportunities.filter (fun row => row.tenantId =
            Query.tenant options.defaultTenantId (.listOpportunities organizationId tenant) ∧
              (organizationId.filter (· ≠ "")).all fun id => row.organizationId = id) =
          (s.opportunities.filter fun row => row.tenantId =
            Query.tenant options.defaultTenantId (.listOpportunities organizationId tenant) ∧
              (organizationId.filter (· ≠ "")).all fun id => row.organizationId = id).map
            (OpportunityRow.map server.micros) := List.filter_map
      rw [hrows] at hlisted'
      show SameOrder _ ((listed.map Store.listedOpportunity).map
        (OpportunityRow.map server.instant)) (listed'.map PostgresStore.listedOpportunity)
      rw [List.map_map]
      refine listings_agree (show WithTop ℤ → Option ℤ from Option.map PostgresStore.toIso) hlisted
        hlisted'
        (fun a ha b hb hle => opportunityKey_image halike hdated ha hb hle) (fun row hrow => ?_)
        fun row => ?_
      · exact listedOpportunity_image (hs.opportunity_texts row (List.mem_of_mem_filter hrow))
      · show (row.deadlineAt.map PostgresStore.toIso).or (row.startsAt.map PostgresStore.toIso) =
          (row.deadlineAt.or row.startsAt).map PostgresStore.toIso
        cases row.deadlineAt <;> rfl
  | listOpportunityOverrides organizationId tenant =>
      obtain ⟨listed, hlisted, rfl⟩ := ha
      obtain ⟨listed', hlisted', rfl⟩ := hb
      have hrows : (image server s).overrides.filter (fun row => row.tenantId =
            Query.tenant options.defaultTenantId (.listOpportunityOverrides organizationId tenant) ∧
              row.organizationId = organizationId ∧ row.revokedAt.isNone) =
          (s.overrides.filter fun row => row.tenantId =
            Query.tenant options.defaultTenantId (.listOpportunityOverrides organizationId tenant) ∧
              row.organizationId = organizationId ∧ row.revokedAt.isNone).map
            (OverrideRow.map server.micros Json.canonical) := by
        show (s.overrides.map _).filter _ = _
        rw [List.filter_map]
        congr 1
        refine List.filter_congr fun row _ => ?_
        simp only [Function.comp_apply, OverrideRow.map, Option.isNone_map]
      rw [hrows] at hlisted'
      show SameOrder _ ((listed.map Store.listedOverride).map
        (OverrideRow.map server.instant Json.canonical)) (listed'.map PostgresStore.listedOverride)
      rw [List.map_map]
      refine listings_agree PostgresStore.toIso hlisted hlisted'
        (fun a ha b hb hle => hcall _ (List.mem_map_of_mem ha) _ (List.mem_map_of_mem hb) hle)
        (fun row hrow => ?_) fun row => rfl
      exact listedOverride_image (hs.override_texts row (List.mem_of_mem_filter hrow))
  | getConnectorState connector scope tenant =>
      let key := ((Query.getConnectorState connector scope tenant).tenant options.defaultTenantId,
        connector, scope)
      have hfind : (image server s).connectorState.find? (fun row => row.key = key) =
          (s.connectorState.find? fun row => row.key = key).map (mapMetadata Json.canonical) :=
        List.find?_map
      unfold Store.Answers at ha
      dsimp only at ha hb
      rw [hfind] at hb
      rw [ha, hb]
      cases hrow : s.connectorState.find? fun row => row.key = key with
      | none => rfl
      | some row =>
          have htexts := hs.cursor_texts row (List.mem_of_find?_eq_some hrow)
          simp only [noEmptyText_cons, noEmptyText_nil, and_true] at htexts
          show Answer.connectorState row.cursor row.metadata.canonical =
            .connectorState (Store.text row.cursor) row.metadata.canonical
          rw [text_of_ne htexts]

/-! ### Every query is answered -/

theorem exists_listed {ρ κ α : Type} [LinearOrder κ] {key : ρ → κ} {rows : List ρ}
    {f : List ρ → α} : ∃ a, ∃ listed, OrderedBy key rows listed ∧ a = f listed := by
  obtain ⟨listed, hlisted⟩ := exists_orderedBy key rows
  exact ⟨f listed, listed, hlisted, rfl⟩

theorem Store.exists_answer (options : Options) (s : Tables String) (call : Query) :
    ∃ a, Store.Answers options s call a := by
  cases call with
  | getOrganization id tenant => exact ⟨_, rfl⟩
  | getConnectorState connector scope tenant => exact ⟨_, rfl⟩
  | listOrganizations tenant | getSource id tenant | listClaims organizationId tenant
  | listOpportunities organizationId tenant | listOpportunityOverrides organizationId tenant =>
      exact exists_listed

theorem PostgresStore.exists_answer (options : Options) (server : Server)
    (connection : Connection) (p : Tables ℤ) (call : Query) :
    ∃ b, PostgresStore.Answers options server connection p call b := by
  unfold PostgresStore.Answers
  dsimp only
  split
  · exact ⟨_, rfl⟩
  · cases call with
    | getOrganization id tenant => exact ⟨_, rfl⟩
    | getConnectorState connector scope tenant => exact ⟨_, rfl⟩
    | listOrganizations tenant | getSource id tenant | listClaims organizationId tenant
    | listOpportunities organizationId tenant | listOpportunityOverrides organizationId tenant =>
        exact exists_listed

end RecruitingOs.Repository
