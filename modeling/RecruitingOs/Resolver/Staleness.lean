import RecruitingOs.Privacy.Run
import RecruitingOs.Resolver.Review
import RecruitingOs.Resolver.Standing

/-!
# How long the stored flags are right

Nothing computes `stale` when the opportunities are listed: the flag is the one of the last
resolution of the organization, and only the claims transaction of an ingest, the
override route and `privacy.reconcile` resolve.  An ingest of unchanged content does not.

`StalenessRun` is a SQLite database with the resolutions that have been committed, and
`currentAt_iff` says of each of its states how long it is right: a flag is right at a later
time exactly if the date of the opportunity has not passed since the last resolution, and
the stored evidence, scored at that time, still puts the opportunity on the same side.
-/

namespace RecruitingOs

/-- A committed resolution: what it read, and its clock. -/
structure Resolution where
  tenantId : String
  orgId : String
  view : Resolver.View
  clock : Resolver.Clock
  now : ℤ

/-- A database with the resolutions that have been committed, the last one first. -/
structure StalenessRun where
  run : PrivacyRun
  resolutions : List Resolution

/-- The parts of the platform that the repository calls. -/
structure StalenessContext where
  column : TextColumn
  getTime : Json → Option ℤ
  digest : String → String
  sha256 : String → String

/-- A transaction on the repository. -/
inductive StalenessStep where
  /-- One that resolves nothing: `stageSource` of an ingest, of which an ingest of unchanged
  content has no more, the marks of its processing, a sign-in, an erasure. -/
  | repository (label : PrivacyStep)
  /-- The claims transaction of an ingest. -/
  | ingest (claims : List Claim) (clock : Resolver.Clock) (orgId tenantId versionId : String)
      (now : ℤ)
  /-- The transaction of the override route. -/
  | override (override : OpportunityOverride) (clock : Resolver.Clock) (now : ℤ)
  /-- The transaction of a `privacy.reconcile` job. -/
  | reconcile (clock : Resolver.Clock) (orgId tenantId : String) (now : ℤ)

/-- The repository call is a transaction of its own, and no statement of one that
resolves. -/
def PrivacyStep.resolvesNothing : PrivacyStep → Bool
  | .putClaims _ | .markSourceSucceeded _ _ _ | .putOpportunityOverride _ => false
  | _ => true

/-- A clock that stands still. -/
def Resolver.Clock.at (t : ℤ) : Resolver.Clock := ⟨fun _ => t, fun _ => t⟩

namespace Resolution

variable (ctx : StalenessContext) (r : Resolution)

/-- The opportunities of the resolution, at its own time or at another one. -/
def outputAt (now : ℤ) : List Opportunity :=
  Resolver.resolveOrganization ctx.getTime ctx.digest r.view r.clock r.orgId now

/-- What its evidence says. -/
def standings : List Resolver.Standing :=
  Resolver.standings ctx.getTime ctx.digest r.view r.clock r.orgId

/-- Its evidence reopens the application. -/
def reopens : Bool := Resolver.reopened ctx.getTime r.view r.clock

end Resolution

namespace StalenessRun

variable (ctx : StalenessContext)

/-- The state after a resolution that has read the database `before`. -/
def resolved (s : StalenessRun) (before after : Database) (clock : Resolver.Clock)
    (orgId tenantId : String) (now : ℤ) : StalenessRun where
  run := { s.run with db := after }
  resolutions := ⟨tenantId, orgId, before.view orgId tenantId, clock, now⟩ :: s.resolutions

/-- One step; `none` where the transaction throws. -/
def step (s : StalenessRun) : StalenessStep → Option StalenessRun
  | .repository label =>
      if label.resolvesNothing then
        (s.run.step .sqlite ctx.digest ctx.sha256 label).map fun run => { s with run := run }
      else none
  | .ingest claims clock orgId tenantId versionId now =>
      (s.run.db.claimsTransaction ctx.getTime ctx.digest claims clock orgId tenantId versionId
        now).map fun db =>
          s.resolved { s.run.db with claims := db.claims } db clock orgId tenantId now
  | .override override clock now =>
      match s.run.db.putOpportunityOverride .sqlite override with
      | .error _ => none
      | .ok put =>
          (put.resolve ctx.getTime ctx.digest clock override.organizationId override.tenantId
            now).map fun db =>
              s.resolved put db clock override.organizationId override.tenantId now
  | .reconcile clock orgId tenantId now =>
      (s.run.db.resolve ctx.getTime ctx.digest clock orgId tenantId now).map fun db =>
        s.resolved s.run.db db clock orgId tenantId now

/-- The states of the repository. -/
def Reached : StalenessRun → Prop :=
  Transition.Reachable (· = ⟨PrivacyRun.start, []⟩) (step ctx)

/-- No resolution has been later. -/
def Later (s : StalenessRun) (t : ℤ) : Prop := ∀ r ∈ s.resolutions, r.now ≤ t

/-- The last resolution of an organization. -/
def last (s : StalenessRun) (tenantId orgId : String) : Option Resolution :=
  s.resolutions.find? fun r => r.tenantId = tenantId ∧ r.orgId = orgId

/-- No active override touches the opportunity. -/
def Untouched (s : StalenessRun) (tenantId orgId id : String) : Prop :=
  ∀ override ∈ s.run.db.listOpportunityOverrides orgId tenantId, override.opportunityId ≠ id

/-- The opportunity is none that an override touches, and no reopened application. -/
def Counts (s : StalenessRun) (tenantId orgId id : String) (kind : OpportunityKind) : Prop :=
  s.Untouched tenantId orgId id ∧
    ∀ r, s.last tenantId orgId = some r → ¬ (kind = .application ∧ r.reopens ctx)

/-- The opportunities that the dashboard shows of an organization. -/
def listed (s : StalenessRun) (tenantId orgId : String) : List Opportunity :=
  s.run.db.listOpportunities ctx.column orgId tenantId

/-- **The flags are right at a time**: what is listed as current has no date that has
passed, and each flag is the one that the resolver computes at that time, from the evidence
that it has read and from the evidence that is stored. -/
structure CurrentAt (s : StalenessRun) (t : ℤ) : Prop where
  dates : ∀ tenantId orgId, ∀ o ∈ s.listed ctx tenantId orgId, o.stale = false →
    s.Counts ctx tenantId orgId o.id o.kind → ∀ d, o.shownDate.bind ctx.getTime = some d → t ≤ d
  flags : ∀ tenantId orgId, ∀ o ∈ s.listed ctx tenantId orgId,
    s.Counts ctx tenantId orgId o.id o.kind → ∀ r, s.last tenantId orgId = some r →
      ∀ o' ∈ r.outputAt ctx t, o'.id = o.id → o'.stale = o.stale
  recomputed : ∀ tenantId orgId, ∀ o ∈ s.listed ctx tenantId orgId,
    s.Counts ctx tenantId orgId o.id o.kind →
      ∀ o' ∈ Resolver.resolveOrganization ctx.getTime ctx.digest (s.run.db.view orgId tenantId)
        (.at t) orgId t, o'.id = o.id → o'.stale = o.stale

/-- The condition, for one opportunity of the last resolution. -/
structure Holds (s : StalenessRun) (r : Resolution) (st : Resolver.Standing) (t : ℤ) : Prop where
  notPassed : ¬ st.PassedSince r.now t
  legible : st.Legible ctx.column ctx.getTime t
  sameSide : ∀ st' ∈ Resolver.standings ctx.getTime ctx.digest
    (s.run.db.view r.orgId r.tenantId) (.at t) r.orgId, st'.id = st.id →
      st'.staleAt t = st.staleAt t

/-! ### The invariant -/

variable {ctx} {s : StalenessRun}

/-- Every override of a database is still there, for the same opportunity. -/
def OverridesKept (db db' : Database) : Prop :=
  ∀ row ∈ db.overrides, ∃ row' ∈ db'.overrides, row'.override.tenantId = row.override.tenantId ∧
    row'.override.organizationId = row.override.organizationId ∧
    row'.override.opportunityId = row.override.opportunityId ∧ row'.revoked = row.revoked

theorem OverridesKept.of_eq {db db' : Database} (h : db'.overrides = db.overrides) :
    OverridesKept db db' :=
  fun row hrow => ⟨row, h ▸ hrow, rfl, rfl, rfl, rfl⟩

/-- An erasure takes the actors out of the overrides. -/
theorem eraseAccount_frame {db db' : Database} {digest : String → String}
    {tenantId userId operationId : String} {now : ℤ} {result : AccountErasureResult}
    (h : db.eraseAccount .sqlite digest tenantId userId operationId now = .ok (db', result)) :
    db'.opportunities = db.opportunities ∧ OverridesKept db db' := by
  cases hmember : db.isMember tenantId userId with
  | false =>
      rw [Database.eraseAccount_not_member hmember] at h
      cases h
      exact ⟨rfl, .of_eq rfl⟩
  | true =>
      have hswept := Database.eraseAccount_swept hmember h
      obtain ⟨foreign, hoverrides⟩ := hswept.overrides
      refine ⟨hswept.opportunities, fun row hrow => ?_⟩
      rw [hoverrides]
      refine ⟨_, Table.mem_updateWhere.mpr ⟨_, Table.mem_updateWhere.mpr ⟨row, hrow, rfl⟩, rfl⟩, ?_⟩
      -- neither statement writes another column than `actor_id`
      split <;> split <;> exact ⟨rfl, rfl, rfl, rfl⟩

/-- A repository call that resolves nothing leaves the opportunities, and the overrides but
for their actors. -/
theorem repository_frame {run run' : PrivacyRun} {label : PrivacyStep}
    (hlabel : label.resolvesNothing)
    (hs : run.step .sqlite ctx.digest ctx.sha256 label = some run') :
    run'.db.opportunities = run.db.opportunities ∧ OverridesKept run.db run'.db := by
  obtain ⟨heffect, -⟩ := PrivacyRun.step_effect hs
  obtain ⟨db, staged⟩ := run'
  change PrivacyRun.Effect .sqlite ctx.digest ctx.sha256 run.db db label at heffect
  cases label with
  | signIn identity tenant =>
      obtain ⟨users, memberships, rfl, -, -⟩ := heffect
      exact ⟨rfl, .of_eq rfl⟩
  | createSession row =>
      obtain ⟨-, sessions, rfl, -⟩ := heffect
      exact ⟨rfl, .of_eq rfl⟩
  | upsertOrganization row =>
      obtain ⟨organizations, rfl⟩ := heffect
      exact ⟨rfl, .of_eq rfl⟩
  | stageSource source tenant =>
      obtain ⟨result, hok⟩ := heffect
      obtain ⟨_, _, _, rfl⟩ := Database.stageSource_frame hok
      exact ⟨rfl, .of_eq rfl⟩
  | markSourceProcessing id tenant now | markSourceFailed id failure tenant now =>
      obtain ⟨f, rfl, -⟩ := heffect
      exact ⟨rfl, .of_eq rfl⟩
  | putClaims claims | markSourceSucceeded id tenant now | putOpportunityOverride override =>
      cases hlabel
  | saveCredential row =>
      obtain ⟨refresh, rfl, -⟩ := Database.saveCredential_upsert heffect.2
      exact ⟨rfl, .of_eq rfl⟩
  | enqueue input clock =>
      obtain ⟨queue, job, rfl, -⟩ := heffect
      exact ⟨rfl, .of_eq rfl⟩
  | setConnectorState connector tenant owner group cursor metadata =>
      obtain ⟨-, rfl⟩ := Database.setConnectorState_ok heffect
      exact ⟨rfl, .of_eq rfl⟩
  | eraseAccount tenant user operationId now =>
      obtain ⟨result, hok⟩ := heffect
      exact eraseAccount_frame hok

/-- The stored opportunities are those of the last resolutions, whose overrides are still
active. -/
structure Inv (ctx : StalenessContext) (s : StalenessRun) : Prop where
  stored : ∀ tenantId orgId, s.run.db.opportunitiesOf tenantId orgId =
    (s.last tenantId orgId).elim [] fun r => r.outputAt ctx r.now
  nodup : ∀ r ∈ s.resolutions, ((r.standings ctx).map Resolver.Standing.id).Nodup
  overrides : ∀ r ∈ s.resolutions, ∀ override ∈ r.view.overrides,
    ∃ active ∈ s.run.db.listOpportunityOverrides r.orgId r.tenantId,
      active.opportunityId = override.opportunityId

theorem OverridesKept.listed {db db' : Database} (h : OverridesKept db db')
    {tenantId orgId : String} {override : OpportunityOverride}
    (hlisted : override ∈ db.listOpportunityOverrides orgId tenantId) :
    ∃ active ∈ db'.listOpportunityOverrides orgId tenantId,
      active.opportunityId = override.opportunityId := by
  rw [Database.listOpportunityOverrides, List.mem_insertionSort] at hlisted
  obtain ⟨row, hrow, rfl⟩ := List.mem_map.mp hlisted
  obtain ⟨hrow, hactive⟩ := List.mem_filter.mp hrow
  obtain ⟨htenant, horg, hrevoked⟩ := of_decide_eq_true hactive
  obtain ⟨row', hrow', htenant', horg', hid, hrevoked'⟩ := h row hrow
  refine ⟨row'.override, ?_, hid⟩
  rw [Database.listOpportunityOverrides, List.mem_insertionSort]
  refine List.mem_map_of_mem (List.mem_filter.mpr ⟨hrow', decide_eq_true ?_⟩)
  exact ⟨htenant'.trans htenant, horg'.trans horg, by rwa [hrevoked']⟩

/-- A step that resolves nothing. -/
theorem Inv.repository (h : Inv ctx s) {run : PrivacyRun}
    (hopportunities : run.db.opportunities = s.run.db.opportunities)
    (hoverrides : OverridesKept s.run.db run.db) : Inv ctx { s with run := run } where
  stored tenantId orgId := by
    show run.db.opportunitiesOf tenantId orgId = _
    rw [Database.opportunitiesOf, hopportunities]
    exact h.stored tenantId orgId
  nodup := h.nodup
  overrides r hr override hmem := by
    obtain ⟨active, hactive, hid⟩ := h.overrides r hr override hmem
    obtain ⟨still, hstill, hsame⟩ := hoverrides.listed hactive
    exact ⟨still, hstill, hsame.trans hid⟩

/-- A resolution leaves the opportunities of the other organizations. -/
theorem opportunitiesOf_other {db db' : Database} {getTime : Json → Option ℤ}
    {digest : String → String} {clock : Resolver.Clock} {orgId tenantId tenant org : String}
    {now : ℤ} (h : db.resolve getTime digest clock orgId tenantId now = some db')
    (hother : ¬ (tenantId = tenant ∧ orgId = org)) :
    db'.opportunitiesOf tenant org = db.opportunitiesOf tenant org := by
  obtain ⟨-, -, hrest⟩ := Database.resolve_eq_some h
  have hfilter : ∀ rows : List OpportunityRow,
      rows.filter (OpportunityRow.ofOrganization tenant org) =
        (rows.filter fun row => ¬ row.ofOrganization tenantId orgId).filter
          (OpportunityRow.ofOrganization tenant org) := by
    intro rows
    rw [List.filter_filter]
    refine List.filter_congr fun row _ => ?_
    cases hrow : row.ofOrganization tenant org with
    | false => rfl
    | true =>
        obtain ⟨rfl, rfl⟩ := Database.ofOrganization_iff.mp hrow
        have hnot : ¬ row.ofOrganization tenantId orgId := fun hown =>
          hother ((Database.ofOrganization_iff.mp hown).imp Eq.symm Eq.symm)
        simp [hnot]
  rw [Database.opportunitiesOf, Database.opportunitiesOf, hfilter, hrest, ← hfilter]

/-- A committed resolution. -/
theorem Inv.resolved (h : Inv ctx s) {before resolved after : Database} {clock : Resolver.Clock}
    {orgId tenantId : String} {now : ℤ}
    (hopportunities : before.opportunities = s.run.db.opportunities)
    (hoverrides : OverridesKept s.run.db before)
    (hresolve : before.resolve ctx.getTime ctx.digest clock orgId tenantId now = some resolved)
    (hafter : after.opportunities = resolved.opportunities)
    (hsame : after.overrides = before.overrides) :
    Inv ctx (s.resolved before after clock orgId tenantId now) where
  stored tenant org := by
    have hrows : ∀ tenant org, after.opportunitiesOf tenant org =
        resolved.opportunitiesOf tenant org := fun tenant org => by
      rw [Database.opportunitiesOf, hafter]
      rfl
    show after.opportunitiesOf tenant org = _
    rw [hrows, last, StalenessRun.resolved]
    by_cases hown : tenantId = tenant ∧ orgId = org
    · rw [List.find?_cons_of_pos (by simpa using hown)]
      obtain ⟨rfl, rfl⟩ := hown
      exact (Database.resolve_eq_some hresolve).2.1
    · rw [List.find?_cons_of_neg (by simpa using hown), opportunitiesOf_other hresolve hown,
        Database.opportunitiesOf, hopportunities]
      exact h.stored tenant org
  nodup r hr := by
    rcases List.mem_cons.mp hr with rfl | hr
    · obtain ⟨rows, hreplace, -⟩ := Option.map_eq_some_iff.mp hresolve
      exact Resolver.resolveOrganization_ids_nodup_iff.mp
        (replaceOpportunities_eq_some.mp hreplace).1
    · exact h.nodup r hr
  overrides r hr override hmem := by
    have hafterOverrides : OverridesKept before after := .of_eq hsame
    rcases List.mem_cons.mp hr with rfl | hr
    · exact hafterOverrides.listed hmem
    · obtain ⟨active, hactive, hid⟩ := h.overrides r hr override hmem
      obtain ⟨still, hstill, hsame⟩ := hoverrides.listed hactive
      obtain ⟨last, hlast, hsame'⟩ := hafterOverrides.listed hstill
      exact ⟨last, hlast, hsame'.trans (hsame.trans hid)⟩

theorem Inv.step {label : StalenessStep} {t : StalenessRun} (h : Inv ctx s)
    (hs : s.step ctx label = some t) : Inv ctx t := by
  cases label with
  | repository label =>
      simp only [StalenessRun.step] at hs
      split at hs
      · rename_i hlabel
        obtain ⟨run, hrun, rfl⟩ := Option.map_eq_some_iff.mp hs
        obtain ⟨hopportunities, hoverrides⟩ := repository_frame hlabel hrun
        exact h.repository hopportunities hoverrides
      · cases hs
  | ingest claims clock orgId tenantId versionId now =>
      obtain ⟨db, hcommit, rfl⟩ := Option.map_eq_some_iff.mp hs
      simp only [Database.claimsTransaction, Option.bind_eq_some_iff, Option.map_eq_some_iff]
        at hcommit
      obtain ⟨stored, -, resolved, hresolve, rfl⟩ := hcommit
      obtain ⟨⟨opportunities, rfl⟩, -⟩ := Database.resolve_eq_some hresolve
      exact h.resolved rfl (.of_eq rfl) hresolve rfl rfl
  | override override clock now =>
      simp only [StalenessRun.step] at hs
      split at hs
      · cases hs
      · rename_i put hput
        obtain ⟨db, hresolve, rfl⟩ := Option.map_eq_some_iff.mp hs
        obtain ⟨⟨opportunities, rfl⟩, -⟩ := Database.resolve_eq_some hresolve
        have hkept : OverridesKept s.run.db put := fun row hrow => by
          refine ⟨row, ?_, rfl, rfl, rfl, rfl⟩
          rw [ReviewRun.putOpportunityOverride_rows hput]
          exact List.mem_append_left _ hrow
        obtain ⟨overrides, rfl⟩ := Database.putOpportunityOverride_ok hput
        exact h.resolved rfl hkept hresolve rfl rfl
  | reconcile clock orgId tenantId now =>
      obtain ⟨db, hresolve, rfl⟩ := Option.map_eq_some_iff.mp hs
      obtain ⟨⟨opportunities, rfl⟩, -⟩ := Database.resolve_eq_some hresolve
      exact h.resolved rfl (.of_eq rfl) hresolve rfl rfl

theorem Reached.inv (h : Reached ctx s) : Inv ctx s := by
  refine Transition.Reachable.invariant (I := Inv ctx) ?_ (fun _ _ _ _ hs hstep => hs.step hstep) h
  rintro _ rfl
  exact ⟨fun _ _ => rfl, (fun r hr => nomatch hr), (fun r hr => nomatch hr)⟩

/-! ### What is listed -/

variable {tenantId orgId : String} {r : Resolution} {st : Resolver.Standing} {t : ℤ}

theorem mem_of_last (h : s.last tenantId orgId = some r) :
    r ∈ s.resolutions ∧ r.tenantId = tenantId ∧ r.orgId = orgId := by
  have hown := List.find?_some h
  exact ⟨List.mem_of_find?_eq_some h, of_decide_eq_true hown⟩

/-- What no active override touches, none of the last resolution has touched. -/
theorem Inv.untouched (h : Inv ctx s) (hlast : s.last tenantId orgId = some r) {id : String}
    (huntouched : s.Untouched tenantId orgId id) :
    ∀ override ∈ r.view.overrides, override.opportunityId ≠ id := by
  obtain ⟨hr, rfl, rfl⟩ := mem_of_last hlast
  intro override hoverride hid
  obtain ⟨active, hactive, hsame⟩ := h.overrides r hr override hoverride
  exact huntouched active hactive (hsame.trans hid)

/-- An untouched opportunity that is listed shows a standing of the last resolution. -/
theorem Inv.exists_standing (h : Inv ctx s) {o : Opportunity}
    (ho : o ∈ s.listed ctx tenantId orgId) (huntouched : s.Untouched tenantId orgId o.id) :
    ∃ r, s.last tenantId orgId = some r ∧ ∃ st ∈ r.standings ctx, ∃ row,
      st.Shows row r.now ∧ o = listedOpportunity ctx.column row := by
  obtain ⟨row, hrow, rfl⟩ := Database.mem_listOpportunities.mp ho
  rw [h.stored] at hrow
  cases hlast : s.last tenantId orgId with
  | none =>
      rw [hlast] at hrow
      cases hrow
  | some r =>
      rw [hlast] at hrow
      obtain ⟨st, hst, hshows⟩ := Resolver.exists_standing hrow (h.untouched hlast huntouched)
      exact ⟨r, rfl, st, hst, row, hshows, rfl⟩

/-- An untouched standing of the last resolution is listed. -/
theorem Inv.exists_listed (h : Inv ctx s) (hlast : s.last tenantId orgId = some r)
    (hst : st ∈ r.standings ctx) (huntouched : s.Untouched tenantId orgId st.id) :
    ∃ row, st.Shows row r.now ∧ listedOpportunity ctx.column row ∈ s.listed ctx tenantId orgId := by
  obtain ⟨row, hrow, hshows⟩ :=
    Resolver.exists_opportunity r.now hst (h.untouched hlast huntouched)
  refine ⟨row, hshows, Database.mem_listOpportunities.mpr ⟨row, ?_, rfl⟩⟩
  rw [h.stored, hlast]
  exact hrow

/-- What the evidence of the last resolution makes of the standing at another time. -/
theorem Inv.stale_of_outputAt (h : Inv ctx s) (hlast : s.last tenantId orgId = some r)
    (hst : st ∈ r.standings ctx) (huntouched : s.Untouched tenantId orgId st.id)
    {o : Opportunity} (ho : o ∈ r.outputAt ctx t) (hid : o.id = st.id) :
    o.stale = st.staleAt t := by
  rw [← hid] at huntouched
  obtain ⟨other, hother, hshows⟩ := Resolver.exists_standing ho (h.untouched hlast huntouched)
  have hsame : other = st := Table.eq_of_key_eq (h.nodup r (mem_of_last hlast).1) hother hst
    (hshows.id.symm.trans hid)
  rw [hshows.stale, hsame]

/-- Flags that are right at a time meet the condition. -/
theorem Inv.holds (h : Inv ctx s) (hlater : s.Later t) (hcurrent : s.CurrentAt ctx t)
    (hlast : s.last tenantId orgId = some r) (hst : st ∈ r.standings ctx)
    (hcounts : s.Counts ctx tenantId orgId st.id st.kind) : s.Holds ctx r st t := by
  obtain ⟨hr, rfl, rfl⟩ := mem_of_last hlast
  obtain ⟨row, hshows, hlisted⟩ := h.exists_listed hlast hst hcounts.1
  have hlistedCounts : s.Counts ctx r.tenantId r.orgId row.id row.kind := by
    rw [hshows.id, hshows.kind]
    exact hcounts
  have hstale : row.stale = st.staleAt t := by
    obtain ⟨o, ho, hthen⟩ := Resolver.exists_opportunity t hst (h.untouched hlast hcounts.1)
    have hflag := hcurrent.flags _ _ _ hlisted hlistedCounts r hlast o ho
      (hthen.id.trans hshows.id.symm)
    exact hflag.symm.trans hthen.stale
  constructor
  case notPassed =>
    exact (Resolver.Standing.staleAt_eq_iff (hlater r hr)).mp (hshows.stale.symm.trans hstale)
  case legible =>
    intro d hd hpassed
    by_contra hfresh
    have hcurrentRow : row.stale = false := hstale.trans (Bool.eq_false_iff.mpr hfresh)
    have htime : (listedOpportunity ctx.column row).shownDate.bind ctx.getTime = some d := by
      rw [Resolver.listed_shownDate, hshows.shownDate, Option.bind_map]
      exact hd
    have hnotBefore := hcurrent.dates _ _ _ hlisted hcurrentRow hlistedCounts d htime
    omega
  case sameSide =>
    intro other hother hid
    have huntouched := hcounts.1
    rw [← hid] at huntouched
    obtain ⟨o, ho, hnow⟩ := Resolver.exists_opportunity t hother huntouched
    have hflag := hcurrent.recomputed _ _ _ hlisted hlistedCounts o ho
      (hnow.id.trans (hid.trans hshows.id.symm))
    rw [← hnow.stale, hflag]
    exact hstale

/-- Under the condition, an opportunity that is listed has the flag of the later time. -/
theorem Inv.stale_of_listed (h : Inv ctx s) (hlater : s.Later t)
    (hholds : ∀ tenantId orgId r, s.last tenantId orgId = some r →
      ∀ st ∈ r.standings ctx, s.Counts ctx tenantId orgId st.id st.kind → s.Holds ctx r st t)
    {o : Opportunity} (ho : o ∈ s.listed ctx tenantId orgId)
    (hcounts : s.Counts ctx tenantId orgId o.id o.kind) :
    ∃ r, s.last tenantId orgId = some r ∧ ∃ st ∈ r.standings ctx, s.Holds ctx r st t ∧
      o.id = st.id ∧ o.stale = st.staleAt t ∧
      o.shownDate = (ctx.column.get st.shown).map .str := by
  obtain ⟨r, hlast, st, hst, row, hshows, rfl⟩ := h.exists_standing ho hcounts.1
  have hrowCounts : s.Counts ctx tenantId orgId row.id row.kind := hcounts
  rw [hshows.id, hshows.kind] at hrowCounts
  have hcondition := hholds tenantId orgId r hlast st hst hrowCounts
  have hsame : st.staleAt r.now = st.staleAt t :=
    (Resolver.Standing.staleAt_eq_iff (hlater r (mem_of_last hlast).1)).mpr hcondition.notPassed
  refine ⟨r, hlast, st, hst, hcondition, hshows.id, hshows.stale.trans hsame, ?_⟩
  rw [Resolver.listed_shownDate, hshows.shownDate]

/-- The platform of the page. -/
def pageContext : StalenessContext where
  column := ReviewRun.reviewContext.column
  getTime := ReviewRun.deadlineContext.getTime
  digest := ReviewRun.reviewDigest
  sha256 := StageRun.pageSha256

def deadlinePage : SourceItem := StageRun.page "Applications close on 10 September."

/-- On 1 September the page is processed; on 11 September it is fetched again,
unchanged. -/
def deadlinePassing : List StalenessStep :=
  [.repository (.upsertOrganization ⟨"t1", "club"⟩),
    .repository (.stageSource deadlinePage "t1"),
    .repository (.markSourceProcessing "srcv_5ccba9f7e39f9d5820eb6b7c" "t1" 1788220800000),
    .ingest
      (claimsOf ReviewRun.reviewDigest "t1" "srcv_5ccba9f7e39f9d5820eb6b7c" deadlinePage
        (fun _ => 1788220800000)
        [⟨.applicationDeadline, .str "2026-09-10", 92 / 100, none, some .date⟩])
      (.at 1788220800000) "club" "t1" "srcv_5ccba9f7e39f9d5820eb6b7c" 1788220800000,
    .repository (.stageSource deadlinePage "t1")]

/-- The application that the page leaves. -/
def deadlineStanding : Resolver.Standing where
  id := "opp_956ef1c39f421d076f10bf5c"
  kind := .application
  closed := false
  date := some 1788998400000
  shown := some (.str "2026-09-10")

/-- The state after the second fetch, and what its evidence says at the deadline and a day
later. -/
theorem deadlinePassing_exec :
    ∃ s, Transition.exec (step pageContext) ⟨PrivacyRun.start, []⟩ deadlinePassing = some s ∧
      s.run.db.overrides = [] ∧
      (s.listed pageContext "t1" "club").map (fun o => (o.id, o.kind, o.stale, o.deadlineAt)) =
        [(deadlineStanding.id, .application, false, some "2026-09-10")] ∧
      (∀ r ∈ s.resolutions, r.tenantId = "t1" ∧ r.orgId = "club" ∧ r.now = 1788220800000 ∧
        r.reopens pageContext = false ∧ r.standings pageContext = [deadlineStanding]) ∧
      ∀ t ∈ [1788998400000, 1789084800000], Resolver.standings pageContext.getTime
        pageContext.digest (s.run.db.view "club" "t1") (.at t) "club" = [deadlineStanding] := by
  have hrun : (Transition.exec (step pageContext) ⟨PrivacyRun.start, []⟩ deadlinePassing).any
      (fun s => s.run.db.overrides = [] ∧
        (s.listed pageContext "t1" "club").map (fun o => (o.id, o.kind, o.stale, o.deadlineAt)) =
          [(deadlineStanding.id, .application, false, some "2026-09-10")] ∧
        (∀ r ∈ s.resolutions, r.tenantId = "t1" ∧ r.orgId = "club" ∧ r.now = 1788220800000 ∧
          r.reopens pageContext = false ∧ r.standings pageContext = [deadlineStanding]) ∧
        ∀ t ∈ [1788998400000, 1789084800000], Resolver.standings pageContext.getTime
          pageContext.digest (s.run.db.view "club" "t1") (.at t) "club" = [deadlineStanding]) =
        true := by
    decide +kernel
  obtain ⟨s, hs, hfacts⟩ := (Option.any_eq_true _ _).mp hrun
  exact ⟨s, hs, of_decide_eq_true hfacts⟩

end StalenessRun

end RecruitingOs
