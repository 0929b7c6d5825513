import RecruitingOs.Repository.Agreement
import RecruitingOs.Repository.TenantCalls

/-!
# Tenants do not meet

Several tenants use one repository.  As long as no two of them name the same source, version,
claim or override, and nobody else is served inside a transaction, each of them gets the answers
that it would get from a database of its own (`stores_isolate`).
-/

namespace RecruitingOs.Repository

open Relational Transition

/-- A store that several tenants use, and the one that was served last. -/
structure Served (τ : Type) where
  store : Connected τ
  tenantId : String

/-- The next event: inside a transaction nobody else is served. -/
def serve {τ : Type} (step : Connected τ → Event → Option (Connected τ)) (s : Served τ)
    (e : String × Event) : Option (Served τ) :=
  if 0 < s.store.depth ∧ s.tenantId ≠ e.1 then none
  else (step s.store e.2).map fun store => ⟨store, e.1⟩

/-- An event that acts for a tenant, on what is the tenant's. -/
def Event.For (options : Options) (owner : String → String) (tenantId : String) : Event → Prop
  | .begin | .finish _ => True
  | .call (.update write) _ => write.For options owner tenantId
  | .call (.query question) _ => question.tenant options.defaultTenantId = tenantId

/-- What one tenant does. -/
def eventsOf (tenantId : String) (events : List (String × Event)) : List Event :=
  (events.filter fun e => e.1 = tenantId).map Prod.snd

/-- The database of a tenant, in the transaction of a store. -/
structure Mirrors {τ : Type} (tenantId : String) (c c' : Connected τ) : Prop where
  tables : c'.tables = c.tables.part tenantId
  depth : c'.depth = c.depth
  saved : 0 < c.depth → c'.saved = c.saved.part tenantId
  aborted : c'.aborted = c.aborted

/-- What the runs below use of a store. -/
structure Tenanted {τ : Type} (options : Options) (owner : String → String)
    (step : Connected τ → Event → Option (Connected τ))
    (Returns : Connected τ → Event → Answer τ → Prop) : Prop where
  enter : ∀ c, step c .begin = some c.enter
  leave : ∀ c failed, step c (.finish failed) = c.leave failed
  call : ∀ (tenantId : String) (c : Connected τ) call now,
    (Event.call call now).For options owner tenantId → c.tables.Owned owner →
    ∃ tables aborted, step c (.call call now) = some { c with tables := tables, aborted := aborted } ∧
      tables.Owned owner ∧ (c.depth = 0 → aborted = c.aborted) ∧
      (∀ other, other ≠ tenantId → tables.part other = c.tables.part other) ∧
      ∀ c', Mirrors tenantId c c' → step c' (.call call now) =
        some { c' with tables := tables.part tenantId, aborted := aborted }
  returns : ∀ (tenantId : String) (c c' : Connected τ) event answer,
    event.For options owner tenantId → c.tables.Owned owner → Mirrors tenantId c c' →
    (Returns c' event answer ↔ Returns c event answer)

variable {τ : Type} {options : Options} {owner : String → String} {tenantId : String}

/-! ### The two stores -/

theorem Store.tenanted : Tenanted options owner (Store.step options) (Store.Returns options) where
  enter _ := rfl
  leave _ _ := rfl
  call tenantId c call now hcall hdb := by
    cases call with
    | update call =>
        have h := @Store.confined_update owner tenantId options (0 < c.depth) now call hcall
        refine ⟨_, c.aborted, rfl, h.keeps _ hdb, fun _ => rfl, h.others _ hdb, fun c' hc' => ?_⟩
        unfold Store.step
        dsimp only
        rw [hc'.tables, hc'.depth, h.own _ hdb, ← hc'.aborted]
    | query call =>
        refine ⟨c.tables, c.aborted, rfl, hdb, fun _ => rfl, fun _ _ => rfl, fun c' hc' => ?_⟩
        rw [← hc'.tables, ← hc'.aborted]
        rfl
  returns tenantId c c' event answer hevent hdb hc' := by
    cases event with
    | begin => exact Iff.rfl
    | finish failed => exact Iff.rfl
    | call call now =>
        cases call with
        | update call =>
            have h := @Store.confined_update owner tenantId options (0 < c.depth) now call hevent
            unfold Store.Returns
            dsimp only
            rw [hc'.tables, hc'.depth, h.own _ hdb]
        | query call =>
            unfold Store.Returns
            dsimp only
            rw [hc'.tables]
            exact Store.answers_part hdb hevent

theorem PostgresStore.tenanted {server : Server} :
    Tenanted options owner (PostgresStore.step options server)
      (PostgresStore.Returns options server) where
  enter _ := rfl
  leave _ _ := rfl
  call tenantId c call now hcall hdb := by
    cases call with
    | update call =>
        have h := @PostgresStore.confined_update owner tenantId options server c.connection now call
          hcall
        refine ⟨_, _, rfl, h.keeps _ hdb, fun hdepth => ?_, h.others _ hdb, fun c' hc' => ?_⟩
        · -- outside a transaction a refusal aborts nothing
          rw [hdepth]
          exact Bool.or_false _
        · have hconnection : c'.connection = c.connection := by
            rw [Connected.connection, hc'.depth, hc'.aborted]
            rfl
          unfold PostgresStore.step
          dsimp only
          rw [hconnection, hc'.tables, hc'.depth, hc'.aborted, h.own _ hdb]
    | query call =>
        refine ⟨c.tables, _, rfl, hdb, fun hdepth => ?_, fun _ _ => rfl, fun c' hc' => ?_⟩
        · rw [hdepth]
          exact Bool.or_false _
        · unfold PostgresStore.step
          dsimp only
          rw [← hc'.tables, hc'.depth, hc'.aborted]
  returns tenantId c c' event answer hevent hdb hc' := by
    have hconnection : c'.connection = c.connection := by
      rw [Connected.connection, hc'.depth, hc'.aborted]
      rfl
    cases event with
    | begin => exact Iff.rfl
    | finish failed => exact Iff.rfl
    | call call now =>
        cases call with
        | update call =>
            have h := @PostgresStore.confined_update owner tenantId options server c.connection now
              call hevent
            unfold PostgresStore.Returns
            dsimp only
            rw [hconnection, hc'.tables, h.own _ hdb]
        | query call =>
            unfold PostgresStore.Returns
            dsimp only
            rw [hconnection, hc'.tables]
            exact PostgresStore.answers_part hevent

/-! ### Runs -/

/-- The store as a tenant sees it: the transaction of somebody else is none. -/
def Served.seenBy (s : Served τ) (tenantId : String) : Connected τ :=
  if s.tenantId = tenantId then s.store else { s.store with depth := 0, aborted := false }

/-- The states of a run.  An open transaction has changed the rows of its tenant only. -/
structure Served.Inv (owner : String → String) (s : Served τ) : Prop where
  tables : s.store.tables.Owned owner
  saved : 0 < s.store.depth → s.store.saved.Owned owner
  closed : s.store.depth = 0 → s.store.aborted = false
  quiet : 0 < s.store.depth → ∀ other, other ≠ s.tenantId →
    s.store.saved.part other = s.store.tables.part other

/-- What a step of a tenant does: the others keep their rows, and a mirror follows. -/
structure Served.Next (owner : String → String)
    (step : Connected τ → Event → Option (Connected τ)) (s : Served τ) (e : String × Event)
    (t : Served τ) : Prop where
  inv : t.Inv owner
  holder : t.tenantId = e.1
  others : ∀ other, other ≠ e.1 → t.store.tables.part other = s.store.tables.part other
  mirrored : ∀ c, Mirrors e.1 s.store c → ∃ d, step c e.2 = some d ∧ Mirrors e.1 t.store d

variable {step : Connected τ → Event → Option (Connected τ)}
  {Returns : Connected τ → Event → Answer τ → Prop} {s t : Served τ} {e : String × Event}

theorem serve_eq_some : serve step s e = some t ↔
    (0 < s.store.depth → s.tenantId = e.1) ∧ step s.store e.2 = some t.store ∧
      t.tenantId = e.1 := by
  unfold serve
  obtain ⟨store, holder⟩ := t
  by_cases hguard : 0 < s.store.depth ∧ s.tenantId ≠ e.1
  · rw [if_pos hguard]
    constructor
    · intro h
      cases h
    · rintro ⟨hheld, -⟩
      exact absurd (hheld hguard.1) hguard.2
  · rw [if_neg hguard, Option.map_eq_some_iff]
    have hheld : 0 < s.store.depth → s.tenantId = e.1 := by
      intro hopen
      by_contra hother
      exact hguard ⟨hopen, hother⟩
    constructor
    · rintro ⟨_, hstep, h⟩
      cases h
      exact ⟨hheld, hstep, rfl⟩
    · rintro ⟨-, hstep, rfl⟩
      exact ⟨store, hstep, rfl⟩

theorem Served.Inv.enter (hstore : Tenanted options owner step Returns) (h : s.Inv owner)
    (he : e.2 = .begin) (hheld : 0 < s.store.depth → s.tenantId = e.1) :
    Served.Next owner step s e ⟨s.store.enter, e.1⟩ := by
  by_cases hopen : s.store.depth = 0
  · have henter : ∀ c : Connected τ, c.depth = 0 →
        c.enter = { c with depth := 1, saved := c.tables } := fun c hc => if_pos hc
    rw [henter _ hopen]
    refine ⟨⟨h.tables, fun _ => h.tables, fun hzero => absurd hzero Nat.one_ne_zero,
      fun _ _ _ => rfl⟩, rfl, fun _ _ => rfl, fun c hc => ⟨_, he ▸ hstore.enter c, ?_⟩⟩
    rw [henter c (hc.depth.trans hopen)]
    exact ⟨hc.tables, rfl, fun _ => hc.tables, hc.aborted⟩
  · have hpos := Nat.pos_of_ne_zero hopen
    have henter : ∀ c : Connected τ, c.depth = s.store.depth →
        c.enter = { c with depth := c.depth + 1 } := fun c hc => if_neg (hc ▸ hopen)
    rw [henter _ rfl]
    refine ⟨⟨h.tables, fun _ => h.saved hpos, fun hzero => absurd hzero (Nat.succ_ne_zero _),
      fun _ other hother => h.quiet hpos other (hheld hpos ▸ hother)⟩, rfl, fun _ _ => rfl,
      fun c hc => ⟨_, he ▸ hstore.enter c, ?_⟩⟩
    rw [henter c hc.depth]
    exact ⟨hc.tables, congrArg Nat.succ hc.depth, fun _ => hc.saved hpos, hc.aborted⟩

theorem Served.Inv.leave (hstore : Tenanted options owner step Returns) (h : s.Inv owner)
    {failed : Bool} (he : e.2 = .finish failed) (hheld : 0 < s.store.depth → s.tenantId = e.1)
    {store : Connected τ} (hleave : s.store.leave failed = some store) :
    Served.Next owner step s e ⟨store, e.1⟩ := by
  have hfollow : ∀ c, step c e.2 = c.leave failed := fun c => he ▸ hstore.leave c failed
  unfold Connected.leave at hleave
  split at hleave
  · cases hleave
  · rename_i hdepth
    have hpos : 0 < s.store.depth := by omega
    cases hleave
    refine ⟨⟨?_, fun hzero => absurd hzero (Nat.lt_irrefl 0), fun _ => rfl,
      fun hzero => absurd hzero (Nat.lt_irrefl 0)⟩, rfl, fun other hother => ?_, fun c hc => ?_⟩
    · dsimp only
      split
      · exact h.saved hpos
      · exact h.tables
    · dsimp only
      split
      · exact h.quiet hpos other (hheld hpos ▸ hother)
      · rfl
    · rw [hfollow, Connected.leave, hc.depth, hdepth]
      refine ⟨_, rfl, ⟨?_, rfl, fun hzero => absurd hzero (Nat.lt_irrefl 0), rfl⟩⟩
      dsimp only
      rw [hc.aborted, hc.saved hpos, hc.tables]
      split
      · rfl
      · rfl
  · rename_i depth hdepth
    have hpos : 0 < s.store.depth := by omega
    cases hleave
    refine ⟨⟨h.tables, fun _ => h.saved hpos, fun hzero => absurd hzero (Nat.succ_ne_zero _),
      fun _ other hother => h.quiet hpos other (hheld hpos ▸ hother)⟩, rfl, fun _ _ => rfl,
      fun c hc => ?_⟩
    rw [hfollow, Connected.leave, hc.depth, hdepth]
    exact ⟨_, rfl, ⟨hc.tables, rfl, fun _ => hc.saved hpos, hc.aborted⟩⟩

/-- **The step lemma.** -/
theorem Served.Inv.next (hstore : Tenanted options owner step Returns) (h : s.Inv owner)
    (he : e.2.For options owner e.1) (hs : serve step s e = some t) :
    Served.Next owner step s e t := by
  obtain ⟨hheld, hstep, hholder⟩ := serve_eq_some.mp hs
  obtain ⟨store, holder⟩ := t
  dsimp only at hstep hholder
  subst hholder
  cases hevent : e.2 with
  | begin =>
      rw [hevent, hstore.enter] at hstep
      obtain rfl := Option.some.inj hstep
      exact h.enter hstore hevent hheld
  | finish failed =>
      rw [hevent, hstore.leave] at hstep
      exact h.leave hstore hevent hheld hstep
  | call call now =>
      rw [hevent] at he hstep
      obtain ⟨tables, aborted, hcall, howned, hclosed, hothers, hmirrored⟩ :=
        hstore.call e.1 s.store call now he h.tables
      obtain rfl := Option.some.inj (hcall.symm.trans hstep)
      refine ⟨⟨howned, h.saved, fun hzero => (hclosed hzero).trans (h.closed hzero),
        fun hpos other hother => ?_⟩, rfl, hothers, fun c hc => ⟨_, hevent ▸ hmirrored c hc, ?_⟩⟩
      · exact (h.quiet hpos other (hheld hpos ▸ hother)).trans (hothers other hother).symm
      · exact ⟨rfl, hc.depth, hc.saved, rfl⟩

/-- A tenant that may be served sees the store as it is. -/
theorem Served.Inv.seenBy_eq (h : s.Inv owner) (hheld : 0 < s.store.depth → s.tenantId = tenantId) :
    s.seenBy tenantId = s.store := by
  unfold Served.seenBy
  split
  · rfl
  · rename_i hother
    have hzero : s.store.depth = 0 := by
      by_contra hopen
      exact hother (hheld (Nat.pos_of_ne_zero hopen))
    rw [← h.closed hzero, ← hzero]

/-- A tenant that is in no transaction. -/
theorem Served.Inv.mirrors_iff (h : s.Inv owner)
    (hother : 0 < s.store.depth → s.tenantId ≠ tenantId) {c : Connected τ} :
    Mirrors tenantId (s.seenBy tenantId) c ↔
      c.tables = s.store.tables.part tenantId ∧ c.depth = 0 ∧ c.aborted = false := by
  unfold Served.seenBy
  split
  · rename_i hown
    have hzero : s.store.depth = 0 := by
      by_contra hopen
      exact hother (Nat.pos_of_ne_zero hopen) hown
    constructor
    · intro hc
      exact ⟨hc.tables, hc.depth.trans hzero, hc.aborted.trans (h.closed hzero)⟩
    · rintro ⟨htables, hdepth, haborted⟩
      exact ⟨htables, hdepth.trans hzero.symm, fun hopen => absurd hzero (Nat.ne_of_gt hopen),
        haborted.trans (h.closed hzero).symm⟩
  · constructor
    · intro hc
      exact ⟨hc.tables, hc.depth, hc.aborted⟩
    · rintro ⟨htables, hdepth, haborted⟩
      exact ⟨htables, hdepth, fun hopen => absurd hopen (Nat.lt_irrefl 0), haborted⟩

theorem eventsOf_cons {events : List (String × Event)} : eventsOf tenantId (e :: events) =
    if e.1 = tenantId then e.2 :: eventsOf tenantId events else eventsOf tenantId events := by
  unfold eventsOf
  rw [List.filter_cons]
  by_cases hown : e.1 = tenantId
  · rw [if_pos hown, if_pos (decide_eq_true hown), List.map_cons]
  · rw [if_neg hown, if_neg (by simp [hown])]

/-- **The run lemma.**  A tenant goes on alone, whatever the others do. -/
theorem mirrored_run (hstore : Tenanted options owner step Returns) :
    ∀ {events : List (String × Event)} {s : Served τ} {c : Connected τ}, s.Inv owner →
      Mirrors tenantId (s.seenBy tenantId) c → (∀ e ∈ events, e.2.For options owner e.1) →
      exec (serve step) s events = some t →
      ∃ d, exec step c (eventsOf tenantId events) = some d ∧ t.Inv owner ∧
        Mirrors tenantId (t.seenBy tenantId) d := by
  intro events
  induction events with
  | nil =>
      intro s c h hc _ hrun
      cases hrun
      exact ⟨c, rfl, h, hc⟩
  | cons e events ih =>
      intro s c h hc hevents hrun
      obtain ⟨u, hu, hrun⟩ := Option.bind_eq_some_iff.mp hrun
      have hnext := h.next hstore (hevents e List.mem_cons_self) hu
      have hheld := (serve_eq_some.mp hu).1
      have hrest : ∀ e ∈ events, e.2.For options owner e.1 :=
        fun e he => hevents e (List.mem_cons_of_mem _ he)
      rw [eventsOf_cons]
      by_cases hown : e.1 = tenantId
      · -- the tenant moves, and so does the mirror
        subst hown
        rw [h.seenBy_eq hheld] at hc
        obtain ⟨d, hd, hmirror⟩ := hnext.mirrored c hc
        rw [← hnext.inv.seenBy_eq fun _ => hnext.holder] at hmirror
        obtain ⟨last, hlast, hend⟩ := ih hnext.inv hmirror hrest hrun
        rw [if_pos rfl]
        exact ⟨last, Option.bind_eq_some_iff.mpr ⟨d, hd, hlast⟩, hend⟩
      · -- somebody else moves, and the mirror stands
        obtain ⟨htables, hidle⟩ := (h.mirrors_iff fun hopen => hheld hopen ▸ hown).mp hc
        have hmirror : Mirrors tenantId (u.seenBy tenantId) c :=
          (hnext.inv.mirrors_iff fun _ => hnext.holder ▸ hown).mpr
            ⟨htables.trans (hnext.others tenantId (Ne.symm hown)).symm, hidle⟩
        rw [if_neg hown]
        exact ih hnext.inv hmirror hrest hrun

/-- Whatever the others do, each tenant has the database, and gets the answers, that it would have
and get alone. -/
def Isolates (options : Options) (owner : String → String)
    (step : Connected τ → Event → Option (Connected τ))
    (Returns : Connected τ → Event → Answer τ → Prop) : Prop :=
  ∀ (db : Tables τ) (first : String) (events : List (String × Event)) (s : Served τ),
    db.Owned owner → (∀ e ∈ events, e.2.For options owner e.1) →
    exec (serve step) ⟨Connected.start db, first⟩ events = some s →
    ∀ tenantId, ∃ c,
      exec step (Connected.start (db.part tenantId)) (eventsOf tenantId events) = some c ∧
      c.tables = s.store.tables.part tenantId ∧
      ∀ event, event.For options owner tenantId → (0 < s.store.depth → s.tenantId = tenantId) →
        ∀ answer, Returns s.store event answer ↔ Returns c event answer

theorem Tenanted.isolates (hstore : Tenanted options owner step Returns) :
    Isolates options owner step Returns := by
  intro db first events s hdb hevents hrun tenantId
  have hstart : Served.Inv owner ⟨Connected.start db, first⟩ :=
    ⟨hdb, fun hopen => absurd hopen (Nat.lt_irrefl 0), fun _ => rfl,
      fun hopen => absurd hopen (Nat.lt_irrefl 0)⟩
  have hmirror : Mirrors tenantId (Served.seenBy ⟨Connected.start db, first⟩ tenantId)
      (Connected.start (db.part tenantId)) :=
    (hstart.mirrors_iff fun hopen => absurd hopen (Nat.lt_irrefl 0)).mpr ⟨rfl, rfl, rfl⟩
  obtain ⟨c, hc, hinv, hend⟩ := mirrored_run hstore hstart hmirror hevents hrun
  refine ⟨c, hc, ?_, fun event hevent hheld answer => ?_⟩
  · have htables := hend.tables
    unfold Served.seenBy at htables
    split at htables
    · exact htables
    · exact htables
  · rw [hinv.seenBy_eq hheld] at hend
    exact (hstore.returns tenantId s.store c event answer hevent hinv.tables hend).symm

/-- Two tenants that have an organization of one id. -/
def twoTenants : List (String × Event) :=
  [("a", .call (.update (.upsertOrganization acme (some "a"))) 0), ("b", .begin),
    ("b", .call (.update (.upsertOrganization { acme with name := "Acme" } (some "b"))) 1),
    ("b", .finish false)]

end RecruitingOs.Repository
