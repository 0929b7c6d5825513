import RecruitingOs.Lib.Transition
import RecruitingOs.Repository.Queries
import RecruitingOs.Repository.Updates

/-!
# Runs of the two repositories

The same calls are made on a `Store` and on a `PostgresStore`, one at a time.  A call of
`transaction` is two events, its begin and its end: inside an open transaction both stores only
run the operation, and the end of the outermost one commits, or rolls back if the operation
threw.  Postgres rolls back, too, where a statement of the transaction was refused, whatever
the operation made of it.

`InStep` relates the two states of a run.  A run whose steps are all `Agreeable` keeps it, and
every answer of one store is the answer of the other (`stores_agree`).
-/

namespace RecruitingOs.Repository

open Relational Transition

/-- An event at the port. -/
inductive Event where
  /-- `transaction(operation)` is called. -/
  | begin
  /-- The operation returns, or throws. -/
  | finish (failed : Bool)
  | call (call : Call) (now : ℤ)
deriving Repr, DecidableEq

/-- A store: its tables, how deep in transactions the caller is, the tables at the outermost
`begin`, and whether the transaction is aborted, which only Postgres does. -/
structure Connected (τ : Type) where
  tables : Tables τ
  depth : ℕ
  saved : Tables τ
  aborted : Bool
deriving Repr, DecidableEq

namespace Connected

variable {τ : Type}

/-- A store outside any transaction. -/
def start (tables : Tables τ) : Connected τ := ⟨tables, 0, tables, false⟩

/-- The transaction that a call finds. -/
def connection (c : Connected τ) : Connection := ⟨0 < c.depth, c.aborted⟩

/-- `transaction` is called. -/
def enter (c : Connected τ) : Connected τ :=
  if c.depth = 0 then { c with depth := 1, saved := c.tables } else { c with depth := c.depth + 1 }

/-- The operation of `transaction` has ended. -/
def leave (c : Connected τ) (failed : Bool) : Option (Connected τ) :=
  match c.depth with
  | 0 => none
  | 1 => some { c with
      tables := if failed ∨ c.aborted then c.saved else c.tables, depth := 0, aborted := false }
  | depth + 2 => some { c with depth := depth + 1 }

end Connected

/-- What a program returned or threw, as an answer. -/
def answerOf {τ : Type} : Except Failure (Answer τ) → Answer τ
  | .ok answer => answer
  | .error failure => .failed failure

namespace Store

/-- What an event does. -/
def step (options : Options) (c : Connected String) : Event → Option (Connected String)
  | .begin => some c.enter
  | .finish failed => c.leave failed
  | .call (.update call) now =>
      some { c with tables := (exec (update options (0 < c.depth) now call) c.tables).2 }
  | .call (.query _) _ => some c

/-- The answers that an event may have. -/
def Returns (options : Options) (c : Connected String) : Event → Answer String → Prop
  | .begin, answer | .finish _, answer => answer = .done
  | .call (.update call) now, answer =>
      answer = answerOf (exec (update options (0 < c.depth) now call) c.tables).1
  | .call (.query call) _, answer => Answers options c.tables call answer

end Store

namespace PostgresStore

/-- A query that the server refuses. -/
def refuses (options : Options) (call : Query) : Bool :=
  (call.tenant options.defaultTenantId :: call.texts).any hasNul

/-- What an event does: what is refused in a transaction aborts it. -/
def step (options : Options) (server : Server) (c : Connected ℤ) : Event → Option (Connected ℤ)
  | .begin => some c.enter
  | .finish failed => c.leave failed
  | .call (.update call) now =>
      let outcome := exec (update options server c.connection now call) c.tables
      let refused := match outcome.1 with
        | .error .refused => true
        | _ => false
      some { c with tables := outcome.2, aborted := c.aborted || (decide (0 < c.depth) && refused) }
  | .call (.query call) _ =>
      some { c with aborted := c.aborted || (decide (0 < c.depth) && refuses options call) }

/-- The answers that an event may have. -/
def Returns (options : Options) (server : Server) (c : Connected ℤ) : Event → Answer ℤ → Prop
  | .begin, answer | .finish _, answer => answer = .done
  | .call (.update call) now, answer =>
      answer = answerOf (exec (update options server c.connection now call) c.tables).1
  | .call (.query call) _, answer => Answers options server c.connection c.tables call answer

end PostgresStore

/-- Both stores, side by side. -/
def step (options : Options) (server : Server) (c : Connected String × Connected ℤ)
    (event : Event) : Option (Connected String × Connected ℤ) :=
  (Store.step options c.1 event).bind fun s =>
    (PostgresStore.step options server c.2 event).map fun p => (s, p)

/-- Whatever the stores answer to an event, the answers are the same. -/
def SameAnswers (options : Options) (server : Server) (c : Connected String × Connected ℤ)
    (event : Event) : Prop :=
  ∀ a b, Store.Returns options c.1 event a → PostgresStore.Returns options server c.2 event b →
    a.Agrees server b

/-- The condition on a step.  After a refused statement the operation makes no other call, and
throws. -/
def Event.Agreeable (options : Options) (server : Server) (c : Connected String × Connected ℤ) :
    Event → Prop
  | .begin => True
  | .finish failed => c.2.aborted → c.2.depth = 1 → failed
  | .call (.update write) _ =>
      c.2.aborted = false ∧ write.Agreeable options server (0 < c.1.depth) c.1.tables
  | .call (.query question) _ => c.2.aborted = false ∧ question.Agreeable options server c.1.tables

/-- The states of a run. -/
structure InStep (options : Options) (server : Server) (c : Connected String × Connected ℤ) :
    Prop where
  depth : c.2.depth = c.1.depth
  saved : 0 < c.1.depth → Corresponds options server c.1.saved c.2.saved
  tables : c.2.aborted = false → Corresponds options server c.1.tables c.2.tables
  closed : c.2.aborted → 0 < c.1.depth
  unaborted : c.1.aborted = false

variable {options : Options} {server : Server} {c d : Connected String × Connected ℤ}

theorem step_eq_some {event : Event} : step options server c event = some d ↔
    Store.step options c.1 event = some d.1 ∧
      PostgresStore.step options server c.2 event = some d.2 := by
  simp only [step, Option.bind_eq_some_iff, Option.map_eq_some_iff]
  constructor
  · rintro ⟨s, hs, p, hp, rfl⟩
    exact ⟨hs, hp⟩
  · rintro ⟨hs, hp⟩
    exact ⟨d.1, hs, d.2, hp, rfl⟩

/-- The answers of two programs with agreed outcomes. -/
theorem agrees_of_map {a : Answer String} {b : Answer ℤ}
    (h : b = a.map server.instant Json.canonical) : a.Agrees server b := by
  subst h
  cases a with
  | organizations listed => exact Listing.SameOrder.refl _
  | claims listed => exact Listing.SameOrder.refl _
  | opportunities listed => exact Listing.SameOrder.refl _
  | overrides listed => exact Listing.SameOrder.refl _
  | _ => rfl

theorem InStep.enter {s : Connected String} {p : Connected ℤ}
    (h : InStep options server (s, p)) : InStep options server (s.enter, p.enter) := by
  obtain ⟨hdepth, hsaved, htables, hclosed, hunaborted⟩ := h
  dsimp only at hdepth hsaved htables hclosed hunaborted
  unfold Connected.enter
  rw [hdepth]
  by_cases hopen : s.depth = 0
  · have hfree : p.aborted = false := by
      by_contra haborted
      have hpos := hclosed (by simpa using haborted)
      omega
    rw [if_pos hopen, if_pos hopen]
    exact ⟨rfl, fun _ => htables hfree, htables, fun _ => Nat.one_pos, hunaborted⟩
  · rw [if_neg hopen, if_neg hopen]
    exact ⟨rfl, fun _ => hsaved (Nat.pos_of_ne_zero hopen), htables, fun _ => Nat.succ_pos _,
      hunaborted⟩

theorem InStep.leave {s s' : Connected String} {p p' : Connected ℤ} {failed : Bool}
    (h : InStep options server (s, p)) (hthrow : p.aborted → p.depth = 1 → failed)
    (hs : s.leave failed = some s') (hp : p.leave failed = some p') :
    InStep options server (s', p') := by
  obtain ⟨hdepth, hsaved, htables, hclosed, hunaborted⟩ := h
  dsimp only at hdepth hsaved htables hclosed hunaborted
  unfold Connected.leave at hs hp
  rw [hdepth] at hp hthrow
  cases hopen : s.depth with
  | zero =>
      rw [hopen] at hs
      cases hs
  | succ depth =>
      rw [hopen] at hs hp hthrow
      cases depth with
      | zero =>
          obtain rfl := Option.some.inj hs
          obtain rfl := Option.some.inj hp
          refine ⟨rfl, fun hpos => absurd hpos (Nat.lt_irrefl 0), fun _ => ?_,
            fun haborted => absurd haborted Bool.false_ne_true, rfl⟩
          have hstart := hsaved (by omega)
          -- outside a refusal the operation decides for both stores
          cases haborted : p.aborted with
          | false => cases failed <;> simp [hunaborted, hstart, htables haborted]
          | true => simp [hthrow haborted rfl, hstart]
      | succ depth =>
          obtain rfl := Option.some.inj hs
          obtain rfl := Option.some.inj hp
          exact ⟨rfl, fun _ => hsaved (by omega), htables, fun _ => Nat.succ_pos _, hunaborted⟩

/-- A call that writes. -/
theorem InStep.update {s : Connected String} {p : Connected ℤ} {call : Update} {now : ℤ}
    {s' : Connected String} {p' : Connected ℤ}
    (h : InStep options server (s, p)) (hfree : p.aborted = false)
    (hcall : call.Agreeable options server (0 < s.depth) s.tables)
    (hs : Store.step options s (.call (.update call) now) = some s')
    (hp : PostgresStore.step options server p (.call (.update call) now) = some p') :
    InStep options server (s', p') ∧
      SameAnswers options server (s, p) (.call (.update call) now) := by
  obtain ⟨hdepth, hsaved, htables, hclosed, hunaborted⟩ := h
  dsimp only at hdepth hsaved htables hclosed hunaborted
  have hconnection : p.connection = ⟨0 < s.depth, false⟩ := by
    rw [Connected.connection, hdepth, hfree]
  have hboth := @update_agrees _ _ _ _ _ now _ (htables hfree) hcall
  obtain rfl := Option.some.inj hs
  obtain rfl := Option.some.inj hp
  unfold SameAnswers Store.Returns PostgresStore.Returns
  dsimp only
  rw [hconnection, hfree, hdepth]
  revert hboth
  rcases exec (Store.update options (0 < s.depth) now call) s.tables with ⟨e | a, t⟩ <;>
    rcases exec (PostgresStore.update options server ⟨0 < s.depth, false⟩ now call) p.tables with
      ⟨e' | b, q⟩ <;> intro hboth
  · obtain ⟨rfl, hafter⟩ := hboth
    refine ⟨⟨rfl, hsaved, fun hunrefused => ?_, fun hrefused => ?_, hunaborted⟩, ?_⟩
    · refine hafter.resolve_left ?_
      rintro ⟨hopen, rfl⟩
      simp_all
    · simpa using (Bool.and_eq_true _ _).mp ((Bool.false_or _).symm.trans hrefused) |>.1
    · rintro a b rfl rfl
      rfl
  · exact hboth.elim
  · exact hboth.elim
  · obtain ⟨hmap, hafter⟩ := hboth
    refine ⟨⟨rfl, hsaved, fun _ => hafter, fun hrefused => by simp at hrefused, hunaborted⟩, ?_⟩
    rintro a b rfl rfl
    exact agrees_of_map hmap

/-- A call that reads. -/
theorem InStep.query {s : Connected String} {p : Connected ℤ} {call : Query} {now : ℤ}
    {s' : Connected String} {p' : Connected ℤ}
    (h : InStep options server (s, p)) (hfree : p.aborted = false)
    (hcall : call.Agreeable options server s.tables)
    (hs : Store.step options s (.call (.query call) now) = some s')
    (hp : PostgresStore.step options server p (.call (.query call) now) = some p') :
    InStep options server (s', p') ∧
      SameAnswers options server (s, p) (.call (.query call) now) := by
  have hadmitted : PostgresStore.refuses options call = false := by
    simpa [PostgresStore.refuses] using hcall.1
  obtain rfl := Option.some.inj hs
  obtain rfl := Option.some.inj hp
  refine ⟨?_, fun a b ha hb => ?_⟩
  · rw [hadmitted, Bool.and_false, Bool.or_false]
    exact h
  · have hb : PostgresStore.Answers options server ⟨0 < p.depth, p.aborted⟩ p.tables call b := hb
    rw [hfree] at hb
    exact query_agrees (h.tables hfree) hcall ha hb

/-- **The step lemma.** -/
theorem InStep.step {event : Event} (h : InStep options server c)
    (hevent : event.Agreeable options server c)
    (hstep : RecruitingOs.Repository.step options server c event = some d) :
    InStep options server d ∧ SameAnswers options server c event := by
  obtain ⟨s, p⟩ := c
  obtain ⟨s', p'⟩ := d
  obtain ⟨hs, hp⟩ := step_eq_some.mp hstep
  cases event with
  | begin =>
      obtain rfl : s.enter = s' := Option.some.inj hs
      obtain rfl : p.enter = p' := Option.some.inj hp
      refine ⟨h.enter, ?_⟩
      rintro a b rfl rfl
      rfl
  | finish failed =>
      refine ⟨h.leave hevent hs hp, ?_⟩
      rintro a b rfl rfl
      rfl
  | call call now =>
      cases call with
      | update call => exact h.update hevent.1 hevent.2 hs hp
      | query call => exact h.query hevent.1 hevent.2 hs hp

/-- Two stores outside a transaction, on databases that correspond. -/
theorem InStep.start {s : Tables String} {p : Tables ℤ} (h : Corresponds options server s p) :
    InStep options server (Connected.start s, Connected.start p) :=
  ⟨rfl, fun _ => h, fun _ => h, fun haborted => absurd haborted Bool.false_ne_true, rfl⟩

/-- Every event has an answer in either store. -/
theorem exists_answers (options : Options) (server : Server)
    (c : Connected String × Connected ℤ) (event : Event) :
    ∃ a b, Store.Returns options c.1 event a ∧
      PostgresStore.Returns options server c.2 event b := by
  match event with
  | .begin | .finish _ | .call (.update _) _ => exact ⟨_, _, rfl, rfl⟩
  | .call (.query call) _ =>
      obtain ⟨a, ha⟩ := Store.exists_answer options c.1.tables call
      obtain ⟨b, hb⟩ := PostgresStore.exists_answer options server c.2.connection c.2.tables call
      exact ⟨a, b, ha, hb⟩

/-- A hash that keeps the text, and a tenant. -/
def chapelHill : Options := ⟨fun text => text, fun text => text, "chapel-hill"⟩

/-- A server that tells one instant from all others. -/
def deadlineServer : Server where
  accepts text := text ≠ ""
  micros text := if text = "2026-09-15T03:59:00.000Z" then 1789444740000000 else 1789941600000000
  accepts_empty := by decide
  collate text := text.toList.map Char.toNat
  collate_injective := by
    intro a b h
    have hcodes : Function.Injective Char.toNat := fun c d hcd =>
      Char.ext (UInt32.toNat_inj.mp hcd)
    exact String.toList_injective (List.map_injective_iff.mpr hcodes h)

def acme : Organization :=
  ⟨"acme", none, "Acme Consulting", "UNC", none, some "https://acme.example", none, none⟩

/-- An application of `acme`. -/
def acmeApplication (id : String) (deadlineAt : Option String) : Opportunity where
  id := id
  tenantId := none
  organizationId := "acme"
  kind := .application
  title := "Acme application"
  deadlineAt := deadlineAt
  startsAt := none
  url := none
  role := none
  confidence := 3 / 4
  stale := false
  sourceClaimIds := []
  explanation := "resolved"
  resolvedAt := "2026-09-20T22:00:00.000Z"
  resolverVersion := some "v2"
  deadlinePrecision := none
  startsAtPrecision := none

def fallApplication : Opportunity := acmeApplication "opp_fall" (some "2026-09-15T03:59:00.000Z")

def springApplication : Opportunity :=
  acmeApplication "opp_spring" (some "2026-09-20T22:00:00.000Z")

/-- An application whose deadline is not known. -/
def rollingApplication : Opportunity := acmeApplication "opp_rolling" none

/-- The calls of an ingest that stores two opportunities, and what reads them. -/
def acmeRun : List Event :=
  [.begin, .call (.update (.upsertOrganization acme none)) 0,
    .call (.update (.replaceOpportunities "acme" [fallApplication, springApplication] none)) 1,
    .finish false, .call (.query (.listOpportunities (some "acme") none)) 2]

end RecruitingOs.Repository
