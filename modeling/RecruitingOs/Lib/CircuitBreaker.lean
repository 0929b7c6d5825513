import Mathlib.Algebra.Order.Monoid.Defs
import Mathlib.Data.List.Basic

/-!
# Circuit breakers

A breaker counts the calls that fail, and opens for a period when there have been so many of them
since the last success or the last opening.

* `Opens`: what that means, for a history alone.
* `opens_iff`: a counter finds it out.
* `foldr_step`: the breaker is open exactly during the periods that begin with the openings.
-/

namespace CircuitBreaker

/-- How a call ended; a skipped one does not count. -/
inductive Outcome
  | succeeded
  | failed
  | skipped
deriving DecidableEq, Repr

variable {threshold : ℕ} {recent old history : List Outcome}

/-! ### Histories -/

/-- There were so many failed calls, and no success. -/
def FailedOnly (n : ℕ) (recent : List Outcome) : Prop :=
  .succeeded ∉ recent ∧ recent.count .failed = n

/-- The last call of a history, which has the last call first, opens the breaker: it is the failed
call that reaches the threshold, since the last success, the last opening or the beginning. -/
inductive Opens (threshold : ℕ) : List Outcome → Prop
  | fromStart {recent : List Outcome} : FailedOnly threshold (.failed :: recent) →
      Opens threshold (.failed :: recent)
  | afterSuccess {recent old : List Outcome} : FailedOnly threshold (.failed :: recent) →
      Opens threshold (.failed :: (recent ++ .succeeded :: old))
  | afterOpening {recent old : List Outcome} : FailedOnly threshold (.failed :: recent) →
      Opens threshold old → Opens threshold (.failed :: (recent ++ old))

/-- The counter of a breaker. -/
def failedSince (threshold : ℕ) : List Outcome → ℕ
  | [] => 0
  | .succeeded :: _ => 0
  | .failed :: history =>
      if threshold ≤ failedSince threshold history + 1 then 0
      else failedSince threshold history + 1
  | .skipped :: history => failedSince threshold history

theorem failedSince_lt (h : 0 < threshold) (history : List Outcome) :
    failedSince threshold history < threshold := by
  induction history with
  | nil => exact h
  | cons outcome history ih =>
      cases outcome with
      | succeeded => exact h
      | skipped => exact ih
      | failed =>
          rw [failedSince]
          split
          · exact h
          · omega

/-- From a reset counter on, calls that fail are counted until there are enough. -/
theorem failedSince_append (hold : failedSince threshold old = 0) {n : ℕ}
    (h : FailedOnly n recent) (hn : n < threshold) :
    failedSince threshold (recent ++ old) = n := by
  induction recent generalizing n with
  | nil => exact hold.trans h.2
  | cons outcome recent ih =>
      obtain ⟨hnone, hcount⟩ := h
      have hrest : .succeeded ∉ recent := fun hmem => hnone (List.mem_cons_of_mem _ hmem)
      cases outcome with
      | succeeded => exact absurd List.mem_cons_self hnone
      | skipped =>
          rw [List.count_cons_of_ne (by decide)] at hcount
          exact ih ⟨hrest, hcount⟩ hn
      | failed =>
          rw [List.count_cons_self] at hcount
          have hless := ih ⟨hrest, rfl⟩ (by omega)
          rw [List.cons_append, failedSince, hless, if_neg (by omega), hcount]

theorem FailedOnly.of_failed {n : ℕ} (h : FailedOnly n (.failed :: recent)) :
    FailedOnly (n - 1) recent ∧ 0 < n := by
  obtain ⟨hnone, hcount⟩ := h
  rw [List.count_cons_self] at hcount
  exact ⟨⟨fun hmem => hnone (List.mem_cons_of_mem _ hmem), by omega⟩, by omega⟩

theorem FailedOnly.failed {n : ℕ} (h : FailedOnly n recent) :
    FailedOnly (n + 1) (.failed :: recent) := by
  refine ⟨?_, by rw [List.count_cons_self, h.2]⟩
  rintro (_ | ⟨_, hmem⟩)
  exact h.1 hmem

theorem FailedOnly.skipped {n : ℕ} (h : FailedOnly n recent) :
    FailedOnly n (.skipped :: recent) := by
  refine ⟨?_, by rw [List.count_cons_of_ne (by decide), h.2]⟩
  rintro (_ | ⟨_, hmem⟩)
  exact h.1 hmem

/-- Enough failed calls open the breaker, from a reset counter on. -/
theorem opens_of_recent (hold : old = [] ∨ (∃ older, old = .succeeded :: older) ∨
    Opens threshold old) (h : FailedOnly threshold (.failed :: recent)) :
    Opens threshold (.failed :: (recent ++ old)) := by
  rcases hold with rfl | ⟨older, rfl⟩ | hopens
  · rw [List.append_nil]
    exact .fromStart h
  · exact .afterSuccess h
  · exact .afterOpening h hopens

/-- An opening reaches the threshold, so that the counter is reset. -/
theorem Opens.failedSince_eq (h : Opens threshold history) : ∃ before, history = .failed :: before ∧
    failedSince threshold before + 1 = threshold ∧ failedSince threshold history = 0 := by
  have hreset : ∀ before, failedSince threshold before + 1 = threshold →
      failedSince threshold (.failed :: before) = 0 := fun before hlast => by
    rw [failedSince, if_pos hlast.ge]
  induction h with
  | @fromStart recent hfailed =>
      obtain ⟨hrecent, hpos⟩ := hfailed.of_failed
      have hcount : failedSince threshold (recent ++ []) = threshold - 1 :=
        failedSince_append rfl hrecent (by omega)
      rw [List.append_nil] at hcount
      exact ⟨recent, rfl, by omega, hreset _ (by omega)⟩
  | @afterSuccess recent old hfailed =>
      obtain ⟨hrecent, hpos⟩ := hfailed.of_failed
      have hcount : failedSince threshold (recent ++ .succeeded :: old) = threshold - 1 :=
        failedSince_append rfl hrecent (by omega)
      exact ⟨_, rfl, by omega, hreset _ (by omega)⟩
  | @afterOpening recent old hfailed _ ih =>
      obtain ⟨hrecent, hpos⟩ := hfailed.of_failed
      obtain ⟨-, -, -, hold⟩ := ih
      have hcount := failedSince_append hold hrecent (by omega)
      exact ⟨_, rfl, by omega, hreset _ (by omega)⟩

/-- The failed calls that are counted are those since a success, an opening or the beginning. -/
theorem exists_recent (h : 0 < threshold) (history : List Outcome) :
    ∃ recent old, history = recent ++ old ∧ FailedOnly (failedSince threshold history) recent ∧
      (old = [] ∨ (∃ older, old = .succeeded :: older) ∨ Opens threshold old) := by
  induction history with
  | nil => exact ⟨[], [], rfl, ⟨List.not_mem_nil, rfl⟩, .inl rfl⟩
  | cons outcome history ih =>
      obtain ⟨recent, old, hsplit, hrecent, hold⟩ := ih
      cases outcome with
      | succeeded => exact ⟨[], _, rfl, ⟨List.not_mem_nil, rfl⟩, .inr (.inl ⟨history, rfl⟩)⟩
      | skipped => exact ⟨.skipped :: recent, old, by rw [hsplit]; rfl, hrecent.skipped, hold⟩
      | failed =>
          have hlt := failedSince_lt h history
          rw [failedSince]
          by_cases hlast : threshold ≤ failedSince threshold history + 1
          · -- this call opens the breaker
            have hreached : failedSince threshold history + 1 = threshold := by omega
            rw [if_pos hlast, hsplit]
            exact ⟨[], _, rfl, ⟨List.not_mem_nil, rfl⟩,
              .inr (.inr (opens_of_recent hold (hreached ▸ hrecent.failed)))⟩
          · rw [if_neg hlast]
            exact ⟨.failed :: recent, old, by rw [hsplit]; rfl, hrecent.failed, hold⟩

/-- **The counter** tells the openings. -/
theorem opens_iff (h : 0 < threshold) : Opens threshold (.failed :: history) ↔
    threshold ≤ failedSince threshold history + 1 := by
  constructor
  · intro hopens
    obtain ⟨before, hbefore, hlast, -⟩ := hopens.failedSince_eq
    obtain rfl := (List.cons.inj hbefore).2
    exact hlast.ge
  · intro hlast
    have hlt := failedSince_lt h history
    obtain ⟨recent, old, hsplit, hrecent, hold⟩ := exists_recent h history
    have hreached : failedSince threshold history + 1 = threshold := by omega
    rw [hsplit]
    exact opens_of_recent hold (hreached ▸ hrecent.failed)

/-! ### The breaker -/

/-- The counter, and the time until which the breaker is open. -/
structure State (τ : Type) where
  failures : ℕ
  openUntil : τ

variable {τ : Type} {period : τ}

/-- The end of a call, at a time. -/
def State.step [Add τ] (threshold : ℕ) (period : τ) (s : State τ) : Outcome × τ → State τ
  | (.succeeded, _) => { s with failures := 0 }
  | (.failed, now) =>
      if threshold ≤ s.failures + 1 then ⟨0, now + period⟩ else { s with failures := s.failures + 1 }
  | (.skipped, _) => s

/-- An opening of a history, and its time. -/
inductive OpenedAt (threshold : ℕ) : List (Outcome × τ) → τ → Prop
  | last {t : τ} {history : List (Outcome × τ)} : Opens threshold (.failed :: history.map Prod.fst) →
      OpenedAt threshold ((.failed, t) :: history) t
  | before {t : τ} {x : Outcome × τ} {history : List (Outcome × τ)} : OpenedAt threshold history t →
      OpenedAt threshold (x :: history) t

theorem OpenedAt.mem {calls : List (Outcome × τ)} {t : τ} (h : OpenedAt threshold calls t) :
    (.failed, t) ∈ calls := by
  induction h with
  | last _ => exact List.mem_cons_self
  | before _ ih => exact List.mem_cons_of_mem _ ih

variable [AddCommMonoid τ] [LinearOrder τ]

/-- The breaker is open, for a history and the time that it began with. -/
def IsOpen (threshold : ℕ) (period start : τ) (calls : List (Outcome × τ)) (t : τ) : Prop :=
  (∃ opened, OpenedAt threshold calls opened ∧ t < opened + period) ∨
    (¬ ∃ opened, OpenedAt threshold calls opened) ∧ t < start

theorem isOpen_cons {calls : List (Outcome × τ)} {start t : τ} {x : Outcome × τ}
    (h : ∀ opened, OpenedAt threshold (x :: calls) opened → OpenedAt threshold calls opened) :
    IsOpen threshold period start (x :: calls) t ↔ IsOpen threshold period start calls t := by
  have hsame (opened : τ) :
      OpenedAt threshold (x :: calls) opened ↔ OpenedAt threshold calls opened :=
    ⟨h opened, .before⟩
  simp only [IsOpen, hsame]

/-- **The breaker** is open exactly during the periods that begin with the openings. -/
theorem foldr_step [IsOrderedCancelAddMonoid τ] (hpos : 0 < threshold) (period start : τ) {calls : List (Outcome × τ)}
    (hclock : calls.Pairwise fun later earlier => earlier.2 ≤ later.2) :
    (calls.foldr (fun x s => State.step threshold period s x) ⟨0, start⟩).failures =
        failedSince threshold (calls.map Prod.fst) ∧
      ∀ t, t < (calls.foldr (fun x s => State.step threshold period s x) ⟨0, start⟩).openUntil ↔
        IsOpen threshold period start calls t := by
  induction calls with
  | nil =>
      refine ⟨rfl, fun t => ⟨fun ht => .inr ⟨?_, ht⟩, ?_⟩⟩
      · rintro ⟨opened, hopened⟩
        cases hopened
      · rintro (⟨opened, hopened, -⟩ | ⟨-, ht⟩)
        · cases hopened
        · exact ht
  | cons x calls ih =>
      obtain ⟨hearlier, hclock⟩ := List.pairwise_cons.mp hclock
      obtain ⟨hfailures, hopen⟩ := ih hclock
      rw [List.foldr_cons, List.map_cons]
      generalize calls.foldr (fun x s => State.step threshold period s x) ⟨0, start⟩ = s at *
      obtain ⟨outcome, now⟩ := x
      cases outcome with
      | succeeded =>
          refine ⟨rfl, fun t => (hopen t).trans (isOpen_cons fun opened h => ?_).symm⟩
          cases h with
          | before h => exact h
      | skipped =>
          refine ⟨hfailures, fun t => (hopen t).trans (isOpen_cons fun opened h => ?_).symm⟩
          cases h with
          | before h => exact h
      | failed =>
          rw [State.step, failedSince, hfailures]
          by_cases hlast : threshold ≤ failedSince threshold (calls.map Prod.fst) + 1
          · have hopened : OpenedAt threshold ((.failed, now) :: calls) now :=
              .last ((opens_iff hpos).mpr hlast)
            rw [if_pos hlast, if_pos hlast]
            refine ⟨rfl, fun t => ⟨fun ht => .inl ⟨now, hopened, ht⟩, ?_⟩⟩
            rintro (⟨opened, h, ht⟩ | ⟨hnone, -⟩)
            · refine ht.trans_le (add_le_add_left ?_ period)
              rcases List.mem_cons.mp h.mem with heq | hmem
              · exact (congrArg Prod.snd heq).le
              · exact hearlier _ hmem
            · exact absurd ⟨now, hopened⟩ hnone
          · rw [if_neg hlast, if_neg hlast]
            refine ⟨rfl, fun t => (hopen t).trans (isOpen_cons fun opened h => ?_).symm⟩
            cases h with
            | last hopens => exact absurd ((opens_iff hpos).mp hopens) hlast
            | before h => exact h

end CircuitBreaker
