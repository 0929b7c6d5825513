import Mathlib.Logic.Function.Basic
import RecruitingOs.Lib.Transition

/-!
# Concurrent calls of `transaction`

`Store.transaction` and `PostgresStore.transaction`, called by any number of callers none of
whom calls it from inside its own operation.  An operation runs from one `await` to the
next; a step of a run is one such stretch, with the writes that it executes.

The SQLite store has one connection and one counter.  A call that finds the counter positive
joins the open transaction, whoever opened it, and its writes are committed or rolled back
with it (`StoreRun.isolated_iff`).  In the Postgres store a call has a client of its own, and
its writes are its own (`PostgresStoreRun.Reached.isolated`).
-/

namespace RecruitingOs

universe u v

variable {ι : Type u} {α : Type v}

/-- Where a call of `transaction` is. -/
inductive TransactionCall where
  | idle
  /-- Its operation runs.  `begun` says whether the call has executed `begin immediate`. -/
  | running (begun : Bool)
  | resolved
  | rejected
deriving Repr, DecidableEq

/-- The promise of the call is settled. -/
def TransactionCall.settled : TransactionCall → Bool
  | .resolved | .rejected => true
  | _ => false

/-- What the promise does. -/
def TransactionCall.outcome (resolves : Bool) : TransactionCall :=
  if resolves then .resolved else .rejected

/-- A stretch of a call: it is called, goes on after an `await`, or its operation settles.
`settle i false` is also a `commit` that fails. -/
inductive TransactionEvent (ι : Type u) (α : Type v) where
  | call (i : ι) (statements : List α)
  | resume (i : ι) (statements : List α)
  | settle (i : ι) (resolves : Bool)

/-- A write that an operation executed; `inside` is the call whose transaction was open on
the connection, `none` where the statement commits by itself. -/
structure ExecutedWrite (ι : Type u) (α : Type v) where
  caller : ι
  statement : α
  inside : Option ι
deriving Repr, DecidableEq

/-- The SQLite store and its callers. -/
structure StoreRun (ι : Type u) (α : Type v) where
  transactionDepth : ℕ
  /-- The call that has executed `begin immediate` and not ended its transaction. -/
  opener : Option ι
  /-- The writes that are in the database, as the connection reads it. -/
  data : List (ExecutedWrite ι α)
  /-- What `rollback` goes back to. -/
  saved : List (ExecutedWrite ι α)
  calls : ι → TransactionCall
  /-- All writes that were executed. -/
  writes : List (ExecutedWrite ι α)

namespace StoreRun

def empty : StoreRun ι α := ⟨0, none, [], [], fun _ => .idle, []⟩

/-- Statements of an operation, one after another. -/
def execute (s : StoreRun ι α) (i : ι) (statements : List α) : StoreRun ι α :=
  let executed := statements.map fun statement => ⟨i, statement, s.opener⟩
  { s with data := s.data ++ executed, writes := s.writes ++ executed }

variable [DecidableEq ι] in
/-- The call begins, and with it its operation. -/
def enter (s : StoreRun ι α) (i : ι) : StoreRun ι α :=
  if s.transactionDepth > 0 then { s with calls := Function.update s.calls i (.running false) }
  else
    { s with
      transactionDepth := s.transactionDepth + 1
      opener := some i
      saved := s.data
      calls := Function.update s.calls i (.running true) }

variable [DecidableEq ι] in
/-- The operation settles, and with it the call; `commit` or `rollback` if it has begun a
transaction. -/
def leave (s : StoreRun ι α) (i : ι) (begun resolves : Bool) : StoreRun ι α :=
  let calls := Function.update s.calls i (.outcome resolves)
  if begun then
    { s with
      transactionDepth := s.transactionDepth - 1
      opener := none
      data := if resolves then s.data else s.saved
      calls := calls }
  else { s with calls := calls }

variable [DecidableEq ι] in
/-- One stretch of one call. -/
def step (s : StoreRun ι α) : TransactionEvent ι α → Option (StoreRun ι α)
  | .call i statements =>
      match s.calls i with
      | .idle => some ((s.enter i).execute i statements)
      | _ => none
  | .resume i statements =>
      match s.calls i with
      | .running _ => some (s.execute i statements)
      | _ => none
  | .settle i resolves =>
      match s.calls i with
      | .running begun => some (s.leave i begun resolves)
      | _ => none

variable [DecidableEq ι] in
/-- The states that runs reach. -/
def Reached : StoreRun ι α → Prop :=
  Transition.Reachable (· = StoreRun.empty) step

/-- No call is under way. -/
def AllSettled (s : StoreRun ι α) : Prop := ∀ i, s.calls i = .idle ∨ (s.calls i).settled

/-- What callers expect: the database has the writes of the calls that resolved, and none of
those that rejected. -/
def Isolated (s : StoreRun ι α) : Prop :=
  ∀ w ∈ s.writes, w ∈ s.data ↔ s.calls w.caller = .resolved

/-- A call that writes in the transaction of another one settles as that one does, and a call
that writes outside any transaction resolves. -/
def Aligned (s : StoreRun ι α) : Prop :=
  ∀ w ∈ s.writes,
    (∀ k, w.inside = some k → s.calls w.caller = s.calls k) ∧
      (w.inside = none → s.calls w.caller = .resolved)

/-! ### What is in the database -/

/-- The write is committed. -/
def kept (calls : ι → TransactionCall) (w : ExecutedWrite ι α) : Bool :=
  w.inside.all fun k => calls k = .resolved

/-- The write is committed, or in the open transaction. -/
def present (calls : ι → TransactionCall) (w : ExecutedWrite ι α) : Bool :=
  w.inside.all fun k => calls k = .resolved ∨ calls k = .running true

/-- The invariant of the store. -/
structure Inv (s : StoreRun ι α) : Prop where
  depth_eq : s.transactionDepth = if s.opener.isSome then 1 else 0
  opener_iff : ∀ k, s.opener = some k ↔ s.calls k = .running true
  caller_ne : ∀ w ∈ s.writes, s.calls w.caller ≠ .idle
  inside_ne : ∀ w ∈ s.writes, ∀ k, w.inside = some k →
    s.calls k ≠ .idle ∧ s.calls k ≠ .running false
  data_eq : s.data = s.writes.filter (present s.calls)
  saved_eq : s.opener.isSome → s.saved = s.writes.filter (kept s.calls)

theorem kept_eq_true {calls : ι → TransactionCall} {w : ExecutedWrite ι α} :
    kept calls w ↔ ∀ k, w.inside = some k → calls k = .resolved := by
  cases hw : w.inside <;> simp [kept, hw]

theorem present_eq_true {calls : ι → TransactionCall} {w : ExecutedWrite ι α} :
    present calls w ↔ ∀ k, w.inside = some k → calls k = .resolved ∨ calls k = .running true := by
  cases hw : w.inside <;> simp [present, hw]

theorem Inv.empty : Inv (StoreRun.empty : StoreRun ι α) where
  depth_eq := rfl
  opener_iff := by intro k; simp [StoreRun.empty]
  caller_ne := by intro w hw; cases hw
  inside_ne := by intro w hw; cases hw
  data_eq := rfl
  saved_eq := by intro h; cases h

/-- Where no transaction is open, all that is in the database is committed. -/
theorem Inv.data_eq_kept {s : StoreRun ι α} (h : Inv s) (hclosed : s.opener = none) :
    s.data = s.writes.filter (kept s.calls) := by
  rw [h.data_eq]
  refine List.filter_congr fun w _ => ?_
  have hopen : ∀ k, s.calls k ≠ .running true := by
    intro k hk
    rw [← h.opener_iff, hclosed] at hk
    cases hk
  simp [present, kept, hopen]

theorem Inv.execute {s : StoreRun ι α} (h : Inv s) {i : ι} {begun : Bool}
    (hi : s.calls i = .running begun) (statements : List α) : Inv (s.execute i statements) where
  depth_eq := h.depth_eq
  opener_iff := h.opener_iff
  caller_ne := by
    intro w hw
    rcases List.mem_append.mp hw with hold | hnew
    · exact h.caller_ne w hold
    · obtain ⟨_, -, rfl⟩ := List.mem_map.mp hnew
      show s.calls i ≠ .idle
      rw [hi]
      simp
  inside_ne := by
    intro w hw k hk
    rcases List.mem_append.mp hw with hold | hnew
    · exact h.inside_ne w hold k hk
    · obtain ⟨_, -, rfl⟩ := List.mem_map.mp hnew
      show s.calls k ≠ .idle ∧ s.calls k ≠ .running false
      rw [(h.opener_iff k).mp hk]
      simp
  data_eq := by
    show s.data ++ _ = (s.writes ++ _).filter (present s.calls)
    rw [List.filter_append, ← h.data_eq]
    congr 1
    -- what is written now is in the open transaction, or committed by itself
    refine (List.filter_eq_self.mpr fun w hw => present_eq_true.mpr fun k hk => ?_).symm
    obtain ⟨_, -, rfl⟩ := List.mem_map.mp hw
    exact .inr ((h.opener_iff k).mp hk)
  saved_eq := by
    intro hopen
    obtain ⟨k, hk⟩ := Option.isSome_iff_exists.mp hopen
    show s.saved = (s.writes ++ _).filter (kept s.calls)
    rw [List.filter_append, ← h.saved_eq hopen, List.filter_eq_nil_iff.mpr, List.append_nil]
    intro w hw hkept
    obtain ⟨_, -, rfl⟩ := List.mem_map.mp hw
    have hresolved := kept_eq_true.mp hkept k hk
    rw [(h.opener_iff k).mp hk] at hresolved
    cases hresolved

theorem kept_congr {calls calls' : ι → TransactionCall} {w : ExecutedWrite ι α}
    (h : ∀ k, w.inside = some k → calls' k = calls k) : kept calls' w = kept calls w := by
  rw [Bool.eq_iff_iff, kept_eq_true, kept_eq_true]
  exact forall₂_congr fun k hk => by rw [h k hk]

theorem present_congr {calls calls' : ι → TransactionCall} {w : ExecutedWrite ι α}
    (h : ∀ k, w.inside = some k → calls' k = calls k) : present calls' w = present calls w := by
  rw [Bool.eq_iff_iff, present_eq_true, present_eq_true]
  exact forall₂_congr fun k hk => by rw [h k hk]

section Calls

variable [DecidableEq ι] {s : StoreRun ι α} {i : ι}

/-- Every caller of a write has called, and stays so. -/
theorem Inv.caller_update (h : Inv s) {status : TransactionCall} (hstatus : status ≠ .idle) :
    ∀ w ∈ s.writes, Function.update s.calls i status w.caller ≠ .idle := by
  intro w hw
  by_cases hi : w.caller = i
  · rw [hi, Function.update_self]
    exact hstatus
  · rw [Function.update_of_ne hi]
    exact h.caller_ne w hw

/-- No write is in the transaction of a call that has opened none. -/
theorem Inv.inside_update (h : Inv s) (hnever : s.calls i = .idle ∨ s.calls i = .running false)
    (status : TransactionCall) :
    ∀ w ∈ s.writes, ∀ k, w.inside = some k → Function.update s.calls i status k = s.calls k := by
  intro w hw k hk
  refine Function.update_of_ne ?_ _ _
  rintro rfl
  obtain ⟨hidle, hjoined⟩ := h.inside_ne w hw k hk
  exact hnever.elim hidle hjoined

/-- So its status is not looked at where a write is. -/
theorem Inv.writes_update (h : Inv s) (hnever : s.calls i = .idle ∨ s.calls i = .running false)
    (status : TransactionCall) :
    (∀ w ∈ s.writes, ∀ k, w.inside = some k → Function.update s.calls i status k ≠ .idle ∧
      Function.update s.calls i status k ≠ .running false) ∧
    s.writes.filter (present (Function.update s.calls i status)) =
      s.writes.filter (present s.calls) ∧
    s.writes.filter (kept (Function.update s.calls i status)) = s.writes.filter (kept s.calls) := by
  have hinside := h.inside_update hnever status
  refine ⟨fun w hw k hk => ?_, ?_, ?_⟩
  · rw [hinside w hw k hk]
    exact h.inside_ne w hw k hk
  · exact List.filter_congr fun w hw => present_congr (hinside w hw)
  · exact List.filter_congr fun w hw => kept_congr (hinside w hw)

/-- A call that has opened no transaction joins one or settles. -/
theorem Inv.update (h : Inv s) (hnever : s.calls i = .idle ∨ s.calls i = .running false)
    {status : TransactionCall} (hidle : status ≠ .idle) (hbegun : status ≠ .running true) :
    Inv { s with calls := Function.update s.calls i status } := by
  obtain ⟨hinside, hpresent, hkept⟩ := h.writes_update hnever status
  refine ⟨h.depth_eq, fun k => ?_, h.caller_update hidle, hinside, h.data_eq.trans hpresent.symm,
    fun hopen => (h.saved_eq hopen).trans hkept.symm⟩
  dsimp only
  rw [h.opener_iff]
  by_cases hk : k = i
  · subst hk
    rw [Function.update_self]
    rcases hnever with hi | hi <;> simp [hi, hbegun]
  · rw [Function.update_of_ne hk]

theorem Inv.enter (h : Inv s) (hi : s.calls i = .idle) : Inv (s.enter i) := by
  unfold StoreRun.enter
  split
  · exact h.update (.inl hi) (by simp) (by simp)
  · rename_i hdepth
    have hclosed : s.opener = none := by
      have hdepth_eq := h.depth_eq
      cases hopener : s.opener with
      | none => rfl
      | some k =>
          rw [hopener, Option.isSome_some, if_pos rfl] at hdepth_eq
          omega
    have hnone : ∀ k, s.calls k ≠ .running true := by
      intro k hk
      rw [← h.opener_iff, hclosed] at hk
      cases hk
    obtain ⟨hinside, hpresent, hkept⟩ := h.writes_update (.inl hi) (.running true)
    refine ⟨?_, ?_, h.caller_update (by simp), hinside, h.data_eq.trans hpresent.symm,
      fun _ => (h.data_eq_kept hclosed).trans hkept.symm⟩
    · have hdepth_eq := h.depth_eq
      rw [hclosed] at hdepth_eq
      dsimp only
      rw [hdepth_eq]
      rfl
    · intro k
      dsimp only
      by_cases hk : k = i
      · rw [hk, Function.update_self]
        simp
      · rw [Function.update_of_ne hk]
        simp [Ne.symm hk, hnone]

/-- The transaction of a call ends with it. -/
theorem Inv.leave (h : Inv s) {begun : Bool} (hi : s.calls i = .running begun) (resolves : Bool) :
    Inv (s.leave i begun resolves) := by
  have houtcome : TransactionCall.outcome resolves = .resolved ∨
      TransactionCall.outcome resolves = .rejected := by cases resolves <;> simp [TransactionCall.outcome]
  cases begun with
  | false =>
      refine h.update (.inr hi) ?_ ?_
      · rcases houtcome with ho | ho <;> simp [ho]
      · rcases houtcome with ho | ho <;> simp [ho]
  | true =>
      have hopener : s.opener = some i := (h.opener_iff i).mpr hi
      have honly : ∀ k, s.calls k = .running true → k = i := by
        intro k hk
        have hk' := (h.opener_iff k).mpr hk
        rw [hopener] at hk'
        exact (Option.some_inj.mp hk').symm
      refine ⟨?_, ?_, h.caller_update ?_, ?_, ?_, ?_⟩
      · have hdepth := h.depth_eq
        rw [hopener, Option.isSome_some, if_pos rfl] at hdepth
        show s.transactionDepth - 1 = 0
        omega
      · intro k
        show none = some k ↔ Function.update s.calls i _ k = .running true
        by_cases hk : k = i
        · rw [hk, Function.update_self]
          rcases houtcome with ho | ho <;> simp [ho]
        · rw [Function.update_of_ne hk]
          simpa using fun hrunning => hk (honly k hrunning)
      · rcases houtcome with ho | ho <;> simp [ho]
      · intro w hw k hk
        show Function.update s.calls i _ k ≠ .idle ∧ Function.update s.calls i _ k ≠ .running false
        by_cases hki : k = i
        · rw [hki, Function.update_self]
          rcases houtcome with ho | ho <;> simp [ho]
        · rw [Function.update_of_ne hki]
          exact h.inside_ne w hw k hk
      · show (if resolves then s.data else s.saved) = _
        cases resolves with
        | true =>
            rw [if_pos rfl, h.data_eq]
            refine List.filter_congr fun w _ => ?_
            rw [Bool.eq_iff_iff, present_eq_true, present_eq_true]
            refine forall₂_congr fun k _ => ?_
            show _ ↔ Function.update s.calls i .resolved k = _ ∨ Function.update s.calls i .resolved k = _
            by_cases hki : k = i
            · rw [hki, Function.update_self, hi]
              simp
            · rw [Function.update_of_ne hki]
        | false =>
            rw [if_neg (by simp), h.saved_eq (by rw [hopener]; rfl)]
            refine List.filter_congr fun w _ => ?_
            rw [Bool.eq_iff_iff, kept_eq_true, present_eq_true]
            refine forall₂_congr fun k _ => ?_
            show _ ↔ Function.update s.calls i .rejected k = _ ∨ Function.update s.calls i .rejected k = _
            by_cases hki : k = i
            · rw [hki, Function.update_self, hi]
              simp
            · rw [Function.update_of_ne hki]
              have hnot : s.calls k ≠ .running true := fun hk => hki (honly k hk)
              simp [hnot]
      · intro hopen
        cases hopen

theorem Inv.step (h : Inv s) {event : TransactionEvent ι α} {t : StoreRun ι α}
    (hs : step s event = some t) : Inv t := by
  cases event with
  | call i statements =>
      simp only [StoreRun.step] at hs
      split at hs
      · rename_i hi
        cases hs
        have henter : ∃ begun, (s.enter i).calls i = .running begun := by
          unfold StoreRun.enter
          split <;> exact ⟨_, Function.update_self ..⟩
        obtain ⟨begun, hbegun⟩ := henter
        exact (h.enter hi).execute hbegun statements
      · cases hs
  | resume i statements =>
      simp only [StoreRun.step] at hs
      split at hs
      · rename_i begun hi
        cases hs
        exact h.execute hi statements
      · cases hs
  | settle i resolves =>
      simp only [StoreRun.step] at hs
      split at hs
      · rename_i begun hi
        cases hs
        exact h.leave hi resolves
      · cases hs

theorem Reached.inv (h : Reached s) : Inv s :=
  h.invariant (fun _ hs => hs ▸ Inv.empty) fun _ _ _ _ hInv hs => hInv.step hs

/-- **Isolation of transactions.**  When all calls have settled, the database has the writes
of the resolved calls and none of the rejected ones exactly if every call that wrote in
another call's transaction settled as that call did, and every call that wrote outside any
transaction resolved. -/
theorem isolated_iff (h : Reached s) (hsettled : AllSettled s) : Isolated s ↔ Aligned s := by
  have hinv := h.inv
  have hnone : ∀ k, s.calls k ≠ .running true := by
    intro k hk
    rcases hsettled k with hidle | hdone
    · rw [hk] at hidle
      cases hidle
    · rw [hk] at hdone
      cases hdone
  have hends : ∀ k, s.calls k ≠ .idle → s.calls k = .resolved ∨ s.calls k = .rejected := by
    intro k hk
    have hdone := (hsettled k).resolve_left hk
    cases hcall : s.calls k <;> simp_all [TransactionCall.settled]
  refine forall₂_congr fun w hw => ?_
  have hdata : w ∈ s.data ↔ ∀ k, w.inside = some k → s.calls k = .resolved := by
    rw [hinv.data_eq, List.mem_filter, and_iff_right hw, present_eq_true]
    exact forall₂_congr fun k _ => by simp [hnone k]
  rw [hdata]
  have hcaller := hends _ (hinv.caller_ne w hw)
  cases hinside : w.inside with
  | none => simp
  | some k =>
      have hopener := hends k (hinv.inside_ne w hw k hinside).1
      simp only [Option.some_inj, forall_eq', reduceCtorEq, false_implies, and_true]
      rcases hcaller with hc | hc <;> rcases hopener with hk | hk <;> simp [hc, hk]

/-- No call has joined the transaction of another. -/
structure Apart (s : StoreRun ι α) : Prop where
  joined : ∀ k, s.calls k ≠ .running false
  inside : ∀ w ∈ s.writes, w.inside = some w.caller

omit [DecidableEq ι] in
theorem Apart.execute (h : Apart s) (hinv : Inv s) (hi : s.calls i = .running true)
    (statements : List α) : Apart (s.execute i statements) where
  joined := h.joined
  inside := by
    intro w hw
    rcases List.mem_append.mp hw with hold | hnew
    · exact h.inside w hold
    · obtain ⟨_, -, rfl⟩ := List.mem_map.mp hnew
      exact (hinv.opener_iff i).mpr hi

/-- A call that is made while no transaction is open begins one. -/
theorem Apart.step (h : Apart s) (hinv : Inv s) {event : TransactionEvent ι α} {t : StoreRun ι α}
    (hdepth : ∀ i statements, event = .call i statements → s.transactionDepth = 0)
    (hs : step s event = some t) : Apart t := by
  have hupdate : ∀ {i status}, status ≠ .running false →
      ∀ k, Function.update s.calls i status k ≠ .running false := by
    intro i status hstatus k
    by_cases hk : k = i
    · rw [hk, Function.update_self]
      exact hstatus
    · rw [Function.update_of_ne hk]
      exact h.joined k
  cases event with
  | call i statements =>
      simp only [StoreRun.step] at hs
      split at hs
      · rename_i hi
        cases hs
        have henter : (s.enter i).calls i = .running true ∧ Apart (s.enter i) := by
          unfold StoreRun.enter
          rw [if_neg (by rw [hdepth i statements rfl]; exact Nat.lt_irrefl 0)]
          exact ⟨Function.update_self .., hupdate (by simp), h.inside⟩
        exact henter.2.execute (hinv.enter hi) henter.1 statements
      · cases hs
  | resume i statements =>
      simp only [StoreRun.step] at hs
      split at hs
      · rename_i begun hi
        cases hs
        cases begun with
        | true => exact h.execute hinv hi statements
        | false => exact absurd hi (h.joined i)
      · cases hs
  | settle i resolves =>
      simp only [StoreRun.step] at hs
      split at hs
      · rename_i begun hi
        cases hs
        have hstatus : TransactionCall.outcome resolves ≠ .running false := by
          cases resolves <;> simp [TransactionCall.outcome]
        cases begun <;> exact ⟨hupdate hstatus, h.inside⟩
      · cases hs

/-- Calls that are made while no transaction is open are isolated. -/
theorem isolated_of_apart {run : List (TransactionEvent ι α)}
    (hrun : Transition.exec step StoreRun.empty run = some s)
    (hapart : Transition.EveryStep step
      (fun s event => ∀ i statements, event = .call i statements → s.transactionDepth = 0)
      StoreRun.empty run) (hsettled : AllSettled s) : Isolated s := by
  have hkeep : ∀ (s : StoreRun ι α) event t, (Apart s ∧ Inv s) →
      (∀ i statements, event = .call i statements → s.transactionDepth = 0) →
      step s event = some t → Apart t ∧ Inv t :=
    fun s event t h hdepth hs => ⟨h.1.step h.2 hdepth hs, h.2.step hs⟩
  have hempty : Apart (StoreRun.empty : StoreRun ι α) ∧ Inv (StoreRun.empty : StoreRun ι α) :=
    ⟨⟨by intro k; simp [StoreRun.empty], by intro w hw; cases hw⟩, Inv.empty⟩
  have hinside := ((Transition.everyState_of_everyStep hkeep hempty hapart).exec hrun).1.inside
  refine (isolated_iff (.of_exec (.start rfl) hrun) hsettled).mpr fun w hw => ⟨?_, ?_⟩
  · intro k hk
    rw [hinside w hw] at hk
    rw [Option.some_inj.mp hk]
  · intro hnone
    rw [hinside w hw] at hnone
    cases hnone

end Calls

/-- The second caller's write is acknowledged, in the transaction of the first. -/
def joinedRun : List (TransactionEvent (Fin 2) String) :=
  [.call 0 [], .call 1 ["job"], .settle 1 true, .settle 0 false]

/-- The second caller fails after the first has committed what both wrote. -/
def committedRun : List (TransactionEvent (Fin 2) String) :=
  [.call 0 [], .call 1 ["half"], .settle 0 true, .settle 1 false]

/-- One caller's rollback removes what another was told is written, and one caller's failure
is committed by another. -/
theorem not_isolated_joined :
    (∃ s : StoreRun (Fin 2) String, Reached s ∧ AllSettled s ∧ ¬ Isolated s ∧
      s.calls 1 = .resolved ∧ s.writes = [⟨1, "job", some 0⟩] ∧ s.data = []) ∧
    ∃ s : StoreRun (Fin 2) String, Reached s ∧ AllSettled s ∧ ¬ Isolated s ∧
      s.calls 1 = .rejected ∧ s.data = [⟨1, "half", some 0⟩] := by
  constructor
  · obtain ⟨s, hs⟩ : ∃ s, Transition.exec step StoreRun.empty joinedRun = some s := ⟨_, rfl⟩
    refine ⟨s, .of_exec (.start rfl) hs, ?_⟩
    cases hs
    unfold AllSettled Isolated
    decide
  · obtain ⟨s, hs⟩ : ∃ s, Transition.exec step StoreRun.empty committedRun = some s := ⟨_, rfl⟩
    refine ⟨s, .of_exec (.start rfl) hs, ?_⟩
    cases hs
    unfold AllSettled Isolated
    decide

/-- Two calls, one after the other. -/
theorem isolated_iff_apart : ∃ s : StoreRun (Fin 2) String,
    Reached s ∧ s.writes.length = 2 ∧ (Isolated s ↔ Aligned s) := by
  obtain ⟨s, hs⟩ : ∃ s, Transition.exec step (StoreRun.empty : StoreRun (Fin 2) String)
      [.call 0 ["job"], .settle 0 true, .call 1 ["half"], .settle 1 false] = some s := ⟨_, rfl⟩
  have hreached : Reached s := .of_exec (.start rfl) hs
  refine ⟨s, hreached, ?_, isolated_iff hreached ?_⟩
  · cases hs
    decide
  · cases hs
    unfold AllSettled
    decide

end StoreRun

/-! ### The Postgres store -/

/-- The Postgres store and its callers: each call has a client, with a transaction of its
own. -/
structure PostgresStoreRun (ι : Type u) (α : Type v) where
  /-- The writes that are committed. -/
  data : List (ι × α)
  /-- The writes in the transaction of a client. -/
  clients : ι → List (ι × α)
  calls : ι → TransactionCall
  /-- All writes that were executed. -/
  writes : List (ι × α)

namespace PostgresStoreRun

variable [DecidableEq ι] {s : PostgresStoreRun ι α}

def empty : PostgresStoreRun ι α := ⟨[], fun _ => [], fun _ => .idle, []⟩

def execute (s : PostgresStoreRun ι α) (i : ι) (statements : List α) : PostgresStoreRun ι α :=
  let executed := statements.map fun statement => (i, statement)
  { s with
    clients := Function.update s.clients i (s.clients i ++ executed)
    writes := s.writes ++ executed }

/-- One stretch of one call. -/
def step (s : PostgresStoreRun ι α) : TransactionEvent ι α → Option (PostgresStoreRun ι α)
  | .call i statements =>
      match s.calls i with
      | .idle =>
          let begun :=
            { s with
              clients := Function.update s.clients i []
              calls := Function.update s.calls i (.running true) }
          some (begun.execute i statements)
      | _ => none
  | .resume i statements =>
      match s.calls i with
      | .running _ => some (s.execute i statements)
      | _ => none
  | .settle i resolves =>
      match s.calls i with
      | .running _ =>
          some { s with
            data := if resolves then s.data ++ s.clients i else s.data
            calls := Function.update s.calls i (.outcome resolves) }
      | _ => none

/-- The states that runs reach. -/
def Reached : PostgresStoreRun ι α → Prop :=
  Transition.Reachable (· = PostgresStoreRun.empty) step

/-- The invariant of the store. -/
structure Inv (s : PostgresStoreRun ι α) : Prop where
  caller_ne : ∀ w ∈ s.writes, s.calls w.1 ≠ .idle
  data_iff : ∀ w, w ∈ s.data ↔ w ∈ s.writes ∧ s.calls w.1 = .resolved
  client_iff : ∀ i begun, s.calls i = .running begun →
    ∀ w, w ∈ s.clients i ↔ w ∈ s.writes ∧ w.1 = i

theorem Inv.execute (h : Inv s) {i : ι} {begun : Bool} (hi : s.calls i = .running begun)
    (statements : List α) : Inv (s.execute i statements) where
  caller_ne := by
    intro w hw
    rcases List.mem_append.mp hw with hold | hnew
    · exact h.caller_ne w hold
    · obtain ⟨_, -, rfl⟩ := List.mem_map.mp hnew
      show s.calls i ≠ .idle
      rw [hi]
      simp
  data_iff := by
    intro w
    show w ∈ s.data ↔ w ∈ s.writes ++ _ ∧ s.calls w.1 = .resolved
    rw [h.data_iff, List.mem_append, or_and_right]
    refine (or_iff_left ?_).symm
    rintro ⟨hnew, hresolved⟩
    obtain ⟨_, -, rfl⟩ := List.mem_map.mp hnew
    rw [hi] at hresolved
    cases hresolved
  client_iff := by
    intro k begun' hk w
    show w ∈ Function.update s.clients i _ k ↔ w ∈ s.writes ++ _ ∧ w.1 = k
    by_cases hki : k = i
    · subst hki
      rw [Function.update_self, List.mem_append, List.mem_append, h.client_iff k _ hk,
        or_and_right]
      refine or_congr_right (iff_self_and.mpr fun hnew => ?_)
      obtain ⟨_, -, rfl⟩ := List.mem_map.mp hnew
      rfl
    · rw [Function.update_of_ne hki, h.client_iff k _ hk, List.mem_append, or_and_right]
      refine (or_iff_left ?_).symm
      rintro ⟨hnew, hcaller⟩
      obtain ⟨_, -, rfl⟩ := List.mem_map.mp hnew
      exact hki hcaller.symm

theorem Inv.step (h : Inv s) {event : TransactionEvent ι α} {t : PostgresStoreRun ι α}
    (hs : step s event = some t) : Inv t := by
  cases event with
  | call i statements =>
      simp only [PostgresStoreRun.step] at hs
      split at hs
      · rename_i hi
        cases hs
        have hnone : ∀ w ∈ s.writes, w.1 ≠ i := fun w hw hcaller => h.caller_ne w hw (hcaller ▸ hi)
        have hcalls : ∀ w ∈ s.writes, Function.update s.calls i (.running true) w.1 = s.calls w.1 :=
          fun w hw => Function.update_of_ne (hnone w hw) _ _
        have hi' : Function.update s.calls i (.running true) i = .running true :=
          Function.update_self ..
        refine Inv.execute ⟨?_, ?_, ?_⟩ hi' statements
        · intro w hw
          show Function.update s.calls i (.running true) w.1 ≠ .idle
          rw [hcalls w hw]
          exact h.caller_ne w hw
        · intro w
          rw [h.data_iff]
          refine and_congr_right fun hw => ?_
          show _ ↔ Function.update s.calls i (.running true) w.1 = .resolved
          rw [hcalls w hw]
        · intro k begun hk w
          show w ∈ Function.update s.clients i [] k ↔ _
          by_cases hki : k = i
          · rw [hki, Function.update_self]
            simpa using fun hw => hnone w hw
          · rw [Function.update_of_ne hki]
            exact h.client_iff k begun (by rwa [← Function.update_of_ne hki (.running true) s.calls]) w
      · cases hs
  | resume i statements =>
      simp only [PostgresStoreRun.step] at hs
      split at hs
      · rename_i begun hi
        cases hs
        exact h.execute hi statements
      · cases hs
  | settle i resolves =>
      simp only [PostgresStoreRun.step] at hs
      split at hs
      · rename_i begun hi
        cases hs
        refine ⟨?_, ?_, ?_⟩
        · intro w hw
          show Function.update s.calls i _ w.1 ≠ .idle
          by_cases hwi : w.1 = i
          · rw [hwi, Function.update_self]
            cases resolves <;> simp [TransactionCall.outcome]
          · rw [Function.update_of_ne hwi]
            exact h.caller_ne w hw
        · intro w
          show w ∈ (if resolves then s.data ++ s.clients i else s.data) ↔
            w ∈ s.writes ∧ Function.update s.calls i (.outcome resolves) w.1 = .resolved
          by_cases hwi : w.1 = i
          · have hnot : w ∉ s.data := by
              rw [h.data_iff, hwi, hi]
              simp
            rw [hwi, Function.update_self]
            cases resolves with
            | true => simp [h.client_iff i begun hi, hnot, hwi, TransactionCall.outcome]
            | false => simp [hnot, TransactionCall.outcome]
          · rw [Function.update_of_ne hwi, ← h.data_iff]
            cases resolves with
            | true => simp [h.client_iff i begun hi, hwi]
            | false => simp
        · intro k begun' hk w
          by_cases hki : k = i
          · rw [hki] at hk
            have houtcome : TransactionCall.outcome resolves = .running begun' := by
              simpa using hk
            cases resolves <;> cases houtcome
          · exact h.client_iff k begun'
              (by rwa [← Function.update_of_ne hki (.outcome resolves) s.calls]) w
      · cases hs

/-- Every call has its own transaction, whatever the others do. -/
theorem Reached.isolated (h : Reached s) :
    ∀ w ∈ s.writes, w ∈ s.data ↔ s.calls w.1 = .resolved := by
  have hinv : Inv s := by
    refine h.invariant (fun _ hs => hs ▸ ⟨?_, ?_, ?_⟩) fun _ _ _ _ hInv hs => hInv.step hs
    · intro w hw
      cases hw
    · intro w
      simp [PostgresStoreRun.empty]
    · intro i begun hi
      cases hi
  exact fun w hw => (hinv.data_iff w).trans (and_iff_right hw)

end PostgresStoreRun

end RecruitingOs
