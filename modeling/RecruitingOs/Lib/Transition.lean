import Mathlib.Data.Nat.Notation
import Mathlib.Logic.Relation

/-!
# Labelled transition systems and their runs

A system is a partial step function `step : σ → α → Option σ`.  The label `α`
carries every choice that the system leaves open (who moves, what the
environment answers, what the clock reads), so a run is a list of labels and a
step that is not enabled answers `none`.

* `Reachable` — the states of all runs from an initial state; `Reachable.invariant`
  is the one induction behind every invariant proved over it.
* `Later` — reachability between two states, for statements of the form
  "from here on".
* `EveryState` / `EveryStep` — a property of every state of one run, and a
  condition on every step that the run takes.
* `everyState_of_everyStep` and `everyState_iff_everyStep` — the two run lemmas:
  a condition on steps that keeps an invariant gives the property along the
  whole run, and where each violation breaks the property at once the two are
  equivalent.
* `everyStep_of_not_doomed` — the same from the end of a run, where a violation
  only shows later.
-/

namespace Transition

universe u v

variable {σ : Type u} {α : Type v}

/-- The states of all runs of `step` that start in a state of `init`. -/
inductive Reachable (init : σ → Prop) (step : σ → α → Option σ) : σ → Prop
  | start {s : σ} (h : init s) : Reachable init step s
  | next {s t : σ} (a : α) (h : Reachable init step s) (hs : step s a = some t) :
      Reachable init step t

/-- **Invariants.**  What holds initially and is kept by every step from a
reachable state holds of every reachable state. -/
theorem Reachable.invariant {init : σ → Prop} {step : σ → α → Option σ}
    {I : σ → Prop} (start : ∀ s, init s → I s)
    (keep : ∀ s a t, Reachable init step s → I s → step s a = some t → I t)
    {s : σ} (h : Reachable init step s) : I s := by
  induction h with
  | start h => exact start _ h
  | next a h hs ih => exact keep _ a _ h ih hs

/-- `Later step s t`: some run leads from `s` to `t`. -/
def Later (step : σ → α → Option σ) : σ → σ → Prop :=
  Relation.ReflTransGen fun s t => ∃ a, step s a = some t

theorem Later.refl (step : σ → α → Option σ) (s : σ) : Later step s s :=
  Relation.ReflTransGen.refl

theorem Reachable.later {init : σ → Prop} {step : σ → α → Option σ} {s t : σ}
    (h : Reachable init step s) (hst : Later step s t) : Reachable init step t := by
  induction hst with
  | refl => exact h
  | tail _ hs ih =>
      obtain ⟨a, hs⟩ := hs
      exact Reachable.next a ih hs

/-- What every step from a reachable state keeps, a later state still has. -/
theorem Later.keep {init : σ → Prop} {step : σ → α → Option σ} {P : σ → Prop}
    (keep : ∀ s a t, Reachable init step s → P s → step s a = some t → P t)
    {s t : σ} (h : Reachable init step s) (hst : Later step s t) (hP : P s) : P t := by
  induction hst with
  | refl => exact hP
  | tail hsu hs ih =>
      obtain ⟨a, hs⟩ := hs
      exact keep _ a _ (h.later hsu) ih hs

/-- Take the steps of a list of labels in order. -/
def exec (step : σ → α → Option σ) : σ → List α → Option σ
  | s, [] => some s
  | s, a :: run => (step s a).bind fun t => exec step t run

/-- What every step keeps, an executed run keeps. -/
theorem exec_keep {step : σ → α → Option σ} {P : σ → Prop}
    (keep : ∀ s a t, P s → step s a = some t → P t) :
    ∀ {run : List α} {s t : σ}, P s → exec step s run = some t → P t := by
  intro run
  induction run with
  | nil => intro s t h he; cases he; exact h
  | cons a run ih =>
      intro s t h he
      simp only [exec, Option.bind_eq_some_iff] at he
      obtain ⟨u, hu, he⟩ := he
      exact ih (keep s a u h hu) he

theorem Reachable.of_exec {init : σ → Prop} {step : σ → α → Option σ} {run : List α} {s t : σ}
    (h : Reachable init step s) (he : exec step s run = some t) : Reachable init step t :=
  exec_keep (fun _ a _ hs hstep => hs.next a hstep) h he

/-- What an executed run ends in is reached later. -/
theorem Later.of_exec {step : σ → α → Option σ} {run : List α} {s t : σ}
    (he : exec step s run = some t) : Later step s t :=
  exec_keep (P := Later step s) (fun _ a _ hs hstep => hs.tail ⟨a, hstep⟩) (Later.refl step s) he

/-- An executed run passes from each call to the next. -/
theorem exec_take_succ {step : σ → α → Option σ} {a : α} :
    ∀ {run : List α} {s t : σ} {i : ℕ}, exec step s run = some t → run[i]? = some a →
      ∃ u v, exec step s (run.take i) = some u ∧ step u a = some v ∧
        exec step s (run.take (i + 1)) = some v := by
  intro run
  induction run with
  | nil => intro s t i _ ha; cases ha
  | cons b run ih =>
      intro s t i he ha
      simp only [exec, Option.bind_eq_some_iff] at he
      obtain ⟨w, hw, he⟩ := he
      cases i with
      | zero =>
          obtain rfl : b = a := by simpa using ha
          exact ⟨s, w, rfl, hw, by simp [exec, hw]⟩
      | succ i =>
          obtain ⟨u, v, hu, hv, hnext⟩ := ih he (by simpa using ha)
          refine ⟨u, v, ?_, hv, ?_⟩
          · rw [List.take_succ_cons, exec, hw, Option.bind_some, hu]
          · rw [List.take_succ_cons, exec, hw, Option.bind_some, hnext]

/-- `P` holds in every state that the run passes through. -/
def EveryState (step : σ → α → Option σ) (P : σ → Prop) : σ → List α → Prop
  | s, [] => P s
  | s, a :: run => P s ∧ ∀ t, step s a = some t → EveryState step P t run

/-- `C` holds of every step that the run takes, in the state it is taken from. -/
def EveryStep (step : σ → α → Option σ) (C : σ → α → Prop) : σ → List α → Prop
  | _, [] => True
  | s, a :: run => ∀ t, step s a = some t → C s a ∧ EveryStep step C t run

theorem EveryState.head {step : σ → α → Option σ} {P : σ → Prop} {s : σ} {run : List α}
    (h : EveryState step P s run) : P s := by
  cases run with
  | nil => exact h
  | cons a run => exact h.1

theorem EveryState.mono {step : σ → α → Option σ} {P Q : σ → Prop} (hPQ : ∀ s, P s → Q s) :
    ∀ {run : List α} {s : σ}, EveryState step P s run → EveryState step Q s run := by
  intro run
  induction run with
  | nil => intro s h; exact hPQ s h
  | cons a run ih =>
      intro s h
      exact ⟨hPQ s h.1, fun t ht => ih (h.2 t ht)⟩

/-- A state that an executed run ends in has the property of every state. -/
theorem EveryState.exec {step : σ → α → Option σ} {P : σ → Prop} :
    ∀ {run : List α} {s t : σ}, EveryState step P s run →
      Transition.exec step s run = some t → P t := by
  intro run
  induction run with
  | nil => intro s t h he; cases he; exact h
  | cons a run ih =>
      intro s t h he
      simp only [Transition.exec, Option.bind_eq_some_iff] at he
      obtain ⟨u, hu, he⟩ := he
      exact ih (h.2 u hu) he

theorem everyStep_trivial {step : σ → α → Option σ} (s : σ) (run : List α) :
    EveryStep step (fun _ _ => True) s run := by
  induction run generalizing s with
  | nil => trivial
  | cons a run ih => exact fun t _ => ⟨trivial, ih t⟩

/-- The condition holds of the step after an executed run. -/
theorem EveryStep.last {step : σ → α → Option σ} {C : σ → α → Prop} {a : α} {u : σ} :
    ∀ {run : List α} {s t : σ}, EveryStep step C s (run ++ [a]) →
      Transition.exec step s run = some t → step t a = some u → C t a := by
  intro run
  induction run with
  | nil =>
      intro s t h he hs
      cases he
      exact (h u hs).1
  | cons b run ih =>
      intro s t h he hs
      simp only [Transition.exec, Option.bind_eq_some_iff] at he
      obtain ⟨v, hv, he⟩ := he
      exact ih (h v hv).2 he hs

/-- **The run lemma.**  A condition on steps under which every step keeps the
invariant gives the invariant in every state of a run whose steps meet it. -/
theorem everyState_of_everyStep {step : σ → α → Option σ} {I : σ → Prop}
    {C : σ → α → Prop} (keep : ∀ s a t, I s → C s a → step s a = some t → I t) :
    ∀ {run : List α} {s : σ}, I s → EveryStep step C s run → EveryState step I s run := by
  intro run
  induction run with
  | nil => intro s h _; exact h
  | cons a run ih =>
      intro s h hC
      refine ⟨h, fun t ht => ?_⟩
      obtain ⟨hstep, hrest⟩ := hC t ht
      exact ih (keep s a t h hstep ht) hrest

/-- A condition under which every step keeps the invariant and has a second property gives the
second property of every step of the run. -/
theorem everyStep_of_everyStep {step : σ → α → Option σ} {I : σ → Prop} {C D : σ → α → Prop}
    (keep : ∀ s a t, I s → C s a → step s a = some t → I t ∧ D s a) :
    ∀ {run : List α} {s : σ}, I s → EveryStep step C s run → EveryStep step D s run := by
  intro run
  induction run with
  | nil => intro s _ _; trivial
  | cons a run ih =>
      intro s h hC t ht
      obtain ⟨hstep, hrest⟩ := hC t ht
      obtain ⟨hnext, hD⟩ := keep s a t h hstep ht
      exact ⟨hD, ih hnext hrest⟩

/-- A step that is taken, and the rest of the run. -/
theorem EveryStep.cons {step : σ → α → Option σ} {C : σ → α → Prop} {a : α} {run : List α}
    {s t : σ} (hstep : step s a = some t) (hC : C s a) (hrest : EveryStep step C t run) :
    EveryStep step C s (a :: run) := by
  intro u hu
  obtain rfl : t = u := Option.some.inj (hstep.symm.trans hu)
  exact ⟨hC, hrest⟩

/-- **Doomed runs.**  If a step against the condition leaves a state that is doomed, and
no step saves a doomed state, then a run that ends undoomed meets the condition at every
step. -/
theorem everyStep_of_not_doomed {step : σ → α → Option σ} {I Doomed : σ → Prop}
    {C : σ → α → Prop} (keep : ∀ s a t, I s → step s a = some t → I t)
    (doom : ∀ s a t, I s → ¬ C s a → step s a = some t → Doomed t)
    (stays : ∀ s a t, I s → Doomed s → step s a = some t → Doomed t) :
    ∀ {run : List α} {s t : σ}, I s → exec step s run = some t → ¬ Doomed t →
      EveryStep step C s run := by
  intro run
  induction run with
  | nil => intro s t _ _ _; trivial
  | cons a run ih =>
      intro s t hs he hend
      simp only [exec, Option.bind_eq_some_iff] at he
      obtain ⟨u, hu, hrest⟩ := he
      intro v hv
      obtain rfl : u = v := Option.some.inj (hu.symm.trans hv)
      have hIu := keep s a u hs hu
      refine ⟨Classical.byContradiction fun hC => ?_, ih hIu hrest hend⟩
      refine hend (exec_keep (P := fun w => I w ∧ Doomed w) ?_ ⟨hIu, doom s a u hs hC hu⟩ hrest).2
      rintro w b x ⟨hw, hdoomed⟩ hstep
      exact ⟨keep w b x hw hstep, stays w b x hw hdoomed hstep⟩

/-- **The exact run lemma.**  Let the environment promise `D` of every step.  If the
invariant implies the property and every step against the condition breaks the property
at once, then a run has the property in all its states exactly when all its steps meet
the condition. -/
theorem everyState_iff_everyStep_of {step : σ → α → Option σ} {I P : σ → Prop}
    {C D : σ → α → Prop}
    (keep : ∀ s a t, I s → D s a → C s a → step s a = some t → I t)
    (safe : ∀ s, I s → P s)
    (exact_step : ∀ s a t, I s → D s a → step s a = some t → P t → C s a) :
    ∀ {run : List α} {s : σ}, I s → EveryStep step D s run →
      (EveryState step P s run ↔ EveryStep step C s run) := by
  intro run
  induction run with
  | nil =>
      intro s hs _
      exact ⟨fun _ => trivial, fun _ => safe s hs⟩
  | cons a run ih =>
      intro s hs hD
      constructor
      · intro h t ht
        obtain ⟨hDs, hrest⟩ := hD t ht
        have hC : C s a := exact_step s a t hs hDs ht (h.2 t ht).head
        exact ⟨hC, (ih (keep s a t hs hDs hC ht) hrest).mp (h.2 t ht)⟩
      · intro h
        refine ⟨safe s hs, fun t ht => ?_⟩
        obtain ⟨hDs, hrest⟩ := hD t ht
        obtain ⟨hC, hlater⟩ := h t ht
        exact (ih (keep s a t hs hDs hC ht) hrest).mpr hlater

/-- The exact run lemma where nothing is promised. -/
theorem everyState_iff_everyStep {step : σ → α → Option σ} {I P : σ → Prop}
    {C : σ → α → Prop} (keep : ∀ s a t, I s → C s a → step s a = some t → I t)
    (safe : ∀ s, I s → P s)
    (exact_step : ∀ s a t, I s → step s a = some t → P t → C s a) {run : List α} {s : σ}
    (hs : I s) : EveryState step P s run ↔ EveryStep step C s run :=
  everyState_iff_everyStep_of (D := fun _ _ => True)
    (fun s a t h _ => keep s a t h) safe (fun s a t h _ => exact_step s a t h) hs
    (everyStep_trivial s run)

end Transition
