import Mathlib.Data.List.Basic

/-!
# Loops with a bound

A loop that counts its rounds up to a bound.  A round leaves its effects, and goes on with a state
or ends the loop with a result; where the bound is reached the result is fixed.

* `run_length`: there are no more rounds than the bound.
* `run_round`: what holds of every round alone holds of the rounds of a run.
* `run_last`: what only a round that ends the loop has is in the last one.
* `run_result`: what holds of the results of rounds holds of the result of a run.
* `run_countP`: an effect that a round has at most once is not had more often than the bound.
-/

namespace BoundedLoop

universe u v w

/-- How a round ends. -/
inductive Next (σ : Type u) (ρ : Type v)
  | again (state : σ)
  | done (result : ρ)

variable {σ : Type u} {ρ : Type v} {ε : Type w}

/-- At most `left` rounds from round `n` on, with the effects of each. -/
def run (round : ℕ → σ → List ε × Next σ ρ) (exhausted : ρ) : ℕ → ℕ → σ → List (List ε) × ρ
  | 0, _, _ => ([], exhausted)
  | left + 1, n, s =>
      match (round n s).2 with
      | .done result => ([(round n s).1], result)
      | .again next =>
          let later := run round exhausted left (n + 1) next
          ((round n s).1 :: later.1, later.2)

variable {round : ℕ → σ → List ε × Next σ ρ} {exhausted : ρ}

/-- A run is one round, or a round and a run from the next state. -/
theorem run_succ_cases (left n : ℕ) (s : σ) :
    (∃ result, (round n s).2 = .done result ∧
      run round exhausted (left + 1) n s = ([(round n s).1], result)) ∨
    ∃ next, (round n s).2 = .again next ∧ run round exhausted (left + 1) n s =
      ((round n s).1 :: (run round exhausted left (n + 1) next).1,
        (run round exhausted left (n + 1) next).2) := by
  cases h : (round n s).2 with
  | done result => exact Or.inl ⟨result, rfl, by rw [run, h]⟩
  | again next => exact Or.inr ⟨next, rfl, by rw [run, h]⟩

theorem run_length (left n : ℕ) (s : σ) : (run round exhausted left n s).1.length ≤ left := by
  induction left generalizing n s with
  | zero => exact Nat.le_refl 0
  | succ left ih =>
      obtain ⟨result, -, hrun⟩ | ⟨next, -, hrun⟩ := @run_succ_cases _ _ _ round exhausted left n s
      · rw [hrun]
        exact Nat.succ_le_succ (Nat.zero_le left)
      · rw [hrun]
        exact Nat.succ_le_succ (ih (n + 1) next)

/-- **Every round** of a run is a round of the loop, under its own number. -/
theorem run_round {P : ℕ → List ε → Prop} (h : ∀ n s, P n (round n s).1) {left n : ℕ} {s : σ}
    {i : ℕ} {effects : List ε} (hi : (run round exhausted left n s).1[i]? = some effects) :
    P (n + i) effects := by
  induction left generalizing n s i with
  | zero => cases hi
  | succ left ih =>
      obtain ⟨result, -, hrun⟩ | ⟨next, -, hrun⟩ := @run_succ_cases _ _ _ round exhausted left n s
      all_goals rw [hrun] at hi
      · cases i with
        | zero =>
            obtain rfl := Option.some.inj hi
            exact h n s
        | succ i => cases hi
      · cases i with
        | zero =>
            obtain rfl := Option.some.inj hi
            exact h n s
        | succ i =>
            rw [List.getElem?_cons_succ] at hi
            have hround := ih hi
            rwa [Nat.add_assoc, Nat.add_comm 1 i] at hround

/-- A round that ends the loop is the last one. -/
theorem run_last {P : List ε → Prop} (h : ∀ n s next, (round n s).2 = .again next → ¬ P (round n s).1)
    {left n : ℕ} {s : σ} {i : ℕ} {effects : List ε}
    (hi : (run round exhausted left n s).1[i]? = some effects) (heffects : P effects) :
    i + 1 = (run round exhausted left n s).1.length := by
  induction left generalizing n s i with
  | zero => cases hi
  | succ left ih =>
      obtain ⟨result, -, hrun⟩ | ⟨next, hagain, hrun⟩ :=
        @run_succ_cases _ _ _ round exhausted left n s
      all_goals rw [hrun] at hi ⊢
      · cases i with
        | zero => rfl
        | succ i => cases hi
      · cases i with
        | zero =>
            obtain rfl := Option.some.inj hi
            exact absurd heffects (h n s next hagain)
        | succ i =>
            rw [List.getElem?_cons_succ] at hi
            exact congrArg (· + 1) (ih hi)

/-- **The result** is that of a round, or the one of an exhausted loop. -/
theorem run_result {Q : ρ → Prop} (hexhausted : Q exhausted)
    (h : ∀ n s result, (round n s).2 = .done result → Q result) (left n : ℕ) (s : σ) :
    Q (run round exhausted left n s).2 := by
  induction left generalizing n s with
  | zero => exact hexhausted
  | succ left ih =>
      obtain ⟨result, hdone, hrun⟩ | ⟨next, -, hrun⟩ :=
        @run_succ_cases _ _ _ round exhausted left n s
      · rw [hrun]
        exact h n s result hdone
      · rw [hrun]
        exact ih (n + 1) next

/-- **Counting effects**, where a round has at most one. -/
theorem run_countP {p : ε → Bool} (h : ∀ n s, (round n s).1.countP p ≤ 1) (left n : ℕ) (s : σ) :
    (run round exhausted left n s).1.flatten.countP p ≤ left := by
  have hround : ∀ effects ∈ (run round exhausted left n s).1, effects.countP p ≤ 1 := by
    intro effects hmem
    obtain ⟨i, hi⟩ := List.mem_iff_getElem?.mp hmem
    exact @run_round _ _ _ round exhausted (fun _ effects => effects.countP p ≤ 1) h left n s i
      effects hi
  have hlength : (run round exhausted left n s).1.length ≤ left := run_length left n s
  refine Nat.le_trans ?_ hlength
  clear hlength
  generalize (run round exhausted left n s).1 = rounds at hround ⊢
  induction rounds with
  | nil => exact Nat.le_refl 0
  | cons effects rounds ih =>
      rw [List.flatten_cons, List.countP_append, List.length_cons, Nat.add_comm]
      exact Nat.add_le_add (ih fun later hmem => hround later (List.mem_cons_of_mem _ hmem))
        (hround effects List.mem_cons_self)

end BoundedLoop
