import Mathlib.Data.Nat.Notation

/-!
# Transactions

A transaction executes statements one after another, counts them, and commits.  At any
count the store may raise an error of its own (`faults`): before a statement, or in place
of the commit.  Whatever is raised, and wherever, the data is rolled back to what it was
(`transaction_error`); a transaction that returns has executed its body and committed
(`transaction_ok`).
-/

namespace Transaction

universe u v

variable {σ : Type u} {ε : Type v}

/-- The data in a transaction, and how many statements it has executed. -/
structure Progress (σ : Type u) where
  data : σ
  executed : ℕ

/-- Execute a statement, unless the store fails first. -/
def execute (faults : ℕ → Option ε) (statement : σ → Except ε σ) (p : Progress σ) :
    Except ε (Progress σ) :=
  match faults p.executed with
  | some e => .error e
  | none => (statement p.data).map fun data => ⟨data, p.executed + 1⟩

/-- Execute statements in order, up to the first that is refused. -/
def executeAll (faults : ℕ → Option ε) :
    List (σ → Except ε σ) → Progress σ → Except ε (Progress σ)
  | [], p => .ok p
  | statement :: rest, p => (execute faults statement p).bind (executeAll faults rest)

/-- Begin, run the body, and commit; roll back on an error. -/
def transaction (faults : ℕ → Option ε) (body : Progress σ → Except ε (Progress σ)) (s : σ) :
    σ × Except ε Unit :=
  match body ⟨s, 0⟩ with
  | .error e => (s, .error e)
  | .ok p =>
      match faults p.executed with
      | some e => (s, .error e)
      | none => (p.data, .ok ())

variable {faults : ℕ → Option ε} {p q : Progress σ} {s t : σ}

theorem execute_ok {statement : σ → Except ε σ} (h : execute faults statement p = .ok q) :
    statement p.data = .ok q.data := by
  unfold execute at h
  split at h
  · cases h
  · cases hs : statement p.data with
    | error e =>
        rw [hs] at h
        cases h
    | ok data =>
        rw [hs] at h
        cases h
        rfl

theorem executeAll_cons {statement : σ → Except ε σ} {rest : List (σ → Except ε σ)}
    (h : executeAll faults (statement :: rest) p = .ok q) :
    ∃ r, statement p.data = .ok r.data ∧ executeAll faults rest r = .ok q := by
  rw [executeAll] at h
  cases hs : execute faults statement p with
  | error e =>
      rw [hs] at h
      cases h
  | ok r =>
      rw [hs] at h
      exact ⟨r, execute_ok hs, h⟩

/-- **Rollback.** -/
theorem transaction_error {body : Progress σ → Except ε (Progress σ)} {e : ε}
    (h : transaction faults body s = (t, .error e)) : t = s := by
  unfold transaction at h
  split at h
  · cases h
    rfl
  · split at h
    · cases h
      rfl
    · cases h

/-- **Commit.** -/
theorem transaction_ok {body : Progress σ → Except ε (Progress σ)}
    (h : transaction faults body s = (t, .ok ())) : ∃ p, body ⟨s, 0⟩ = .ok p ∧ p.data = t := by
  unfold transaction at h
  split at h
  · cases h
  · rename_i p hbody
    split at h
    · cases h
    · cases h
      exact ⟨p, hbody, rfl⟩

end Transaction
