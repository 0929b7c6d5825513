import RecruitingOs.Lib.Table

/-!
# Rows under concurrent transactions

A row that transactions write under READ COMMITTED has a committed version and at
most one uncommitted one, that of the transaction which has the row locked.

* `seen` — what a statement of a transaction sees in the row.
* `write`, `commit` and `abort` — the life of an uncommitted version.
* `versions` — all versions there are, for invariants that hold of every one:
  committing and aborting makes no new version, writing makes one.
-/

universe u

/-- The versions of a row: the committed one, and the one that a transaction has
written and not yet committed. -/
structure Versioned (ρ : Type u) where
  committed : ρ
  pending : Option (ℕ × ρ)
deriving Repr, DecidableEq

namespace Versioned

variable {ρ : Type u} {c d : ℕ} {f : ρ → ρ} {v : Versioned ρ} {row : ρ}

/-- No transaction other than `c` has the row locked. -/
def free (c : ℕ) (v : Versioned ρ) : Bool := v.pending.all fun p => p.1 = c

/-- What transaction `c` sees: what it wrote itself, else what is committed. -/
def seen (c : ℕ) (v : Versioned ρ) : ρ :=
  match v.pending with
  | some (owner, row) => if owner = c then row else v.committed
  | none => v.committed

/-- Transaction `c` writes a new version of what it sees. -/
def write (c : ℕ) (f : ρ → ρ) (v : Versioned ρ) : Versioned ρ :=
  { v with pending := some (c, f (v.seen c)) }

def commit (c : ℕ) (v : Versioned ρ) : Versioned ρ :=
  match v.pending with
  | some (owner, row) => if owner = c then ⟨row, none⟩ else v
  | none => v

def abort (c : ℕ) (v : Versioned ρ) : Versioned ρ :=
  match v.pending with
  | some (owner, _) => if owner = c then ⟨v.committed, none⟩ else v
  | none => v

/-- Every version of the row. -/
def versions (v : Versioned ρ) : List ρ := v.committed :: (v.pending.map Prod.snd).toList

theorem committed_mem_versions (v : Versioned ρ) : v.committed ∈ v.versions :=
  List.mem_cons_self

theorem mem_versions : row ∈ v.versions ↔ row = v.committed ∨ ∃ owner, v.pending = some (owner, row) := by
  rcases v with ⟨committed, _ | ⟨owner, pending⟩⟩
  · simp [versions]
  · simp [versions, eq_comm]

theorem seen_eq (c : ℕ) (v : Versioned ρ) :
    v.seen c = v.committed ∨ v.pending = some (c, v.seen c) := by
  rcases v with ⟨committed, _ | ⟨owner, pending⟩⟩
  · exact .inl rfl
  · by_cases h : owner = c
    · right
      simp [seen, h]
    · left
      simp [seen, h]

theorem seen_mem_versions (c : ℕ) (v : Versioned ρ) : v.seen c ∈ v.versions := by
  rw [mem_versions]
  rcases seen_eq c v with h | h
  · exact .inl h
  · exact .inr ⟨c, h⟩

@[simp] theorem pending_write : (v.write c f).pending = some (c, f (v.seen c)) := rfl

/-- Writing adds the version written. -/
theorem mem_versions_write (h : row ∈ (v.write c f).versions) :
    row ∈ v.versions ∨ row = f (v.seen c) := by
  rcases mem_versions.mp h with rfl | ⟨owner, hp⟩
  · exact .inl v.committed_mem_versions
  · right
    rw [pending_write, Option.some_inj] at hp
    exact (congrArg Prod.snd hp).symm

/-- A commit leaves the row alone or puts the uncommitted version in place. -/
theorem commit_cases (c : ℕ) (v : Versioned ρ) :
    v.commit c = v ∨ ∃ row, v.pending = some (c, row) ∧ v.commit c = ⟨row, none⟩ := by
  rcases v with ⟨committed, _ | ⟨owner, pending⟩⟩
  · exact .inl rfl
  · by_cases h : owner = c
    · right
      exact ⟨pending, by rw [h], by simp [commit, h]⟩
    · left
      simp [commit, h]

/-- An abort leaves the row alone or drops the uncommitted version. -/
theorem abort_cases (c : ℕ) (v : Versioned ρ) :
    v.abort c = v ∨ ∃ row, v.pending = some (c, row) ∧ v.abort c = ⟨v.committed, none⟩ := by
  rcases v with ⟨committed, _ | ⟨owner, pending⟩⟩
  · exact .inl rfl
  · by_cases h : owner = c
    · right
      exact ⟨pending, by rw [h], by simp [abort, h]⟩
    · left
      simp [abort, h]

end Versioned
