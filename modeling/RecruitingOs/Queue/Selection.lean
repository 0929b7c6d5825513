import Mathlib.Data.List.MinMax
import Mathlib.Data.Prod.Lex
import RecruitingOs.Queue.Model

/-!
# The order in which jobs are served

The selection of a job to lease ranks the candidates of each tenant and orders the
first-ranked ones by the last lease of their tenant.  `Queue.servedKey` is the one
linear order behind both, and `Queue.isNext_iff` says that the selection answers its
least candidates: so there is an answer wherever there is a candidate, no tenant waits
longer than the one that is served, and two answers differ in nothing that is ordered by.
-/

namespace RecruitingOs

namespace Queue

variable {q : Queue} {candidates : List JobRow} {row other : JobRow}

/-- What the selection orders by. -/
def servedKey (q : Queue) (row : JobRow) : ℤ ×ₗ ℤ ×ₗ ℤ :=
  toLex (q.lastLeased row, toLex (row.priority, row.createdAt))

theorem servedBefore_iff : q.servedBefore other row ↔ q.servedKey other < q.servedKey row := by
  simp [servedBefore, servedKey, JobRow.before, Prod.Lex.toLex_lt_toLex]

/-- Within a tenant the rank is the order of the selection. -/
theorem servedBefore_of_before (htenant : other.tenantId = row.tenantId)
    (h : other.before row) : q.servedBefore other row := by
  have hlast : q.lastLeased other = q.lastLeased row := by rw [lastLeased, lastLeased, htenant]
  simp [servedBefore, hlast, h]

/-- A least candidate is an answer: the rank filter does not hide it. -/
theorem isNext_of_least (hrow : row ∈ candidates)
    (hleast : ∀ other ∈ candidates, q.servedKey row ≤ q.servedKey other) :
    q.isNext candidates row := by
  have hnone : ∀ other ∈ candidates, ¬ q.servedBefore other row := fun other hother hbefore =>
    absurd (servedBefore_iff.mp hbefore) (not_lt_of_ge (hleast other hother))
  have hrank : row.ranksFirst candidates := by
    refine List.all_eq_true.mpr fun other hother => decide_eq_true ?_
    rintro ⟨htenant, hbefore⟩
    exact hnone other hother (servedBefore_of_before htenant hbefore)
  refine decide_eq_true ⟨hrow, hrank, List.all_eq_true.mpr fun other hother => decide_eq_true ?_⟩
  rintro ⟨-, hbefore⟩
  exact hnone other hother hbefore

theorem exists_least (h : candidates ≠ []) :
    ∃ row ∈ candidates, ∀ other ∈ candidates, q.servedKey row ≤ q.servedKey other := by
  cases hleast : candidates.argmin q.servedKey with
  | none => exact absurd (List.argmin_eq_none.mp hleast) h
  | some row =>
      refine ⟨row, List.argmin_mem hleast, fun other hother => ?_⟩
      exact not_lt.mp (List.not_lt_of_mem_argmin hother hleast)

/-- **The selection answers the least candidates.** -/
theorem isNext_iff : q.isNext candidates row ↔
    row ∈ candidates ∧ ∀ other ∈ candidates, q.servedKey row ≤ q.servedKey other := by
  constructor
  · intro h
    obtain ⟨hrow, -, hfirst⟩ := of_decide_eq_true h
    refine ⟨hrow, fun other hother => ?_⟩
    -- no least candidate is served before the answer, for it has the first rank
    obtain ⟨least, hmem, hleast⟩ := exists_least (q := q) (List.ne_nil_of_mem hother)
    have hrank : least.ranksFirst candidates :=
      (of_decide_eq_true (isNext_of_least hmem hleast)).2.1
    have hnot : ¬ q.servedBefore least row := fun hbefore =>
      of_decide_eq_true (List.all_eq_true.mp hfirst least hmem) ⟨hrank, hbefore⟩
    exact (not_lt.mp fun hlt => hnot (servedBefore_iff.mpr hlt)).trans (hleast other hother)
  · rintro ⟨hrow, hleast⟩
    exact isNext_of_least hrow hleast

theorem exists_isNext (h : candidates ≠ []) : ∃ row, q.isNext candidates row := by
  obtain ⟨row, hrow, hleast⟩ := exists_least (q := q) h
  exact ⟨row, isNext_of_least hrow hleast⟩

/-- The tenant that is served has waited no less than any other. -/
theorem lastLeased_le_of_isNext (h : q.isNext candidates row) (hother : other ∈ candidates) :
    q.lastLeased row ≤ q.lastLeased other := by
  have hle := (isNext_iff.mp h).2 other hother
  rcases Prod.Lex.toLex_le_toLex.mp hle with hlt | ⟨heq, -⟩
  · exact hlt.le
  · exact heq.le

/-- Two answers are created at the same time. -/
theorem createdAt_eq_of_isNext (h : q.isNext candidates row) (h' : q.isNext candidates other) :
    row.createdAt = other.createdAt := by
  obtain ⟨hrow, hleast⟩ := isNext_iff.mp h
  obtain ⟨hother, hleast'⟩ := isNext_iff.mp h'
  have hkey : q.servedKey row = q.servedKey other :=
    le_antisymm (hleast other hother) (hleast' row hrow)
  have hrest := congrArg (fun key => (ofLex (ofLex key).2).2) hkey
  exact hrest

end Queue

end RecruitingOs
