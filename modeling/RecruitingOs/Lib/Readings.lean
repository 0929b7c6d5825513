import Mathlib.Algebra.Order.BigOperators.Group.List
import Mathlib.Algebra.GroupWithZero.Nat
import Mathlib.Algebra.Order.Group.Nat

/-!
# Clock readings of one call

A call that reads a wall clock several times sees values that never decrease.
`Readings` carries that by construction: the first reading and the advance
before each later one.  `Readings.nth` is total, so that a definition can name
its `i`-th reading; past the recorded advances the clock stands still.
-/

/-- The clock readings of one call: the first one and the advances after it. -/
structure Readings where
  start : ℤ
  ticks : List ℕ
deriving Repr, DecidableEq

namespace Readings

/-- The `i`-th reading of the call. -/
def nth (r : Readings) (i : ℕ) : ℤ := r.start + (r.ticks.take i).sum

/-- The clock when the call returns. -/
def finish (r : Readings) : ℤ := r.start + r.ticks.sum

/-- A clock that is read once. -/
@[simp] theorem nth_once (t : ℤ) (i : ℕ) : (⟨t, []⟩ : Readings).nth i = t := by
  simp [Readings.nth]

theorem start_le_nth (r : Readings) (i : ℕ) : r.start ≤ r.nth i := by
  simp only [Readings.nth]
  omega

theorem nth_le_finish (r : Readings) (i : ℕ) : r.nth i ≤ r.finish := by
  have hsub : (r.ticks.take i).sum ≤ r.ticks.sum :=
    (List.take_sublist i r.ticks).sum_le_sum (fun x _ => Nat.zero_le x)
  simp only [Readings.nth, finish]
  omega

theorem start_le_finish (r : Readings) : r.start ≤ r.finish :=
  (r.start_le_nth 0).trans (r.nth_le_finish 0)

end Readings
