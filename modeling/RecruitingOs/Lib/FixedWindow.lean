import Mathlib.Algebra.Order.Ring.Int
import Mathlib.Tactic.Linarith
import Mathlib.Tactic.Ring

/-!
# Fixed windows

Time is cut into windows of one width, aligned to zero.  A limiter that counts by window bounds
the events of an interval by those of the windows that it meets: an interval as long as `k` windows
meets `k + 1` of them (`countP_interval_le`).

`Counted` is what an ideal counter answers: each event is told its rank among the events with its
label.  Of a label exactly the first `limit` events have a rank within the limit
(`Counted.countP_allowed`).
-/

namespace FixedWindow

variable {width : ℕ} {a t : ℤ}

/-- The start of the window that a time lies in. -/
def start (width : ℕ) (t : ℤ) : ℤ := t / width * width

theorem start_le (h : 0 < width) (t : ℤ) : start width t ≤ t :=
  Int.ediv_mul_le t (by omega)

theorem lt_start_add (h : 0 < width) (t : ℤ) : t < start width t + width := by
  have hlt := Int.lt_ediv_add_one_mul_self t (by omega : (0 : ℤ) < width)
  rw [add_mul, one_mul] at hlt
  exact hlt

/-- The windows of an interval that is as long as `k` windows. -/
theorem start_of_interval (h : 0 < width) {k : ℕ} (ha : a ≤ t) (ht : t < a + k * width) :
    ∃ i ≤ k, start width t = start width a + i * width := by
  have hwidth : (0 : ℤ) < width := by omega
  have hlow : a / width ≤ t / width := Int.ediv_le_ediv hwidth ha
  have hhigh : t / width ≤ a / width + k := by
    rw [← Int.add_mul_ediv_right a k hwidth.ne']
    exact Int.ediv_le_ediv hwidth ht.le
  refine ⟨(t / width - a / width).toNat, by omega, ?_⟩
  have hindex : ((t / width - a / width).toNat : ℤ) = t / width - a / width := by omega
  unfold start
  rw [hindex]
  ring

section Count

variable {ε : Type} {time : ε → ℤ} {p : ε → Bool} {events : List ε} {limit : ℕ}

/-- What is counted of two conditions. -/
theorem countP_or_le (p q : ε → Bool) (events : List ε) :
    (events.countP fun e => p e || q e) ≤ events.countP p + events.countP q := by
  induction events with
  | nil => exact Nat.le_refl 0
  | cons e rest ih =>
      rw [List.countP_cons, List.countP_cons, List.countP_cons]
      cases p e <;> cases q e <;> simp <;> omega

/-- The events of the first `k + 1` windows from `first` on. -/
theorem countP_windows_le
    (h : ∀ window, (events.countP fun e => p e && decide (start width (time e) = window)) ≤ limit)
    (first : ℤ) (k : ℕ) :
    (events.countP fun e => p e && decide (∃ i ≤ k, start width (time e) = first + i * width)) ≤
      (k + 1) * limit := by
  induction k with
  | zero =>
      refine le_trans (List.countP_mono_left fun e _ he => ?_) ((h first).trans (by omega))
      obtain ⟨hp, hstart⟩ : p e = true ∧ start width (time e) = first := by simpa using he
      simp [hp, hstart]
  | succ k ih =>
      -- the last window, and the ones before it
      have hsplit := countP_or_le
        (fun e => p e && decide (∃ i ≤ k, start width (time e) = first + i * width))
        (fun e => p e && decide (start width (time e) = first + (k + 1 : ℕ) * width)) events
      have hlast := h (first + (k + 1 : ℕ) * width)
      have hsum : (k + 1 + 1) * limit = (k + 1) * limit + limit := by ring
      refine le_trans (List.countP_mono_left fun e _ he => ?_)
        (hsplit.trans ((Nat.add_le_add ih hlast).trans hsum.ge))
      rw [Bool.and_eq_true, decide_eq_true_eq] at he
      obtain ⟨hp, i, hi, hstart⟩ := he
      rw [Bool.or_eq_true, Bool.and_eq_true, Bool.and_eq_true, decide_eq_true_eq,
        decide_eq_true_eq]
      rcases Nat.lt_or_ge i (k + 1) with hbefore | hi'
      · exact .inl ⟨hp, i, by omega, hstart⟩
      · obtain rfl : i = k + 1 := by omega
        exact .inr ⟨hp, hstart⟩

/-- **Intervals.**  At most `limit` events in each window are at most `(k + 1) * limit` in an
interval as long as `k` windows, wherever it begins. -/
theorem countP_interval_le (hwidth : 0 < width)
    (h : ∀ window, (events.countP fun e => p e && decide (start width (time e) = window)) ≤ limit)
    (a : ℤ) (k : ℕ) :
    (events.countP fun e => p e && decide (a ≤ time e ∧ time e < a + k * width)) ≤
      (k + 1) * limit := by
  refine le_trans (List.countP_mono_left fun e _ he => ?_)
    (countP_windows_le h (start width a) k)
  rw [Bool.and_eq_true, decide_eq_true_eq] at he ⊢
  exact ⟨he.1, start_of_interval hwidth he.2.1 he.2.2⟩

end Count

/-! ### Ranks -/

section Ranks

variable {ε κ : Type} [DecidableEq κ] {label : ε → κ} {rank : ε → ℕ}

/-- Each event is told its rank among those with its label; the newest event comes first. -/
def Counted (label : ε → κ) (rank : ε → ℕ) : List ε → Prop
  | [] => True
  | e :: before =>
      rank e = (before.countP fun old => label old = label e) + 1 ∧ Counted label rank before

/-- **Exactly the first ones.**  Of the events with a label, the smaller of their number and the
limit have a rank within the limit. -/
theorem Counted.countP_allowed {events : List ε} (h : Counted label rank events) (k : κ)
    (limit : ℕ) :
    (events.countP fun e => decide (label e = k) && decide (rank e ≤ limit)) =
      min limit (events.countP fun e => label e = k) := by
  induction events with
  | nil => simp
  | cons e before ih =>
      obtain ⟨hrank, hbefore⟩ := h
      rw [List.countP_cons, List.countP_cons, ih hbefore]
      by_cases hlabel : label e = k
      · rw [hlabel] at hrank
        simp only [hlabel, decide_true, Bool.true_and, if_true, decide_eq_true_eq]
        split <;> omega
      · simp [hlabel]

end Ranks

end FixedWindow
