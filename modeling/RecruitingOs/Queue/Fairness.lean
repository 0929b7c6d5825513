import RecruitingOs.Queue.Calls
import RecruitingOs.Queue.Selection

/-!
# Fairness between tenants

`leaseNext` serves the tenant that was served longest ago, and writes the time of each
lease to `tenant_queue_state`.  So a tenant that always has an eligible job waits for one
turn of each other tenant, as long as the clock of the leases strictly increases.

A tenant that was never served counts as served at 1970-01-01T00:00:00.000Z.  The first
lease of another tenant has to read a clock past that moment: at that very moment, or
before it, the two tenants tie or change places.
-/

namespace RecruitingOs

namespace SqliteJobQueue

variable {digest : String → String} {q q' : Queue} {c : ℤ × QueueCall} {tenant : String}

/-- The clock that a `leaseNext` reads. -/
def leaseClock (c : ℤ × QueueCall) : Option Readings :=
  match c.2 with
  | .leaseNext _ _ clock => some clock
  | _ => none

/-- The call leases a job of the tenant. -/
def Leases (q : Queue) (c : ℤ × QueueCall) (tenant : String) : Prop :=
  ∃ workerId id clock, c.2 = .leaseNext workerId (some id) clock ∧
    ∃ row ∈ q.jobs, row.id = id ∧ row.tenantId = tenant

/-- The tenant has an eligible job when the call selects, if the call is a `leaseNext`. -/
def Ready (q : Queue) (c : ℤ × QueueCall) (tenant : String) : Prop :=
  ∀ clock, leaseClock c = some clock →
    ∃ row ∈ candidates clock (sweep clock q.jobs), row.tenantId = tenant

/-- The `i`-th call of the run leases a job of the tenant. -/
def LeasedAt (digest : String → String) (run : List (ℤ × QueueCall)) (i : ℕ)
    (tenant : String) : Prop :=
  ∃ q c, Transition.exec (step digest) Queue.empty (run.take i) = some q ∧ run[i]? = some c ∧
    Leases q c tenant

/-- The tenant has an eligible job at the `i`-th call of the run, if it is a `leaseNext`. -/
def ReadyAt (digest : String → String) (run : List (ℤ × QueueCall)) (i : ℕ)
    (tenant : String) : Prop :=
  ∀ q c, Transition.exec (step digest) Queue.empty (run.take i) = some q → run[i]? = some c →
    Ready q c tenant

/-- The `leaseNext` calls of the run read strictly increasing clock values. -/
def StrictLeases (run : List (ℤ × QueueCall)) : Prop :=
  run.Pairwise fun c d =>
    ∀ a b, leaseClock c = some a → leaseClock d = some b → a.finish < b.start

/-! ### What the queue remembers of a tenant -/

/-- `last_leased_at` of the tenant. -/
def lastServed (q : Queue) (tenant : String) : Option ℤ := q.tenantQueueState.lookup tenant

theorem lastLeased_eq (row : JobRow) : q.lastLeased row = (lastServed q row.tenantId).getD 0 := rfl

theorem lookup_filter_ne {entries : List (String × ℤ)} {served : String} (h : tenant ≠ served) :
    (entries.filter (·.1 ≠ served)).lookup tenant = entries.lookup tenant := by
  induction entries with
  | nil => rfl
  | cons entry entries ih =>
      by_cases hserved : entry.1 = served
      · rw [List.filter_cons_of_neg (by simp [hserved]), ih, List.lookup_cons,
          beq_eq_false_iff_ne.mpr (hserved ▸ h)]
      · rw [List.filter_cons_of_pos (by simp [hserved]), List.lookup_cons, List.lookup_cons, ih]

theorem lookup_touchTenant (served : String) (now : ℤ) :
    (q.touchTenant served now).lookup tenant =
      if tenant = served then some now else lastServed q tenant := by
  rw [Queue.touchTenant, List.lookup_cons]
  by_cases h : tenant = served
  · rw [if_pos h, beq_iff_eq.mpr h]
  · rw [if_neg h, beq_eq_false_iff_ne.mpr h, lookup_filter_ne h]
    rfl

/-- Only `leaseNext` writes `tenant_queue_state`. -/
theorem tenantQueueState_step (hs : step digest q c = some q') (hc : leaseClock c = none) :
    q'.tenantQueueState = q.tenantQueueState := by
  obtain ⟨leaseSeconds, call⟩ := c
  have hsettled : ∀ {result : Except QueueError Queue},
      (∀ u, result = .ok u → u.tenantQueueState = q.tenantQueueState) →
      (settled q result).tenantQueueState = q.tenantQueueState := by
    intro result hok
    cases result with
    | error e => rfl
    | ok u => exact hok u rfl
  cases call with
  | enqueue input clock =>
      cases hs
      refine hsettled fun u hu => ?_
      cases henq : enqueue digest q input clock with
      | error e => rw [henq] at hu; cases hu
      | ok out =>
          obtain ⟨v, job⟩ := out
          obtain ⟨jobs, -, rfl, -⟩ := enqueue_ok henq
          rw [henq] at hu
          cases hu
          rfl
  | cancelPending input clock => cases hs; rfl
  | leaseNext workerId pick clock => cases hc
  | renewLease job clock =>
      cases hs
      simp only [renewLease]
      split
      · split <;> rfl
      · rfl
  | complete job clock =>
      cases hs
      refine hsettled fun u hu => ?_
      obtain ⟨_, _, -, -, -, rfl⟩ := complete_ok hu
      rfl
  | fail job message clock =>
      cases hs
      refine hsettled fun u hu => ?_
      obtain ⟨_, _, -, -, -, rfl⟩ := fail_ok hu
      rfl

/-- A call that leases writes the clock of its tenant, and no other call writes any. -/
theorem lastServed_step (hnodup : (q.jobs.map JobRow.id).Nodup) (hs : step digest q c = some q') :
    ((∀ t, ¬ Leases q c t) ∧ ∀ t, lastServed q' t = lastServed q t) ∨
      ∃ picked clock, leaseClock c = some clock ∧
        q.isNext (candidates clock (sweep clock q.jobs)) picked ∧
        (∀ t, Leases q c t ↔ t = picked.tenantId) ∧
        ∀ t, lastServed q' t =
          if t = picked.tenantId then some (clock.nth 8) else lastServed q t := by
  cases hclock : leaseClock c with
  | none =>
      left
      constructor
      · rintro t ⟨workerId, id, clock, hcall, -⟩
        rw [leaseClock, hcall] at hclock
        cases hclock
      · intro t
        rw [lastServed, tenantQueueState_step hs hclock, lastServed]
  | some clock =>
      obtain ⟨leaseSeconds, call⟩ := c
      cases call with
      | leaseNext workerId pick clock' =>
          obtain rfl : clock' = clock := Option.some_inj.mp hclock
          simp only [step, Option.map_eq_some_iff] at hs
          obtain ⟨⟨u, out⟩, hlease, rfl⟩ := hs
          rcases leaseNext_pick hnodup hlease with
            ⟨rfl, -, -, rfl⟩ | ⟨picked, hpicked, rfl, hnext, -, -, htouched⟩
          · left
            refine ⟨?_, fun t => rfl⟩
            rintro t ⟨_, id, _, hcall, -⟩
            cases hcall
          · right
            refine ⟨picked, clock', rfl, hnext, fun t => ⟨?_, ?_⟩, fun t => ?_⟩
            · rintro ⟨_, id, _, hcall, row, hrow, hid, htenant⟩
              cases hcall
              rw [← htenant, Table.eq_of_key_eq hnodup hrow hpicked hid]
            · rintro rfl
              exact ⟨workerId, picked.id, clock', rfl, picked, hpicked, rfl, rfl⟩
            · rw [lastServed, htouched, lookup_touchTenant]
      | enqueue _ _ | cancelPending _ _ | renewLease _ _ | complete _ _ | fail _ _ _ => cases hclock

/-! ### Two leases of one tenant -/

section Run

variable {run : List (ℤ × QueueCall)} {i k : ℕ} {A B : String} {final : Queue}

/-- The state before a call and the step that the call takes. -/
theorem exists_step (hrun : Transition.exec (step digest) Queue.empty run = some final)
    (hc : run[i]? = some c) :
    ∃ u v, Transition.exec (step digest) Queue.empty (run.take i) = some u ∧ Reached digest u ∧
      step digest u c = some v ∧
      Transition.exec (step digest) Queue.empty (run.take (i + 1)) = some v := by
  obtain ⟨u, v, hu, hstep, hv⟩ := Transition.exec_take_succ hrun hc
  exact ⟨u, v, hu, Transition.Reachable.of_exec (.start rfl) hu, hstep, hv⟩

theorem StrictLeases.lt (h : StrictLeases run) {c d : ℤ × QueueCall} {j : ℕ} (hij : i < j)
    (hc : run[i]? = some c) (hd : run[j]? = some d) {a b : Readings} (ha : leaseClock c = some a)
    (hb : leaseClock d = some b) : a.finish < b.start := by
  obtain ⟨hi, rfl⟩ := List.getElem?_eq_some_iff.mp hc
  obtain ⟨hj, rfl⟩ := List.getElem?_eq_some_iff.mp hd
  exact List.pairwise_iff_getElem.mp h i j hi hj hij a b ha hb

/-- Before a `leaseNext`, every tenant was served at an earlier clock. -/
theorem lastServed_lt (hrun : Transition.exec (step digest) Queue.empty run = some final)
    (hstrict : StrictLeases run) {clock : Readings} (hc : run[k]? = some c)
    (hclock : leaseClock c = some clock) :
    ∀ {i : ℕ} {u : Queue}, i ≤ k →
      Transition.exec (step digest) Queue.empty (run.take i) = some u →
      ∀ t served, lastServed u t = some served → served < clock.start := by
  intro i
  induction i with
  | zero =>
      intro u _ hu t served hserved
      cases hu
      cases hserved
  | succ i ih =>
      intro v hik hv t served hserved
      obtain ⟨d, hd⟩ : ∃ d, run[i]? = some d := by
        have hlength := (List.getElem?_eq_some_iff.mp hc).1
        exact ⟨_, List.getElem?_eq_getElem (by omega)⟩
      obtain ⟨u, v', hu, hreached, hstep, hv'⟩ := exists_step hrun hd
      obtain rfl : v' = v := Option.some_inj.mp (hv'.symm.trans hv)
      have hbefore := ih (by omega) hu t
      rcases lastServed_step hreached.sound.nodup_id hstep with ⟨-, hkept⟩ | hleased
      · exact hbefore served (hkept t ▸ hserved)
      · obtain ⟨picked, earlier, hearlier, -, -, htouched⟩ := hleased
        rw [htouched] at hserved
        split at hserved
        · obtain rfl := Option.some_inj.mp hserved
          have hlt := hstrict.lt (by omega) hd hc hearlier hclock
          exact (earlier.nth_le_finish 8).trans_lt hlt
        · exact hbefore served hserved

/-- After a lease of `A`, and as long as `B` is not served, `A` was served at the clock
of that lease or later and `B` before it. -/
theorem served_order (hAB : A ≠ B)
    (hrun : Transition.exec (step digest) Queue.empty run = some final)
    (hstrict : StrictLeases run) (hA : LeasedAt digest run i A) {clock : Readings}
    (hc : run[i]? = some c) (hclock : leaseClock c = some clock) :
    ∀ {k : ℕ} {u : Queue}, i < k → k ≤ run.length →
      (∀ j, i < j → j < k → ¬ LeasedAt digest run j B) →
      Transition.exec (step digest) Queue.empty (run.take k) = some u →
      (∃ served, lastServed u A = some served ∧ clock.start ≤ served) ∧
        ∀ served, lastServed u B = some served → served < clock.start := by
  intro k
  induction k with
  | zero => intro u hik; exact absurd hik (Nat.not_lt_zero i)
  | succ k ih =>
      intro v hik hlength hnone hv
      obtain ⟨d, hd⟩ : ∃ d, run[k]? = some d := ⟨_, List.getElem?_eq_getElem (by omega)⟩
      obtain ⟨u, v', hu, hreached, hstep, hv'⟩ := exists_step hrun hd
      obtain rfl : v' = v := Option.some_inj.mp (hv'.symm.trans hv)
      have hserved := lastServed_step hreached.sound.nodup_id hstep
      rcases Nat.lt_succ_iff_lt_or_eq.mp hik with hlt | rfl
      · -- a later call, which does not lease a job of `B`
        obtain ⟨⟨servedA, hservedA, hle⟩, hB⟩ := ih hlt (by omega)
          (fun j hij hjk => hnone j hij (by omega)) hu
        rcases hserved with ⟨-, hkept⟩ | ⟨picked, later, hlater, -, hleases, htouched⟩
        · refine ⟨⟨servedA, by rw [hkept, hservedA], hle⟩, fun served h => ?_⟩
          exact hB served (hkept B ▸ h)
        · have hother : B ≠ picked.tenantId := fun h =>
            hnone k hlt (Nat.lt_succ_self k) ⟨u, d, hu, hd, (hleases B).mpr h⟩
          refine ⟨?_, fun served h => hB served ?_⟩
          · rw [htouched]
            split
            · have hclocks := hstrict.lt hlt hc hd hclock hlater
              have hstart := clock.start_le_finish
              have hnth := later.start_le_nth 8
              exact ⟨_, rfl, by omega⟩
            · exact ⟨servedA, hservedA, hle⟩
          · rw [htouched, if_neg hother] at h
            exact h
      · -- the lease of `A` itself
        obtain rfl : d = c := Option.some_inj.mp (hd.symm.trans hc)
        obtain ⟨u', d', hu', hd', hleasesA⟩ := hA
        obtain rfl : u' = u := Option.some_inj.mp (hu'.symm.trans hu)
        obtain rfl : d' = d := Option.some_inj.mp (hd'.symm.trans hd)
        rcases hserved with ⟨hnot, -⟩ | ⟨picked, clock', hclock', -, hleases, htouched⟩
        · exact absurd hleasesA (hnot A)
        · obtain rfl : clock' = clock := Option.some_inj.mp (hclock'.symm.trans hclock)
          have hpicked : A = picked.tenantId := (hleases A).mp hleasesA
          refine ⟨⟨_, by rw [htouched, if_pos hpicked], clock'.start_le_nth 8⟩, ?_⟩
          intro served h
          rw [htouched, if_neg (hpicked ▸ hAB.symm)] at h
          exact lastServed_lt hrun hstrict hd hclock le_rfl hu B served h

/-- **Fairness between tenants.**  In a run whose `leaseNext` calls read strictly
increasing clock values, let `A` be leased a job by the `i`-th call, past
1970-01-01T00:00:00.000Z, and again by the `k`-th one.  If `B` has an eligible job at every
`leaseNext` from the one to the other, then a call in between leases a job of `B`. -/
theorem tenant_fairness (hAB : A ≠ B)
    (hrun : Transition.exec (step digest) Queue.empty run = some final)
    (hstrict : StrictLeases run) (hik : i < k)
    (hepoch : ∀ c clock, run[i]? = some c → leaseClock c = some clock → 0 < clock.start)
    (hready : ∀ j, i ≤ j → j ≤ k → ReadyAt digest run j B)
    (hfirst : LeasedAt digest run i A) (hsecond : LeasedAt digest run k A) :
    ∃ j, i < j ∧ j < k ∧ LeasedAt digest run j B := by
  by_contra hnone
  have hnever : ∀ j, i < j → j < k → ¬ LeasedAt digest run j B :=
    fun j hij hjk hleased => hnone ⟨j, hij, hjk, hleased⟩
  obtain ⟨_, c, _, hc, hleases⟩ := id hfirst
  obtain ⟨u, d, hu, hd, hleases'⟩ := hsecond
  obtain ⟨clock, hclock⟩ : ∃ clock, leaseClock c = some clock := by
    obtain ⟨_, _, clock, hcall, -⟩ := hleases
    exact ⟨clock, by rw [leaseClock, hcall]⟩
  have hlength : k ≤ run.length := (List.getElem?_eq_some_iff.mp hd).1.le
  obtain ⟨⟨servedA, hA, hle⟩, hB⟩ :=
    served_order hAB hrun hstrict hfirst hc hclock hik hlength hnever hu
  obtain ⟨u', v, hu', hreached, hstep, -⟩ := exists_step hrun hd
  obtain rfl : u' = u := Option.some_inj.mp (hu'.symm.trans hu)
  rcases lastServed_step hreached.sound.nodup_id hstep with ⟨hnot, -⟩ | hleased
  · exact hnot A hleases'
  · obtain ⟨picked, clock', hclock', hnext, hpicked, -⟩ := hleased
    obtain ⟨row, hrow, htenant⟩ := hready k hik.le le_rfl u' d hu hd clock' hclock'
    -- `A` was served later than `B`, so the selection does not answer a job of `A`
    have horder := Queue.lastLeased_le_of_isNext hnext hrow
    rw [lastLeased_eq, lastLeased_eq, ← (hpicked A).mp hleases', htenant, hA,
      Option.getD_some] at horder
    cases hserved : lastServed u' B with
    | none =>
        have hpast := hepoch c clock hc hclock
        rw [hserved, Option.getD_none] at horder
        omega
    | some servedB =>
        have hlt := hB servedB hserved
        rw [hserved, Option.getD_some] at horder
        omega

end Run

/-- Two jobs of one tenant and two less urgent ones of another; the first lease reads the
clock `now`. -/
def twoTenants (now : ℤ) : List (ℤ × QueueCall) :=
  [(60, .enqueue ⟨"A", "demo", "k", .obj [], some 1, none, some 0⟩ ⟨0, []⟩),
    (60, .enqueue ⟨"A", "demo", "l", .obj [], some 1, none, some 0⟩ ⟨0, []⟩),
    (60, .enqueue ⟨"B", "demo", "k", .obj [], some 2, none, some 0⟩ ⟨0, []⟩),
    (60, .enqueue ⟨"B", "demo", "l", .obj [], some 2, none, some 0⟩ ⟨0, []⟩),
    (60, .leaseNext "w" (some "job_A:demo:k") ⟨now, []⟩)]

/-- Past that moment, the other tenant has its turn. -/
theorem tenant_fairness_twoTenants :
    ∃ run final, Transition.exec (step id) Queue.empty run = some final ∧
      LeasedAt id run 4 "A" ∧ LeasedAt id run 6 "A" ∧
      ∃ j, 4 < j ∧ j < 6 ∧ LeasedAt id run j "B" := by
  obtain ⟨run, hrun⟩ : ∃ run, run = twoTenants 1 ++
      [(60, .leaseNext "w" (some "job_B:demo:k") ⟨2, []⟩),
        (60, .leaseNext "w" (some "job_A:demo:l") ⟨3, []⟩)] := ⟨_, rfl⟩
  obtain ⟨final, hfinal⟩ : ∃ final, Transition.exec (step id) Queue.empty run = some final := by
    rw [hrun]
    exact ⟨_, rfl⟩
  have hfirst : LeasedAt id run 4 "A" := by
    rw [hrun]
    refine ⟨_, _, rfl, rfl, "w", _, _, rfl, ?_⟩
    decide
  have hsecond : LeasedAt id run 6 "A" := by
    rw [hrun]
    refine ⟨_, _, rfl, rfl, "w", _, _, rfl, ?_⟩
    decide
  refine ⟨run, final, hfinal, hfirst, hsecond, ?_⟩
  refine tenant_fairness (by decide) hfinal ?_ (by decide) ?_ ?_ hfirst hsecond
  · rw [hrun]
    simp [StrictLeases, twoTenants, leaseClock, Readings.finish]
  · intro c clock hc hclock
    rw [hrun] at hc
    cases hc
    cases hclock
    decide
  · intro j hj hj' q c hq hc clock hclock
    rw [hrun] at hq hc
    obtain rfl | rfl | rfl : j = 4 ∨ j = 5 ∨ j = 6 := by omega
    · cases hq
      cases hc
      cases hclock
      decide
    · cases hq
      cases hc
      cases hclock
      decide
    · cases hq
      cases hc
      cases hclock
      decide

/-- Served at the very start of 1970, a tenant counts as never served, and is served again
before another one that is ready. -/
theorem not_tenant_fairness_at_epoch :
    ∃ run final, Transition.exec (step id) Queue.empty run = some final ∧ StrictLeases run ∧
      LeasedAt id run 4 "A" ∧ LeasedAt id run 5 "A" ∧
      (∀ j, 4 ≤ j → j ≤ 5 → ReadyAt id run j "B") ∧
      ¬ ∃ j, 4 < j ∧ j < 5 ∧ LeasedAt id run j "B" := by
  refine ⟨twoTenants 0 ++ [(60, .leaseNext "w" (some "job_A:demo:l") ⟨1, []⟩)], _, rfl, ?_,
    ?_, ?_, ?_, ?_⟩
  · simp [StrictLeases, twoTenants, leaseClock, Readings.finish]
  · refine ⟨_, _, rfl, rfl, "w", _, _, rfl, ?_⟩
    decide
  · refine ⟨_, _, rfl, rfl, "w", _, _, rfl, ?_⟩
    decide
  · intro j hj hj' q c hq hc clock hclock
    obtain rfl | rfl : j = 4 ∨ j = 5 := by omega
    · cases hq
      cases hc
      cases hclock
      decide
    · cases hq
      cases hc
      cases hclock
      decide
  · rintro ⟨j, hlow, hhigh, -⟩
    omega

end SqliteJobQueue

end RecruitingOs
