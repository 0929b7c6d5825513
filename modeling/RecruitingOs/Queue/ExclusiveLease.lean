import RecruitingOs.Queue.LeaseJob

/-!
# When `app.lease_job` leases exclusively

`Exclusive` is what the queue promises: no call takes over a lease that has not
expired, and no row counts more attempts than it has.  It fails — `takeover` is a
run of two calls — because the row that the lease query locks may have changed
since it was ranked, and the check of the ranking is not made again.

`Rechecked` is that check, made on the version that is locked at the moment it is
locked.  `exclusive_iff_rechecked` shows that nothing else is wrong: the runs that
keep leases exclusive are those in which every lock would have passed it.

The invariant is `LeaseInv`.  Its core is `Follows`: a row that a call has ranked
and not yet reached is as it was ranked, or was leased or swept since.
-/

namespace RecruitingOs

namespace LeaseRun

open SqliteJobQueue (isExhausted)
open LeaseJob

variable {timestamp : ℤ → String} {s t : LeaseRun} {c d : ℕ} {row : JobRow}

/-- No call has taken over a lease that had not expired, and no version of a row
counts more attempts than the row has. -/
def Exclusive (s : LeaseRun) : Prop :=
  (∀ taken ∈ s.taken, taken.1.leasedUntil.all (· < taken.2)) ∧
    ∀ v ∈ s.jobs, ∀ row ∈ v.versions, row.attemptCount ≤ row.maxAttempts

/-- The version that is locked meets the `where` of `ranked` at that moment. -/
def Rechecked (s : LeaseRun) : LeaseStep → Prop
  | .lock c => ∀ row, s.newest c = some row → row.eligible s.clock s.clock s.clock
  | _ => True

/-- What the queue functions keep of every row. -/
structure RowOk (row : JobRow) : Prop where
  attempts_le : row.attemptCount ≤ row.maxAttempts
  attempts_lt : row.status.pending → row.attemptCount < row.maxAttempts
  leased : row.status = .running → row.leasedUntil.isSome

/-- A table that no call is working on. -/
structure Quiet (s : LeaseRun) : Prop where
  nodup_id : (s.jobs.map fun v => v.committed.id).Nodup
  unlocked : ∀ v ∈ s.jobs, v.pending = none
  rows : ∀ v ∈ s.jobs, RowOk v.committed
  calls : s.calls = []
  taken : s.taken = []

/-- What a call leaves: a row that it has leased, or one that it has swept. -/
def Moved (row : JobRow) : Prop :=
  row.status = .running ∨ (row.status = .deadLetter ∧ row.maxAttempts ≤ row.attemptCount)

/-- The row that call `c` has ranked is as it was, or moved since. -/
def Follows (c : ℕ) (ranked : JobRow) (v : Versioned JobRow) : Prop :=
  (∃ own, v.pending = some (c, own)) ∨ v.committed = ranked ∨ Moved v.committed

/-- The invariant of runs of `app.lease_job`. -/
structure LeaseInv (s : LeaseRun) : Prop where
  nodup_id : (s.jobs.map fun v => v.committed.id).Nodup
  version_id : ∀ v ∈ s.jobs, ∀ row ∈ v.versions, row.id = v.committed.id
  rows : ∀ v ∈ s.jobs, ∀ row ∈ v.versions, RowOk row
  moved : ∀ v ∈ s.jobs, ∀ owner row, v.pending = some (owner, row) → Moved row
  nodup_call : (s.calls.map LeaseCall.id).Nodup
  now_le : ∀ call ∈ s.calls, call.now ≤ s.clock
  ranked : ∀ call ∈ s.calls, ∀ ranking, call.phase = .scanning ranking → ∀ first ∈ ranking,
    first.eligible call.now call.now call.now ∧
      ∀ v ∈ s.jobs, v.committed.id = first.id → Follows call.id first v
  taken : ∀ taken ∈ s.taken, taken.1.leasedUntil.all (· < taken.2)

theorem Quiet.inv (h : Quiet s) : LeaseInv s := by
  have hversion : ∀ v ∈ s.jobs, ∀ row ∈ v.versions, row = v.committed := by
    intro v hv row hrow
    rcases Versioned.mem_versions.mp hrow with hsame | ⟨owner, hp⟩
    · exact hsame
    · rw [h.unlocked v hv] at hp
      cases hp
  refine ⟨h.nodup_id, ?_, ?_, ?_, ?_, ?_, ?_, ?_⟩
  · intro v hv row hrow
    rw [hversion v hv row hrow]
  · intro v hv row hrow
    rw [hversion v hv row hrow]
    exact h.rows v hv
  · intro v hv owner row hp
    rw [h.unlocked v hv] at hp
    cases hp
  · rw [h.calls]
    exact List.nodup_nil
  · rw [h.calls]
    intro call hcall
    cases hcall
  · rw [h.calls]
    intro call hcall
    cases hcall
  · rw [h.taken]
    intro taken htaken
    cases htaken

theorem LeaseInv.exclusive (h : LeaseInv s) : Exclusive s :=
  ⟨h.taken, fun v hv row hrow => (h.rows v hv row hrow).attempts_le⟩

/-! ### Looking things up -/

theorem call?_some {call : LeaseCall} (h : s.call? c = some call) :
    call ∈ s.calls ∧ call.id = c :=
  ⟨List.mem_of_find?_eq_some h, by simpa using List.find?_some h⟩

theorem row?_filter_some {id : String} {v : Versioned JobRow}
    (h : (s.row? id).filter (Versioned.free c) = some v) :
    v ∈ s.jobs ∧ v.committed.id = id ∧ v.free c := by
  obtain ⟨hfind, hfree⟩ := Option.filter_eq_some_iff.mp h
  exact ⟨List.mem_of_find?_eq_some hfind, by simpa using List.find?_some hfind, hfree⟩

/-- The row that a call is about to lock. -/
theorem newest_some (h : s.newest c = some row) :
    ∃ call first ranking v, call ∈ s.calls ∧ call.id = c ∧
      call.phase = .scanning (first :: ranking) ∧ v ∈ s.jobs ∧ v.committed.id = first.id ∧
      v.free c ∧ row = v.seen c := by
  unfold LeaseRun.newest at h
  split at h
  · rename_i id worker leaseSeconds now first ranking hcall
    obtain ⟨v, hv, rfl⟩ := Option.map_eq_some_iff.mp h
    obtain ⟨hmem, hid⟩ := call?_some hcall
    obtain ⟨hvmem, hvid, hfree⟩ := row?_filter_some hv
    exact ⟨_, first, ranking, v, hmem, hid, rfl, hvmem, hvid, hfree, rfl⟩
  · cases h

/-! ### Eligible rows -/

/-- The `where` of `ranked`. -/
theorem eligible_iff {now : ℤ} :
    row.eligible now now now ↔
      (row.status.pending ∧ row.availableAt ≤ now ∧ ∀ u, row.leasedUntil = some u → u < now) ∨
      (row.status = .running ∧ (∃ u, row.leasedUntil = some u ∧ u < now) ∧
        row.attemptCount < row.maxAttempts) := by
  simp [JobRow.eligible, Option.any_eq_true, Option.all_eq_true]

/-- An eligible row stays eligible as the clock advances. -/
theorem eligible_mono {now later : ℤ} (hle : now ≤ later) (h : row.eligible now now now) :
    row.eligible later later later := by
  rw [eligible_iff] at h ⊢
  rcases h with ⟨hpending, havailable, hlease⟩ | ⟨hrunning, ⟨u, hu, hlt⟩, hattempts⟩
  · left
    refine ⟨hpending, havailable.trans hle, ?_⟩
    intro u hu
    exact (hlease u hu).trans_le hle
  · right
    exact ⟨hrunning, ⟨u, hu, hlt.trans_le hle⟩, hattempts⟩

/-- The lease of an eligible row is over. -/
theorem expired_of_eligible {now : ℤ} (h : row.eligible now now now) :
    row.leasedUntil.all (· < now) := by
  rw [Option.all_eq_true]
  intro u hu
  apply decide_eq_true
  rcases eligible_iff.mp h with ⟨-, -, hlease⟩ | ⟨-, ⟨u', hu', hlt⟩, -⟩
  · exact hlease u hu
  · rw [hu, Option.some_inj] at hu'
    omega

/-- An eligible row has an attempt left. -/
theorem RowOk.attempts_left {now : ℤ} (h : RowOk row) (he : row.eligible now now now) :
    row.attemptCount < row.maxAttempts := by
  rcases eligible_iff.mp he with ⟨hpending, -, -⟩ | ⟨-, -, hlt⟩
  · exact h.attempts_lt hpending
  · exact hlt

/-- A row that has moved and whose takeover breaks nothing is eligible. -/
theorem Moved.eligible {now : ℤ} (h : Moved row) (hok : RowOk row)
    (hexpired : row.leasedUntil.all (· < now)) (hlt : row.attemptCount < row.maxAttempts) :
    row.eligible now now now := by
  rcases h with hrunning | ⟨-, hle⟩
  · obtain ⟨u, hu⟩ := Option.isSome_iff_exists.mp (hok.leased hrunning)
    rw [Option.all_eq_true] at hexpired
    exact eligible_iff.mpr (.inr ⟨hrunning, ⟨u, hu, of_decide_eq_true (hexpired u hu)⟩, hlt⟩)
  · omega

/-! ### What the invariant survives -/

/-- A step that changes only phases, and moves no call to a ranking. -/
theorem LeaseInv.setPhase (h : LeaseInv s) {phase : LeasePhase}
    (hphase : ∀ ranking, phase = .scanning ranking → ∀ call ∈ s.calls, call.id = c →
      ∀ first ∈ ranking, first.eligible call.now call.now call.now ∧
        ∀ v ∈ s.jobs, v.committed.id = first.id → Follows c first v) :
    LeaseInv (s.setPhase c phase) := by
  have hmem : ∀ call ∈ (s.setPhase c phase).calls, call ∈ s.calls ∨
      ∃ old ∈ s.calls, old.id = c ∧ call = { old with phase := phase } := by
    intro call hcall
    obtain ⟨old, hold, rfl⟩ := Table.mem_updateWhere.mp hcall
    by_cases hid : old.id = c
    · right
      exact ⟨old, hold, hid, by simp [hid]⟩
    · left
      simpa [hid] using hold
  exact
    { h with
      nodup_call := by
        have hkey : (s.setPhase c phase).calls.map LeaseCall.id = s.calls.map LeaseCall.id :=
          Table.map_key_updateWhere LeaseCall.id fun _ _ _ => rfl
        rw [hkey]
        exact h.nodup_call
      now_le := by
        intro call hcall
        rcases hmem call hcall with hold | ⟨old, hold, -, rfl⟩
        · exact h.now_le call hold
        · exact h.now_le old hold
      ranked := by
        intro call hcall ranking hranking first hfirst
        rcases hmem call hcall with hold | ⟨old, hold, hid, rfl⟩
        · exact h.ranked call hold ranking hranking first hfirst
        · obtain ⟨heligible, hfollows⟩ := hphase ranking hranking old hold hid first hfirst
          refine ⟨heligible, fun v hv hvid => ?_⟩
          show Follows old.id first v
          rw [hid]
          exact hfollows v hv hvid }

/-- A new call, which has not ranked yet. -/
theorem LeaseInv.start (h : LeaseInv s) {call : LeaseCall} (hnone : s.call? call.id = none)
    (hnow : call.now = s.clock) (hphase : ∀ ranking, call.phase ≠ .scanning ranking) :
    LeaseInv { s with calls := call :: s.calls } :=
  { h with
    nodup_call := by
      refine List.nodup_cons.mpr ⟨?_, h.nodup_call⟩
      intro hmem
      obtain ⟨old, hold, hid⟩ := List.mem_map.mp hmem
      have hne := List.find?_eq_none.mp hnone old hold
      exact hne (decide_eq_true hid)
    now_le := by
      intro other hother
      rcases List.mem_cons.mp hother with rfl | hold
      · exact hnow.le
      · exact h.now_le other hold
    ranked := by
      intro other hother ranking hranking
      rcases List.mem_cons.mp hother with rfl | hold
      · exact absurd hranking (hphase ranking)
      · exact h.ranked other hold ranking hranking }

/-- **Writing a row** that no other transaction has locked. -/
theorem LeaseInv.write (h : LeaseInv s) {v : Versioned JobRow} (hv : v ∈ s.jobs)
    (hfree : v.free c) {f : JobRow → JobRow} (hid : (f (v.seen c)).id = v.committed.id)
    (hok : RowOk (f (v.seen c))) (hmoved : Moved (f (v.seen c))) :
    LeaseInv (s.writeRow c v.committed.id f) := by
  have hmem : ∀ w ∈ (s.writeRow c v.committed.id f).jobs, w ∈ s.jobs ∨ w = v.write c f := by
    intro w hw
    obtain ⟨old, hold, rfl⟩ := Table.mem_updateWhere.mp hw
    by_cases hsame : old.committed.id = v.committed.id
    · right
      rw [if_pos (decide_eq_true hsame)]
      rw [Table.eq_of_key_eq h.nodup_id hold hv hsame]
    · left
      simpa [hsame] using hold
  refine ⟨?_, ?_, ?_, ?_, h.nodup_call, h.now_le, ?_, h.taken⟩
  · show ((Table.updateWhere _ _ s.jobs).map _).Nodup
    rw [Table.map_key_updateWhere (f := Versioned.write c f)
      (fun w : Versioned JobRow => w.committed.id) fun w _ _ => rfl]
    exact h.nodup_id
  · intro w hw row hrow
    rcases hmem w hw with hold | rfl
    · exact h.version_id w hold row hrow
    · rcases Versioned.mem_versions_write hrow with hrow | rfl
      · exact h.version_id v hv row hrow
      · exact hid
  · intro w hw row hrow
    rcases hmem w hw with hold | rfl
    · exact h.rows w hold row hrow
    · rcases Versioned.mem_versions_write hrow with hrow | rfl
      · exact h.rows v hv row hrow
      · exact hok
  · intro w hw owner row hp
    rcases hmem w hw with hold | rfl
    · exact h.moved w hold owner row hp
    · rw [Versioned.pending_write, Option.some_inj, Prod.mk.injEq] at hp
      rw [← hp.2]
      exact hmoved
  · intro call hcall ranking hranking first hfirst
    obtain ⟨heligible, hfollows⟩ := h.ranked call hcall ranking hranking first hfirst
    refine ⟨heligible, fun w hw hwid => ?_⟩
    rcases hmem w hw with hold | rfl
    · exact hfollows w hold hwid
    · -- a row that `call` has locked is free for the writer only if they are one
      rcases hfollows v hv hwid with ⟨own, hp⟩ | hrest
      · have howner : call.id = c := by
          rw [Versioned.free, hp] at hfree
          simpa using hfree
        left
        exact ⟨_, by rw [howner]; rfl⟩
      · exact .inr hrest

/-- **Ending a transaction**: its versions become the committed ones, or go. -/
theorem LeaseInv.finish (h : LeaseInv s) {jobs : List (Versioned JobRow)}
    {g : Versioned JobRow → Versioned JobRow} (hjobs : jobs = s.jobs.map g)
    (hg : ∀ v ∈ s.jobs, g v = v ∨ ∃ row, v.pending = some (c, row) ∧
      (g v = ⟨row, none⟩ ∨ g v = ⟨v.committed, none⟩)) :
    LeaseInv { s with jobs := jobs, calls := s.calls.filter fun other => other.id ≠ c } := by
  have hversions : ∀ v ∈ s.jobs, ∀ row ∈ (g v).versions, row ∈ v.versions := by
    intro v hv row hrow
    rcases hg v hv with hsame | ⟨new, hp, hnew | hnew⟩
    · rwa [hsame] at hrow
    · rw [hnew, Versioned.versions, Option.map_none, Option.toList_none,
        List.mem_singleton] at hrow
      exact Versioned.mem_versions.mpr (.inr ⟨c, hrow ▸ hp⟩)
    · rw [hnew, Versioned.versions, Option.map_none, Option.toList_none,
        List.mem_singleton] at hrow
      exact hrow ▸ v.committed_mem_versions
  have hcommitted : ∀ v ∈ s.jobs, (g v).committed.id = v.committed.id := by
    intro v hv
    exact h.version_id v hv _ (hversions v hv _ (g v).committed_mem_versions)
  subst hjobs
  refine ⟨?_, ?_, ?_, ?_, Table.nodup_key_filter h.nodup_call _, ?_, ?_, h.taken⟩
  · have hkey : (s.jobs.map g).map (fun v => v.committed.id) =
        s.jobs.map fun v => v.committed.id := by
      rw [List.map_map]
      exact List.map_congr_left hcommitted
    show ((s.jobs.map g).map _).Nodup
    rw [hkey]
    exact h.nodup_id
  · intro w hw row hrow
    obtain ⟨v, hv, rfl⟩ := List.mem_map.mp hw
    rw [hcommitted v hv]
    exact h.version_id v hv row (hversions v hv row hrow)
  · intro w hw row hrow
    obtain ⟨v, hv, rfl⟩ := List.mem_map.mp hw
    exact h.rows v hv row (hversions v hv row hrow)
  · intro w hw owner row hp
    obtain ⟨v, hv, rfl⟩ := List.mem_map.mp hw
    rcases hg v hv with hsame | ⟨new, -, hnew | hnew⟩
    · rw [hsame] at hp
      exact h.moved v hv owner row hp
    · rw [hnew] at hp
      cases hp
    · rw [hnew] at hp
      cases hp
  · intro call hcall
    exact h.now_le call (List.mem_filter.mp hcall).1
  · intro call hcall ranking hranking first hfirst
    obtain ⟨hmem, hne⟩ := List.mem_filter.mp hcall
    obtain ⟨heligible, hfollows⟩ := h.ranked call hmem ranking hranking first hfirst
    refine ⟨heligible, ?_⟩
    intro w hw hwid
    obtain ⟨v, hv, rfl⟩ := List.mem_map.mp hw
    rw [hcommitted v hv] at hwid
    rcases hg v hv with hsame | ⟨new, hp, hnew | hnew⟩
    · rw [hsame]
      exact hfollows v hv hwid
    · rw [hnew]
      exact .inr (.inr (h.moved v hv c new hp))
    · rw [hnew]
      rcases hfollows v hv hwid with ⟨own, hown⟩ | hrest
      · rw [hp, Option.some_inj, Prod.mk.injEq] at hown
        exact absurd hown.1.symm (of_decide_eq_true hne)
      · exact .inr hrest

/-! ### The steps -/

/-- The row that is about to be locked is as it was ranked, or has moved. -/
theorem LeaseInv.newest_cases (h : LeaseInv s) (hn : s.newest c = some row) :
    RowOk row ∧ (row.eligible s.clock s.clock s.clock ∨ Moved row) := by
  obtain ⟨call, first, ranking, v, hcall, hid, hphase, hv, hvid, hfree, rfl⟩ := newest_some hn
  refine ⟨h.rows v hv _ (v.seen_mem_versions c), ?_⟩
  obtain ⟨heligible, hfollows⟩ := h.ranked call hcall _ hphase first List.mem_cons_self
  rcases Versioned.seen_eq c v with hseen | hseen
  · rcases hfollows v hv hvid with ⟨own, hp⟩ | hsame | hmoved
    · right
      have hown : v.seen c = own := by simp [Versioned.seen, hp, hid]
      rw [hown]
      exact h.moved v hv _ own hp
    · left
      rw [hseen, hsame]
      exact eligible_mono (h.now_le call hcall) heligible
    · right
      rw [hseen]
      exact hmoved
  · right
    exact h.moved v hv c _ hseen

theorem LeaseInv.lock (h : LeaseInv s) {call : LeaseCall} (hn : s.newest c = some row)
    (he : row.eligible s.clock s.clock s.clock) :
    LeaseInv { ((s.setPhase c (.leased row.tenantId)).writeRow c row.id (leaseRow call s.clock)) with
      taken := (row, s.clock) :: s.taken } := by
  obtain ⟨hok, -⟩ := h.newest_cases hn
  obtain ⟨-, first, ranking, v, -, -, -, hv, hvid, hfree, rfl⟩ := newest_some hn
  have hlt : (v.seen c).attemptCount < (v.seen c).maxAttempts := hok.attempts_left he
  have hrowid : (v.seen c).id = v.committed.id :=
    h.version_id v hv _ (v.seen_mem_versions c)
  have hphase : LeaseInv (s.setPhase c (.leased (v.seen c).tenantId)) :=
    h.setPhase fun ranking hranking => by cases hranking
  have hwrite := hphase.write (f := leaseRow call s.clock) hv hfree hrowid
    { attempts_le := hlt
      attempts_lt := fun hp => by cases hp
      leased := fun _ => rfl } (.inl rfl)
  rw [hrowid]
  exact
    { hwrite with
      taken := by
        intro taken htaken
        rcases List.mem_cons.mp htaken with rfl | hold
        · exact expired_of_eligible he
        · exact h.taken taken hold }

theorem LeaseInv.sweepRow (h : LeaseInv s) {ids : List String} {id : String} {now : ℤ}
    {v : Versioned JobRow} (hv : (s.row? id).filter (Versioned.free c) = some v) :
    LeaseInv (if isExhausted now (v.seen c) then
      (s.setPhase c (.sweeping ids)).writeRow c id (LeaseJob.exhaustRow timestamp now)
      else s.setPhase c (.sweeping ids)) := by
  have hphase : LeaseInv (s.setPhase c (.sweeping ids)) :=
    h.setPhase fun ranking hranking => by cases hranking
  obtain ⟨hmem, rfl, hfree⟩ := row?_filter_some hv
  split
  · rename_i hexhausted
    have hold : RowOk (v.seen c) := h.rows v hmem _ (v.seen_mem_versions c)
    obtain ⟨-, -, hle⟩ := of_decide_eq_true hexhausted
    refine hphase.write hmem hfree ?_ ?_ (.inr ⟨rfl, hle⟩)
    · show (v.seen c).id = v.committed.id
      exact h.version_id v hmem _ (v.seen_mem_versions c)
    · exact
        { attempts_le := hold.attempts_le
          attempts_lt := fun hp => by cases hp
          leased := fun hr => by cases hr }
  · exact hphase

/-- A ranking lists rows that the statement sees, eligible by the call's clock. -/
theorem eligible_of_isRanking {q : Queue} {now : ℤ} {ranking : List JobRow}
    (h : isRanking q now ranking) {first : JobRow} (hfirst : first ∈ ranking) :
    first ∈ q.jobs ∧ first.eligible now now now := by
  have hall := (of_decide_eq_true h).1
  rw [List.all_eq_true] at hall
  have hready := (of_decide_eq_true (hall first hfirst)).1
  exact List.mem_filter.mp hready

theorem LeaseInv.rank (h : LeaseInv s) {call : LeaseCall} {ranking : List JobRow}
    (hcall : s.call? c = some call) (hranking : isRanking (s.seen c) call.now ranking) :
    LeaseInv (s.setPhase c (.scanning ranking)) := by
  obtain ⟨hmemCall, hidCall⟩ := call?_some hcall
  refine h.setPhase ?_
  rintro _ hphase other hother hid first hfirst
  cases hphase
  rw [Table.eq_of_key_eq h.nodup_call hother hmemCall (hid.trans hidCall.symm)]
  obtain ⟨hmem, heligible⟩ := eligible_of_isRanking hranking hfirst
  refine ⟨heligible, ?_⟩
  intro v hv hvid
  obtain ⟨w, hw, rfl⟩ := List.mem_map.mp hmem
  have hsame : v = w :=
    Table.eq_of_key_eq h.nodup_id hv hw (hvid.trans (h.version_id w hw _ (w.seen_mem_versions c)))
  rw [hsame]
  rcases Versioned.seen_eq c w with hseen | hseen
  · exact .inr (.inl hseen.symm)
  · exact .inl ⟨_, hseen⟩

/-- **Every step that would pass the check again keeps the invariant.** -/
theorem LeaseInv.step (h : LeaseInv s) {label : LeaseStep} (hc : Rechecked s label)
    (hs : s.step timestamp label = some t) : LeaseInv t := by
  cases label with
  | tick microseconds =>
      simp only [LeaseRun.step, Option.some_inj] at hs
      subst hs
      refine { h with now_le := fun call hcall => ?_ }
      have hle := h.now_le call hcall
      show call.now ≤ s.clock + microseconds
      omega
  | start c worker leaseSeconds =>
      simp only [LeaseRun.step] at hs
      split at hs
      · rename_i hguard
        cases hs
        exact h.start (Option.isNone_iff_eq_none.mp hguard.1) rfl fun _ habsurd => by cases habsurd
      · cases hs
  | sweepRow c id =>
      simp only [LeaseRun.step] at hs
      split at hs
      · split at hs
        · split at hs
          · rename_i v hv
            cases hs
            exact h.sweepRow hv
          · cases hs
        · cases hs
      · cases hs
  | rank c ranking =>
      simp only [LeaseRun.step] at hs
      split at hs
      · rename_i hcall
        split at hs
        · rename_i hranking
          cases hs
          exact h.rank hcall hranking
        · cases hs
      · cases hs
  | skip c =>
      simp only [LeaseRun.step] at hs
      split at hs
      · rename_i hcall
        split at hs
        · cases hs
          obtain ⟨hmem, hid⟩ := call?_some hcall
          refine h.setPhase ?_
          rintro _ hphase other hother hoid first hfirst
          cases hphase
          rw [Table.eq_of_key_eq h.nodup_call hother hmem (hoid.trans hid.symm)]
          have hranked := h.ranked _ hmem _ rfl first (List.mem_cons_of_mem _ hfirst)
          rw [hid] at hranked
          exact hranked
        · cases hs
      · cases hs
  | lock c =>
      simp only [LeaseRun.step] at hs
      split at hs
      · rename_i call row hcall hn
        cases hs
        exact h.lock hn (hc row hn)
      · cases hs
  | touch c =>
      simp only [LeaseRun.step] at hs
      split at hs
      · split at hs
        · cases hs
        · cases hs
          exact h.setPhase fun _ habsurd => by cases habsurd
      · cases hs
  | commit c =>
      have hfinish : LeaseInv { s with
          jobs := s.jobs.map (Versioned.commit c)
          calls := s.calls.filter fun other => other.id ≠ c } := by
        refine h.finish rfl fun v _ => ?_
        rcases Versioned.commit_cases c v with hsame | ⟨row, hp, hnew⟩
        · exact .inl hsame
        · exact .inr ⟨row, hp, .inl hnew⟩
      simp only [LeaseRun.step] at hs
      split at hs
      · split at hs
        · cases hs
          exact hfinish
        · cases hs
          exact { hfinish with }
        · cases hs
      · cases hs
  | abort c =>
      simp only [LeaseRun.step] at hs
      split at hs
      · cases hs
        refine h.finish rfl fun v _ => ?_
        rcases Versioned.abort_cases c v with hsame | ⟨row, hp, hnew⟩
        · exact .inl hsame
        · exact .inr ⟨row, hp, .inr hnew⟩
      · cases hs

/-- The version that a lock takes over, and the one that it writes, are in the state
after it. -/
theorem lock_some (h : LeaseInv s) (hs : s.step timestamp (.lock c) = some t)
    (hn : s.newest c = some row) :
    (row, s.clock) ∈ t.taken ∧ ∃ call, ∃ v ∈ t.jobs, leaseRow call s.clock row ∈ v.versions := by
  simp only [LeaseRun.step, hn] at hs
  split at hs
  · rename_i call row' hcall hrow
    cases hs
    cases hrow
    refine ⟨List.mem_cons_self, call, ?_⟩
    obtain ⟨-, first, ranking, v, -, -, -, hv, hvid, -, rfl⟩ := newest_some hn
    have hrowid : v.committed.id = (v.seen c).id :=
      (h.version_id v hv _ (v.seen_mem_versions c)).symm
    refine ⟨v.write c (leaseRow call s.clock), ?_, ?_⟩
    · exact Table.mem_updateWhere.mpr ⟨v, hv, if_pos (decide_eq_true hrowid)⟩
    · exact Versioned.mem_versions.mpr (.inr ⟨c, rfl⟩)
  · cases hs

/-- A lock that would not pass the check again breaks the promise at once. -/
theorem LeaseInv.rechecked (h : LeaseInv s) {label : LeaseStep}
    (hs : s.step timestamp label = some t) (ht : Exclusive t) : Rechecked s label := by
  cases label with
  | lock c =>
      intro row hn
      obtain ⟨htaken, call, v, hv, hversion⟩ := lock_some h hs hn
      have hexpired : row.leasedUntil.all (· < s.clock) := ht.1 _ htaken
      have hlt : row.attemptCount + 1 ≤ row.maxAttempts := ht.2 v hv _ hversion
      obtain ⟨hok, heligible | hmoved⟩ := h.newest_cases hn
      · exact heligible
      · exact hmoved.eligible hok hexpired hlt
  | tick _ | start _ _ _ | sweepRow _ _ | rank _ _ | skip _ | touch _ | commit _ | abort _ =>
      trivial

/-- **Exclusive leasing, exactly.**  From any table that no call is working on, a run
of `app.lease_job` calls is exclusive in each of its states if and only if every
lock takes a row whose newest version still meets the `where` of the ranking. -/
theorem exclusive_iff_rechecked (h : Quiet s) (run : List LeaseStep) :
    Transition.EveryState (step timestamp) Exclusive s run ↔
      Transition.EveryStep (step timestamp) Rechecked s run :=
  Transition.everyState_iff_everyStep (I := LeaseInv)
    (fun _ _ _ hinv hc hs => hinv.step hc hs) (fun _ hinv => hinv.exclusive)
    (fun _ _ _ hinv hs ht => hinv.rechecked hs ht) h.inv

/-! ### Two calls on one job -/

/-- A job with one attempt, queued and available. -/
def demoRow : JobRow where
  id := "job_1"
  tenantId := "t1"
  type := "demo"
  idempotencyKey := "k"
  payload := .obj []
  status := .queued
  priority := 100
  attemptCount := 0
  maxAttempts := 1
  availableAt := 0
  leasedUntil := none
  leasedBy := none
  lastError := none
  createdAt := 0
  updatedAt := 0

def oneJob : LeaseRun := ⟨1000000, [⟨demoRow, none⟩], [], [], []⟩

theorem oneJob_quiet : Quiet oneJob where
  nodup_id := by decide
  unlocked := by decide
  rows := by
    intro v hv
    rw [List.mem_singleton.mp hv]
    exact ⟨by decide, by decide, by decide⟩
  calls := rfl
  taken := rfl

/-- Both calls rank the job; the second locks it after the first has committed. -/
def takeover : List LeaseStep :=
  [.start 1 "w1" 60, .rank 1 [demoRow], .start 2 "w2" 60, .rank 2 [demoRow],
    .lock 1, .touch 1, .commit 1, .lock 2]

/-- The second call of `takeover` takes over a lease that has just begun, and the
job has one attempt more than it may. -/
theorem takeover_not_exclusive :
    ¬ ∀ s : LeaseRun, Quiet s → ∀ run,
      Transition.EveryState (step fun _ => "") Exclusive s run := by
  intro h
  obtain ⟨t, ht⟩ : ∃ t, Transition.exec (step fun _ => "") oneJob takeover = some t := ⟨_, rfl⟩
  have hexclusive : Exclusive t := (h oneJob oneJob_quiet takeover).exec ht
  cases ht
  exact absurd hexclusive.1 (by decide)

/-- One call on its own leases exclusively. -/
theorem exclusive_iff_rechecked_single :
    Transition.EveryState (step fun _ => "") Exclusive oneJob
      [.start 1 "w1" 60, .rank 1 [demoRow], .lock 1, .touch 1, .commit 1] := by
  rw [exclusive_iff_rechecked oneJob_quiet]
  refine fun t ht => ⟨trivial, ?_⟩
  cases ht
  refine fun t ht => ⟨trivial, ?_⟩
  cases ht
  refine fun t ht => ⟨?_, ?_⟩
  · intro row hrow
    cases hrow
    decide
  cases ht
  refine fun t ht => ⟨trivial, ?_⟩
  cases ht
  exact fun t ht => ⟨trivial, trivial⟩

end LeaseRun

end RecruitingOs
