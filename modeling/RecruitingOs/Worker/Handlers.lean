import RecruitingOs.Queue.Steps
import RecruitingOs.Worker.Loop

/-!
# The jobs table and the handlers

In every state of every run of the workers, the row of a job tells what the handlers did that
were begun for it since it was last enqueued: as many as it has attempts, and for each status
what the last one has come to.  A job succeeds only by a handler that has returned, and no
other handler of it is ever taken as a success.

Nothing is assumed of the clocks.  A worker is fenced off by `leased_by`, which no two
processes share, and by the order of its own statements: a row that is leased by a worker which
still has the job in hand is leased to the handler that it has begun last (`Busy`).
-/

namespace RecruitingOs

open SqliteJobQueue
open Worker (Phase workerId leaseSeconds)

/-! ### What a row says -/

/-- `last_error` after a `fail` with the message. -/
def storedError (message : String) : String := String.ofList (message.toList.take 500)

/-- The handler has thrown, and its `fail` was taken. -/
def HandlerRun.Failed (run : HandlerRun) : Prop :=
  run.settled ∧ ∃ message, run.result = some (.error message)

/-- What the status of a row says of the last handler that was begun. -/
def JobRow.Shows (row : JobRow) (last : Option HandlerRun) : Prop :=
  match row.status with
  | .queued => last = none
  | .running => ∃ run, last = some run ∧ run.settled = false ∧ row.leasedBy = some run.worker
  | .succeeded => ∃ run, last = some run ∧ run.settled ∧ run.result = some (.ok ()) ∧
      Worker.supported row.type row.payload
  | .retryableFailed => ∃ run message, last = some run ∧ run.settled ∧
      run.result = some (.error message) ∧ row.lastError = some (storedError message)
  | .deadLetter => row.maxAttempts ≤ row.attemptCount ∧ ∃ run, last = some run ∧
      (run.settled = false ∧ row.lastError = some "Worker lease expired after final attempt" ∨
        run.settled ∧ ∃ message, run.result = some (.error message) ∧
          row.lastError = some (storedError message))
  | .cancelled => ∀ run, last = some run → run.Failed

/-- The row of a job and the handlers that were begun for it. -/
structure JobRow.Explained (row : JobRow) (runs : List HandlerRun) : Prop where
  attempts : row.attemptCount = runs.length
  within : runs.length ≤ row.maxAttempts
  left : row.status.pending → runs.length < row.maxAttempts
  earlier : ∀ run ∈ runs.tail, run.settled → run.Failed
  last : row.Shows runs.head?

/-- The rows agree on what the handlers explain. -/
structure SameRecord (old new : JobRow) : Prop where
  id : new.id = old.id
  type : new.type = old.type
  payload : new.payload = old.payload
  status : new.status = old.status
  attemptCount : new.attemptCount = old.attemptCount
  maxAttempts : new.maxAttempts = old.maxAttempts
  leasedBy : new.leasedBy = old.leasedBy
  lastError : new.lastError = old.lastError

theorem SameRecord.refl (row : JobRow) : SameRecord row row :=
  ⟨rfl, rfl, rfl, rfl, rfl, rfl, rfl, rfl⟩

theorem SameRecord.explained {old new : JobRow} {runs : List HandlerRun} (h : SameRecord old new)
    (hold : old.Explained runs) : new.Explained runs where
  attempts := h.attemptCount.trans hold.attempts
  within := by rw [h.maxAttempts]; exact hold.within
  left := by rw [h.status, h.maxAttempts]; exact hold.left
  earlier := hold.earlier
  last := by
    have hlast := hold.last
    unfold JobRow.Shows at hlast ⊢
    rw [h.status, h.leasedBy, h.type, h.payload, h.lastError, h.attemptCount, h.maxAttempts]
    exact hlast

/-- An active row has no success behind it. -/
theorem JobRow.Explained.settled_failed {row : JobRow} {runs : List HandlerRun}
    (h : row.Explained runs) (hstatus : row.status ≠ .succeeded) :
    ∀ run ∈ runs, run.settled → run.Failed := by
  intro run hrun hsettled
  cases runs with
  | nil => cases hrun
  | cons first rest =>
      rcases List.mem_cons.mp hrun with rfl | htail
      · have hlast := h.last
        unfold JobRow.Shows at hlast
        rw [List.head?_cons] at hlast
        revert hlast
        cases hrow : row.status with
        | queued => rintro ⟨⟩
        | running =>
            rintro ⟨_, ⟨⟩, hopen, -⟩
            rw [hopen] at hsettled
            cases hsettled
        | succeeded => exact absurd hrow hstatus
        | retryableFailed =>
            rintro ⟨_, message, ⟨⟩, -, hresult, -⟩
            exact ⟨hsettled, message, hresult⟩
        | deadLetter =>
            rintro ⟨-, _, ⟨⟩, ⟨hopen, -⟩ | ⟨-, message, hresult, -⟩⟩
            · rw [hopen] at hsettled
              cases hsettled
            · exact ⟨hsettled, message, hresult⟩
        | cancelled => intro hfailed; exact hfailed _ rfl
      · exact h.earlier run htail hsettled

/-! ### Changing the latest run of a worker -/

namespace HandlerRun

variable {worker other : String} {change : HandlerRun → HandlerRun} {runs : List HandlerRun}

/-- The latest run of the worker. -/
def latest (worker : String) (runs : List HandlerRun) : Option HandlerRun :=
  runs.find? fun run => run.worker = worker

theorem latest_cons_self {run : HandlerRun} (h : run.worker = worker) :
    latest worker (run :: runs) = some run :=
  List.find?_cons_of_pos (decide_eq_true h)

theorem latest_cons_of_ne {run : HandlerRun} (h : run.worker ≠ worker) :
    latest worker (run :: runs) = latest worker runs :=
  List.find?_cons_of_neg (by simpa using h)

theorem length_update : (update worker change runs).length = runs.length := by
  induction runs with
  | nil => rfl
  | cons run runs ih =>
      unfold update
      split
      · rfl
      · rw [List.length_cons, ih, List.length_cons]

theorem latest_update (hchange : ∀ run, (change run).worker = run.worker) :
    latest worker (update worker change runs) = (latest worker runs).map change := by
  induction runs with
  | nil => rfl
  | cons run runs ih =>
      unfold update
      split
      · rename_i h
        rw [latest_cons_self ((hchange run).trans h), latest_cons_self h]
        rfl
      · rename_i h
        rw [latest_cons_of_ne h, latest_cons_of_ne h, ih]

theorem latest_update_of_ne (hchange : ∀ run, (change run).worker = run.worker)
    (hne : other ≠ worker) : latest other (update worker change runs) = latest other runs := by
  induction runs with
  | nil => rfl
  | cons run runs ih =>
      unfold update
      split
      · rename_i h
        have hrun : run.worker ≠ other := fun hother => hne (hother.symm.trans h)
        rw [latest_cons_of_ne (by rw [hchange]; exact hrun), latest_cons_of_ne hrun]
      · by_cases hrun : run.worker = other
        · rw [latest_cons_self hrun, latest_cons_self hrun]
        · rw [latest_cons_of_ne hrun, latest_cons_of_ne hrun, ih]

theorem mem_update {run : HandlerRun} (h : run ∈ update worker change runs) :
    run ∈ runs ∨ ∃ old, latest worker runs = some old ∧ run = change old := by
  induction runs with
  | nil => exact .inl h
  | cons first runs ih =>
      unfold update at h
      split at h
      · rename_i hfirst
        rcases List.mem_cons.mp h with rfl | hrun
        · exact .inr ⟨first, latest_cons_self hfirst, rfl⟩
        · exact .inl (List.mem_cons_of_mem _ hrun)
      · rename_i hfirst
        rcases List.mem_cons.mp h with rfl | hrun
        · exact .inl List.mem_cons_self
        · rcases ih hrun with hrun | ⟨old, hold, rfl⟩
          · exact .inl (List.mem_cons_of_mem _ hrun)
          · exact .inr ⟨old, (latest_cons_of_ne hfirst).trans hold, rfl⟩

end HandlerRun

/-- What a handler that is not settled ends with does not show in the row. -/
theorem JobRow.Shows.setResult {row : JobRow} {run : HandlerRun} {result : Except String Unit}
    (h : row.Shows (some run)) (hopen : run.settled = false) :
    row.Shows (some (run.setResult result)) := by
  unfold JobRow.Shows at h ⊢
  revert h
  cases row.status with
  | queued => rintro ⟨⟩
  | running =>
      rintro ⟨_, ⟨⟩, -, hby⟩
      exact ⟨_, rfl, hopen, hby⟩
  | succeeded =>
      rintro ⟨_, ⟨⟩, hsettled, -⟩
      rw [hopen] at hsettled
      cases hsettled
  | retryableFailed =>
      rintro ⟨_, _, ⟨⟩, hsettled, -⟩
      rw [hopen] at hsettled
      cases hsettled
  | deadLetter =>
      rintro ⟨hlast, _, ⟨⟩, ⟨-, herror⟩ | ⟨hsettled, -⟩⟩
      · exact ⟨hlast, _, rfl, .inl ⟨hopen, herror⟩⟩
      · rw [hopen] at hsettled
        cases hsettled
  | cancelled =>
      intro hfailed
      have hsettled := (hfailed _ rfl).1
      rw [hopen] at hsettled
      cases hsettled

theorem JobRow.Explained.setResult {row : JobRow} {runs : List HandlerRun} {worker : String}
    {result : Except String Unit} (h : row.Explained runs)
    (hopen : ∀ run, HandlerRun.latest worker runs = some run → run.settled = false) :
    row.Explained (HandlerRun.update worker (HandlerRun.setResult result) runs) where
  attempts := by rw [HandlerRun.length_update]; exact h.attempts
  within := by rw [HandlerRun.length_update]; exact h.within
  left := by rw [HandlerRun.length_update]; exact h.left
  earlier := by
    cases runs with
    | nil => exact h.earlier
    | cons first rest =>
        unfold HandlerRun.update
        split
        · exact h.earlier
        · rename_i hfirst
          intro run hrun hsettled
          rcases HandlerRun.mem_update hrun with hrun | ⟨old, hold, rfl⟩
          · exact h.earlier run hrun hsettled
          · have hnot := hopen old ((HandlerRun.latest_cons_of_ne hfirst).trans hold)
            rw [show (HandlerRun.setResult result old).settled = old.settled from rfl, hnot]
              at hsettled
            cases hsettled
  last := by
    cases runs with
    | nil => exact h.last
    | cons first rest =>
        unfold HandlerRun.update
        split
        · rename_i hfirst
          exact h.last.setResult (hopen first (HandlerRun.latest_cons_self hfirst))
        · exact h.last

/-! ### What the statements of the queue write -/

namespace JobRow.Explained

variable {row : JobRow} {runs : List HandlerRun}

/-- A job that has just been enqueued, or revived. -/
theorem queued (hstatus : row.status = .queued) (hattempts : row.attemptCount = 0)
    (hmax : 1 ≤ row.maxAttempts) : row.Explained [] where
  attempts := hattempts
  within := Nat.zero_le _
  left _ := hmax
  earlier := by rintro run ⟨⟩
  last := by
    unfold JobRow.Shows
    rw [hstatus]
    rfl

/-- A pending job has failed, if it was ever handled. -/
theorem failed_of_pending (h : row.Explained runs) (hpending : row.status.pending) :
    ∀ run, runs.head? = some run → run.Failed := by
  intro run hhead
  have hlast := h.last
  unfold JobRow.Shows at hlast
  rw [hhead] at hlast
  revert hpending hlast
  cases row.status with
  | queued => rintro - ⟨⟩
  | retryableFailed =>
      rintro - ⟨_, message, ⟨⟩, hsettled, hresult, -⟩
      exact ⟨hsettled, message, hresult⟩
  | running | succeeded | deadLetter | cancelled => rintro ⟨⟩

theorem cancelled (h : row.Explained runs) (hpending : row.status.pending) (redactedAt now : ℤ) :
    (SqliteJobQueue.cancelRow redactedAt now row).Explained runs where
  attempts := h.attempts
  within := h.within
  left := by rintro ⟨⟩
  earlier := h.earlier
  last := h.failed_of_pending hpending

/-- The handler of a running job. -/
theorem running_cons (h : row.Explained runs) (hrunning : row.status = .running) :
    ∃ run rest, runs = run :: rest ∧ run.settled = false ∧ row.leasedBy = some run.worker := by
  have hlast := h.last
  unfold JobRow.Shows at hlast
  rw [hrunning] at hlast
  obtain ⟨run, hhead, hopen, hby⟩ := hlast
  obtain ⟨rest, rfl⟩ := List.head?_eq_some_iff.mp hhead
  exact ⟨run, rest, rfl, hopen, hby⟩

theorem exhausted (h : row.Explained runs) {now : ℤ}
    (hexhausted : SqliteJobQueue.isExhausted now row) (redactedAt later : ℤ) :
    (SqliteJobQueue.exhaustRow redactedAt later row).Explained runs := by
  obtain ⟨hrunning, -, hmax⟩ := of_decide_eq_true hexhausted
  obtain ⟨run, rest, rfl, hopen, -⟩ := h.running_cons hrunning
  exact
    { attempts := h.attempts
      within := h.within
      left := by rintro ⟨⟩
      earlier := h.earlier
      last := ⟨hmax, run, rfl, .inl ⟨hopen, rfl⟩⟩ }

/-- A lease begins a handler. -/
theorem leased (h : row.Explained runs) {a b c : ℤ} (heligible : row.eligible a b c)
    (worker : String) (leasedUntil now : ℤ) :
    (SqliteJobQueue.leaseRow worker leasedUntil now row).Explained
      (⟨worker, none, false⟩ :: runs) := by
  have hleft : runs.length < row.maxAttempts := by
    rcases of_decide_eq_true heligible with ⟨hpending, -⟩ | ⟨-, -, hlt⟩
    · exact h.left hpending
    · rw [← h.attempts]
      exact hlt
  have hstatus : row.status ≠ .succeeded := by
    intro hsucceeded
    rcases of_decide_eq_true heligible with ⟨hpending, -⟩ | ⟨hrunning, -⟩
    · rw [hsucceeded] at hpending
      cases hpending
    · rw [hsucceeded] at hrunning
      cases hrunning
  exact
    { attempts := congrArg (· + 1) h.attempts
      within := hleft
      left := by rintro ⟨⟩
      earlier := h.settled_failed hstatus
      last := ⟨_, rfl, rfl, rfl⟩ }

end JobRow.Explained

/-- A redaction does not make the branch of a job refuse it. -/
theorem Worker.supported_redact {row : JobRow} (h : Worker.supported row.type row.payload)
    (redactedAt : ℤ) : Worker.supported row.type (row.redactScreenshot redactedAt) := by
  unfold JobRow.redactScreenshot
  split
  · rename_i htype
    rw [htype]
    rfl
  · exact h

namespace JobRow.Explained

variable {row : JobRow} {worker : String} {rest : List HandlerRun}

theorem succeeded (h : row.Explained (⟨worker, some (.ok ()), false⟩ :: rest))
    (hsupported : Worker.supported row.type row.payload) (redactedAt now : ℤ) :
    (SqliteJobQueue.succeedRow redactedAt now row).Explained
      (⟨worker, some (.ok ()), true⟩ :: rest) where
  attempts := h.attempts
  within := h.within
  left := by rintro ⟨⟩
  earlier := h.earlier
  last := ⟨_, rfl, rfl, rfl, Worker.supported_redact hsupported redactedAt⟩

theorem failed {message : String}
    (h : row.Explained (⟨worker, some (.error message), false⟩ :: rest))
    (availableAt redactedAt now : ℤ) :
    (SqliteJobQueue.failRow (row.maxAttempts ≤ row.attemptCount) message availableAt redactedAt now
      row).Explained (⟨worker, some (.error message), true⟩ :: rest) := by
  by_cases hterminal : row.maxAttempts ≤ row.attemptCount
  · rw [decide_eq_true hterminal]
    exact
      { attempts := h.attempts
        within := h.within
        left := by rintro ⟨⟩
        earlier := h.earlier
        last := ⟨hterminal, _, rfl, .inr ⟨rfl, message, rfl, rfl⟩⟩ }
  · rw [decide_eq_false hterminal]
    exact
      { attempts := h.attempts
        within := h.within
        left := fun _ => by
          have hattempts := h.attempts
          show rest.length + 1 < row.maxAttempts
          rw [List.length_cons] at hattempts
          omega
        earlier := h.earlier
        last := ⟨_, message, rfl, rfl, rfl, rfl⟩ }

end JobRow.Explained

end RecruitingOs
