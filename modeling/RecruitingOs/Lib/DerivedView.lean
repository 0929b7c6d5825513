import RecruitingOs.Lib.Table
import RecruitingOs.Lib.Transition

/-!
# A derived table that concurrent transactions replace

A table is derived from evidence.  Each transaction may add evidence, reads all of
it in two statements, computes the derived rows and puts them in place of the
committed ones: one `delete` of what is there, one `insert` for each new row.  At
READ COMMITTED a statement sees what was committed when it started and what its own
transaction wrote; a write of a row that another transaction has written waits.

`DerivedView` is the problem, `State` the state of all transactions in flight and
`step` what one statement does.  `consistent_of_fresh` is the rule: in every run,
whenever the transaction that committed last had read the evidence after every
other commit, the committed rows are those derived from the committed evidence.
-/

/-- Evidence `ε` with writes `ω`, two reads with answers `α` and `β`, and the rows `ρ`
derived from the answers under `τ`, with unique key `κ`. -/
structure DerivedView (ε ω α β τ ρ κ : Type) where
  write : ε → ω → ε
  /-- No constraint refuses the write. -/
  admits : ε → ω → Bool
  /-- Two writes of one row. -/
  conflicts : ω → ω → Bool
  /-- What the first read may answer. -/
  first : ε → α → Bool
  /-- What the second read may answer. -/
  second : ε → β → Bool
  derive : α → β → τ → List ρ
  key : ρ → κ

namespace DerivedView

/-- A committed row, and the transaction that has deleted it but not committed. -/
structure Row (ρ : Type) where
  rid : ℕ
  content : ρ
  deleter : Option ℕ
deriving Repr, DecidableEq

/-- How far a transaction is. -/
inductive Phase (α ρ : Type) where
  | writing
  | reading (answer : α)
  | computed (out : List ρ)
  /-- The `delete` has these rows of its snapshot still to visit. -/
  | deleting (rids : List ℕ) (out : List ρ)
  | inserting (rest : List ρ)
deriving Repr, DecidableEq

/-- A transaction in flight; `readAt` counts the commits before its first read. -/
structure Tx (ω α ρ : Type) where
  id : ℕ
  writes : List ω
  readAt : ℕ
  phase : Phase α ρ
  inserted : List ρ
deriving Repr, DecidableEq

/-- The committed state and the transactions in flight; `fresh` says whether the
transaction that committed last had read after every other commit. -/
structure State (ε ω α ρ : Type) where
  evidence : ε
  rows : List (Row ρ)
  nextRid : ℕ
  commits : ℕ
  fresh : Bool
  txs : List (Tx ω α ρ)

/-- One statement of a transaction. -/
inductive Step (ω α β τ : Type) where
  | start (t : ℕ)
  | write (t : ℕ) (w : ω)
  | readFirst (t : ℕ) (answer : α)
  | readSecond (t : ℕ) (answer : β) (context : τ)
  | delete (t : ℕ)
  | deleteRow (t : ℕ) (rid : ℕ)
  | fill (t : ℕ)
  | insert (t : ℕ)
  | commit (t : ℕ)
  | abort (t : ℕ)

variable {ε ω α β τ ρ κ : Type} {V : DerivedView ε ω α β τ ρ κ}
  {s s' : State ε ω α ρ} {t : ℕ} {tx : Tx ω α ρ}

/-! ### Statements -/

namespace State

/-- The transaction in flight with this id. -/
def tx? (s : State ε ω α ρ) (t : ℕ) : Option (Tx ω α ρ) := s.txs.find? fun tx => tx.id = t

def setTx (s : State ε ω α ρ) (t : ℕ) (f : Tx ω α ρ → Tx ω α ρ) : State ε ω α ρ :=
  { s with txs := Table.updateWhere (fun tx => tx.id = t) f s.txs }

/-- The transactions in flight without this one. -/
def others (s : State ε ω α ρ) (t : ℕ) : List (Tx ω α ρ) := s.txs.filter fun tx => tx.id ≠ t

/-- The rollback of a transaction: its deletions are undone. -/
def rollback (s : State ε ω α ρ) (t : ℕ) : State ε ω α ρ :=
  let undo (row : Row ρ) : Row ρ := { row with deleter := none }
  { s with
    rows := Table.updateWhere (fun row => row.deleter = some t) undo s.rows
    txs := s.others t }

end State

/-- The evidence that a transaction sees. -/
def visible (V : DerivedView ε ω α β τ ρ κ) (s : State ε ω α ρ) (tx : Tx ω α ρ) : ε :=
  tx.writes.foldl V.write s.evidence

section Statements

variable [DecidableEq κ]

/-- An `insert` of this row has to wait for another transaction. -/
def waits (V : DerivedView ε ω α β τ ρ κ) (s : State ε ω α ρ) (t : ℕ) (content : ρ) : Bool :=
  ((s.others t).any fun tx => tx.inserted.any fun o => V.key o = V.key content) ∨
    s.rows.any fun row => V.key row.content = V.key content ∧
      row.deleter.any fun d => d ≠ t

/-- An `insert` of this row violates the key. -/
def violates (V : DerivedView ε ω α β τ ρ κ) (s : State ε ω α ρ) (tx : Tx ω α ρ)
    (content : ρ) : Bool :=
  (tx.inserted.any fun o => V.key o = V.key content) ∨
    s.rows.any fun row => V.key row.content = V.key content ∧ row.deleter = none

/-- The new rows of a commit. -/
def newRows (s : State ε ω α ρ) (tx : Tx ω α ρ) : List (Row ρ) :=
  tx.inserted.zipIdx.map fun (content, i) => ⟨s.nextRid + i, content, none⟩

/-- One statement; `none` where it cannot be next or has to wait. -/
def step (V : DerivedView ε ω α β τ ρ κ) (s : State ε ω α ρ) :
    Step ω α β τ → Option (State ε ω α ρ)
  | .start t =>
      if (s.tx? t).isNone then some { s with txs := ⟨t, [], 0, .writing, []⟩ :: s.txs }
      else none
  | .write t w =>
      match s.tx? t with
      | some ⟨id, writes, readAt, .writing, inserted⟩ =>
          if (s.others t).any fun tx => tx.writes.any (V.conflicts w) then none
          else if ¬ V.admits (visible V s ⟨id, writes, readAt, .writing, inserted⟩) w then
            some (s.rollback t)
          else some (s.setTx t fun tx => { tx with writes := tx.writes ++ [w] })
      | _ => none
  | .readFirst t answer =>
      match s.tx? t with
      | some ⟨id, writes, readAt, .writing, inserted⟩ =>
          if V.first (visible V s ⟨id, writes, readAt, .writing, inserted⟩) answer then
            some (s.setTx t fun tx => { tx with phase := .reading answer, readAt := s.commits })
          else none
      | _ => none
  | .readSecond t answer context =>
      match s.tx? t with
      | some ⟨id, writes, readAt, .reading a, inserted⟩ =>
          if V.second (visible V s ⟨id, writes, readAt, .reading a, inserted⟩) answer then
            some (s.setTx t fun tx => { tx with phase := .computed (V.derive a answer context) })
          else none
      | _ => none
  | .delete t =>
      match s.tx? t with
      | some ⟨_, _, _, .computed out, _⟩ =>
          some (s.setTx t fun tx => { tx with phase := .deleting (s.rows.map Row.rid) out })
      | _ => none
  | .deleteRow t rid =>
      match s.tx? t with
      | some ⟨_, _, _, .deleting rids out, _⟩ =>
          if rid ∈ rids then
            let rest := s.setTx t fun tx => { tx with phase := .deleting (rids.erase rid) out }
            match s.rows.find? fun row => row.rid = rid with
            -- another transaction has deleted the row and committed
            | none => some rest
            | some row =>
                if row.deleter = none then
                  let mark (row : Row ρ) : Row ρ := { row with deleter := some t }
                  some { rest with rows := Table.updateWhere (fun row => row.rid = rid) mark s.rows }
                else none
          else none
      | _ => none
  | .fill t =>
      match s.tx? t with
      | some ⟨_, _, _, .deleting [] out, _⟩ =>
          some (s.setTx t fun tx => { tx with phase := .inserting out })
      | _ => none
  | .insert t =>
      match s.tx? t with
      | some ⟨id, writes, readAt, .inserting (content :: rest), inserted⟩ =>
          if waits V s t content then none
          else if violates V s ⟨id, writes, readAt, .inserting (content :: rest), inserted⟩ content
            then some (s.rollback t)
          else some (s.setTx t fun tx =>
            { tx with phase := .inserting rest, inserted := tx.inserted ++ [content] })
      | _ => none
  | .commit t =>
      match s.tx? t with
      | some ⟨id, writes, readAt, .inserting [], inserted⟩ =>
          let tx : Tx ω α ρ := ⟨id, writes, readAt, .inserting [], inserted⟩
          some
            { evidence := visible V s tx
              rows := (s.rows.filter fun row => row.deleter ≠ some t) ++ newRows s tx
              nextRid := s.nextRid + tx.inserted.length
              commits := s.commits + 1
              fresh := readAt = s.commits
              txs := s.others t }
      | _ => none
  | .abort t => if (s.tx? t).isSome then some (s.rollback t) else none

end Statements

/-! ### The invariant -/

/-- The committed rows are those derived from the committed evidence. -/
def Consistent (V : DerivedView ε ω α β τ ρ κ) (s : State ε ω α ρ) : Prop :=
  ∃ a b context, V.first s.evidence a ∧ V.second s.evidence b ∧
    (s.rows.map Row.content).Perm (V.derive a b context)

/-- Rows that the transaction may derive from what it sees. -/
def Derived (V : DerivedView ε ω α β τ ρ κ) (s : State ε ω α ρ) (tx : Tx ω α ρ)
    (out : List ρ) : Prop :=
  ∃ a b context, V.first (visible V s tx) a ∧ V.second (visible V s tx) b ∧
    out = V.derive a b context

/-- What holds of a transaction in its phase as long as nobody has committed since
its first read. -/
def PhaseInv (V : DerivedView ε ω α β τ ρ κ) (s : State ε ω α ρ) (tx : Tx ω α ρ) : Prop :=
  match tx.phase with
  | .writing => True
  | .reading a => V.first (visible V s tx) a
  | .computed out => Derived V s tx out
  | .deleting rids out => Derived V s tx out ∧
      ∀ row ∈ s.rows, row.rid ∈ rids ∨ row.deleter = some tx.id
  | .inserting rest => Derived V s tx (tx.inserted ++ rest) ∧
      ∀ row ∈ s.rows, row.deleter = some tx.id

/-- What holds of every transaction in flight. -/
structure TxInv (V : DerivedView ε ω α β τ ρ κ) (s : State ε ω α ρ) (tx : Tx ω α ρ) : Prop where
  readAt_le : tx.readAt ≤ s.commits
  inserted : (∀ rest, tx.phase ≠ .inserting rest) → tx.inserted = []
  phase : tx.readAt = s.commits → PhaseInv V s tx

/-- The invariant of runs. -/
structure Inv (V : DerivedView ε ω α β τ ρ κ) (s : State ε ω α ρ) : Prop where
  nodup_rid : (s.rows.map Row.rid).Nodup
  rid_lt : ∀ row ∈ s.rows, row.rid < s.nextRid
  nodup_tx : (s.txs.map Tx.id).Nodup
  txs : ∀ tx ∈ s.txs, TxInv V s tx
  consistent : s.fresh → Consistent V s

/-- A consistent table that no transaction is working on. -/
structure Settled (V : DerivedView ε ω α β τ ρ κ) (s : State ε ω α ρ) : Prop where
  nodup_rid : (s.rows.map Row.rid).Nodup
  rid_lt : ∀ row ∈ s.rows, row.rid < s.nextRid
  txs : s.txs = []
  consistent : Consistent V s

theorem Settled.inv (h : Settled V s) : Inv V s where
  nodup_rid := h.nodup_rid
  rid_lt := h.rid_lt
  nodup_tx := by rw [h.txs]; exact List.nodup_nil
  txs := by
    rw [h.txs]
    intro tx htx
    cases htx
  consistent := fun _ => h.consistent

theorem tx?_some (h : s.tx? t = some tx) : tx ∈ s.txs ∧ tx.id = t :=
  ⟨List.mem_of_find?_eq_some h, by simpa using List.find?_some h⟩

/-- A transaction keeps what holds of it in a state with the same evidence and
commits, whose rows are the old ones with its deletions in place. -/
theorem TxInv.transfer (h : TxInv V s tx) (hevidence : s'.evidence = s.evidence)
    (hcommits : s'.commits = s.commits)
    (hrows : ∀ row' ∈ s'.rows, ∃ row ∈ s.rows, row.rid = row'.rid ∧
      (row.deleter = some tx.id → row'.deleter = some tx.id)) : TxInv V s' tx := by
  have hvisible : visible V s' tx = visible V s tx := by rw [visible, visible, hevidence]
  have hderived : ∀ out, Derived V s tx out → Derived V s' tx out := by
    rintro out ⟨a, b, context, ha, hb, hout⟩
    exact ⟨a, b, context, by rw [hvisible]; exact ha, by rw [hvisible]; exact hb, hout⟩
  refine ⟨by rw [hcommits]; exact h.readAt_le, h.inserted, ?_⟩
  intro hread
  have hphase := h.phase (hread.trans hcommits)
  unfold PhaseInv at hphase ⊢
  split at hphase
  · trivial
  · rw [hvisible]
    exact hphase
  · exact hderived _ hphase
  · refine ⟨hderived _ hphase.1, ?_⟩
    intro row' hrow'
    obtain ⟨row, hrow, hrid, hdeleter⟩ := hrows row' hrow'
    rcases hphase.2 row hrow with hmem | hmine
    · left
      rw [← hrid]
      exact hmem
    · exact .inr (hdeleter hmine)
  · refine ⟨hderived _ hphase.1, ?_⟩
    intro row' hrow'
    obtain ⟨row, hrow, -, hdeleter⟩ := hrows row' hrow'
    exact hdeleter (hphase.2 row hrow)

/-- **A step of one transaction** that leaves the committed state alone. -/
theorem Inv.setTx (h : Inv V s) {f : Tx ω α ρ → Tx ω α ρ} (hid : ∀ tx, (f tx).id = tx.id)
    (ht : s.tx? t = some tx) (htx : TxInv V s tx → TxInv V s (f tx)) : Inv V (s.setTx t f) := by
  obtain ⟨hmem, htid⟩ := tx?_some ht
  have hcases : ∀ new ∈ (s.setTx t f).txs, new ∈ s.txs ∨ new = f tx := by
    intro new hnew
    obtain ⟨old, hold, rfl⟩ := Table.mem_updateWhere.mp hnew
    by_cases hsame : old.id = t
    · right
      rw [if_pos (decide_eq_true hsame), Table.eq_of_key_eq h.nodup_tx hold hmem (hsame.trans htid.symm)]
    · left
      simpa [hsame] using hold
  refine ⟨h.nodup_rid, h.rid_lt, ?_, ?_, h.consistent⟩
  · have hkey : (s.setTx t f).txs.map Tx.id = s.txs.map Tx.id :=
      Table.map_key_updateWhere Tx.id fun tx _ _ => hid tx
    rw [hkey]
    exact h.nodup_tx
  · intro new hnew
    have hinv : TxInv V s new := by
      rcases hcases new hnew with hold | rfl
      · exact h.txs new hold
      · exact htx (h.txs tx hmem)
    exact hinv.transfer rfl rfl fun row hrow => ⟨row, hrow, rfl, id⟩

theorem Inv.rollback (h : Inv V s) : Inv V (s.rollback t) := by
  have hrid : (s.rollback t).rows.map Row.rid = s.rows.map Row.rid :=
    Table.map_key_updateWhere Row.rid fun _ _ _ => rfl
  have hcontent : (s.rollback t).rows.map Row.content = s.rows.map Row.content :=
    Table.map_key_updateWhere Row.content fun _ _ _ => rfl
  have hrows : ∀ row' ∈ (s.rollback t).rows, ∃ row ∈ s.rows, row.rid = row'.rid ∧
      ∀ u, u ≠ t → row.deleter = some u → row'.deleter = some u := by
    intro row' hrow'
    obtain ⟨row, hrow, rfl⟩ := Table.mem_updateWhere.mp hrow'
    refine ⟨row, hrow, ?_, ?_⟩
    · split <;> rfl
    · intro u hu hdeleter
      have hne : ¬ row.deleter = some t := by
        rw [hdeleter, Option.some_inj]
        exact hu
      rw [if_neg (by simpa using hne)]
      exact hdeleter
  refine ⟨by rw [hrid]; exact h.nodup_rid, ?_, Table.nodup_key_filter h.nodup_tx _, ?_, ?_⟩
  · intro row' hrow'
    obtain ⟨row, hrow, hsame, -⟩ := hrows row' hrow'
    rw [← hsame]
    exact h.rid_lt row hrow
  · intro tx htx
    obtain ⟨hmem, hne⟩ := List.mem_filter.mp htx
    refine (h.txs tx hmem).transfer rfl rfl ?_
    intro row' hrow'
    obtain ⟨row, hrow, hsame, hdeleter⟩ := hrows row' hrow'
    exact ⟨row, hrow, hsame, hdeleter tx.id (of_decide_eq_true hne)⟩
  · intro hfresh
    obtain ⟨a, b, context, ha, hb, hperm⟩ := h.consistent hfresh
    exact ⟨a, b, context, ha, hb, by rw [hcontent]; exact hperm⟩

/-- Marking a row that nobody has deleted. -/
theorem Inv.deleteRow (h : Inv V s) {id readAt rid : ℕ} {writes : List ω} {rids : List ℕ}
    {out inserted : List ρ} {row : Row ρ}
    (ht : s.tx? t = some ⟨id, writes, readAt, .deleting rids out, inserted⟩)
    (hfind : s.rows.find? (fun row => row.rid = rid) = some row) (hrow : row.deleter = none) :
    Inv V
      { s.setTx t fun tx => { tx with phase := .deleting (rids.erase rid) out } with
        rows := Table.updateWhere (fun row => row.rid = rid)
          (fun row => { row with deleter := some t }) s.rows } := by
  obtain ⟨hmem, rfl⟩ := tx?_some ht
  have hrowMem := List.mem_of_find?_eq_some hfind
  have hrowRid : row.rid = rid := by simpa using List.find?_some hfind
  have hrid : (Table.updateWhere (fun row : Row ρ => row.rid = rid)
      (fun row => { row with deleter := some id }) s.rows).map Row.rid = s.rows.map Row.rid :=
    Table.map_key_updateWhere Row.rid fun _ _ _ => rfl
  have hcontent : (Table.updateWhere (fun row : Row ρ => row.rid = rid)
      (fun row => { row with deleter := some id }) s.rows).map Row.content =
      s.rows.map Row.content := Table.map_key_updateWhere Row.content fun _ _ _ => rfl
  -- the marked row was nobody's, so every deletion in place stays in place
  have hrows : ∀ row' ∈ Table.updateWhere (fun row : Row ρ => row.rid = rid)
      (fun row => { row with deleter := some id }) s.rows,
      ∃ old ∈ s.rows, old.rid = row'.rid ∧ (∀ u, old.deleter = some u → row'.deleter = some u) ∧
        (old.rid = rid → row'.deleter = some id) := by
    intro row' hrow'
    obtain ⟨old, hold, rfl⟩ := Table.mem_updateWhere.mp hrow'
    by_cases hsame : old.rid = rid
    · have hthis : old = row := Table.eq_of_key_eq h.nodup_rid hold hrowMem (hsame.trans hrowRid.symm)
      refine ⟨old, hold, by split <;> rfl, ?_, fun _ => by rw [if_pos (decide_eq_true hsame)]⟩
      intro u hu
      rw [hthis, hrow] at hu
      cases hu
    · refine ⟨old, hold, by split <;> rfl, ?_, fun habsurd => absurd habsurd hsame⟩
      intro u hu
      rw [if_neg (by simpa using hsame)]
      exact hu
  have hbase : ∀ tx ∈ s.txs, TxInv V
      { s.setTx id fun tx => { tx with phase := .deleting (rids.erase rid) out } with
        rows := Table.updateWhere (fun row => row.rid = rid)
          (fun row => { row with deleter := some id }) s.rows } tx := by
    intro tx htx
    refine (h.txs tx htx).transfer rfl rfl ?_
    intro row' hrow'
    obtain ⟨old, hold, hsame, hkeep, -⟩ := hrows row' hrow'
    exact ⟨old, hold, hsame, hkeep tx.id⟩
  refine ⟨by rw [hrid]; exact h.nodup_rid, ?_, ?_, ?_, ?_⟩
  · intro row' hrow'
    obtain ⟨old, hold, hsame, -⟩ := hrows row' hrow'
    rw [← hsame]
    exact h.rid_lt old hold
  · have hkey : (s.setTx id fun tx => { tx with phase := .deleting (rids.erase rid) out }).txs.map
        Tx.id = s.txs.map Tx.id := Table.map_key_updateWhere Tx.id fun _ _ _ => rfl
    show (List.map Tx.id (s.setTx id _).txs).Nodup
    rw [hkey]
    exact h.nodup_tx
  · intro tx htx
    obtain ⟨old, hold, rfl⟩ := Table.mem_updateWhere.mp htx
    by_cases hsame : old.id = id
    · obtain rfl := Table.eq_of_key_eq h.nodup_tx hold hmem hsame
      rw [if_pos (decide_eq_true rfl)]
      obtain ⟨hle, hinserted, hphase⟩ := hbase _ hold
      refine ⟨hle, fun _ => hinserted (fun _ habsurd => by cases habsurd), ?_⟩
      intro hread
      obtain ⟨hderived, hcover⟩ := hphase hread
      refine ⟨hderived, ?_⟩
      intro row' hrow'
      rcases hcover row' hrow' with hin | hmine
      · by_cases hthis : row'.rid = rid
        · obtain ⟨old', hold', hsame', -, hmark⟩ := hrows row' hrow'
          exact .inr (hmark (hsame'.trans hthis))
        · exact .inl ((List.mem_erase_of_ne hthis).mpr hin)
      · exact .inr hmine
    · rw [if_neg (by simpa using hsame)]
      exact hbase old hold
  · intro hfresh
    obtain ⟨a, b, context, ha, hb, hperm⟩ := h.consistent hfresh
    exact ⟨a, b, context, ha, hb, by rw [hcontent]; exact hperm⟩

theorem newRows_content : (newRows s tx).map Row.content = tx.inserted := by
  unfold newRows
  rw [List.map_map]
  exact List.zipIdx_map_fst 0 tx.inserted

theorem mem_newRows {row : Row ρ} (h : row ∈ newRows s tx) :
    s.nextRid ≤ row.rid ∧ row.rid < s.nextRid + tx.inserted.length := by
  obtain ⟨⟨content, i⟩, hmem, rfl⟩ := List.mem_map.mp h
  have hi : i < tx.inserted.length := by
    have := List.snd_lt_add_of_mem_zipIdx hmem
    simpa using this
  exact ⟨Nat.le_add_right _ _, Nat.add_lt_add_left hi _⟩

theorem nodup_newRows : ((newRows s tx).map Row.rid).Nodup := by
  have hrid : (newRows s tx).map Row.rid =
      (tx.inserted.zipIdx.map Prod.snd).map (s.nextRid + ·) := by
    unfold newRows
    rw [List.map_map, List.map_map]
    rfl
  rw [hrid, List.zipIdx_map_snd]
  exact List.Nodup.map (fun a b hab => Nat.add_left_cancel hab) List.nodup_range'

/-- **A commit** makes its evidence and its rows the committed ones; every other
transaction in flight has then read too early. -/
theorem Inv.commit (h : Inv V s) (ht : s.tx? t = some tx) (hphase : tx.phase = .inserting []) :
    Inv V
      { evidence := visible V s tx
        rows := (s.rows.filter fun row => row.deleter ≠ some t) ++ newRows s tx
        nextRid := s.nextRid + tx.inserted.length
        commits := s.commits + 1
        fresh := tx.readAt = s.commits
        txs := s.others t } := by
  obtain ⟨hmem, rfl⟩ := tx?_some ht
  refine ⟨?_, ?_, Table.nodup_key_filter h.nodup_tx _, ?_, ?_⟩
  · rw [List.map_append, List.nodup_append]
    refine ⟨Table.nodup_key_filter h.nodup_rid _, nodup_newRows, ?_⟩
    rintro _ hold _ hnew rfl
    obtain ⟨old, hold, hrid⟩ := List.mem_map.mp hold
    obtain ⟨new, hnew, hsame⟩ := List.mem_map.mp hnew
    have hlt := h.rid_lt old (List.mem_filter.mp hold).1
    have hge := (mem_newRows hnew).1
    omega
  · intro row hrow
    rcases List.mem_append.mp hrow with hold | hnew
    · have hlt := h.rid_lt row (List.mem_filter.mp hold).1
      exact Nat.lt_add_right _ hlt
    · exact (mem_newRows hnew).2
  · intro other hother
    have hold := h.txs other (List.mem_filter.mp hother).1
    have hle := hold.readAt_le
    refine ⟨Nat.le_succ_of_le hle, hold.inserted, ?_⟩
    intro hread
    have hsame : other.readAt = s.commits + 1 := hread
    omega
  · intro hfresh
    have hread : tx.readAt = s.commits := of_decide_eq_true hfresh
    have hinv := (h.txs tx hmem).phase hread
    unfold PhaseInv at hinv
    rw [hphase] at hinv
    obtain ⟨⟨a, b, context, ha, hb, hout⟩, hmine⟩ := hinv
    rw [List.append_nil] at hout
    have hgone : (s.rows.filter fun row => row.deleter ≠ some tx.id) = [] := by
      rw [List.filter_eq_nil_iff]
      intro row hrow hother
      exact of_decide_eq_true hother (hmine row hrow)
    refine ⟨a, b, context, ha, hb, ?_⟩
    show (List.map Row.content (_ ++ newRows s tx)).Perm _
    rw [hgone, List.nil_append, newRows_content, hout]

variable [DecidableEq κ]

/-- **Every statement keeps the invariant.** -/
theorem Inv.step (h : Inv V s) {label : Step ω α β τ} (hs : step V s label = some s') :
    Inv V s' := by
  cases label with
  | start t =>
      simp only [DerivedView.step] at hs
      split at hs
      · rename_i hnone
        cases hs
        refine ⟨h.nodup_rid, h.rid_lt, ?_, ?_, h.consistent⟩
        · refine List.nodup_cons.mpr ⟨?_, h.nodup_tx⟩
          intro hmem
          obtain ⟨old, hold, hid⟩ := List.mem_map.mp hmem
          have hne := List.find?_eq_none.mp (Option.isNone_iff_eq_none.mp hnone) old hold
          exact hne (decide_eq_true hid)
        · intro tx htx
          rcases List.mem_cons.mp htx with rfl | hold
          · exact ⟨Nat.zero_le _, fun _ => rfl, fun _ => trivial⟩
          · exact (h.txs tx hold).transfer rfl rfl fun row hrow => ⟨row, hrow, rfl, id⟩
      · cases hs
  | write t w =>
      simp only [DerivedView.step] at hs
      split at hs
      · rename_i ht
        split at hs
        · cases hs
        · split at hs
          · cases hs
            exact h.rollback
          · cases hs
            refine h.setTx (fun _ => rfl) ht fun hinv => ?_
            exact ⟨hinv.readAt_le, hinv.inserted, fun _ => trivial⟩
      · cases hs
  | readFirst t answer =>
      simp only [DerivedView.step] at hs
      split at hs
      · rename_i ht
        split at hs
        · rename_i hanswer
          cases hs
          refine h.setTx (fun _ => rfl) ht fun hinv => ?_
          refine ⟨Nat.le_refl _, fun _ => hinv.inserted (fun _ habsurd => by cases habsurd), fun _ => hanswer⟩
        · cases hs
      · cases hs
  | readSecond t answer context =>
      simp only [DerivedView.step] at hs
      split at hs
      · rename_i a inserted ht
        split at hs
        · rename_i hanswer
          cases hs
          refine h.setTx (fun _ => rfl) ht fun hinv => ?_
          refine ⟨hinv.readAt_le, fun _ => hinv.inserted (fun _ habsurd => by cases habsurd), ?_⟩
          intro hread
          exact ⟨a, answer, context, hinv.phase hread, hanswer, rfl⟩
        · cases hs
      · cases hs
  | delete t =>
      simp only [DerivedView.step] at hs
      split at hs
      · rename_i ht
        cases hs
        refine h.setTx (fun _ => rfl) ht fun hinv => ?_
        refine ⟨hinv.readAt_le, fun _ => hinv.inserted (fun _ habsurd => by cases habsurd), ?_⟩
        intro hread
        exact ⟨hinv.phase hread, fun row hrow => .inl (List.mem_map_of_mem hrow)⟩
      · cases hs
  | deleteRow t rid =>
      simp only [DerivedView.step] at hs
      split at hs
      · rename_i ht
        split at hs
        · split at hs
          · rename_i hfind
            cases hs
            refine h.setTx (fun _ => rfl) ht fun hinv => ?_
            refine ⟨hinv.readAt_le, fun _ => hinv.inserted (fun _ habsurd => by cases habsurd), ?_⟩
            intro hread
            obtain ⟨hderived, hcover⟩ := hinv.phase hread
            refine ⟨hderived, fun row hrow => ?_⟩
            have hne : row.rid ≠ rid := by
              intro hsame
              exact List.find?_eq_none.mp hfind row hrow (decide_eq_true hsame)
            rcases hcover row hrow with hin | hmine
            · exact .inl ((List.mem_erase_of_ne hne).mpr hin)
            · exact .inr hmine
          · rename_i row hfind
            split at hs
            · rename_i hnone
              cases hs
              exact h.deleteRow ht hfind hnone
            · cases hs
        · cases hs
      · cases hs
  | fill t =>
      simp only [DerivedView.step] at hs
      split at hs
      · rename_i ht
        cases hs
        refine h.setTx (fun _ => rfl) ht fun hinv => ?_
        refine ⟨hinv.readAt_le, fun habsurd => absurd rfl (habsurd _), ?_⟩
        intro hread
        obtain ⟨hderived, hcover⟩ := hinv.phase hread
        have hempty := hinv.inserted fun _ habsurd => by cases habsurd
        refine ⟨?_, fun row hrow => ?_⟩
        · show Derived V s _ (_ ++ _)
          rw [hempty, List.nil_append]
          exact hderived
        · exact (hcover row hrow).resolve_left List.not_mem_nil
      · cases hs
  | insert t =>
      simp only [DerivedView.step] at hs
      split at hs
      · rename_i content rest inserted ht
        split at hs
        · cases hs
        · split at hs
          · cases hs
            exact h.rollback
          · cases hs
            refine h.setTx (fun _ => rfl) ht fun hinv => ?_
            refine ⟨hinv.readAt_le, fun habsurd => absurd rfl (habsurd _), ?_⟩
            intro hread
            obtain ⟨hderived, hmine⟩ := hinv.phase hread
            refine ⟨?_, hmine⟩
            show Derived V s _ (inserted ++ [content] ++ rest)
            rw [List.append_assoc]
            exact hderived
      · cases hs
  | commit t =>
      simp only [DerivedView.step] at hs
      split at hs
      · rename_i ht
        cases hs
        exact h.commit ht rfl
      · cases hs
  | abort t =>
      simp only [DerivedView.step] at hs
      split at hs
      · cases hs
        exact h.rollback
      · cases hs

/-- **The rule.**  In every state of every run from a settled table, the committed rows
are derived from the committed evidence if the transaction that committed last had
read it after every other commit. -/
theorem consistent_of_fresh (h : Settled V s) (run : List (Step ω α β τ)) :
    Transition.EveryState (step V) (fun s => s.fresh → Consistent V s) s run :=
  Transition.EveryState.mono (fun _ hinv => Inv.consistent hinv)
    (Transition.everyState_of_everyStep (C := fun _ _ => True)
      (fun _ _ _ hinv _ hs => Inv.step hinv hs) h.inv
      (Transition.everyStep_trivial _ _))

end DerivedView
