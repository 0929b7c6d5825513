import Mathlib.Data.List.ProdSigma
import RecruitingOs.Lib.Relational
import RecruitingOs.Lib.Table

/-!
# States with a part for each owner

`part k s` is what a state keeps for the owner `k`.  A program is `Confined` to `k` if it does to
a state what it does to the part of `k` alone, with the same outcome, and leaves the parts of all
others as they are; an invariant may be assumed of the state, and has to be kept.  The rules follow
the programs, as those of `Maintains` do.  `Confines` is the same of one statement.

`Table.rowsOf` is the part of a table whose rows name their owner: the lemmas say which statements
and queries commute with it, and which statements leave it as it is.
-/

namespace Table

universe u v

variable {ρ : Type u} {κ ι : Type v} [DecidableEq κ] [DecidableEq ι] {p q : ρ → Bool}

/-- Rows that a deletion spares are selected as before. -/
theorem filter_filter_of_imp {rows : List ρ} (h : ∀ row ∈ rows, q row → p row) :
    (rows.filter p).filter q = rows.filter q := by
  rw [List.filter_filter]
  refine List.filter_congr fun row hrow => ?_
  by_cases hq : q row
  · rw [hq, h row hrow hq, Bool.and_self]
  · rw [Bool.not_eq_true] at hq
    rw [hq, Bool.false_and]

/-- The rows of an owner, whom a column names. -/
def rowsOf (column : ρ → κ) (k : κ) (rows : List ρ) : List ρ :=
  rows.filter fun row => column row = k

variable {column : ρ → κ} {k l : κ} {rows : List ρ} {row : ρ}

theorem mem_rowsOf : row ∈ rowsOf column k rows ↔ row ∈ rows ∧ column row = k := by
  rw [rowsOf, List.mem_filter, decide_eq_true_eq]

theorem rowsOf_cons : rowsOf column k (row :: rows) =
    if column row = k then row :: rowsOf column k rows else rowsOf column k rows := by
  rw [rowsOf, List.filter_cons]
  exact if_congr decide_eq_true_iff rfl rfl

theorem rowsOf_append {new : List ρ} :
    rowsOf column k (rows ++ new) = rowsOf column k rows ++ rowsOf column k new :=
  List.filter_append _ _

/-- What holds of every row and is kept by an update. -/
theorem forall_updateWhere {P : ρ → Prop} {f : ρ → ρ} (h : ∀ row ∈ rows, P row)
    (hf : ∀ row, P row → P (f row)) : ∀ row ∈ updateWhere p f rows, P row := by
  intro row hrow
  obtain ⟨old, hold, rfl⟩ := mem_updateWhere.mp hrow
  split
  · exact hf old (h old hold)
  · exact h old hold

/-- What holds of every row and of a new one. -/
theorem forall_concat {P : ρ → Prop} (h : ∀ row ∈ rows, P row) (hrow : P row) :
    ∀ new ∈ rows ++ [row], P new :=
  List.forall_mem_append.mpr ⟨h, List.forall_mem_singleton.mpr hrow⟩

/-! ### Queries of the owner -/

theorem filter_rowsOf (h : ∀ row ∈ rows, p row → column row = k) :
    (rowsOf column k rows).filter p = rows.filter p :=
  filter_filter_of_imp fun row hrow hp => decide_eq_true (h row hrow hp)

theorem find?_rowsOf (h : ∀ row ∈ rows, p row → column row = k) :
    (rowsOf column k rows).find? p = rows.find? p := by
  rw [← List.head?_filter, ← List.head?_filter, filter_rowsOf h]

theorem any_rowsOf (h : ∀ row ∈ rows, p row → column row = k) :
    (rowsOf column k rows).any p = rows.any p := by
  rw [Bool.eq_iff_iff, List.any_eq_true, List.any_eq_true]
  constructor
  · rintro ⟨row, hrow, hp⟩
    exact ⟨row, (mem_rowsOf.mp hrow).1, hp⟩
  · rintro ⟨row, hrow, hp⟩
    exact ⟨row, mem_rowsOf.mpr ⟨hrow, h row hrow hp⟩, hp⟩

/-- A join of rows of the owner. -/
theorem filter_product_rowsOf {ρ' : Type u} {column' : ρ' → κ} {rows' : List ρ'}
    {p : ρ × ρ' → Bool}
    (h : ∀ a ∈ rows, ∀ b ∈ rows', p (a, b) → column a = k ∧ column' b = k) :
    (rowsOf column k rows ×ˢ rowsOf column' k rows').filter p = (rows ×ˢ rows').filter p := by
  induction rows with
  | nil => rfl
  | cons a rows ih =>
      have hrest := ih fun old hold => h old (List.mem_cons_of_mem _ hold)
      have hpairs : ((rowsOf column' k rows').map fun b => (a, b)).filter p =
          (rows'.map fun b => (a, b)).filter p := by
        rw [List.filter_map, List.filter_map, filter_rowsOf]
        exact fun b hb hp => (h a List.mem_cons_self b hb hp).2
      rw [List.product_cons, List.filter_append, ← hrest]
      by_cases ha : column a = k
      · rw [rowsOf_cons, if_pos ha, List.product_cons, List.filter_append, hpairs]
      · have hnone : (rows'.map fun b => (a, b)).filter p = [] := by
          rw [List.filter_map, List.map_eq_nil_iff, List.filter_eq_nil_iff]
          exact fun b hb hp => ha (h a List.mem_cons_self b hb hp).1
        rw [rowsOf_cons, if_neg ha, hnone, List.nil_append]

/-! ### Statements of the owner, and of others -/

theorem rowsOf_concat (hrow : column row = k) :
    rowsOf column k (rows ++ [row]) = rowsOf column k rows ++ [row] := by
  rw [rowsOf_append, rowsOf_cons, if_pos hrow]
  rfl

theorem rowsOf_concat_of_ne (hrow : column row = k) (hl : l ≠ k) :
    rowsOf column l (rows ++ [row]) = rowsOf column l rows := by
  rw [rowsOf_append, rowsOf_cons, if_neg (hrow.trans_ne hl.symm)]
  exact List.append_nil _

theorem rowsOf_updateWhere {f : ρ → ρ} (hf : ∀ row ∈ rows, p row → column (f row) = column row) :
    rowsOf column k (updateWhere p f rows) = updateWhere p f (rowsOf column k rows) := by
  induction rows with
  | nil => rfl
  | cons row rows ih =>
      have hrest := ih fun old hold => hf old (List.mem_cons_of_mem _ hold)
      have hrow : column (if p row then f row else row) = column row := by
        split
        · exact hf row List.mem_cons_self ‹_›
        · rfl
      rw [updateWhere, List.map_cons, ← updateWhere, rowsOf_cons, rowsOf_cons, hrow, hrest]
      split
      · rfl
      · rfl

theorem rowsOf_updateWhere_of_ne {f : ρ → ρ} (hl : l ≠ k)
    (hf : ∀ row ∈ rows, p row → column row = k ∧ column (f row) = k) :
    rowsOf column l (updateWhere p f rows) = rowsOf column l rows := by
  refine filter_updateWhere_of_disjoint fun row hrow hp => ?_
  obtain ⟨hbefore, hafter⟩ := hf row hrow hp
  exact ⟨decide_eq_false (hbefore.trans_ne hl.symm), decide_eq_false (hafter.trans_ne hl.symm)⟩

variable {key : ρ → ι} {refresh : ρ → ρ}

theorem rowsOf_upsert (hrow : column row = k)
    (h : ∀ old ∈ rows, key old = key row → column old = k ∧ column (refresh old) = k) :
    rowsOf column k (upsert key refresh rows row) =
      upsert key refresh (rowsOf column k rows) row := by
  unfold upsert
  rw [any_rowsOf fun old hold hkey => (h old hold (of_decide_eq_true hkey)).1]
  split
  · refine rowsOf_updateWhere fun old hold hkey => ?_
    obtain ⟨hbefore, hafter⟩ := h old hold (of_decide_eq_true hkey)
    rw [hbefore, hafter]
  · exact rowsOf_concat hrow

theorem rowsOf_upsert_of_ne (hrow : column row = k) (hl : l ≠ k)
    (h : ∀ old ∈ rows, key old = key row → column old = k ∧ column (refresh old) = k) :
    rowsOf column l (upsert key refresh rows row) = rowsOf column l rows := by
  unfold upsert
  split
  · exact rowsOf_updateWhere_of_ne hl fun old hold hkey => h old hold (of_decide_eq_true hkey)
  · exact rowsOf_concat_of_ne hrow hl

/-- What an insertion conflicts with is of the owner. -/
theorem insert_rowsOf (hrow : column row = k) (h : ∀ old ∈ rows, key old = key row → column old = k) :
    insert key (rowsOf column k rows) row = (insert key rows row).map (rowsOf column k) := by
  unfold insert
  rw [any_rowsOf fun old hold hkey => h old hold (of_decide_eq_true hkey)]
  split
  · rfl
  · rw [Option.map_some, rowsOf_concat hrow]

theorem rowsOf_insert_of_ne {out : List ρ} (hrow : column row = k) (hl : l ≠ k)
    (h : insert key rows row = some out) : rowsOf column l out = rowsOf column l rows := by
  obtain ⟨-, rfl⟩ := insert_eq_some.mp h
  exact rowsOf_concat_of_ne hrow hl

end Table

namespace Relational

variable {ε σ α β γ κ : Type}

/-- A statement of the owner `k`. -/
structure Confines (I : σ → Prop) (part : κ → σ → σ) (k : κ) (f : σ → Option σ) : Prop where
  own : ∀ s, I s → f (part k s) = (f s).map (part k)
  keeps : ∀ s t, I s → f s = some t → I t
  others : ∀ s t, I s → f s = some t → ∀ l, l ≠ k → part l t = part l s

/-- A program of the owner `k`. -/
structure Confined (I : σ → Prop) (part : κ → σ → σ) (k : κ) (x : Program ε σ α) : Prop where
  own : ∀ s, I s → exec x (part k s) = ((exec x s).1, part k (exec x s).2)
  keeps : Maintains I x
  others : ∀ s, I s → ∀ l, l ≠ k → part l (exec x s).2 = part l s

variable {I : σ → Prop} {part : κ → σ → σ} {k : κ} {x : Program ε σ α}

/-- A choice that only looks at the part. -/
theorem Confines.ite {f g : σ → Option σ} {c : σ → Prop} [DecidablePred c]
    (hc : ∀ s, I s → (c (part k s) ↔ c s)) (hf : Confines I part k f)
    (hg : Confines I part k g) : Confines I part k fun s => if c s then f s else g s := by
  refine ⟨fun s hs => ?_, fun s t hs ht => ?_, fun s t hs ht => ?_⟩
  · rw [if_congr (hc s hs) rfl rfl, hf.own s hs, hg.own s hs]
    split
    · rfl
    · rfl
  · split at ht
    · exact hf.keeps s t hs ht
    · exact hg.keeps s t hs ht
  · split at ht
    · exact hf.others s t hs ht
    · exact hg.others s t hs ht

/-- A statement that is refused. -/
theorem Confines.refused : Confines I part k fun _ => none :=
  ⟨fun _ _ => rfl, fun _ _ _ h => (nomatch h), fun _ _ _ h => (nomatch h)⟩

/-- A statement that does nothing. -/
theorem Confines.nothing : Confines I part k fun s => some s := by
  refine ⟨fun _ _ => rfl, fun s t hs h => ?_, fun s t _ h l _ => ?_⟩
  · obtain rfl := Option.some.inj h
    exact hs
  · obtain rfl := Option.some.inj h
    rfl

/-- A row that may not be built. -/
theorem Confines.bind {ρ : Type} {f : ρ → σ → Option σ} {row : Option ρ}
    (hf : ∀ r, row = some r → Confines I part k (f r)) :
    Confines I part k fun s => row.bind fun r => f r s := by
  cases row with
  | none => exact Confines.refused
  | some r => exact hf r rfl

/-! ### One table of the state -/

/-- A table that is a list of rows, whose column names the owner. -/
structure Holds {ρ : Type} (part : κ → σ → σ) (get : σ → List ρ) (set : σ → List ρ → σ)
    (column : ρ → κ) [DecidableEq κ] : Prop where
  get_part : ∀ k s, get (part k s) = Table.rowsOf column k (get s)
  part_set : ∀ k s rows, part k (set s rows) = set (part k s) (Table.rowsOf column k rows)
  set_get : ∀ s, set s (get s) = s

section Holds

variable {ρ ι : Type} {get : σ → List ρ} {set : σ → List ρ → σ} {column : ρ → κ} [DecidableEq κ]
  [DecidableEq ι] {key : ρ → ι} {row : ρ}

theorem Holds.confines (h : Holds part get set column) {g : List ρ → Option (List ρ)}
    (hown : ∀ s, I s →
      g (Table.rowsOf column k (get s)) = (g (get s)).map (Table.rowsOf column k))
    (hothers : ∀ s rows, I s → g (get s) = some rows → ∀ l, l ≠ k →
      Table.rowsOf column l rows = Table.rowsOf column l (get s))
    (hkeeps : ∀ s rows, I s → g (get s) = some rows → I (set s rows)) :
    Confines I part k fun s => (g (get s)).map (set s) := by
  refine ⟨fun s hs => ?_, fun s t hs ht => ?_, fun s t hs ht l hl => ?_⟩
  · rw [h.get_part, hown s hs, Option.map_map, Option.map_map]
    exact congrArg (fun f => (g (get s)).map f) (funext fun rows => (h.part_set k s rows).symm)
  · obtain ⟨rows, hrows, rfl⟩ := Option.map_eq_some_iff.mp ht
    exact hkeeps s rows hs hrows
  · obtain ⟨rows, hrows, rfl⟩ := Option.map_eq_some_iff.mp ht
    rw [h.part_set, hothers s rows hs hrows l hl, ← h.part_set, h.set_get]

theorem Holds.confines_insert (h : Holds part get set column) (hrow : column row = k)
    (hkey : ∀ s, I s → ∀ old ∈ get s, key old = key row → column old = k)
    (hkeeps : ∀ s, I s → I (set s (get s ++ [row]))) :
    Confines I part k fun s => (Table.insert key (get s) row).map (set s) := by
  refine h.confines (g := fun rows => Table.insert key rows row)
    (fun s hs => Table.insert_rowsOf hrow (hkey s hs))
    (fun s rows _ hrows l hl => Table.rowsOf_insert_of_ne hrow hl hrows)
    fun s rows hs hrows => ?_
  obtain ⟨-, rfl⟩ := Table.insert_eq_some.mp hrows
  exact hkeeps s hs

theorem Holds.confines_updateWhere (h : Holds part get set column) {p : ρ → Bool} {f : ρ → ρ}
    (hp : ∀ s, I s → ∀ old ∈ get s, p old → column old = k ∧ column (f old) = k)
    (hkeeps : ∀ s, I s → I (set s (Table.updateWhere p f (get s)))) :
    Confines I part k fun s => some (set s (Table.updateWhere p f (get s))) := by
  refine h.confines (g := fun rows => some (Table.updateWhere p f rows)) (fun s hs => ?_)
    (fun s rows hs hrows l hl => ?_) fun s rows hs hrows => ?_
  · refine congrArg some (Eq.symm (Table.rowsOf_updateWhere fun old hold hold' => ?_))
    obtain ⟨hbefore, hafter⟩ := hp s hs old hold hold'
    rw [hbefore, hafter]
  · obtain rfl := Option.some.inj hrows
    exact Table.rowsOf_updateWhere_of_ne hl (hp s hs)
  · obtain rfl := Option.some.inj hrows
    exact hkeeps s hs

theorem Holds.confines_concat (h : Holds part get set column) (hrow : column row = k)
    (hkeeps : ∀ s, I s → I (set s (get s ++ [row]))) :
    Confines I part k fun s => some (set s (get s ++ [row])) := by
  refine h.confines (g := fun rows => some (rows ++ [row]))
    (fun s _ => congrArg some (Table.rowsOf_concat hrow).symm) (fun s rows _ hrows l hl => ?_)
    fun s rows hs hrows => ?_
  · obtain rfl := Option.some.inj hrows
    exact Table.rowsOf_concat_of_ne hrow hl
  · obtain rfl := Option.some.inj hrows
    exact hkeeps s hs

theorem Holds.confines_upsert (h : Holds part get set column) {refresh : ρ → ρ}
    (hrow : column row = k)
    (hkey : ∀ s, I s → ∀ old ∈ get s, key old = key row →
      column old = k ∧ column (refresh old) = k)
    (hkeeps : ∀ s, I s → I (set s (Table.upsert key refresh (get s) row))) :
    Confines I part k fun s => some (set s (Table.upsert key refresh (get s) row)) := by
  refine h.confines (g := fun rows => some (Table.upsert key refresh rows row))
    (fun s hs => congrArg some (Table.rowsOf_upsert hrow (hkey s hs)).symm)
    (fun s rows hs hrows l hl => ?_) fun s rows hs hrows => ?_
  · obtain rfl := Option.some.inj hrows
    exact Table.rowsOf_upsert_of_ne hrow hl (hkey s hs)
  · obtain rfl := Option.some.inj hrows
    exact hkeeps s hs

/-- A deletion of rows, of which those that belong to others stay. -/
theorem Holds.confines_filter (h : Holds part get set column) {p : ρ → Bool}
    (hp : ∀ s, I s → ∀ old ∈ get s, column old ≠ k → p old)
    (hkeeps : ∀ s, I s → I (set s ((get s).filter p))) :
    Confines I part k fun s => some (set s ((get s).filter p)) := by
  refine h.confines (g := fun rows => some (rows.filter p)) (fun s _ => ?_)
    (fun s rows hs hrows l hl => ?_) fun s rows hs hrows => ?_
  · exact congrArg some (List.filter_comm _ _ _)
  · obtain rfl := Option.some.inj hrows
    exact Table.filter_filter_of_imp fun old hold hown =>
      hp s hs old hold (of_decide_eq_true hown ▸ hl)
  · obtain rfl := Option.some.inj hrows
    exact hkeeps s hs

end Holds

namespace Confined

theorem pure (a : α) : Confined I part k (Pure.pure a : Program ε σ α) :=
  ⟨fun _ _ => rfl, Maintains.pure a, fun _ _ _ _ => rfl⟩

theorem throw (e : ε) : Confined I part k (MonadExcept.throw e : Program ε σ α) :=
  ⟨fun _ _ => rfl, Maintains.throw e, fun _ _ _ _ => rfl⟩

theorem read {f : σ → α} (hf : ∀ s, I s → f (part k s) = f s) :
    Confined I part k (Relational.read f : Program ε σ α) := by
  refine ⟨fun s hs => ?_, Maintains.read f, fun _ _ _ _ => rfl⟩
  rw [exec_read, exec_read, hf s hs]

theorem statement {refusal : ε} {f : σ → Option σ} (hf : Confines I part k f) :
    Confined I part k (Relational.statement refusal f) := by
  refine ⟨fun s hs => ?_, Maintains.statement fun s t hs ht => hf.keeps s t hs ht,
    fun s hs l hl => ?_⟩
  · rw [exec_statement, exec_statement, hf.own s hs]
    cases f s with
    | none => rfl
    | some t => rfl
  · rw [exec_statement]
    cases ht : f s with
    | none => rfl
    | some t => exact hf.others s t hs ht l hl

/-- **Sequencing.** -/
theorem bind {f : α → Program ε σ β} (hx : Confined I part k x)
    (hf : ∀ a, Confined I part k (f a)) : Confined I part k (x >>= f) := by
  refine ⟨fun s hs => ?_, hx.keeps.bind fun a => (hf a).keeps, fun s hs l hl => ?_⟩
  · have hfirst := hx.own s hs
    have hkept := hx.keeps s hs
    rw [exec_bind, exec_bind, hfirst]
    revert hkept
    rcases exec x s with ⟨e | a, t⟩
    · exact fun _ => rfl
    · exact fun hkept => (hf a).own t hkept
  · have hfirst := hx.others s hs l hl
    have hkept := hx.keeps s hs
    rw [exec_bind]
    revert hfirst hkept
    rcases exec x s with ⟨e | a, t⟩
    · exact fun hfirst _ => hfirst
    · exact fun hfirst hkept => ((hf a).others t hkept l hl).trans hfirst

theorem forM {f : γ → Program ε σ PUnit} {cs : List γ} (h : ∀ c ∈ cs, Confined I part k (f c)) :
    Confined I part k (cs.forM f) := by
  induction cs with
  | nil => exact pure PUnit.unit
  | cons c rest ih =>
      exact bind (h c List.mem_cons_self) fun _ => ih fun c hc => h c (List.mem_cons_of_mem _ hc)

/-- A rollback of the part is the part of the rollback. -/
theorem atomically {inTransaction : Bool} (hx : Confined I part k x) :
    Confined I part k (Relational.atomically inTransaction x) := by
  refine ⟨fun s hs => ?_, hx.keeps.atomically, fun s hs l hl => ?_⟩
  · have hown := hx.own s hs
    rw [exec_atomically, exec_atomically, hown]
    rcases exec x s with ⟨e | a, t⟩
    · cases inTransaction with
      | true => rfl
      | false => rfl
    · rfl
  · have hothers := hx.others s hs l hl
    rw [exec_atomically]
    revert hothers
    rcases exec x s with ⟨e | a, t⟩
    · cases inTransaction with
      | true => exact id
      | false => exact fun _ => rfl
    · exact id

end Confined

end Relational
