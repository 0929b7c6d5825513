import Mathlib.Data.List.Basic
import Mathlib.Data.List.Nodup

/-!
# Tables as lists of rows

A table is the list of its rows in insertion order; a statement is a function on
it.  `updateWhere p f` is `update … set f where p`, and `delete … where p` is
`List.filter`.  A unique key is a function `key` of the row with
`(rows.map key).Nodup`; the lemmas say which statements keep it.
-/

namespace Table

universe u v

variable {ρ : Type u} {κ : Type v}

/-- `update … set f where p`. -/
def updateWhere (p : ρ → Bool) (f : ρ → ρ) (rows : List ρ) : List ρ :=
  rows.map fun row => if p row then f row else row

/-- The number of rows that a statement with this condition changes. -/
def changes (p : ρ → Bool) (rows : List ρ) : ℕ := rows.countP p

theorem mem_updateWhere {p : ρ → Bool} {f : ρ → ρ} {rows : List ρ} {row : ρ} :
    row ∈ updateWhere p f rows ↔ ∃ old ∈ rows, (if p old then f old else old) = row := by
  simp [updateWhere]

/-- A statement that keeps the key keeps the whole key column. -/
theorem map_key_updateWhere {p : ρ → Bool} {f : ρ → ρ} (key : ρ → κ) {rows : List ρ}
    (hf : ∀ row ∈ rows, p row → key (f row) = key row) :
    (updateWhere p f rows).map key = rows.map key := by
  rw [updateWhere, List.map_map]
  apply List.map_congr_left
  intro row hrow
  by_cases h : p row
  · simp [h, hf row hrow h]
  · simp [h]

/-- A statement that keeps the key keeps what holds of all keys. -/
theorem forall_key_updateWhere (key : ρ → κ) (P : κ → Prop) (p : ρ → Bool) {f : ρ → ρ}
    (rows : List ρ) (hf : ∀ row, key (f row) = key row) :
    (∀ row ∈ updateWhere p f rows, P (key row)) ↔ ∀ row ∈ rows, P (key row) := by
  rw [← List.forall_mem_map (f := key) (P := P), map_key_updateWhere key fun row _ _ => hf row,
    List.forall_mem_map]

/-- Two tables with the same column have rows that agree on it. -/
theorem exists_of_map_eq {key : ρ → κ} {rows rows' : List ρ} (h : rows'.map key = rows.map key)
    {row : ρ} (hrow : row ∈ rows') : ∃ old ∈ rows, key old = key row := by
  have hmem : key row ∈ rows.map key := h ▸ List.mem_map_of_mem hrow
  exact List.mem_map.mp hmem

/-- An update whose condition no row meets changes nothing. -/
theorem updateWhere_of_none {p : ρ → Bool} {f : ρ → ρ} {rows : List ρ}
    (h : ∀ row ∈ rows, p row = false) : updateWhere p f rows = rows := by
  rw [updateWhere]
  conv_rhs => rw [← List.map_id rows]
  apply List.map_congr_left
  intro row hrow
  simp [h row hrow]

/-- An update that sets nothing. -/
theorem updateWhere_self (p : ρ → Bool) (rows : List ρ) :
    updateWhere p (fun row => row) rows = rows := by
  simp [updateWhere]

/-- A selection that an update leaves: of the rows it changes none is selected, before or
after. -/
theorem filter_updateWhere_of_disjoint {p q : ρ → Bool} {f : ρ → ρ} {rows : List ρ}
    (h : ∀ row ∈ rows, p row → q row = false ∧ q (f row) = false) :
    (updateWhere p f rows).filter q = rows.filter q := by
  induction rows with
  | nil => rfl
  | cons row rows ih =>
      have hrows := ih fun old hold => h old (List.mem_cons_of_mem _ hold)
      rw [updateWhere, List.map_cons, ← updateWhere]
      by_cases hp : p row
      · obtain ⟨hbefore, hafter⟩ := h row List.mem_cons_self hp
        rw [if_pos hp, List.filter_cons_of_neg (by simp [hafter]),
          List.filter_cons_of_neg (by simp [hbefore]), hrows]
      · rw [if_neg hp, List.filter_cons, List.filter_cons, hrows]

/-- Two updates that agree on the rows they change agree. -/
theorem updateWhere_congr {p : ρ → Bool} {f g : ρ → ρ} {rows : List ρ}
    (h : ∀ row ∈ rows, p row → f row = g row) : updateWhere p f rows = updateWhere p g rows := by
  rw [updateWhere, updateWhere]
  apply List.map_congr_left
  intro row hrow
  by_cases hp : p row
  · simp [hp, h row hrow hp]
  · simp [hp]

/-- Two updates to the same values, where the second finds no row that the first has
changed, are one. -/
theorem updateWhere_updateWhere {p q : ρ → Bool} {f : ρ → ρ} {rows : List ρ}
    (h : ∀ row ∈ rows, p row → q (f row) = false) :
    updateWhere q f (updateWhere p f rows) = updateWhere (fun row => p row || q row) f rows := by
  rw [updateWhere, updateWhere, updateWhere, List.map_map]
  apply List.map_congr_left
  intro row hrow
  by_cases hp : p row
  · simp [hp, h row hrow hp]
  · simp [hp]

theorem changes_updateWhere {p q : ρ → Bool} {f : ρ → ρ} {rows : List ρ}
    (h : ∀ row ∈ rows, p row → q (f row) = false) :
    changes p rows + changes q (updateWhere p f rows) =
      changes (fun row => p row || q row) rows := by
  induction rows with
  | nil => rfl
  | cons row rows ih =>
      have hrest := ih fun old hold => h old (List.mem_cons_of_mem _ hold)
      rw [changes, changes, changes, updateWhere] at hrest ⊢
      rw [List.map_cons, List.countP_cons, List.countP_cons, List.countP_cons]
      by_cases hp : p row
      · simp only [hp, if_true, h row List.mem_cons_self hp, Bool.true_or]
        simp only [Bool.false_eq_true, if_false]
        omega
      · simp only [hp, Bool.false_eq_true, if_false, Bool.false_or]
        omega

/-- **A statement for each of several values** is one statement, if a row that is changed meets no
other condition. -/
theorem foldl_updateWhere {τ : Type} {p : τ → ρ → Bool} {f : ρ → ρ}
    (h : ∀ t row, p t row = true → ∀ t', p t' (f row) = false) (ts : List τ) (rows : List ρ) :
    ts.foldl (fun rows t => updateWhere (p t) f rows) rows =
      updateWhere (fun row => ts.any fun t => p t row) f rows := by
  induction ts generalizing rows with
  | nil => exact (updateWhere_of_none fun _ _ => rfl).symm
  | cons t ts ih =>
      rw [List.foldl_cons, ih, updateWhere_updateWhere]
      · rfl
      · intro row _ hrow
        exact List.any_eq_false.mpr fun t' _ => Bool.eq_false_iff.mp (h t row hrow t')

/-- Deleting for each of several values. -/
theorem foldl_filter {τ : Type} (p : τ → ρ → Bool) (ts : List τ) (rows : List ρ) :
    ts.foldl (fun rows t => rows.filter fun row => ! p t row) rows =
      rows.filter fun row => ! ts.any fun t => p t row := by
  induction ts generalizing rows with
  | nil => exact (List.filter_eq_self.mpr fun _ _ => rfl).symm
  | cons t ts ih =>
      rw [List.foldl_cons, ih, List.filter_filter]
      refine List.filter_congr fun row _ => ?_
      rw [List.any_cons, Bool.not_or, Bool.and_comm]

/-- After it no row meets any of the conditions. -/
theorem mem_updateWhere_of_not {τ : Type} {p : τ → ρ → Bool} {f : ρ → ρ} {ts : List τ}
    {rows : List ρ} {row : ρ} (hf : ∀ t row, p t (f row) = false)
    (hrow : row ∈ updateWhere (fun row => ts.any fun t => p t row) f rows) {t : τ} (ht : t ∈ ts) :
    p t row = false := by
  obtain ⟨old, -, rfl⟩ := mem_updateWhere.mp hrow
  split
  · exact hf t old
  · rename_i hnone
    exact Bool.eq_false_iff.mpr fun hp => hnone (List.any_eq_true.mpr ⟨t, ht, hp⟩)

theorem mem_filter_of_not {τ : Type} {p : τ → ρ → Bool} {ts : List τ} {rows : List ρ} {row : ρ}
    (hrow : row ∈ rows.filter fun row => ! ts.any fun t => p t row) {t : τ} (ht : t ∈ ts) :
    p t row = false := by
  have hnone : (ts.any fun t => p t row) = false :=
    (Bool.not_eq_true' _).mp (List.mem_filter.mp hrow).2
  exact Bool.eq_false_iff.mpr (List.any_eq_false.mp hnone t ht)

/-- A statement that finds no row counts none and deletes none. -/
theorem changes_eq_zero {p : ρ → Bool} {rows : List ρ} (h : ∀ row ∈ rows, p row = false) :
    changes p rows = 0 :=
  List.countP_eq_zero.mpr fun row hrow => Bool.eq_false_iff.mp (h row hrow)

theorem filter_not_eq_self {p : ρ → Bool} {rows : List ρ} (h : ∀ row ∈ rows, p row = false) :
    (rows.filter fun row => ! p row) = rows :=
  List.filter_eq_self.mpr fun row hrow => by rw [h row hrow, Bool.not_false]

/-- A condition on columns that an update keeps. -/
theorem any_updateWhere {p q : ρ → Bool} {f : ρ → ρ} (h : ∀ row, q (f row) = q row)
    (rows : List ρ) : (updateWhere p f rows).any q = rows.any q := by
  rw [updateWhere, List.any_map]
  congr 1
  funext row
  show q (if p row then f row else row) = q row
  split
  · exact h row
  · rfl

/-- Two conditions that single out the same row give the same update. -/
theorem updateWhere_congr_key {p q : ρ → Bool} {f : ρ → ρ} {rows : List ρ} {row : ρ}
    (hp : ∀ r ∈ rows, p r ↔ r = row) (hq : ∀ r ∈ rows, q r ↔ r = row) :
    updateWhere p f rows = updateWhere q (fun _ => f row) rows := by
  rw [updateWhere, updateWhere]
  apply List.map_congr_left
  intro r hr
  by_cases hsame : r = row
  · rw [if_pos ((hp r hr).mpr hsame), if_pos ((hq r hr).mpr hsame), hsame]
  · rw [if_neg (fun h => hsame ((hp r hr).mp h)), if_neg (fun h => hsame ((hq r hr).mp h))]

/-- Under a unique key, a row is determined by its key. -/
theorem eq_of_key_eq {key : ρ → κ} {rows : List ρ} (hn : (rows.map key).Nodup)
    {a b : ρ} (ha : a ∈ rows) (hb : b ∈ rows) (h : key a = key b) : a = b :=
  List.inj_on_of_nodup_map hn ha hb h

/-- Under a unique key, a search by the key of a row finds the row. -/
theorem find?_of_mem [DecidableEq κ] {key : ρ → κ} {rows : List ρ} (hn : (rows.map key).Nodup)
    {row : ρ} (hrow : row ∈ rows) : (rows.find? fun r => key r = key row) = some row := by
  cases hfind : rows.find? fun r => key r = key row with
  | none => exact absurd (decide_eq_true rfl) (List.find?_eq_none.mp hfind row hrow)
  | some found =>
      have hkey : key found = key row := by simpa using List.find?_some hfind
      rw [eq_of_key_eq hn (List.mem_of_find?_eq_some hfind) hrow hkey]

/-- Deleting rows keeps a unique key. -/
theorem nodup_key_filter {key : ρ → κ} {rows : List ρ} (hn : (rows.map key).Nodup)
    (p : ρ → Bool) : ((rows.filter p).map key).Nodup :=
  hn.sublist ((List.filter_sublist (l := rows)).map key)

/-- Inserting a row with a new key keeps a unique key. -/
theorem nodup_key_append {key : ρ → κ} {rows : List ρ} (hn : (rows.map key).Nodup)
    {row : ρ} (hrow : ∀ old ∈ rows, key old ≠ key row) :
    ((rows ++ [row]).map key).Nodup := by
  rw [List.map_append, List.map_singleton, List.nodup_append]
  refine ⟨hn, List.nodup_singleton _, ?_⟩
  intro a ha b hb
  obtain ⟨old, hold, rfl⟩ := List.mem_map.mp ha
  rw [List.mem_singleton.mp hb]
  exact hrow old hold

/-- `select distinct`, or a set in insertion order. -/
theorem nodup_eraseDups [DecidableEq ρ] (rows : List ρ) : rows.eraseDups.Nodup := by
  induction h : rows.length using Nat.strongRecOn generalizing rows with
  | ind n ih =>
      cases rows with
      | nil => simp
      | cons row rest =>
          rw [List.eraseDups_cons, List.nodup_cons]
          constructor
          · simp [List.mem_eraseDups]
          · refine ih _ ?_ _ rfl
            rw [← h, List.length_cons]
            exact Nat.lt_succ_of_le (List.length_filter_le _ _)

/-! ### Inserting under a unique key -/

section Insert

variable [DecidableEq κ] {key : ρ → κ}

/-- `insert into …`: refused where a row has the key already. -/
def insert (key : ρ → κ) (rows : List ρ) (row : ρ) : Option (List ρ) :=
  if rows.any fun old => key old = key row then none else some (rows ++ [row])

/-- One `insert` for each row, up to the first that is refused. -/
def insertAll (key : ρ → κ) : List ρ → List ρ → Option (List ρ)
  | rows, [] => some rows
  | rows, row :: rest => (insert key rows row).bind fun rows => insertAll key rows rest

theorem insert_eq_some {rows out : List ρ} {row : ρ} :
    insert key rows row = some out ↔ (∀ old ∈ rows, key old ≠ key row) ∧ out = rows ++ [row] := by
  unfold insert
  split
  · rename_i h
    obtain ⟨old, hold, hkey⟩ := List.any_eq_true.mp h
    constructor
    · intro habsurd
      cases habsurd
    · rintro ⟨hall, -⟩
      exact absurd (of_decide_eq_true hkey) (hall old hold)
  · rename_i h
    have hall : ∀ old ∈ rows, key old ≠ key row := by
      intro old hold hkey
      exact h (List.any_eq_true.mpr ⟨old, hold, decide_eq_true hkey⟩)
    rw [Option.some_inj]
    constructor
    · rintro rfl
      exact ⟨hall, rfl⟩
    · rintro ⟨-, rfl⟩
      rfl

/-- A batch is inserted exactly when its keys are new and pairwise distinct. -/
theorem insertAll_eq_some {new : List ρ} : ∀ {rows out : List ρ},
    insertAll key rows new = some out ↔
      (new.map key).Nodup ∧ (∀ old ∈ rows, ∀ row ∈ new, key old ≠ key row) ∧
        out = rows ++ new := by
  induction new with
  | nil => intro rows out; simp [insertAll, eq_comm]
  | cons row rest ih =>
      intro rows out
      rw [insertAll, Option.bind_eq_some_iff]
      constructor
      · rintro ⟨between, hinsert, hrest⟩
        obtain ⟨hnew, rfl⟩ := insert_eq_some.mp hinsert
        obtain ⟨hnodup, hdisjoint, rfl⟩ := ih.mp hrest
        refine ⟨?_, ?_, by simp⟩
        · rw [List.map_cons, List.nodup_cons]
          refine ⟨?_, hnodup⟩
          intro hmem
          obtain ⟨other, hother, hkey⟩ := List.mem_map.mp hmem
          exact hdisjoint row (by simp) other hother hkey.symm
        · intro old hold other hother
          rcases List.mem_cons.mp hother with rfl | hother
          · exact hnew old hold
          · exact hdisjoint old (by simp [hold]) other hother
      · rintro ⟨hnodup, hdisjoint, rfl⟩
        rw [List.map_cons, List.nodup_cons] at hnodup
        refine ⟨rows ++ [row], ?_, ih.mpr ⟨hnodup.2, ?_, by simp⟩⟩
        · exact insert_eq_some.mpr ⟨fun old hold => hdisjoint old hold row (by simp), rfl⟩
        · intro old hold other hother
          rcases List.mem_append.mp hold with hold | hlast
          · exact hdisjoint old hold other (by simp [hother])
          · rw [List.mem_singleton.mp hlast]
            intro hkey
            exact hnodup.1 (List.mem_map.mpr ⟨other, hother, hkey.symm⟩)

/-! ### Upserting -/

/-- `insert into … on conflict (key) do update set refresh`. -/
def upsert (key : ρ → κ) (refresh : ρ → ρ) (rows : List ρ) (row : ρ) : List ρ :=
  if rows.any fun old => key old = key row then
    updateWhere (fun old => key old = key row) refresh rows
  else rows ++ [row]

variable {refresh : ρ → ρ} {rows : List ρ} {row : ρ}

theorem mem_upsert {new : ρ} : new ∈ upsert key refresh rows row ↔
    (new ∈ rows ∧ key new ≠ key row) ∨
      (∃ old ∈ rows, key old = key row ∧ new = refresh old) ∨
      ((∀ old ∈ rows, key old ≠ key row) ∧ new = row) := by
  unfold upsert
  split
  · rename_i hany
    obtain ⟨hit, hhit, hkey⟩ := List.any_eq_true.mp hany
    rw [mem_updateWhere]
    constructor
    · rintro ⟨old, hold, rfl⟩
      by_cases hsame : key old = key row
      · exact .inr (.inl ⟨old, hold, hsame, by simp [hsame]⟩)
      · exact .inl (by simp [hsame, hold])
    · rintro (⟨hnew, hdiff⟩ | ⟨old, hold, hsame, rfl⟩ | ⟨hall, -⟩)
      · exact ⟨new, hnew, by simp [hdiff]⟩
      · exact ⟨old, hold, by simp [hsame]⟩
      · exact absurd (of_decide_eq_true hkey) (hall hit hhit)
  · rename_i hany
    have hall : ∀ old ∈ rows, key old ≠ key row := by
      intro old hold hkey
      exact hany (List.any_eq_true.mpr ⟨old, hold, decide_eq_true hkey⟩)
    rw [List.mem_append, List.mem_singleton]
    constructor
    · rintro (hnew | rfl)
      · exact .inl ⟨hnew, hall new hnew⟩
      · exact .inr (.inr ⟨hall, rfl⟩)
    · rintro (⟨hnew, -⟩ | ⟨old, hold, hsame, -⟩ | ⟨-, rfl⟩)
      · exact .inl hnew
      · exact absurd hsame (hall old hold)
      · exact .inr rfl

/-- An upsert keeps its key unique. -/
theorem nodup_key_upsert (hn : (rows.map key).Nodup)
    (hkeep : ∀ old ∈ rows, key old = key row → key (refresh old) = key row) :
    ((upsert key refresh rows row).map key).Nodup := by
  unfold upsert
  split
  · rw [map_key_updateWhere key fun old hold hsame =>
      (hkeep old hold (of_decide_eq_true hsame)).trans (of_decide_eq_true hsame).symm]
    exact hn
  · rename_i hany
    refine nodup_key_append hn fun old hold hsame => ?_
    exact hany (List.any_eq_true.mpr ⟨old, hold, decide_eq_true hsame⟩)

/-- An update that keeps the key is found under the key it had. -/
theorem find?_updateWhere_key {p : ρ → Bool} {f : ρ → ρ} (k : κ) :
    ∀ {rows : List ρ}, (∀ old ∈ rows, p old → key (f old) = key old) →
      (updateWhere p f rows).find? (fun r => key r = k) =
        (rows.find? fun r => key r = k).map fun old => if p old then f old else old := by
  intro rows
  induction rows with
  | nil => intro _; rfl
  | cons old rest ih =>
      intro hkeep
      have hrest := ih fun r hr => hkeep r (List.mem_cons_of_mem _ hr)
      have hkey : key (if p old then f old else old) = key old := by
        split
        · rename_i hp
          exact hkeep old List.mem_cons_self hp
        · rfl
      show ((if p old then f old else old) :: updateWhere p f rest).find? _ = _
      by_cases hk : key old = k
      · rw [List.find?_cons_of_pos (by simpa [hkey] using hk),
          List.find?_cons_of_pos (by simpa using hk), Option.map_some]
      · rw [List.find?_cons_of_neg (by simpa [hkey] using hk),
          List.find?_cons_of_neg (by simpa using hk), hrest]

/-- Reading a key after an upsert: its own key has the new row, every other key what it had. -/
theorem find?_upsert (hkeep : ∀ old ∈ rows, key old = key row → key (refresh old) = key row)
    (k : κ) : (upsert key refresh rows row).find? (fun r => key r = k) =
      if k = key row then some ((rows.find? fun r => key r = k).elim row refresh)
      else rows.find? fun r => key r = k := by
  unfold upsert
  split
  · rename_i hany
    obtain ⟨hit, hhit, hkey⟩ := List.any_eq_true.mp hany
    rw [find?_updateWhere_key k fun old hold hsame =>
      (hkeep old hold (of_decide_eq_true hsame)).trans (of_decide_eq_true hsame).symm]
    cases hfind : rows.find? fun r => key r = k with
    | none =>
        have hk : k ≠ key row := by
          rintro rfl
          exact List.find?_eq_none.mp hfind hit hhit hkey
        rw [if_neg hk, Option.map_none]
    | some old =>
        have hold : key old = k := by simpa using List.find?_some hfind
        simp [hold]
        split <;> rfl
  · rename_i hany
    rw [List.find?_append]
    by_cases hk : k = key row
    · subst hk
      have hnone : rows.find? (fun r => key r = key row) = none := by
        rw [List.find?_eq_none]
        intro old hold hsame
        exact hany (List.any_eq_true.mpr ⟨old, hold, hsame⟩)
      simp [hnone]
    · have hother : ([row].find? fun r => key r = k) = none := by
        simp [Ne.symm hk]
      rw [hother, Option.or_none, if_neg hk]

end Insert

/-- Two key functions that identify the same rows are injective on a table together. -/
theorem nodup_map_congr {κ' : Type*} {f : ρ → κ} {g : ρ → κ'} {rows : List ρ}
    (h : ∀ a ∈ rows, ∀ b ∈ rows, f a = f b ↔ g a = g b) :
    (rows.map f).Nodup ↔ (rows.map g).Nodup := by
  rw [List.Nodup, List.Nodup, List.pairwise_map, List.pairwise_map]
  constructor
  · intro hp
    exact hp.imp_of_mem fun ha hb hne hkey => hne ((h _ ha _ hb).mpr hkey)
  · intro hp
    exact hp.imp_of_mem fun ha hb hne hkey => hne ((h _ ha _ hb).mp hkey)

end Table
