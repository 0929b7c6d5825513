import Mathlib.Data.List.Forall2
import RecruitingOs.Lib.Table

/-!
# Two tables, row by row

Two stores that keep the same table hold rows that correspond, in the same order:
`List.Forall₂ R`.  The lemmas say how statements on both sides act on such tables, where
their conditions agree on corresponding rows.
-/

namespace Table

universe u v

variable {ρ : Type u} {τ : Type v} {R : ρ → τ → Prop} {rows : List ρ} {rows' : List τ}

theorem forall₂_exists_right (h : List.Forall₂ R rows rows') {row : ρ} (hrow : row ∈ rows) :
    ∃ row' ∈ rows', R row row' := by
  induction h with
  | nil => cases hrow
  | cons hr _ ih =>
      rcases List.mem_cons.mp hrow with rfl | hrest
      · exact ⟨_, List.mem_cons_self, hr⟩
      · obtain ⟨row', hmem, hrel⟩ := ih hrest
        exact ⟨row', List.mem_cons_of_mem _ hmem, hrel⟩

theorem forall₂_exists_left (h : List.Forall₂ R rows rows') {row' : τ} (hrow : row' ∈ rows') :
    ∃ row ∈ rows, R row row' := by
  have hflip : List.Forall₂ (flip R) rows' rows := List.Forall₂.flip h
  exact forall₂_exists_right hflip hrow

theorem forall₂_map {κ : Type*} {f : ρ → κ} {g : τ → κ} (h : List.Forall₂ R rows rows')
    (hkey : ∀ row row', R row row' → g row' = f row) : rows'.map g = rows.map f := by
  induction h with
  | nil => rfl
  | cons hr _ ih => rw [List.map_cons, List.map_cons, hkey _ _ hr, ih]

theorem forall₂_any {p : ρ → Bool} {p' : τ → Bool} (h : List.Forall₂ R rows rows')
    (hp : ∀ row row', R row row' → p' row' = p row) : rows'.any p' = rows.any p := by
  induction h with
  | nil => rfl
  | cons hr _ ih => rw [List.any_cons, List.any_cons, hp _ _ hr, ih]

theorem forall₂_changes {p : ρ → Bool} {p' : τ → Bool} (h : List.Forall₂ R rows rows')
    (hp : ∀ row row', R row row' → p' row' = p row) : changes p' rows' = changes p rows := by
  induction h with
  | nil => rfl
  | cons hr _ ih =>
      rw [changes, changes] at ih ⊢
      rw [List.countP_cons, List.countP_cons, hp _ _ hr, ih]

/-- Searches on both sides find corresponding rows. -/
theorem forall₂_find? {p : ρ → Bool} {p' : τ → Bool} (h : List.Forall₂ R rows rows')
    (hp : ∀ row row', R row row' → p' row' = p row) :
    Option.Rel R (rows.find? p) (rows'.find? p') := by
  induction h with
  | nil => exact .none
  | @cons row row' _ _ hr _ ih =>
      by_cases hrow : p row
      · rw [List.find?_cons_of_pos hrow, List.find?_cons_of_pos (by rw [hp _ _ hr, hrow])]
        exact .some hr
      · rw [List.find?_cons_of_neg hrow, List.find?_cons_of_neg (by rw [hp _ _ hr]; exact hrow)]
        exact ih

theorem forall₂_filter {p : ρ → Bool} {p' : τ → Bool} (h : List.Forall₂ R rows rows')
    (hp : ∀ row row', R row row' → p' row' = p row) :
    List.Forall₂ R (rows.filter p) (rows'.filter p') := by
  induction h with
  | nil => exact .nil
  | @cons row row' _ _ hr _ ih =>
      rw [List.filter_cons, List.filter_cons, hp _ _ hr]
      split
      · exact .cons hr ih
      · exact ih

/-- An update, row by row. -/
theorem rowwise_updateWhere {Q : ρ → ρ → Prop} {p : ρ → Bool} {f : ρ → ρ}
    (h : ∀ row ∈ rows, Q row (if p row then f row else row)) :
    List.Forall₂ Q rows (updateWhere p f rows) :=
  List.forall₂_map_right_iff.mpr (List.forall₂_same.mpr h)

/-- Updates on both sides that keep corresponding rows so. -/
theorem forall₂_updateWhere {S : ρ → τ → Prop} {p : ρ → Bool} {p' : τ → Bool} {f : ρ → ρ}
    {f' : τ → τ} (h : List.Forall₂ R rows rows') (hp : ∀ row row', R row row' → p' row' = p row)
    (hf : ∀ row row', row ∈ rows → R row row' → p row → S (f row) (f' row'))
    (hkeep : ∀ row row', R row row' → p row = false → S row row') :
    List.Forall₂ S (updateWhere p f rows) (updateWhere p' f' rows') := by
  induction h with
  | nil => exact .nil
  | @cons row row' _ _ hr _ ih =>
      refine .cons ?_ (ih fun r r' hmem => hf r r' (List.mem_cons_of_mem _ hmem))
      beta_reduce
      by_cases hrow : p row
      · rw [if_pos hrow, if_pos (by rw [hp _ _ hr, hrow])]
        exact hf row row' List.mem_cons_self hr hrow
      · rw [if_neg hrow, if_neg (by rw [hp _ _ hr]; exact hrow)]
        exact hkeep row row' hr (Bool.eq_false_iff.mpr hrow)

/-! ### A table and its image -/

section Image

variable {κ : Type*} {g : ρ → τ}

/-- An update of the image. -/
theorem updateWhere_map {p : ρ → Bool} {f : ρ → ρ} {p' : τ → Bool} {f' : τ → τ}
    (hp : ∀ row ∈ rows, p' (g row) = p row) (hf : ∀ row ∈ rows, p row → f' (g row) = g (f row)) :
    updateWhere p' f' (rows.map g) = (updateWhere p f rows).map g := by
  rw [updateWhere, updateWhere, List.map_map, List.map_map]
  apply List.map_congr_left
  intro row hrow
  show (if p' (g row) then f' (g row) else g row) = g (if p row then f row else row)
  rw [hp row hrow]
  split
  · rename_i hmet
    exact hf row hrow hmet
  · rfl

/-- An insert into the image. -/
theorem insert_map [DecidableEq κ] {key : ρ → κ} {key' : τ → κ} {row : ρ}
    (hkey : ∀ row, key' (g row) = key row) :
    insert key' (rows.map g) (g row) = (insert key rows row).map (List.map g) := by
  have hany : ((rows.map g).any fun old => key' old = key' (g row)) =
      rows.any fun old => key old = key row := by
    rw [List.any_map]
    simp [Function.comp_def, hkey]
  unfold insert
  rw [hany]
  split
  · rfl
  · simp

/-- An upsert into the image. -/
theorem upsert_map [DecidableEq κ] {key : ρ → κ} {key' : τ → κ} {refresh : ρ → ρ}
    {refresh' : τ → τ} {row : ρ} (hkey : ∀ row, key' (g row) = key row)
    (hrefresh : ∀ old ∈ rows, key old = key row → refresh' (g old) = g (refresh old)) :
    upsert key' refresh' (rows.map g) (g row) = (upsert key refresh rows row).map g := by
  have hany : ((rows.map g).any fun old => key' old = key' (g row)) =
      rows.any fun old => key old = key row := by
    rw [List.any_map]
    simp [Function.comp_def, hkey]
  unfold upsert
  rw [hany]
  split
  · refine updateWhere_map (fun old _ => by simp [hkey]) fun old hold hsame => ?_
    exact hrefresh old hold (of_decide_eq_true hsame)
  · simp

end Image

end Table
