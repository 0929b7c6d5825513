import Mathlib.Data.List.Sort

/-!
# `order by`

The rows of a query, sorted by a key; rows with one key come in any order
(`OrderedBy`).  Where two databases sort the same rows by keys that order them alike, what
they list is the same up to the order of rows with one key (`SameOrder`).
-/

namespace Listing

universe u v w x

variable {ρ : Type u} {ρ' : Type v} {κ : Type w} {κ' : Type x}

/-- `listed` has the given rows, sorted by the key. -/
def OrderedBy [LE κ] (key : ρ → κ) (rows listed : List ρ) : Prop :=
  listed.Perm rows ∧ listed.Pairwise fun a b => key a ≤ key b

/-- The same rows in the same order, except that rows with one key may be exchanged. -/
def SameOrder (key : ρ → κ) (listed listed' : List ρ) : Prop :=
  listed.Perm listed' ∧ listed.map key = listed'.map key

variable {key : ρ → κ} {key' : ρ' → κ'} {rows listed listed' : List ρ}

/-- There is something to list. -/
theorem exists_orderedBy [LinearOrder κ] (key : ρ → κ) (rows : List ρ) :
    ∃ listed, OrderedBy key rows listed := by
  let before (a b : ρ) : Prop := key a ≤ key b
  have : Std.Total before := ⟨fun a b => le_total (key a) (key b)⟩
  have : IsTrans ρ before := ⟨fun _ _ _ => le_trans⟩
  exact ⟨rows.insertionSort before, List.perm_insertionSort before rows,
    List.pairwise_insertionSort before rows⟩

/-- Rows that a second key orders alike. -/
theorem OrderedBy.map [LE κ] [LE κ'] {f : ρ → ρ'} (h : OrderedBy key rows listed)
    (hkey : ∀ a ∈ rows, ∀ b ∈ rows, key a ≤ key b → key' (f a) ≤ key' (f b)) :
    OrderedBy key' (rows.map f) (listed.map f) := by
  obtain ⟨hperm, hsorted⟩ := h
  refine ⟨hperm.map f, List.pairwise_map.mpr ?_⟩
  exact hsorted.imp_of_mem fun ha hb => hkey _ (hperm.subset ha) _ (hperm.subset hb)

/-- Two listings of the same rows. -/
theorem OrderedBy.sameOrder [PartialOrder κ] (h : OrderedBy key rows listed)
    (h' : OrderedBy key rows listed') : SameOrder key listed listed' := by
  have hperm : listed.Perm listed' := h.1.trans h'.1.symm
  have hsorted : (listed.map key).Pairwise (· ≤ ·) := List.pairwise_map.mpr h.2
  have hsorted' : (listed'.map key).Pairwise (· ≤ ·) := List.pairwise_map.mpr h'.2
  exact ⟨hperm, (hperm.map key).eq_of_pairwise (fun _ _ _ _ => le_antisymm) hsorted hsorted'⟩

theorem SameOrder.refl (listed : List ρ) : SameOrder key listed listed := ⟨List.Perm.refl _, rfl⟩

/-- What is listed, seen through a function that determines the key. -/
theorem SameOrder.map {g : ρ → ρ'} {k : κ → κ'} (h : SameOrder key listed listed')
    (hkey : ∀ row, key' (g row) = k (key row)) :
    SameOrder key' (listed.map g) (listed'.map g) := by
  refine ⟨h.1.map g, ?_⟩
  have hcolumn : ∀ l : List ρ, (l.map g).map key' = (l.map key).map k := by
    intro l
    rw [List.map_map, List.map_map]
    exact List.map_congr_left fun row _ => hkey row
  rw [hcolumn, hcolumn, h.2]

/-- The first row of a query whose first key only one row has. -/
theorem OrderedBy.head? [PartialOrder κ] (h : OrderedBy key rows listed)
    (h' : OrderedBy key rows listed')
    (hunique : ∀ a ∈ rows, ∀ b ∈ rows, key a = key b → a = b) : listed.head? = listed'.head? := by
  obtain ⟨hperm, hkeys⟩ := h.sameOrder h'
  cases listed with
  | nil => rw [hperm.symm.eq_nil]
  | cons a rest =>
      cases listed' with
      | nil => cases hperm.eq_nil
      | cons b rest' =>
          have hkey : key a = key b := List.head_eq_of_cons_eq hkeys
          rw [List.head?_cons, List.head?_cons,
            hunique a (h.1.subset List.mem_cons_self) b (h'.1.subset List.mem_cons_self) hkey]

end Listing
