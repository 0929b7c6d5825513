import Mathlib.Data.List.Nodup

/-!
# Maps in insertion order

A finite map whose entries are kept in the order in which their keys were first set: setting a
key that is there changes its entry in place.  No key has two entries (`nodup`).
-/

universe u v

/-- The entries, first set first. -/
structure InsertionMap (κ : Type u) (ν : Type v) where
  entries : List (κ × ν)
  nodup : (entries.map Prod.fst).Nodup
deriving DecidableEq

namespace InsertionMap

variable {κ : Type u} {ν : Type v}

/-- No entries. -/
def empty : InsertionMap κ ν := ⟨[], List.nodup_nil⟩

/-- The keys in order. -/
def keys (m : InsertionMap κ ν) : List κ := m.entries.map Prod.fst

def size (m : InsertionMap κ ν) : ℕ := m.entries.length

/-- Only some of the entries. -/
def restrict (m : InsertionMap κ ν) (entries : List (κ × ν)) (h : entries.Sublist m.entries) :
    InsertionMap κ ν :=
  ⟨entries, (h.map Prod.fst).nodup m.nodup⟩

variable {m : InsertionMap κ ν} {k k' : κ} {v v' : ν}

@[simp] theorem keys_restrict {entries : List (κ × ν)} (h : entries.Sublist m.entries) :
    (m.restrict entries h).keys = entries.map Prod.fst := rfl

theorem size_eq (m : InsertionMap κ ν) : m.size = m.keys.length := by
  rw [size, keys, List.length_map]

/-- A key has one entry. -/
theorem eq_of_mem (h : (k, v) ∈ m.entries) (h' : (k, v') ∈ m.entries) : v = v' :=
  congrArg Prod.snd (List.inj_on_of_nodup_map m.nodup h h' rfl)

variable [DecidableEq κ]

def get? (m : InsertionMap κ ν) (k : κ) : Option ν := m.entries.lookup k

/-- An entry in place, or a new one at the end. -/
def set (m : InsertionMap κ ν) (k : κ) (v : ν) : InsertionMap κ ν :=
  if h : k ∈ m.keys then
    { entries := m.entries.map fun entry => if entry.1 = k then (k, v) else entry
      nodup := by
        have hkeys : (fun entry : κ × ν => (if entry.1 = k then (k, v) else entry).1) =
            Prod.fst := by
          funext entry
          split
          · exact (‹entry.1 = k›).symm
          · rfl
        rw [List.map_map]
        show (m.entries.map fun entry => (if entry.1 = k then (k, v) else entry).1).Nodup
        rw [hkeys]
        exact m.nodup }
  else
    { entries := m.entries ++ [(k, v)]
      nodup := by
        rw [List.map_append]
        exact List.nodup_append'.mpr ⟨m.nodup, List.nodup_singleton _,
          List.disjoint_singleton.mpr h⟩ }

theorem get?_eq_some : m.get? k = some v ↔ (k, v) ∈ m.entries := by
  obtain ⟨entries, hnodup⟩ := m
  induction entries with
  | nil => simp [get?]
  | cons entry rest ih =>
      obtain ⟨key, value⟩ := entry
      obtain ⟨hkey, hrest⟩ := List.nodup_cons.mp hnodup
      have ih := ih hrest
      simp only [get?] at ih ⊢
      rw [List.lookup_cons]
      by_cases heq : k = key
      · subst heq
        simp only [beq_self_eq_true, Option.some.injEq, List.mem_cons, Prod.mk.injEq, true_and]
        refine ⟨fun h => .inl h.symm, fun h => h.elim Eq.symm fun hmem => ?_⟩
        exact absurd (List.mem_map_of_mem hmem) hkey
      · rw [beq_eq_false_iff_ne.mpr heq]
        simpa [heq] using ih

theorem keys_set : (m.set k v).keys = if k ∈ m.keys then m.keys else m.keys ++ [k] := by
  unfold set
  split
  · show (m.entries.map _).map Prod.fst = m.entries.map Prod.fst
    rw [List.map_map]
    refine List.map_congr_left fun entry _ => ?_
    by_cases hkey : entry.1 = k <;> simp [hkey]
  · show (m.entries ++ [(k, v)]).map Prod.fst = _
    rw [List.map_append]
    rfl

theorem size_set : (m.set k v).size = if k ∈ m.keys then m.size else m.size + 1 := by
  rw [size_eq, keys_set, apply_ite List.length, List.length_append, ← size_eq]
  rfl

/-- The entries after `set`. -/
theorem mem_set : (k', v') ∈ (m.set k v).entries ↔
    k' = k ∧ v' = v ∨ k' ≠ k ∧ (k', v') ∈ m.entries := by
  unfold set
  split
  · rename_i hmem
    show (k', v') ∈ m.entries.map _ ↔ _
    rw [List.mem_map]
    constructor
    · rintro ⟨entry, hentry, heq⟩
      by_cases hkey : entry.1 = k
      · rw [if_pos hkey] at heq
        exact .inl ⟨(congrArg Prod.fst heq).symm, (congrArg Prod.snd heq).symm⟩
      · rw [if_neg hkey] at heq
        subst heq
        exact .inr ⟨hkey, hentry⟩
    · rintro (⟨rfl, rfl⟩ | ⟨hkey, hentry⟩)
      · obtain ⟨entry, hentry, hkey⟩ := List.mem_map.mp hmem
        exact ⟨entry, hentry, if_pos hkey⟩
      · exact ⟨(k', v'), hentry, if_neg hkey⟩
  · rename_i hmem
    show (k', v') ∈ m.entries ++ [(k, v)] ↔ _
    rw [List.mem_append, List.mem_singleton, Prod.mk.injEq]
    constructor
    · rintro (hentry | hnew)
      · refine .inr ⟨?_, hentry⟩
        rintro rfl
        exact hmem (List.mem_map_of_mem hentry)
      · exact .inl hnew
    · rintro (hnew | ⟨-, hentry⟩)
      · exact .inr hnew
      · exact .inl hentry

end InsertionMap
