import Mathlib.Data.List.Sort
import Mathlib.Order.WithBot

/-!
# The first of the largest

`leader exceeds xs` is the element that a stable sort, largest first, puts in front of `xs`
(`head?_insertionSort`): an element gives way only to a later one that exceeds it.  Under a key in
a linear order it is the first of the elements with the largest key.

* `le_of_leader`: no element has a larger key.
* `overtaken_of_leader_ne`: where two keys have different leaders, one of them is overtaken.
* `tiedLeaders_of_sorted`: the leaders of two sorted lists of the same elements have one sort key
  and one score, also where scores are missing.
-/

namespace Leader

universe u v w

variable {α : Type u} {κ : Type v}

/-- The first of the largest. -/
def leader (exceeds : α → α → Bool) : List α → Option α
  | [] => none
  | x :: xs =>
      match leader exceeds xs with
      | none => some x
      | some y => some (if exceeds y x then y else x)

variable {exceeds exceeds' : α → α → Bool} {xs ys : List α} {x y : α}

theorem leader_cons_of_none (h : leader exceeds xs = none) : leader exceeds (x :: xs) = some x := by
  rw [leader, h]

theorem leader_cons_of_some (h : leader exceeds xs = some y) :
    leader exceeds (x :: xs) = some (if exceeds y x then y else x) := by
  rw [leader, h]

theorem leader_eq_none : leader exceeds xs = none ↔ xs = [] := by
  cases xs with
  | nil => exact iff_of_true rfl rfl
  | cons x xs =>
      refine iff_of_false ?_ (List.cons_ne_nil x xs)
      cases h : leader exceeds xs with
      | none => rw [leader_cons_of_none h]; exact Option.some_ne_none x
      | some y => rw [leader_cons_of_some h]; exact Option.some_ne_none _

/-- **The front of a stable sort** is the leader. -/
theorem head?_insertionSort (exceeds : α → α → Bool) (xs : List α) :
    (xs.insertionSort fun a b => ¬ exceeds b a).head? = leader exceeds xs := by
  induction xs with
  | nil => rfl
  | cons x xs ih =>
      rw [List.insertionSort_cons]
      cases hsort : xs.insertionSort fun a b => ¬ exceeds b a with
      | nil =>
          rw [hsort, List.head?_nil] at ih
          rw [leader_cons_of_none ih.symm]
          rfl
      | cons y rest =>
          rw [hsort, List.head?_cons] at ih
          rw [leader_cons_of_some ih.symm, List.orderedInsert_cons]
          cases hexceeds : exceeds y x with
          | true => rw [if_neg (not_not.mpr rfl), if_pos rfl]; rfl
          | false => rw [if_pos Bool.false_ne_true, if_neg Bool.false_ne_true]; rfl

theorem mem_of_leader (h : leader exceeds xs = some x) : x ∈ xs := by
  induction xs generalizing x with
  | nil => cases h
  | cons z zs ih =>
      cases hrest : leader exceeds zs with
      | none =>
          rw [leader_cons_of_none hrest] at h
          obtain rfl := Option.some.inj h
          exact List.mem_cons_self
      | some y =>
          rw [leader_cons_of_some hrest] at h
          obtain rfl := Option.some.inj h
          split
          · exact List.mem_cons_of_mem _ (ih hrest)
          · exact List.mem_cons_self

/-- Only the comparisons within the list count. -/
theorem leader_congr (h : ∀ a ∈ xs, ∀ b ∈ xs, exceeds a b = exceeds' a b) :
    leader exceeds xs = leader exceeds' xs := by
  induction xs with
  | nil => rfl
  | cons x xs ih =>
      have ih := ih fun a ha b hb => h a (List.mem_cons_of_mem _ ha) b (List.mem_cons_of_mem _ hb)
      cases hrest : leader exceeds' xs with
      | none => rw [leader_cons_of_none hrest, leader_cons_of_none (ih.trans hrest)]
      | some y =>
          have hy := mem_of_leader hrest
          rw [leader_cons_of_some hrest, leader_cons_of_some (ih.trans hrest),
            h y (List.mem_cons_of_mem _ hy) x List.mem_cons_self]

/-! ### Keys in a linear order -/

variable [LinearOrder κ] {key key' : α → κ}

/-- Larger keys exceed. -/
def byKey (key : α → κ) (a b : α) : Bool := key b < key a

theorem leader_byKey_cons (h : leader (byKey key) xs = some y) :
    (key x < key y ∧ leader (byKey key) (x :: xs) = some y) ∨
      (key y ≤ key x ∧ leader (byKey key) (x :: xs) = some x) := by
  rw [leader_cons_of_some h]
  by_cases hlt : key x < key y
  · exact Or.inl ⟨hlt, by rw [byKey, if_pos (decide_eq_true hlt)]⟩
  · exact Or.inr ⟨not_lt.mp hlt, by rw [if_neg (by simpa [byKey] using hlt)]⟩

/-- **The leader** has the largest key. -/
theorem le_of_leader (h : leader (byKey key) xs = some x) : ∀ y ∈ xs, key y ≤ key x := by
  induction xs generalizing x with
  | nil => cases h
  | cons z zs ih =>
      intro y hy
      cases hrest : leader (byKey key) zs with
      | none =>
          rw [leader_cons_of_none hrest] at h
          obtain rfl := Option.some.inj h
          rw [leader_eq_none.mp hrest, List.mem_singleton] at hy
          rw [hy]
      | some w =>
          obtain ⟨hlt, hlead⟩ | ⟨hle, hlead⟩ := leader_byKey_cons hrest (x := z)
          all_goals
            rw [hlead] at h
            obtain rfl := Option.some.inj h
          · obtain rfl | hy := List.mem_cons.mp hy
            · exact hlt.le
            · exact ih hrest y hy
          · obtain rfl | hy := List.mem_cons.mp hy
            · exact le_refl _
            · exact (ih hrest y hy).trans hle

/-- **Two leaders**: the one of the second key is behind in the first key, the one of the first
key is behind in the second, and one of the two is so strictly. -/
theorem overtaken_of_leader_ne (hx : leader (byKey key) xs = some x)
    (hy : leader (byKey key') xs = some y) (hne : x ≠ y) :
    (key y < key x ∧ key' x ≤ key' y) ∨ (key y ≤ key x ∧ key' x < key' y) := by
  induction xs generalizing x y with
  | nil => cases hx
  | cons z zs ih =>
      cases hrest : leader (byKey key) zs with
      | none =>
          have hrest' : leader (byKey key') zs = none := leader_eq_none.mpr (leader_eq_none.mp hrest)
          rw [leader_cons_of_none hrest] at hx
          rw [leader_cons_of_none hrest'] at hy
          exact absurd (Option.some.inj (hx.symm.trans hy)) hne
      | some v =>
          cases hrest' : leader (byKey key') zs with
          | none => rw [leader_eq_none.mp hrest'] at hrest; cases hrest
          | some w =>
              have hv := mem_of_leader hrest
              have hw := mem_of_leader hrest'
              obtain ⟨hlt, hlead⟩ | ⟨hle, hlead⟩ := leader_byKey_cons hrest (x := z)
              all_goals
                rw [hlead] at hx
                obtain rfl := Option.some.inj hx
                obtain ⟨hlt', hlead'⟩ | ⟨hle', hlead'⟩ := leader_byKey_cons hrest' (x := z)
                all_goals
                  rw [hlead'] at hy
                  obtain rfl := Option.some.inj hy
              · exact ih hrest hrest' hne
              · exact Or.inl ⟨hlt, (le_of_leader hrest' _ hv).trans hle'⟩
              · exact Or.inr ⟨(le_of_leader hrest _ hw).trans hle, hlt'⟩
              · exact absurd rfl hne

/-! ### Scores that may be missing, in sorted lists -/

/-- Larger scores exceed; an element without a score neither exceeds nor is exceeded. -/
def byScore (score : α → Option κ) (a b : α) : Bool :=
  (score a).any fun x => (score b).any fun y => y < x

variable {ι : Type w} {score : α → Option κ} {sortKey : α → ι}

/-- Where no score is missing, no element exceeds the leader. -/
theorem byScore_of_leader (hscored : ∀ y ∈ xs, (score y).isSome = true)
    (h : leader (byScore score) xs = some x) (hy : y ∈ xs) : byScore score y x = false := by
  let key (a : α) : WithBot κ := score a
  have hkey : ∀ a ∈ xs, ∀ b ∈ xs, byScore score a b = byKey key a b := by
    intro a ha b hb
    obtain ⟨m, hm⟩ := Option.isSome_iff_exists.mp (hscored a ha)
    obtain ⟨n, hn⟩ := Option.isSome_iff_exists.mp (hscored b hb)
    have hma : key a = (m : WithBot κ) := hm
    have hnb : key b = (n : WithBot κ) := hn
    rw [byScore, byKey, hm, hn, hma, hnb]
    exact decide_eq_decide.mpr WithBot.coe_lt_coe.symm
  rw [hkey y hy x (mem_of_leader h)]
  rw [leader_congr hkey] at h
  exact decide_eq_false (not_lt.mpr (le_of_leader h y hy))

/-- Elements that a sorted list may have in either order, with one score. -/
def Tied (sortKey : α → ι) (score : α → Option κ) (a b : α) : Prop :=
  sortKey a = sortKey b ∧ score a = score b

omit [LinearOrder κ] in
theorem Tied.refl (a : α) : Tied sortKey score a a := ⟨rfl, rfl⟩

omit [LinearOrder κ] in
theorem Tied.trans {a b c : α} (h : Tied sortKey score a b) (h' : Tied sortKey score b c) :
    Tied sortKey score a c :=
  ⟨h.1.trans h'.1, h.2.trans h'.2⟩

/-- The leader of an element and a list, by the leader of the list. -/
def front (exceeds : α → α → Bool) (x : α) (rest : Option α) : α :=
  rest.elim x fun y => if exceeds y x then y else x

theorem leader_cons (x : α) (xs : List α) :
    leader exceeds (x :: xs) = some (front exceeds x (leader exceeds xs)) := by
  cases h : leader exceeds xs with
  | none => exact leader_cons_of_none h
  | some y => exact leader_cons_of_some h

/-- Both lists are empty, or their leaders are tied. -/
def TiedLeaders (sortKey : α → ι) (score : α → Option κ) (xs ys : List α) : Prop :=
  Option.Rel (Tied sortKey score) (leader (byScore score) xs) (leader (byScore score) ys)

theorem TiedLeaders.refl (xs : List α) : TiedLeaders sortKey score xs xs := by
  unfold TiedLeaders
  cases leader (byScore score) xs with
  | none => exact Option.Rel.none
  | some x => exact Option.Rel.some (Tied.refl x)

theorem TiedLeaders.trans {zs : List α} (h : TiedLeaders sortKey score xs ys)
    (h' : TiedLeaders sortKey score ys zs) : TiedLeaders sortKey score xs zs := by
  unfold TiedLeaders at h h' ⊢
  generalize leader (byScore score) xs = x at h ⊢
  generalize leader (byScore score) ys = y at h h'
  cases h with
  | none => exact h'
  | some hxy =>
      generalize leader (byScore score) zs = z at h' ⊢
      cases h' with
      | some hyz => exact Option.Rel.some (hxy.trans hyz)

theorem TiedLeaders.cons (x : α) (h : TiedLeaders sortKey score xs ys) :
    TiedLeaders sortKey score (x :: xs) (x :: ys) := by
  unfold TiedLeaders at h ⊢
  rw [leader_cons, leader_cons]
  generalize leader (byScore score) xs = first at h ⊢
  generalize leader (byScore score) ys = second at h ⊢
  refine Option.Rel.some ?_
  cases h with
  | none => exact Tied.refl x
  | @some y y' hy =>
      have hsame : byScore score y x = byScore score y' x := by rw [byScore, byScore, hy.2]
      show Tied sortKey score (if byScore score y x then y else x) (if byScore score y' x then y' else x)
      rw [hsame]
      split
      · exact hy
      · exact Tied.refl x

theorem front_of_lt {x y : α} {m n : κ} (hx : score x = some m) (hy : score y = some n) (h : m < n) :
    front (byScore score) x (some y) = y := by
  refine if_pos ?_
  rw [byScore, hx, hy]
  exact decide_eq_true h

theorem front_of_le {x y : α} {m n : κ} (hx : score x = some m) (hy : score y = some n) (h : n ≤ m) :
    front (byScore score) x (some y) = x := by
  refine if_neg ?_
  rw [byScore, hx, hy]
  simpa using h

theorem front_of_none {x y : α} (h : score x = none ∨ score y = none) :
    front (byScore score) x (some y) = x := by
  refine if_neg ?_
  unfold byScore
  obtain h | h := h
  · rw [h]
    cases score y with
    | none => exact Bool.false_ne_true
    | some _ => exact Bool.false_ne_true
  · rw [h]
    exact Bool.false_ne_true

/-- Two elements that may be exchanged. -/
theorem tied_front_swap {x p : α} (hkey : sortKey x = sortKey p)
    (hscore : (score x).isSome = (score p).isSome) (rest : Option α) :
    Tied sortKey score (front (byScore score) x (some (front (byScore score) p rest)))
      (front (byScore score) p (some (front (byScore score) x rest))) := by
  cases hx : score x with
  | none =>
      have hp : score p = none := by simpa [hx] using hscore.symm
      rw [front_of_none (Or.inl hx), front_of_none (Or.inl hp)]
      exact ⟨hkey, hx.trans hp.symm⟩
  | some m =>
      obtain ⟨n, hp⟩ : ∃ n, score p = some n := by
        rw [hx] at hscore
        exact Option.isSome_iff_exists.mp hscore.symm
      have hpair : Tied sortKey score (front (byScore score) x (some p))
          (front (byScore score) p (some x)) := by
        obtain hlt | heq | hlt := lt_trichotomy m n
        · rw [front_of_lt hx hp hlt, front_of_le hp hx hlt.le]
          exact Tied.refl p
        · rw [front_of_le hx hp heq.ge, front_of_le hp hx heq.le]
          exact ⟨hkey, by rw [hx, hp, heq]⟩
        · rw [front_of_le hx hp hlt.le, front_of_lt hp hx hlt]
          exact Tied.refl x
      cases rest with
      | none => exact hpair
      | some y =>
          cases hy : score y with
          | none =>
              rw [front_of_none (Or.inr hy), front_of_none (Or.inr hy)]
              exact hpair
          | some k =>
              obtain hpk | hpk := lt_or_ge n k
              · rw [front_of_lt hp hy hpk]
                obtain hxk | hxk := lt_or_ge m k
                · rw [front_of_lt hx hy hxk, front_of_lt hp hy hpk]
                  exact Tied.refl y
                · rw [front_of_le hx hy hxk, front_of_lt hp hx (hpk.trans_le hxk)]
                  exact Tied.refl x
              · rw [front_of_le hp hy hpk]
                obtain hxk | hxk := lt_or_ge m k
                · rw [front_of_lt hx hy hxk, front_of_le hp hy hpk,
                    front_of_lt hx hp (hxk.trans_le hpk)]
                  exact Tied.refl p
                · rw [front_of_le hx hy hxk]
                  exact hpair

/-- An element may stand behind elements that it may be exchanged with. -/
theorem tiedLeaders_move {x : α} {before : List α} (after : List α)
    (h : ∀ p ∈ before, sortKey x = sortKey p ∧ (score x).isSome = (score p).isSome) :
    TiedLeaders sortKey score (x :: (before ++ after)) (before ++ x :: after) := by
  induction before with
  | nil => exact TiedLeaders.refl _
  | cons p before ih =>
      obtain ⟨hkey, hscore⟩ := h p List.mem_cons_self
      have hswap : TiedLeaders sortKey score (x :: p :: (before ++ after))
          (p :: x :: (before ++ after)) := by
        unfold TiedLeaders
        rw [leader_cons, leader_cons, leader_cons, leader_cons]
        exact Option.Rel.some (tied_front_swap hkey hscore _)
      exact hswap.trans ((ih fun p' hp' => h p' (List.mem_cons_of_mem _ hp')).cons p)

/-- **Sorted alike**: the leaders of two sorted lists of the same elements are tied, if the scores
are missing for all elements with one sort key or for none. -/
theorem tiedLeaders_of_sorted [PartialOrder ι] (hperm : xs.Perm ys)
    (hxs : xs.Pairwise fun a b => sortKey a ≤ sortKey b)
    (hys : ys.Pairwise fun a b => sortKey a ≤ sortKey b)
    (hscore : ∀ a ∈ xs, ∀ b ∈ xs, sortKey a = sortKey b → (score a).isSome = (score b).isSome) :
    TiedLeaders sortKey score xs ys := by
  induction xs generalizing ys with
  | nil =>
      rw [hperm.symm.eq_nil]
      exact TiedLeaders.refl _
  | cons x xs ih =>
      obtain ⟨hfirst, hrest⟩ := List.pairwise_cons.mp hxs
      obtain ⟨before, after, rfl⟩ := List.append_of_mem (hperm.subset List.mem_cons_self)
      have hperm' : xs.Perm (before ++ after) :=
        (hperm.trans List.perm_middle).cons_inv
      obtain ⟨hbefore, hafter, hcross⟩ := List.pairwise_append.mp hys
      have hmiddle := (List.pairwise_cons.mp hafter).2
      have hys' : (before ++ after).Pairwise fun a b => sortKey a ≤ sortKey b :=
        List.pairwise_append.mpr ⟨hbefore, hmiddle, fun a ha b hb =>
          hcross a ha b (List.mem_cons_of_mem _ hb)⟩
      have hstep := ih hperm' hrest hys' fun a ha b hb =>
        hscore a (List.mem_cons_of_mem _ ha) b (List.mem_cons_of_mem _ hb)
      refine (hstep.cons x).trans (tiedLeaders_move after fun p hp => ?_)
      have hpmem : p ∈ xs := hperm'.symm.subset (List.mem_append_left _ hp)
      have hkey : sortKey x = sortKey p :=
        le_antisymm (hfirst p hpmem) (hcross p hp x List.mem_cons_self)
      exact ⟨hkey, hscore x List.mem_cons_self p (List.mem_cons_of_mem _ hpmem) hkey⟩

end Leader
