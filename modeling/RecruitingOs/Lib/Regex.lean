import Mathlib.Data.List.TakeWhile

/-!
# Backtracking regular expressions

A pattern is matched the way a backtracking engine matches it: `matchesAt` lists the matches that
begin at a place, in the order in which the engine tries them, and the first of them is the match.
Runs are of one class of letters, as in `\s+` or `[a-z]{3,30}`, and greedy or not; an optional part
is an alternative that comes before the empty pattern.
-/

/-- A pattern over an alphabet. -/
inductive Regex (α : Type)
  | empty
  /-- `[…]{min,max}`, with no upper bound for `none`. -/
  | run (p : α → Bool) (min : ℕ) (max : Option ℕ)
  /-- `[…]{min,max}?`. -/
  | lazyRun (p : α → Bool) (min : ℕ) (max : Option ℕ)
  /-- `\b`, for the letters of a word. -/
  | boundary (isWord : α → Bool)
  | seq (r s : Regex α)
  | alt (r s : Regex α)
  | group (n : ℕ) (r : Regex α)

namespace Regex

variable {α : Type}

/-- A match: the text that it takes, what comes after, and the groups that took part. -/
structure Found (α : Type) where
  text : List α
  rest : List α
  groups : List (ℕ × List α)
deriving DecidableEq

/-- The text of a group. -/
def Found.group (f : Found α) (n : ℕ) : Option (List α) := f.groups.lookup n

/-- One letter of a class. -/
def one (p : α → Bool) : Regex α := .run p 1 (some 1)

/-- `(?:r)?`. -/
def opt (r : Regex α) : Regex α := .alt r .empty

/-- Patterns one after the other. -/
def all : List (Regex α) → Regex α
  | [] => .empty
  | r :: rs => .seq r (all rs)

/-- `r|s|…`, of one pattern or more. -/
def any (r : Regex α) : List (Regex α) → Regex α
  | [] => r
  | s :: rs => .alt r (any s rs)

/-- How far a run can go. -/
def reach (p : α → Bool) (max : Option ℕ) (w : List α) : ℕ :=
  match max with
  | none => (w.takeWhile p).length
  | some m => min m (w.takeWhile p).length

/-- The numbers of the groups of a pattern. -/
def captures : Regex α → List ℕ
  | .empty | .run _ _ _ | .lazyRun _ _ _ | .boundary _ => []
  | .seq r s | .alt r s => r.captures ++ s.captures
  | .group n r => n :: r.captures

/-- The matches of a pattern after the letter `prev`, in the order in which they are tried. -/
def matchesAt : Regex α → Option α → List α → List (Found α)
  | .empty, _, w => [⟨[], w, []⟩]
  | .run p min max, _, w =>
      -- the longest first
      (List.range (reach p max w + 1 - min)).map fun i =>
        ⟨w.take (reach p max w - i), w.drop (reach p max w - i), []⟩
  | .lazyRun p min max, _, w =>
      -- the shortest first
      (List.range (reach p max w + 1 - min)).map fun i => ⟨w.take (min + i), w.drop (min + i), []⟩
  | .boundary isWord, prev, w =>
      if prev.any isWord = w.head?.any isWord then [] else [⟨[], w, []⟩]
  | .seq r s, prev, w =>
      (r.matchesAt prev w).flatMap fun f =>
        (s.matchesAt (f.text.getLast?.or prev) f.rest).map fun g =>
          ⟨f.text ++ g.text, g.rest, f.groups ++ g.groups⟩
  | .alt r s, prev, w => r.matchesAt prev w ++ s.matchesAt prev w
  | .group n r, prev, w =>
      (r.matchesAt prev w).map fun f => { f with groups := (n, f.text) :: f.groups }

/-- The match at a place. -/
def matchAt (r : Regex α) (prev : Option α) (w : List α) : Option (Found α) :=
  (r.matchesAt prev w).head?

/-- The first place where the pattern matches: the text before it, and the match. -/
def searchFrom (r : Regex α) (prev : Option α) : List α → Option (List α × Found α)
  | [] => (r.matchAt prev []).map fun f => ([], f)
  | a :: w =>
      match r.matchAt prev (a :: w) with
      | some f => some ([], f)
      | none => (r.searchFrom (some a) w).map fun (before, f) => (a :: before, f)

/-- `text.match(r)`. -/
def search (r : Regex α) (w : List α) : Option (Found α) := (r.searchFrom none w).map Prod.snd

/-- `r.test(text)`. -/
def test (r : Regex α) (w : List α) : Bool := (r.search w).isSome

/-- The matches of `text.matchAll(r)`, each with the text between it and the one before, and the
text after the last.  A match is looked for behind the one before; after an empty one, a letter
further on. -/
def scan (r : Regex α) : ℕ → Option α → List α → List (List α × Found α) × List α
  | 0, _, w => ([], w)
  | fuel + 1, prev, w =>
      match r.searchFrom prev w with
      | none => ([], w)
      | some (before, f) =>
          match f.text.getLast? with
          | some last =>
              let (found, rest) := r.scan fuel (some last) f.rest
              ((before, f) :: found, rest)
          | none =>
              match f.rest with
              | [] => ([(before, f)], [])
              | a :: w =>
                  match r.scan fuel (some a) w with
                  | ([], rest) => ([(before, f)], a :: rest)
                  | ((next, g) :: found, rest) => ((before, f) :: (a :: next, g) :: found, rest)

/-- `text.matchAll(r)`. -/
def matchAll (r : Regex α) (w : List α) : List (Found α) :=
  (r.scan (w.length + 1) none w).1.map Prod.snd

/-- `text.replace(r, replacement)` for a global pattern. -/
def replaceAll (r : Regex α) (replacement w : List α) : List α :=
  let (found, rest) := r.scan (w.length + 1) none w
  (found.flatMap fun (before, _) => before ++ replacement) ++ rest

variable {r s : Regex α} {p isWord : α → Bool} {lo k : ℕ} {hi : Option ℕ} {prev : Option α}
  {w before : List α} {f g : Found α} {n : ℕ}

-- The longest run is tried first.
example : (run (fun n : ℕ => n < 5) 1 none).matchesAt none [1, 2, 7] =
    [⟨[1, 2], [7], []⟩, ⟨[1], [2, 7], []⟩] := by
  rw [matchesAt]
  rfl

/-! ### Which matches there are -/

@[simp] theorem mem_matchesAt_empty : f ∈ (empty : Regex α).matchesAt prev w ↔ f = ⟨[], w, []⟩ :=
  List.mem_singleton

theorem mem_matchesAt_run : f ∈ (run p lo hi).matchesAt prev w ↔
    ∃ k, lo ≤ k ∧ k ≤ reach p hi w ∧ f = ⟨w.take k, w.drop k, []⟩ := by
  rw [matchesAt, List.mem_map]
  constructor
  · rintro ⟨i, hi, rfl⟩
    rw [List.mem_range] at hi
    exact ⟨_, by omega, by omega, rfl⟩
  · rintro ⟨k, hlo, hk, rfl⟩
    refine ⟨reach p hi w - k, List.mem_range.mpr (by omega), ?_⟩
    rw [Nat.sub_sub_self hk]

theorem mem_matchesAt_lazyRun :
    f ∈ (lazyRun p lo hi).matchesAt prev w ↔ f ∈ (run p lo hi).matchesAt prev w := by
  rw [mem_matchesAt_run, matchesAt, List.mem_map]
  constructor
  · rintro ⟨i, hi, rfl⟩
    rw [List.mem_range] at hi
    exact ⟨_, by omega, by omega, rfl⟩
  · rintro ⟨k, hlo, hk, rfl⟩
    refine ⟨k - lo, List.mem_range.mpr (by omega), ?_⟩
    rw [Nat.add_sub_cancel' hlo]

theorem mem_matchesAt_seq : f ∈ (seq r s).matchesAt prev w ↔
    ∃ a ∈ r.matchesAt prev w, ∃ b ∈ s.matchesAt (a.text.getLast?.or prev) a.rest,
      f = ⟨a.text ++ b.text, b.rest, a.groups ++ b.groups⟩ := by
  simp only [matchesAt, List.mem_flatMap, List.mem_map, eq_comm]

theorem exists_mem_matchesAt_seq (hr : f ∈ r.matchesAt prev w)
    (hs : ∃ g, g ∈ s.matchesAt (f.text.getLast?.or prev) f.rest) :
    ∃ g, g ∈ (seq r s).matchesAt prev w := by
  obtain ⟨g, hg⟩ := hs
  exact ⟨_, mem_matchesAt_seq.mpr ⟨f, hr, g, hg, rfl⟩⟩

theorem mem_matchesAt_alt :
    f ∈ (alt r s).matchesAt prev w ↔ f ∈ r.matchesAt prev w ∨ f ∈ s.matchesAt prev w :=
  List.mem_append

theorem mem_matchesAt_opt :
    f ∈ (opt r).matchesAt prev w ↔ f ∈ r.matchesAt prev w ∨ f = ⟨[], w, []⟩ := by
  rw [opt, mem_matchesAt_alt, mem_matchesAt_empty]

theorem mem_matchesAt_group : f ∈ (group n r).matchesAt prev w ↔
    ∃ a ∈ r.matchesAt prev w, f = { a with groups := (n, a.text) :: a.groups } := by
  simp only [matchesAt, List.mem_map, eq_comm]

theorem mem_matchesAt_boundary : f ∈ (boundary isWord).matchesAt prev w ↔
    prev.any isWord ≠ w.head?.any isWord ∧ f = ⟨[], w, []⟩ := by
  rw [matchesAt]
  split
  · rename_i hsame
    exact ⟨fun hmem => absurd hmem List.not_mem_nil, fun hboth => absurd hsame hboth.1⟩
  · rename_i hne
    rw [List.mem_singleton]
    exact ⟨fun heq => ⟨hne, heq⟩, And.right⟩

theorem eq_of_mem_matchesAt_boundary (h : f ∈ (boundary isWord).matchesAt prev w) :
    f = ⟨[], w, []⟩ :=
  (mem_matchesAt_boundary.mp h).2

/-- A match takes the text that it begins with. -/
theorem text_append_rest (h : f ∈ r.matchesAt prev w) : f.text ++ f.rest = w := by
  induction r generalizing prev w f with
  | empty =>
      rw [mem_matchesAt_empty] at h
      rw [h, List.nil_append]
  | run p lo hi =>
      obtain ⟨k, -, -, rfl⟩ := mem_matchesAt_run.mp h
      exact List.take_append_drop k w
  | lazyRun p lo hi =>
      obtain ⟨k, -, -, rfl⟩ := mem_matchesAt_run.mp (mem_matchesAt_lazyRun.mp h)
      exact List.take_append_drop k w
  | boundary isWord =>
      rw [eq_of_mem_matchesAt_boundary h, List.nil_append]
  | seq r s ihr ihs =>
      obtain ⟨a, ha, b, hb, rfl⟩ := mem_matchesAt_seq.mp h
      rw [List.append_assoc, ihs hb, ihr ha]
  | alt r s ihr ihs =>
      rcases mem_matchesAt_alt.mp h with hr | hs
      · exact ihr hr
      · exact ihs hs
  | group n r ih =>
      obtain ⟨a, ha, rfl⟩ := mem_matchesAt_group.mp h
      exact ih (f := a) ha

/-- The groups of a match are those of its pattern. -/
theorem mem_captures (h : f ∈ r.matchesAt prev w) : ∀ g ∈ f.groups, g.1 ∈ r.captures := by
  induction r generalizing prev w f with
  | empty =>
      rw [mem_matchesAt_empty] at h
      rw [h]
      exact List.forall_mem_nil _
  | run p lo hi =>
      obtain ⟨k, -, -, rfl⟩ := mem_matchesAt_run.mp h
      exact List.forall_mem_nil _
  | lazyRun p lo hi =>
      obtain ⟨k, -, -, rfl⟩ := mem_matchesAt_run.mp (mem_matchesAt_lazyRun.mp h)
      exact List.forall_mem_nil _
  | boundary isWord =>
      rw [eq_of_mem_matchesAt_boundary h]
      exact List.forall_mem_nil _
  | seq r s ihr ihs =>
      obtain ⟨a, ha, b, hb, rfl⟩ := mem_matchesAt_seq.mp h
      intro g hg
      rcases List.mem_append.mp hg with hg | hg
      · exact List.mem_append_left _ (ihr ha g hg)
      · exact List.mem_append_right _ (ihs hb g hg)
  | alt r s ihr ihs =>
      intro g hg
      rcases mem_matchesAt_alt.mp h with hr | hs
      · exact List.mem_append_left _ (ihr hr g hg)
      · exact List.mem_append_right _ (ihs hs g hg)
  | group n r ih =>
      obtain ⟨a, ha, rfl⟩ := mem_matchesAt_group.mp h
      intro g hg
      rcases List.mem_cons.mp hg with rfl | hg
      · exact List.mem_cons_self
      · exact List.mem_cons_of_mem _ (ih ha g hg)

theorem groups_eq_nil (hr : r.captures = []) (h : f ∈ r.matchesAt prev w) : f.groups = [] := by
  refine List.eq_nil_iff_forall_not_mem.mpr fun g hg => ?_
  have hcaptured := mem_captures h g hg
  rw [hr] at hcaptured
  cases hcaptured

/-- One of several patterns. -/
theorem mem_matchesAt_any {rs : List (Regex α)} :
    f ∈ (any r rs).matchesAt prev w ↔ ∃ s ∈ r :: rs, f ∈ s.matchesAt prev w := by
  induction rs generalizing r with
  | nil => simp only [any, List.mem_singleton, exists_eq_left]
  | cons s rs ih => simp only [any, mem_matchesAt_alt, ih, List.mem_cons, exists_eq_or_imp]

/-! ### Runs -/

theorem reach_le_takeWhile : reach p hi w ≤ (w.takeWhile p).length := by
  unfold reach
  split
  · exact Nat.le_refl _
  · exact Nat.min_le_right _ _

theorem take_eq_take_takeWhile (h : k ≤ (w.takeWhile p).length) :
    w.take k = (w.takeWhile p).take k := by
  rw [← List.take_append_of_le_length h, List.takeWhile_append_dropWhile]

/-- The letters of a run are of its class. -/
theorem forall_mem_run (h : f ∈ (run p lo hi).matchesAt prev w) : ∀ a ∈ f.text, p a = true := by
  obtain ⟨k, -, hk, rfl⟩ := mem_matchesAt_run.mp h
  intro a ha
  rw [take_eq_take_takeWhile (Nat.le_trans hk reach_le_takeWhile)] at ha
  exact List.mem_takeWhile_imp (List.mem_of_mem_take ha)

theorem takeWhile_append_of_stop {u rest : List α} (hall : ∀ a ∈ u, p a = true)
    (hstop : ∀ a, rest.head? = some a → p a = false) : (u ++ rest).takeWhile p = u := by
  rw [List.takeWhile_append_of_pos hall]
  cases rest with
  | nil => rw [List.takeWhile_nil, List.append_nil]
  | cons a rest => rw [List.takeWhile_cons_of_neg (by simp [hstop a rfl]), List.append_nil]

/-- A run that is followed by a letter of another class takes all of its own. -/
theorem run_eq_takeWhile (h : f ∈ (run p lo hi).matchesAt prev w)
    (hstop : ∀ a, f.rest.head? = some a → p a = false) :
    f.text = w.takeWhile p ∧ f.rest = w.dropWhile p := by
  have hall := forall_mem_run h
  obtain ⟨k, -, hk, rfl⟩ := mem_matchesAt_run.mp h
  have htake : w.takeWhile p = w.take k := by
    have hw := takeWhile_append_of_stop hall hstop
    rwa [List.take_append_drop] at hw
  refine ⟨htake.symm, ?_⟩
  have hsplit := (List.takeWhile_append_dropWhile (p := p) (l := w)).trans
    (List.take_append_drop k w).symm
  rw [htake] at hsplit
  exact (List.append_cancel_left hsplit).symm

theorem length_run (h : f ∈ (run p lo hi).matchesAt prev w) : lo ≤ f.text.length := by
  obtain ⟨k, hlo, hk, rfl⟩ := mem_matchesAt_run.mp h
  have hlength := (List.takeWhile_sublist p (l := w)).length_le
  rw [List.length_take]
  have := Nat.le_trans hk reach_le_takeWhile
  omega

/-- One letter. -/
theorem mem_matchesAt_one : f ∈ (one p).matchesAt prev w ↔
    ∃ a rest, w = a :: rest ∧ p a = true ∧ f = ⟨[a], rest, []⟩ := by
  rw [one, mem_matchesAt_run]
  constructor
  · rintro ⟨k, hlo, hk, rfl⟩
    obtain rfl : k = 1 := Nat.le_antisymm (Nat.le_trans hk (Nat.min_le_left _ _)) hlo
    cases w with
    | nil => simp [reach] at hk
    | cons a w =>
        cases hp : p a with
        | true => exact ⟨a, w, rfl, hp, rfl⟩
        | false => simp [reach, hp] at hk
  · rintro ⟨a, rest, rfl, hp, rfl⟩
    exact ⟨1, Nat.le_refl 1, by simp [reach, hp], rfl⟩

/-- Two letters of a class. -/
theorem mem_matchesAt_run_two : f ∈ (run p 2 (some 2)).matchesAt prev w ↔
    ∃ a b rest, w = a :: b :: rest ∧ p a = true ∧ p b = true ∧ f = ⟨[a, b], rest, []⟩ := by
  rw [mem_matchesAt_run]
  constructor
  · rintro ⟨k, hlo, hk, rfl⟩
    obtain rfl : k = 2 := Nat.le_antisymm (Nat.le_trans hk (Nat.min_le_left _ _)) hlo
    have htwo := Nat.le_trans hk reach_le_takeWhile
    cases w with
    | nil => cases htwo
    | cons a w =>
        cases ha : p a with
        | false => simp [ha] at htwo
        | true =>
            cases w with
            | nil => simp [ha] at htwo
            | cons b w =>
                cases hb : p b with
                | false => simp [ha, hb] at htwo
                | true => exact ⟨a, b, w, rfl, ha, hb, rfl⟩
  · rintro ⟨a, b, rest, rfl, ha, hb, rfl⟩
    exact ⟨2, Nat.le_refl 2, by simp [reach, ha, hb], rfl⟩

theorem matchesAt_one_cons {a : α} (h : p a = true) :
    (one p).matchesAt prev (a :: w) = [⟨[a], w, []⟩] := by
  have hreach : reach p (some 1) (a :: w) = 1 := by simp [reach, h]
  rw [one, matchesAt, hreach]
  rfl

theorem matchesAt_one_eq_nil (h : ∀ a, w.head? = some a → p a = false) :
    (one p).matchesAt prev w = [] := by
  rw [List.eq_nil_iff_forall_not_mem]
  intro f hf
  obtain ⟨a, rest, rfl, ha, -⟩ := mem_matchesAt_one.mp hf
  rw [h a rfl] at ha
  cases ha

theorem matchAt_seq_eq_none (h : r.matchesAt prev w = []) : (seq r s).matchAt prev w = none := by
  rw [matchAt, matchesAt, h]
  rfl

theorem matchesAt_seq_eq_nil (h : r.matchesAt prev w = []) : (seq r s).matchesAt prev w = [] := by
  rw [matchesAt, h, List.flatMap_nil]

/-! ### Which match is the first -/

theorem mem_of_matchAt (h : r.matchAt prev w = some f) : f ∈ r.matchesAt prev w :=
  List.mem_of_mem_head? h

theorem matchAt_eq_none : r.matchAt prev w = none ↔ r.matchesAt prev w = [] :=
  List.head?_eq_none_iff

/-- The only match there is. -/
theorem matchAt_of_unique (hmem : f ∈ r.matchesAt prev w)
    (hunique : ∀ g ∈ r.matchesAt prev w, g = f) : r.matchAt prev w = some f := by
  cases hfound : r.matchAt prev w with
  | none =>
      rw [matchAt_eq_none.mp hfound] at hmem
      cases hmem
  | some g => rw [hunique g (mem_of_matchAt hfound)]

/-- A run takes as much as it can. -/
theorem matchAt_run (h : lo ≤ reach p hi w) : (run p lo hi).matchAt prev w =
    some ⟨w.take (reach p hi w), w.drop (reach p hi w), []⟩ := by
  rw [matchAt, matchesAt, List.head?_map,
    show reach p hi w + 1 - lo = (reach p hi w - lo) + 1 by omega, List.range_succ_eq_map]
  rfl

/-- A run takes the letters of its class up to its bound, or to the first letter of another
class. -/
theorem matchAt_run_append {u rest : List α} (hall : ∀ a ∈ u, p a = true) (hlo : lo ≤ u.length)
    (hhi : ∀ m, hi = some m → u.length ≤ m)
    (hstop : hi = some u.length ∨ ∀ a, rest.head? = some a → p a = false) :
    (run p lo hi).matchAt prev (u ++ rest) = some ⟨u, rest, []⟩ := by
  have hreach : reach p hi (u ++ rest) = u.length := by
    unfold reach
    rcases hstop with rfl | hstop
    · have hlonger : u.length ≤ ((u ++ rest).takeWhile p).length := by
        rw [List.takeWhile_append_of_pos hall, List.length_append]
        exact Nat.le_add_right _ _
      exact Nat.min_eq_left hlonger
    · rw [takeWhile_append_of_stop hall hstop]
      cases hi with
      | none => rfl
      | some m => exact Nat.min_eq_right (hhi m rfl)
  rw [matchAt_run (by rw [hreach]; exact hlo), hreach, List.take_left, List.drop_left]

/-- A run without a bound may take all that there is of its class. -/
theorem takeWhile_mem_run (h : lo ≤ (w.takeWhile p).length) :
    (⟨w.takeWhile p, w.dropWhile p, []⟩ : Found α) ∈ (run p lo none).matchesAt prev w := by
  have hfound : (run p lo none).matchAt prev (w.takeWhile p ++ w.dropWhile p) =
      some ⟨w.takeWhile p, w.dropWhile p, []⟩ :=
    matchAt_run_append (fun a ha => List.mem_takeWhile_imp ha) h (fun m hm => by cases hm)
      (.inr fun a ha => by simpa [ha] using w.head?_dropWhile_not p)
  rw [List.takeWhile_append_dropWhile] at hfound
  exact mem_of_matchAt hfound

theorem matchAt_one_cons {a : α} (h : p a = true) :
    (one p).matchAt prev (a :: w) = some ⟨[a], w, []⟩ := by
  rw [matchAt, matchesAt_one_cons h, List.head?_cons]

theorem matchAt_empty : (empty : Regex α).matchAt prev w = some ⟨[], w, []⟩ := rfl

theorem matchAt_alt_left (h : r.matchAt prev w = some f) : (alt r s).matchAt prev w = some f := by
  rw [matchAt, matchesAt, List.head?_append]
  rw [matchAt] at h
  rw [h, Option.some_or]

theorem matchAt_alt_right (h : r.matchesAt prev w = []) :
    (alt r s).matchAt prev w = s.matchAt prev w := by
  rw [matchAt, matchesAt, h, List.nil_append, matchAt]

/-- An optional part that does not match is left out. -/
theorem matchAt_opt_none (h : r.matchesAt prev w = []) :
    (opt r).matchAt prev w = some ⟨[], w, []⟩ := by
  rw [opt, matchAt, matchesAt, h, List.nil_append]
  rfl

theorem matchAt_group : (group n r).matchAt prev w =
    (r.matchAt prev w).map fun f => { f with groups := (n, f.text) :: f.groups } := by
  rw [matchAt, matchesAt, List.head?_map, matchAt]

/-- An optional part is taken where it matches. -/
theorem matchAt_opt : (opt r).matchAt prev w = some ((r.matchAt prev w).getD ⟨[], w, []⟩) := by
  rw [matchAt, opt, matchesAt, matchesAt, List.head?_append, matchAt]
  cases (r.matchesAt prev w).head? with
  | none => rfl
  | some f => rfl

theorem head?_flatMap_of_head? {β γ : Type} {xs : List β} {x : β} {h : β → List γ} {y : γ}
    (hx : xs.head? = some x) (hy : (h x).head? = some y) : (xs.flatMap h).head? = some y := by
  cases xs with
  | nil => cases hx
  | cons first xs =>
      obtain rfl := Option.some_inj.mp hx
      rw [List.flatMap_cons, List.head?_append, hy, Option.some_or]

/-- Where the rest matches behind the first match, the two are the match. -/
theorem matchAt_seq (hr : r.matchAt prev w = some f)
    (hs : s.matchAt (f.text.getLast?.or prev) f.rest = some g) :
    (seq r s).matchAt prev w = some ⟨f.text ++ g.text, g.rest, f.groups ++ g.groups⟩ := by
  refine head?_flatMap_of_head? hr ?_
  rw [List.head?_map]
  exact congrArg _ hs

theorem exists_head?_of_head?_flatMap {β γ : Type} {xs : List β} {h : β → List γ} {y : γ}
    (hy : (xs.flatMap h).head? = some y) : ∃ x ∈ xs, (h x).head? = some y := by
  induction xs with
  | nil => cases hy
  | cons x xs ih =>
      rw [List.flatMap_cons, List.head?_append] at hy
      cases hfirst : (h x).head? with
      | some first =>
          rw [hfirst, Option.some_or] at hy
          exact ⟨x, List.mem_cons_self, hfirst.trans hy⟩
      | none =>
          rw [hfirst, Option.none_or] at hy
          obtain ⟨x', hx', hfound⟩ := ih hy
          exact ⟨x', List.mem_cons_of_mem _ hx', hfound⟩

/-- The match of two patterns is the first match of the second behind some match of the first. -/
theorem exists_of_matchAt_seq (h : (seq r s).matchAt prev w = some f) :
    ∃ a ∈ r.matchesAt prev w, ∃ b, s.matchAt (a.text.getLast?.or prev) a.rest = some b ∧
      f = ⟨a.text ++ b.text, b.rest, a.groups ++ b.groups⟩ := by
  obtain ⟨a, ha, hfound⟩ := exists_head?_of_head?_flatMap h
  rw [List.head?_map] at hfound
  obtain ⟨b, hb, rfl⟩ := Option.map_eq_some_iff.mp hfound
  exact ⟨a, ha, b, hb, rfl⟩

/-! ### Searching -/

/-- A match that begins the text is the one that a search finds. -/
theorem search_of_matchAt (h : r.matchAt none w = some f) : r.search w = some f := by
  unfold search
  cases w with
  | nil =>
      rw [searchFrom, h]
      rfl
  | cons a w =>
      rw [searchFrom, h]
      rfl

/-- What is found is the match at its place. -/
theorem matchAt_of_searchFrom (h : r.searchFrom prev w = some (before, f)) :
    r.matchAt (before.getLast?.or prev) (w.drop before.length) = some f ∧
      before ++ (f.text ++ f.rest) = w := by
  induction w generalizing prev before with
  | nil =>
      obtain ⟨f', hf', hsame⟩ := Option.map_eq_some_iff.mp h
      cases hsame
      exact ⟨hf', text_append_rest (mem_of_matchAt hf')⟩
  | cons a w ih =>
      unfold searchFrom at h
      split at h
      · rename_i f' hf'
        cases h
        exact ⟨hf', text_append_rest (mem_of_matchAt hf')⟩
      · obtain ⟨⟨before', f'⟩, hfound, hsame⟩ := Option.map_eq_some_iff.mp h
        cases hsame
        obtain ⟨hmatch, htext⟩ := ih hfound
        refine ⟨?_, by rw [List.cons_append, htext]⟩
        rw [List.length_cons, List.drop_succ_cons, ← hmatch, List.getLast?_cons]
        cases before'.getLast? with
        | none => rfl
        | some _ => rfl

/-! ### All matches -/

/-- A pattern whose matches take some text, and do not depend on the letter before. -/
structure Local (r : Regex α) : Prop where
  text_ne : ∀ {prev w f}, f ∈ r.matchesAt prev w → f.text ≠ []
  context : ∀ prev w, r.matchesAt prev w = r.matchesAt none w

/-- A letter before the first match that a scan finds, or before the end. -/
def skipping (a : α) : List (List α × Found α) × List α → List (List α × Found α) × List α
  | ([], rest) => ([], a :: rest)
  | ((before, f) :: found, rest) => ((a :: before, f) :: found, rest)

theorem local_run (hlo : 0 < lo) : (run p lo hi).Local where
  text_ne h htext := by
    have hlength := length_run h
    rw [htext] at hlength
    exact absurd hlength (Nat.not_le_of_gt hlo)
  context _ _ := rfl

theorem Local.seq (hr : r.Local) : (seq r s).Local where
  text_ne h htext := by
    obtain ⟨a, ha, b, -, rfl⟩ := mem_matchesAt_seq.mp h
    exact hr.text_ne ha (List.append_eq_nil_iff.mp htext).1
  context prev w := by
    rw [matchesAt, matchesAt, hr.context prev w]
    refine congrArg List.flatten (List.map_congr_left fun f hf => ?_)
    cases hlast : f.text.getLast? with
    | none => exact absurd (List.getLast?_eq_none_iff.mp hlast) (hr.text_ne hf)
    | some a => rfl

namespace Local

variable {a : α} {fuel fuel' : ℕ} {prev' : Option α} {replacement : List α}

theorem matchAt_context (hr : r.Local) (prev : Option α) (w : List α) :
    r.matchAt prev w = r.matchAt none w :=
  congrArg List.head? (hr.context prev w)

theorem matchAt_nil (hr : r.Local) : r.matchAt prev [] = none := by
  cases hfound : r.matchAt prev [] with
  | none => rfl
  | some f =>
      have hmem := mem_of_matchAt hfound
      exact absurd (List.append_eq_nil_iff.mp (text_append_rest hmem)).1 (hr.text_ne hmem)

theorem scan_nil (hr : r.Local) : r.scan fuel prev [] = ([], []) := by
  cases fuel with
  | zero => rfl
  | succ fuel => rw [scan, searchFrom, hr.matchAt_nil, Option.map_none]

/-- Where there is no match the scan goes on behind the letter. -/
theorem scan_cons_none (hr : r.Local) (h : r.matchAt prev (a :: w) = none) :
    r.scan (fuel + 1) prev (a :: w) = skipping a (r.scan (fuel + 1) (some a) w) := by
  rw [scan, scan, searchFrom, h]
  cases hfound : r.searchFrom (some a) w with
  | none => rfl
  | some found =>
      obtain ⟨before, f⟩ := found
      have hne := hr.text_ne (mem_of_matchAt (matchAt_of_searchFrom hfound).1)
      obtain ⟨last, hlast⟩ := Option.ne_none_iff_exists'.mp
        (fun hnone => hne (List.getLast?_eq_none_iff.mp hnone))
      simp only [Option.map_some, hlast]
      rfl

/-- Behind a match it goes on with what the match has left. -/
theorem scan_cons_some (hr : r.Local) (h : r.matchAt prev (a :: w) = some f) :
    r.scan (fuel + 1) prev (a :: w) =
      (([], f) :: (r.scan fuel f.text.getLast? f.rest).1,
        (r.scan fuel f.text.getLast? f.rest).2) := by
  obtain ⟨last, hlast⟩ := Option.ne_none_iff_exists'.mp
    (fun hnone => hr.text_ne (mem_of_matchAt h) (List.getLast?_eq_none_iff.mp hnone))
  rw [scan, searchFrom, h]
  simp only [hlast]

theorem length_rest_lt (hr : r.Local) (h : r.matchAt prev w = some f) :
    f.rest.length < w.length := by
  have hmem := mem_of_matchAt h
  have hlength := congrArg List.length (text_append_rest hmem)
  have hpos := List.length_pos_iff.mpr (hr.text_ne hmem)
  rw [List.length_append] at hlength
  omega

/-- The scan does not depend on its fuel, nor on the letter before. -/
theorem scan_congr (hr : r.Local) (hfuel : w.length < fuel) (hfuel' : w.length < fuel') :
    r.scan fuel prev w = r.scan fuel' prev' w := by
  induction hlength : w.length using Nat.strong_induction_on
    generalizing w fuel fuel' prev prev' with
  | _ length ih =>
      subst hlength
      obtain ⟨fuel, rfl⟩ := Nat.exists_eq_succ_of_ne_zero (Nat.ne_zero_of_lt hfuel)
      obtain ⟨fuel', rfl⟩ := Nat.exists_eq_succ_of_ne_zero (Nat.ne_zero_of_lt hfuel')
      cases w with
      | nil => rw [hr.scan_nil, hr.scan_nil]
      | cons a w =>
          cases hfound : r.matchAt none (a :: w) with
          | none =>
              have hnone : ∀ prev, r.matchAt prev (a :: w) = none := fun prev =>
                (hr.matchAt_context prev _).trans hfound
              rw [hr.scan_cons_none (hnone prev), hr.scan_cons_none (hnone prev')]
              exact congrArg _ (ih w.length (Nat.lt_succ_self _) (Nat.lt_of_succ_lt hfuel)
                (Nat.lt_of_succ_lt hfuel') rfl)
          | some f =>
              have hsome : ∀ prev, r.matchAt prev (a :: w) = some f := fun prev =>
                (hr.matchAt_context prev _).trans hfound
              have hshorter := hr.length_rest_lt hfound
              have hsame : r.scan fuel f.text.getLast? f.rest =
                  r.scan fuel' f.text.getLast? f.rest :=
                ih f.rest.length hshorter (by omega) (by omega) rfl
              rw [hr.scan_cons_some (hsome prev), hr.scan_cons_some (hsome prev'), hsame]

theorem scan_none (hr : r.Local) (h : r.matchAt none (a :: w) = none) :
    r.scan ((a :: w).length + 1) none (a :: w) =
      skipping a (r.scan (w.length + 1) none w) := by
  rw [hr.scan_cons_none h]
  exact congrArg _ (hr.scan_congr (Nat.lt_succ_of_lt (Nat.lt_succ_self _)) (Nat.lt_succ_self _))

theorem scan_some (hr : r.Local) (h : r.matchAt none (a :: w) = some f) :
    r.scan ((a :: w).length + 1) none (a :: w) =
      (([], f) :: (r.scan (f.rest.length + 1) none f.rest).1,
        (r.scan (f.rest.length + 1) none f.rest).2) := by
  have hsame : r.scan (a :: w).length f.text.getLast? f.rest =
      r.scan (f.rest.length + 1) none f.rest :=
    hr.scan_congr (hr.length_rest_lt h) (Nat.lt_succ_self _)
  rw [hr.scan_cons_some h, hsame]

/-! What this means for `matchAll` and for `replaceAll`. -/

theorem matchAll_nil (hr : r.Local) : r.matchAll [] = [] := by
  rw [matchAll, hr.scan_nil]
  rfl

theorem matchAll_cons_none (hr : r.Local) (h : r.matchAt none (a :: w) = none) :
    r.matchAll (a :: w) = r.matchAll w := by
  rw [matchAll, matchAll, hr.scan_none h]
  obtain ⟨found, rest⟩ := r.scan (w.length + 1) none w
  cases found with
  | nil => rfl
  | cons first found => rfl

theorem matchAll_cons_some (hr : r.Local) (h : r.matchAt none (a :: w) = some f) :
    r.matchAll (a :: w) = f :: r.matchAll f.rest := by
  rw [matchAll, matchAll, hr.scan_some h]
  rfl

theorem matchAll_match (hr : r.Local) (h : r.matchAt none w = some f) :
    r.matchAll w = f :: r.matchAll f.rest := by
  cases w with
  | nil =>
      rw [hr.matchAt_nil] at h
      cases h
  | cons a w => exact hr.matchAll_cons_some h

theorem matchAll_append (hr : r.Local) {u : List α}
    (h : ∀ a ∈ u, ∀ rest, r.matchAt none (a :: rest) = none) :
    r.matchAll (u ++ w) = r.matchAll w := by
  induction u with
  | nil => rfl
  | cons a u ih =>
      rw [List.cons_append, hr.matchAll_cons_none (h a List.mem_cons_self _),
        ih fun b hb => h b (List.mem_cons_of_mem a hb)]

theorem replaceAll_nil (hr : r.Local) : r.replaceAll replacement [] = [] := by
  rw [replaceAll, hr.scan_nil]
  rfl

theorem replaceAll_cons_none (hr : r.Local) (h : r.matchAt none (a :: w) = none) :
    r.replaceAll replacement (a :: w) = a :: r.replaceAll replacement w := by
  rw [replaceAll, replaceAll, hr.scan_none h]
  obtain ⟨found, rest⟩ := r.scan (w.length + 1) none w
  cases found with
  | nil => rfl
  | cons first found => rfl

theorem replaceAll_cons_some (hr : r.Local) (h : r.matchAt none (a :: w) = some f) :
    r.replaceAll replacement (a :: w) = replacement ++ r.replaceAll replacement f.rest := by
  rw [replaceAll, replaceAll, hr.scan_some h]
  simp only [List.flatMap_cons, List.nil_append, List.append_assoc]

theorem replaceAll_match (hr : r.Local) (h : r.matchAt none w = some f) :
    r.replaceAll replacement w = replacement ++ r.replaceAll replacement f.rest := by
  cases w with
  | nil =>
      rw [hr.matchAt_nil] at h
      cases h
  | cons a w => exact hr.replaceAll_cons_some h

/-- What no match begins in stays as it is. -/
theorem replaceAll_append (hr : r.Local) {u : List α}
    (h : ∀ a ∈ u, ∀ rest, r.matchAt none (a :: rest) = none) :
    r.replaceAll replacement (u ++ w) = u ++ r.replaceAll replacement w := by
  induction u with
  | nil => rfl
  | cons a u ih =>
      rw [List.cons_append, hr.replaceAll_cons_none (h a List.mem_cons_self _),
        ih fun b hb => h b (List.mem_cons_of_mem a hb), List.cons_append]

end Local

end Regex
