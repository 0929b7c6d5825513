import RecruitingOs.Lib.Json
import Mathlib.Data.Int.Notation
import Mathlib.Data.List.Infix
import Mathlib.Data.Nat.Notation

/-!
# Small helpers of the domain

`src/lib/util.ts` and the error texts that are shared.  `digest` stands for the
first 24 hexadecimal digits of SHA-256 (`node:crypto` is not part of the
repository).  Instants are integers throughout, the milliseconds of `Date.now()`.
-/

namespace RecruitingOs

/-- `text.includes(part)`. -/
def includes (text part : String) : Bool := part.toList <:+: text.toList

/-- `text.endsWith(part)`. -/
def endsWith (text part : String) : Bool := part.toList <:+ text.toList

/-- Two steps succeed where each does. -/
theorem except_bind_eq_ok {ε α β : Type} {x : Except ε α} {f : α → Except ε β} {b : β} :
    x.bind f = .ok b ↔ ∃ a, x = .ok a ∧ f a = .ok b := by
  cases x with
  | error e =>
      constructor
      · intro h
        cases h
      · rintro ⟨a, h, -⟩
        cases h
  | ok a =>
      constructor
      · exact fun h => ⟨a, rfl, h⟩
      · rintro ⟨a', h, hf⟩
        obtain rfl := Except.ok.inj h
        exact hf

/-- `stableId(prefix, value)`, over the digest of the value. -/
def stableId (digest : String → String) (kind value : String) : String :=
  kind ++ "_" ++ digest value

theorem stableId_inj {digest : String → String} {kind a b : String} :
    stableId digest kind a = stableId digest kind b ↔ digest a = digest b := by
  simp [stableId]

/-- A text before the first colon of a joined text, and the rest, are determined by it. -/
theorem colon_join_inj {a b x y : String} (ha : ':' ∉ a.toList) (hb : ':' ∉ b.toList)
    (h : a ++ (":" ++ x) = b ++ (":" ++ y)) : a = b ∧ x = y := by
  have htake : ∀ s rest : String, ':' ∉ s.toList →
      (s ++ (":" ++ rest)).toList.takeWhile (· ≠ ':') = s.toList := by
    intro s rest hs
    rw [String.toList_append, String.toList_append, List.takeWhile_append_of_pos]
    · simp
    · intro c hc
      rw [decide_eq_true_eq]
      rintro rfl
      exact hs hc
  have hlist : a.toList = b.toList := by
    rw [← htake a x ha, ← htake b y hb, h]
  obtain rfl : a = b := String.toList_injective hlist
  have hrest := congrArg String.toList h
  simp only [String.toList_append] at hrest
  have hxy := List.append_cancel_left (List.append_cancel_left hrest)
  exact ⟨rfl, String.toList_injective hxy⟩

/-- A text after the last colon of a joined text, and what stands before, are determined by it. -/
theorem last_colon_inj {a b x y : String} (ha : ':' ∉ a.toList) (hb : ':' ∉ b.toList)
    (h : x ++ (":" ++ a) = y ++ (":" ++ b)) : x = y ∧ a = b := by
  have hreversed : String.ofList a.toList.reverse ++ (":" ++ String.ofList x.toList.reverse) =
      String.ofList b.toList.reverse ++ (":" ++ String.ofList y.toList.reverse) := by
    have hlist := congrArg (fun s => s.toList.reverse) h
    refine String.toList_injective ?_
    simpa using hlist
  obtain ⟨hlast, hrest⟩ := colon_join_inj (by simpa using ha) (by simpa using hb) hreversed
  have hback : ∀ s t : String, String.ofList s.toList.reverse = String.ofList t.toList.reverse →
      s = t := by
    intro s t hst
    have hlists := congrArg String.toList hst
    rw [String.toList_ofList, String.toList_ofList] at hlists
    exact String.toList_injective (List.reverse_injective hlists)
  exact ⟨hback x y hrest, hback a b hlast⟩

/-- A number has no colon in it. -/
theorem colon_not_mem_toString (n : ℤ) : ':' ∉ (toString n).toList := by
  have hdigit : ∀ k : ℕ, ':' ∉ k.repr.toList := by
    intro k hk
    rw [Nat.toList_repr] at hk
    have hc := Nat.isDigit_of_mem_toDigits (by decide) (by decide) hk
    revert hc
    decide
  rw [Int.toString_eq_repr, Int.repr_eq_if]
  split
  · exact hdigit _
  · intro hmem
    rw [String.toList_append, List.mem_append] at hmem
    rcases hmem with hsign | hmem
    · revert hsign
      decide
    · exact hdigit _ hmem

/-- The digest does not collide on the strings of `hashed`. -/
def CollisionFree (digest : String → String) (hashed : List String) : Prop :=
  ∀ a ∈ hashed, ∀ b ∈ hashed, digest a = digest b → a = b

instance (digest : String → String) (hashed : List String) :
    Decidable (CollisionFree digest hashed) :=
  inferInstanceAs (Decidable (∀ a ∈ hashed, ∀ b ∈ hashed, digest a = digest b → a = b))

theorem CollisionFree.of_subset {digest : String → String} {small large : List String}
    (h : CollisionFree digest large) (hs : ∀ a ∈ small, a ∈ large) :
    CollisionFree digest small :=
  fun a ha b hb => h a (hs a ha) b (hs b hb)

end RecruitingOs
