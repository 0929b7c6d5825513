import RecruitingOs.Lib.Regex

/-!
# Texts of code units

A text of the platform is a sequence of UTF-16 code units, and its patterns are matched unit by
unit.  The classes of units that patterns name, and what `trim`, `split` and `toLowerCase` do with
the units that they look at.
-/

/-- A text. -/
abbrev Utf16 := List UInt16

-- What is asked of the letters of a text goes along the text, not through every letter there is.
attribute [instance (2000)] List.decidableBAll

namespace Utf16

/-- The code units of a character: one, or a surrogate pair. -/
def units (c : Char) : Utf16 :=
  if c.toNat < 0x10000 then [c.toNat.toUInt16]
  else [(0xD800 + (c.toNat - 0x10000) / 0x400).toUInt16,
    (0xDC00 + (c.toNat - 0x10000) % 0x400).toUInt16]

/-- A text literal. -/
def of (s : String) : Utf16 := s.toList.flatMap units

def isHigh (u : UInt16) : Bool := 0xD800 ≤ u ∧ u ≤ 0xDBFF

def isLow (u : UInt16) : Bool := 0xDC00 ≤ u ∧ u ≤ 0xDFFF

/-- The characters of a text, as it is stored: a surrogate without its partner becomes `U+FFFD`. -/
def chars : Utf16 → List Char
  | [] => []
  | [u] => [if isHigh u ∨ isLow u then Char.ofNat 0xFFFD else Char.ofNat u.toNat]
  | u :: v :: rest =>
      if isHigh u ∧ isLow v then
        Char.ofNat (0x10000 + (u.toNat - 0xD800) * 0x400 + (v.toNat - 0xDC00)) :: chars rest
      else (if isHigh u ∨ isLow u then Char.ofNat 0xFFFD else Char.ofNat u.toNat) ::
        chars (v :: rest)

def decode (text : Utf16) : String := String.ofList text.chars

/-! ### Classes of units -/

/-- `\d`. -/
def isDigit (u : UInt16) : Bool := 48 ≤ u ∧ u ≤ 57

/-- `\s`: white space and line ends. -/
def isSpace (u : UInt16) : Bool :=
  (9 ≤ u ∧ u ≤ 13) ∨ u = 32 ∨ u = 160 ∨ u = 0x1680 ∨ (0x2000 ≤ u ∧ u ≤ 0x200A) ∨ u = 0x2028 ∨
    u = 0x2029 ∨ u = 0x202F ∨ u = 0x205F ∨ u = 0x3000 ∨ u = 0xFEFF

def isUpper (u : UInt16) : Bool := 65 ≤ u ∧ u ≤ 90

def isLower (u : UInt16) : Bool := 97 ≤ u ∧ u ≤ 122

/-- `\w`: what `\b` takes for a part of a word. -/
def isWord (u : UInt16) : Bool := isDigit u ∨ isUpper u ∨ isLower u ∨ u = 95

/-- A unit in lower case; of the letters only those of ASCII have one that a pattern names. -/
def lower (u : UInt16) : UInt16 := if isUpper u then u + 32 else u

/-- A literal of a pattern with the flag `i`. -/
def word (s : String) : Regex UInt16 := .all ((of s).map fun u => .one fun v => lower v = lower u)

/-- A literal of a pattern. -/
def literal (s : String) : Regex UInt16 := .all ((of s).map fun u => .one fun v => v = u)

/-- A unit of a pattern. -/
def unit (c : Char) : Regex UInt16 := .one fun v => v = c.toNat.toUInt16

/-- The value of decimal digits. -/
def value (digits : Utf16) : ℕ := digits.foldl (fun n u => 10 * n + (u.toNat - 48)) 0

/-- `trim()`. -/
def trim (text : Utf16) : Utf16 := ((text.dropWhile isSpace).reverse.dropWhile isSpace).reverse

/-- `split(separator)` at one unit. -/
def split (separator : UInt16) : Utf16 → List Utf16
  | [] => [[]]
  | u :: rest =>
      if u = separator then [] :: split separator rest
      else
        match split separator rest with
        | [] => [[u]]
        | first :: others => (u :: first) :: others

/-! ### Digits -/

/-- The character of a digit. -/
def digitChar (u : UInt16) : Char := Char.ofNat u.toNat

theorem chars_of_isDigit {d : Utf16} (h : ∀ u ∈ d, isDigit u = true) :
    chars d = d.map digitChar := by
  have hplain : ∀ u ∈ d, ¬ (isHigh u = true ∨ isLow u = true) ∧ isHigh u = false := by
    intro u hu
    have hdigit := h u hu
    simp only [isDigit, isHigh, isLow, decide_eq_true_eq, UInt16.le_iff_toNat_le] at hdigit ⊢
    simp at hdigit ⊢
    omega
  clear h
  induction d using chars.induct with
  | case1 => rfl
  | case2 u =>
      rw [chars, if_neg (hplain u List.mem_cons_self).1]
      rfl
  | case3 u v rest hpair ih =>
      rw [(hplain u List.mem_cons_self).2] at hpair
      cases hpair.1
  | case4 u v rest hpair ih =>
      rw [chars, if_neg hpair, if_neg (hplain u List.mem_cons_self).1,
        ih fun x hx => hplain x (List.mem_cons_of_mem u hx)]
      rfl

theorem isDigit_digitChar {u : UInt16} (h : isDigit u = true) : (digitChar u).isDigit = true := by
  simp only [isDigit, decide_eq_true_eq, UInt16.le_iff_toNat_le] at h
  obtain ⟨hlo, hhi⟩ := h
  unfold digitChar
  generalize u.toNat = n at hlo hhi
  have hlo' : 48 ≤ n := hlo
  have hhi' : n ≤ 57 := hhi
  clear hlo hhi
  have hall : ∀ n < 58, 48 ≤ n → (Char.ofNat n).isDigit = true := by decide
  exact hall n (by omega) hlo'

/-- Digits that are stored are the digits. -/
theorem toList_decode {d : Utf16} (h : ∀ u ∈ d, isDigit u = true) :
    (decode d).toList = d.map digitChar := by
  rw [decode, String.toList_ofList, chars_of_isDigit h]

/-! ### The classes are apart -/

theorem not_isDigit_of_isSpace {u : UInt16} (h : isSpace u = true) : isDigit u = false := by
  unfold isSpace at h
  unfold isDigit
  simp only [decide_eq_true_eq, decide_eq_false_iff_not, UInt16.le_iff_toNat_le,
    ← UInt16.toNat_inj] at *
  simp at *
  omega

theorem not_isSpace_of_isDigit {u : UInt16} (h : isDigit u = true) : isSpace u = false := by
  cases hspace : isSpace u with
  | false => rfl
  | true => exact absurd (not_isDigit_of_isSpace hspace) (by simp [h])

/-- What a unit in lower case may have been. -/
theorem eq_of_lower_eq {u v : UInt16} (h : lower u = v) : u = v ∨ u = v - 32 := by
  unfold lower at h
  split at h
  · right
    rw [← h, UInt16.add_sub_cancel]
  · exact .inl h

/-- A literal matches what differs from it in case only. -/
theorem mem_matchesAt_all {us : Utf16} {f : Regex.Found UInt16} {prev : Option UInt16}
    {w : Utf16} :
    f ∈ (Regex.all (us.map fun u => Regex.one fun v => decide (lower v = lower u))).matchesAt
        prev w ↔
      ∃ text rest, w = text ++ rest ∧ text.map lower = us.map lower ∧ f = ⟨text, rest, []⟩ := by
  induction us generalizing prev w f with
  | nil =>
      rw [List.map_nil, Regex.all, Regex.mem_matchesAt_empty]
      constructor
      · rintro rfl
        exact ⟨[], w, rfl, rfl, rfl⟩
      · rintro ⟨text, rest, rfl, htext, rfl⟩
        rw [List.map_eq_nil_iff.mp htext, List.nil_append]
  | cons u us ih =>
      rw [List.map_cons, Regex.all, Regex.mem_matchesAt_seq]
      constructor
      · rintro ⟨a, ha, b, hb, rfl⟩
        obtain ⟨v, rest, rfl, hv, rfl⟩ := Regex.mem_matchesAt_one.mp ha
        obtain ⟨text, rest, rfl, htext, rfl⟩ := ih.mp hb
        refine ⟨v :: text, rest, rfl, ?_, rfl⟩
        rw [List.map_cons, List.map_cons, htext, of_decide_eq_true hv]
      · rintro ⟨text, rest, rfl, htext, rfl⟩
        rw [List.map_cons] at htext
        obtain ⟨v, text, rfl, hv, htext⟩ := List.map_eq_cons_iff.mp htext
        exact ⟨⟨[v], text ++ rest, []⟩, Regex.mem_matchesAt_one.mpr
          ⟨v, text ++ rest, rfl, decide_eq_true hv, rfl⟩, ⟨text, rest, []⟩,
          ih.mpr ⟨text, rest, rfl, htext, rfl⟩, rfl⟩

theorem mem_matchesAt_word {s : String} {f : Regex.Found UInt16} {prev : Option UInt16}
    {w : Utf16} : f ∈ (word s).matchesAt prev w ↔
      ∃ text rest, w = text ++ rest ∧ text.map lower = (of s).map lower ∧ f = ⟨text, rest, []⟩ :=
  mem_matchesAt_all

/-- Where the text begins otherwise a word does not match. -/
theorem matchesAt_word_eq_nil {s : String} {prev : Option UInt16} {w : Utf16}
    (h : ¬ (of s).map lower <+: w.map lower) : (word s).matchesAt prev w = [] := by
  rw [List.eq_nil_iff_forall_not_mem]
  intro f hf
  obtain ⟨text, rest, rfl, htext, -⟩ := mem_matchesAt_word.mp hf
  rw [List.map_append, htext] at h
  exact h (List.prefix_append _ _)

theorem local_word {s : String} (hs : of s ≠ []) : (word s).Local := by
  unfold word
  cases hof : of s with
  | nil => exact absurd hof hs
  | cons u us => exact (Regex.local_run Nat.one_pos).seq

end Utf16
