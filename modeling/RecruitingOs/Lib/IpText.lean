import Mathlib.Algebra.Group.Nat.Defs
import Mathlib.Data.List.Basic
import Mathlib.Data.List.Induction
import Mathlib.Data.List.TakeWhile

/-!
# Texts of IP addresses

The texts that `net.isIP` accepts, with the address that each one denotes: an IPv4 address as
four octets, an IPv6 address as eight groups of 16 bits.  An IPv6 text has one to four
hexadecimal digits for a group, may have two dotted groups at its end, one gap that stands for
one or more zero groups, and a zone; hexadecimal digits are read in either case.

`ipv6Parts` reads the texts between the colons: groups alone, or groups around a gap
(`ipv6Parts_eq_some`).  Eight groups that are written with one to four digits each are read back
(`ipv6_spell`), so that an address has many texts.
-/

-- What is asked of the letters of a text goes along the text, not through every letter there is.
attribute [instance (2000)] List.decidableBAll

namespace IpText

/-- A text between two separators. -/
abbrev Part := List Char

/-! ### Hexadecimal groups -/

/-- A lower-case hexadecimal digit. -/
def hexChar (d : ℕ) : Char := Char.ofNat (if d < 10 then 48 + d else 87 + d)

/-- The value of a lower-case hexadecimal digit. -/
def hexValue (c : Char) : Option ℕ :=
  if 48 ≤ c.toNat ∧ c.toNat ≤ 57 then some (c.toNat - 48)
  else if 97 ≤ c.toNat ∧ c.toNat ≤ 102 then some (c.toNat - 87)
  else none

/-- The number that digits stand for. -/
def value (digits : List ℕ) : ℕ := digits.foldl (fun n d => 16 * n + d) 0

/-- A group of 16 bits. -/
def hexGroup (part : Part) : Option ℕ :=
  if 1 ≤ part.length ∧ part.length ≤ 4 then (part.mapM hexValue).map value else none

theorem hexValue_eq_some {c : Char} {d : ℕ} (h : hexValue c = some d) : d < 16 ∧ c = hexChar d := by
  unfold hexValue at h
  split at h
  · obtain rfl := Option.some.inj h
    refine ⟨by omega, ?_⟩
    rw [hexChar, if_pos (by omega), show 48 + (c.toNat - 48) = c.toNat by omega]
    exact (Char.ofNat_toNat c).symm
  · split at h
    · obtain rfl := Option.some.inj h
      refine ⟨by omega, ?_⟩
      rw [hexChar, if_neg (by omega), show 87 + (c.toNat - 87) = c.toNat by omega]
      exact (Char.ofNat_toNat c).symm
    · cases h

theorem hexValue_hexChar : ∀ d < 16, hexValue (hexChar d) = some d := by decide +kernel

theorem hexChar_injective : ∀ d < 16, ∀ e < 16, hexChar d = hexChar e → d = e := by
  decide +kernel

theorem mapM_hexValue {part : Part} {digits : List ℕ} :
    part.mapM hexValue = some digits ↔
      part = digits.map hexChar ∧ ∀ d ∈ digits, d < 16 := by
  induction part generalizing digits with
  | nil =>
      rw [List.mapM_nil]
      constructor
      · intro h
        obtain rfl := Option.some.inj h
        simp
      · rintro ⟨h, -⟩
        rw [List.map_eq_nil_iff.mp h.symm]
        rfl
  | cons c rest ih =>
      rw [List.mapM_cons]
      constructor
      · intro h
        obtain ⟨d, hd, h⟩ := Option.bind_eq_some_iff.mp h
        obtain ⟨tail, htail, h⟩ := Option.bind_eq_some_iff.mp h
        obtain rfl := Option.some.inj h
        obtain ⟨hlt, rfl⟩ := hexValue_eq_some hd
        obtain ⟨rfl, hall⟩ := ih.mp htail
        refine ⟨rfl, fun e he => ?_⟩
        obtain rfl | he := List.mem_cons.mp he
        · exact hlt
        · exact hall e he
      · rintro ⟨h, hall⟩
        cases digits with
        | nil => cases h
        | cons d tail =>
            obtain ⟨rfl, rfl⟩ := List.cons.inj h
            rw [hexValue_hexChar d (hall d List.mem_cons_self),
              ih.mpr ⟨rfl, fun e he => hall e (List.mem_cons_of_mem _ he)⟩]
            rfl

/-- **A group** is one to four digits. -/
theorem hexGroup_eq_some {part : Part} {g : ℕ} :
    hexGroup part = some g ↔ ∃ digits : List ℕ, part = digits.map hexChar ∧
      (∀ d ∈ digits, d < 16) ∧ (1 ≤ digits.length ∧ digits.length ≤ 4) ∧ value digits = g := by
  unfold hexGroup
  constructor
  · intro h
    split at h
    · rename_i hlength
      obtain ⟨digits, hdigits, rfl⟩ := Option.map_eq_some_iff.mp h
      obtain ⟨rfl, hall⟩ := mapM_hexValue.mp hdigits
      rw [List.length_map] at hlength
      exact ⟨digits, rfl, hall, hlength, rfl⟩
    · cases h
  · rintro ⟨digits, rfl, hall, hlength, rfl⟩
    rw [List.length_map, if_pos hlength, mapM_hexValue.mpr ⟨rfl, hall⟩]
    rfl

/-! ### Dotted addresses -/

/-- A decimal number below 256, without leading zeros. -/
def octet (part : Part) : Option ℕ :=
  if part ≠ [] ∧ (∀ c ∈ part, c.isDigit) ∧ (part.length = 1 ∨ part.head? ≠ some '0') then
    (some (part.foldl (fun n c => 10 * n + (c.toNat - 48)) 0)).filter (· < 256)
  else none

/-- `net.isIP(text) === 4`, with the octets. -/
def ipv4 (text : List Char) : Option (List ℕ) :=
  let parts := text.splitOn '.'
  if parts.length = 4 then parts.mapM octet else none

/-- The two groups that a dotted address stands for. -/
def dotted (part : Part) : Option (List ℕ) :=
  match ipv4 part with
  | some [a, b, c, d] => some [256 * a + b, 256 * c + d]
  | _ => none

/-! ### IPv6 -/

/-- Groups, of which the last may be dotted. -/
def groups : List Part → Option (List ℕ)
  | [] => some []
  | [last] => ((hexGroup last).map fun g => [g]).or (dotted last)
  | part :: rest => (hexGroup part).bind fun g => (groups rest).map fun gs => g :: gs

/-- What follows a gap, whose first empty text is gone. -/
def afterGap (left after : List Part) : Option (List Part) :=
  let right := if left = [] then (if after.head? = some [] then some after.tail else none)
    else some after
  right.bind fun right => if right = [] then none else if right = [[]] then some [] else some right

/-- The address of the texts between colons. -/
def ipv6Parts (parts : List Part) : Option (List ℕ) :=
  let left := parts.takeWhile (· ≠ [])
  match parts.dropWhile (· ≠ []) with
  | [] => (groups left).filter fun gs => gs.length = 8
  | _ :: after => do
      let right ← afterGap left after
      let before ← left.mapM hexGroup
      let behind ← groups right
      if before.length + behind.length ≤ 7 then
        some (before ++ List.replicate (8 - before.length - behind.length) 0 ++ behind)
      else none

/-- A character of a zone. -/
def zoneChar (c : Char) : Bool := c.isAlphanum ∨ c ∈ "-.:".toList

/-- `net.isIP(text) === 6`, with the groups. -/
def ipv6 (text : List Char) : Option (List ℕ) :=
  let zone := text.dropWhile (· ≠ '%')
  if zone = [] ∨ (1 < zone.length ∧ ∀ c ∈ zone.drop 1, zoneChar c) then
    ipv6Parts (((text.takeWhile (· ≠ '%')).map Char.toLower).splitOn ':')
  else none

/-! ### The characters of a group -/

theorem hexChar_plain : ∀ d < 16, hexChar d ≠ ':' ∧ hexChar d ≠ '%' ∧ hexChar d ≠ '.' ∧
    (hexChar d).toLower = hexChar d := by
  decide +kernel

variable {part first : Part} {parts lead more : List Part} {text : List Char} {a gs : List ℕ} {g : ℕ}

theorem hexGroup_plain (h : hexGroup part = some g) :
    ∀ c ∈ part, c ≠ ':' ∧ c ≠ '%' ∧ c ≠ '.' ∧ c.toLower = c := by
  obtain ⟨digits, rfl, hall, -, -⟩ := hexGroup_eq_some.mp h
  intro c hc
  obtain ⟨d, hd, rfl⟩ := List.mem_map.mp hc
  exact hexChar_plain d (hall d hd)

/-- Digits are below the power of their number. -/
theorem value_lt {digits : List ℕ} (h : ∀ d ∈ digits, d < 16) : value digits < 16 ^ digits.length := by
  induction digits using List.reverseRecOn with
  | nil => decide
  | append_singleton init d ih =>
      have hinit := ih fun e he => h e (List.mem_append_left _ he)
      have hd := h d (List.mem_append_right _ List.mem_cons_self)
      rw [List.length_append, List.length_singleton, Nat.pow_succ]
      show List.foldl _ _ _ < _
      rw [List.foldl_append]
      show 16 * value init + d < _
      omega

theorem hexGroup_lt (h : hexGroup part = some g) : g < 0x10000 := by
  obtain ⟨digits, -, hall, ⟨-, hlength⟩, rfl⟩ := hexGroup_eq_some.mp h
  exact lt_of_lt_of_le (value_lt hall) (Nat.pow_le_pow_right (by decide) hlength)

/-! ### Dotted texts -/

theorem octet_lt {n : ℕ} (h : octet part = some n) : n < 256 := by
  unfold octet at h
  split at h
  · exact of_decide_eq_true (Option.filter_eq_some_iff.mp h).2
  · cases h

theorem octet_isDigit {n : ℕ} (h : octet part = some n) : ∀ c ∈ part, c.isDigit := by
  unfold octet at h
  split at h
  · rename_i hpart
    exact hpart.2.1
  · cases h

/-- What `mapM` answers follows the reading of a single text. -/
theorem mapM_map_of_imp {α β γ : Type*} {f : α → Option β} {g : α → Option γ} {e : β → γ}
    (himp : ∀ x y, f x = some y → g x = some (e y)) {xs : List α} {ys : List β}
    (h : xs.mapM f = some ys) : xs.mapM g = some (ys.map e) := by
  induction xs generalizing ys with
  | nil =>
      rw [List.mapM_nil] at h
      obtain rfl := Option.some.inj h
      rfl
  | cons x xs ih =>
      rw [List.mapM_cons] at h
      obtain ⟨y, hy, h⟩ := Option.bind_eq_some_iff.mp h
      obtain ⟨rest, hrest, h⟩ := Option.bind_eq_some_iff.mp h
      obtain rfl := Option.some.inj h
      rw [List.mapM_cons, himp x y hy, ih hrest]
      rfl

/-- What `mapM` answers comes from the texts, one by one. -/
theorem mem_of_mapM {α β : Type*} {f : α → Option β} {xs : List α} {ys : List β}
    (h : xs.mapM f = some ys) :
    ys.length = xs.length ∧ (∀ x ∈ xs, ∃ y ∈ ys, f x = some y) ∧ ∀ y ∈ ys, ∃ x ∈ xs, f x = some y := by
  induction xs generalizing ys with
  | nil =>
      rw [List.mapM_nil] at h
      obtain rfl := Option.some.inj h
      simp
  | cons x xs ih =>
      rw [List.mapM_cons] at h
      obtain ⟨y, hy, h⟩ := Option.bind_eq_some_iff.mp h
      obtain ⟨rest, hrest, h⟩ := Option.bind_eq_some_iff.mp h
      obtain rfl := Option.some.inj h
      obtain ⟨hlength, hread, hfrom⟩ := ih hrest
      refine ⟨congrArg (· + 1) hlength, fun x' hx' => ?_, fun y' hy' => ?_⟩
      · obtain rfl | hx' := List.mem_cons.mp hx'
        · exact ⟨y, List.mem_cons_self, hy⟩
        · obtain ⟨y', hmem, hy'⟩ := hread x' hx'
          exact ⟨y', List.mem_cons_of_mem _ hmem, hy'⟩
      · obtain rfl | hy' := List.mem_cons.mp hy'
        · exact ⟨x, List.mem_cons_self, hy⟩
        · obtain ⟨x', hmem, hx'⟩ := hfrom y' hy'
          exact ⟨x', List.mem_cons_of_mem _ hmem, hx'⟩

theorem mem_intercalate {sep : List Char} {c : Char} (h : c ∈ sep.intercalate parts) :
    c ∈ sep ∨ ∃ part ∈ parts, c ∈ part := by
  induction parts with
  | nil => cases h
  | cons part rest ih =>
      cases rest with
      | nil =>
          rw [List.intercalate_singleton] at h
          exact Or.inr ⟨part, List.mem_cons_self, h⟩
      | cons next rest =>
          rw [List.intercalate_cons_cons, List.mem_append, List.mem_append] at h
          obtain (h | h) | h := h
          · exact Or.inr ⟨part, List.mem_cons_self, h⟩
          · exact Or.inl h
          · obtain h | ⟨found, hmem, hc⟩ := ih h
            · exact Or.inl h
            · exact Or.inr ⟨found, List.mem_cons_of_mem _ hmem, hc⟩

/-- A dotted text has digits and dots only. -/
theorem ipv4_plain (h : ipv4 text = some gs) : ∀ c ∈ text, c = '.' ∨ c.isDigit := by
  unfold ipv4 at h
  dsimp only at h
  split at h
  · intro c hc
    have hjoin : ['.'].intercalate (text.splitOn '.') = text := List.intercalate_splitOn '.'
    rw [← hjoin] at hc
    obtain hc | ⟨part, hpart, hc⟩ := mem_intercalate hc
    · exact Or.inl (List.mem_singleton.mp hc)
    · obtain ⟨n, -, hn⟩ := (mem_of_mapM h).2.1 part hpart
      exact Or.inr (octet_isDigit hn c hc)
  · cases h

/-- A dotted text stands for two groups. -/
theorem dotted_eq_some (h : dotted part = some gs) : ∃ x y z w, ipv4 part = some [x, y, z, w] ∧
    (x < 256 ∧ y < 256 ∧ z < 256 ∧ w < 256) ∧ gs = [256 * x + y, 256 * z + w] := by
  unfold dotted at h
  split at h
  · rename_i x y z w hfour
    have hlt : ∀ n ∈ [x, y, z, w], n < 256 := by
      intro n hn
      unfold ipv4 at hfour
      dsimp only at hfour
      split at hfour
      · obtain ⟨_, -, hoctet⟩ := (mem_of_mapM hfour).2.2 n hn
        exact octet_lt hoctet
      · cases hfour
    refine ⟨x, y, z, w, hfour, ⟨?_, ?_, ?_, ?_⟩, (Option.some.inj h).symm⟩
    all_goals exact hlt _ (by simp)
  · cases h

/-! ### What the texts between colons are -/

theorem groups_cons (h : more ≠ []) :
    groups (part :: more) = (hexGroup part).bind fun g => (groups more).map fun gs => g :: gs := by
  cases more with
  | nil => exact absurd rfl h
  | cons next more => rfl

theorem groups_bound (h : groups parts = some gs) :
    gs.length ≤ parts.length + 1 ∧ ∀ g ∈ gs, g < 0x10000 := by
  induction parts generalizing gs with
  | nil =>
      obtain rfl := Option.some.inj h
      simp
  | cons part more ih =>
      by_cases hmore : more = []
      · subst hmore
        show _ ≤ 2 ∧ _
        obtain h | ⟨-, h⟩ := Option.or_eq_some_iff.mp h
        · obtain ⟨g, hg, rfl⟩ := Option.map_eq_some_iff.mp h
          refine ⟨Nat.le_succ 1, fun g' hg' => ?_⟩
          obtain rfl := List.mem_singleton.mp hg'
          exact hexGroup_lt hg
        · obtain ⟨x, y, z, w, -, ⟨hx, hy, hz, hw⟩, rfl⟩ := dotted_eq_some h
          refine ⟨le_refl 2, fun g hg => ?_⟩
          obtain rfl | hg := List.mem_cons.mp hg
          · omega
          · obtain rfl := List.mem_singleton.mp hg
            omega
      · rw [groups_cons hmore] at h
        obtain ⟨g, hg, h⟩ := Option.bind_eq_some_iff.mp h
        obtain ⟨rest, hrest, rfl⟩ := Option.map_eq_some_iff.mp h
        obtain ⟨hlength, hall⟩ := ih hrest
        refine ⟨Nat.succ_le_succ hlength, fun g' hg' => ?_⟩
        obtain rfl | hg' := List.mem_cons.mp hg'
        · exact hexGroup_lt hg
        · exact hall g' hg'

/-- The texts of an address with a gap. -/
structure Gapped (parts : List Part) (a : List ℕ) (left after : List Part)
    (before behind : List ℕ) : Prop where
  parts_eq : parts = left ++ [] :: after
  nonempty : [] ∉ left
  left_groups : left.mapM hexGroup = some before
  behind_groups : ∃ right, afterGap left after = some right ∧ groups right = some behind
  short : before.length + behind.length ≤ 7
  address : a = before ++ List.replicate (8 - before.length - behind.length) 0 ++ behind

/-- **The texts of an address** are groups, or groups around a gap. -/
theorem ipv6Parts_eq_some (h : ipv6Parts parts = some a) :
    ([] ∉ parts ∧ groups parts = some a ∧ a.length = 8) ∨
      ∃ left after before behind, Gapped parts a left after before behind := by
  unfold ipv6Parts at h
  dsimp only at h
  have hparts := List.takeWhile_append_dropWhile (p := fun part : Part => decide (part ≠ [])) (l := parts)
  have hleft : ([] : Part) ∉ parts.takeWhile fun part => decide (part ≠ []) := by
    intro hmem
    have hne := List.mem_takeWhile_imp hmem
    exact absurd hne (by decide)
  split at h
  · rename_i hdrop
    rw [hdrop, List.append_nil] at hparts
    rw [hparts] at h hleft
    obtain ⟨hgroups, hlength⟩ := Option.filter_eq_some_iff.mp h
    exact Or.inl ⟨hleft, hgroups, of_decide_eq_true hlength⟩
  · rename_i gap after hdrop
    have hgap : gap = [] := by
      have hhead := List.head?_dropWhile_not (fun part : Part => decide (part ≠ [])) parts
      rw [hdrop] at hhead
      simpa using hhead
    obtain ⟨right, hright, h⟩ := Option.bind_eq_some_iff.mp h
    obtain ⟨before, hbefore, h⟩ := Option.bind_eq_some_iff.mp h
    obtain ⟨behind, hbehind, h⟩ := Option.bind_eq_some_iff.mp h
    split at h
    · rename_i hshort
      rw [hdrop, hgap] at hparts
      exact Or.inr ⟨_, after, before, behind, hparts.symm, hleft, hbefore, ⟨right, hright, hbehind⟩,
        hshort, (Option.some.inj h).symm⟩
    · cases h

theorem afterGap_eq_some {left after right : List Part} (h : afterGap left after = some right) :
    (left = [] → ∃ tail, tail ≠ [] ∧ after = [] :: tail) ∧ after ≠ [] := by
  unfold afterGap at h
  dsimp only at h
  obtain ⟨kept, hkept, h⟩ := Option.bind_eq_some_iff.mp h
  have hne : kept ≠ [] := by
    rintro rfl
    cases h
  by_cases hleft : left = []
  · rw [if_pos hleft] at hkept
    split at hkept
    · rename_i hhead
      obtain ⟨tail, rfl⟩ := List.head?_eq_some_iff.mp hhead
      obtain rfl := Option.some.inj hkept
      exact ⟨fun _ => ⟨tail, hne, rfl⟩, List.cons_ne_nil _ _⟩
    · cases hkept
  · rw [if_neg hleft] at hkept
    obtain rfl := Option.some.inj hkept
    exact ⟨fun h => absurd h hleft, hne⟩

theorem two_lt_length_of_ipv6Parts (h : ipv6Parts parts = some a) : 2 < parts.length := by
  obtain ⟨-, hgroups, hlength⟩ | ⟨left, after, before, behind, hgap⟩ := ipv6Parts_eq_some h
  · have hbound := (groups_bound hgroups).1
    omega
  · obtain ⟨right, hright, -⟩ := hgap.behind_groups
    obtain ⟨hempty, hafter⟩ := afterGap_eq_some hright
    rw [hgap.parts_eq, List.length_append, List.length_cons]
    have hpos := List.length_pos_iff.mpr hafter
    cases left with
    | nil =>
        obtain ⟨tail, htail, rfl⟩ := hempty rfl
        have hpos := List.length_pos_iff.mpr htail
        rw [List.length_cons]
        omega
    | cons part left =>
        rw [List.length_cons]
        omega

/-- An address has eight groups of 16 bits. -/
theorem bounds_of_ipv6Parts (h : ipv6Parts parts = some a) : a.length = 8 ∧ ∀ g ∈ a, g < 0x10000 := by
  obtain ⟨-, hgroups, hlength⟩ | ⟨left, after, before, behind, hgap⟩ := ipv6Parts_eq_some h
  · exact ⟨hlength, (groups_bound hgroups).2⟩
  · have hshort := hgap.short
    obtain ⟨right, -, hbehind⟩ := hgap.behind_groups
    refine ⟨?_, fun g hg => ?_⟩
    · rw [hgap.address, List.length_append, List.length_append, List.length_replicate]
      omega
    · rw [hgap.address, List.mem_append, List.mem_append] at hg
      obtain (hg | hg) | hg := hg
      · obtain ⟨part, -, hpart⟩ := (mem_of_mapM hgap.left_groups).2.2 g hg
        exact hexGroup_lt hpart
      · rw [List.eq_of_mem_replicate hg]
        decide
      · exact (groups_bound hbehind).2 g hg

/-- The groups in front of a gap and of the last text are the first ones of the address. -/
theorem groups_of_lead (h : ipv6Parts (lead ++ more) = some a) (hlead : [] ∉ lead) (hmore : more ≠ []) :
    ∃ gs, lead.mapM hexGroup = some gs ∧ gs <+: a := by
  obtain ⟨-, hgroups, -⟩ | ⟨left, after, before, behind, hgap⟩ := ipv6Parts_eq_some h
  · clear h hlead
    induction lead generalizing a with
    | nil => exact ⟨[], rfl, List.nil_prefix⟩
    | cons part lead ih =>
        rw [List.cons_append, groups_cons (List.append_ne_nil_of_right_ne_nil _ hmore)] at hgroups
        obtain ⟨g, hg, hgroups⟩ := Option.bind_eq_some_iff.mp hgroups
        obtain ⟨rest, hrest, rfl⟩ := Option.map_eq_some_iff.mp hgroups
        obtain ⟨gs, hgs, hpre⟩ := ih hrest
        refine ⟨g :: gs, ?_, List.cons_prefix_cons.mpr ⟨rfl, hpre⟩⟩
        rw [List.mapM_cons, hg, hgs]
        rfl
  · have hin : ∃ rest, left = lead ++ rest := by
      obtain ⟨rest, hleft, -⟩ | ⟨rest, hlead', hrest⟩ := List.append_eq_append_iff.mp hgap.parts_eq
      · exact ⟨rest, hleft⟩
      · cases rest with
        | nil => exact ⟨[], by rw [hlead', List.append_nil, List.append_nil]⟩
        | cons gap rest =>
            obtain ⟨rfl, -⟩ := List.cons.inj hrest
            exact absurd (hlead' ▸ List.mem_append_right _ List.mem_cons_self) hlead
    obtain ⟨rest, rfl⟩ := hin
    have hbefore := hgap.left_groups
    rw [List.mapM_append] at hbefore
    obtain ⟨gs, hgs, hbefore⟩ := Option.bind_eq_some_iff.mp hbefore
    obtain ⟨gs', -, hbefore⟩ := Option.bind_eq_some_iff.mp hbefore
    refine ⟨gs, hgs, ?_⟩
    rw [hgap.address, ← Option.some.inj hbefore, List.append_assoc, List.append_assoc]
    exact List.prefix_append _ _

/-- A gap stands for at least one zero group. -/
theorem groups_of_gap (h : ipv6Parts (lead ++ [] :: more) = some a) (hlead : [] ∉ lead) :
    ∃ gs, lead.mapM hexGroup = some gs ∧ gs ++ [0] <+: a := by
  obtain ⟨hempty, -, -⟩ | ⟨left, after, before, behind, hgap⟩ := ipv6Parts_eq_some h
  · exact absurd (List.mem_append_right _ List.mem_cons_self) hempty
  · have hfront : ∀ {front back : List Part}, [] ∉ front →
        (front ++ [] :: back).takeWhile (fun part => decide (part ≠ [])) = front := by
      intro front back hfront
      have hall : ∀ part ∈ front, decide (part ≠ []) = true := by
        intro part hpart
        refine decide_eq_true fun hnil => ?_
        rw [hnil] at hpart
        exact hfront hpart
      rw [List.takeWhile_append_of_pos hall]
      exact List.append_nil _
    have hleft : left = lead := by
      rw [← hfront hgap.nonempty, ← hgap.parts_eq, hfront hlead]
    subst hleft
    refine ⟨before, hgap.left_groups, ?_⟩
    have hshort := hgap.short
    rw [hgap.address, show 8 - before.length - behind.length = (7 - before.length - behind.length) + 1
      by omega, List.replicate_succ, List.append_assoc]
    exact (List.prefix_append_right_inj _).mpr (List.cons_prefix_cons.mpr ⟨rfl, List.nil_prefix⟩)

/-! ### Texts that are read back -/

/-- The last `width` hexadecimal digits of a number. -/
def digits : ℕ → ℕ → List ℕ
  | 0, _ => []
  | width + 1, n => digits width (n / 16) ++ [n % 16]

theorem length_digits (width n : ℕ) : (digits width n).length = width := by
  induction width generalizing n with
  | zero => rfl
  | succ width ih => rw [digits, List.length_append, ih, List.length_singleton]

theorem digits_lt {width n d : ℕ} (h : d ∈ digits width n) : d < 16 := by
  induction width generalizing n with
  | zero => cases h
  | succ width ih =>
      obtain h | h := List.mem_append.mp h
      · exact ih h
      · obtain rfl := List.mem_singleton.mp h
        exact Nat.mod_lt _ (by decide)

theorem value_digits {width n : ℕ} (h : n < 16 ^ width) : value (digits width n) = n := by
  induction width generalizing n with
  | zero =>
      rw [Nat.pow_zero] at h
      obtain rfl : n = 0 := by omega
      rfl
  | succ width ih =>
      rw [Nat.pow_succ] at h
      rw [digits, value, List.foldl_append]
      show 16 * value (digits width (n / 16)) + n % 16 = n
      rw [ih (Nat.div_lt_of_lt_mul (by rwa [Nat.mul_comm] at h))]
      omega

/-- A group in a number of digits. -/
def spellGroup (w : ℕ × ℕ) : Part := (digits w.1 w.2).map hexChar

/-- The widths are enough for the groups. -/
def Fits (ws : List (ℕ × ℕ)) : Prop := ∀ w ∈ ws, (1 ≤ w.1 ∧ w.1 ≤ 4) ∧ w.2 < 16 ^ w.1

/-- Groups with the widths they are written in. -/
def spell (ws : List (ℕ × ℕ)) : List Char := [':'].intercalate (ws.map spellGroup)

variable {ws : List (ℕ × ℕ)}

theorem hexGroup_spellGroup {w : ℕ × ℕ} (h : (1 ≤ w.1 ∧ w.1 ≤ 4) ∧ w.2 < 16 ^ w.1) :
    hexGroup (spellGroup w) = some w.2 := by
  refine hexGroup_eq_some.mpr ⟨digits w.1 w.2, rfl, fun d hd => digits_lt hd, ?_, value_digits h.2⟩
  rw [length_digits]
  exact h.1

theorem spellGroup_ne_nil {w : ℕ × ℕ} (h : (1 ≤ w.1 ∧ w.1 ≤ 4) ∧ w.2 < 16 ^ w.1) :
    spellGroup w ≠ [] := by
  intro hnil
  have hread := hexGroup_spellGroup h
  rw [hnil] at hread
  cases hread

theorem groups_spellGroup (h : Fits ws) : groups (ws.map spellGroup) = some (ws.map Prod.snd) := by
  induction ws with
  | nil => rfl
  | cons w ws ih =>
      have hw := hexGroup_spellGroup (h w List.mem_cons_self)
      have hrest := ih fun w' hw' => h w' (List.mem_cons_of_mem _ hw')
      rw [List.map_cons, List.map_cons]
      by_cases hnil : ws = []
      · subst hnil
        show ((hexGroup (spellGroup w)).map fun g => [g]).or _ = _
        rw [hw]
        rfl
      · rw [groups_cons (by simpa using hnil), hw, hrest]
        rfl

theorem spell_plain (h : Fits ws) {c : Char} (hc : c ∈ spell ws) : c ≠ '%' ∧ c.toLower = c := by
  obtain hc | ⟨part, hpart, hc⟩ := mem_intercalate hc
  · obtain rfl := List.mem_singleton.mp hc
    decide
  · obtain ⟨w, hw, rfl⟩ := List.mem_map.mp hpart
    obtain ⟨-, hpercent, -, hlower⟩ := hexGroup_plain (hexGroup_spellGroup (h w hw)) c hc
    exact ⟨hpercent, hlower⟩

theorem splitOn_spell (h : Fits ws) (hne : ws ≠ []) : (spell ws).splitOn ':' = ws.map spellGroup := by
  refine List.splitOn_intercalate _ (fun part hpart hc => ?_) (by simpa using hne)
  obtain ⟨w, hw, rfl⟩ := List.mem_map.mp hpart
  exact (hexGroup_plain (hexGroup_spellGroup (h w hw)) _ hc).1 rfl

/-- A text in lower case and without a zone. -/
def Bare (text : List Char) : Prop := ∀ c ∈ text, c ≠ '%' ∧ c.toLower = c

theorem takeWhile_of_bare (h : Bare text) : text.takeWhile (· ≠ '%') = text ∧
    text.dropWhile (· ≠ '%') = [] := by
  have hall : ∀ c ∈ text, decide (c ≠ '%') = true := fun c hc => decide_eq_true (h c hc).1
  exact ⟨List.takeWhile_eq_self_iff.mpr hall, List.dropWhile_eq_nil_iff.mpr hall⟩

theorem map_toLower_of_bare (h : Bare text) : text.map Char.toLower = text :=
  (List.map_congr_left fun c hc => (h c hc).2).trans (List.map_id _)

/-- A bare text is read as it stands. -/
theorem ipv6_of_bare (h : Bare text) : ipv6 text = ipv6Parts (text.splitOn ':') := by
  unfold ipv6
  dsimp only
  rw [(takeWhile_of_bare h).1, (takeWhile_of_bare h).2, if_pos (Or.inl rfl), map_toLower_of_bare h]

/-- **Eight groups are read back**, in whatever widths they are written. -/
theorem ipv6_spell (h : Fits ws) (hlength : ws.length = 8) : ipv6 (spell ws) = some (ws.map Prod.snd) := by
  have hne : ws ≠ [] := List.ne_nil_of_length_pos (by omega)
  have hno : ∀ part ∈ ws.map spellGroup, decide (part ≠ []) = true := by
    intro part hpart
    obtain ⟨w, hw, rfl⟩ := List.mem_map.mp hpart
    exact decide_eq_true (spellGroup_ne_nil (h w hw))
  rw [ipv6_of_bare fun c hc => spell_plain h hc, splitOn_spell h hne]
  unfold ipv6Parts
  dsimp only
  rw [List.dropWhile_eq_nil_iff.mpr hno, List.takeWhile_eq_self_iff.mpr hno, groups_spellGroup h]
  show Option.filter _ (some _) = _
  rw [Option.filter_some, if_pos (decide_eq_true (by rw [List.length_map, hlength]))]

/-! ### Bodies -/

/-- The text in lower case, without its zone. -/
def body (text : List Char) : List Char := (text.takeWhile (· ≠ '%')).map Char.toLower

/-- Lower case is reached at once, and does not make a zone. -/
theorem toLower_bare {c : Char} (h : c ≠ '%') : c.toLower ≠ '%' ∧ c.toLower.toLower = c.toLower := by
  have hupper : ∀ n < 0x5b, Char.ofNat n ≠ '%' → (Char.ofNat n).toLower ≠ '%' ∧
      (Char.ofNat n).toLower.toLower = (Char.ofNat n).toLower := by
    decide +kernel
  by_cases hlt : c.toNat < 0x5b
  · have hc := hupper c.toNat hlt
    rw [Char.ofNat_toNat] at hc
    exact hc h
  · have hself : c.toLower = c := by
      unfold Char.toLower
      refine dif_neg fun hrange => hlt ?_
      exact Nat.lt_succ_of_le (UInt32.le_iff_toNat_le.mp hrange.2)
    rw [hself, hself]
    exact ⟨h, rfl⟩

theorem bare_body : Bare (body text) := by
  intro c hc
  obtain ⟨source, hsource, rfl⟩ := List.mem_map.mp hc
  have hne := List.mem_takeWhile_imp hsource
  exact toLower_bare (of_decide_eq_true hne)

theorem ipv6_body (h : ipv6 text = some a) : ipv6 (body text) = some a := by
  rw [ipv6_of_bare bare_body]
  unfold ipv6 at h
  dsimp only at h
  split at h
  · exact h
  · cases h

/-! ### What a text begins with -/

/-- A word without a separator begins a text if it begins what is in front of the separator. -/
theorem isPrefix_splitOn {word : List Char} (hword : ':' ∉ word) (h : text.splitOn ':' = first :: more) :
    word <+: text ↔ word <+: first := by
  have hjoin : [':'].intercalate (text.splitOn ':') = text := List.intercalate_splitOn ':'
  rw [h] at hjoin
  cases more with
  | nil =>
      rw [List.intercalate_singleton] at hjoin
      rw [hjoin]
  | cons next more =>
      rw [List.intercalate_cons_cons, List.append_assoc] at hjoin
      rw [← hjoin]
      constructor
      · intro hpre
        obtain hle | hlt := Nat.lt_or_ge first.length word.length |>.symm
        · exact List.prefix_of_prefix_length_le hpre (List.prefix_append _ _) hle
        · have hcolon : first ++ [':'] <+: first ++ ([':'] ++ [':'].intercalate (next :: more)) :=
            (List.prefix_append_right_inj _).mpr (List.prefix_append _ _)
          have hin := List.prefix_of_prefix_length_le hcolon hpre (by
            rw [List.length_append, List.length_singleton]
            exact hlt)
          exact absurd (hin.subset (List.mem_append_right _ List.mem_cons_self)) hword
      · exact fun hpre => hpre.trans (List.prefix_append _ _)

/-- Two words around a separator begin a text if the first one is all that stands in front of it. -/
theorem isPrefix_splitOn_cons {word next : List Char} (hword : ':' ∉ word) (hnext : ':' ∉ next) :
    word ++ ':' :: next <+: text ↔
      ∃ second rest, text.splitOn ':' = word :: second :: rest ∧ next <+: second := by
  constructor
  · rintro ⟨tail, rfl⟩
    rw [List.append_assoc, List.cons_append, List.splitOn_append_cons_self_of_not_mem hword]
    cases hsplit : (next ++ tail).splitOn ':' with
    | nil => exact absurd hsplit (List.splitOn_ne_nil _ _)
    | cons second rest =>
        exact ⟨second, rest, rfl, (isPrefix_splitOn hnext hsplit).mp (List.prefix_append _ _)⟩
  · rintro ⟨second, rest, hsplit, hpre⟩
    have hjoin : [':'].intercalate (text.splitOn ':') = text := List.intercalate_splitOn ':'
    rw [hsplit, List.intercalate_cons_cons, List.append_assoc] at hjoin
    rw [← hjoin]
    refine (List.prefix_append_right_inj _).mpr (List.cons_prefix_cons.mpr ⟨rfl, ?_⟩)
    cases rest with
    | nil =>
        show next <+: [':'].intercalate [second]
        rwa [List.intercalate_singleton]
    | cons third rest =>
        show next <+: [':'].intercalate (second :: third :: rest)
        rw [List.intercalate_cons_cons, List.append_assoc]
        exact hpre.trans (List.prefix_append _ _)

theorem map_hexChar_isPrefix {ds es : List ℕ} (hds : ∀ d ∈ ds, d < 16) (hes : ∀ e ∈ es, e < 16) :
    ds.map hexChar <+: es.map hexChar ↔ ds <+: es := by
  induction ds generalizing es with
  | nil => simp
  | cons d ds ih =>
      cases es with
      | nil => simp
      | cons e es =>
          rw [List.map_cons, List.map_cons, List.cons_prefix_cons, List.cons_prefix_cons,
            ih (fun d hd => hds d (List.mem_cons_of_mem _ hd))
              fun e he => hes e (List.mem_cons_of_mem _ he)]
          refine and_congr_left fun _ => ⟨fun h => ?_, congrArg hexChar⟩
          exact hexChar_injective d (hds d List.mem_cons_self) e (hes e List.mem_cons_self) h

end IpText
