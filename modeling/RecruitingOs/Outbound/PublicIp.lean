import RecruitingOs.Lib.IpText

/-!
# Public addresses

`isPublicIp` of `src/url.ts`: which addresses may be fetched from.  An IPv4 address is compared
with blocked networks by its number; an IPv6 address is compared by its spelling, in lower case and
without its zone: beginnings of the text, and the two texts of a mapped IPv4 address.

The answer belongs to the address where the tests look at something that every spelling shows
(`isPublicIp_spelling_iff`).  A group that may be written with a leading zero, and zero groups that
may be written out, hide an address from a test for its short spelling.
-/

namespace RecruitingOs

open IpText

/-! ### IPv4 -/

/-- `ipv4Number`, of a text that `isIP` takes for IPv4. -/
def ipv4Number (address : List Char) : Option ℕ :=
  match ipv4 address with
  | some [a, b, c, d] => some ((a <<< 24) + (b <<< 16) + (c <<< 8) + d)
  | _ => none

/-- `inIpv4Cidr`. -/
def inIpv4Cidr (address network : List Char) (bits : ℕ) : Bool :=
  match ipv4Number address, ipv4Number network with
  | some value, some base =>
      let mask := if bits = 0 then 0 else (0xffffffff <<< (32 - bits)) % 2 ^ 32
      value &&& mask = base &&& mask
  | _, _ => false

/-- `blocked`. -/
def blocked : List (String × ℕ) :=
  [("0.0.0.0", 8), ("10.0.0.0", 8), ("100.64.0.0", 10), ("127.0.0.0", 8), ("169.254.0.0", 16),
    ("172.16.0.0", 12), ("192.0.0.0", 24), ("192.0.2.0", 24), ("192.168.0.0", 16),
    ("198.18.0.0", 15), ("198.51.100.0", 24), ("203.0.113.0", 24), ("224.0.0.0", 4),
    ("240.0.0.0", 4)]

/-- The address is in a blocked network. -/
def blockedIpv4 (address : List Char) : Bool :=
  blocked.any fun (network, bits) => inIpv4Cidr address network.toList bits

/-! ### IPv6 -/

/-- The text is lower-cased and loses its zone. -/
def normalized (address : List Char) : List Char := (address.map Char.toLower).takeWhile (· ≠ '%')

/-- The spellings that are refused. -/
def refusedSpelling (text : List Char) : Bool :=
  text = "::".toList ∨ text = "::1".toList ∨
    (["fc", "fd"].any fun w => w.toList.isPrefixOf text) ∨
    (["fe8", "fe9", "fea", "feb"].any fun w => w.toList.isPrefixOf text) ∨
    "ff".toList.isPrefixOf text ∨ "2001:db8".toList.isPrefixOf text

/-- `^::ffff:(\d+\.\d+\.\d+\.\d+)$`. -/
def mappedDotted (text : List Char) : Option (List Char) :=
  ("::ffff:".toList.isPrefixOf? text).filter fun rest =>
    (rest.splitOn '.').length = 4 ∧ ∀ part ∈ rest.splitOn '.', part ≠ [] ∧ ∀ c ∈ part, c.isDigit

/-- `^::ffff:([0-9a-f]{1,4}):([0-9a-f]{1,4})$`, with the numbers. -/
def mappedHex (text : List Char) : Option (ℕ × ℕ) :=
  ("::ffff:".toList.isPrefixOf? text).bind fun rest =>
    match rest.splitOn ':' with
    | [high, low] => (hexGroup high).bind fun h => (hexGroup low).map fun l => (h, l)
    | _ => none

/-- `${high >> 8}.${high & 255}.${low >> 8}.${low & 255}`. -/
def dottedText (high low : ℕ) : List Char :=
  ['.'].intercalate
    ([high >>> 8, high &&& 255, low >>> 8, low &&& 255].map fun n => (toString n).toList)

/-- What is answered after the refused spellings; `again` is the call on a mapped address. -/
def mappedAnswer (again : List Char → Bool) (text : List Char) : Bool :=
  match mappedDotted text with
  | some mapped => again mapped
  | none =>
      match mappedHex text with
      | some (high, low) => again (dottedText high low)
      | none => true

/-- The body of `isPublicIp`. -/
def isPublicIpWith (again : List Char → Bool) (address : List Char) : Bool :=
  if (ipv4 (normalized address)).isSome then !blockedIpv4 (normalized address)
  else if (ipv6 (normalized address)).isNone then false
  else if refusedSpelling (normalized address) then false
  else mappedAnswer again (normalized address)

/-- `isPublicIp(address)`.  A mapped address is an IPv4 address, so that the call does not go
deeper (`isPublicIp_eq`). -/
def isPublicIp (address : List Char) : Bool := isPublicIpWith (isPublicIpWith fun _ => false) address

/-! ### What is asked of the answer -/

/-- The address is an IPv4-mapped one. -/
def mapped (a : List ℕ) : Bool := a.take 6 = [0, 0, 0, 0, 0, 0xffff]

/-- The dotted text of a mapped address. -/
def mappedText (a : List ℕ) : List Char := dottedText (a.getD 6 0) (a.getD 7 0)

/-- The unspecified address and the loopback address. -/
def lowest (a : List ℕ) : Bool := a = [0, 0, 0, 0, 0, 0, 0, 0] ∨ a = [0, 0, 0, 0, 0, 0, 0, 1]

/-- `fc00::/7`, `fe80::/10` and `ff00::/8`, by the first group. -/
def local16 (g : ℕ) : Bool := g >>> 9 = 0xfc00 >>> 9 ∨ g >>> 6 = 0xfe80 >>> 6 ∨ g >>> 8 = 0xff00 >>> 8

/-- `2001:db8::/32`. -/
def documentation (a : List ℕ) : Bool := a.getD 0 0 = 0x2001 ∧ a.getD 1 0 = 0xdb8

/-- An address that must not be fetched from. -/
def special (a : List ℕ) : Bool :=
  lowest a ∨ local16 (a.getD 0 0) ∨ documentation a ∨ (mapped a ∧ isPublicIp (mappedText a) = false)

/-- A first group of two or three digits that begins as a local one does. -/
def shortLocal (g : ℕ) : Bool :=
  g = 0xfc ∨ g = 0xfd ∨ g = 0xff ∨ (0xfc0 ≤ g ∧ g ≤ 0xfdf) ∨ (0xfe8 ≤ g ∧ g ≤ 0xfeb) ∨
    (0xff0 ≤ g ∧ g ≤ 0xfff)

/-- Every spelling of the address shows what the tests look at. -/
def plainlySpelled (a : List ℕ) : Bool :=
  ¬ lowest a ∧ ¬ documentation a ∧ ¬ shortLocal (a.getD 0 0) ∧ ¬ (mapped a ∧ blockedIpv4 (mappedText a))

variable {address address' text : List Char} {again again' : List Char → Bool} {a : List ℕ}
  {first : Part} {more : List Part}

/-! ### IPv4 texts -/

theorem normalized_eq : normalized address = body address := by
  unfold normalized body
  rw [List.takeWhile_map]
  congr 2
  funext c
  refine decide_eq_decide.mpr (not_congr ⟨fun h => ?_, fun h => by rw [h]; rfl⟩)
  by_contra hne
  exact (toLower_bare hne).1 h

theorem normalized_of_bare (h : Bare address) : normalized address = address := by
  rw [normalized_eq, body, (takeWhile_of_bare h).1, map_toLower_of_bare h]

theorem isDigit_bare {c : Char} (h : c.isDigit) : c ≠ '%' ∧ c ≠ ':' ∧ c ≠ '.' ∧ c.toLower = c := by
  have hall : ∀ n < 0x3a, (Char.ofNat n).isDigit → Char.ofNat n ≠ '%' ∧ Char.ofNat n ≠ ':' ∧
      Char.ofNat n ≠ '.' ∧ (Char.ofNat n).toLower = Char.ofNat n := by
    decide +kernel
  have hlt : c.toNat < 0x3a := by
    have hrange := of_decide_eq_true ((Bool.and_eq_true _ _).mp h).2
    exact Nat.lt_succ_of_le (UInt32.le_iff_toNat_le.mp hrange)
  have hc := hall c.toNat hlt
  rw [Char.ofNat_toNat] at hc
  exact hc h

/-- A text of digits and dots is asked about IPv4 only. -/
theorem isPublicIpWith_of_dotted (h : ∀ c ∈ text, c = '.' ∨ c.isDigit) :
    isPublicIpWith again text = ((ipv4 text).isSome && !blockedIpv4 text) := by
  have hbare : Bare text := by
    intro c hc
    obtain rfl | hdigit := h c hc
    · decide
    · obtain ⟨hpercent, -, -, hlower⟩ := isDigit_bare hdigit
      exact ⟨hpercent, hlower⟩
  have hcolon : ':' ∉ text := by
    intro hc
    obtain hdot | hdigit := h _ hc
    · exact absurd hdot (by decide)
    · exact (isDigit_bare hdigit).2.1 rfl
  have hnone : ipv6 text = none := by
    rw [ipv6_of_bare hbare]
    cases hparts : ipv6Parts (text.splitOn ':') with
    | none => rfl
    | some a =>
        have hlength := two_lt_length_of_ipv6Parts hparts
        rw [List.splitOn_eq_singleton hcolon] at hlength
        exact absurd hlength (by rw [List.length_singleton]; decide)
  unfold isPublicIpWith
  rw [normalized_of_bare hbare, hnone]
  cases ipv4 text with
  | none => rfl
  | some _ => rfl

theorem isPublicIp_of_dotted (h : ∀ c ∈ text, c = '.' ∨ c.isDigit) :
    isPublicIp text = ((ipv4 text).isSome && !blockedIpv4 text) :=
  isPublicIpWith_of_dotted h

theorem dottedText_plain (high low : ℕ) : ∀ c ∈ dottedText high low, c = '.' ∨ c.isDigit := by
  intro c hc
  obtain hc | ⟨part, hpart, hc⟩ := mem_intercalate hc
  · exact Or.inl (List.mem_singleton.mp hc)
  · obtain ⟨n, -, rfl⟩ := List.mem_map.mp hpart
    rw [show toString n = n.repr from rfl, Nat.toList_repr] at hc
    exact Or.inr (Nat.isDigit_of_mem_toDigits (by decide) (by decide) hc)

theorem mappedDotted_plain (h : mappedDotted address = some text) :
    ∀ c ∈ text, c = '.' ∨ c.isDigit := by
  obtain ⟨-, hparts⟩ := Option.filter_eq_some_iff.mp h
  obtain ⟨-, hparts⟩ := of_decide_eq_true hparts
  intro c hc
  have hjoin : ['.'].intercalate (text.splitOn '.') = text := List.intercalate_splitOn '.'
  rw [← hjoin] at hc
  obtain hc | ⟨part, hpart, hc⟩ := mem_intercalate hc
  · exact Or.inl (List.mem_singleton.mp hc)
  · exact Or.inr ((hparts part hpart).2 c hc)

/-- The call on a mapped address does not go deeper. -/
theorem isPublicIp_eq (address : List Char) : isPublicIp address = isPublicIpWith isPublicIp address := by
  have hmapped : mappedAnswer (isPublicIpWith fun _ => false) (normalized address) =
      mappedAnswer isPublicIp (normalized address) := by
    unfold mappedAnswer
    cases hdotted : mappedDotted (normalized address) with
    | some text =>
        have hplain := mappedDotted_plain hdotted
        exact (isPublicIpWith_of_dotted hplain).trans (isPublicIp_of_dotted hplain).symm
    | none =>
        cases mappedHex (normalized address) with
        | some groups =>
            have hplain := dottedText_plain groups.1 groups.2
            exact (isPublicIpWith_of_dotted hplain).trans (isPublicIp_of_dotted hplain).symm
        | none => rfl
  show isPublicIpWith (isPublicIpWith fun _ => false) address = _
  rw [isPublicIpWith, isPublicIpWith, hmapped]

/-- Only the number of an IPv4 address counts. -/
theorem blockedIpv4_congr (h : ipv4 address = ipv4 address') :
    blockedIpv4 address = blockedIpv4 address' := by
  unfold blockedIpv4 inIpv4Cidr ipv4Number
  rw [h]

theorem ipv4_dottedText {high low : ℕ} (hhigh : high < 0x10000) (hlow : low < 0x10000) :
    ipv4 (dottedText high low) = some [high / 256, high % 256, low / 256, low % 256] := by
  have hdigits : ∀ n < 256, octet (Nat.toDigits 10 n) = some n := by decide +kernel
  have hoctet : ∀ n < 256, octet (toString n).toList = some n := by
    intro n hn
    rw [show toString n = n.repr from rfl, Nat.toList_repr]
    exact hdigits n hn
  have hbound : high / 256 < 256 ∧ high % 256 < 256 ∧ low / 256 < 256 ∧ low % 256 < 256 := by omega
  obtain ⟨hx, hy, hz, hw⟩ := hbound
  have hand : ∀ n : ℕ, n &&& 255 = n % 256 := fun n => Nat.and_two_pow_sub_one_eq_mod n 8
  have hshift : ∀ n : ℕ, n >>> 8 = n / 256 := fun n => Nat.shiftRight_eq_div_pow n 8
  unfold ipv4 dottedText
  rw [hand, hand, hshift, hshift, List.splitOn_intercalate]
  · show List.mapM octet _ = _
    rw [List.map_cons, List.map_cons, List.map_cons, List.map_cons, List.map_nil, List.mapM_cons,
      List.mapM_cons, List.mapM_cons, List.mapM_cons, List.mapM_nil, hoctet _ hx, hoctet _ hy,
      hoctet _ hz, hoctet _ hw]
    rfl
  · intro part hpart hdot
    obtain ⟨n, -, rfl⟩ := List.mem_map.mp hpart
    rw [show toString n = n.repr from rfl, Nat.toList_repr] at hdot
    exact absurd (Nat.isDigit_of_mem_toDigits (by decide) (by decide) hdot) (by decide)
  · exact List.cons_ne_nil _ _

/-- A mapped text is answered as its IPv4 address is. -/
theorem isPublicIp_dottedText {high low : ℕ} (hhigh : high < 0x10000) (hlow : low < 0x10000) :
    isPublicIp (dottedText high low) = !blockedIpv4 (dottedText high low) := by
  rw [isPublicIp_of_dotted (dottedText_plain high low), ipv4_dottedText hhigh hlow]
  rfl

/-! ### The refused spellings -/

/-- The beginnings that are refused, but for the documentation network. -/
def refusedWords : List (List ℕ) :=
  [[15, 12], [15, 13], [15, 14, 8], [15, 14, 9], [15, 14, 10], [15, 14, 11], [15, 15]]

/-- What is refused of an address that is plainly spelled. -/
def refusedAddress (a : List ℕ) : Bool :=
  local16 (a.getD 0 0) ∨ (a.getD 0 0 = 0x2001 ∧ a.getD 1 0 >>> 4 = 0xdb8)

theorem digits_cases {ds : List ℕ} (h : 1 ≤ ds.length ∧ ds.length ≤ 4) :
    (∃ d, ds = [d]) ∨ (∃ d e, ds = [d, e]) ∨ (∃ d e f, ds = [d, e, f]) ∨
      ∃ d e f g, ds = [d, e, f, g] := by
  match ds, h with
  | [d], _ => exact Or.inl ⟨d, rfl⟩
  | [d, e], _ => exact Or.inr (Or.inl ⟨d, e, rfl⟩)
  | [d, e, f], _ => exact Or.inr (Or.inr (Or.inl ⟨d, e, f, rfl⟩))
  | [d, e, f, g], _ => exact Or.inr (Or.inr (Or.inr ⟨d, e, f, g, rfl⟩))

theorem local16_iff {g : ℕ} : local16 g = true ↔ g / 512 = 126 ∨ g / 64 = 1018 ∨ g / 256 = 255 := by
  unfold local16
  rw [decide_eq_true_iff]
  simp only [Nat.shiftRight_eq_div_pow, Nat.reducePow, Nat.reduceDiv]

theorem shortLocal_iff {g : ℕ} : shortLocal g = true ↔ g = 0xfc ∨ g = 0xfd ∨ g = 0xff ∨
    (0xfc0 ≤ g ∧ g ≤ 0xfdf) ∨ (0xfe8 ≤ g ∧ g ≤ 0xfeb) ∨ (0xff0 ≤ g ∧ g ≤ 0xfff) := by
  rw [shortLocal, decide_eq_true_iff]

/-- The digits of a group begin as a local one if it is one, unless they are too few. -/
theorem refusedWords_iff {ds : List ℕ} (hlt : ∀ d ∈ ds, d < 16)
    (hlength : 1 ≤ ds.length ∧ ds.length ≤ 4) (h : ds.length = 4 ∨ shortLocal (value ds) = false) :
    (∃ w ∈ refusedWords, w <+: ds) ↔ local16 (value ds) = true := by
  rw [← Bool.not_eq_true, shortLocal_iff] at h
  rw [local16_iff]
  unfold refusedWords
  obtain ⟨d, rfl⟩ | ⟨d, e, rfl⟩ | ⟨d, e, f, rfl⟩ | ⟨d, e, f, g, rfl⟩ := digits_cases hlength
  all_goals
    simp only [List.mem_cons, List.not_mem_nil, or_false, exists_eq_or_imp, exists_eq_left,
      List.cons_prefix_cons, List.nil_prefix, List.prefix_nil, List.cons_ne_nil, and_true,
      and_false, forall_eq_or_imp, forall_eq, List.length_cons, List.length_nil, value,
      List.foldl_cons, List.foldl_nil, false_iff, false_or] at hlt h ⊢
    omega

theorem documentation_iff {a : List ℕ} :
    documentation a = true ↔ a.getD 0 0 = 0x2001 ∧ a.getD 1 0 = 0xdb8 := by
  rw [documentation, decide_eq_true_iff]

/-- The group in front. -/
theorem first_group (h : ipv6Parts (first :: more) = some a) :
    (first = [] ∧ a.getD 0 0 = 0) ∨ hexGroup first = some (a.getD 0 0) := by
  by_cases hfirst : first = []
  · subst hfirst
    have hgap : ipv6Parts ([] ++ [] :: more) = some a := h
    obtain ⟨gs, hgs, tail, rfl⟩ := groups_of_gap hgap List.not_mem_nil
    obtain rfl := Option.some.inj hgs
    exact Or.inl ⟨rfl, rfl⟩
  · have hmore : more ≠ [] := by
      rintro rfl
      exact absurd (two_lt_length_of_ipv6Parts h) (by rw [List.length_singleton]; decide)
    have hlead : ipv6Parts ([first] ++ more) = some a := h
    obtain ⟨gs, hgs, tail, rfl⟩ := groups_of_lead hlead
      (fun hmem => hfirst (List.mem_singleton.mp hmem).symm) hmore
    obtain ⟨g, hg, hgs⟩ := Option.bind_eq_some_iff.mp hgs
    obtain rfl := Option.some.inj hgs
    exact Or.inr hg

/-- The group behind it. -/
theorem second_group {second : Part} (h : ipv6Parts (first :: second :: more) = some a)
    (hfirst : first ≠ []) :
    (second = [] ∧ a.getD 1 0 = 0) ∨ hexGroup second = some (a.getD 1 0) := by
  by_cases hsecond : second = []
  · subst hsecond
    have hgap : ipv6Parts ([first] ++ [] :: more) = some a := h
    obtain ⟨gs, hgs, tail, rfl⟩ := groups_of_gap hgap fun hmem =>
      hfirst (List.mem_singleton.mp hmem).symm
    obtain ⟨g, -, hgs⟩ := Option.bind_eq_some_iff.mp hgs
    obtain rfl := Option.some.inj hgs
    exact Or.inl ⟨rfl, rfl⟩
  · have hmore : more ≠ [] := by
      rintro rfl
      exact absurd (two_lt_length_of_ipv6Parts h) (Nat.lt_irrefl 2)
    have hlead : ipv6Parts ([first, second] ++ more) = some a := h
    obtain ⟨gs, hgs, tail, rfl⟩ := groups_of_lead hlead (fun hmem => by
      obtain heq | hmem := List.mem_cons.mp hmem
      · exact hfirst heq.symm
      · exact hsecond (List.mem_singleton.mp hmem).symm) hmore
    obtain ⟨g, -, hgs⟩ := Option.bind_eq_some_iff.mp hgs
    obtain ⟨g', hg', hgs⟩ := Option.bind_eq_some_iff.mp hgs
    obtain rfl := Option.some.inj hgs
    exact Or.inr hg'

theorem digits_2001 {ds : List ℕ} (hlt : ∀ d ∈ ds, d < 16) (hlength : 1 ≤ ds.length ∧ ds.length ≤ 4) :
    value ds = 0x2001 ↔ ds = [2, 0, 0, 1] := by
  obtain ⟨d, rfl⟩ | ⟨d, e, rfl⟩ | ⟨d, e, f, rfl⟩ | ⟨d, e, f, g, rfl⟩ := digits_cases hlength
  all_goals
    simp only [List.mem_cons, List.not_mem_nil, or_false, forall_eq_or_imp, forall_eq, value,
      List.foldl_cons, List.foldl_nil, List.cons.injEq, List.cons_ne_nil, List.nil_eq, and_false,
      and_true, iff_false] at hlt ⊢
    omega

theorem digits_db8 {ds : List ℕ} (hlt : ∀ d ∈ ds, d < 16) (hlength : 1 ≤ ds.length ∧ ds.length ≤ 4)
    (h : ds.length = 4 ∨ value ds ≠ 0xdb8) : [13, 11, 8] <+: ds ↔ value ds >>> 4 = 0xdb8 := by
  rw [Nat.shiftRight_eq_div_pow]
  obtain ⟨d, rfl⟩ | ⟨d, e, rfl⟩ | ⟨d, e, f, rfl⟩ | ⟨d, e, f, g, rfl⟩ := digits_cases hlength
  all_goals
    simp only [List.mem_cons, List.not_mem_nil, or_false, forall_eq_or_imp, forall_eq, value,
      List.foldl_cons, List.foldl_nil, List.cons_prefix_cons, List.nil_prefix, List.prefix_nil,
      List.cons_ne_nil, and_true, and_false, List.length_cons, List.length_nil, false_iff, ne_eq]
      at hlt h ⊢
    omega

/-- A beginning that is refused is the one of a local group. -/
theorem refusedWords_isPrefix (h : ipv6Parts (text.splitOn ':') = some a)
    (hsplit : text.splitOn ':' = first :: more)
    (hplain : first.length = 4 ∨ shortLocal (a.getD 0 0) = false) :
    (∃ w ∈ refusedWords, w.map hexChar <+: text) ↔ local16 (a.getD 0 0) = true := by
  have hwords : ∀ w ∈ refusedWords, w ≠ [] ∧ (∀ d ∈ w, d < 16) ∧ ':' ∉ w.map hexChar := by decide
  have hfront : (∃ w ∈ refusedWords, w.map hexChar <+: text) ↔
      ∃ w ∈ refusedWords, w.map hexChar <+: first :=
    exists_congr fun w => and_congr_right fun hw => isPrefix_splitOn (hwords w hw).2.2 hsplit
  rw [hfront]
  rw [hsplit] at h
  obtain ⟨rfl, hzero⟩ | hgroup := first_group h
  · rw [hzero]
    refine iff_of_false ?_ (by decide)
    rintro ⟨w, hw, hpre⟩
    exact (hwords w hw).1 (List.map_eq_nil_iff.mp (List.prefix_nil.mp hpre))
  · obtain ⟨ds, rfl, hlt, hlength, hvalue⟩ := hexGroup_eq_some.mp hgroup
    rw [List.length_map, ← hvalue] at hplain
    rw [← hvalue, ← refusedWords_iff hlt hlength hplain]
    exact exists_congr fun w => and_congr_right fun hw =>
      map_hexChar_isPrefix (hwords w hw).2.1 hlt

/-- The beginning of a documentation address, with one digit more or none. -/
theorem documentation_isPrefix (h : ipv6Parts (text.splitOn ':') = some a)
    (hplain : (∀ second rest, more = second :: rest → second.length = 4) ∨ documentation a = false)
    (hsplit : text.splitOn ':' = first :: more) :
    "2001:db8".toList <+: text ↔ a.getD 0 0 = 0x2001 ∧ a.getD 1 0 >>> 4 = 0xdb8 := by
  have hword : "2001:db8".toList = [2, 0, 0, 1].map hexChar ++ ':' :: [13, 11, 8].map hexChar := by
    decide
  rw [hword, isPrefix_splitOn_cons (by decide) (by decide), hsplit]
  rw [hsplit] at h
  have hcount := two_lt_length_of_ipv6Parts h
  obtain ⟨second, rest, rfl⟩ : ∃ second rest, more = second :: rest := by
    cases more with
    | nil => exact absurd hcount (by rw [List.length_singleton]; decide)
    | cons second rest => exact ⟨second, rest, rfl⟩
  constructor
  · rintro ⟨second', rest', hparts, hpre⟩
    obtain ⟨hword, hmore⟩ := List.cons.inj hparts
    obtain ⟨rfl, rfl⟩ := List.cons.inj hmore
    subst hword
    have hfirst : a.getD 0 0 = 0x2001 := by
      obtain ⟨hempty, -⟩ | hgroup := first_group h
      · cases hempty
      · exact (Option.some.inj hgroup).symm
    refine ⟨hfirst, ?_⟩
    obtain ⟨rfl, -⟩ | hgroup := second_group h (List.cons_ne_nil _ _)
    · exact absurd (List.prefix_nil.mp hpre) (by decide)
    · obtain ⟨es, rfl, hlt, hlength, hvalue⟩ := hexGroup_eq_some.mp hgroup
      rw [← hvalue]
      refine (digits_db8 hlt hlength ?_).mp ((map_hexChar_isPrefix (by decide) hlt).mp hpre)
      obtain hfour | hno := hplain
      · exact Or.inl (by rw [← hfour _ _ rfl, List.length_map])
      · refine Or.inr fun hes => Bool.eq_false_iff.mp hno (documentation_iff.mpr ⟨hfirst, ?_⟩)
        rw [← hvalue, hes]
  · rintro ⟨hfirst, hsecond⟩
    obtain ⟨-, hzero⟩ | hgroup := first_group h
    · rw [hfirst] at hzero
      exact absurd hzero (by decide)
    obtain ⟨ds, rfl, hlt, hlength, hvalue⟩ := hexGroup_eq_some.mp hgroup
    rw [hfirst] at hvalue
    obtain rfl := (digits_2001 hlt hlength).mp hvalue
    refine ⟨second, rest, rfl, ?_⟩
    obtain ⟨-, hzero⟩ | hgroup := second_group h (List.cons_ne_nil _ _)
    · rw [hzero] at hsecond
      exact absurd hsecond (by decide)
    · obtain ⟨es, rfl, hlt, hlength, hvalue⟩ := hexGroup_eq_some.mp hgroup
      rw [← hvalue] at hsecond
      refine (map_hexChar_isPrefix (by decide) hlt).mpr ((digits_db8 hlt hlength ?_).mpr hsecond)
      refine Or.inr fun hes => ?_
      rw [hes] at hsecond
      exact absurd hsecond (by decide)

/-- The refused spellings, by their beginnings. -/
theorem refusedSpelling_iff : refusedSpelling text = true ↔ (text = "::".toList ∨ text = "::1".toList) ∨
    (∃ w ∈ refusedWords, w.map hexChar <+: text) ∨ "2001:db8".toList <+: text := by
  have hwords : ["fc", "fd", "fe8", "fe9", "fea", "feb", "ff"].map String.toList =
      refusedWords.map fun w => w.map hexChar := by
    decide
  have hsome : (∃ w ∈ refusedWords, w.map hexChar <+: text) ↔
      ∃ word ∈ ["fc", "fd", "fe8", "fe9", "fea", "feb", "ff"].map String.toList, word <+: text := by
    rw [hwords]
    simp only [List.mem_map, exists_exists_and_eq_and]
  rw [hsome, refusedSpelling, decide_eq_true_iff]
  simp only [List.any_cons, List.any_nil, Bool.or_false, Bool.or_eq_true, List.isPrefixOf_iff_prefix,
    List.map_cons, List.map_nil, List.mem_cons, List.not_mem_nil, or_false, exists_eq_or_imp,
    exists_eq_left, or_assoc]

/-- **The refused spellings** of an address that shows what they look at. -/
theorem refusedSpelling_eq (h : ipv6Parts (text.splitOn ':') = some a)
    (hsplit : text.splitOn ':' = first :: more) (hlowest : text ≠ "::".toList ∧ text ≠ "::1".toList)
    (hfirst : first.length = 4 ∨ shortLocal (a.getD 0 0) = false)
    (hsecond : (∀ second rest, more = second :: rest → second.length = 4) ∨ documentation a = false) :
    refusedSpelling text = refusedAddress a := by
  rw [Bool.eq_iff_iff, refusedSpelling_iff, refusedWords_isPrefix h hsplit hfirst,
    documentation_isPrefix h hsecond hsplit, or_iff_right (not_or.mpr hlowest), refusedAddress,
    decide_eq_true_iff]

/-- An IPv6 text is asked about its spelling. -/
theorem isPublicIp_of_ipv6 (h : ipv6 address = some a) :
    isPublicIp address =
      (!refusedSpelling (body address) && mappedAnswer isPublicIp (body address)) := by
  have hparts := ipv6_body h
  rw [ipv6_of_bare bare_body] at hparts
  have hfour : ipv4 (body address) = none := by
    cases hfour : ipv4 (body address) with
    | none => rfl
    | some gs =>
        have hcolon : ':' ∉ body address := by
          intro hc
          obtain hdot | hdigit := ipv4_plain hfour _ hc
          · exact absurd hdot (by decide)
          · exact (isDigit_bare hdigit).2.1 rfl
        have hlength := two_lt_length_of_ipv6Parts hparts
        rw [List.splitOn_eq_singleton hcolon] at hlength
        exact absurd hlength (by rw [List.length_singleton]; decide)
  rw [isPublicIp_eq, isPublicIpWith, normalized_eq, hfour, ipv6_body h]
  cases refusedSpelling (body address) with
  | true => rfl
  | false => rfl

/-! ### Mapped addresses -/

theorem splitOn_mapped (rest : List Char) :
    ("::ffff:".toList ++ rest).splitOn ':' = [] :: [] :: "ffff".toList :: rest.splitOn ':' := by
  rw [show "::ffff:".toList ++ rest = [] ++ ':' :: ([] ++ ':' :: ("ffff".toList ++ ':' :: rest)) from rfl,
    List.splitOn_append_cons_self_of_not_mem List.not_mem_nil,
    List.splitOn_append_cons_self_of_not_mem List.not_mem_nil,
    List.splitOn_append_cons_self_of_not_mem (by decide)]

/-- The groups behind `::ffff:`. -/
theorem ipv6Parts_mapped (rest : List Part) : ipv6Parts ([] :: [] :: "ffff".toList :: rest) =
    (groups ("ffff".toList :: rest)).bind fun behind =>
      if behind.length ≤ 7 then some (List.replicate (8 - behind.length) 0 ++ behind) else none := by
  show (groups ("ffff".toList :: rest)).bind _ = _
  congr 1
  funext behind
  show (if 0 + behind.length ≤ 7 then _ else _) = _
  rw [Nat.zero_add]
  rfl

theorem ipv6Parts_mapped_eq_some {parts : List Part} {high low : ℕ} (h : groups parts = some [high, low]) :
    ipv6Parts ([] :: [] :: "ffff".toList :: parts) = some [0, 0, 0, 0, 0, 0xffff, high, low] := by
  have hne : parts ≠ [] := by
    rintro rfl
    cases h
  have hffff : hexGroup "ffff".toList = some 0xffff := by decide
  rw [ipv6Parts_mapped, groups_cons hne, hffff, h]
  rfl

/-- A mapped text is answered as its IPv4 address is. -/
theorem mappedAnswer_cases (h : ipv6Parts (text.splitOn ':') = some a) :
    mappedAnswer isPublicIp text = true ∨
      (mapped a = true ∧ mappedAnswer isPublicIp text = !blockedIpv4 (mappedText a)) := by
  unfold mappedAnswer
  cases hdotted : mappedDotted text with
  | some rest =>
      refine Or.inr ?_
      have hplain := mappedDotted_plain hdotted
      obtain ⟨hrest, hfour⟩ := Option.filter_eq_some_iff.mp hdotted
      obtain rfl := List.isPrefixOf?_eq_some_iff_append_eq.mp hrest
      obtain ⟨hlength, -⟩ := of_decide_eq_true hfour
      have hcolon : ':' ∉ rest := by
        intro hc
        obtain hdot | hdigit := hplain _ hc
        · exact absurd hdot (by decide)
        · exact (isDigit_bare hdigit).2.1 rfl
      have hhex : hexGroup rest = none := by
        cases hgroup : hexGroup rest with
        | none => rfl
        | some g =>
            have hdot : '.' ∉ rest := fun hc => (hexGroup_plain hgroup _ hc).2.2.1 rfl
            rw [List.splitOn_eq_singleton hdot] at hlength
            exact absurd hlength (by rw [List.length_singleton]; decide)
      rw [splitOn_mapped, List.splitOn_eq_singleton hcolon] at h
      have hgroups : ∃ gs, groups [rest] = some gs := by
        rw [ipv6Parts_mapped, groups_cons (List.cons_ne_nil _ _)] at h
        obtain ⟨behind, hbehind, -⟩ := Option.bind_eq_some_iff.mp h
        obtain ⟨g, -, hbehind⟩ := Option.bind_eq_some_iff.mp hbehind
        obtain ⟨gs, hgs, -⟩ := Option.map_eq_some_iff.mp hbehind
        exact ⟨gs, hgs⟩
      obtain ⟨gs, hgs⟩ := hgroups
      have hdot : dotted rest = some gs := by
        obtain hgs | ⟨-, hgs⟩ := Option.or_eq_some_iff.mp hgs
        · rw [hhex] at hgs
          cases hgs
        · exact hgs
      obtain ⟨x, y, z, w, hipv4, hlt, rfl⟩ := dotted_eq_some hdot
      rw [ipv6Parts_mapped_eq_some hgs] at h
      obtain rfl := Option.some.inj h
      refine ⟨rfl, ?_⟩
      dsimp only
      rw [isPublicIp_of_dotted hplain, hipv4]
      show (!blockedIpv4 rest) = !blockedIpv4 (dottedText (256 * x + y) (256 * z + w))
      rw [blockedIpv4_congr (hipv4.trans _)]
      rw [ipv4_dottedText (by omega) (by omega)]
      congr 1
      refine List.cons_eq_cons.mpr ⟨by omega, List.cons_eq_cons.mpr ⟨by omega,
        List.cons_eq_cons.mpr ⟨by omega, List.cons_eq_cons.mpr ⟨by omega, rfl⟩⟩⟩⟩
  | none =>
      cases hhex : mappedHex text with
      | none => exact Or.inl rfl
      | some found =>
          refine Or.inr ?_
          obtain ⟨rest, hrest, hfound⟩ := Option.bind_eq_some_iff.mp hhex
          obtain rfl := List.isPrefixOf?_eq_some_iff_append_eq.mp hrest
          split at hfound
          · rename_i high low hsplit
            obtain ⟨hi, hhigh, hfound⟩ := Option.bind_eq_some_iff.mp hfound
            obtain ⟨lo, hlow, hfound⟩ := Option.map_eq_some_iff.mp hfound
            subst hfound
            have hgroups : groups [high, low] = some [hi, lo] := by
              rw [groups_cons (List.cons_ne_nil _ _), hhigh]
              show Option.map _ (((hexGroup low).map fun g => [g]).or _) = _
              rw [hlow]
              rfl
            rw [splitOn_mapped, hsplit, ipv6Parts_mapped_eq_some hgroups] at h
            obtain rfl := Option.some.inj h
            exact ⟨rfl, isPublicIp_dottedText (hexGroup_lt hhigh) (hexGroup_lt hlow)⟩
          · cases hfound

/-! ### Addresses and their spellings -/

theorem plainlySpelled_iff : plainlySpelled a = true ↔ lowest a = false ∧ documentation a = false ∧
    shortLocal (a.getD 0 0) = false ∧ ¬ (mapped a = true ∧ blockedIpv4 (mappedText a) = true) := by
  rw [plainlySpelled, decide_eq_true_iff, Bool.not_eq_true, Bool.not_eq_true, Bool.not_eq_true]

theorem ipv6Parts_body (h : ipv6 address = some a) :
    ipv6Parts ((body address).splitOn ':') = some a := by
  rw [← ipv6_of_bare bare_body]
  exact ipv6_body h

/-- **A plainly spelled address** is answered in one way. -/
theorem isPublicIp_of_plainlySpelled (h : ipv6 address = some a) (hplain : plainlySpelled a = true) :
    isPublicIp address = !refusedAddress a := by
  obtain ⟨hlowest, hdocumentation, hshort, hmapped⟩ := plainlySpelled_iff.mp hplain
  have hparts := ipv6Parts_body h
  have hbody := ipv6_body h
  cases hsplit : (body address).splitOn ':' with
  | nil => exact absurd hsplit (List.splitOn_ne_nil _ _)
  | cons first more =>
      have hnot : body address ≠ "::".toList ∧ body address ≠ "::1".toList := by
        have hzero : ipv6 "::".toList = some [0, 0, 0, 0, 0, 0, 0, 0] := by decide
        have hone : ipv6 "::1".toList = some [0, 0, 0, 0, 0, 0, 0, 1] := by decide
        constructor
        · intro heq
          rw [heq, hzero] at hbody
          rw [← Option.some.inj hbody] at hlowest
          cases hlowest
        · intro heq
          rw [heq, hone] at hbody
          rw [← Option.some.inj hbody] at hlowest
          cases hlowest
      have hanswer : mappedAnswer isPublicIp (body address) = true := by
        obtain htrue | ⟨hmap, hvalue⟩ := mappedAnswer_cases hparts
        · exact htrue
        · rw [hvalue]
          cases hblocked : blockedIpv4 (mappedText a) with
          | false => rfl
          | true => exact absurd ⟨hmap, hblocked⟩ hmapped
      rw [isPublicIp_of_ipv6 h, hanswer, Bool.and_true,
        refusedSpelling_eq hparts hsplit hnot (Or.inr hshort) (Or.inr hdocumentation)]

/-- The address in full. -/
def fullText (a : List ℕ) : List Char := spell (a.map fun g => (4, g))

theorem fits_full (h : ∀ g ∈ a, g < 0x10000) : Fits (a.map fun g => (4, g)) := by
  intro w hw
  obtain ⟨g, hg, rfl⟩ := List.mem_map.mp hw
  exact ⟨⟨Nat.le_add_left 1 3, le_refl 4⟩, h g hg⟩

theorem ipv6_spell_eq {ws : List (ℕ × ℕ)} (hfits : Fits ws) (hwidths : ws.map Prod.snd = a)
    (hlength : a.length = 8) : ipv6 (spell ws) = some a := by
  have hcount : ws.length = 8 := by rw [← List.length_map Prod.snd, hwidths, hlength]
  rw [ipv6_spell hfits hcount, hwidths]

/-- A text without a gap is not a mapped one. -/
theorem mappedAnswer_spell {w : ℕ × ℕ} {ws : List (ℕ × ℕ)} (hfits : Fits (w :: ws)) :
    mappedAnswer isPublicIp (spell (w :: ws)) = true := by
  have hnone : "::ffff:".toList.isPrefixOf? (spell (w :: ws)) = none := by
    cases hrest : "::ffff:".toList.isPrefixOf? (spell (w :: ws)) with
    | none => rfl
    | some rest =>
        have htext := List.isPrefixOf?_eq_some_iff_append_eq.mp hrest
        have hsplit := splitOn_spell hfits (List.cons_ne_nil _ _)
        rw [← htext, splitOn_mapped] at hsplit
        exact absurd (List.cons.inj hsplit).1.symm (spellGroup_ne_nil (hfits w List.mem_cons_self))
  unfold mappedAnswer mappedDotted mappedHex
  rw [hnone]
  rfl

/-- What is answered for a text without a gap. -/
theorem isPublicIp_spell {ws : List (ℕ × ℕ)} (hfits : Fits ws) (hlength : ws.length = 8) :
    isPublicIp (spell ws) = !refusedSpelling (spell ws) := by
  have hbare : Bare (spell ws) := fun c hc => spell_plain hfits hc
  have hbody : body (spell ws) = spell ws := by
    rw [body, (takeWhile_of_bare hbare).1, map_toLower_of_bare hbare]
  cases ws with
  | nil => cases hlength
  | cons w ws =>
      rw [isPublicIp_of_ipv6 (ipv6_spell hfits hlength), hbody, mappedAnswer_spell hfits, Bool.and_true]

/-- **The full text** of an address is refused if its first groups are. -/
theorem isPublicIp_fullText (hlength : a.length = 8) (hbound : ∀ g ∈ a, g < 0x10000) :
    isPublicIp (fullText a) = !refusedAddress a := by
  have hfits := fits_full hbound
  have hread : ipv6 (fullText a) = some a :=
    ipv6_spell_eq hfits (by rw [List.map_map]; exact List.map_id _) hlength
  have hcount : (a.map fun g => (4, g)).length = 8 := by rw [List.length_map, hlength]
  have hsplit : (fullText a).splitOn ':' = (a.map fun g => (4, g)).map spellGroup :=
    splitOn_spell hfits (List.ne_nil_of_length_pos (by omega))
  have hbare : Bare (fullText a) := fun c hc => spell_plain hfits hc
  have hparts : ipv6Parts ((fullText a).splitOn ':') = some a := by
    rw [← ipv6_of_bare hbare]
    exact hread
  have hfour : ∀ part ∈ (a.map fun g => (4, g)).map spellGroup, part.length = 4 := by
    intro part hpart
    obtain ⟨w, hw, rfl⟩ := List.mem_map.mp hpart
    obtain ⟨g, -, rfl⟩ := List.mem_map.mp hw
    rw [spellGroup, List.length_map, length_digits]
  cases hfull : (a.map fun g => (4, g)).map spellGroup with
  | nil =>
      have hcount := congrArg List.length hfull
      rw [List.length_map, List.length_map, hlength] at hcount
      cases hcount
  | cons first more =>
      rw [hfull] at hsplit hfour
      have hnot : fullText a ≠ "::".toList ∧ fullText a ≠ "::1".toList := by
        have hfirst : first ≠ [] := List.ne_nil_of_length_pos (by rw [hfour _ List.mem_cons_self]; decide)
        constructor
        · intro heq
          rw [heq] at hsplit
          exact hfirst (List.cons.inj hsplit).1.symm
        · intro heq
          rw [heq] at hsplit
          exact hfirst (List.cons.inj hsplit).1.symm
      rw [fullText, isPublicIp_spell hfits hcount]
      refine congrArg not (refusedSpelling_eq hparts hsplit hnot (Or.inl (hfour _ List.mem_cons_self)) ?_)
      refine Or.inl fun second rest hmore => hfour second ?_
      rw [hmore]
      exact List.mem_cons_of_mem _ List.mem_cons_self

/-- An address that is not plainly spelled is answered by its full text as a public one. -/
theorem refusedAddress_eq_false (h : plainlySpelled a = false) : refusedAddress a = false := by
  have hcases : lowest a = true ∨ documentation a = true ∨ shortLocal (a.getD 0 0) = true ∨
      mapped a = true := by
    by_contra hnone
    obtain ⟨hlowest, hdocumentation, hshort, hmapped⟩ := not_or.mp hnone |>.imp_right fun h =>
      (not_or.mp h).imp_right not_or.mp
    refine Bool.eq_false_iff.mp h (plainlySpelled_iff.mpr ⟨?_, ?_, ?_, fun hboth => hmapped hboth.1⟩)
    · exact Bool.eq_false_iff.mpr hlowest
    · exact Bool.eq_false_iff.mpr hdocumentation
    · exact Bool.eq_false_iff.mpr hshort
  rw [refusedAddress, decide_eq_false_iff_not, local16_iff, Nat.shiftRight_eq_div_pow]
  obtain hlowest | hdocumentation | hshort | hmapped := hcases
  · obtain rfl | rfl := of_decide_eq_true hlowest
    · decide
    · decide
  · obtain ⟨hfirst, hsecond⟩ := documentation_iff.mp hdocumentation
    rw [hfirst, hsecond]
    decide
  · rw [shortLocal_iff] at hshort
    omega
  · have hzero : a.getD 0 0 = 0 := by
      have hsix := of_decide_eq_true hmapped
      cases a with
      | nil => rfl
      | cons g rest => exact (List.cons.inj hsix).1
    rw [hzero]
    omega

/-- A short local group in its own digits is refused. -/
theorem spelledShort {g : ℕ} (h : shortLocal g = true) :
    ∃ width, ((1 ≤ width ∧ width ≤ 4) ∧ g < 16 ^ width) ∧ ∃ w ∈ refusedWords, w <+: digits width g := by
  rw [shortLocal_iff] at h
  obtain rfl | rfl | rfl | ⟨hlo, hhi⟩ | ⟨hlo, hhi⟩ | ⟨hlo, hhi⟩ := h
  · exact ⟨2, by decide, by decide⟩
  · exact ⟨2, by decide, by decide⟩
  · exact ⟨2, by decide, by decide⟩
  · have hall : ∀ k < 32, ∃ w ∈ refusedWords, w <+: digits 3 (0xfc0 + k) := by decide
    obtain ⟨k, rfl⟩ := Nat.exists_eq_add_of_le hlo
    exact ⟨3, ⟨by decide, by omega⟩, hall k (by omega)⟩
  · have hall : ∀ k < 4, ∃ w ∈ refusedWords, w <+: digits 3 (0xfe8 + k) := by decide
    obtain ⟨k, rfl⟩ := Nat.exists_eq_add_of_le hlo
    exact ⟨3, ⟨by decide, by omega⟩, hall k (by omega)⟩
  · have hall : ∀ k < 16, ∃ w ∈ refusedWords, w <+: digits 3 (0xff0 + k) := by decide
    obtain ⟨k, rfl⟩ := Nat.exists_eq_add_of_le hlo
    exact ⟨3, ⟨by decide, by omega⟩, hall k (by omega)⟩

theorem fits_cons {w : ℕ × ℕ} {ws : List (ℕ × ℕ)} :
    Fits (w :: ws) ↔ ((1 ≤ w.1 ∧ w.1 ≤ 4) ∧ w.2 < 16 ^ w.1) ∧ Fits ws :=
  List.forall_mem_cons

/-- A text without a gap that begins with a refused one. -/
theorem refused_spell {ws : List (ℕ × ℕ)} (hfits : Fits ws) (hwidths : ws.map Prod.snd = a)
    (hlength : a.length = 8)
    (h : (∃ w ∈ refusedWords, w.map hexChar <+: spell ws) ∨ "2001:db8".toList <+: spell ws) :
    ∃ text, ipv6 text = some a ∧ isPublicIp text = false := by
  have hcount : ws.length = 8 := by rw [← List.length_map Prod.snd, hwidths, hlength]
  refine ⟨spell ws, ipv6_spell_eq hfits hwidths hlength, ?_⟩
  rw [isPublicIp_spell hfits hcount, refusedSpelling_iff.mpr (Or.inr h)]
  rfl

theorem map_snd_full (rest : List ℕ) : (rest.map fun g => ((4 : ℕ), g)).map Prod.snd = rest := by
  rw [List.map_map]
  exact List.map_id _

/-- **The short text** of a first group that begins as a local one does is refused. -/
theorem refused_shortLocal {g : ℕ} {rest : List ℕ} (hlength : (g :: rest).length = 8)
    (hbound : ∀ g' ∈ rest, g' < 0x10000) (h : shortLocal g = true) :
    ∃ text, ipv6 text = some (g :: rest) ∧ isPublicIp text = false := by
  have hplain : ∀ w ∈ refusedWords, ':' ∉ w.map hexChar := by decide
  obtain ⟨width, hwidth, word, hword, hpre⟩ := spelledShort h
  have hfits : Fits ((width, g) :: rest.map fun g => (4, g)) := fits_cons.mpr ⟨hwidth, fits_full hbound⟩
  have hwidths : ((width, g) :: rest.map fun g => (4, g)).map Prod.snd = g :: rest := by
    rw [List.map_cons, map_snd_full]
  refine refused_spell hfits hwidths hlength (Or.inl ⟨word, hword, ?_⟩)
  rw [isPrefix_splitOn (hplain word hword) (splitOn_spell hfits (List.cons_ne_nil _ _))]
  exact hpre.map hexChar

/-- **The short text** of a documentation address is refused. -/
theorem refused_documentation {rest : List ℕ} (hlength : (0x2001 :: 0xdb8 :: rest).length = 8)
    (hbound : ∀ g ∈ rest, g < 0x10000) :
    ∃ text, ipv6 text = some (0x2001 :: 0xdb8 :: rest) ∧ isPublicIp text = false := by
  have hfits : Fits ((4, 0x2001) :: (3, 0xdb8) :: rest.map fun g => (4, g)) :=
    fits_cons.mpr ⟨by decide, fits_cons.mpr ⟨by decide, fits_full hbound⟩⟩
  have hwidths : ((4, 0x2001) :: (3, 0xdb8) :: rest.map fun g => (4, g)).map Prod.snd =
      0x2001 :: 0xdb8 :: rest := by
    rw [List.map_cons, List.map_cons, map_snd_full]
  have hword : "2001:db8".toList = spellGroup (4, 0x2001) ++ ':' :: spellGroup (3, 0xdb8) := by
    decide
  refine refused_spell hfits hwidths hlength (Or.inr ?_)
  rw [hword, isPrefix_splitOn_cons (by decide) (by decide)]
  exact ⟨_, _, splitOn_spell hfits (List.cons_ne_nil _ _), List.prefix_refl _⟩

/-- **The gapped text** of a mapped address is refused if its IPv4 address is. -/
theorem refused_mapped {high low : ℕ} (hhigh : high < 0x10000) (hlow : low < 0x10000)
    (h : blockedIpv4 (dottedText high low) = true) :
    ∃ text, ipv6 text = some [0, 0, 0, 0, 0, 0xffff, high, low] ∧ isPublicIp text = false := by
  have hbound : ∀ g ∈ [high, low], g < 0x10000 := by simp [hhigh, hlow]
  have hfits : Fits [(4, high), (4, low)] := fits_full hbound
  have hsplit := splitOn_spell hfits (List.cons_ne_nil _ _)
  have hbare : Bare ("::ffff:".toList ++ spell [(4, high), (4, low)]) := by
    intro c hc
    obtain hc | hc := List.mem_append.mp hc
    · have hall : ∀ c ∈ "::ffff:".toList, c ≠ '%' ∧ c.toLower = c := by decide
      exact hall c hc
    · exact spell_plain hfits hc
  have hread : ipv6 ("::ffff:".toList ++ spell [(4, high), (4, low)]) =
      some [0, 0, 0, 0, 0, 0xffff, high, low] := by
    rw [ipv6_of_bare hbare, splitOn_mapped, hsplit]
    exact ipv6Parts_mapped_eq_some (groups_spellGroup hfits)
  have hrest : "::ffff:".toList.isPrefixOf? ("::ffff:".toList ++ spell [(4, high), (4, low)]) =
      some (spell [(4, high), (4, low)]) :=
    List.isPrefixOf?_eq_some_iff_append_eq.mpr rfl
  have hdotted : mappedDotted ("::ffff:".toList ++ spell [(4, high), (4, low)]) = none := by
    cases hfound : mappedDotted ("::ffff:".toList ++ spell [(4, high), (4, low)]) with
    | none => rfl
    | some found =>
        obtain ⟨hfound', -⟩ := Option.filter_eq_some_iff.mp hfound
        obtain rfl := Option.some.inj (hrest.symm.trans hfound')
        have hcolon : ':' ∈ spell [(4, high), (4, low)] :=
          List.mem_append_right _ List.mem_cons_self
        obtain hdot | hdigit := mappedDotted_plain hfound _ hcolon
        · exact absurd hdot (by decide)
        · exact absurd rfl (isDigit_bare hdigit).2.1
  have hhex : mappedHex ("::ffff:".toList ++ spell [(4, high), (4, low)]) = some (high, low) := by
    rw [mappedHex, hrest, Option.bind_some, hsplit]
    show (hexGroup (spellGroup (4, high))).bind _ = _
    rw [hexGroup_spellGroup (hfits _ List.mem_cons_self),
      hexGroup_spellGroup (hfits _ (List.mem_cons_of_mem _ List.mem_cons_self))]
    rfl
  refine ⟨_, hread, ?_⟩
  have hbody : body ("::ffff:".toList ++ spell [(4, high), (4, low)]) =
      "::ffff:".toList ++ spell [(4, high), (4, low)] := by
    rw [body, (takeWhile_of_bare hbare).1, map_toLower_of_bare hbare]
  rw [isPublicIp_of_ipv6 hread, hbody, mappedAnswer, hdotted, hhex]
  show (_ && isPublicIp (dottedText high low)) = false
  rw [isPublicIp_dottedText hhigh hlow, h, Bool.not_true, Bool.and_false]

/-- **A refused text** of an address that is not plainly spelled. -/
theorem refused_text (hlength : a.length = 8) (hbound : ∀ g ∈ a, g < 0x10000)
    (h : plainlySpelled a = false) : ∃ text, ipv6 text = some a ∧ isPublicIp text = false := by
  by_cases hlowest : lowest a = true
  · obtain rfl | rfl := of_decide_eq_true hlowest
    · exact ⟨"::".toList, by decide, by decide⟩
    · exact ⟨"::1".toList, by decide, by decide⟩
  obtain ⟨g, g', rest, rfl⟩ : ∃ g g' rest, a = g :: g' :: rest := by
    rcases a with - | ⟨g, - | ⟨g', rest⟩⟩
    · cases hlength
    · cases hlength
    · exact ⟨g, g', rest, rfl⟩
  have hbehind : ∀ x ∈ g' :: rest, x < 0x10000 := fun x hx => hbound x (List.mem_cons_of_mem _ hx)
  by_cases hshort : shortLocal g = true
  · exact refused_shortLocal hlength hbehind hshort
  by_cases hdocumentation : documentation (g :: g' :: rest) = true
  · obtain ⟨rfl, rfl⟩ := documentation_iff.mp hdocumentation
    exact refused_documentation hlength fun x hx => hbehind x (List.mem_cons_of_mem _ hx)
  have hmapped : mapped (g :: g' :: rest) = true ∧ blockedIpv4 (mappedText (g :: g' :: rest)) = true := by
    by_contra hnot
    refine Bool.eq_false_iff.mp h (plainlySpelled_iff.mpr ⟨?_, ?_, ?_, hnot⟩)
    · exact Bool.eq_false_iff.mpr hlowest
    · exact Bool.eq_false_iff.mpr hdocumentation
    · exact Bool.eq_false_iff.mpr hshort
  have hsix := of_decide_eq_true hmapped.1
  obtain ⟨high, low, hdrop⟩ := List.length_eq_two.mp
    (show ((g :: g' :: rest).drop 6).length = 2 by rw [List.length_drop, hlength])
  have heq : g :: g' :: rest = [0, 0, 0, 0, 0, 0xffff, high, low] := by
    rw [← List.take_append_drop 6 (g :: g' :: rest), hsix, hdrop]
    rfl
  rw [heq] at hbound hmapped ⊢
  exact refused_mapped (hbound high (by simp)) (hbound low (by simp)) hmapped.2

/-- **Filtering by address**, for one text of it: every other text of the address is answered in
the same way, and a special address is refused.  It holds exactly if the address is plainly
spelled. -/
theorem isPublicIp_spelling_iff (address : List Char) (a : List ℕ) (h : ipv6 address = some a) :
    ((∀ address', ipv6 address' = some a → isPublicIp address' = isPublicIp address) ∧
      (special a = true → isPublicIp address = false)) ↔ plainlySpelled a = true := by
  obtain ⟨hlength, hbound⟩ := bounds_of_ipv6Parts (ipv6Parts_body h)
  constructor
  · rintro ⟨hsame, -⟩
    by_contra hplain
    have hplain := Bool.eq_false_iff.mpr hplain
    obtain ⟨text, hread, hrefused⟩ := refused_text hlength hbound hplain
    have hfull : ipv6 (fullText a) = some a :=
      ipv6_spell_eq (fits_full hbound) (map_snd_full a) hlength
    have hanswer := isPublicIp_fullText hlength hbound
    rw [refusedAddress_eq_false hplain, hsame _ hfull, ← hsame _ hread, hrefused] at hanswer
    cases hanswer
  · intro hplain
    refine ⟨fun address' h' => ?_, fun hspecial => ?_⟩
    · rw [isPublicIp_of_plainlySpelled h' hplain, isPublicIp_of_plainlySpelled h hplain]
    · obtain ⟨hlowest, hdocumentation, -, hmapped⟩ := plainlySpelled_iff.mp hplain
      rw [isPublicIp_of_plainlySpelled h hplain]
      obtain hspecial | hspecial | hspecial | ⟨hmap, hrefused⟩ := of_decide_eq_true hspecial
      · rw [hlowest] at hspecial
        cases hspecial
      · rw [refusedAddress, decide_eq_true (Or.inl hspecial)]
        rfl
      · rw [hdocumentation] at hspecial
        cases hspecial
      · have hgroup : ∀ i < 8, a.getD i 0 < 0x10000 := fun i hi => by
          rw [List.getD_eq_getElem?_getD, List.getElem?_eq_getElem (by rw [hlength]; exact hi),
            Option.getD_some]
          exact hbound _ (List.getElem_mem _)
        rw [mappedText, isPublicIp_dottedText (hgroup 6 (by decide)) (hgroup 7 (by decide)),
          Bool.not_eq_false'] at hrefused
        exact absurd ⟨hmap, hrefused⟩ hmapped

/-- `fe80::1%eth0`, link-local and with a zone. -/
theorem isPublicIp_linkLocal :
    (∀ address', ipv6 address' = some [0xfe80, 0, 0, 0, 0, 0, 0, 1] →
      isPublicIp address' = isPublicIp "fe80::1%eth0".toList) ∧
    (special [0xfe80, 0, 0, 0, 0, 0, 0, 1] = true → isPublicIp "fe80::1%eth0".toList = false) :=
  (isPublicIp_spelling_iff "fe80::1%eth0".toList [0xfe80, 0, 0, 0, 0, 0, 0, 1] (by decide +kernel)).mpr
    (by decide +kernel)

/-- The loopback address with its zero groups written out is answered as a public one. -/
theorem isPublicIp_loopback_in_full : ¬ ∀ (address : List Char) (a : List ℕ), ipv6 address = some a →
    (∀ address', ipv6 address' = some a → isPublicIp address' = isPublicIp address) ∧
      (special a = true → isPublicIp address = false) := by
  intro h
  have hloopback := (h "0:0:0:0:0:0:0:1".toList [0, 0, 0, 0, 0, 0, 0, 1] (by decide +kernel)).2
    (by decide +kernel)
  exact absurd hloopback (by decide +kernel)

end RecruitingOs
