import RecruitingOs.Lib.BitOps
import RecruitingOs.Outbound.PublicIp

/-!
# IPv4 ranges

`inIpv4Cidr` of `src/url.ts`, with the operators that the platform has: the parts of an address are
shifted and added, and two numbers are compared under a mask, where a shift and a mask answer signed
numbers and an addition does not.

The number of a dotted quad is its unsigned value (`ipv4Number_of_quad`), and a mask compares
quotients by a power of two (`inIpv4Cidr_iff`).  So the arithmetic is that of numbers without a
sign, which `isPublicIp` was modelled over (`isPublicIp_eq`).
-/

namespace RecruitingOs.Ipv4Range

open BitOps IpText

/-! ### The source -/

/-- The number that decimal digits stand for. -/
def decimal (part : Part) : ℕ := part.foldl (fun n c => 10 * n + (c.toNat - 48)) 0

/-- `Number` of a part.  Only digits are read here, and no text at all is zero; `isIP` lets no
other part through. -/
def number (part : Part) : Option ℤ := if ∀ c ∈ part, c.isDigit then some (decimal part) else none

/-- `ipv4Number`. -/
def ipv4Number (address : List Char) : Option ℤ :=
  match (address.splitOn '.').mapM number with
  | some [a, b, c, d] =>
      if [a, b, c, d].any fun part => part < 0 ∨ 255 < part then none
      else some (ushr (shl a 24) 0 + shl b 16 + shl c 8 + d)
  | _ => none

/-- `inIpv4Cidr`. -/
def inIpv4Cidr (address network : List Char) (length : ℕ) : Bool :=
  match ipv4Number address, ipv4Number network with
  | some value, some base =>
      let mask := if length = 0 then 0 else ushr (shl 0xffffffff (32 - length)) 0
      band value mask = band base mask
  | _, _ => false

/-- The address is in a blocked network. -/
def blockedIpv4 (address : List Char) : Bool :=
  blocked.any fun (network, length) => inIpv4Cidr address network.toList length

/-- The body of `isPublicIp`. -/
def isPublicIpWith (again : List Char → Bool) (address : List Char) : Bool :=
  if (ipv4 (normalized address)).isSome then !blockedIpv4 (normalized address)
  else if (ipv6 (normalized address)).isNone then false
  else if refusedSpelling (normalized address) then false
  else mappedAnswer again (normalized address)

/-- `isPublicIp(address)`, which goes one call deep. -/
def isPublicIp (address : List Char) : Bool :=
  isPublicIpWith (isPublicIpWith fun _ => false) address

/-! ### Dotted quads -/

/-- A decimal number below 256, which may begin with zeros. -/
def byte (part : Part) : Option ℕ :=
  if part ≠ [] ∧ (∀ c ∈ part, c.isDigit) ∧ decimal part < 256 then some (decimal part) else none

/-- The octets of a dotted quad. -/
def quad (address : List Char) : Option (List ℕ) :=
  ((address.splitOn '.').mapM byte).filter fun octets => octets.length = 4

/-- The unsigned value of octets. -/
def unsigned (octets : List ℕ) : ℕ := octets.foldl (fun n octet => 256 * n + octet) 0

/-- The value is in a network, from its first address to its last. -/
def InNetwork (value : ℕ) (network : List Char) (length : ℕ) : Prop :=
  ∃ base, quad network = some base ∧
    unsigned base ≤ value ∧ value < unsigned base + 2 ^ (32 - length)

variable {address network text : List Char} {octets base : List ℕ} {part : Part} {n length : ℕ}
  {again again' : List Char → Bool}

theorem byte_eq_some (h : byte part = some n) : number part = some (n : ℤ) ∧ n < 256 := by
  unfold byte at h
  split at h
  · rename_i hpart
    obtain rfl := Option.some.inj h
    obtain ⟨-, hdigits, hlt⟩ := hpart
    exact ⟨if_pos hdigits, hlt⟩
  · cases h

/-- What `isIP` takes for an octet is a byte. -/
theorem byte_of_octet (h : octet part = some n) : byte part = some n := by
  unfold octet at h
  split at h
  · rename_i hpart
    obtain ⟨hvalue, hlt⟩ := Option.filter_eq_some_iff.mp h
    obtain rfl := Option.some.inj hvalue
    exact if_pos ⟨hpart.1, hpart.2.1, of_decide_eq_true hlt⟩
  · cases h

theorem quad_of_ipv4 (h : ipv4 address = some octets) : quad address = some octets := by
  have hif : (if (address.splitOn '.').length = 4 then (address.splitOn '.').mapM octet else none) =
      some octets := h
  obtain ⟨hparts, hoctets⟩ := Option.ite_none_right_eq_some.mp hif
  have hbytes := mapM_map_of_imp (g := byte) (e := id) (fun _ _ => byte_of_octet) hoctets
  rw [List.map_id] at hbytes
  unfold quad
  rw [hbytes, Option.filter_some, if_pos]
  exact decide_eq_true ((mem_of_mapM hoctets).1.trans hparts)

/-- A dotted quad is four numbers below 256. -/
theorem quad_eq_some (h : quad address = some octets) :
    ∃ a b c d : ℕ, octets = [a, b, c, d] ∧ (a < 256 ∧ b < 256 ∧ c < 256 ∧ d < 256) ∧
      (address.splitOn '.').mapM number = some [(a : ℤ), (b : ℤ), (c : ℤ), (d : ℤ)] := by
  obtain ⟨hbytes, hfour⟩ := Option.filter_eq_some_iff.mp h
  obtain ⟨a, b, c, d, rfl⟩ := List.length_eq_four.mp (of_decide_eq_true hfour)
  have hlt : ∀ n ∈ [a, b, c, d], n < 256 := by
    intro n hn
    obtain ⟨part, -, hpart⟩ := (mem_of_mapM hbytes).2.2 n hn
    exact (byte_eq_some hpart).2
  refine ⟨a, b, c, d, rfl, by simpa using hlt, ?_⟩
  exact mapM_map_of_imp (e := fun n : ℕ => (n : ℤ)) (fun _ _ h => (byte_eq_some h).1) hbytes

theorem unsigned_quad (a b c d : ℕ) :
    unsigned [a, b, c, d] = a * 2 ^ 24 + b * 2 ^ 16 + c * 2 ^ 8 + d := by
  show 256 * (256 * (256 * (256 * 0 + a) + b) + c) + d = _
  omega

theorem unsigned_lt (h : quad address = some octets) : unsigned octets < 2 ^ 32 := by
  obtain ⟨a, b, c, d, rfl, hlt, -⟩ := quad_eq_some h
  rw [unsigned_quad]
  omega

/-- **The number** of a dotted quad has no sign, though its first shift may. -/
theorem ipv4Number_of_quad (h : quad address = some octets) :
    ipv4Number address = some (unsigned octets : ℤ) := by
  obtain ⟨a, b, c, d, rfl, ⟨ha, hb, hc, hd⟩, hparts⟩ := quad_eq_some h
  have hrange : ([(a : ℤ), (b : ℤ), (c : ℤ), (d : ℤ)].any fun part => part < 0 ∨ 255 < part) =
      false := by
    rw [List.any_eq_false]
    intro part hpart
    simp only [List.mem_cons, List.not_mem_nil, or_false] at hpart
    rw [decide_eq_true_iff]
    omega
  have hfirst : ushr (shl a 24) 0 = (a * 2 ^ 24 : ℕ) := @ushr_shl_of_lt a 24 (by decide) (by omega)
  have hsecond : shl b 16 = (b * 2 ^ 16 : ℕ) := @shl_of_lt b 16 (by decide) (by omega)
  have hthird : shl c 8 = (c * 2 ^ 8 : ℕ) := @shl_of_lt c 8 (by decide) (by omega)
  unfold ipv4Number
  rw [hparts]
  show (if _ then none else _) = _
  rw [hrange, if_neg Bool.false_ne_true, hfirst, hsecond, hthird, unsigned_quad,
    Int.natCast_add, Int.natCast_add, Int.natCast_add]

/-! ### Networks -/

/-- **A network** compares the quotients of unsigned values. -/
theorem inIpv4Cidr_iff (ha : quad address = some octets) (hn : quad network = some base)
    (hpos : 1 ≤ length) (hle : length ≤ 32) :
    inIpv4Cidr address network length = true ↔
      unsigned octets / 2 ^ (32 - length) = unsigned base / 2 ^ (32 - length) := by
  have hne : length ≠ 0 := Nat.ne_of_gt hpos
  have hcount : (32 - length : ℤ) = (32 - length : ℕ) := (Int.ofNat_sub hle).symm
  have hshift : 32 - length < 32 := Nat.sub_lt (by decide) hpos
  unfold inIpv4Cidr
  rw [ipv4Number_of_quad ha, ipv4Number_of_quad hn]
  show decide (band _ _ = band _ _) = true ↔ _
  rw [decide_eq_true_iff, if_neg hne, hcount, band_eq_band_iff, bits_highest hshift,
    and_ones_eq_iff, bits_natCast, bits_natCast, BitVec.toNat_ofNat, BitVec.toNat_ofNat,
    Nat.mod_eq_of_lt (unsigned_lt ha), Nat.mod_eq_of_lt (unsigned_lt hn)]

/-- A network that begins at a multiple of its size is what has its quotient. -/
theorem inNetwork_iff {value : ℕ} (hn : quad network = some base)
    (hdvd : 2 ^ (32 - length) ∣ unsigned base) :
    InNetwork value network length ↔
      value / 2 ^ (32 - length) = unsigned base / 2 ^ (32 - length) := by
  rw [div_eq_div_iff_of_dvd hdvd]
  constructor
  · rintro ⟨base', hbase', hrange⟩
    obtain rfl := Option.some.inj (hn.symm.trans hbase')
    exact hrange
  · intro hrange
    exact ⟨base, hn, hrange⟩

/-- The blocked networks are dotted quads, each at a multiple of its size. -/
theorem blocked_aligned {r : String × ℕ} (hr : r ∈ blocked) :
    (1 ≤ r.2 ∧ r.2 ≤ 32) ∧
      ∃ base, ipv4 r.1.toList = some base ∧ 2 ^ (32 - r.2) ∣ unsigned base := by
  have hall : ∀ r ∈ blocked, (1 ≤ r.2 ∧ r.2 ≤ 32) ∧
      (ipv4 r.1.toList).any (fun base => 2 ^ (32 - r.2) ∣ unsigned base) = true := by
    decide +kernel
  obtain ⟨hbounds, hany⟩ := hall r hr
  obtain ⟨base, hbase, hdvd⟩ := (Option.any_eq_true _ _).mp hany
  exact ⟨hbounds, base, hbase, of_decide_eq_true hdvd⟩

theorem blockedIpv4_iff (h : quad address = some octets) :
    blockedIpv4 address = true ↔ ∃ r ∈ blocked, InNetwork (unsigned octets) r.1.toList r.2 := by
  unfold blockedIpv4
  rw [List.any_eq_true]
  refine exists_congr fun r => and_congr_right fun hr => ?_
  obtain ⟨⟨hpos, hle⟩, base, hbase, hdvd⟩ := blocked_aligned hr
  have hquad := quad_of_ipv4 hbase
  exact (inIpv4Cidr_iff h hquad hpos hle).trans (inNetwork_iff hquad hdvd).symm

theorem isPublicIp_of_ipv4 (h : ipv4 (normalized address) = some octets) :
    isPublicIp address = !blockedIpv4 (normalized address) := by
  unfold isPublicIp isPublicIpWith
  rw [h]
  rfl

/-- **The arithmetic is exact.**  Two dotted quads are in one network of a length if and only if
the quotients of their unsigned values are one number; and an IPv4 address is refused if and only
if it is in a blocked network. -/
theorem inIpv4Cidr_exact :
    (∀ (address network : List Char) (octets base : List ℕ) (length : ℕ),
      quad address = some octets → quad network = some base → 1 ≤ length → length ≤ 32 →
        (inIpv4Cidr address network length = true ↔
          unsigned octets / 2 ^ (32 - length) = unsigned base / 2 ^ (32 - length))) ∧
    ∀ (address : List Char) (octets : List ℕ), ipv4 (normalized address) = some octets →
      (isPublicIp address = false ↔
        ∃ r ∈ blocked, InNetwork (unsigned octets) r.1.toList r.2) := by
  refine ⟨fun address network octets base length ha hn hpos hle =>
    inIpv4Cidr_iff ha hn hpos hle, fun address octets h => ?_⟩
  rw [isPublicIp_of_ipv4 h, Bool.not_eq_false']
  exact blockedIpv4_iff (quad_of_ipv4 h)

/-- The numbers are beyond the largest signed one. -/
theorem inIpv4Cidr_exact_high :
    quad "203.0.113.7".toList = some [203, 0, 113, 7] ∧
      (inIpv4Cidr "203.0.113.7".toList "203.0.113.0".toList 24 = true ↔
        unsigned [203, 0, 113, 7] / 2 ^ 8 = unsigned [203, 0, 113, 0] / 2 ^ 8) ∧
      (isPublicIp "203.0.113.7".toList = false ↔
        ∃ r ∈ blocked, InNetwork (unsigned [203, 0, 113, 7]) r.1.toList r.2) :=
  ⟨by decide +kernel,
    inIpv4Cidr_exact.1 "203.0.113.7".toList "203.0.113.0".toList [203, 0, 113, 7] [203, 0, 113, 0]
      24 (by decide +kernel) (by decide +kernel) (by decide) (by decide),
    inIpv4Cidr_exact.2 "203.0.113.7".toList [203, 0, 113, 7] (by decide +kernel)⟩

/-! ### Numbers without a sign -/

/-- The number that `RecruitingOs.ipv4Number` shifts together. -/
theorem ipv4Number_unsigned (h : ipv4 address = some octets) :
    RecruitingOs.ipv4Number address = some (unsigned octets) := by
  obtain ⟨a, b, c, d, rfl, -, -⟩ := quad_eq_some (quad_of_ipv4 h)
  unfold RecruitingOs.ipv4Number
  rw [h, unsigned_quad]
  show some ((a <<< 24) + (b <<< 16) + (c <<< 8) + d) = _
  rw [Nat.shiftLeft_eq, Nat.shiftLeft_eq, Nat.shiftLeft_eq]

theorem inIpv4Cidr_eq (ha : ipv4 address = some octets) (hn : ipv4 network = some base)
    (hpos : 1 ≤ length) (hle : length ≤ 32) :
    inIpv4Cidr address network length = RecruitingOs.inIpv4Cidr address network length := by
  have hbits : ∀ v < 2 ^ 32, v &&& (0xffffffff <<< (32 - length)) % 2 ^ 32 =
      (BitVec.ofNat 32 v &&& BitVec.allOnes 32 <<< (32 - length)).toNat := by
    intro v hv
    rw [BitVec.toNat_and, BitVec.toNat_shiftLeft, BitVec.toNat_ofNat, Nat.mod_eq_of_lt hv]
    rfl
  have hvalue := unsigned_lt (quad_of_ipv4 ha)
  have hbase := unsigned_lt (quad_of_ipv4 hn)
  rw [Bool.eq_iff_iff, inIpv4Cidr_iff (quad_of_ipv4 ha) (quad_of_ipv4 hn) hpos hle]
  unfold RecruitingOs.inIpv4Cidr
  rw [ipv4Number_unsigned ha, ipv4Number_unsigned hn]
  show _ ↔ decide (_ = _) = true
  rw [decide_eq_true_iff, if_neg (Nat.ne_of_gt hpos), hbits _ hvalue, hbits _ hbase,
    BitVec.toNat_inj, and_ones_eq_iff, BitVec.toNat_ofNat, BitVec.toNat_ofNat,
    Nat.mod_eq_of_lt hvalue, Nat.mod_eq_of_lt hbase]

theorem blockedIpv4_eq (h : ipv4 address = some octets) :
    blockedIpv4 address = RecruitingOs.blockedIpv4 address := by
  unfold blockedIpv4 RecruitingOs.blockedIpv4
  rw [Bool.eq_iff_iff, List.any_eq_true, List.any_eq_true]
  refine exists_congr fun r => and_congr_right fun hr => ?_
  obtain ⟨⟨hpos, hle⟩, base, hbase, -⟩ := blocked_aligned hr
  exact Bool.eq_iff_iff.mp (inIpv4Cidr_eq h hbase hpos hle)

theorem isPublicIpWith_eq :
    isPublicIpWith again address = RecruitingOs.isPublicIpWith again address := by
  unfold isPublicIpWith RecruitingOs.isPublicIpWith
  cases h : ipv4 (normalized address) with
  | none => rfl
  | some octets => rw [blockedIpv4_eq h]

/-- **Signs do not show**: the answer is that of the arithmetic of numbers without a sign. -/
theorem isPublicIp_eq (address : List Char) :
    isPublicIp address = RecruitingOs.isPublicIp address := by
  have hagain : (isPublicIpWith fun _ => false) = RecruitingOs.isPublicIpWith fun _ => false := by
    funext text
    exact isPublicIpWith_eq
  unfold isPublicIp RecruitingOs.isPublicIp
  rw [hagain]
  exact isPublicIpWith_eq

end RecruitingOs.Ipv4Range
