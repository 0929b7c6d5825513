import Mathlib.Algebra.Group.Nat.Defs
import Mathlib.Data.Int.Notation
import Mathlib.Data.Nat.Notation

/-!
# Bitwise operators on numbers

The bitwise operators of the platform take a number for the 32 bits of its integer, and the count of
a shift for its lowest five.  What they answer is signed, but for `>>>`.

A mask whose ones are those from a bit on compares the quotients by its power
(`and_ones_eq_iff`), whatever the signs are that the operators put in between.
-/

namespace BitOps

/-- The bits of a number. -/
def bits (x : ℤ) : BitVec 32 := BitVec.ofInt 32 x

/-- The count of a shift. -/
def count (y : ℤ) : ℕ := (bits y).toNat % 32

/-- `x << y`. -/
def shl (x y : ℤ) : ℤ := (bits x <<< count y).toInt

/-- `x >>> y`. -/
def ushr (x y : ℤ) : ℤ := (bits x >>> count y).toNat

/-- `x & y`. -/
def band (x y : ℤ) : ℤ := (bits x &&& bits y).toInt

variable {x y m : ℤ} {n k : ℕ}

/-! ### The bits of what is answered -/

@[simp] theorem bits_natCast (n : ℕ) : bits n = BitVec.ofNat 32 n := BitVec.ofInt_natCast 32 n

@[simp] theorem bits_shl : bits (shl x y) = bits x <<< count y := BitVec.ofInt_toInt

@[simp] theorem bits_ushr : bits (ushr x y) = bits x >>> count y := by
  rw [ushr, bits_natCast, BitVec.ofNat_toNat, BitVec.setWidth_eq]

theorem count_of_lt (hk : k < 32) : count k = k := by
  rw [count, bits_natCast, BitVec.toNat_ofNat]
  omega

/-- Signs are lost and come back: numbers are compared under a mask as their bits are. -/
theorem band_eq_band_iff : band x m = band y m ↔ bits x &&& bits m = bits y &&& bits m :=
  BitVec.toInt_inj

theorem toNat_bits_shl (hk : k < 32) : (bits (shl n k)).toNat = n * 2 ^ k % 2 ^ 32 := by
  rw [bits_shl, count_of_lt hk, bits_natCast, BitVec.toNat_shiftLeft, BitVec.toNat_ofNat,
    Nat.shiftLeft_eq, Nat.mod_mul_mod]

/-- A shift that does not reach the sign is a product. -/
theorem shl_of_lt (hk : k < 32) (h : n * 2 ^ k < 2 ^ 31) : shl n k = (n * 2 ^ k : ℕ) := by
  have hbits := @toNat_bits_shl n k hk
  rw [Nat.mod_eq_of_lt (Nat.lt_trans h (by decide))] at hbits
  have hshl : (bits (shl n k)).toInt = shl n k := by
    rw [bits_shl]
    rfl
  rw [← hshl, BitVec.toInt_eq_toNat_of_lt, hbits]
  rw [hbits]
  omega

/-- One that does is a product again after `>>> 0`. -/
theorem ushr_shl_of_lt (hk : k < 32) (h : n * 2 ^ k < 2 ^ 32) :
    ushr (shl n k) 0 = (n * 2 ^ k : ℕ) := by
  have hbits := @toNat_bits_shl n k hk
  rw [Nat.mod_eq_of_lt h] at hbits
  have hcount : count 0 = 0 := by decide
  rw [ushr, hcount, BitVec.ushiftRight_zero, hbits]

/-! ### Masks -/

/-- **A mask** of ones from a bit on compares quotients. -/
theorem and_ones_eq_iff {w : ℕ} {a b : BitVec w} :
    a &&& (BitVec.allOnes w <<< k) = b &&& (BitVec.allOnes w <<< k) ↔
      a.toNat / 2 ^ k = b.toNat / 2 ^ k := by
  have hshift : a.toNat / 2 ^ k = b.toNat / 2 ^ k ↔ a >>> k = b >>> k := by
    rw [← BitVec.toNat_inj, BitVec.toNat_ushiftRight, BitVec.toNat_ushiftRight,
      Nat.shiftRight_eq_div_pow, Nat.shiftRight_eq_div_pow]
  rw [hshift]
  constructor
  · intro h
    ext i hi
    rw [BitVec.getElem_ushiftRight, BitVec.getElem_ushiftRight]
    by_cases hik : k + i < w
    · have hbit := congrArg (fun v => v.getLsbD (k + i)) h
      have hge : ¬ k + i < k := Nat.not_lt.mpr (Nat.le_add_right k i)
      simpa [hik, hge] using hbit
    · rw [BitVec.getLsbD_of_ge a _ (Nat.le_of_not_lt hik),
        BitVec.getLsbD_of_ge b _ (Nat.le_of_not_lt hik)]
  · intro h
    ext i hi
    rw [BitVec.getElem_and, BitVec.getElem_and, BitVec.getElem_shiftLeft]
    by_cases hik : i < k
    · simp [hik]
    · have hbit := congrArg (fun v => v.getLsbD (i - k)) h
      have hsum : k + (i - k) = i := Nat.add_sub_cancel' (Nat.le_of_not_lt hik)
      simp only [BitVec.getLsbD_ushiftRight, hsum, BitVec.getLsbD_eq_getElem hi] at hbit
      rw [hbit]

/-- The mask of the highest bits, as it is written: `(0xffffffff << k) >>> 0`. -/
theorem bits_highest (hk : k < 32) :
    bits (ushr (shl 0xffffffff k) 0) = BitVec.allOnes 32 <<< k := by
  have hones : bits 0xffffffff = BitVec.allOnes 32 := by decide
  have hcount : count 0 = 0 := by decide
  rw [bits_ushr, bits_shl, hones, count_of_lt hk, hcount, BitVec.ushiftRight_zero]

/-- The multiples of a power between which a number is. -/
theorem div_eq_div_iff_of_dvd {a b : ℕ} (hdvd : 2 ^ k ∣ b) :
    a / 2 ^ k = b / 2 ^ k ↔ b ≤ a ∧ a < b + 2 ^ k := by
  obtain ⟨q, rfl⟩ := hdvd
  have hpos : 0 < 2 ^ k := Nat.two_pow_pos k
  rw [Nat.mul_div_cancel_left q hpos, Nat.div_eq_iff hpos]
  rw [Nat.mul_comm]
  omega

end BitOps
