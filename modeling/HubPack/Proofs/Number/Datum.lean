import Mathlib
import HubPack.Number.Binary64

/-!
What patterns of bits stand for, in the terms of the standard for binary floating point. A pattern
of 32 bits and the pattern of 64 bits that it widens to stand for the same.
-/
namespace HubPack

inductive Datum where
  | finite (negative : Bool) (magnitude : ℚ)
  | infinity (negative : Bool)
  | nan

structure BinaryFormat where
  exponentBits : Nat
  fractionBits : Nat

namespace BinaryFormat

def binary32 : BinaryFormat := ⟨8, 23⟩

def binary64 : BinaryFormat := ⟨11, 52⟩

/-- The exponent that a field of zero stands for; the fraction counts units of it. -/
def least (F : BinaryFormat) : Int := 2 - 2 ^ (F.exponentBits - 1) - F.fractionBits

/-- Field zero holds the subnormal numbers; the others have a bit before their fraction. -/
def datumOf (F : BinaryFormat) (negative : Bool) (field fraction : Nat) : Datum :=
  if field = 2 ^ F.exponentBits - 1 then
    if fraction = 0 then .infinity negative else .nan
  else if field = 0 then .finite negative (fraction * 2 ^ F.least)
  else .finite negative ((2 ^ F.fractionBits + fraction) * 2 ^ (F.least + field - 1))

def datum (F : BinaryFormat) (pattern : Nat) : Datum :=
  F.datumOf (decide (pattern / 2 ^ (F.exponentBits + F.fractionBits) % 2 = 1))
    (pattern / 2 ^ F.fractionBits % 2 ^ F.exponentBits) (pattern % 2 ^ F.fractionBits)

variable {F : BinaryFormat} {negative : Bool} {field fraction : Nat}

theorem datumOf_special : F.datumOf negative (2 ^ F.exponentBits - 1) fraction =
    if fraction = 0 then .infinity negative else .nan := if_pos rfl

theorem datumOf_subnormal (h : 0 < F.exponentBits) :
    F.datumOf negative 0 fraction = .finite negative (fraction * 2 ^ F.least) := by
  have more := Nat.one_lt_two_pow (Nat.ne_of_gt h)
  rw [datumOf, if_neg (by omega), if_pos rfl]

theorem datumOf_normal (least : field ≠ 0) (most : field ≠ 2 ^ F.exponentBits - 1) :
    F.datumOf negative field fraction =
      .finite negative ((2 ^ F.fractionBits + fraction) * 2 ^ (F.least + field - 1)) := by
  rw [datumOf, if_neg most, if_neg least]

end BinaryFormat

namespace Binary64
open BinaryFormat

theorem toNat_ofParts {rest : Nat} (negative : Bool) (h : rest < 2 ^ 63) :
    (ofParts negative rest).bits.toNat = negative.toNat * 2 ^ 63 + rest := by
  have bound := negative.toNat_lt
  have sign : (if negative then 1 <<< 63 else 0) = negative.toNat * 2 ^ 63 := by
    cases negative <;> rfl
  rw [ofParts, sign, UInt64.toNat_ofNat_of_lt']
  simp only [UInt64.size]
  omega

theorem datum_ofParts {negative : Bool} {field fraction : Nat} (hf : field < 2 ^ 11)
    (hm : fraction < 2 ^ 52) :
    binary64.datum (ofParts negative ((field <<< 52) + fraction)).bits.toNat =
      binary64.datumOf negative field fraction := by
  have bound := negative.toNat_lt
  have flag : decide (negative.toNat = 1) = negative := by cases negative <;> rfl
  have small : field * 2 ^ 52 + fraction < 2 ^ 63 := by omega
  rw [Nat.shiftLeft_eq, toNat_ofParts negative small]
  generalize negative.toNat = s at bound flag
  have sign : (s * 2 ^ 63 + (field * 2 ^ 52 + fraction)) / 2 ^ (11 + 52) % 2 = s := by omega
  have above : (s * 2 ^ 63 + (field * 2 ^ 52 + fraction)) / 2 ^ 52 % 2 ^ 11 = field := by omega
  have below : (s * 2 ^ 63 + (field * 2 ^ 52 + fraction)) % 2 ^ 52 = fraction := by omega
  simp only [datum, binary64, sign, above, below, flag]

theorem roundShift_of_dvd {n s : Nat} (zeros : 2 ^ s ∣ n) : roundShift n s = n / 2 ^ s := by
  have unit := Nat.two_pow_pos s
  simp only [roundShift, Nat.one_shiftLeft, Nat.mod_eq_zero_of_dvd zeros]
  rw [if_neg (by omega)]

theorem significand_of_dvd {n : Nat} (positive : n ≠ 0) (zeros : 2 ^ (n.log2 - 52) ∣ n) :
    ∃ m, (if n.log2 ≤ 52 then n <<< (52 - n.log2) else roundShift n (n.log2 - 52)) = m ∧
      2 ^ 52 ≤ m ∧ m < 2 ^ 53 ∧ (m : ℚ) * 2 ^ ((n.log2 : ℤ) - 52) = n := by
  have low := Nat.log2_self_le positive
  have high : n < 2 ^ (n.log2 + 1) := Nat.lt_log2_self
  generalize n.log2 = k at low high zeros ⊢
  by_cases room : k ≤ 52
  · refine ⟨n * 2 ^ (52 - k), by rw [if_pos room, Nat.shiftLeft_eq], ?_, ?_, ?_⟩
    · calc
        2 ^ 52 = 2 ^ k * 2 ^ (52 - k) := by rw [← Nat.pow_add]; congr 1; omega
        _ ≤ n * 2 ^ (52 - k) := Nat.mul_le_mul_right _ low
    · calc
        n * 2 ^ (52 - k) < 2 ^ (k + 1) * 2 ^ (52 - k) :=
          Nat.mul_lt_mul_of_pos_right high (Nat.two_pow_pos _)
        _ = 2 ^ 53 := by rw [← Nat.pow_add]; congr 1; omega
    · have back : (2 : ℚ) ^ (52 - k) * 2 ^ ((k : ℤ) - 52) = 1 := by
        rw [← zpow_natCast, ← zpow_add₀ two_ne_zero, Nat.cast_sub room, Nat.cast_ofNat,
          sub_add_sub_cancel, sub_self, zpow_zero]
      push_cast
      rw [mul_assoc, back, mul_one]
  · obtain ⟨m, rfl⟩ := zeros
    have unit := Nat.two_pow_pos (k - 52)
    have whole : 2 ^ (k - 52) * m / 2 ^ (k - 52) = m := Nat.mul_div_cancel_left m unit
    refine ⟨m, by rw [if_neg room, roundShift_of_dvd ⟨m, rfl⟩, whole], ?_, ?_, ?_⟩
    · have split : 2 ^ k = 2 ^ (k - 52) * 2 ^ 52 := by rw [← Nat.pow_add]; congr 1; omega
      exact Nat.le_of_mul_le_mul_left (split ▸ low) unit
    · have split : 2 ^ (k + 1) = 2 ^ (k - 52) * 2 ^ 53 := by rw [← Nat.pow_add]; congr 1; omega
      exact Nat.lt_of_mul_lt_mul_left (split ▸ high)
    · have exponent : (k : ℤ) - 52 = ((k - 52 : Nat) : ℤ) := by omega
      rw [exponent, zpow_natCast]
      push_cast
      rw [mul_comm]

theorem datum_normalParts {negative : Bool} {n : Nat} {e : Int} (positive : n ≠ 0)
    (zeros : 2 ^ (n.log2 - 52) ∣ n) (least : 0 < n.log2 + e + 1023)
    (most : n.log2 + e + 1023 < 2047) :
    binary64.datum (ofParts negative (normalParts n e)).bits.toNat =
      .finite negative (n * 2 ^ e) := by
  obtain ⟨m, found, low, high, value⟩ := significand_of_dvd positive zeros
  unfold normalParts
  simp only
  rw [found]
  obtain ⟨field, exponent⟩ : ∃ field : Nat, n.log2 + e + 1023 = field :=
    ⟨_, (Int.toNat_of_nonneg least.le).symm⟩
  rw [exponent, Int.toNat_natCast]
  have rest : m - 1 <<< 52 < 2 ^ 52 := by omega
  have whole : ((2 : ℚ) ^ 52 + (m - 1 <<< 52 : Nat)) = m := by
    rw [Nat.one_shiftLeft, Nat.cast_sub low]
    push_cast
    ring
  have scale : -1074 + (field : ℤ) - 1 = (n.log2 : ℤ) - 52 + e := by omega
  have finite : field ≠ 2 ^ 11 - 1 := by omega
  rw [datum_ofParts (by omega) rest, datumOf_normal (by omega) finite]
  congr 1
  change ((2 : ℚ) ^ 52 + _) * 2 ^ (-1074 + (field : ℤ) - 1) = n * 2 ^ e
  rw [whole, scale, zpow_add₀ two_ne_zero, ← mul_assoc, value]

theorem datum_subnormal {negative : Bool} {fraction : Nat} (small : fraction < 2 ^ 23) :
    binary64.datum (ofParts negative
      (if fraction = 0 then 0 else normalParts fraction (-149))).bits.toNat =
      binary32.datumOf negative 0 fraction := by
  refine Eq.trans ?_ (datumOf_subnormal (by decide)).symm
  by_cases zero : fraction = 0
  · subst zero
    refine (@datum_ofParts negative 0 0 (by decide) (by decide)).trans ?_
    refine (datumOf_subnormal (by decide)).trans ?_
    simp
  · have top : fraction.log2 < 23 := (Nat.log2_lt zero).mpr small
    have room : fraction.log2 - 52 = 0 := by omega
    rw [if_neg zero]
    exact datum_normalParts zero (room ▸ one_dvd fraction) (by omega) (by omega)

theorem datum_normal {negative : Bool} {field fraction : Nat} (least : field ≠ 0)
    (most : field < 255) (small : fraction < 2 ^ 23) :
    binary64.datum (ofParts negative (((field + 896) <<< 52) + (fraction <<< 29))).bits.toNat =
      binary32.datumOf negative field fraction := by
  have scale : (2 : ℚ) ^ 29 * 2 ^ (-1074 + ((field + 896 : Nat) : ℤ) - 1) =
      2 ^ (-149 + (field : ℤ) - 1) := by
    rw [← zpow_natCast, ← zpow_add₀ two_ne_zero]
    exact congrArg ((2 : ℚ) ^ ·) (by omega)
  have rest : fraction <<< 29 < 2 ^ 52 := by
    rw [Nat.shiftLeft_eq]
    omega
  have wide : field + 896 ≠ 2 ^ 11 - 1 := by omega
  have narrow : field ≠ 2 ^ 8 - 1 := by omega
  rw [datum_ofParts (by omega) rest, datumOf_normal (by omega) wide, datumOf_normal least narrow]
  congr 1
  change ((2 : ℚ) ^ 52 + (fraction <<< 29 : Nat)) * 2 ^ (-1074 + ((field + 896 : Nat) : ℤ) - 1) =
    (2 ^ 23 + fraction) * 2 ^ (-149 + (field : ℤ) - 1)
  rw [← scale, Nat.shiftLeft_eq]
  push_cast
  ring

theorem datum_special {negative : Bool} (fraction : Nat) :
    binary64.datum (ofParts negative ((2047 <<< 52) +
      if fraction = 0 then 0 else ((fraction % (1 <<< 22)) <<< 29) + (1 <<< 51))).bits.toNat =
      binary32.datumOf negative 255 fraction := by
  refine Eq.trans ?_ datumOf_special.symm
  by_cases infinite : fraction = 0
  · rw [if_pos infinite, if_pos infinite, datum_ofParts (by decide) (by decide)]
    exact datumOf_special
  · have payload : fraction % 1 <<< 22 < 2 ^ 22 := Nat.mod_lt _ (by decide)
    have quiet : (fraction % 1 <<< 22) <<< 29 + 1 <<< 51 < 2 ^ 52 := by
      rw [Nat.shiftLeft_eq]
      omega
    rw [if_neg infinite, if_neg infinite, datum_ofParts (by decide) quiet]
    exact datumOf_special.trans (if_neg (by omega))

theorem datum_binary32 {pattern : Nat} (h : pattern < 2 ^ 32) :
    binary32.datum pattern = binary32.datumOf (decide (1 <<< 31 ≤ pattern))
      (pattern >>> 23 % 256) (pattern % 1 <<< 23) := by
  have sign : (pattern / 2 ^ (8 + 23) % 2 = 1) = (1 <<< 31 ≤ pattern) := by
    rw [Nat.one_shiftLeft]
    exact propext (by omega)
  rw [datum, Nat.shiftRight_eq_div_pow, Nat.one_shiftLeft 23]
  simp only [binary32, sign]
  rfl

/-- A number of 32 bits and the number of 64 bits that it widens to are one. -/
theorem datum_ofBinary32 (bits : UInt32) :
    binary64.datum (ofBinary32 bits).bits.toNat = binary32.datum bits.toNat := by
  have field : bits.toNat >>> 23 % 256 < 256 := Nat.mod_lt _ (by decide)
  have small : bits.toNat % 1 <<< 23 < 2 ^ 23 := Nat.mod_lt _ (by decide)
  rw [datum_binary32 bits.toNat_lt]
  unfold ofBinary32
  generalize bits.toNat >>> 23 % 256 = e at field
  generalize bits.toNat % 1 <<< 23 = m at small
  simp only
  by_cases special : e = 255
  · rw [special, if_pos rfl, datum_special]
  · by_cases subnormal : e = 0
    · rw [if_neg special, if_pos subnormal, subnormal, datum_subnormal small]
    · rw [if_neg special, if_neg subnormal, datum_normal subnormal (by omega) small]

end Binary64

end HubPack
