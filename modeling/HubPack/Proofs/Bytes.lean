import Mathlib
import HubPack.Bytes

namespace HubPack

theorem capacity_eq (w : Nat) : capacity w = 256 ^ w := by
  rw [capacity, Nat.one_shiftLeft, Nat.pow_mul]

theorem bigEndian_succ (w n : Nat) :
    bigEndian (w + 1) n = UInt8.ofNat (n / 256 ^ w) :: bigEndian w n := by
  rw [bigEndian, Nat.shiftRight_eq_div_pow, Nat.pow_mul]

theorem foldl_bytes (bs : Bytes) (n : Nat) :
    bs.foldl (fun n b => 256 * n + b.toNat) n = n * 256 ^ bs.length + ofBigEndian bs := by
  induction bs generalizing n with
  | nil => simp [ofBigEndian]
  | cons b bs ih =>
    rw [ofBigEndian, List.foldl_cons, List.foldl_cons, ih, ih (256 * 0 + b.toNat), List.length_cons,
      Nat.pow_succ, Nat.mul_zero, Nat.zero_add, Nat.add_mul, Nat.mul_comm 256 n, Nat.mul_assoc,
      Nat.mul_comm 256, Nat.add_assoc]

theorem ofBigEndian_cons (b : UInt8) (bs : Bytes) :
    ofBigEndian (b :: bs) = b.toNat * 256 ^ bs.length + ofBigEndian bs := by
  rw [ofBigEndian, List.foldl_cons, foldl_bytes]
  simp

theorem ofBigEndian_lt (bs : Bytes) : ofBigEndian bs < 256 ^ bs.length := by
  induction bs with
  | nil => simp [ofBigEndian]
  | cons b bs ih =>
    have hb : b.toNat ≤ 255 := Nat.le_of_lt_succ b.toNat_lt
    have hm := Nat.mul_le_mul_right (256 ^ bs.length) hb
    rw [ofBigEndian_cons, List.length_cons, Nat.pow_succ]
    omega

theorem ofBigEndian_bigEndian {w n : Nat} (h : n < 256 ^ w) :
    ofBigEndian (bigEndian w n) = n := by
  have general : ∀ w, ofBigEndian (bigEndian w n) = n % 256 ^ w := by
    intro w
    induction w with
    | zero => simp [bigEndian, ofBigEndian, Nat.mod_one]
    | succ w ih =>
      have split : n % 256 ^ (w + 1) = n % 256 ^ w + 256 ^ w * (n / 256 ^ w % 256) :=
        Nat.mod_pow_succ
      rw [bigEndian_succ, ofBigEndian_cons, ih, length_bigEndian, UInt8.toNat_ofNat', split,
        Nat.add_comm, Nat.mul_comm]
  rw [general, Nat.mod_eq_of_lt h]

theorem bigEndian_mul_add (w c n : Nat) : bigEndian w (c * 256 ^ w + n) = bigEndian w n := by
  induction w generalizing c with
  | zero => rfl
  | succ w ih =>
    have shift : c * 256 ^ (w + 1) + n = c * 256 * 256 ^ w + n := by
      rw [Nat.pow_succ, Nat.mul_assoc, Nat.mul_comm 256]
    have positive : 0 < 256 ^ w := Nat.pow_pos (by decide)
    have first : (c * 256 * 256 ^ w + n) / 256 ^ w = c * 256 + n / 256 ^ w := by
      rw [Nat.add_comm, Nat.add_mul_div_right _ _ positive, Nat.add_comm]
    rw [bigEndian_succ, bigEndian_succ, shift, ih, first]
    congr 1
    apply UInt8.toNat_inj.mp
    simp only [UInt8.toNat_ofNat']
    omega

theorem bigEndian_ofBigEndian (bs : Bytes) : bigEndian bs.length (ofBigEndian bs) = bs := by
  induction bs with
  | nil => rfl
  | cons b bs ih =>
    have positive : 0 < 256 ^ bs.length := Nat.pow_pos (by decide)
    have first : (b.toNat * 256 ^ bs.length + ofBigEndian bs) / 256 ^ bs.length = b.toNat := by
      rw [Nat.add_comm, Nat.add_mul_div_right _ _ positive,
        Nat.div_eq_of_lt (ofBigEndian_lt bs), Nat.zero_add]
    rw [ofBigEndian_cons, List.length_cons, bigEndian_succ, first, bigEndian_mul_add, ih,
      UInt8.ofNat_toNat]

theorem patternOf_lt (w : Nat) (i : Int) : patternOf w i < 256 ^ w := by
  have positive : (0 : Int) < 256 ^ w := Int.pow_pos (by decide)
  have bounds := Int.emod_lt_of_pos i positive
  have nonneg := Int.emod_nonneg i (Int.ne_of_gt positive)
  rw [patternOf, capacity_eq]
  have cast : ((256 ^ w : Nat) : Int) = 256 ^ w := Int.natCast_pow 256 w
  omega

theorem signedOf_bounds {w n : Nat} (h : n < 256 ^ w) :
    -(256 ^ w) ≤ 2 * signedOf w n ∧ 2 * signedOf w n < 256 ^ w := by
  have cast : ((256 ^ w : Nat) : Int) = 256 ^ w := Int.natCast_pow 256 w
  rw [signedOf, capacity_eq]
  split <;> omega

theorem patternOf_signedOf {w n : Nat} (h : n < 256 ^ w) : patternOf w (signedOf w n) = n := by
  have cast : ((256 ^ w : Nat) : Int) = 256 ^ w := Int.natCast_pow 256 w
  rw [patternOf, signedOf, capacity_eq]
  split
  · rw [Int.emod_eq_of_lt (by omega) (by omega)]
    rfl
  · rw [Int.sub_emod_right, Int.emod_eq_of_lt (by omega) (by omega)]
    rfl

theorem signedOf_patternOf {w : Nat} {i : Int} (low : -(256 ^ w) ≤ 2 * i) (high : 2 * i < 256 ^ w) :
    signedOf w (patternOf w i) = i := by
  have cast : ((256 ^ w : Nat) : Int) = 256 ^ w := Int.natCast_pow 256 w
  rw [patternOf, signedOf, capacity_eq, cast]
  by_cases negative : i < 0
  · have wrap : i % 256 ^ w = i + 256 ^ w := by
      rw [← Int.add_emod_right, Int.emod_eq_of_lt (by omega) (by omega)]
    rw [wrap]
    split <;> omega
  · rw [Int.emod_eq_of_lt (by omega) (by omega)]
    split <;> omega

end HubPack
