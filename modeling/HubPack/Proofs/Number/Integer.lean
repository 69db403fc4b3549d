import HubPack.Hint
import HubPack.Proofs.Number.Datum

namespace HubPack
open BinaryFormat

/-- The number, if it is one. Both zeros are the number zero. -/
def Datum.number? : Datum → Option ℚ
  | .finite negative magnitude => some (if negative then -magnitude else magnitude)
  | .infinity _ | .nan => none

namespace Binary64

def number? (f : Binary64) : Option ℚ := (binary64.datum f.bits.toNat).number?

section Fields

variable (f : Binary64)

theorem datum_eq : binary64.datum f.bits.toNat =
    binary64.datumOf f.isNegative f.exponentField f.fraction := by
  have bound := f.bits.toNat_lt
  have sign : (f.bits.toNat / 2 ^ (11 + 52) % 2 = 1) = (1 <<< 63 ≤ f.bits.toNat) := by
    rw [Nat.one_shiftLeft]
    exact propext (by omega)
  rw [datum, isNegative, exponentField, fraction, Nat.shiftRight_eq_div_pow, Nat.one_shiftLeft 52]
  simp only [binary64, sign]
  rfl

variable {f}

theorem datum_of_finite (finite : f.isFinite) : binary64.datum f.bits.toNat =
    .finite f.isNegative (f.significand * 2 ^ f.scale) := by
  have most : f.exponentField ≠ 2 ^ 11 - 1 := by simpa [isFinite] using finite
  rw [datum_eq, significand]
  by_cases subnormal : f.exponentField = 0
  · rw [if_pos subnormal, scale, subnormal]
    exact datumOf_subnormal (by decide)
  · have scale : f.scale = -1074 + f.exponentField - 1 := by
      rw [scale]
      omega
    rw [if_neg subnormal, scale, Nat.one_shiftLeft]
    push_cast
    exact datumOf_normal subnormal most

theorem number?_of_finite (finite : f.isFinite) : f.number? = some
    (if f.isNegative then -(f.significand * 2 ^ f.scale : ℚ)
     else f.significand * 2 ^ f.scale) := by
  rw [number?, datum_of_finite finite]
  rfl

theorem number?_of_not_finite (special : f.isFinite = false) : f.number? = none := by
  have field : f.exponentField = 2 ^ 11 - 1 := by simpa [isFinite] using special
  have eq : binary64.datum f.bits.toNat =
      if f.fraction = 0 then .infinity f.isNegative else .nan := by
    rw [datum_eq, field]
    exact datumOf_special
  rw [number?, eq]
  split <;> rfl

end Fields

section ToInteger

def whole? (m : Nat) (e : Int) : Option Nat :=
  if 0 ≤ e then some (m <<< e.toNat)
  else
    let unit := 1 <<< (-e).toNat
    if m % unit = 0 then some (m / unit) else none

theorem whole?_eq_some_iff {m n : Nat} {e : Int} :
    whole? m e = some n ↔ (m : ℚ) * 2 ^ e = n := by
  rw [whole?]
  split
  · rename_i nonneg
    obtain ⟨k, rfl⟩ := Int.eq_ofNat_of_zero_le nonneg
    rw [Int.toNat_natCast, Nat.shiftLeft_eq, Option.some.injEq, zpow_natCast]
    exact_mod_cast Iff.rfl
  · rename_i negative
    obtain ⟨k, rfl⟩ : ∃ k : Nat, e = -k := ⟨(-e).toNat, by omega⟩
    have unit := Nat.two_pow_pos k
    have scaled : (m : ℚ) * 2 ^ (-(k : ℤ)) = n ↔ m = n * 2 ^ k := by
      rw [zpow_neg, zpow_natCast, mul_inv_eq_iff_eq_mul₀ (by positivity)]
      exact_mod_cast Iff.rfl
    rw [scaled, neg_neg, Int.toNat_natCast, Nat.one_shiftLeft]
    simp only
    constructor
    · intro h
      split at h
      · rename_i divides
        rw [← Option.some.inj h, Nat.div_mul_cancel (Nat.dvd_of_mod_eq_zero divides)]
      · cases h
    · rintro rfl
      rw [if_pos (Nat.mul_mod_left n _), Nat.mul_div_cancel n unit]

theorem toInt?_of_finite {f : Binary64} (finite : f.isFinite) : f.toInt? =
    (whole? f.significand f.scale).map fun n : Nat => if f.isNegative then -(n : Int) else n := by
  rw [toInt?, finite]
  change Option.map _ (whole? f.significand f.scale >>= fun n => pure (n : Int)) = _
  cases whole? f.significand f.scale <;> rfl

theorem toInt?_eq_some_iff {f : Binary64} {i : Int} :
    f.toInt? = some i ↔ f.number? = some (i : ℚ) := by
  by_cases finite : f.isFinite
  · have positive : (0 : ℚ) ≤ f.significand * 2 ^ f.scale := by positivity
    rw [toInt?_of_finite finite, number?_of_finite finite, Option.map_eq_some_iff,
      Option.some.injEq]
    simp only [whole?_eq_some_iff]
    generalize (f.significand : ℚ) * 2 ^ f.scale = x at positive
    constructor
    · rintro ⟨n, rfl, rfl⟩
      split <;> push_cast <;> rfl
    · intro value
      obtain ⟨n, rfl⟩ : ∃ n : Nat, x = n := by
        refine ⟨i.natAbs, ?_⟩
        rw [Nat.cast_natAbs, Int.cast_abs, ← value, ← abs_of_nonneg positive]
        split <;> simp
      refine ⟨n, rfl, ?_⟩
      have integer : (((if f.isNegative then -(n : Int) else n) : Int) : ℚ) = i := by
        rw [← value]
        split <;> push_cast <;> rfl
      exact_mod_cast integer
  · rw [Bool.not_eq_true] at finite
    rw [toInt?, finite, number?_of_not_finite finite]
    exact ⟨nofun, nofun⟩

theorem toInt64?_eq_some_iff {f : Binary64} {i : Int} :
    (∃ j : Int64, j.toInt = i ∧ f.toInt64? = some j) ↔
      f.number? = some (i : ℚ) ∧ -2 ^ 63 ≤ i ∧ i < 2 ^ 63 := by
  rw [toInt64?, ← toInt?_eq_some_iff]
  constructor
  · rintro ⟨j, rfl, found⟩
    obtain ⟨i, value, found⟩ := Option.bind_eq_some_iff.mp found
    split at found
    · rename_i range
      cases found
      rw [Int64.toInt_ofInt_of_le range.1 range.2]
      exact ⟨value, range⟩
    · cases found
  · rintro ⟨value, range⟩
    refine ⟨Int64.ofInt i, Int64.toInt_ofInt_of_le range.1 range.2, ?_⟩
    rw [value]
    exact if_pos range

end ToInteger

section OfInteger

theorem datum_ofInt {i : Int} (zeros : 2 ^ (i.natAbs.log2 - 52) ∣ i.natAbs)
    (most : i.natAbs.log2 < 1024) :
    binary64.datum (ofInt i).bits.toNat = .finite (decide (i < 0)) |(i : ℚ)| := by
  rw [ofInt]
  split
  · rename_i zero
    subst zero
    refine (@datum_ofParts false 0 0 (by decide) (by decide)).trans ?_
    refine (datumOf_subnormal (by decide)).trans ?_
    simp
  · rename_i nonzero
    rw [datum_normalParts (by omega) zeros (by omega) (by omega), zpow_zero, mul_one,
      Nat.cast_natAbs, Int.cast_abs]

theorem number?_ofInt {i : Int} (zeros : 2 ^ (i.natAbs.log2 - 52) ∣ i.natAbs)
    (most : i.natAbs.log2 < 1024) : (ofInt i).number? = some (i : ℚ) := by
  rw [number?, datum_ofInt zeros most, Datum.number?]
  by_cases negative : i < 0
  · have sign : (i : ℚ) ≤ 0 := by exact_mod_cast negative.le
    simp [negative, abs_of_nonpos sign]
  · have sign : (0 : ℚ) ≤ i := by exact_mod_cast not_lt.mp negative
    simp [negative, abs_of_nonneg sign]

theorem zeros_of_le {n : Nat} (h : n ≤ 2 ^ 53) : n.log2 < 1024 ∧ 2 ^ (n.log2 - 52) ∣ n := by
  obtain below | rfl := Nat.lt_or_eq_of_le h
  · by_cases zero : n = 0
    · subst zero
      exact ⟨by decide, by decide⟩
    have top : n.log2 < 53 := (Nat.log2_lt zero).mpr below
    have room : n.log2 - 52 = 0 := by omega
    exact ⟨by omega, room ▸ one_dvd n⟩
  · rw [Nat.log2_two_pow]
    exact ⟨by decide, by decide⟩

end OfInteger

section Cast

def truncate (x : ℚ) : Int := if 0 ≤ x then ⌊x⌋ else ⌈x⌉

/-- A cast to 64 bits: no fraction, and the nearer bound for a number out of bounds. -/
def cast64 (x : ℚ) : Int := max Int64.minValue.toInt (min Int64.maxValue.toInt (truncate x))

/-- The guard before the cast: no fraction, and between the floats that the bounds round to. -/
def Castable (x : ℚ) : Prop :=
  x - truncate x = 0 ∧ ∃ least most, (ofInt Int64.minValue.toInt).number? = some least ∧
    (ofInt Int64.maxValue.toInt).number? = some most ∧ least ≤ x ∧ x < most

theorem truncate_intCast (i : Int) : truncate i = i := by
  rw [truncate, Int.floor_intCast, Int.ceil_intCast, ite_self]

theorem least_rounds : (ofInt Int64.minValue.toInt).number? = some ((-2 ^ 63 : Int) : ℚ) :=
  number?_ofInt (by decide +kernel) (by decide +kernel)

/-- The greatest integer of 64 bits has no float; it rounds to one more. -/
theorem most_rounds : (ofInt Int64.maxValue.toInt).number? = some ((2 ^ 63 : Int) : ℚ) := by
  have rounded : ofInt Int64.maxValue.toInt = ofInt (2 ^ 63) := by decide +kernel
  rw [rounded]
  exact number?_ofInt (by decide +kernel) (by decide +kernel)

theorem castable_iff {x : ℚ} : Castable x ↔ ∃ i : Int, x = i ∧ -2 ^ 63 ≤ i ∧ i < 2 ^ 63 := by
  constructor
  · rintro ⟨whole, least, most, atLeast, atMost, low, high⟩
    cases least_rounds.symm.trans atLeast
    cases most_rounds.symm.trans atMost
    rw [sub_eq_zero] at whole
    rw [whole] at low high
    exact ⟨truncate x, whole, by exact_mod_cast low, by exact_mod_cast high⟩
  · rintro ⟨i, rfl, low, high⟩
    refine ⟨by rw [truncate_intCast, sub_self], _, _, least_rounds, most_rounds, ?_, ?_⟩
    · exact_mod_cast low
    · exact_mod_cast high

theorem cast64_of_castable {x : ℚ} (h : Castable x) : (cast64 x : ℚ) = x := by
  obtain ⟨i, rfl, low, high⟩ := castable_iff.mp h
  have least : Int64.minValue.toInt = -2 ^ 63 := rfl
  have most : Int64.maxValue.toInt = 2 ^ 63 - 1 := rfl
  rw [cast64, truncate_intCast, least, most]
  exact_mod_cast (by omega : max (-2 ^ 63) (min (2 ^ 63 - 1) i) = i)

end Cast

end Binary64

namespace Hint
open Binary64

section Coercion

variable {f : Binary64}

theorem coerce_int_float_iff {j : Int64} :
    Hint.int.coerce (.float f) = .int j ↔ f.toInt64? = some j := by
  cases whole : f.toInt64? <;> simp [coerce, whole]

theorem coerce_int_float_of_none (fits : f.toInt64? = none) :
    Hint.int.coerce (.float f) = .float f := by
  simp only [coerce, fits]

theorem coerce_int_float_eq {i : Int} :
    (∃ j : Int64, j.toInt = i ∧ Hint.int.coerce (.float f) = .int j) ↔
      f.number? = some (i : ℚ) ∧ -2 ^ 63 ≤ i ∧ i < 2 ^ 63 := by
  simp only [coerce_int_float_iff]
  exact toInt64?_eq_some_iff

theorem coerce_int_float_stays (other : ∀ j : Int64, Hint.int.coerce (.float f) ≠ .int j) :
    Hint.int.coerce (.float f) = .float f :=
  coerce_int_float_of_none (Option.eq_none_iff_forall_ne_some.mpr fun j found =>
    other j (coerce_int_float_iff.mpr found))

theorem coerce_float_of_integer {v : Value} {i : Int} (integer : v.integer? = some i) :
    Hint.float.coerce v = .float (ofInt i) := by
  cases v <;> cases integer <;> rfl

/-- Between floats and integers a coercion loses nothing. A float becomes an integer exactly if it
is one of 64 bits, and stays otherwise. A cast behind the guard gives that integer: it drops no
fraction and meets no bound. An integer of up to 53 bits becomes the float that it is, and that
float becomes the integer again. -/
theorem coerce_number_exact :
    (∀ f : Binary64,
      (∀ i : Int, (∃ j : Int64, j.toInt = i ∧ Hint.int.coerce (.float f) = .int j) ↔
        f.number? = some (i : ℚ) ∧ -2 ^ 63 ≤ i ∧ i < 2 ^ 63) ∧
      ((∀ j : Int64, Hint.int.coerce (.float f) ≠ .int j) →
        Hint.int.coerce (.float f) = .float f) ∧
      (∀ x, f.number? = some x → Castable x → (cast64 x : ℚ) = x ∧
        ∃ j : Int64, j.toInt = cast64 x ∧ Hint.int.coerce (.float f) = .int j) ∧
      ((∀ x, f.number? = some x → ¬ Castable x) → Hint.int.coerce (.float f) = .float f)) ∧
    ∀ (v : Value) (i : Int), v.integer? = some i → |i| ≤ 2 ^ 53 →
      ∃ f : Binary64, Hint.float.coerce v = .float f ∧
        binary64.datum f.bits.toNat = .finite (decide (i < 0)) |(i : ℚ)| ∧
        f.number? = some (i : ℚ) ∧
        ∃ j : Int64, j.toInt = i ∧ Hint.int.coerce (.float f) = .int j := by
  refine ⟨fun f => ⟨fun i => coerce_int_float_eq, coerce_int_float_stays, ?_, ?_⟩, ?_⟩
  · intro x number castable
    have exact := cast64_of_castable castable
    obtain ⟨i, rfl, range⟩ := castable_iff.mp castable
    have same : cast64 i = i := by exact_mod_cast exact
    rw [same]
    exact ⟨rfl, coerce_int_float_eq.mpr ⟨number, range⟩⟩
  · intro unfit
    refine coerce_int_float_stays fun j made => ?_
    obtain ⟨number, range⟩ := coerce_int_float_eq.mp ⟨j, rfl, made⟩
    exact unfit _ number (castable_iff.mpr ⟨j.toInt, rfl, range⟩)
  · intro v i integer small
    obtain ⟨low, high⟩ := abs_le.mp small
    obtain ⟨most, zeros⟩ := zeros_of_le (n := i.natAbs) (by omega)
    have number := number?_ofInt zeros most
    exact ⟨ofInt i, coerce_float_of_integer integer, datum_ofInt zeros most, number,
      coerce_int_float_eq.mpr ⟨number, by omega, by omega⟩⟩

/-- The least integer of 64 bits, the float after the greatest, the negative zero, an infinity, and
the last integer before the floats have gaps. -/
theorem coerce_number_exact_bounds :
    (∃ j : Int64, j.toInt = -2 ^ 63 ∧ Hint.int.coerce (.float (ofInt (-2 ^ 63))) = .int j) ∧
    Hint.int.coerce (.float (ofInt (2 ^ 63))) = .float (ofInt (2 ^ 63)) ∧
    (∃ j : Int64, j.toInt = cast64 0 ∧ Hint.int.coerce (.float (ofParts true 0)) = .int j) ∧
    Hint.int.coerce (.float (ofParts true (2047 <<< 52))) = .float (ofParts true (2047 <<< 52)) ∧
    ∃ f : Binary64, Hint.float.coerce (.uint (2 ^ 53)) = .float f ∧
      ∃ j : Int64, j.toInt = 2 ^ 53 ∧ Hint.int.coerce (.float f) = .int j := by
  obtain ⟨floats, integers⟩ := coerce_number_exact
  have past : (ofInt (2 ^ 63)).number? = some ((2 ^ 63 : Int) : ℚ) :=
    number?_ofInt (by decide +kernel) (by decide +kernel)
  have least : (ofInt (-2 ^ 63)).number? = some ((-2 ^ 63 : Int) : ℚ) := least_rounds
  have zero : (ofParts true 0).number? = some 0 := by
    rw [number?_of_finite (by decide), show (ofParts true 0).significand = 0 by decide]
    simp
  refine ⟨((floats _).1 _).mpr ⟨least, by decide, by decide⟩, (floats _).2.2.2 ?_,
    ((floats _).2.2.1 0 zero (castable_iff.mpr ⟨0, by simp, by decide, by decide⟩)).2,
    (floats _).2.1 ?_, ?_⟩
  · intro x number castable
    cases past.symm.trans number
    obtain ⟨i, same, -, high⟩ := castable_iff.mp castable
    rw [Int.cast_inj] at same
    omega
  · intro j made
    have number := (((floats _).1 j.toInt).mp ⟨j, rfl, made⟩).1
    cases (number?_of_not_finite (by decide)).symm.trans number
  · obtain ⟨f, made, -, -, back⟩ := integers (.uint (2 ^ 53)) (2 ^ 53) rfl (by decide)
    exact ⟨f, made, back⟩

end Coercion

end Hint

end HubPack
