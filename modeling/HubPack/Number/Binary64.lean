/-!
Binary floating-point numbers of 64 bits, kept as their bit pattern: one sign bit, eleven bits of
exponent and fifty-two of fraction. All arithmetic on them is on natural numbers and exact; an
integer that has no exact pattern rounds to the nearest, a tie to the even one.
-/
namespace HubPack

structure Binary64 where
  bits : UInt64
  deriving DecidableEq, Repr

namespace Binary64

def isNegative (f : Binary64) : Bool := 1 <<< 63 ≤ f.bits.toNat

def exponentField (f : Binary64) : Nat := (f.bits.toNat >>> 52) % 2048

def fraction (f : Binary64) : Nat := f.bits.toNat % (1 <<< 52)

def isFinite (f : Binary64) : Bool := f.exponentField != 2047

def isNaN (f : Binary64) : Bool := f.exponentField == 2047 && f.fraction != 0

/-- The magnitude of a finite number is `significand * 2 ^ scale`. -/
def significand (f : Binary64) : Nat :=
  if f.exponentField = 0 then f.fraction else (1 <<< 52) + f.fraction

def scale (f : Binary64) : Int :=
  max f.exponentField 1 - 1075

def isZero (f : Binary64) : Bool := f.exponentField == 0 && f.fraction == 0

/-- Equality of the numbers: a NaN differs from everything, and the two zeros are equal. -/
def equal (f g : Binary64) : Bool :=
  !f.isNaN && !g.isNaN && (f == g || f.isZero && g.isZero)

def ofParts (negative : Bool) (rest : Nat) : Binary64 :=
  ⟨UInt64.ofNat ((if negative then 1 <<< 63 else 0) + rest)⟩

/-- `n / 2 ^ s` rounded to the nearest integer, a tie to the even one. -/
def roundShift (n s : Nat) : Nat :=
  let unit := 1 <<< s
  let quotient := n / unit
  let twice := 2 * (n % unit)
  if unit < twice ∨ twice = unit ∧ quotient % 2 = 1 then quotient + 1 else quotient

/-- Exponent and fraction of `n * 2 ^ e`, where the result is a normal number. A significand that
rounds up to `2 ^ 53` carries into the exponent. -/
def normalParts (n : Nat) (e : Int) : Nat :=
  let top := n.log2
  let significand := if top ≤ 52 then n <<< (52 - top) else roundShift n (top - 52)
  ((top + e + 1023).toNat <<< 52) + (significand - (1 <<< 52))

def ofInt (i : Int) : Binary64 :=
  if i = 0 then ⟨0⟩ else ofParts (i < 0) (normalParts i.natAbs 0)

def toInt? (f : Binary64) : Option Int :=
  let magnitude : Option Nat :=
    if !f.isFinite then none
    else if 0 ≤ f.scale then some (f.significand <<< f.scale.toNat)
    else
      let unit := 1 <<< (-f.scale).toNat
      if f.significand % unit = 0 then some (f.significand / unit) else none
  magnitude.map fun n => if f.isNegative then -n else n

def toInt64? (f : Binary64) : Option Int64 :=
  f.toInt?.bind fun i =>
    if -0x8000000000000000 ≤ i ∧ i < 0x8000000000000000 then some (Int64.ofInt i) else none

/-- The number that a pattern of 32 bits stands for. Every one has an exact 64-bit pattern; a NaN
keeps its sign and payload and becomes a quiet one. -/
def ofBinary32 (bits : UInt32) : Binary64 :=
  let negative := decide (1 <<< 31 ≤ bits.toNat)
  let exponent := (bits.toNat >>> 23) % 256
  let fraction := bits.toNat % (1 <<< 23)
  let rest :=
    if exponent = 255 then
      (2047 <<< 52) +
        (if fraction = 0 then 0 else ((fraction % (1 <<< 22)) <<< 29) + (1 <<< 51))
    else if exponent = 0 then
      if fraction = 0 then 0 else normalParts fraction (-149)
    else ((exponent + 896) <<< 52) + (fraction <<< 29)
  ofParts negative rest

end Binary64

end HubPack
