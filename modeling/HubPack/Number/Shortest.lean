import HubPack.Number.Binary64

/-!
Decimal text of binary floating-point numbers: the fewest digits that read back as the same
number, of those the nearest, and of two equally near ones the greater magnitude. The point stands
where it belongs, and no exponent is written.
-/
namespace HubPack.Shortest

/-- The magnitudes that round to a number: those from `low / den` to `high / den`, around
`value / den`, the ends included if `closed`. -/
structure Range where
  low : Nat
  value : Nat
  high : Nat
  den : Nat
  closed : Bool

/-- The lower half of the range is narrower where the exponent changes. -/
def range (f : Binary64) : Range :=
  let m := f.significand
  let low := if f.fraction = 0 ∧ 1 < f.exponentField then 4 * m - 1 else 4 * m - 2
  let up := 1 <<< (f.scale - 2).toNat
  { low := low * up
    value := 4 * m * up
    high := (4 * m + 2) * up
    den := 1 <<< (2 - f.scale).toNat
    closed := m % 2 == 0 }

def Range.onGrid (r : Range) (k : Int) : Option Nat :=
  let unit := r.den * Nat.pow 10 k.toNat
  let stretch := Nat.pow 10 (-k).toNat
  let value := r.value * stretch
  let inside (d : Nat) : Bool :=
    if r.closed then r.low * stretch ≤ d * unit && d * unit ≤ r.high * stretch
    else r.low * stretch < d * unit && d * unit < r.high * stretch
  let d := value / unit
  let down := inside d
  let up := inside (d + 1)
  if up && (!down || unit ≤ 2 * (value % unit)) then some (d + 1)
  else if down then some d
  else none

/-- The hit on the coarsest grid from `10 ^ (n - 324)` down, with its exponent. On the finest grid
each range has a multiple. -/
def Range.coarsest (r : Range) : Nat → Nat × Int
  | 0 => ((r.onGrid (-324)).getD 0, -324)
  | n + 1 =>
    match r.onGrid (n + 1 - 324) with
    | some d => (d, n + 1 - 324)
    | none => r.coarsest n

def positional (d : Nat) (k : Int) : String :=
  if 0 ≤ k then toString (d * Nat.pow 10 k.toNat)
  else
    let places := (-k).toNat
    let whole := toString (d / Nat.pow 10 places)
    let rest := toString (d % Nat.pow 10 places)
    whole ++ "." ++ "".pushn '0' (places - rest.length) ++ rest

def magnitudeText (f : Binary64) : String :=
  let r := range f
  let (d, k) := r.coarsest (324 + (r.high / r.den).log2 / 3 + 1)
  positional d k

def text (f : Binary64) : String :=
  if f.isNaN then "NaN"
  else
    let magnitude :=
      if !f.isFinite then "inf" else if f.isZero then "0" else magnitudeText f
    if f.isNegative then "-" ++ magnitude else magnitude

end HubPack.Shortest
