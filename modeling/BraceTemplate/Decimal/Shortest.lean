import BraceTemplate.Decimal.Binary64

/-!
The shortest decimal of a float: the fewest digits that read back as the float, and of those the
decimal nearest to it. Numbers are compared as integers over a common denominator.
-/
namespace BraceTemplate.Decimal

/-- The positive number `digits * 10 ^ exponent`. -/
structure Digits where
  digits : Nat
  exponent : Int
  deriving DecidableEq, Repr

/-- A number with the ends of the interval of numbers that round to it, all over one denominator;
the ends belong to the interval if `closed`. -/
structure Rounding where
  low : Nat
  value : Nat
  high : Nat
  denominator : Nat
  closed : Bool

namespace Rounding

/-- Halfway to the neighbours on both sides; below a power of two the neighbour is half as far. -/
def ofScaled (s : Scaled) : Rounding :=
  let up := s.exponent.toNat
  let narrow := s.mantissa = Scaled.leadingBit ∧ -1074 < s.exponent
  { low := (4 * s.mantissa - if narrow then 1 else 2) <<< up
    value := (4 * s.mantissa) <<< up
    high := (4 * s.mantissa + 2) <<< up
    denominator := 4 <<< (-s.exponent).toNat
    closed := s.mantissa % 2 = 0 }

/-- The same interval over the grid `10 ^ exponent`: a grid point `d` is `d * denominator`. -/
def onGrid (r : Rounding) (exponent : Int) : Rounding :=
  let scale := Nat.pow 10 (-exponent).toNat
  { r with
    low := r.low * scale
    value := r.value * scale
    high := r.high * scale
    denominator := r.denominator * Nat.pow 10 exponent.toNat }

def holds (r : Rounding) (d : Nat) : Bool :=
  let point := d * r.denominator
  if r.closed then r.low ≤ point && point ≤ r.high else r.low < point && point < r.high

/-- The grid point in the interval that is nearest to the value. -/
def nearest? (r : Rounding) : Option Nat :=
  let below := r.value / r.denominator
  let nearBelow := 2 * r.value ≤ (2 * below + 1) * r.denominator
  match r.holds below, r.holds (below + 1) with
  | true, true => some (if nearBelow then below else below + 1)
  | true, false => some below
  | false, true => some (below + 1)
  | false, false => none

/-- The power of ten of the first digit. -/
def magnitude (r : Rounding) : Int :=
  let guess : Int := (Nat.toDigits 10 r.value).length - (Nat.toDigits 10 r.denominator).length
  let up := Nat.pow 10 guess.toNat
  let down := Nat.pow 10 (-guess).toNat
  if r.denominator * up ≤ r.value * down then guess else guess - 1

end Rounding

/-- Drops zeros at the end; `fuel` bounds their number. -/
def stripZeros : Nat → Digits → Digits
  | 0, d => d
  | fuel + 1, d =>
    if d.digits % 10 = 0 then stripZeros fuel ⟨d.digits / 10, d.exponent + 1⟩ else d

/-- Seventeen digits always suffice. -/
def shortest (s : Scaled) : Digits :=
  let r := Rounding.ofScaled s
  let top := r.magnitude
  let found := (List.range 17).findSome? fun (n : Nat) =>
    ((r.onGrid (top - n)).nearest?).map fun d => stripZeros 17 ⟨d, top - n⟩
  found.getD ⟨0, 0⟩

end BraceTemplate.Decimal
