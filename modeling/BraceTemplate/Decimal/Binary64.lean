import BraceTemplate.Decimal.Numeral

/-!
Finite 64-bit floats as integers scaled by a power of two, and the operations on them that are exact
on that form: whole part and remainder.
-/
namespace BraceTemplate.Decimal

/-- The number `mantissa * 2 ^ exponent`, negated if `negative`; zero has both signs. -/
structure Scaled where
  negative : Bool
  mantissa : Nat
  exponent : Int
  deriving DecidableEq, Repr

namespace Scaled

/-- The bit in front of the 52 bits of a fraction. -/
def leadingBit : Nat := 1 <<< 52

def signBit : Nat := 1 <<< 63

/-- Reads the fields of a finite float. -/
def ofFloat (x : Float) : Scaled :=
  let bits := x.toBits.toNat
  let field := bits / leadingBit % (1 <<< 11)
  let fraction := bits % leadingBit
  { negative := decide (signBit ≤ bits)
    mantissa := if field = 0 then fraction else leadingBit + fraction
    exponent := (max field 1 : Nat) - 1075 }

/-- The same number with a mantissa below `2 ^ 53`, as far as that is exact, and as large as the
smallest exponent allows. -/
def normal (s : Scaled) : Scaled :=
  let length := s.mantissa.log2
  if 52 < length then
    let shift := length - 52
    { s with mantissa := s.mantissa >>> shift, exponent := s.exponent + shift }
  else
    let shift := min (52 - length) (s.exponent + 1074).toNat
    { s with mantissa := s.mantissa <<< shift, exponent := s.exponent - shift }

/-- The float of an exactly representable number. -/
def toFloat (s : Scaled) : Float :=
  let n := s.normal
  let field := if n.mantissa < leadingBit then 0 else (n.exponent + 1075).toNat
  let sign := if n.negative then signBit else 0
  .ofBits (UInt64.ofNat (sign + field * leadingBit + n.mantissa % leadingBit))

/-- The integer between zero and the number that is nearest to the number. -/
def truncate (s : Scaled) : Int :=
  let size := s.mantissa <<< s.exponent.toNat >>> (-s.exponent).toNat
  if s.negative then -size else size

/-- The remainder of truncating division, with the sign of the dividend. -/
def rem (s t : Scaled) : Scaled :=
  let exponent := min s.exponent t.exponent
  let scale (u : Scaled) : Nat := u.mantissa <<< (u.exponent - exponent).toNat
  { negative := s.negative, mantissa := scale s % scale t, exponent := exponent }

end Scaled

/-- The whole part of a finite float, clamped to the signed 64-bit integers. -/
def truncate (x : Float) : Int := clamp (Scaled.ofFloat x).truncate

/-- The remainder of a finite float divided by a finite float other than zero. -/
def remainder (x y : Float) : Float := ((Scaled.ofFloat x).rem (Scaled.ofFloat y)).toFloat

end BraceTemplate.Decimal
