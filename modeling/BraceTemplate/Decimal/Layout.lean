import BraceTemplate.Decimal.Shortest

/-! How the shortest digits of a float are laid out as text. -/
namespace BraceTemplate.Decimal

/-- A layout says which powers of ten of the first digit are written without an exponent, and
whether a whole number still shows a fraction. -/
structure Layout where
  positional : Int → Bool
  wholeFraction : Bool

namespace Layout

def zeros (n : Nat) : List Char := List.replicate n '0'

/-- Digits around a decimal point, the first digit counting `10 ^ top`. -/
def point (l : Layout) (digits : List Char) (top : Int) : List Char :=
  if top < 0 then '0' :: '.' :: zeros (-top - 1).toNat ++ digits
  else
    let whole := top.toNat + 1
    if digits.length ≤ whole then
      digits ++ zeros (whole - digits.length) ++ if l.wholeFraction then ['.', '0'] else []
    else digits.take whole ++ '.' :: digits.drop whole

/-- One digit before the point, and a signed power of ten. -/
def scientific (digits : List Char) (top : Int) : List Char :=
  let fraction := match digits.drop 1 with
    | [] => []
    | ds => '.' :: ds
  let sign := if top < 0 then '-' else '+'
  digits.take 1 ++ fraction ++ 'e' :: sign :: Nat.toDigits 10 top.natAbs

def magnitude (l : Layout) (s : Scaled) : List Char :=
  if s.mantissa = 0 then l.point ['0'] 0
  else
    let d := shortest s
    let digits := Nat.toDigits 10 d.digits
    let top := d.exponent + digits.length - 1
    if l.positional top then l.point digits top else scientific digits top

/-- The text of a finite float. -/
def write (l : Layout) (x : Float) : String :=
  let s := Scaled.ofFloat x
  .ofList (if s.negative then '-' :: l.magnitude s else l.magnitude s)

end Layout

/-- Every number is written out, and a whole one has no fraction. -/
def plain : Layout := ⟨fun _ => true, false⟩

/-- Numbers from `0.00001` up to below `10 ^ 16` are written out, always with a fraction. -/
def exact : Layout := ⟨fun top => -5 ≤ top && top < 16, true⟩

end BraceTemplate.Decimal
