import BraceTemplate.Decimal.Numeral

/-! Reading floats: a signed decimal with an optional exponent, or the name of a special value. -/
namespace BraceTemplate.Decimal

/-- The nearest float to `digits * 10 ^ exponent`. Powers of ten far beyond the range of floats are
not computed. -/
def nearestFloat (digits : Nat) (exponent : Int) : Float :=
  let top := exponent + (Nat.toDigits 10 digits).length
  if digits = 0 ∨ top < -400 then 0.0
  else if 400 < top then 1.0 / 0.0
  else Float.ofScientific digits (exponent < 0) exponent.natAbs

def signed (negative : Bool) (x : Float) : Float := if negative then -x else x

/-- Cuts a sign off. -/
def sign : List Char → Bool × List Char
  | '-' :: cs => (true, cs)
  | '+' :: cs => (false, cs)
  | cs => (false, cs)

/-- The number after `e` or `E`, with an optional sign; nothing at all stands for zero. -/
def exponent? : List Char → Option Int
  | [] => some 0
  | e :: cs => if e = 'e' ∨ e = 'E' then integer? cs else none

/-- An unsigned decimal with digits before or after the point. -/
def decimal? (cs : List Char) : Option Float :=
  let whole := cs.takeWhile Char.isDigit
  let rest := cs.dropWhile Char.isDigit
  let (fraction, rest) := match rest with
    | '.' :: ds => (ds.takeWhile Char.isDigit, ds.dropWhile Char.isDigit)
    | _ => ([], rest)
  if whole = [] ∧ fraction = [] then none
  else (exponent? rest).map fun e =>
    nearestFloat (Nat.ofDigitChars 10 (whole ++ fraction) 0) (e - fraction.length)

/-- The names of the special values, in any mixture of cases. -/
def special? (cs : List Char) : Option Float :=
  let name := String.ofList (cs.map Char.toLower)
  if name = "inf" ∨ name = "infinity" then some (1.0 / 0.0)
  else if name = "nan" then some (0.0 / 0.0)
  else none

def float? (cs : List Char) : Option Float :=
  let (negative, cs) := sign cs
  ((decimal? cs).or (special? cs)).map (signed negative)

end BraceTemplate.Decimal
