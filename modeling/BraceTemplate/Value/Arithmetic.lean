import BraceTemplate.Value.Access
import BraceTemplate.Decimal.Binary64

/-! Arithmetic on values: exact on 64-bit integers as far as it fits, on floats otherwise. -/
namespace BraceTemplate

inductive ArithmeticOp where
  | add | sub | mul | div | rem
  deriving DecidableEq, Repr

namespace Number

/-- The exact integer, if it is a signed 64-bit one. -/
def checked (n : Int) : Option Int := if Decimal.fits n then some n else none

/-- The exact result on integers. A quotient is exact only if nothing remains; a remainder has the
sign of the dividend. -/
def exactInt (op : ArithmeticOp) (l r : Int) : Option Int :=
  match op with
  | .add => checked (l + r)
  | .sub => checked (l - r)
  | .mul => checked (l * r)
  | .div => if l.tmod r = 0 then checked (l.tdiv r) else none
  | .rem => if Decimal.fits (l.tdiv r) then checked (l.tmod r) else none

def floatResult (op : ArithmeticOp) (l r : Float) : Except RenderFault Value :=
  match op with
  | .add => .ok (.ofFloat (l + r))
  | .sub => .ok (.ofFloat (l - r))
  | .mul => .ok (.ofFloat (l * r))
  | .div => if r == 0.0 then .error .divisionByZero else .ok (.ofFloat (l / r))
  | .rem => if r == 0.0 then .error .divisionByZero else .ok (.ofFloat (Decimal.remainder l r))

def apply (op : ArithmeticOp) (l r : Number) : Except RenderFault Value :=
  match op, l, r with
  | .div, .int _, .int 0 => .error .divisionByZero
  | .rem, .int _, .int 0 => .error .moduloByZero
  | op, .int m, .int n =>
    match exactInt op m n with
    | some k => .ok (.int k)
    | none => floatResult op (Float.ofInt m) (Float.ofInt n)
  | op, l, r => floatResult op l.toFloat r.toFloat

/-- The least integer has no negation. -/
def negate : Number → Value
  | .int n => if Decimal.fits (-n) then .int (-n) else .null
  | .float x => .ofFloat (-x)

/-- The least integer has no absolute value. -/
def absolute : Number → Value
  | .int n => if Decimal.fits n.natAbs then .int n.natAbs else .null
  | .float x => .ofFloat x.abs

end Number

namespace Value

def numberOrFault (v : Value) : Except RenderFault Number :=
  match v.number? with
  | some n => .ok n
  | none => .error (.notANumber v.text)

def arithmetic (op : ArithmeticOp) (l r : Value) : Except RenderFault Value := do
  let l ← numberOrFault l
  let r ← numberOrFault r
  Number.apply op l r

def negate (v : Value) : Except RenderFault Value := do
  return (← numberOrFault v).negate

end Value
end BraceTemplate
