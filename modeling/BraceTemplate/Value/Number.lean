import BraceTemplate.Value.Basic
import BraceTemplate.Decimal.Reading
import BraceTemplate.Text.Blank

/-! The numeric reading of a value. -/
namespace BraceTemplate

inductive Number where
  | int (n : Int)
  | float (x : Float)
  deriving Repr

namespace Number

def toFloat : Number → Float
  | .int n => Float.ofInt n
  | .float x => x

/-- The whole part, clamped to the signed 64-bit integers. -/
def truncate : Number → Int
  | .int n => n
  | .float x => Decimal.truncate x

end Number

namespace Value

def readNumber (s : String) : Option Number :=
  let cs := Text.trim s.toList
  if cs = [] then some (.int 0)
  else match Decimal.int64? cs with
    | some n => some (.int n)
    | none => ((Decimal.float? cs).filter Float.isFinite).map .float

/-- Absent values, booleans and blank texts read as integers. An integer beyond the signed 64-bit
range computes as a float. -/
def number? : Value → Option Number
  | .null => some (.int 0)
  | .bool b => some (.int b.toInt)
  | .int n => some (if n ≤ Decimal.maxInt64 then .int n else .float (Float.ofInt n))
  | .float x => some (.float x)
  | .str s => readNumber s
  | .list _ | .dict _ => none

end Value
end BraceTemplate
