import BraceTemplate.Value.Number

/-! Equality and order of values, numeric where both sides read as numbers. -/
namespace BraceTemplate.Value

mutual

/-- Equality without conversions; the order of fields does not matter. -/
def same : Value → Value → Bool
  | .null, .null => true
  | .bool a, .bool b => a == b
  | .int a, .int b => a == b
  | .float a, .float b => a == b
  | .str a, .str b => a == b
  | .list xs, .list ys => sameItems xs ys
  | .dict fs, .dict gs => fs.length == gs.length && sameFields fs gs
  | _, _ => false

def sameItems : List Value → List Value → Bool
  | [], [] => true
  | x :: xs, y :: ys => same x y && sameItems xs ys
  | _, _ => false

/-- Whether every field of the first list has an equal one in the second. -/
def sameFields : List (String × Value) → List (String × Value) → Bool
  | [], _ => true
  | (k, v) :: fs, gs => (match Dict.find? gs k with
    | some w => same v w
    | none => false) && sameFields fs gs

end

/-- Loose equality. Two texts are compared as they stand; other scalars as numbers if both have a
numeric reading, else by their display text. -/
def equal (a b : Value) : Bool :=
  if a.isCollection || b.isCollection then same a b
  else match a, b with
    | .str s, .str t => s == t
    | a, b => match number? a, number? b with
      | some m, some n => m.toFloat == n.toFloat
      | _, _ => a.display == b.display

def floatOrder (x y : Float) : Option Ordering :=
  if x < y then some .lt else if x == y then some .eq else if y < x then some .gt else none

/-- A text that reads as a float, infinities and not-a-number included. -/
def isNumeral (s : String) : Bool :=
  let cs := Text.trim s.toList
  cs ≠ [] && (Decimal.float? cs).isSome

def numericOrder? (a b : Value) : Option (Option Ordering) :=
  let numeric := match a, b with
    | .str s, .str t => isNumeral s && isNumeral t
    | _, _ => true
  if numeric then
    match number? a, number? b with
    | some m, some n => some (floatOrder m.toFloat n.toFloat)
    | _, _ => none
  else none

/-- The order of two values. Texts are ordered as numbers only if both are numerals; collections
have no order. -/
def order (a b : Value) : Option Ordering :=
  match numericOrder? a b with
  | some o => o
  | none =>
    if a.isCollection || b.isCollection then none
    else some (compareOfLessAndEq a.display b.display)

end BraceTemplate.Value
