import BraceTemplate.Value.Json
import BraceTemplate.Yaml.Node

/-! What scalars stand for: null, booleans, integers, floats and otherwise their own text. -/
namespace BraceTemplate.Yaml

def isNull (s : String) : Bool := ["null", "Null", "NULL", "~"].contains s

def boolean? (s : String) : Option Bool :=
  if ["true", "True", "TRUE"].contains s then some true
  else if ["false", "False", "FALSE"].contains s then some false
  else none

/-- The value of a digit. -/
def digit? (base : Nat) (c : Char) : Option Nat := (Value.Json.hexDigit? c).filter (· < base)

def natural? (base : Nat) (cs : List Char) : Option Nat :=
  if cs = [] then none
  else (cs.mapM (digit? base)).map fun ds => ds.foldl (fun n d => base * n + d) 0

/-- The base that a text names with its first two characters. -/
def base? : List Char → Option (Nat × List Char)
  | '0' :: 'x' :: cs => some (16, cs)
  | '0' :: 'o' :: cs => some (8, cs)
  | '0' :: 'b' :: cs => some (2, cs)
  | _ => none

/-- Several digits of which the first is zero are a text. -/
def isPadded (digits : List Char) : Bool :=
  digits.head? == some '0' && 1 < digits.length && digits.all Char.isDigit

/-- An integer without its sign. -/
def magnitude? (cs : List Char) : Option Nat :=
  match base? cs with
  | some (base, digits) => natural? base digits
  | none => if isPadded cs then none else natural? 10 cs

/-- An integer that may have a plus sign. -/
def unsigned? : List Char → Option Nat
  | '+' :: cs => magnitude? cs
  | cs => magnitude? cs

/-- An integer with at most one sign. -/
def integer? : List Char → Option Int
  | '-' :: cs => (magnitude? cs).map fun n => -(n : Int)
  | cs => (unsigned? cs).map fun n => (n : Int)

/-- A finite float, or one of the names of the others, which have no value. -/
def float? (s : String) : Option Value :=
  let cs := s.toList
  let unsigned := match cs with
    | '+' :: ds => ds
    | ds => ds
  if unsigned ≠ cs ∧ (unsigned.head? = some '+' ∨ unsigned.head? = some '-') then none
  else if [".inf", ".Inf", ".INF"].contains (String.ofList unsigned) ∨
      ["-.inf", "-.Inf", "-.INF", ".nan", ".NaN", ".NAN"].contains s then some .null
  else ((Decimal.float? unsigned).filter Float.isFinite).map .float

/-- Integers of up to 64 bits are exact, those of up to 128 bits have no value, and further ones are
floats. -/
inductive Size where
  | word
  | doubleWord
  | larger
  deriving DecidableEq, Repr

def sizeOf (n : Int) : Size :=
  if Decimal.minInt64 ≤ n ∧ n ≤ Decimal.maxNat64 then .word
  else if -(1 <<< 127 : Nat) ≤ n ∧ n < (1 <<< 128 : Nat) then .doubleWord
  else .larger

/-- The value of a scalar without a tag. -/
def plainValue? (s : String) : Option Value :=
  if s = "" ∨ isNull s then some .null
  else match boolean? s with
    | some b => some (.bool b)
    | none =>
      let fallback := if isPadded (Decimal.sign s.toList).2 then none else float? s
      match (integer? s.toList).map fun n => (n, sizeOf n) with
      | some (n, .word) => some (.int n)
      | some (_, .doubleWord) => none
      | _ => some (fallback.getD (.str s))

/-- The tag of a core type. -/
def coreTag (name : String) : String := "tag:yaml.org,2002:" ++ name

/-- A tag that starts with `!` belongs to an application. -/
def isLocal (tag : Option String) : Bool := (tag.map fun t => t.toList.head? == some '!').getD false

/-- The value of a scalar. A tag of a core type asks for a scalar of that type, and other tags for
text. -/
def scalarValue? (style : Style) (tag : Option String) (s : String) : Option Value :=
  match tag with
  | none => if style = .plain then plainValue? s else some (.str s)
  | some t =>
    if isLocal tag then none
    else if t = coreTag "bool" then (boolean? s).map .bool
    else if t = coreTag "int" then
      ((integer? s.toList).filter fun n => sizeOf n = .word).map .int
    else if t = coreTag "float" then float? s
    else if t = coreTag "null" then if isNull s then some .null else none
    else some (.str s)

end BraceTemplate.Yaml
