import BraceTemplate.Dict
import BraceTemplate.Decimal.Layout

/-! Template values, their display text and their compact exact text. -/
namespace BraceTemplate

inductive Value where
  | null
  | bool (b : Bool)
  | int (n : Int)
  | float (x : Float)
  | str (s : String)
  | list (items : List Value)
  | dict (fields : List (String × Value))
  deriving Repr, Inhabited

namespace Value

/-- Not-a-number and the infinities are no values. -/
def ofFloat (x : Float) : Value := if x.isFinite then .float x else .null

def isCollection : Value → Bool
  | .list _ | .dict _ => true
  | _ => false

def hexDigit (n : Nat) : Char := (Nat.toDigits 16 n).headD '0'

/-- Quotes, backslashes and control characters are escaped. -/
def quoteChar (c : Char) : List Char :=
  match c with
  | '"' => ['\\', '"']
  | '\\' => ['\\', '\\']
  | '\n' => ['\\', 'n']
  | '\r' => ['\\', 'r']
  | '\t' => ['\\', 't']
  | c =>
    if c.toNat = 8 then ['\\', 'b']
    else if c.toNat = 12 then ['\\', 'f']
    else if c.toNat < 0x20 then
      ['\\', 'u', '0', '0', hexDigit (c.toNat / 16), hexDigit (c.toNat % 16)]
    else [c]

def quote (s : String) : String := .ofList ('"' :: s.toList.flatMap quoteChar ++ ['"'])

/-- Commas between pieces. -/
def joined (pieces : List String) : String := ",".intercalate pieces

mutual

/-- The compact text of a value, from which it can be read again. -/
def text : Value → String
  | .null => "null"
  | .bool true => "true"
  | .bool false => "false"
  | .int n => toString n
  | .float x => Decimal.exact.write x
  | .str s => quote s
  | .list items => "[" ++ joined (itemTexts items) ++ "]"
  | .dict fields => "\x7b" ++ joined (fieldTexts fields) ++ "\x7d"

def itemTexts : List Value → List String
  | [] => []
  | v :: vs => text v :: itemTexts vs

def fieldTexts : List (String × Value) → List String
  | [] => []
  | (k, v) :: fs => (quote k ++ ":" ++ text v) :: fieldTexts fs

end

/-- The text that stands for a value in rendered output. -/
def display : Value → String
  | .null => ""
  | .bool true => "1"
  | .bool false => ""
  | .int n => toString n
  | .float x => Decimal.plain.write x
  | .str s => s
  | v => text v

def isTruthy : Value → Bool
  | .null => false
  | .bool b => b
  | .int n => n != 0
  | .float x => x != 0.0
  | .str s => !(s == "" || s == "0")
  | .list items => !items.isEmpty
  | .dict fields => !fields.isEmpty

end Value
end BraceTemplate
