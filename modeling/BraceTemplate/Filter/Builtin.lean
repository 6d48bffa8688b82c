import BraceTemplate.Text.WordCase
import BraceTemplate.Value.Arithmetic

/-! The filters that every filter table starts with. -/
namespace BraceTemplate.Filter

/-- Works on the display text of a value. -/
def onText (f : List Char → List Char) (v : Value) : Value :=
  .str (.ofList (f v.display.toList))

def length : Value → Value
  | .null => .int 0
  | .list items => .int items.length
  | .dict fields => .int fields.length
  | v => .int v.display.length

/-- Makes text safe inside HTML elements and attributes. -/
def escapeChar : Char → List Char
  | '&' => "&amp;".toList
  | '<' => "&lt;".toList
  | '>' => "&gt;".toList
  | '"' => "&quot;".toList
  | '\'' => "&#039;".toList
  | c => [c]

def breakLine (c : Char) : List Char := if c = '\n' then "<br />\n".toList else [c]

def reverse : Value → Value
  | .list items => .list items.reverse
  | v => onText List.reverse v

def oneChar : Option Char → Value
  | some c => .str c.toString
  | none => .null

def first : Value → Value
  | .list items => items.headD .null
  | .dict fields => (fields.head?.map Prod.snd).getD .null
  | v => oneChar v.display.toList.head?

def last : Value → Value
  | .list items => items.getLastD .null
  | .dict fields => (fields.getLast?.map Prod.snd).getD .null
  | v => oneChar v.display.toList.getLast?

def keys : Value → Value
  | .dict fields => .list (fields.map fun e => .str e.1)
  | .list items => .list ((List.range items.length).map fun (i : Nat) => .int i)
  | _ => .list []

def abs (v : Value) : Except RenderFault Value :=
  match v.number? with
  | some n => .ok n.absolute
  | none => .error (.absOfNonNumber v.text)

/-- The whole part; what is no number counts as zero. -/
def int (v : Value) : Value := .int ((v.number?.map Number.truncate).getD 0)

/-- The filters that cannot fail, given how identifiers are spelled. -/
def total (speller : Text.Speller) : List (String × (Value → Value)) :=
  [("upper", onText Text.upper), ("lower", onText Text.lower),
   ("capitalize", onText Text.capitalize), ("title", onText Text.title),
   ("trim", onText Text.trim), ("length", length), ("count", length),
   ("escape", onText (·.flatMap escapeChar)), ("e", onText (·.flatMap escapeChar)),
   ("nl2br", onText (·.flatMap breakLine)), ("json", fun v => .str v.text),
   ("reverse", reverse), ("first", first), ("last", last), ("keys", keys), ("int", int),
   ("snake_case", onText speller.snake), ("camel_case", onText speller.camel),
   ("pascal_case", onText speller.pascal), ("kebab_case", onText speller.kebab)]

end BraceTemplate.Filter
