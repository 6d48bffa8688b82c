import BraceTemplate.Text.Blank

/-! Braces, brackets and quotes in the text of variables: where they close and where to cut. -/
namespace BraceTemplate.Delimiter

def opens (c : Char) : Bool := c == '\x7b' || c == '(' || c == '['
def closes (c : Char) : Bool := c == '\x7d' || c == ')' || c == ']'
def isQuote (c : Char) : Bool := c == '"' || c == '\''

/-- Whether a scan stands inside of brackets, and inside of quotes there. -/
structure Nesting where
  depth : Nat
  quote : Option Char
  escaped : Bool
  deriving DecidableEq, Repr

namespace Nesting

def top : Nesting := ⟨0, none, false⟩

/-- The nesting behind a character. Quotes count only inside of brackets, and a stray closing
bracket changes nothing. -/
def after (n : Nesting) (c : Char) : Nesting :=
  match n.quote with
  | some q =>
    if n.escaped then { n with escaped := false }
    else if c = '\\' then { n with escaped := true }
    else if c = q then { n with quote := none }
    else n
  | none =>
    if isQuote c && 0 < n.depth then { n with quote := some c }
    else if opens c then { n with depth := n.depth + 1 }
    else if closes c then { n with depth := n.depth - 1 }
    else n

/-- Whether text is cut at a character: at a separator outside of all brackets. -/
def cutsAt (n : Nesting) (sep c : Char) : Bool := n.quote = none && n.depth = 0 && c = sep

end Nesting

/-- Splits a rest of text at the separators outside of brackets. -/
def splitFrom (sep : Char) : Nesting → List Char → List (List Char)
  | _, [] => [[]]
  | n, c :: cs =>
    if n.cutsAt sep c then [] :: splitFrom sep n cs
    else match splitFrom sep (n.after c) cs with
      | [] => [[c]]
      | piece :: pieces => (c :: piece) :: pieces

def splitTop (sep : Char) (cs : List Char) : List (List Char) := splitFrom sep .top cs

/-- Cuts behind the brace that closes the last open one of `depth`. -/
def closeBrace? : Nat → List Char → Option (List Char × List Char)
  | _, [] => none
  | depth, c :: cs =>
    let depth' := if c = '\x7b' then depth + 1 else if c = '\x7d' then depth - 1 else depth
    if c = '\x7d' ∧ depth' = 0 then some ([c], cs)
    else (closeBrace? depth' cs).map fun r => (c :: r.1, r.2)

/-- Whether the first brace of a text closes at its end. -/
def wrapped (cs : List Char) : Bool :=
  match closeBrace? 0 cs with
  | some (_, rest) => rest = []
  | none => false

/-- Takes the braces of a variable node off, and the blanks inside of them. -/
def unwrap (cs : List Char) : List Char :=
  match (Text.dropLead? ['\x7b'] cs).bind (Text.dropTail? ['\x7d']) with
  | some inner =>
    if (Text.trimStart inner).head? = some '$' && wrapped cs then Text.trim inner else cs
  | none => cs

end BraceTemplate.Delimiter
