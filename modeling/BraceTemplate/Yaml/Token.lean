import BraceTemplate.Yaml.BlockScalar
import BraceTemplate.Yaml.FlowScalar
import BraceTemplate.Yaml.Node

/-! Tokens of a YAML text, and reading those that are one word: anchors, tags and directives. -/
namespace BraceTemplate.Yaml

inductive Token where
  | version (major minor : Nat)
  | tagHandle (handle expansion : List Char)
  | documentStart
  | documentEnd
  | beginSequence
  | beginMapping
  | dedent
  | openSequence
  | closeSequence
  | openMapping
  | closeMapping
  | item
  | comma
  | key
  | value
  | alias (name : List Char)
  | anchor (name : List Char)
  | tag (handle suffix : List Char)
  | scalar (style : Style) (text : List Char)
  deriving DecidableEq, Repr

namespace Token

/-- The characters of anchors and tag handles. -/
def isWordChar (c : Char) : Bool := c.isAlphanum || c == '_' || c == '-'

/-- A word and what follows it. -/
def word (gs : List Glyph) : List Char × List Glyph :=
  (chars (gs.takeWhile fun g => isWordChar g.char), gs.dropWhile fun g => isWordChar g.char)

/-- A name behind `&` or `*`. -/
def anchorName? (gs : List Glyph) : Option (List Char × List Glyph) :=
  let (name, rest) := word gs
  if name ≠ [] ∧ (atGap rest ∨ startsIn rest ['?', ':', ',', ']', '}', '%', '@', '\x60']) then
    some (name, rest)
  else none

def isTagChar (verbatim : Bool) (c : Char) : Bool :=
  isWordChar c || [';', '/', '?', ':', '@', '&', '=', '+', '$', '.', '%', '!', '~', '*', '\'', '(',
    ')'].contains c || (verbatim && [',', '[', ']'].contains c)

/-- The length of the encoding that an octet starts, and the bits of the code point in it. -/
def leadingOctet? (n : Nat) : Option (Nat × Nat) :=
  if n < 0x80 then some (1, n)
  else if n / 0x20 = 6 then some (2, n % 0x20)
  else if n / 0x10 = 14 then some (3, n % 0x10)
  else if n / 8 = 30 then some (4, n % 8)
  else none

/-- An octet written as `%` and two digits. -/
def octet? : List Glyph → Option (Nat × List Glyph)
  | g :: gs => if g.char = '%' then hexNumber? 2 gs else none
  | [] => none

/-- Further octets of an encoding. -/
def octets? : Nat → Nat → List Glyph → Option (Nat × List Glyph)
  | 0, point, gs => some (point, gs)
  | more + 1, point, gs => do
    let (n, gs) ← octet? gs
    if n / 0x40 = 2 then octets? more (0x40 * point + n % 0x40) gs else none

def escapedChar? (gs : List Glyph) : Option (Char × List Glyph) := do
  let (n, gs) ← octet? gs
  let (width, bits) ← leadingOctet? n
  let (point, gs) ← octets? (width - 1) bits gs
  return (Char.ofNat point, gs)

/-- The characters of a tag, escapes resolved. -/
def tagText? (verbatim : Bool) : Nat → List Glyph → Option (List Char × List Glyph)
  | 0, _ => none
  | _ + 1, [] => some ([], [])
  | fuel + 1, g :: gs =>
    if isTagChar verbatim g.char then do
      let (c, rest) ← if g.char = '%' then escapedChar? (g :: gs) else some (g.char, gs)
      let (more, rest) ← tagText? verbatim fuel rest
      return (c :: more, rest)
    else some ([], g :: gs)

/-- A tag text that is not empty. -/
def someTagText? (verbatim : Bool) (gs : List Glyph) : Option (List Char × List Glyph) :=
  (tagText? verbatim (gs.length + 1) gs).filter fun r => r.1 ≠ []

/-- A tag: verbatim in angle brackets, or a suffix behind `!`, `!!` or `!handle!`. -/
def tagParts? : List Glyph → Option (Token × List Glyph)
  | [] => none
  | _ :: gs =>
    if startsIn gs ['<'] then do
      let (text, rest) ← someTagText? true (gs.drop 1)
      if startsIn rest ['>'] then return (tag [] text, rest.drop 1) else none
    else
      let (name, rest) := word gs
      if startsIn rest ['!'] then do
        let (suffix, rest) ← someTagText? false (rest.drop 1)
        return (tag ('!' :: name ++ ['!']) suffix, rest)
      else do
        let (more, rest) ← tagText? false (rest.length + 1) rest
        if name ++ more = [] then return (tag [] ['!'], rest)
        else return (tag ['!'] (name ++ more), rest)

/-- A tag ends before a gap, in a flow collection also before a comma. -/
def tag? (inFlow : Bool) (gs : List Glyph) : Option (Token × List Glyph) :=
  (tagParts? gs).filter fun r => atGap r.2 || (inFlow && startsIn r.2 [','])

/-- A number of nine digits at most. -/
def shortNumber? (gs : List Glyph) : Option (Nat × List Glyph) :=
  let digits := gs.takeWhile fun g => g.char.isDigit
  if digits.length ≤ 9 then
    (Decimal.natural? (chars digits)).map fun n => (n, gs.drop digits.length)
  else none

def version? (gs : List Glyph) : Option (Token × List Glyph) := do
  let (major, rest) ← shortNumber? (dropSpace gs)
  if startsIn rest ['.'] then
    let (minor, rest) ← shortNumber? (rest.drop 1)
    return (version major minor, rest)
  else none

/-- A handle and the text that it stands for. -/
def tagHandle? (gs : List Glyph) : Option (Token × List Glyph) := do
  let gs := dropSpace gs
  if !startsIn gs ['!'] then none
  let (name, rest) := word (gs.drop 1)
  let (handle, rest) ←
    if startsIn rest ['!'] then some ('!' :: name ++ ['!'], rest.drop 1)
    else if name = [] then some (['!'], rest)
    else none
  if !(rest.head?.map Glyph.isSpace).getD false then none
  let (expansion, rest) ← someTagText? true (dropSpace rest)
  if atGap rest then return (tagHandle handle expansion, rest) else none

/-- A directive behind its percent sign, with the rest of its line. -/
def directive? (gs : List Glyph) : Option (Token × List Glyph) := do
  let (name, rest) := word gs
  if !atGap rest then none
  let (token, rest) ←
    if name = ['Y', 'A', 'M', 'L'] then version? rest
    else if name = ['T', 'A', 'G'] then tagHandle? rest
    else none
  return (token, ← endOfLine? rest)

end Token
end BraceTemplate.Yaml
