/-! The characters of a YAML text with their places. -/
namespace BraceTemplate.Yaml

/-- A character and where it stands; lines and columns count from zero. -/
structure Glyph where
  char : Char
  index : Nat
  line : Nat
  column : Nat
  deriving DecidableEq, Repr

/-- A text holds no control characters but tabs and line breaks. -/
def isAllowed (c : Char) : Bool :=
  let n := c.toNat
  n == 9 || n == 0xA || n == 0xD || (0x20 ≤ n && n ≤ 0x7E) || n == 0x85 ||
    (0xA0 ≤ n && n ≤ 0xFFFD) || 0x10000 ≤ n

/-- The line breaks that stand for themselves. -/
def isSeparator (c : Char) : Bool := c == '\u2028' || c == '\u2029'

def isBreak (c : Char) : Bool := c == '\n' || isSeparator c

def isSpace (c : Char) : Bool := c == ' ' || c == '\t'

/-- The places of characters, with one line feed for each way to end a line but the separators. -/
def glyphsFrom (index line column : Nat) : List Char → List Glyph
  | [] => []
  | '\r' :: '\n' :: cs => ⟨'\n', index, line, column⟩ :: glyphsFrom (index + 2) (line + 1) 0 cs
  | c :: cs =>
    if c = '\n' ∨ c = '\r' ∨ c = '\u0085' then
      ⟨'\n', index, line, column⟩ :: glyphsFrom (index + 1) (line + 1) 0 cs
    else if isSeparator c then
      ⟨c, index, line, column⟩ :: glyphsFrom (index + 1) (line + 1) 0 cs
    else ⟨c, index, line, column⟩ :: glyphsFrom (index + 1) line (column + 1) cs

def glyphs? (cs : List Char) : Option (List Glyph) :=
  if cs.all isAllowed then some (glyphsFrom 0 0 0 cs) else none

namespace Glyph

def isBreak (g : Glyph) : Bool := Yaml.isBreak g.char
def isSpace (g : Glyph) : Bool := Yaml.isSpace g.char
def isGap (g : Glyph) : Bool := g.isBreak || g.isSpace

end Glyph

def chars (gs : List Glyph) : List Char := gs.map Glyph.char

/-- Whether the first character is one of some. -/
def startsIn (gs : List Glyph) (set : List Char) : Bool :=
  (gs.head?.map fun g => set.contains g.char).getD false

/-- Whether a text is over or goes on with a blank or a line break. -/
def atGap (gs : List Glyph) : Bool := (gs.head?.map Glyph.isGap).getD true

def atBreak (gs : List Glyph) : Bool := (gs.head?.map Glyph.isBreak).getD true

/-- A line that opens with `---` or `...` and a gap divides documents. -/
def atDivider (gs : List Glyph) : Bool :=
  (gs.head?.map fun g => decide (g.column = 0)).getD false && atGap (gs.drop 3) &&
    (chars (gs.take 3) == ['-', '-', '-'] || chars (gs.take 3) == ['.', '.', '.'])

def dropSpace (gs : List Glyph) : List Glyph := gs.dropWhile Glyph.isSpace

/-- What follows the blanks and the comment that end a line. -/
def endOfLine? (gs : List Glyph) : Option (List Glyph) :=
  let gs := dropSpace gs
  let gs := if startsIn gs ['#'] then gs.dropWhile fun g => !g.isBreak else gs
  if atBreak gs then some (gs.drop 1) else none

end BraceTemplate.Yaml
