import BraceTemplate.Value.Json
import BraceTemplate.Yaml.Glyph

/-!
Plain and quoted scalars. Where a line ends inside one, the blanks around the break are dropped and
the break becomes a space; of several breaks in a row the first is dropped.
-/
namespace BraceTemplate.Yaml

/-- What the breaks of a gap stand for. -/
def foldBreaks : List Char → List Char
  | [] => []
  | '\n' :: [] => [' ']
  | '\n' :: breaks => breaks
  | breaks => breaks

/-- What the gap between two words stands for. -/
def gapText (gap : List Glyph) : List Char :=
  match gap.filter Glyph.isBreak with
  | [] => chars gap
  | breaks => foldBreaks (chars breaks)

def flowIndicators : List Char := [',', '[', ']', '{', '}']

/-- A word of a plain scalar. In a flow collection no indicator may follow a colon. -/
def plainWord? (inFlow : Bool) : List Glyph → Option (List Char × List Glyph)
  | [] => some ([], [])
  | g :: gs =>
    if g.isGap then some ([], g :: gs)
    else if g.char = ':' ∧ inFlow ∧ startsIn gs ('?' :: flowIndicators) then none
    else if (g.char = ':' ∧ atGap gs) ∨ (inFlow ∧ flowIndicators.contains g.char) then
      some ([], g :: gs)
    else (plainWord? inFlow gs).map fun r => (g.char :: r.1, r.2)

/-- Whether a tab stands in the indentation of a line. -/
def tabIndents (floor : Int) (gap : List Glyph) : Bool :=
  (gap.dropWhile fun g => !g.isBreak).any fun g => g.char = '\t' && g.column < floor

/-- A scalar and what follows it. -/
structure Plain where
  text : List Char
  /-- Whether the line of the last word has ended. -/
  lineEnded : Bool
  rest : List Glyph

/-- A plain scalar. Outside flow collections its lines are indented by `floor` at least. -/
def plain? (inFlow : Bool) (floor : Int) : Nat → List Glyph → Option Plain
  | 0, _ => none
  | fuel + 1, gs =>
    if atDivider gs ∨ startsIn gs ['#'] then some ⟨[], false, gs⟩
    else do
      let (word, rest) ← plainWord? inFlow gs
      let gap := rest.takeWhile Glyph.isGap
      let rest := rest.dropWhile Glyph.isGap
      if tabIndents floor gap then none
      let last : Plain := ⟨word, gap.any Glyph.isBreak, rest⟩
      match gap, rest with
      | [], _ | _, [] => return last
      | _, g :: _ =>
        if !inFlow ∧ g.column < floor then return last
        else
          let more ← plain? inFlow floor fuel rest
          if more.text = [] then return { last with rest := more.rest }
          else return { more with text := word ++ gapText gap ++ more.text }

/-- The number of a row of hexadecimal digits, with what follows it. -/
def hexNumber? (digits : Nat) (gs : List Glyph) : Option (Nat × List Glyph) :=
  if gs.length < digits then none
  else do
    let ds ← (chars (gs.take digits)).mapM Value.Json.hexDigit?
    return (ds.foldl (fun n d => 16 * n + d) 0, gs.drop digits)

def codePoint? (digits : Nat) (gs : List Glyph) : Option (Char × List Glyph) := do
  let (n, rest) ← hexNumber? digits gs
  if n.isValidChar then return (Char.ofNat n, rest) else none

/-- The characters behind a backslash that stand for one character. -/
def shortEscapes : List (Char × Nat) :=
  [('0', 0), ('a', 7), ('b', 8), ('t', 9), ('\t', 9), ('n', 0xA), ('v', 0xB), ('f', 0xC),
    ('r', 0xD), ('e', 0x1B), (' ', 0x20), ('"', 0x22), ('/', 0x2F), ('\\', 0x5C), ('N', 0x85),
    ('_', 0xA0), ('L', 0x2028), ('P', 0x2029)]

def escape? : List Glyph → Option (Char × List Glyph)
  | [] => none
  | g :: gs =>
    match g.char with
    | 'x' => codePoint? 2 gs
    | 'u' => codePoint? 4 gs
    | 'U' => codePoint? 8 gs
    | c => (shortEscapes.lookup c).map fun n => (Char.ofNat n, gs)

/-- A word of a quoted scalar, and whether a backslash has ended its line. -/
def quotedWord? (quote : Char) : Nat → List Glyph → Option (List Char × Bool × List Glyph)
  | 0, _ => none
  | _ + 1, [] => some ([], false, [])
  | fuel + 1, g :: gs =>
    if g.isGap then some ([], false, g :: gs)
    else if g.char = quote then
      if quote = '\'' ∧ startsIn gs ['\''] then do
        let (word, cut, rest) ← quotedWord? quote fuel (gs.drop 1)
        return ('\'' :: word, cut, rest)
      else some ([], false, g :: gs)
    else if quote = '"' ∧ g.char = '\\' then
      if !gs.isEmpty ∧ atBreak gs then some ([], true, gs.drop 1)
      else do
        let (c, rest) ← escape? gs
        let (word, cut, rest) ← quotedWord? quote fuel rest
        return (c :: word, cut, rest)
    else do
      let (word, cut, rest) ← quotedWord? quote fuel gs
      return (g.char :: word, cut, rest)

/-- A quoted scalar behind its first quote. -/
def quoted? (quote : Char) : Nat → List Glyph → Option (List Char × List Glyph)
  | 0, _ => none
  | fuel + 1, gs =>
    if gs = [] ∨ atDivider gs then none
    else do
      let (word, cut, rest) ← quotedWord? quote (gs.length + 1) gs
      if startsIn rest [quote] then return (word, rest.drop 1)
      let gap := rest.takeWhile Glyph.isGap
      let (more, rest) ← quoted? quote fuel (rest.dropWhile Glyph.isGap)
      return (word ++ (if cut then chars (gap.filter Glyph.isBreak) else gapText gap) ++ more, rest)

end BraceTemplate.Yaml
