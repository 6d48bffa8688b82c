import BraceTemplate.Yaml.Glyph

/-!
Block scalars: indented lines behind `|` or `>`. Folding joins neighbouring lines by a space unless
one of them opens with a blank; the chomping says how many of the last breaks stay.
-/
namespace BraceTemplate.Yaml

inductive Chomping where
  | clip
  | strip
  | keep
  deriving DecidableEq, Repr

def chomping? : Char → Option Chomping
  | '-' => some .strip
  | '+' => some .keep
  | _ => none

/-- What stands behind the indicator of a block scalar: chomping and indentation in either order. -/
structure Header where
  chomping : Chomping
  /-- The indentation relative to the parent, if it is given. -/
  step : Option Nat
  rest : List Glyph

def takeChomping : List Glyph → Option Chomping × List Glyph
  | g :: gs => match chomping? g.char with
    | some c => (some c, gs)
    | none => (none, g :: gs)
  | [] => (none, [])

/-- An indentation of zero cannot be given. -/
def takeStep? : List Glyph → Option (Option Nat × List Glyph)
  | g :: gs =>
    if g.char = '0' then none
    else if g.char.isDigit then some (some (g.char.toNat - '0'.toNat), gs)
    else some (none, g :: gs)
  | [] => some (none, [])

def header? (gs : List Glyph) : Option Header := do
  let (before, gs) := takeChomping gs
  let (step, gs) ← takeStep? gs
  let (after, gs) := if before.isNone && step.isSome then takeChomping gs else (none, gs)
  return ⟨(before.or after).getD .clip, step, ← endOfLine? gs⟩

/-- The breaks of empty lines up to the next line that is none, whose indentation is cut off; with
the largest indentation on the way. Tabs do not indent. -/
def margin? (limit : Option Nat) : Nat → List Glyph → Option (List Char × Nat × List Glyph)
  | 0, _ => none
  | fuel + 1, gs =>
    let inside (g : Glyph) : Bool := limit.all (g.column < ·)
    let rest := gs.dropWhile fun g => g.char == ' ' && inside g
    match rest with
    | [] => some ([], 0, [])
    | g :: after =>
      if g.char = '\t' ∧ inside g then none
      else if g.isBreak then do
        let (breaks, widest, rest) ← margin? limit fuel after
        return (g.char :: breaks, max g.column widest, rest)
      else some ([], g.column, rest)

/-- What joins a line to the text before it. -/
def lineJoint (folded : Bool) (last breaks : List Char) (blankAround : Bool) : List Char :=
  if folded ∧ last = ['\n'] ∧ !blankAround then
    if breaks = [] then [' '] else breaks
  else last ++ breaks

/-- The text of the lines at an indentation, the break of the last line and those of empty lines
behind it. -/
def lines? (folded : Bool) (indent : Nat) : Nat → (last breaks : List Char) → (blank : Bool) →
    List Glyph → Option (List Char × List Char × List Char × List Glyph)
  | 0, _, _, _, _ => none
  | _ + 1, last, breaks, _, [] => some ([], last, breaks, [])
  | fuel + 1, last, breaks, blank, g :: gs =>
    if g.column ≠ indent then some ([], last, breaks, g :: gs)
    else do
      let joint := lineJoint folded last breaks (blank || g.isSpace)
      let line := (g :: gs).takeWhile fun g => !g.isBreak
      let rest := (g :: gs).dropWhile fun g => !g.isBreak
      let (breaks, _, below) ← margin? (some indent) (rest.length + 1) (rest.drop 1)
      let last := chars (rest.take 1)
      let (text, last, breaks, rest) ← lines? folded indent fuel last breaks g.isSpace below
      return (joint ++ chars line ++ text, last, breaks, rest)

/-- A block scalar behind its indicator, below a parent at the indentation `parent`. -/
def blockScalar? (folded : Bool) (parent : Int) (gs : List Glyph) :
    Option (List Char × List Glyph) := do
  let header ← header? gs
  let given := header.step.map fun n => (max parent 0).toNat + n
  let fuel := header.rest.length + 1
  let (breaks, widest, rest) ← margin? given fuel header.rest
  let indent := given.getD (max widest (max (parent + 1).toNat 1))
  let (text, last, breaks, rest) ← lines? folded indent fuel [] breaks false rest
  let tail := match header.chomping with
    | .strip => []
    | .clip => last
    | .keep => last ++ breaks
  return (text ++ tail, rest)

end BraceTemplate.Yaml
