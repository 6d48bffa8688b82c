import BraceTemplate.Yaml.Token

/-!
The row of tokens of a text. Outside flow collections the columns of lines decide where sequences
and mappings begin and end. A key of one line is known as a key only by the colon behind it, so its
place in the row is kept until then.
-/
namespace BraceTemplate.Yaml

/-- What may turn out to be a key. -/
structure Candidate where
  /-- Whether it must be a key, since it opens a line of a mapping. -/
  required : Bool
  /-- How many tokens stand before it. -/
  place : Nat
  index : Nat
  line : Nat
  column : Nat
  deriving DecidableEq, Repr

/-- The state of reading tokens. -/
structure Layout where
  rest : List Glyph
  /-- The tokens so far, latest first. -/
  tokens : List Token
  count : Nat
  /-- The column of the innermost block collection. -/
  indent : Int
  outerIndents : List Int
  /-- Whether a key may stand here. -/
  keyAllowed : Bool
  candidate : Option Candidate
  /-- The candidates around the open flow collections. -/
  outerCandidates : List (Option Candidate)

namespace Layout

def ofGlyphs (gs : List Glyph) : Layout := ⟨gs, [], 0, -1, [], true, none, []⟩

def inFlow (s : Layout) : Bool := !s.outerCandidates.isEmpty

def add (s : Layout) (t : Token) : Layout :=
  { s with tokens := t :: s.tokens, count := s.count + 1 }

/-- Puts a token behind the first `place` tokens. -/
def insertAt (s : Layout) (place : Nat) (t : Token) : Layout :=
  let later := s.count - place
  { s with tokens := s.tokens.take later ++ t :: s.tokens.drop later, count := s.count + 1 }

/-- Skips blanks, comments and line breaks. A tab is no blank where a key may stand; behind a break
one may. -/
def skipFrom (inFlow : Bool) : (keyAllowed inComment : Bool) → List Glyph → Bool × List Glyph
  | keyAllowed, _, [] => (keyAllowed, [])
  | keyAllowed, inComment, g :: gs =>
    if g.isBreak then skipFrom inFlow (keyAllowed || !inFlow) false gs
    else if inComment then skipFrom inFlow keyAllowed true gs
    else if g.char = '#' then skipFrom inFlow keyAllowed true gs
    else if g.char = ' ' ∨ (g.char = '\t' ∧ (inFlow ∨ !keyAllowed)) ∨
        (g.char = '\ufeff' ∧ g.column = 0) then skipFrom inFlow keyAllowed false gs
    else (keyAllowed, g :: gs)

def skip (s : Layout) : Layout :=
  let (keyAllowed, rest) := skipFrom s.inFlow s.keyAllowed false s.rest
  { s with keyAllowed := keyAllowed, rest := rest }

/-- A key stands on one line and is not longer than 1024 characters. -/
def isStale (g : Glyph) (c : Candidate) : Bool :=
  decide (c.line < g.line) || decide (c.index + 1024 < g.index)

/-- Gives a candidate up; a required one cannot be given up. -/
def giveUp? (stale : Candidate → Bool) : Option Candidate → Option (Option Candidate)
  | some c => if !stale c then some (some c) else if c.required then none else some none
  | none => some none

def forgetStale? (s : Layout) (g : Glyph) : Option Layout := do
  return { s with
    candidate := ← giveUp? (isStale g) s.candidate
    outerCandidates := ← s.outerCandidates.mapM (giveUp? (isStale g)) }

def forget? (s : Layout) : Option Layout := do
  return { s with candidate := ← giveUp? (fun _ => true) s.candidate }

/-- Notes that the next token may be a key. -/
def note? (s : Layout) (g : Glyph) : Option Layout :=
  if s.keyAllowed then do
    let s ← s.forget?
    let required := !s.inFlow && s.indent == g.column
    return { s with candidate := some ⟨required, s.count, g.index, g.line, g.column⟩ }
  else some s

/-- Opens a block collection if the column is further right than the innermost one. -/
def indentTo (s : Layout) (column : Nat) (place : Nat) (t : Token) : Layout :=
  if !s.inFlow ∧ s.indent < column then
    { s.insertAt place t with indent := column, outerIndents := s.indent :: s.outerIndents }
  else s

/-- Counts the block collections that end before a column, and finds the indentation left. -/
def closedBy (column : Int) : Int → List Int → Nat × Int × List Int
  | indent, [] => (0, indent, [])
  | indent, outer :: outers =>
    if column < indent then
      let (closed, left) := closedBy column outer outers
      (closed + 1, left)
    else (0, indent, outer :: outers)

/-- Ends the block collections further right than a column. -/
def dedentTo (s : Layout) (column : Int) : Layout :=
  if s.inFlow then s
  else
    let (closed, indent, outer) := closedBy column s.indent s.outerIndents
    { s with
      tokens := List.replicate closed .dedent ++ s.tokens
      count := s.count + closed
      indent := indent
      outerIndents := outer }

def withKeyAllowed (s : Layout) (allowed : Bool) : Layout := { s with keyAllowed := allowed }

def moveTo (s : Layout) (rest : List Glyph) : Layout := { s with rest := rest }

/-- A token of one character that is no part of a key. -/
def indicator? (s : Layout) (allowed : Bool) (t : Token) (rest : List Glyph) : Option Layout := do
  let s ← s.forget?
  return ((s.withKeyAllowed allowed).add t).moveTo rest

def openFlow? (s : Layout) (g : Glyph) (t : Token) (rest : List Glyph) : Option Layout := do
  let s ← s.note? g
  let s := { s with candidate := none, outerCandidates := s.candidate :: s.outerCandidates }
  return ((s.withKeyAllowed true).add t).moveTo rest

def closeFlow? (s : Layout) (t : Token) (rest : List Glyph) : Option Layout := do
  let s ← s.forget?
  let s := match s.outerCandidates with
    | [] => s
    | c :: cs => { s with candidate := c, outerCandidates := cs }
  return ((s.withKeyAllowed false).add t).moveTo rest

/-- An item of a sequence, or a key behind a question mark. -/
def entry? (s : Layout) (g : Glyph) (opening entry : Token) (allowed : Bool) (rest : List Glyph) :
    Option Layout :=
  if !s.inFlow ∧ !s.keyAllowed then none
  else (s.indentTo g.column s.count opening).indicator? allowed entry rest

/-- A colon: the candidate before it is a key. Without one the key is empty. -/
def value? (s : Layout) (g : Glyph) (rest : List Glyph) : Option Layout :=
  match s.candidate with
  | some c =>
    let s := (s.insertAt c.place .key).indentTo c.column c.place .beginMapping
    some ((({ s with candidate := none }.withKeyAllowed false).add .value).moveTo rest)
  | none =>
    if !s.inFlow ∧ !s.keyAllowed then none
    else
      let s := s.indentTo g.column s.count .beginMapping
      some (((s.withKeyAllowed (!s.inFlow)).add .value).moveTo rest)

/-- A token that may be a key, or belong to one. -/
def keyPart? (s : Layout) (g : Glyph) (read : Option (Token × List Glyph)) : Option Layout := do
  let s ← s.note? g
  let (t, rest) ← read
  return ((s.withKeyAllowed false).add t).moveTo rest

def quotedScalar? (s : Layout) (g : Glyph) (rest : List Glyph) : Option Layout :=
  s.keyPart? g ((quoted? g.char (rest.length + 1) rest).map fun r => (.scalar .quoted r.1, r.2))

def plainScalar? (s : Layout) (g : Glyph) : Option Layout := do
  let p ← plain? s.inFlow (s.indent + 1) (s.rest.length + 1) s.rest
  let s ← s.keyPart? g (some (.scalar .plain p.text, p.rest))
  return s.withKeyAllowed p.lineEnded

def foldedOrLiteral? (s : Layout) (folded : Bool) (rest : List Glyph) : Option Layout := do
  let s ← s.forget?
  let (text, rest) ← blockScalar? folded s.indent rest
  let style : Style := if folded then .quoted else .literal
  return ((s.withKeyAllowed true).add (.scalar style text)).moveTo rest

/-- A token that ends all block collections. -/
def toplevel? (s : Layout) (read : Option (Token × List Glyph)) : Option Layout := do
  let s ← (s.dedentTo (-1)).forget?
  let (t, rest) ← read
  return ((s.withKeyAllowed false).add t).moveTo rest

/-- The characters that no plain scalar starts with. -/
def reserved : List Char :=
  [',', '[', ']', '{', '}', '#', '&', '*', '!', '|', '>', '\'', '"', '%', '@', '\x60']

/-- Whether a plain scalar may start here. -/
def startsPlain (inFlow : Bool) (g : Glyph) (rest : List Glyph) : Bool :=
  if ['-', '?', ':'].contains g.char then !atGap rest && (g.char == '-' || !inFlow)
  else !g.isGap && !reserved.contains g.char

/-- Reads the token at a glyph. -/
def token? (s : Layout) (g : Glyph) (rest : List Glyph) : Option Layout :=
  if g.column = 0 ∧ g.char = '%' then s.toplevel? (Token.directive? rest)
  else if atDivider s.rest then
    s.toplevel? (some (if g.char = '-' then .documentStart else .documentEnd, rest.drop 2))
  else match g.char with
    | '[' => s.openFlow? g .openSequence rest
    | '{' => s.openFlow? g .openMapping rest
    | ']' => s.closeFlow? .closeSequence rest
    | '}' => s.closeFlow? .closeMapping rest
    | ',' => s.indicator? true .comma rest
    | '*' => s.keyPart? g ((Token.anchorName? rest).map fun r => (.alias r.1, r.2))
    | '&' => s.keyPart? g ((Token.anchorName? rest).map fun r => (.anchor r.1, r.2))
    | '!' => s.keyPart? g (Token.tag? s.inFlow s.rest)
    | '\'' | '"' => s.quotedScalar? g rest
    | c =>
      if c = '-' ∧ atGap rest then s.entry? g .beginSequence .item true rest
      else if c = '?' ∧ (s.inFlow ∨ atGap rest) then
        s.entry? g .beginMapping .key (!s.inFlow) rest
      else if c = ':' ∧ (s.inFlow ∨ atGap rest) then s.value? g rest
      else if c = '|' ∧ !s.inFlow then s.foldedOrLiteral? false rest
      else if c = '>' ∧ !s.inFlow then s.foldedOrLiteral? true rest
      else if startsPlain s.inFlow g rest then s.plainScalar? g
      else none

/-- All tokens of the rest of the text, in order. -/
def finish? : Nat → Layout → Option (List Token)
  | 0, _ => none
  | fuel + 1, s =>
    let s := s.skip
    match s.rest with
    | [] => (s.dedentTo (-1)).forget?.map fun s => s.tokens.reverse
    | g :: rest => do
      let s ← s.forgetStale? g
      finish? fuel (← (s.dedentTo g.column).token? g rest)

end Layout

def tokens? (gs : List Glyph) : Option (List Token) := (Layout.ofGlyphs gs).finish? (gs.length + 1)

end BraceTemplate.Yaml
