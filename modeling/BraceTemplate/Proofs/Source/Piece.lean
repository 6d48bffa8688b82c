import Mathlib.Data.List.Chain
import BraceTemplate.Compile.Draft
import BraceTemplate.Proofs.Source.Term

/-!
Pieces: templates as an author writes them, how they are printed, and the instructions that they are
written for.
-/
namespace BraceTemplate.Source

structure PlainText where
  chars : List Char
  nonempty : chars ≠ []

structure Integer64 where
  value : Int
  fits : Decimal.fits value = true

inductive BoundTerm where
  | literal (n : Integer64)
  | var (name : Name)

/-- The step of a counter; a literal one is positive. -/
structure Step where
  bound : BoundTerm
  positive : ∀ n, bound = .literal n → 0 < n.value

/-- A piece of a path without quotes, braces, backslashes and blanks. -/
structure PathText where
  chars : List Char
  nonempty : chars ≠ []
  valid : ∀ c ∈ chars, Delimiter.isQuote c = false ∧ c ≠ '\x7b' ∧ c ≠ '\x7d' ∧ c ≠ '\\' ∧
    Text.isBlank c = false

inductive Part where
  | text (t : PathText)
  | var (v : Variable)

def Part.isText : Part → Bool
  | .text _ => true
  | .var _ => false

/-- The path of an include: texts and variables, no two texts side by side. -/
structure Reference where
  parts : List Part
  nonempty : parts ≠ []
  alternating : parts.IsChain fun p q => ¬(p.isText = true ∧ q.isText = true)

mutual

inductive Piece where
  | text (t : PlainText)
  | emit (v : Variable)
  | set (target : Dotted) (value : Term)
  | invoke (name : Name) (args : List Term)
  | include (r : Reference)
  | cond (c : Term) (body : List Piece) (others : Others)
  | loop (key : Option Name) (value : Name) (collection : Term) (body : List Piece)
  | empty (body : List Piece)
  | block (name : Name) (params : List Name) (body : List Piece)
  | range (counter : Name) (start : BoundTerm) (step : Option Step) (stop : BoundTerm)
    (body : List Piece)

/-- The branches of a conditional behind its first one. -/
inductive Others where
  | done
  | otherwise (body : List Piece)
  | elseIf (c : Term) (body : List Piece) (others : Others)

end

/-! Printing. -/

def escape (cs : List Char) : List Char :=
  cs.flatMap fun c => if Markup.isEscapable c then ['\\', c] else [c]

/-- A node with the given content. -/
def node (content : List Char) : List Char := '\x7b' :: (content ++ ['\x7d'])

def printInt (n : Int) : List Char :=
  if n < 0 then '-' :: Nat.toDigits 10 n.natAbs else Nat.toDigits 10 n.natAbs

def BoundTerm.print : BoundTerm → List Char
  | .literal n => printInt n.value
  | .var name => '$' :: name.chars

def Part.print : Part → List Char
  | .text t => t.chars
  | .var v => node v.print

/-- The key variable of a loop with its comma. -/
def printKey : Option Name → List Char
  | some key => '$' :: (key.chars ++ [',', ' '])
  | none => []

/-- The step of a counter with its point. -/
def printStep : Option Step → List Char
  | some step => step.bound.print ++ ['.']
  | none => ['.']

/-- The content of the node of a directive. -/
def directive (name : String) (args : List Char) : List Char := name.toList ++ ' ' :: args

mutual

def Piece.print : Piece → List Char
  | .text t => escape t.chars
  | .emit v => node v.print
  | .set target value => node (directive "set" (target.print ++ ' ' :: '=' :: ' ' :: value.print 1))
  | .invoke name args =>
    node (directive "block" (name.chars ++ args.flatMap fun e => ' ' :: e.print 6))
  | .include r => node (directive "include" (r.parts.flatMap Part.print))
  | .cond c body others =>
    node (directive "if" (c.print 1)) ++ (printAll body ++ others.print)
  | .loop key value collection body =>
    node (directive "for" (printKey key ++ '$' :: (value.chars ++ ' ' :: 'i' :: 'n' :: ' ' ::
      collection.print 1))) ++ (printAll body ++ node "/for".toList)
  | .empty body => node "empty".toList ++ (printAll body ++ node "/empty".toList)
  | .block name params body =>
    node (directive "define_block" (name.chars ++ params.flatMap fun p => ' ' :: '$' :: p.chars)) ++
      (printAll body ++ node "/define_block".toList)
  | .range counter start step stop body =>
    node (directive "range" ('$' :: (counter.chars ++ ' ' :: '=' :: ' ' :: (start.print ++ '.' ::
      (printStep step ++ stop.print))))) ++ (printAll body ++ node "/range".toList)

/-- The source of pieces in a row. -/
def printAll : List Piece → List Char
  | [] => []
  | p :: ps => p.print ++ printAll ps

def Others.print : Others → List Char
  | .done => node "/if".toList
  | .otherwise body => node "else".toList ++ (printAll body ++ node "/if".toList)
  | .elseIf c body others =>
    node (directive "elseif" (c.print 1)) ++ (printAll body ++ others.print)

end

/-! Instructions. -/

mutual

/-- Whether a loop stands in a piece. -/
def Piece.hasLoop : Piece → Bool
  | .text _ | .emit _ | .set .. | .invoke .. | .include _ => false
  | .cond _ body others => anyLoop body || others.hasLoop
  | .loop .. => true
  | .empty body | .block _ _ body | .range _ _ _ _ body => anyLoop body

def anyLoop : List Piece → Bool
  | [] => false
  | p :: ps => p.hasLoop || anyLoop ps

def Others.hasLoop : Others → Bool
  | .done => false
  | .otherwise body => anyLoop body
  | .elseIf _ body others => anyLoop body || others.hasLoop

end

/-- Where pieces stand: the directory of the template, inside of a block or not, in how many loops,
whether directly in the innermost of them, and whether that loop already holds a loop before
them. -/
structure Place where
  dir : Option (List Char)
  mode : Mode
  depth : Nat
  inLoop : Bool
  closed : Bool

namespace Place

def start (dir : Option (List Char)) : Place := ⟨dir, .shared, 0, false, false⟩

/-- Inside of a section that is no loop. -/
def within (p : Place) : Place := { p with inLoop := false }

/-- Behind pieces, which may hold a loop. -/
def behind (p : Place) (loops : Bool) : Place := { p with closed := p.closed || loops }

/-- Inside of a further loop. -/
def inner (p : Place) : Place := { p with depth := p.depth + 1, inLoop := true, closed := false }

def inBlock (p : Place) : Place := { p.within with mode := .block }

/-- An empty section that stands directly in a loop without a loop before it belongs to that loop,
any other one to the loop before it. -/
def beginEmpty (p : Place) : Instruction :=
  if p.inLoop && !p.closed then .beginEmpty p.depth true else .beginEmpty (p.depth + 1) false

end Place

def BoundTerm.bound (mode : Mode) : BoundTerm → Bound
  | .literal n => .literal n.value
  | .var name => .var ⟨.simple mode name.text, []⟩

def Part.part (mode : Mode) : Part → IncludePart
  | .text t => .text (.ofList t.chars)
  | .var v => .var (v.var mode)

/-- The step of a counter, which is one if it is left out. -/
def stepBound (mode : Mode) : Option Step → Bound
  | some step => step.bound.bound mode
  | none => .literal 1

mutual

def Piece.program (at_ : Place) : Piece → List Instruction
  | .text t => [.literal (.ofList t.chars)]
  | .emit v => [.emit (v.var at_.mode)]
  | .set target value => [.assign (target.path at_.mode) (value.expr at_.mode)]
  | .invoke name args => [.invoke name.text (exprs at_.mode args)]
  | .include r => [.include (Arguments.anchor at_.dir (r.parts.map (Part.part at_.mode)))]
  | .cond c body others =>
    .beginIf (c.expr at_.mode) :: (programAll at_.within body ++
      others.program (at_.within.behind (anyLoop body)))
  | .loop key value collection body =>
    .beginFor ⟨key.map fun k => .simple at_.mode k.text, .simple at_.mode value.text,
      collection.expr at_.mode, at_.depth + 1⟩ :: (programAll at_.inner body ++ [.endFor])
  | .empty body => at_.beginEmpty :: (programAll at_.within body ++ [.endEmpty])
  | .block name params body =>
    .beginBlock name.text (params.map Name.text) :: (programAll at_.inBlock body ++ [.endBlock])
  | .range counter start step stop body =>
    .beginRange ⟨.simple at_.mode counter.text, start.bound at_.mode, stepBound at_.mode step,
      stop.bound at_.mode⟩ :: (programAll at_.within body ++ [.endRange])

/-- The instructions that pieces in a row are written for. -/
def programAll (at_ : Place) : List Piece → List Instruction
  | [] => []
  | p :: ps => p.program at_ ++ programAll (at_.behind p.hasLoop) ps

def Others.program (at_ : Place) : Others → List Instruction
  | .done => [.endIf]
  | .otherwise body => .otherwise :: (programAll at_ body ++ [.endIf])
  | .elseIf c body others =>
    .elseIf (c.expr at_.mode) :: (programAll at_ body ++
      others.program (at_.behind (anyLoop body)))

end

/-! What may be written. -/

def Piece.isText : Piece → Bool
  | .text _ => true
  | _ => false

/-- How many empty sections directly in a row of pieces belong to the loop around the row. -/
def inlineSections (closed : Bool) : List Piece → Nat
  | [] => 0
  | .empty body :: ps =>
    (if closed then 0 else 1) + inlineSections (closed || anyLoop body) ps
  | p :: ps => inlineSections (closed || p.hasLoop) ps

mutual

def Piece.Valid (mode : Mode) : Piece → Prop
  | .text _ | .emit _ | .include _ => True
  | .set _ value => value.depth < maxExprNesting
  | .invoke _ args => ∀ e ∈ args, e.depth < maxExprNesting
  | .cond c body others => c.depth < maxExprNesting ∧ ValidAll mode body ∧ others.Valid mode
  | .loop _ _ collection body =>
    collection.depth < maxExprNesting ∧ ValidAll mode body ∧ inlineSections false body ≤ 1
  | .empty body | .range _ _ _ _ body => ValidAll mode body
  | .block _ _ body => mode = .shared ∧ ValidAll .block body

/-- Terms are not too deep, no two texts stand side by side, a loop has at most one empty section of
its own, and no block is defined inside of a block. -/
def ValidAll (mode : Mode) : List Piece → Prop
  | [] => True
  | p :: ps => p.Valid mode ∧ (p.isText = true → (ps.head?.any Piece.isText) = false) ∧
    ValidAll mode ps

def Others.Valid (mode : Mode) : Others → Prop
  | .done => True
  | .otherwise body => ValidAll mode body
  | .elseIf c body others =>
    c.depth < maxExprNesting ∧ ValidAll mode body ∧ others.Valid mode

end

mutual

def Piece.blocks : Piece → List String
  | .text _ | .emit _ | .set .. | .invoke .. | .include _ => []
  | .cond _ body others => blocksAll body ++ others.blocks
  | .loop _ _ _ body | .empty body | .range _ _ _ _ body => blocksAll body
  | .block name _ body => name.text :: blocksAll body

/-- The names of the blocks that pieces define. -/
def blocksAll : List Piece → List String
  | [] => []
  | p :: ps => p.blocks ++ blocksAll ps

def Others.blocks : Others → List String
  | .done => []
  | .otherwise body => blocksAll body
  | .elseIf _ body others => blocksAll body ++ others.blocks

end

end BraceTemplate.Source
