import BraceTemplate.Expr.Basic

/-!
Instructions: a template in a flat row. Structured instructions come as openers and closers, with
branches and sections between them.
-/
namespace BraceTemplate

/-- A bound of a counting loop. -/
inductive Bound where
  | literal (n : Int)
  | var (v : Var)

/-- A piece of the path of an included template. -/
inductive IncludePart where
  | text (s : String)
  | var (v : Var)

/-- A loop over the entries of a collection. Loops count their nesting from one. -/
structure Loop where
  key : Option Path
  value : Path
  collection : Expr
  depth : Nat

/-- A loop that counts from `start` by `step` up to `stop`. -/
structure Counting where
  counter : Path
  start : Bound
  step : Bound
  stop : Bound

/-- An empty section is rendered when the loop at its depth found no entries. An inline section
stands in the body of that loop; any other stands behind it. -/
inductive Instruction where
  | literal (text : String)
  | emit (v : Var)
  | beginIf (condition : Expr)
  | elseIf (condition : Expr)
  | otherwise
  | endIf
  | beginFor (loop : Loop)
  | endFor
  | beginEmpty (depth : Nat) (inLoop : Bool)
  | endEmpty
  | assign (target : Path) (value : Expr)
  | beginBlock (name : String) (params : List String)
  | endBlock
  | invoke (name : String) (args : List Expr)
  | beginRange (counting : Counting)
  | endRange
  | include (parts : List IncludePart)

instance : Inhabited Instruction := ⟨.endIf⟩

/-- The name of the directive that an instruction belongs to. -/
def Instruction.name : Instruction → String
  | .literal _ => "literal"
  | .emit _ => "$"
  | .beginIf _ | .endIf => "if"
  | .elseIf _ => "elseif"
  | .otherwise => "else"
  | .beginFor _ | .endFor => "for"
  | .beginEmpty .. | .endEmpty => "empty"
  | .assign .. => "set"
  | .beginBlock .. | .endBlock => "define_block"
  | .invoke .. => "block"
  | .beginRange _ | .endRange => "range"
  | .include _ => "include"

end BraceTemplate
