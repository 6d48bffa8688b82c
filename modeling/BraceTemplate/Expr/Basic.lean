import BraceTemplate.Value.Basic

/-! Variables with their paths and filters, and expressions over them. -/
namespace BraceTemplate

/-- Where the first segment of a path is looked up: among the shared bindings, or among the
parameters and variables of the block being rendered. -/
inductive Mode where
  | shared
  | block
  deriving DecidableEq, Repr, Inhabited

inductive BinaryOp where
  | or | and | eq | ne | lt | le | gt | ge | add | sub | concat | mul | div | rem
  deriving DecidableEq, Repr

mutual

inductive Segment where
  | key (name : String)
  | nested (v : Var)
  | index (e : Expr)

structure Path where
  mode : Mode
  segments : List Segment

structure Var where
  path : Path
  filters : List String

inductive Expr where
  | literal (value : Value)
  | array (items : List Expr)
  | var (v : Var)
  | not (e : Expr)
  | neg (e : Expr)
  | binary (op : BinaryOp) (left right : Expr)

end

instance : Inhabited Segment := ⟨.key ""⟩
instance : Inhabited Path := ⟨⟨.shared, []⟩⟩
instance : Inhabited Var := ⟨⟨default, []⟩⟩
instance : Inhabited Expr := ⟨.literal .null⟩

/-- The path of one literal key. -/
def Path.simple (mode : Mode) (name : String) : Path := ⟨mode, [.key name]⟩

/-- The literal name of the first segment, if it has one. -/
def Path.root? (p : Path) : Option String :=
  match p.segments with
  | .key name :: _ => some name
  | _ => none

end BraceTemplate
