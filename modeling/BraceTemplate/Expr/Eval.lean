import BraceTemplate.Expr.Basic
import BraceTemplate.Filter.Table

/-!
The values of variables and expressions. Whatever is not bound is absent; only operators, filters
and their operands can fail.
-/
namespace BraceTemplate

/-- The bindings of one layer, in the order in which they were made. -/
abbrev Layer := Dict Value

/-- What variables are resolved against. -/
structure Scope where
  active : Layer
  locals : Option Layer
  filters : FilterTable
  strict : Bool

namespace Scope

/-- The variables of a block hide shared ones; other names fall through. -/
def root? (s : Scope) (mode : Mode) (name : String) : Option Value :=
  match mode, s.locals with
  | .block, some locals => (Dict.find? locals name).or (Dict.find? s.active name)
  | _, _ => Dict.find? s.active name

end Scope

def failing {α : Type} (r : Except RenderFault α) : Logged α :=
  liftExcept (r.mapError Error.execution)

/-- A comparison that holds for the given orders, and never for values without an order. -/
def ordered (accepted : List Ordering) (l r : Value) : Value :=
  .bool ((Value.order l r).any fun o => accepted.contains o)

/-- Operators on two values. The logical ones are here for completeness; `Expr.eval` evaluates their
right operand only when it is needed. -/
def BinaryOp.apply (op : BinaryOp) (l r : Value) : Except RenderFault Value :=
  match op with
  | .or => .ok (.bool (l.isTruthy || r.isTruthy))
  | .and => .ok (.bool (l.isTruthy && r.isTruthy))
  | .eq => .ok (.bool (Value.equal l r))
  | .ne => .ok (.bool (!Value.equal l r))
  | .lt => .ok (ordered [.lt] l r)
  | .le => .ok (ordered [.lt, .eq] l r)
  | .gt => .ok (ordered [.gt] l r)
  | .ge => .ok (ordered [.gt, .eq] l r)
  | .concat => .ok (.str (l.display ++ r.display))
  | .add => Value.arithmetic .add l r
  | .sub => Value.arithmetic .sub l r
  | .mul => Value.arithmetic .mul l r
  | .div => Value.arithmetic .div l r
  | .rem => Value.arithmetic .rem l r

/-- The truth value of the left operand that settles a logical operator. -/
def BinaryOp.settled? : BinaryOp → Option Bool
  | .or => some true
  | .and => some false
  | _ => none

mutual

def Expr.eval (s : Scope) : Expr → Logged Value
  | .literal v => return v
  | .array items => return .list (← evalItems s items)
  | .var v => v.resolve s
  | .not e => return .bool !(← e.eval s).isTruthy
  | .neg e => do failing (← e.eval s).negate
  | .binary op left right => do
    let l ← left.eval s
    if op.settled? = some l.isTruthy then return .bool l.isTruthy
    else failing (op.apply l (← right.eval s))

def evalItems (s : Scope) : List Expr → Logged (List Value)
  | [] => return []
  | e :: es => do
    let v ← e.eval s
    return v :: (← evalItems s es)

/-- The value of a variable, sent through its filters. -/
def Var.resolve (s : Scope) : Var → Logged Value
  | ⟨path, filters⟩ => do s.filters.applyAll s.strict filters (← path.read s)

def Path.read (s : Scope) : Path → Logged Value
  | ⟨_, []⟩ => return .null
  | ⟨mode, first :: rest⟩ => do
    match s.root? mode (← first.name s) with
    | some v => readBelow s rest v
    | none => return .null

/-- Follows segments below a value; what is missing is absent, and ends the search. -/
def readBelow (s : Scope) : List Segment → Value → Logged Value
  | [], v => return v
  | segment :: rest, v => do
    match v.lookup? (← segment.name s) with
    | some w => readBelow s rest w
    | none => return .null

/-- The key that a segment stands for. -/
def Segment.name (s : Scope) : Segment → Logged String
  | .key name => return name
  | .nested v => return (← v.resolve s).display
  | .index e => return (← e.eval s).display

end

/-- The keys of all segments of a path. -/
def Path.names (s : Scope) (p : Path) : Logged (List String) := p.segments.mapM (Segment.name s)

end BraceTemplate
