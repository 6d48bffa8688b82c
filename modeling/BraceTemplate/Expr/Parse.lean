import BraceTemplate.Expr.Basic
import BraceTemplate.Expr.Token

/-!
Reading variables and expressions. From loosest to tightest the operators are `||`, `&&`, the
comparisons, `+ - ~`, `* / %`, and `! -` before an operand; only comparisons do not chain. Every
step into a unary operator, parentheses, an array item, a variable or a segment of a path uses up
room, which is bounded.
-/
namespace BraceTemplate

/-- How deep parentheses, unary operators, arrays and variables may nest. -/
def maxExprNesting : Nat := 64

abbrev Parse (α : Type) := List Token → Except SyntaxFault (α × List Token)

namespace Parse

/-- Folds operators of one level and their operands from left to right; every round takes an
operator, so `fuel` tokens are enough for `fuel` rounds. -/
def chain (op? : Token → Option BinaryOp) (operand : Parse Expr) : Nat → Expr → Parse Expr
  | 0, left, ts => .ok (left, ts)
  | _ + 1, left, [] => .ok (left, [])
  | fuel + 1, left, t :: ts =>
    match op? t with
    | none => .ok (left, t :: ts)
    | some op => do
      let (right, ts) ← operand ts
      chain op? operand fuel (.binary op left right) ts

def leftAssoc (op? : Token → Option BinaryOp) (operand : Parse Expr) : Parse Expr := fun ts => do
  let (left, ts) ← operand ts
  chain op? operand ts.length left ts

/-- At most one operator of this level. -/
def nonAssoc (op? : Token → Option BinaryOp) (operand : Parse Expr) : Parse Expr := fun ts => do
  let (left, ts) ← operand ts
  chain op? operand 1 left ts

def orOp? : Token → Option BinaryOp
  | .symbol .or => some .or
  | .word "or" => some .or
  | _ => none

def andOp? : Token → Option BinaryOp
  | .symbol .and => some .and
  | .word "and" => some .and
  | _ => none

def comparisonOp? : Token → Option BinaryOp
  | .symbol .eq => some .eq
  | .symbol .ne => some .ne
  | .symbol .lt => some .lt
  | .symbol .le => some .le
  | .symbol .gt => some .gt
  | .symbol .ge => some .ge
  | _ => none

def additiveOp? : Token → Option BinaryOp
  | .symbol .plus => some .add
  | .symbol .minus => some .sub
  | .symbol .tilde => some .concat
  | _ => none

def multiplicativeOp? : Token → Option BinaryOp
  | .symbol .star => some .mul
  | .symbol .slash => some .div
  | .symbol .percent => some .rem
  | _ => none

def sum (unary : Parse Expr) : Parse Expr :=
  leftAssoc additiveOp? (leftAssoc multiplicativeOp? unary)

/-- All binary operators over operands of the tightest level. -/
def expression (unary : Parse Expr) : Parse Expr :=
  leftAssoc orOp? (leftAssoc andOp? (nonAssoc comparisonOp? (sum unary)))

/-- Items up to the closing bracket; every round takes a comma. -/
def items (missing : SyntaxFault) (item : Parse Expr) : Nat → Parse (List Expr)
  | 0, _ => .error missing
  | fuel + 1, ts => do
    let (e, ts) ← item ts
    match ts with
    | .comma :: ts => do
      let (es, ts) ← items missing item fuel ts
      return (e :: es, ts)
    | .rightBracket :: ts => return ([e], ts)
    | _ => .error missing

/-- One expression and nothing behind it. -/
def complete (unary : String → Parse Expr) (source : List Char) : Except SyntaxFault Expr := do
  let text := String.ofList source
  let ts ← Token.ofSource source
  if ts.isEmpty then .error (.inExpression .empty text)
  else
    let (e, rest) ← expression (unary text) ts
    if rest.isEmpty then return e else .error (.inExpression .trailingInput text)

/-- One segment of the path of a variable: a nested variable, an index in parentheses or a key. -/
def segment (nested : List Char → Except SyntaxFault Var)
    (index : List Char → Except SyntaxFault Expr) (whole text : List Char) :
    Except SyntaxFault Segment := do
  let text := Text.trim text
  if text.isEmpty then .error (.emptySegment (.ofList whole))
  else if (text.head? = some '\x7b' && text.getLast? = some '\x7d') || text.head? = some '$' then
    return .nested (← nested text)
  else match (Text.dropLead? ['('] text).bind (Text.dropTail? [')']) with
    | some inner => return .index (← index inner)
    | none => return .key (.ofList text)

/-- The source of a variable without the braces around it. -/
def bare (source : List Char) : List Char := Delimiter.unwrap (Text.trim source)

def filterNames (parts : List (List Char)) : List String :=
  ((parts.map Text.trim).filter (· ≠ [])).map String.ofList

mutual

/-- An operand with its unary operators. -/
def unary (mode : Mode) (room : Nat) (source : String) (ts : List Token) :
    Except SyntaxFault (Expr × List Token) :=
  let fault (f : ExprFault) : Except SyntaxFault (Expr × List Token) :=
    .error (.inExpression f source)
  match ts with
  | [] => fault .unexpectedEnd
  | .number v :: ts => .ok (.literal v, ts)
  | .text s :: ts => .ok (.literal (.str s), ts)
  | .word "true" :: ts => .ok (.literal (.bool true), ts)
  | .word "false" :: ts => .ok (.literal (.bool false), ts)
  | .word "null" :: ts => .ok (.literal .null, ts)
  | .word "not" :: ts | .symbol .not :: ts =>
    match room with
    | 0 => fault .tooDeep
    | room + 1 => do
      let (e, ts) ← unary mode room source ts
      return (.not e, ts)
  | .symbol .minus :: ts =>
    match room with
    | 0 => fault .tooDeep
    | room + 1 => do
      let (e, ts) ← unary mode room source ts
      return (.neg e, ts)
  | .word w :: _ => fault (.unexpectedWord w)
  | .var text :: ts =>
    match room with
    | 0 => .error (.variableTooDeep (.ofList (bare text)))
    | room + 1 => do return (.var (← variableOf mode room text), ts)
  | .leftParen :: ts =>
    match room with
    | 0 => fault .tooDeep
    | room + 1 => do
      let (e, ts) ← expression (unary mode room source) ts
      match ts with
      | .rightParen :: ts => return (e, ts)
      | _ => fault .missingParenthesis
  | .leftBracket :: .rightBracket :: ts => .ok (.array [], ts)
  | .leftBracket :: ts =>
    match room with
    | 0 => fault .tooDeep
    | room + 1 => do
      let (es, ts) ← items (.inExpression .missingBracket source)
        (expression (unary mode room source)) (ts.length + 1) ts
      return (.array es, ts)
  | _ :: _ => fault .unexpectedToken

/-- A variable with or without braces around it. -/
def variableOf (mode : Mode) (room : Nat) (source : List Char) : Except SyntaxFault Var :=
  let source := bare source
  match room with
  | 0 => .error (.variableTooDeep (.ofList source))
  | room + 1 =>
    match source with
    | '$' :: body => do
      let parts := Delimiter.splitTop '|' body
      let segments ← (Delimiter.splitTop '.' (parts.headD [])).mapM
        (segment (variableOf mode room) (complete (unary mode room)) source)
      return ⟨⟨mode, segments⟩, filterNames (parts.drop 1)⟩
    | _ => .error (.invalidVariable (.ofList source))

end

/-- Operands up to the end of the tokens; every round takes a token. -/
def operands (operand : Parse Expr) : Nat → List Token → Except SyntaxFault (List Expr)
  | _, [] => .ok []
  | 0, _ => .ok []
  | fuel + 1, ts => do
    let (e, ts) ← operand ts
    return e :: (← operands operand fuel ts)

end Parse

def Var.parse (mode : Mode) (source : List Char) : Except SyntaxFault Var :=
  Parse.variableOf mode maxExprNesting source

/-- The target of an assignment: a variable without filters. -/
def Path.parse (mode : Mode) (source : List Char) : Except SyntaxFault Path := do
  let v ← Var.parse mode source
  if v.filters.isEmpty then return v.path
  else .error (.filtersOnTarget (.ofList (Text.trim source)))

def Expr.parse (mode : Mode) (source : List Char) : Except SyntaxFault Expr :=
  Parse.complete (Parse.unary mode maxExprNesting) source

/-- Operands side by side, each with its unary operators. -/
def Expr.parseArguments (mode : Mode) (source : List Char) : Except SyntaxFault (List Expr) := do
  let ts ← Token.ofSource source
  Parse.operands (Parse.unary mode maxExprNesting (.ofList source)) ts.length ts

end BraceTemplate
