import BraceTemplate.Compile.Arguments

/-!
Terms: expressions as a template author writes them, how they are printed, and the tokens and the
expression that they stand for.
-/
namespace BraceTemplate.Source

/-- A name of letters, digits and underscores. -/
structure Name where
  chars : List Char
  valid : Arguments.isName chars = true

def Name.text (n : Name) : String := .ofList n.chars

/-- A dotted path of names. -/
structure Dotted where
  root : Name
  keys : List Name

structure Variable where
  path : Dotted
  filters : List Name

namespace Dotted

def print (p : Dotted) : List Char :=
  '$' :: (p.root.chars ++ p.keys.flatMap fun k => '.' :: k.chars)

def path (mode : Mode) (p : Dotted) : Path :=
  ⟨mode, (p.root :: p.keys).map fun k => .key k.text⟩

end Dotted

namespace Variable

def print (v : Variable) : List Char := v.path.print ++ v.filters.flatMap fun f => '|' :: f.chars

def var (mode : Mode) (v : Variable) : Var := ⟨v.path.path mode, v.filters.map Name.text⟩

end Variable

/-- A whole number up to the greatest signed 64-bit integer; operators make it negative. -/
structure Digits where
  value : Nat
  fits : Decimal.fits value = true

/-- Text without line breaks, braces and backslashes. -/
structure Quotable where
  chars : List Char
  valid : ∀ c ∈ chars, c ≠ '\n' ∧ c ≠ '\x7b' ∧ c ≠ '\x7d' ∧ c ≠ '\\'

/-- Double quotes around the text, and a backslash before each one inside of it. -/
def Quotable.print (s : Quotable) : List Char :=
  '"' :: (s.chars.flatMap (fun c => if c = '"' then ['\\', '"'] else [c]) ++ ['"'])

inductive Term where
  | int (n : Digits)
  | str (s : Quotable)
  | bool (b : Bool)
  | null
  | array (items : List Term)
  | var (v : Variable)
  | not (e : Term)
  | neg (e : Term)
  | binary (op : BinaryOp) (left right : Term)

/-- How tightly an operator binds, from one to five; operands with unary operators are at six. -/
def level : BinaryOp → Nat
  | .or => 1
  | .and => 2
  | .eq | .ne | .lt | .le | .gt | .ge => 3
  | .add | .sub | .concat => 4
  | .mul | .div | .rem => 5

/-- The level of a left operand: operators associate to the left, but comparisons do not chain. -/
def leftLevel (op : BinaryOp) : Nat := if level op = 3 then 4 else level op

def symbol : BinaryOp → Symbol
  | .or => .or
  | .and => .and
  | .eq => .eq
  | .ne => .ne
  | .lt => .lt
  | .le => .le
  | .gt => .gt
  | .ge => .ge
  | .add => .plus
  | .sub => .minus
  | .concat => .tilde
  | .mul => .star
  | .div => .slash
  | .rem => .percent

def printSymbol : BinaryOp → List Char
  | .or => ['|', '|']
  | .and => ['&', '&']
  | .eq => ['=', '=']
  | .ne => ['!', '=']
  | .lt => ['<']
  | .le => ['<', '=']
  | .gt => ['>']
  | .ge => ['>', '=']
  | .add => ['+']
  | .sub => ['-']
  | .concat => ['~']
  | .mul => ['*']
  | .div => ['/']
  | .rem => ['%']

def printBool : Bool → List Char
  | true => ['t', 'r', 'u', 'e']
  | false => ['f', 'a', 'l', 's', 'e']

mutual

/-- A term where operators of the given level may stand: looser ones are put in parentheses. -/
def Term.print (n : Nat) : Term → List Char
  | .int k => Nat.toDigits 10 k.value
  | .str s => s.print
  | .bool b => printBool b
  | .null => ['n', 'u', 'l', 'l']
  | .array [] => ['[', ']']
  | .array (e :: es) => '[' :: (e.print 1 ++ (printMore es ++ [']']))
  | .var v => v.print
  | .not e => '!' :: e.print 6
  | .neg e => '-' :: e.print 6
  | .binary op l r =>
    let body := l.print (leftLevel op) ++ ' ' :: (printSymbol op ++ ' ' :: r.print (level op + 1))
    if level op < n then '(' :: (body ++ [')']) else body

/-- Further items of an array. -/
def printMore : List Term → List Char
  | [] => []
  | e :: es => ',' :: ' ' :: (e.print 1 ++ printMore es)

end

mutual

/-- The tokens of a printed term. -/
def Term.tokens (n : Nat) : Term → List Token
  | .int k => [.number (.int k.value)]
  | .str s => [.text (.ofList s.chars)]
  | .bool b => [.word (.ofList (printBool b))]
  | .null => [.word "null"]
  | .array [] => [.leftBracket, .rightBracket]
  | .array (e :: es) => .leftBracket :: (e.tokens 1 ++ (moreTokens es ++ [.rightBracket]))
  | .var v => [.var v.print]
  | .not e => .symbol .not :: e.tokens 6
  | .neg e => .symbol .minus :: e.tokens 6
  | .binary op l r =>
    let body := l.tokens (leftLevel op) ++ .symbol (symbol op) :: r.tokens (level op + 1)
    if level op < n then .leftParen :: (body ++ [.rightParen]) else body

def moreTokens : List Term → List Token
  | [] => []
  | e :: es => .comma :: (e.tokens 1 ++ moreTokens es)

end

mutual

/-- The expression that a term stands for. -/
def Term.expr (mode : Mode) : Term → Expr
  | .int k => .literal (.int k.value)
  | .str s => .literal (.str (.ofList s.chars))
  | .bool b => .literal (.bool b)
  | .null => .literal .null
  | .array items => .array (exprs mode items)
  | .var v => .var (v.var mode)
  | .not e => .not (e.expr mode)
  | .neg e => .neg (e.expr mode)
  | .binary op l r => .binary op (l.expr mode) (r.expr mode)

def exprs (mode : Mode) : List Term → List Expr
  | [] => []
  | e :: es => e.expr mode :: exprs mode es

end

mutual

/-- How deep a term nests: operators, arrays around items, and variables are one step each. -/
def Term.depth : Term → Nat
  | .int _ | .str _ | .bool _ | .null => 0
  | .var _ => 1
  | .array items => depths items
  | .not e | .neg e => e.depth + 1
  | .binary _ l r => max l.depth r.depth + 1

def depths : List Term → Nat
  | [] => 0
  | e :: es => max (e.depth + 1) (depths es)

end

end BraceTemplate.Source
