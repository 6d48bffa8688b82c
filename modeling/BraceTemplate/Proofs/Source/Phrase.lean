import BraceTemplate.Proofs.Source.Lexing

/-!
Phrases: expressions of every kind that can be written, with whole variables inside of them. A
phrase is printed as a row of lexemes with one space between each two; a variable is one lexeme,
also where phrases stand in its computed indexes.
-/
namespace BraceTemplate.Source

/-- How an operator is written where there is a choice: with signs, or with the word for it. -/
inductive Spelling where
  | sign
  | word
  deriving DecidableEq

mutual

inductive Phrase where
  | int (n : Digits)
  | str (chars : List Char)
  | bool (b : Bool)
  | null
  | array (items : List Phrase)
  | var (braced : Bool) (v : Access)
  | not (spelling : Spelling) (e : Phrase)
  | neg (e : Phrase)
  | binary (spelling : Spelling) (op : BinaryOp) (left right : Phrase)

/-- A variable: the selectors of its path, of which there is at least one, and its filters. -/
inductive Access where
  | mk (root : Selector) (further : List Selector) (filters : List Name)

inductive Selector where
  | key (n : Name)
  | nested (v : Access)
  | index (e : Phrase)

end

/-! Printing. -/

structure Lexeme where
  text : List Char
  token : Token

/-- Lexemes with one space before each. -/
def led (ls : List Lexeme) : List Char := ls.flatMap fun l => ' ' :: l.text

/-- Lexemes with one space between each two. -/
def spaced : List Lexeme → List Char
  | [] => []
  | l :: ls => l.text ++ led ls

def notLexeme : Spelling → Lexeme
  | .sign => ⟨['!'], .symbol .not⟩
  | .word => ⟨['n', 'o', 't'], .word "not"⟩

def operatorLexeme : Spelling → BinaryOp → Lexeme
  | .word, .or => ⟨['o', 'r'], .word "or"⟩
  | .word, .and => ⟨['a', 'n', 'd'], .word "and"⟩
  | _, op => ⟨printSymbol op, .symbol (symbol op)⟩

/-- A variable between braces, or bare. -/
def variableText (braced : Bool) (v : List Char) : List Char :=
  if braced then '\x7b' :: (v ++ ['\x7d']) else v

mutual

/-- A phrase where operators of the given level may stand: looser ones are put in parentheses. -/
def Phrase.lexemes (n : Nat) : Phrase → List Lexeme
  | .int k => [⟨Nat.toDigits 10 k.value, .number (.int k.value)⟩]
  | .str cs => [⟨quoted cs, .text (.ofList cs)⟩]
  | .bool b => [⟨printBool b, .word (.ofList (printBool b))⟩]
  | .null => [⟨['n', 'u', 'l', 'l'], .word "null"⟩]
  | .array [] => [⟨['['], .leftBracket⟩, ⟨[']'], .rightBracket⟩]
  | .array (e :: es) =>
    ⟨['['], .leftBracket⟩ :: (e.lexemes 1 ++ (moreLexemes es ++ [⟨[']'], .rightBracket⟩]))
  | .var braced v => [⟨variableText braced v.print, .var v.print⟩]
  | .not s e => notLexeme s :: e.lexemes 6
  | .neg e => ⟨['-'], .symbol .minus⟩ :: e.lexemes 6
  | .binary s op l r =>
    let body := l.lexemes (leftLevel op) ++ operatorLexeme s op :: r.lexemes (level op + 1)
    if level op < n then ⟨['('], .leftParen⟩ :: (body ++ [⟨[')'], .rightParen⟩]) else body

/-- Further items of an array. -/
def moreLexemes : List Phrase → List Lexeme
  | [] => []
  | e :: es => ⟨[','], .comma⟩ :: (e.lexemes 1 ++ moreLexemes es)

def Access.print : Access → List Char
  | .mk root further filters =>
    '$' :: (root.print ++ (printFurther further ++ filters.flatMap fun f => '|' :: f.chars))

def printFurther : List Selector → List Char
  | [] => []
  | s :: ss => '.' :: (s.print ++ printFurther ss)

/-- Nested variables are put in braces, computed indexes in parentheses. -/
def Selector.print : Selector → List Char
  | .key n => n.chars
  | .nested v => '\x7b' :: (v.print ++ ['\x7d'])
  | .index e => '(' :: (spaced (e.lexemes 1) ++ [')'])

end

def Phrase.print (e : Phrase) : List Char := spaced (e.lexemes 1)

/-- Phrases side by side, each at the level of unary operators. -/
def printRow (es : List Phrase) : List Char := spaced (es.flatMap (Phrase.lexemes 6))

/-! Meaning. -/

mutual

/-- The expression that a phrase stands for. -/
def Phrase.expr (mode : Mode) : Phrase → Expr
  | .int k => .literal (.int k.value)
  | .str cs => .literal (.str (.ofList cs))
  | .bool b => .literal (.bool b)
  | .null => .literal .null
  | .array items => .array (phraseExprs mode items)
  | .var _ v => .var (v.var mode)
  | .not _ e => .not (e.expr mode)
  | .neg e => .neg (e.expr mode)
  | .binary _ op l r => .binary op (l.expr mode) (r.expr mode)

def phraseExprs (mode : Mode) : List Phrase → List Expr
  | [] => []
  | e :: es => e.expr mode :: phraseExprs mode es

def Access.var (mode : Mode) : Access → Var
  | .mk root further filters =>
    ⟨⟨mode, root.segment mode :: furtherSegments mode further⟩, filters.map Name.text⟩

def furtherSegments (mode : Mode) : List Selector → List Segment
  | [] => []
  | s :: ss => s.segment mode :: furtherSegments mode ss

def Selector.segment (mode : Mode) : Selector → Segment
  | .key n => .key n.text
  | .nested v => .nested (v.var mode)
  | .index e => .index (e.expr mode)

end

/-! Bounds. -/

mutual

/-- How deep a printed phrase nests: parentheses, unary operators, brackets around items, and
variables are one step each. -/
def Phrase.nesting (n : Nat) : Phrase → Nat
  | .int _ | .str _ | .bool _ | .null => 0
  | .array items => itemNesting items
  | .var _ v => v.nesting
  | .not _ e | .neg e => e.nesting 6 + 1
  | .binary _ op l r =>
    max (l.nesting (leftLevel op)) (r.nesting (level op + 1)) + if level op < n then 1 else 0

def itemNesting : List Phrase → Nat
  | [] => 0
  | e :: es => max (e.nesting 1 + 1) (itemNesting es)

def Access.nesting : Access → Nat
  | .mk root further _ => max root.nesting (furtherNesting further) + 1

def furtherNesting : List Selector → Nat
  | [] => 0
  | s :: ss => max s.nesting (furtherNesting ss)

def Selector.nesting : Selector → Nat
  | .key _ => 0
  | .nested v => v.nesting
  | .index e => e.nesting 1 + 1

end

/-- No brackets, braces or parentheses. -/
def noBrackets (cs : List Char) : Bool :=
  cs.all fun c => !Delimiter.opens c && !Delimiter.closes c

mutual

/-- The texts in computed indexes hold no brackets of any kind; `inside` tells whether the phrase
itself stands in one. -/
def Phrase.clear (inside : Bool) : Phrase → Bool
  | .int _ | .bool _ | .null => true
  | .str cs => !inside || noBrackets cs
  | .array items => allClear inside items
  | .var _ v => v.clear
  | .not _ e | .neg e => e.clear inside
  | .binary _ _ l r => l.clear inside && r.clear inside

def allClear (inside : Bool) : List Phrase → Bool
  | [] => true
  | e :: es => e.clear inside && allClear inside es

def Access.clear : Access → Bool
  | .mk root further _ => root.clear && furtherClear further

def furtherClear : List Selector → Bool
  | [] => true
  | s :: ss => s.clear && furtherClear ss

def Selector.clear : Selector → Bool
  | .key _ => true
  | .nested v => v.clear
  | .index e => e.clear true

end

end BraceTemplate.Source
