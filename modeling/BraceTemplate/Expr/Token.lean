import BraceTemplate.Decimal.Reading
import BraceTemplate.Error
import BraceTemplate.Expr.Delimiter
import BraceTemplate.Text.Letter
import BraceTemplate.Value.Basic

/-! The tokens of expressions. -/
namespace BraceTemplate

inductive Symbol where
  | or | and | eq | ne | le | ge | lt | gt | not | plus | minus | tilde | star | slash | percent
  deriving DecidableEq, Repr

/-- A variable is kept as its source. -/
inductive Token where
  | number (value : Value)
  | text (s : String)
  | word (s : String)
  | var (source : List Char)
  | symbol (s : Symbol)
  | leftParen | rightParen | leftBracket | rightBracket | comma

namespace Token

def isWordChar (c : Char) : Bool := Text.isAlphanumeric c || c == '_'

/-- Characters that continue a variable outside of parentheses and braces. -/
def isVariableChar (c : Char) : Bool := isWordChar c || c == '.' || c == '$' || c == '|'

/-- Cuts a bare variable off; `depth` counts open parentheses and braces. Two bars in a row are an
operator and end it. -/
def variableSpan : Nat → List Char → List Char × List Char
  | _, [] => ([], [])
  | 0, c :: cs =>
    if c = '\x7b' ∨ c = '(' then
      let r := variableSpan 1 cs
      (c :: r.1, r.2)
    else if c = '|' ∧ cs.head? = some '|' then ([], c :: cs)
    else if isVariableChar c then
      let r := variableSpan 0 cs
      (c :: r.1, r.2)
    else ([], c :: cs)
  | depth + 1, c :: cs =>
    let depth' :=
      if c = '\x7b' ∨ c = '(' then depth + 2
      else if c = '\x7d' ∨ c = ')' then depth
      else depth + 1
    let r := variableSpan depth' cs
    (c :: r.1, r.2)

/-- Cuts a text off behind its opening quote; a backslash makes the next character plain. -/
def textSpan? (quote : Char) : List Char → Option (List Char × List Char)
  | [] => none
  | [c] => if c = quote then some ([], []) else none
  | c :: d :: cs =>
    if c = '\\' then (textSpan? quote cs).map fun r => (d :: r.1, r.2)
    else if c = quote then some ([], d :: cs)
    else (textSpan? quote (d :: cs)).map fun r => (c :: r.1, r.2)

/-- Cuts a number off: digits, and digits behind a point. -/
def numberSpan (cs : List Char) : (List Char × List Char) × List Char :=
  let whole := cs.takeWhile Char.isDigit
  match cs.dropWhile Char.isDigit with
  | '.' :: d :: ds =>
    if d.isDigit then ((whole, (d :: ds).takeWhile Char.isDigit), (d :: ds).dropWhile Char.isDigit)
    else ((whole, []), '.' :: d :: ds)
  | rest => ((whole, []), rest)

/-- A number without a fraction must be a signed 64-bit integer. -/
def number? (whole fraction : List Char) : Option Value :=
  if fraction = [] then (Decimal.int64? whole).map .int
  else ((Decimal.float? (whole ++ '.' :: fraction)).filter Float.isFinite).map .float

/-- An operator of two characters or one. -/
def symbol? : List Char → Option (Symbol × List Char)
  | '|' :: '|' :: cs => some (.or, cs)
  | '&' :: '&' :: cs => some (.and, cs)
  | '=' :: '=' :: cs => some (.eq, cs)
  | '!' :: '=' :: cs => some (.ne, cs)
  | '<' :: '=' :: cs => some (.le, cs)
  | '>' :: '=' :: cs => some (.ge, cs)
  | '<' :: cs => some (.lt, cs)
  | '>' :: cs => some (.gt, cs)
  | '!' :: cs => some (.not, cs)
  | '+' :: cs => some (.plus, cs)
  | '-' :: cs => some (.minus, cs)
  | '~' :: cs => some (.tilde, cs)
  | '*' :: cs => some (.star, cs)
  | '/' :: cs => some (.slash, cs)
  | '%' :: cs => some (.percent, cs)
  | _ => none

def punctuation? : Char → Option Token
  | '(' => some .leftParen
  | ')' => some .rightParen
  | '[' => some .leftBracket
  | ']' => some .rightBracket
  | ',' => some .comma
  | _ => none

/-- Why no token starts at a character. -/
def strayCharacter (c : Char) : ExprFault :=
  if c = '=' then .singleEquals else .unexpectedCharacter c

/-- The token at the start of a text that does not start with a blank, and the rest. -/
def next (source : String) (c : Char) (cs : List Char) : Except SyntaxFault (Token × List Char) :=
  let fault (f : ExprFault) : Except SyntaxFault (Token × List Char) :=
    .error (.inExpression f source)
  match punctuation? c with
  | some token => .ok (token, cs)
  | none =>
    if c = '\x7b' then
      match Delimiter.closeBrace? 1 cs with
      | some (inner, rest) => .ok (.var inner.dropLast, rest)
      | none => fault .unclosedVariable
    else if c = '$' then
      let r := variableSpan 0 cs
      .ok (.var (c :: r.1), r.2)
    else if Delimiter.isQuote c then
      match textSpan? c cs with
      | some (s, rest) => .ok (.text (.ofList s), rest)
      | none => fault .unterminatedString
    else if c.isDigit then
      let ((whole, fraction), rest) := numberSpan (c :: cs)
      match number? whole fraction with
      | some v => .ok (.number v, rest)
      | none =>
        let text := if fraction = [] then whole else whole ++ '.' :: fraction
        .error (.invalidNumber (.ofList text))
    else if Text.isAlphabetic c || c == '_' then
      .ok (.word (.ofList (c :: cs.takeWhile isWordChar)), cs.dropWhile isWordChar)
    else match symbol? (c :: cs) with
      | some (s, rest) => .ok (.symbol s, rest)
      | none => fault (strayCharacter c)

/-- Every token takes a character, so `fuel` characters hold at most `fuel` tokens. -/
def scan (source : String) : Nat → List Char → Except SyntaxFault (List Token)
  | 0, _ => .ok []
  | fuel + 1, cs =>
    match Text.trimStart cs with
    | [] => .ok []
    | c :: cs => do
      let (token, rest) ← next source c cs
      return token :: (← scan source fuel rest)

def ofSource (source : List Char) : Except SyntaxFault (List Token) :=
  scan (.ofList source) source.length source

end Token
end BraceTemplate
