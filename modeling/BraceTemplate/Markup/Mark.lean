import BraceTemplate.Error

/-!
The marks of template source: plain characters, the braces and line breaks that nodes are made of,
and comments that never end. Which marks stand where does not depend on the nodes that are open.
-/
namespace BraceTemplate.Markup

/-- A character that makes a brace before it open a node. -/
def startsNode (c : Char) : Bool := c.isAlphanum || c == '/' || c == '$'

/-- A character that a backslash makes plain. -/
def isEscapable (c : Char) : Bool := c == '\x7b' || c == '\x7d' || c == '\\'

inductive Mark where
  | plain (c : Char)
  | opening
  | closing
  | lineBreak
  | openComment
  deriving DecidableEq, Repr

/-- What the scanner is inside of: the body, or a comment with its last character and its start. -/
inductive Inside where
  | body
  | comment (last : Char) (start : Position)
  deriving DecidableEq, Repr

/-- The mark of one character that is neither part of an escape nor opens anything. -/
def Mark.ofChar (c : Char) : Mark :=
  if c = '\x7d' then .closing else if c = '\n' then .lineBreak else .plain c

/-- The marks of a rest of source, each with the position it starts at. A comment runs to the first
closing brace behind a percent sign and leaves no mark. -/
def scan : Inside → Position → List Char → List (Mark × Position)
  | .comment _ start, _, [] => [(.openComment, start)]
  | .comment last start, p, c :: cs =>
    if last = '%' ∧ c = '\x7d' then scan .body (p.after c) cs
    else scan (.comment c start) (p.after c) cs
  | .body, _, [] => []
  | .body, p, [c] => [(Mark.ofChar c, p)]
  | .body, p, c :: d :: cs =>
    if c = '\\' ∧ isEscapable d then (.plain d, p) :: scan .body ((p.after c).after d) cs
    else if c = '\x7b' ∧ d = '%' then
      scan (.comment (Char.ofNat 0) p) ((p.after c).after d) cs
    else if c = '\x7b' ∧ startsNode d then (.opening, p) :: scan .body (p.after c) (d :: cs)
    else (Mark.ofChar c, p) :: scan .body (p.after c) (d :: cs)

def marks (source : List Char) : List (Mark × Position) := scan .body .start source

end BraceTemplate.Markup
