import BraceTemplate.Markup.Mark

/-!
Walking source node by node. A handler receives plain text and the content of each node, innermost
nodes first; its answer to a node replaces the node, in the content of the enclosing node or in the
text.
-/
namespace BraceTemplate.Markup

/-- A computation that may fail and keeps its state when it does. -/
abbrev Process (σ : Type) := ExceptT Error (StateM σ)

structure Handler (σ : Type) where
  text : List Char → Process σ Unit
  node : (content : List Char) → (inner : Bool) → Process σ (List Char)

/-- An open node: its content so far, last character first, and the position of its brace. -/
structure Level where
  content : List Char
  start : Position

/-- The open nodes, innermost first, and the text since the last top-level node, last character
first. -/
structure Pending where
  levels : List Level
  text : List Char

namespace Pending

def empty : Pending := ⟨[], []⟩

/-- Adds characters to the innermost open node, or to the text. -/
def add (p : Pending) (cs : List Char) : Pending :=
  match p.levels with
  | [] => { p with text := cs.reverse ++ p.text }
  | l :: ls => { p with levels := { l with content := cs.reverse ++ l.content } :: ls }

end Pending

variable {σ : Type}

/-- Attaches a position to the errors of a computation. -/
def located {α : Type} (p : Position) (act : Process σ α) : Process σ α :=
  tryCatch act fun e => throw (e.locate p)

def syntaxErrorAt {α : Type} (p : Position) (fault : SyntaxFault) : Process σ α :=
  throw (.syntaxError fault (some p))

/-- Hands text over unless there is none. -/
def flush (h : Handler σ) (text : List Char) : Process σ Unit :=
  if text = [] then pure () else h.text text

/-- Closes the innermost node; the text of a top-level node's answer is handed over at once. -/
def closeNode (h : Handler σ) (level : Level) (rest : Pending) : Process σ Pending := do
  let inner := !rest.levels.isEmpty
  let answer ← located level.start (h.node level.content.reverse inner)
  if inner then return rest.add answer
  else
    flush h answer
    return rest

def step (h : Handler σ) (p : Pending) (mark : Mark × Position) : Process σ Pending :=
  match mark.1, p.levels with
  | .plain c, _ => return p.add [c]
  | .opening, [] => do
    flush h p.text.reverse
    return ⟨[⟨[], mark.2⟩], []⟩
  | .opening, levels => return { p with levels := ⟨[], mark.2⟩ :: levels }
  | .closing, [] => return p.add ['\x7d']
  | .closing, level :: levels => closeNode h level { p with levels := levels }
  | .lineBreak, [] => return p.add ['\n']
  | .lineBreak, level :: _ =>
    syntaxErrorAt level.start (.lineBreakInNode (.ofList level.content.reverse))
  | .openComment, _ => syntaxErrorAt mark.2 .unterminatedComment

/-- The end of the source: no node may be open. -/
def finish (h : Handler σ) (p : Pending) : Process σ Unit :=
  match p.levels with
  | [] => flush h p.text.reverse
  | level :: _ => syntaxErrorAt level.start (.unterminatedNode (.ofList level.content.reverse))

/-- Hands the text and the nodes of a source to a handler, in order. -/
def walk (h : Handler σ) (source : List Char) : Process σ Unit := do
  finish h (← (marks source).foldlM (step h) .empty)

/-- Replaces every node by an answer of its own. -/
def replace (answer : List Char → Bool → Except Error (List Char)) (source : List Char) :
    Except Error (List Char) :=
  let handler : Handler (List Char) :=
    { text := fun text => modify (· ++ text)
      node := fun content inner => liftExcept (answer content inner) }
  match (walk handler source).run [] with
  | (.ok _, output) => .ok output
  | (.error e, _) => .error e

end BraceTemplate.Markup
