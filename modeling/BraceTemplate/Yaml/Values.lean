import BraceTemplate.Yaml.Document
import BraceTemplate.Yaml.Schema

/-!
Reading values from YAML text. Collections nest at most 128 deep, aliases counted in, and there are
at most 100 uses of aliases for each node of the document.
-/
namespace BraceTemplate.Yaml

/-- A reading that may still use so many aliases. -/
abbrev Expand := StateT Nat Option

namespace Document

/-- The node that a node stands for. -/
def expand (d : Document) : Node → Expand Node
  | .alias number => do
    let left ← get
    if left = 0 then failure
    set (left - 1)
    return ← (d.target? number : Option Node)
  | n => return n

/-- Keys are scalars, read as text. -/
def key (d : Document) (n : Node) : Expand String := do
  match ← d.expand n with
  | .scalar _ _ text => return text
  | _ => failure

/-- The value of a node; its collections nest at most `depth` deep. -/
def value (d : Document) (depth : Nat) (n : Node) : Expand Value := do
  match ← d.expand n, depth with
  | .scalar style tag text, _ => return ← (scalarValue? style tag text : Option Value)
  | .sequence tag items, depth + 1 =>
    if isLocal tag then failure
    return .list (← items.mapM (d.value depth))
  | .mapping tag entries, depth + 1 =>
    if isLocal tag then failure
    let fields ← entries.mapM fun e => do return (← d.key e.1, ← d.value depth e.2)
    return .dict (Dict.ofList fields)
  | _, _ => failure
  termination_by structural depth

def maxNesting : Nat := 128

def value? (d : Document) : Option Value := (d.value maxNesting d.root).run' (100 * d.root.size)

end Document

/-- The value of a text; one that holds nothing is null. -/
def readValue? (text : String) : Option Value := do
  match ← Contents.read? text with
  | .nothing => return .null
  | .document d => d.value?

end BraceTemplate.Yaml
