import BraceTemplate.Program.Template
import BraceTemplate.Warning

/-!
Node handlers by name. The directives are there from the start and stay; a name keeps its first
handler.
-/
namespace BraceTemplate

inductive Directive where
  | cond
  | elseCond
  | otherwise
  | loop
  | empty
  | set
  | defineBlock
  | block
  | range
  | include
  deriving DecidableEq, Repr

namespace Directive

def all : List (String × Directive) :=
  [("if", .cond), ("elseif", .elseCond), ("else", .otherwise), ("for", .loop), ("empty", .empty),
   ("set", .set), ("define_block", .defineBlock), ("block", .block), ("range", .range),
   ("include", .include)]

/-- Whether the directive opens a section. -/
def hasClose : Directive → Bool
  | .cond | .loop | .empty | .defineBlock | .range => true
  | _ => false

end Directive

/-- Handlers of a host: what an opening node with given arguments stands for, and what a closing
node stands for if there is one. -/
structure External where
  opening : String → Except Error (List Instruction)
  closing : Option (Except Error (List Instruction))

inductive NodeHandler where
  | directive (d : Directive)
  | external (e : External)

def NodeHandler.hasClose : NodeHandler → Bool
  | .directive d => d.hasClose
  | .external e => e.closing.isSome

structure Registry where
  handlers : Dict NodeHandler

namespace Registry

def builtin : Registry := ⟨Directive.all.map fun e => (e.1, .directive e.2)⟩

def find? (r : Registry) (name : String) : Option NodeHandler := Dict.find? r.handlers name

def contains (r : Registry) (name : String) : Bool := (r.find? name).isSome

/-- Adds a handler unless the name is taken. -/
def register (r : Registry) (name : String) (e : External) : Bool × Registry :=
  if r.contains name then (false, r)
  else (true, ⟨Dict.insert r.handlers name (.external e)⟩)

/-- Removes the handler of a host; directives stay, with a warning. -/
def unregister (r : Registry) (name : String) : Bool × Registry × List Warning :=
  match r.find? name with
  | some (.external _) => (true, ⟨Dict.erase r.handlers name⟩, [])
  | some (.directive _) => (false, r, [.builtinKept name])
  | none => (false, r, [])

end Registry
end BraceTemplate
