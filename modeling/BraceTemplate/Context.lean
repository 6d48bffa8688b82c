import BraceTemplate.Expr.Eval

/-!
Stacks of variable layers, one of which is active. A pushed layer starts with the global names only;
dropping it brings the bindings below back. A global binding is written to every layer.
-/
namespace BraceTemplate

structure Context where
  /-- The bindings in use while there is no layer. -/
  detached : Layer
  layers : List Layer
  active : Nat
  globals : List String

namespace Context

def empty : Context := ⟨[], [], 0, []⟩

def depth (c : Context) : Nat := c.layers.length

def activeLayer (c : Context) : Layer :=
  if c.layers = [] then c.detached else c.layers.getD c.active []

/-- Changes the active layer only. -/
def modifyActive (c : Context) (f : Layer → Layer) : Context :=
  if c.layers = [] then { c with detached := f c.detached }
  else { c with layers := c.layers.modify c.active f }

def isGlobal (c : Context) (name : String) : Bool := c.globals.contains name

/-- The global names that are bound, with their values. -/
def inherited (c : Context) : Layer :=
  Dict.ofList (c.globals.filterMap fun name =>
    (Dict.find? c.activeLayer name).map fun value => (name, value))

/-- Starts a new layer. The detached bindings, if there are any, become a layer below it. -/
def push (c : Context) : Context :=
  let archived := if c.layers = [] ∧ c.detached ≠ [] then
    { c with layers := [c.detached], detached := [] } else c
  { archived with
    layers := archived.layers ++ [archived.inherited]
    active := archived.layers.length }

/-- Drops the top layer; the last one is only emptied. -/
def pop (c : Context) : Context :=
  match c.layers with
  | [] => c
  | [_] => { c with layers := [[]], active := 0 }
  | layers => { c with layers := layers.dropLast, active := layers.length - 2 }

/-- Binds a name in the active layer, and in every layer if it is to be global. -/
def assign (c : Context) (name : String) (value : Value) (global : Bool) : Context :=
  let spread :=
    if global then
      { c with
        globals := if c.globals.contains name then c.globals else c.globals ++ [name]
        layers := c.layers.map fun layer => Dict.insert layer name value }
    else c
  spread.modifyActive fun layer => Dict.insert layer name value

def assignAll (c : Context) (values : List (String × Value)) (global : Bool) : Context :=
  values.foldl (fun c e => c.assign e.1 e.2 global) c

/-- The value of a name with another one appended: sequences grow, and other values become the first
item of one. -/
def appended (old : Option Value) (value : Value) : Value :=
  match old with
  | some (.list items) => .list (items ++ [value])
  | some .null | none => .list [value]
  | some v => .list [v, value]

/-- Appends to the value of a name in the active layer. -/
def append (c : Context) (name : String) (value : Value) : Context :=
  c.modifyActive fun layer => Dict.insert layer name (appended (Dict.find? layer name) value)

/-- The value of a name; absent values are the empty text. -/
def get (c : Context) (name : String) : Value :=
  match Dict.find? c.activeLayer name with
  | some .null | none => .str ""
  | some v => v

/-- Unbinds a name in the active layer. -/
def clear (c : Context) (name : String) : Context :=
  c.modifyActive fun layer => Dict.erase layer name

def clearAll (c : Context) (names : List String) : Context := names.foldl clear c

end Context
end BraceTemplate
