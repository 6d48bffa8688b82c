/-! Trees of a YAML document, and the anchors by which one part of a tree stands for another. -/
namespace BraceTemplate.Yaml

inductive Style where
  | plain
  | literal
  | quoted
  deriving DecidableEq, Repr

inductive Node where
  | scalar (style : Style) (tag : Option String) (text : String)
  | sequence (tag : Option String) (items : List Node)
  | mapping (tag : Option String) (entries : List (Node × Node))
  | alias (number : Nat)
  deriving Repr

/-- What stands where nothing is written. -/
def Node.absent (tag : Option String) : Node := .scalar .plain tag ""

mutual

/-- The number of scalars, aliases and ends of collections in a tree. -/
def Node.size : Node → Nat
  | .scalar .. | .alias _ => 1
  | .sequence _ items => 2 + sizeOfItems items
  | .mapping _ entries => 2 + sizeOfEntries entries

def sizeOfItems : List Node → Nat
  | [] => 0
  | n :: ns => n.size + sizeOfItems ns

def sizeOfEntries : List (Node × Node) → Nat
  | [] => 0
  | (k, v) :: es => k.size + v.size + sizeOfEntries es

end

/-- A name for a node. The number of an anchor is the count of different names before it, so names
that come after a repeated one may share a number. -/
structure Anchor where
  name : String
  number : Nat
  deriving DecidableEq, Repr

/-- A tree with its anchors, latest first. The serial of an anchor counts the anchors before it. -/
structure Document where
  root : Node
  anchors : List Anchor
  /-- Anchored nodes by their serials. -/
  nodes : List (Nat × Node)

namespace Anchor

/-- The anchor that a new use of a name makes. -/
def next (anchors : List Anchor) (name : String) : Anchor :=
  ⟨name, (anchors.map Anchor.name).eraseDups.length⟩

/-- The number that a name stands for. -/
def number? (anchors : List Anchor) (name : String) : Option Nat :=
  (anchors.find? fun a => a.name = name).map Anchor.number

/-- The serial of the latest anchor with a number. -/
def serial? (number : Nat) : List Anchor → Option Nat
  | [] => none
  | a :: anchors => if a.number = number then some anchors.length else serial? number anchors

end Anchor

namespace Document

def target? (d : Document) (number : Nat) : Option Node :=
  (Anchor.serial? number d.anchors).bind fun serial => d.nodes.lookup serial

/-- The node that a node stands for; what an alias stands for is no alias. -/
def resolve? (d : Document) : Node → Option Node
  | .alias number => d.target? number
  | n => some n

end Document
end BraceTemplate.Yaml
