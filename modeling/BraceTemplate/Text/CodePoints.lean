import BraceTemplate.Text.Blank

/-!
Tables of code points. A table is text: blank-separated runs `first-last/step>image` of hexadecimal
numbers, in ascending order and disjoint, where `last`, `step` and `image` may be left out.
-/
namespace BraceTemplate.Text.CodePoints

/-- The code points `first`, `first + step`, … up to `last`; a map sends `first` to `image` and
the others to the code points as far behind it. -/
structure Run where
  first : Nat
  last : Nat
  step : Nat
  image : Nat
  deriving DecidableEq, Repr

def hexDigit (c : Char) : Nat :=
  if c.isDigit then c.toNat - '0'.toNat else c.toNat - 'A'.toNat + 10

def hex (cs : List Char) : Nat := cs.foldl (fun n c => 16 * n + hexDigit c) 0

/-- Cuts an optional part off: what stands before `sep`, and the number after it. -/
def cut (sep : Char) (cs : List Char) : List Char × Option Nat :=
  match splitOnce (· = sep) cs with
  | some (before, after) => (before, some (hex after))
  | none => (cs, none)

def Run.ofWord (word : List Char) : Run :=
  let (word, image) := cut '>' word
  let (word, step) := cut '/' word
  let (word, last) := cut '-' word
  let first := hex word
  ⟨first, last.getD first, step.getD 1, image.getD first⟩

def runs (table : String) : List Run := (words table.toList).map Run.ofWord

/-- The image of a code point that lies in a run. -/
def image? : List Run → Nat → Option Nat
  | [], _ => none
  | r :: rs, n =>
    if n < r.first then none
    else if r.last < n then image? rs n
    else if (n - r.first) % r.step = 0 then some (r.image + (n - r.first)) else none

def contains (rs : List Run) (n : Nat) : Bool := (image? rs n).isSome

/-- Entries `point>image+image` of code points with several images. -/
def expansions (table : String) : List (Nat × List Char) :=
  (words table.toList).filterMap fun word =>
    (splitOnce (· = '>') word).map fun (point, images) =>
      (hex point, (splitAll (· = '+') images).map fun i => Char.ofNat (hex i))

end BraceTemplate.Text.CodePoints
