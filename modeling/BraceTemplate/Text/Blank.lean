/-! White space in the sense of the Unicode property `White_Space`, and cutting text at it. -/
namespace BraceTemplate.Text

def isBlank (c : Char) : Bool :=
  let n := c.toNat
  (9 ≤ n && n ≤ 13) || n == 0x20 || n == 0x85 || n == 0xA0 || n == 0x1680 ||
    (0x2000 ≤ n && n ≤ 0x200A) || n == 0x2028 || n == 0x2029 || n == 0x202F || n == 0x205F ||
    n == 0x3000

def trimStart (cs : List Char) : List Char := cs.dropWhile isBlank

def trimEnd (cs : List Char) : List Char := (cs.reverse.dropWhile isBlank).reverse

/-- Drops the blanks at both ends. -/
def trim (cs : List Char) : List Char := trimEnd (trimStart cs)

/-- Splits at the first character in a class; the character itself is dropped. -/
def splitOnce (sep : Char → Bool) : List Char → Option (List Char × List Char)
  | [] => none
  | c :: cs => if sep c then some ([], cs) else (splitOnce sep cs).map fun r => (c :: r.1, r.2)

/-- The pieces between the characters of a class, empty pieces included. -/
def splitAll (sep : Char → Bool) : List Char → List (List Char)
  | [] => [[]]
  | c :: cs =>
    if sep c then [] :: splitAll sep cs
    else match splitAll sep cs with
      | [] => [[c]]
      | piece :: pieces => (c :: piece) :: pieces

/-- The non-empty pieces between blanks. -/
def words (cs : List Char) : List (List Char) := (splitAll isBlank cs).filter (· ≠ [])

/-- What follows `start`, if the text begins with it. -/
def dropLead? : List Char → List Char → Option (List Char)
  | [], cs => some cs
  | _ :: _, [] => none
  | p :: ps, c :: cs => if p = c then dropLead? ps cs else none

/-- What stands before `tail`, if the text ends with it. -/
def dropTail? (tail cs : List Char) : Option (List Char) :=
  (dropLead? tail.reverse cs.reverse).map List.reverse

end BraceTemplate.Text
