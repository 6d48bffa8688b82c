import BraceTemplate.Files.Basic
import BraceTemplate.Text.Blank

/-! Paths as text: components, parents, joining, and includes relative to a directory. -/
namespace BraceTemplate.Files.Path

def isSlash (c : Char) : Bool := c == '/'

def isAbsolute (path : List Char) : Bool := path.head? = some '/'

/-- The part of a path before its names: a root, a leading dot, or nothing. -/
def lead : List Char → List Char
  | '/' :: _ => ['/']
  | ['.'] => ['.']
  | '.' :: '/' :: _ => ['.']
  | _ => []

/-- Pieces between slashes that name nothing. -/
def isVoid (piece : List Char) : Bool := piece = [] || piece = ['.']

/-- The pieces behind the lead. -/
def pieces (path : List Char) : List (List Char) :=
  Text.splitAll isSlash (path.drop (lead path).length)

/-- What two spellings of one path have in common: the lead and the names. -/
def key (path : List Char) : List Char × List Name :=
  (lead path, (pieces path).filter fun p => !isVoid p)

def joinSlash (pieces : List (List Char)) : List Char := ['/'].intercalate pieces

/-- The directory of a path, in the spelling of the path. -/
def parent? (path : List Char) : Option (List Char) :=
  match (pieces path).reverse.dropWhile isVoid with
  | _ :: rest => some (lead path ++ joinSlash (rest.dropWhile isVoid).reverse)
  | [] => if lead path = ['.'] then some [] else none

/-- The directory of a path, unless it is the empty one. -/
def directory? (path : List Char) : Option (List Char) := (parent? path).filter (· ≠ [])

/-- A path below a base; an absolute path stands for itself. -/
def join (base path : List Char) : List Char :=
  if isAbsolute path then path
  else if base = [] ∨ base.getLast? = some '/' then base ++ path
  else base ++ '/' :: path

/-- What stands before the last slash, with the rest. -/
def cutLast? (path : List Char) : Option (List Char) :=
  match path.reverse.dropWhile fun c => !isSlash c with
  | [] => none
  | _ :: before => some before.reverse

/-- One directory up, by the text alone. -/
def above (base : List Char) : List Char := (cutLast? base).getD ['.']

/-- Applies the leading `./` and `../` of a path to a base. -/
def resolveFrom (base : List Char) : List Char → List Char
  | '.' :: '/' :: rest => resolveFrom base rest
  | '.' :: '.' :: '/' :: rest => resolveFrom (above base) rest
  | rest => base ++ '/' :: rest

def trimSlashes (path : List Char) : List Char := (path.reverse.dropWhile isSlash).reverse

/-- The directory of a path and the name behind its last slash. -/
def split (path : List Char) : List Char × List Char :=
  match cutLast? path with
  | some [] => (['/'], path.drop 1)
  | some dir => (dir, path.drop (dir.length + 1))
  | none => (['.'], path)

/-- The place of a relative path seen from a directory. -/
def resolveRelative (dir path : List Char) : List Char := resolveFrom (trimSlashes dir) path

/-- Whether a path starts from its own directory. -/
def isRelativeToSelf (path : List Char) : Bool :=
  (Text.dropLead? ['.', '/'] path).isSome || (Text.dropLead? ['.', '.', '/'] path).isSome

end BraceTemplate.Files.Path
