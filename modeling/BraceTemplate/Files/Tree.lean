import BraceTemplate.Files.Basic
import BraceTemplate.Files.Path

/-! A tree of files and directories with modification times. -/
namespace BraceTemplate.Files

/-- Files by the names that lead to them, and the directories that were made for them. -/
structure Tree where
  files : List (List Name × File)
  directories : List (List Name)
  /-- When the system says that directories were changed. -/
  stamps : List Name → Int

/-- Where a walk along a path has got to. Nothing is known above the top of the tree. -/
inductive Place where
  | directory (names : List Name)
  | outside
  | file (names : List Name) (file : File)

namespace Tree

def empty : Tree := ⟨[], [], fun _ => 0⟩

def file? (t : Tree) (names : List Name) : Option File := t.files.lookup names

def isDirectory (t : Tree) (names : List Name) : Bool := names = [] || t.directories.contains names

/-- One step of a walk. Only directories have anything below them. -/
def enter (t : Tree) (p : Place) (piece : Name) : Except Failure Place :=
  match p with
  | .file .. => .error .notADirectory
  | .outside =>
    if piece = [] ∨ piece = ['.'] ∨ piece = ['.', '.'] then .ok p else .error .notFound
  | .directory names =>
    if piece = [] ∨ piece = ['.'] then .ok p
    else if piece = ['.', '.'] then
      match names with
      | [] => .ok .outside
      | names => .ok (.directory names.dropLast)
    else if t.isDirectory (names ++ [piece]) then .ok (.directory (names ++ [piece]))
    else match t.file? (names ++ [piece]) with
      | some file => .ok (.file (names ++ [piece]) file)
      | none => .error .notFound

/-- The place of a path. The empty path names nothing. -/
def place? (t : Tree) (path : List Char) : Except Failure Place :=
  if path = [] then .error .notFound
  else
    let origin : Place := if Path.isAbsolute path then .outside else .directory []
    (Text.splitAll Path.isSlash path).foldlM t.enter origin

/-- What a place holds. -/
def entry (t : Tree) : Place → Entry
  | .directory names => .directory (t.stamps names)
  | .outside => .directory (t.stamps [['.', '.']])
  | .file _ file => .file file

/-- What is at a path. -/
def read (t : Tree) (path : List Char) : Except Failure Entry := (t.place? path).map t.entry

/-- The names of a path, void pieces left out. -/
def namesOf (path : String) : List Name :=
  (Text.splitAll Path.isSlash path.toList).filter fun p => !Path.isVoid p

/-- All proper beginnings of a row of names except the empty one. -/
def ancestors (names : List Name) : List (List Name) :=
  (List.range (names.length - 1)).map fun i => names.take (i + 1)

def putAt (t : Tree) (names : List Name) (file : File) : Tree where
  stamps := t.stamps
  files := (names, file) :: t.files.filter fun e => e.1 ≠ names
  directories := t.directories ++ (ancestors names).filter fun d => !t.directories.contains d

/-- Puts a file into the tree and makes the directories above it. -/
def put (t : Tree) (path : String) (file : File) : Tree := t.putAt (namesOf path) file

/-- Takes a file out of the tree; its directory stays. -/
def remove (t : Tree) (path : String) : Tree :=
  { t with files := t.files.filter fun e => e.1 ≠ namesOf path }

/-- The system changes what it says of directories, as it does when files are written. -/
def stamp (t : Tree) (times : List Name → Int) : Tree := { t with stamps := times }

/-- Writes to a path whose directory must exist. A slash at the end asks for a directory. -/
def write (t : Tree) (path : List Char) (content : String) : Except Failure Tree := do
  let (dir, name) := Path.split (Path.trimSlashes path)
  if path = [] then throw .notFound
  let place ← t.place? dir
  if name = [] ∨ path.getLast? = some '/' then throw .isADirectory
  match t.enter place name, place with
  | .ok (.file names file), _ => return t.putAt names { file with content := .ok content }
  | .ok _, _ => throw .isADirectory
  | .error .notFound, .directory names => return t.putAt (names ++ [name]) ⟨.ok content, 0⟩
  | .error f, _ => throw f

end Tree
end BraceTemplate.Files
