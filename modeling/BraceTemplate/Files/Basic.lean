/-! Files and directories, and why a path cannot be read as text. -/
namespace BraceTemplate.Files

/-- Why a path cannot be read or written. -/
inductive Failure where
  | notFound
  | notADirectory
  | isADirectory
  | other (message : String)
  deriving DecidableEq, Repr

/-- What the system calls a failure. -/
def Failure.message : Failure → String
  | .notFound => "No such file or directory (os error 2)"
  | .notADirectory => "Not a directory (os error 20)"
  | .isADirectory => "Is a directory (os error 21)"
  | .other message => message

abbrev Name := List Char

structure File where
  /-- The text, or why it cannot be read. -/
  content : Except Failure String
  modified : Int

/-- What a path leads to. Directories have a time of modification as well. -/
inductive Entry where
  | file (file : File)
  | directory (modified : Int)

namespace Entry

def modified : Entry → Int
  | .file f => f.modified
  | .directory modified => modified

/-- What reading gives. -/
def content : Entry → Except Failure String
  | .file f => f.content
  | .directory _ => .error .isADirectory

end Entry

/-- What paths lead to at some moment. -/
abbrev View := List Char → Except Failure Entry

namespace View

def isFile (view : View) (path : List Char) : Bool :=
  match view path with
  | .ok (.file _) => true
  | _ => false

/-- The text at a path. -/
def text (view : View) (path : List Char) : Except Failure String :=
  (view path).bind Entry.content

end View

end BraceTemplate.Files
