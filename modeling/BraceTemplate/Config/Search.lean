import BraceTemplate.Config.Reading
import BraceTemplate.Files.Path

/-! Configurations and variables in files. -/
namespace BraceTemplate

/-- The content of a file, or the error of the system. -/
def readFile (view : Files.View) (path : List Char) : Except Error String :=
  (view.text path).mapError fun f => .io (.system f)

namespace Config

/-- The names of configuration files, the first that exists in a directory wins. -/
def fileNames : List String := ["wtemplate.json", "wtemplate.yml", "wtemplate.yaml"]

def find? (view : Files.View) (dir : List Char) : Option (List Char) :=
  (fileNames.map fun name => Files.Path.join dir name.toList).find? view.isFile

def load (view : Files.View) (path : List Char) : Except Error Config := do
  read (← readFile view path)

/-- The configuration of a directory, which is the standard one unless there is a file. -/
def ofDirectory (view : Files.View) (dir : List Char) : Except Error Config :=
  match find? view dir with
  | some path => load view path
  | none => .ok standard

end Config
end BraceTemplate
