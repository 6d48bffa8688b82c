import BraceTemplate.Compile.Draft
import BraceTemplate.Files.Path

/-!
Loaders: where included templates come from. A loader of files keeps what it compiled and compiles a
path again only when its modification time has changed. A host may have loaders of its own, with
answers and failures that depend on all that they have been asked.
-/
namespace BraceTemplate

/-- A compiled file, filed under the key of its path. -/
structure Cached where
  key : List Char × List Files.Name
  modified : Int
  template : Template

structure FileLoader where
  baseDir : Option String
  cache : List Cached

/-- What a loader is asked: a reference, with the files and the handlers of that moment. -/
structure Request where
  view : Files.View
  registry : Registry
  href : String

/-- A loader of the host. It answers by what it has been asked so far, latest first. -/
structure HostLoader where
  asked : List Request
  answer : List Request → Except Error Template

inductive Loader where
  | memory (sources : Dict String)
  | files (loader : FileLoader)
  | host (loader : HostLoader)

namespace FileLoader

/-- The path of a reference; relative ones start from the base directory, if there is one. -/
def resolve (l : FileLoader) (href : String) : List Char :=
  match l.baseDir with
  | some base => Files.Path.join base.toList href.toList
  | none => href.toList

def cached? (l : FileLoader) (path : List Char) (modified : Int) : Option Template :=
  (l.cache.find? fun c => c.key = Files.Path.key path && c.modified = modified).map
    Cached.template

/-- Replaces what was kept for a path. -/
def keep (l : FileLoader) (path : List Char) (modified : Int) (template : Template) : FileLoader :=
  let key := Files.Path.key path
  { l with cache := ⟨key, modified, template⟩ :: l.cache.filter fun c => c.key ≠ key }

def unreadable (path : List Char) (f : Files.Failure) : Error :=
  .io (.unreadable (.ofList path) f)

/-- Reads what is at a path and compiles it in a directory. -/
def compileAt (registry : Registry) (path : List Char) (entry : Files.Entry)
    (dir : Option String) : Except Error Template := do
  compile registry (← entry.content.mapError (unreadable path)) dir

/-- Loads a template and compiles it in its own directory. The cache is asked by the modification
time alone, before anything is read. -/
def load (l : FileLoader) (view : Files.View) (registry : Registry) (href : String) :
    Except Error Template × FileLoader :=
  let path := l.resolve href
  match view path with
  | .error f => (.error (unreadable path f), l)
  | .ok entry =>
    match l.cached? path entry.modified with
    | some template => (.ok template, l)
    | none =>
      let dir := (Files.Path.directory? path).map String.ofList
      match compileAt registry path entry dir with
      | .ok template => (.ok template, l.keep path entry.modified template)
      | .error e => (.error e, l)

end FileLoader

namespace HostLoader

def load (l : HostLoader) (request : Request) : Except Error Template × HostLoader :=
  let asked := request :: l.asked
  (l.answer asked, { l with asked := asked })

end HostLoader

namespace Loader

def load (l : Loader) (view : Files.View) (registry : Registry) (href : String) :
    Except Error Template × Loader :=
  match l with
  | .memory sources =>
    match Dict.find? sources href with
    | some source => (compile registry source none, l)
    | none => (.error (.io (.unknownSource href)), l)
  | .files loader =>
    let (result, loader) := loader.load view registry href
    (result, .files loader)
  | .host loader =>
    let (result, loader) := loader.load ⟨view, registry, href⟩
    (result, .host loader)

end Loader
end BraceTemplate
