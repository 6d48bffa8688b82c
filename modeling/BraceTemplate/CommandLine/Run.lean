import BraceTemplate.CommandLine.Help
import BraceTemplate.Config.Search
import BraceTemplate.Engine
import BraceTemplate.Files.Tree

/-!
Runs of the command: settings and variables are read, one template is rendered, and its text goes to
a file or to standard output. Nothing is written where anything before fails.
-/
namespace BraceTemplate.CommandLine

/-- What a run says and what it leaves to be written. -/
structure Outcome where
  exitCode : Nat
  output : String
  message : String
  warnings : List Warning
  /-- A file to write, with its content. -/
  written : Option (String × String)
  /-- The error that ended the run. -/
  error : Option Error

namespace Outcome

def said (exitCode : Nat) (output message : String) : Outcome :=
  ⟨exitCode, output, message, [], none, none⟩

/-- Where the program crashes it aborts. -/
def failed (e : Error) (warnings : List Warning) : Outcome :=
  ⟨if e = .crashed then 134 else 1, "", e.message ++ "\n", warnings, none, some e⟩

/-- Help for a missing template is no success, but help that was asked for is. -/
def ofHalt : Halt → Outcome
  | .helpAsked => said 0 help ""
  | .versionAsked => said 0 version ""
  | .missingTemplate => said 1 help ""
  | h => said 2 "" ("error: " ++ h.message ++ "\n\n" ++ usage)

end Outcome

namespace Options

/-- The directory of the template, unless it is the current one. -/
def directory? (o : Options) : Option (List Char) := Files.Path.directory? o.template.toList

def readConfig (o : Options) (view : Files.View) : Except Error Config :=
  match o.config with
  | some path => Config.load view path.toList
  | none => Config.ofDirectory view (o.directory?.getD ['.'])

/-- Variables on standard input win over those in a file. -/
def readVars (o : Options) (view : Files.View) (stdin : String) :
    Except Error (List (String × Value)) := do
  if o.stdin then readVariables stdin
  else match o.vars with
    | some path => readVariables (← readFile view path.toList)
    | none => return []

def readTemplate (o : Options) (view : Files.View) : Except Error String :=
  (view.text o.template.toList).mapError fun f => .io (.unreadable o.template f)

/-- Renders the template in an engine with the variables. -/
def render (o : Options) (speller : Text.Speller) (view : Files.View) (stdin : String) :
    Except Error Engine.Rendered := do
  let engine := Engine.ofConfig speller (← o.readConfig view)
  let vars ← o.readVars view stdin
  let engine := { engine with context := engine.context.assignAll vars false }
  let source ← o.readTemplate view
  return engine.render view (← engine.compile source (o.directory?.map String.ofList))

def run (o : Options) (speller : Text.Speller) (view : Files.View) (stdin : String) : Outcome :=
  match o.render speller view stdin with
  | .error e => .failed e []
  | .ok r =>
    match r.result, o.output with
    | .error e, _ => .failed e r.warnings
    | .ok text, none => ⟨0, text, "", r.warnings, none, none⟩
    | .ok text, some path => ⟨0, "", "", r.warnings, some (path, text), none⟩

/-- The paths that a run reads before it renders. -/
def inputs (o : Options) : List String :=
  let dir := o.directory?.getD ['.']
  let configs := match o.config with
    | some path => [path]
    | none => Config.fileNames.map fun name => .ofList (Files.Path.join dir name.toList)
  configs ++ o.vars.toList ++ [o.template]

end Options

def run (args : List String) (speller : Text.Speller) (view : Files.View) (stdin : String) :
    Outcome :=
  match Options.read args with
  | .ok o => o.run speller view stdin
  | .error h => .ofHalt h

/-- Writes what a run leaves to be written; the run fails if that fails. -/
def Outcome.settle (o : Outcome) (tree : Files.Tree) : Outcome × Files.Tree :=
  match o.written with
  | none => (o, tree)
  | some (path, content) =>
    match tree.write path.toList content with
    | .ok tree => (o, tree)
    | .error f => (failed (.io (.system f)) o.warnings, tree)

end BraceTemplate.CommandLine
