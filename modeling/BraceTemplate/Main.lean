import BraceTemplate.CommandLine.Run

/-!
The command itself. A run sees the files that are known; where it ends at one that is not known yet,
the file is read and the run starts again.
-/
namespace BraceTemplate.CommandLine

/-- What reading paths has given. -/
abbrev Known := List (String × Except Files.Failure Files.Entry)

def Known.view (known : Known) : Files.View := fun path =>
  (known.lookup (.ofList path)).getD (.error .notFound)

/-- The path at which a run ended without knowing the file. -/
def Known.missing? (known : Known) (o : Outcome) : Option String :=
  match o.error with
  | some (.io (.unreadable path _)) => if (known.lookup path).isNone then some path else none
  | _ => none

/-- Tells a failure of the system; other failures end the command. -/
def failureOf {α : Type} (error : IO.Error) : IO (Except Files.Failure α) :=
  match error with
  | .noFileOrDirectory .. => return .error .notFound
  | .inappropriateType _ code _ =>
    return .error (if code = 21 then .isADirectory else .notADirectory)
  | error => throw error

def Known.add (known : Known) (path : String) : IO Known := do
  match ← (IO.FS.readFile path).toBaseIO with
  | .ok content => return (path, .ok (.file ⟨.ok content, 0⟩)) :: known
  | .error error =>
    match ← (failureOf error : IO (Except Files.Failure Files.Entry)) with
    | .error .isADirectory => return (path, .ok (.directory 0)) :: known
    | entry => return (path, entry) :: known

partial def runKnowing (args : List String) (stdin : String) (known : Known) : IO Outcome := do
  let o := run args Text.WordCase.speller known.view stdin
  match known.missing? o with
  | some path => runKnowing args stdin (← known.add path)
  | none => return o

partial def readToEnd (stream : IO.FS.Stream) (text : String) : IO String := do
  let line ← stream.getLine
  if line.isEmpty then return text else readToEnd stream (text ++ line)

/-- Writes what a run leaves to be written. -/
def write (o : Outcome) : IO Outcome := do
  match o.written with
  | none => return o
  | some (path, content) =>
    match ← (IO.FS.writeFile path content).toBaseIO with
    | .ok _ => return o
    | .error error =>
      match ← (failureOf error : IO (Except Files.Failure Unit)) with
      | .error f => return .failed (.io (.system f)) o.warnings
      | .ok _ => return o

/-- Runs the command and gives its exit code. -/
def perform (args : List String) : IO UInt32 := do
  let (paths, asksStdin) := match Options.read args with
    | .ok o => (o.inputs, o.stdin)
    | .error _ => ([], false)
  let known ← paths.foldlM Known.add []
  let stdin ← if asksStdin then readToEnd (← IO.getStdin) "" else pure ""
  let o ← write (← runKnowing args stdin known)
  for w in o.warnings do
    IO.eprintln ("[WARN] " ++ w.message)
  IO.eprint o.message
  IO.print o.output
  return .ofNat o.exitCode

end BraceTemplate.CommandLine

def main (args : List String) : IO UInt32 := BraceTemplate.CommandLine.perform args
