/-!
Reading the arguments of the command. An option may be given once; its value stands behind it, or
attached to it. A value is checked when the next option or text is read, so that of two faults the
first one read is not always the first one told.
-/
namespace BraceTemplate.CommandLine

structure Options where
  template : String
  vars : Option String
  stdin : Bool
  output : Option String
  config : Option String
  verbose : Bool
  deriving DecidableEq, Repr

/-- Why there are no options to run with. -/
inductive Halt where
  | unknownArgument
  | invalidValue
  | argumentConflict
  | tooManyValues
  | missingTemplate
  | helpAsked
  | versionAsked
  deriving DecidableEq, Repr

/-- What takes a value. -/
inductive Slot where
  | template
  | vars
  | output
  | config
  deriving DecidableEq, Repr

/-- What takes none. -/
inductive Switch where
  | stdin
  | verbose
  | help
  | version
  deriving DecidableEq, Repr

inductive Opt where
  | slot (s : Slot)
  | switch (s : Switch)
  deriving DecidableEq, Repr

/-- The option with a long name. -/
def Opt.long? (name : List Char) : Option Opt :=
  match String.ofList name with
  | "vars" => some (.slot .vars)
  | "stdin" => some (.switch .stdin)
  | "output" => some (.slot .output)
  | "config" => some (.slot .config)
  | "verbose" => some (.switch .verbose)
  | "help" => some (.switch .help)
  | "version" => some (.switch .version)
  | _ => none

/-- The option with a name of one letter. -/
def Opt.short? : Char → Option Opt
  | 's' => some (.switch .stdin)
  | 'o' => some (.slot .output)
  | 'c' => some (.slot .config)
  | 'v' => some (.switch .verbose)
  | 'h' => some (.switch .help)
  | 'V' => some (.switch .version)
  | _ => none

/-- What has been read so far. The last slot is filled when the reading goes on. -/
structure Given where
  values : List (Slot × String)
  switches : List Switch
  pending : Option (Slot × Option String)
  deriving DecidableEq, Repr

namespace Given

def nothing : Given := ⟨[], [], none⟩

def value? (g : Given) (s : Slot) : Option String := g.values.lookup s

/-- Fills a slot. No slot is filled twice, and no value is empty. -/
def fill (g : Given) (s : Slot) (value : String) : Except Halt Given :=
  if (g.value? s).isSome then .error .argumentConflict
  else if value = "" then .error .invalidValue
  else .ok { g with values := (s, value) :: g.values }

/-- Fills the pending slot; by now it must have a value. -/
def settle (g : Given) : Except Halt Given :=
  match g.pending with
  | none => .ok g
  | some (_, none) => .error .invalidValue
  | some (s, some value) => { g with pending := none }.fill s value

def flip (g : Given) (s : Switch) : Except Halt Given := do
  let g ← g.settle
  match s with
  | .help => .error .helpAsked
  | .version => .error .versionAsked
  | s =>
    if s ∈ g.switches then .error .argumentConflict
    else .ok { g with switches := s :: g.switches }

/-- Reads a slot with the value attached to it, or else leaves it pending. -/
def takeSlot (g : Given) (s : Slot) (attached : Option String) : Except Halt Given := do
  let g ← g.settle
  match attached with
  | some value => g.fill s value
  | none => .ok { g with pending := some (s, none) }

def hasTemplate (g : Given) : Bool :=
  (g.value? .template).isSome || (g.pending.map Prod.fst) == some .template

/-- Reads the template; there is only one. -/
def takeTemplate (g : Given) (value : String) : Except Halt Given := do
  if g.hasTemplate then .error .unknownArgument
  else
    let g ← g.settle
    .ok { g with pending := some (.template, some value) }

/-- Reads an option by its long name, with the value behind an equals sign. -/
def takeLong (g : Given) (name : List Char) (attached : Option String) : Except Halt Given :=
  match Opt.long? name, attached with
  | none, _ => .error .unknownArgument
  | some (.slot s), _ => g.takeSlot s attached
  | some (.switch _), some _ => .error .tooManyValues
  | some (.switch s), none => g.flip s

/-- The value attached to a letter; an equals sign between them does not count. -/
def attachedTo : List Char → Option String
  | [] => none
  | '=' :: value => some (.ofList value)
  | value => some (.ofList value)

/-- Reads a row of letters, of which the first one with a slot takes the rest. -/
def takeShort (g : Given) : List Char → Except Halt Given
  | [] => .ok g
  | c :: cs =>
    match Opt.short? c with
    | none => .error .unknownArgument
    | some (.slot s) => g.takeSlot s (attachedTo cs)
    | some (.switch s) => do takeShort (← g.flip s) cs

/-- Reads a text that is no option: the value that an option waits for, or else the template. -/
def takeText (g : Given) (text : String) : Except Halt Given :=
  match g.pending with
  | some (s, none) => .ok { g with pending := some (s, some text) }
  | _ => g.takeTemplate text

/-- Cuts a long option at its equals sign. -/
def cutEquals (cs : List Char) : List Char × Option String :=
  match cs.dropWhile (· ≠ '=') with
  | [] => (cs, none)
  | _ :: value => (cs.takeWhile (· ≠ '='), some (.ofList value))

/-- Reads arguments. Behind `--` none is an option. -/
def takeAll (g : Given) : List String → Except Halt Given
  | [] => .ok g
  | "--" :: texts => texts.foldlM takeTemplate g
  | arg :: args => do
    let next ← match arg.toList with
      | '-' :: '-' :: cs => g.takeLong (cutEquals cs).1 (cutEquals cs).2
      | '-' :: c :: cs => g.takeShort (c :: cs)
      | _ => g.takeText arg
    takeAll next args

end Given

def Options.read (args : List String) : Except Halt Options := do
  let g ← (← Given.nothing.takeAll args).settle
  match g.value? .template with
  | none => .error .missingTemplate
  | some template =>
    return {
      template := template
      vars := g.value? .vars
      stdin := decide (.stdin ∈ g.switches)
      output := g.value? .output
      config := g.value? .config
      verbose := decide (.verbose ∈ g.switches) }

end BraceTemplate.CommandLine
