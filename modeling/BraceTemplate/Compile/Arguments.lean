import BraceTemplate.Expr.Parse
import BraceTemplate.Files.Path
import BraceTemplate.Program.Instruction

/-! The argument texts of the directives. -/
namespace BraceTemplate.Arguments

def isNameChar (c : Char) : Bool := c.isAlphanum || c == '_'

def isName (cs : List Char) : Bool := cs ≠ [] && cs.all isNameChar

/-- A non-empty name at the start of a text. -/
def name? (cs : List Char) : Option (List Char × List Char) :=
  match cs.takeWhile isNameChar with
  | [] => none
  | name => some (name, cs.dropWhile isNameChar)

def dropOptional (c : Char) : List Char → List Char
  | d :: cs => if d = c then cs else d :: cs
  | [] => []

/-- A plain variable `$name`; a brace may stand on either side. -/
def plainVariable? (cs : List Char) : Option (String × List Char) :=
  match dropOptional '\x7b' cs with
  | '$' :: cs => (name? cs).map fun r => (.ofList r.1, dropOptional '\x7d' r.2)
  | _ => none

/-- At least one blank. -/
def blanks? : List Char → Option (List Char)
  | c :: cs => if Text.isBlank c then some (Text.trimStart cs) else none
  | [] => none

/-- The `$key, ` before the value variable of a loop. -/
def loopKey? (cs : List Char) : Option (String × List Char) :=
  match plainVariable? cs with
  | some (key, ',' :: cs) => some (key, Text.trimStart cs)
  | _ => none

/-- `$value in collection`; the collection stands on one line. -/
def loopValue? (cs : List Char) : Option (String × List Char) := do
  let (value, cs) ← plainVariable? cs
  let cs ← blanks? cs
  let cs ← Text.dropLead? ['i', 'n'] cs
  let cs ← blanks? cs
  if cs = [] ∨ '\n' ∈ cs then none else some (value, cs)

/-- The variables and the collection of `[$key, ]$value in collection`. -/
def loop? (cs : List Char) : Option (Option String × String × List Char) :=
  match loopKey? cs with
  | some (key, rest) => (loopValue? rest).map fun r => (some key, r.1, r.2)
  | none => (loopValue? cs).map fun r => (none, r.1, r.2)

/-- A bound as written: a variable name, or the digits of a number. -/
inductive BoundText where
  | name (s : String)
  | number (cs : List Char)
  deriving DecidableEq

def boundText? (cs : List Char) : Option (BoundText × List Char) :=
  match plainVariable? cs with
  | some (name, rest) => some (.name name, rest)
  | none =>
    let (sign, digits) : List Char × List Char := match cs with
      | '-' :: ds => (['-'], ds)
      | ds => ([], ds)
    match digits.takeWhile Char.isDigit with
    | [] => none
    | ds => some (.number (sign ++ ds), digits.dropWhile Char.isDigit)

structure CountingText where
  counter : String
  start : BoundText
  step : Option BoundText
  stop : BoundText

def dot? : List Char → Option (List Char)
  | '.' :: cs => some cs
  | _ => none

/-- `$counter = start.step.stop`, where the step may be left out. -/
def counting? (cs : List Char) : Option CountingText := do
  let (counter, cs) ← plainVariable? cs
  let cs ← Text.dropLead? ['='] (Text.trimStart cs)
  let (start, cs) ← boundText? (Text.trimStart cs)
  let cs ← dot? cs
  let (step, cs) := match boundText? cs with
    | some (step, cs) => (some step, cs)
    | none => (none, cs)
  let cs ← dot? cs
  let (stop, cs) ← boundText? cs
  if Text.trimStart cs = [] then some ⟨counter, start, step, stop⟩ else none

/-- A literal bound must be a signed 64-bit integer. -/
def bound (mode : Mode) : BoundText → Except SyntaxFault Bound
  | .name s => .ok (.var ⟨.simple mode s, []⟩)
  | .number cs =>
    match Decimal.int64? cs with
    | some n => .ok (.literal n)
    | none => .error (.boundOutOfRange (.ofList cs))

def malformed {α : Type} (name : String) (args : List Char) : Except SyntaxFault α :=
  .error (.malformedArguments name (.ofList args))

/-- The arguments of `range`; the step is one unless given, and a literal one is positive. -/
def counting (mode : Mode) (args : List Char) : Except SyntaxFault Counting := do
  match counting? args with
  | none => malformed "range" args
  | some t =>
    let start ← bound mode t.start
    let step ← (t.step.map (bound mode)).getD (.ok (.literal 1))
    let stop ← bound mode t.stop
    match step with
    | .literal n =>
      if n ≤ 0 then .error (.nonPositiveStep (.ofList args))
      else return ⟨.simple mode t.counter, start, step, stop⟩
    | _ => return ⟨.simple mode t.counter, start, step, stop⟩

/-- The arguments of `for`; `depth` is the depth of the new loop. -/
def loop (mode : Mode) (depth : Nat) (args : List Char) : Except SyntaxFault Loop := do
  match loop? args with
  | none => malformed "for" args
  | some (key, value, collection) =>
    return ⟨key.map (Path.simple mode), .simple mode value, ← Expr.parse mode collection, depth⟩

/-- The arguments of `set`: a target and a value around the first equals sign. -/
def assignment (mode : Mode) (args : List Char) : Except SyntaxFault (Path × Expr) := do
  match Text.splitOnce (· = '=') args with
  | none => malformed "set" args
  | some (target, value) =>
    if value.head? = some '=' then malformed "set" args
    else
      let target ← Path.parse mode (Delimiter.unwrap (Text.trim target))
      return (target, ← Expr.parse mode (Text.trim value))

/-- A parameter of a block, `$name` or the node of that variable. -/
def parameter (args param : List Char) : Except SyntaxFault String :=
  match Delimiter.unwrap param with
  | '$' :: name =>
    if isName name then .ok (.ofList name)
    else .error (.invalidParameter (.ofList param) (.ofList args))
  | _ => .error (.invalidParameter (.ofList param) (.ofList args))

/-- The arguments of `define_block`: a name and parameters. -/
def blockHead (args : List Char) : Except SyntaxFault (String × List String) := do
  match Text.words args with
  | [] => malformed "define_block" args
  | name :: params =>
    if isName name then return (.ofList name, ← params.mapM (parameter args))
    else malformed "define_block" args

/-- The arguments of `block`: a name and operands. -/
def invocation (mode : Mode) (args : List Char) : Except SyntaxFault (String × List Expr) := do
  let (name, rest) := (Text.splitOnce Text.isBlank args).getD (args, [])
  if isName name then return (.ofList name, ← Expr.parseArguments mode rest)
  else malformed "block" args

/-- Cuts before the first node of a variable. -/
def cutVariable : List Char → List Char × List Char
  | '\x7b' :: '$' :: cs => ([], '\x7b' :: '$' :: cs)
  | [] => ([], [])
  | c :: cs =>
    let r := cutVariable cs
    (c :: r.1, r.2)

/-- The pieces of a path; every variable takes two characters, so `fuel` characters are enough. -/
def pathParts (mode : Mode) (args : List Char) : Nat → List Char →
    Except SyntaxFault (List IncludePart)
  | 0, _ => .ok []
  | fuel + 1, path =>
    let (text, rest) := cutVariable path
    let lead : List IncludePart := if text = [] then [] else [.text (.ofList text)]
    if rest = [] then .ok lead
    else match Delimiter.closeBrace? 0 rest with
      | none => .error (.unclosedIncludeVariable (.ofList args))
      | some (node, rest) => do
        let v ← Var.parse mode node
        return lead ++ .var v :: (← pathParts mode args fuel rest)

/-- A path that starts from its own directory is resolved against the directory of the template. -/
def anchor (dir : Option (List Char)) : List IncludePart → List IncludePart
  | .text s :: parts =>
    match dir with
    | some dir =>
      if Files.Path.isRelativeToSelf s.toList then
        .text (.ofList (Files.Path.resolveRelative dir s.toList)) :: parts
      else .text s :: parts
    | none => .text s :: parts
  | parts => parts

/-- The arguments of `include`, without quotes; nothing at all if they are empty. -/
def includePath (mode : Mode) (dir : Option (List Char)) (args : List Char) :
    Except SyntaxFault (Option (List IncludePart)) := do
  let path := args.filter fun c => !Delimiter.isQuote c
  if path = [] then return none
  else return some (anchor dir (← pathParts mode args (path.length + 1) path))

end BraceTemplate.Arguments
