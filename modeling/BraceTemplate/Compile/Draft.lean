import BraceTemplate.Compile.Arguments
import BraceTemplate.Compile.Registry
import BraceTemplate.Markup.Nodes

/-! Compilation: nodes become instructions, and nodes with a closing node must be closed in turn. -/
namespace BraceTemplate

/-- A template being compiled. -/
structure Draft where
  /-- The instructions so far, last one first. -/
  emitted : List Instruction
  /-- The names that wait for their closing node, innermost first. -/
  opened : List String
  loopDepth : Nat
  mode : Mode
  /-- Whether a loop was closed inside of the innermost open loop. -/
  closedInnerLoop : Bool

/-- What a compilation looks up: the handlers, and the directory of the template. -/
structure CompileContext where
  registry : Registry
  dir : Option (List Char)

namespace Draft

abbrev Step := Markup.Process Draft

def start : Draft := ⟨[], [], 0, .shared, false⟩

def instructions (d : Draft) : List Instruction := d.emitted.reverse

/-- Adds text to the literal at the end, or as a literal of its own. -/
def addText (d : Draft) (text : String) : Draft :=
  match d.emitted with
  | .literal s :: rest => { d with emitted := .literal (s ++ text) :: rest }
  | emitted => { d with emitted := .literal text :: emitted }

def add (d : Draft) : Instruction → Draft
  | .literal text => d.addText text
  | i => { d with emitted := i :: d.emitted }

def fault {α : Type} (f : SyntaxFault) : Step α := throw (.syntaxError f none)

def parsed {α : Type} (r : Except SyntaxFault α) : Step α :=
  liftExcept (r.mapError fun f => Error.syntaxError f none)

def condition (name : String) (args : List Char) : Step Expr := do
  if args = [] then fault (.missingCondition name)
  else parsed (Expr.parse (← get).mode args)

/-- Branches stand directly inside of a conditional. -/
def insideIf (name : String) : Step Unit := do
  if (← get).opened.head? = some "if" then return ()
  else fault (.branchOutsideIf name)

/-- Directly inside of a loop that holds no closed loop yet the section belongs to that loop; else
to the loop one level deeper that came before it. -/
def emptySection (d : Draft) : Instruction :=
  if d.opened.head? = some "for" ∧ d.closedInnerLoop = false then .beginEmpty d.loopDepth true
  else .beginEmpty (d.loopDepth + 1) false

def openLoop (args : List Char) : Step Instruction := do
  let d ← get
  let loop ← parsed (Arguments.loop d.mode (d.loopDepth + 1) args)
  set { d with loopDepth := d.loopDepth + 1, closedInnerLoop := false }
  return .beginFor loop

def openBlock (args : List Char) : Step Instruction := do
  let d ← get
  if "define_block" ∈ d.opened then fault .nestedBlockDefinition
  else
    let (name, params) ← parsed (Arguments.blockHead args)
    set { d with mode := .block }
    return .beginBlock name params

def openDirective (ctx : CompileContext) (directive : Directive) (args : List Char) :
    Step (List Instruction) := do
  let d ← get
  match directive with
  | .cond => return [.beginIf (← condition "if" args)]
  | .elseCond => do
    insideIf "elseif"
    return [.elseIf (← condition "elseif" args)]
  | .otherwise => do
    insideIf "else"
    return [.otherwise]
  | .loop => return [← openLoop args]
  | .empty => return [d.emptySection]
  | .set => do
    let (target, value) ← parsed (Arguments.assignment d.mode args)
    return [.assign target value]
  | .defineBlock => return [← openBlock args]
  | .block => do
    let (name, args) ← parsed (Arguments.invocation d.mode args)
    return [.invoke name args]
  | .range => return [.beginRange (← parsed (Arguments.counting d.mode args))]
  | .include =>
    return ((← parsed (Arguments.includePath d.mode ctx.dir args)).map .include).toList

/-- The closing node of a directive; a directive without one has no handler for it. -/
def closeDirective (name : String) : Directive → Step (List Instruction)
  | .cond => return [.endIf]
  | .loop => do
    modify fun d => { d with loopDepth := d.loopDepth - 1 }
    return [.endFor]
  | .empty => return [.endEmpty]
  | .defineBlock => do
    modify fun d => { d with mode := .shared }
    return [.endBlock]
  | .range => return [.endRange]
  | _ => throw (.unknownNode (name ++ "_close") none)

def unbalanced {α : Type} (f : BalanceFault) : Step α := throw (.unbalanced f none)

/-- Takes the innermost open name, which must be the given one. -/
def popOpened (name : String) : Step Unit := do
  let d ← get
  match d.opened with
  | [] => unbalanced (.closesNothing name)
  | top :: rest => do
    set { d with opened := rest }
    if top = name then return () else unbalanced (.closesOther name top)

def closeNode (ctx : CompileContext) (name : String) : Step (List Instruction) := do
  popOpened name
  let fragment ← match ctx.registry.find? name with
    | some (.directive d) => closeDirective name d
    | some (.external ⟨_, some closing⟩) => liftExcept closing
    | _ => throw (.unknownNode (name ++ "_close") none)
  if name = "for" then modify fun d => { d with closedInnerLoop := true }
  return fragment

/-- An opening node: a name that has a handler, and arguments. -/
def openNode (ctx : CompileContext) (node : List Char) (inner : Bool) :
    Step (List Instruction) := do
  match Arguments.name? node with
  | none => fault (.invalidNode (.ofList node))
  | some (name, args) =>
    let name := String.ofList name
    let args := Text.trim args
    match ctx.registry.find? name with
    | none => throw (.unknownNode (.ofList node) none)
    | some handler => do
      if inner && handler.hasClose then fault (.openNested name)
      else
        let fragment ← match handler with
          | .directive d => openDirective ctx d args
          | .external e => liftExcept (e.opening (.ofList args))
        if handler.hasClose then modify fun d => { d with opened := name :: d.opened }
        return fragment

/-- The text of instructions that stand inside of another node: they must be literals. -/
def literalText (node : List Char) : List Instruction → Except SyntaxFault String
  | [] => .ok ""
  | .literal text :: is => return text ++ (← literalText node is)
  | _ :: _ => .error (.notNestable (.ofList node))

/-- A node that is not a variable. -/
def namedNode (ctx : CompileContext) (node : List Char) (inner : Bool) : Step (List Char) := do
  let fragment ← match node with
    | '/' :: name => do
      let name := String.ofList (Text.trim name)
      if inner then fault (.closingNested name) else closeNode ctx name
    | _ => openNode ctx node inner
  if inner then return (← parsed (literalText node fragment)).toList
  else
    modify fun d => fragment.foldl add d
    return []

/-- An inner variable stands for itself: the directive around it reads it. -/
def variableNode (content node : List Char) (inner : Bool) : Step (List Char) := do
  if inner then return '\x7b' :: content ++ ['\x7d']
  else
    let v ← parsed (Var.parse (← get).mode node)
    modify fun d => d.add (.emit v)
    return []

def node (ctx : CompileContext) (content : List Char) (inner : Bool) : Step (List Char) :=
  match Text.trim content with
  | [] => return []
  | '$' :: rest => variableNode content ('$' :: rest) inner
  | node => namedNode ctx node inner

def handler (ctx : CompileContext) : Markup.Handler Draft where
  text cs := modify fun d => d.addText (.ofList cs)
  node := node ctx

end Draft

/-- The directory as templates write it, with slashes only. -/
def slashed (dir : String) : List Char := dir.toList.map fun c => if c = '\\' then '/' else c

/-- Compiles source; `dir` is the directory of the template. -/
def compile (registry : Registry) (source : String) (dir : Option String) :
    Except Error Template := do
  let ctx : CompileContext := ⟨registry, dir.map slashed⟩
  match (Markup.walk (Draft.handler ctx) source.toList).run .start with
  | (.error e, _) => .error e
  | (.ok _, draft) =>
    if draft.opened.isEmpty then Template.ofInstructions draft.instructions dir
    else .error (.unbalanced (.unclosedTags draft.opened.reverse) none)

end BraceTemplate
