import BraceTemplate.Error
import BraceTemplate.Program.Instruction

/-!
Templates: instructions whose structure has been checked, with a link from each opener and branch to
its partner and a table of the blocks they define.
-/
namespace BraceTemplate

/-- Where an instruction leads: the next branch of a conditional or the closer of a section, and for
a loop its inline empty section. -/
structure Link where
  next : Nat
  clause : Option Nat
  deriving DecidableEq, Repr, Inhabited

/-- A defined block; its body are the instructions from `start` up to before `stop`. -/
structure BlockDef where
  params : List String
  start : Nat
  stop : Nat
  deriving DecidableEq, Repr

/-- A structure whose closer has not come yet. -/
inductive Section where
  | branches (last : Nat) (final : Bool)
  | loop (start : Nat) (clause : Option Nat)
  | empty (start : Nat)
  | block (start : Nat) (name : String) (params : List String)
  | range (start : Nat)
  deriving DecidableEq, Repr

namespace Section

def name : Section → String
  | .branches .. => "if"
  | .loop .. => "for"
  | .empty _ => "empty"
  | .block .. => "define_block"
  | .range _ => "range"

def isBlock : Section → Bool
  | .block .. => true
  | _ => false

end Section

/-- The links and blocks found so far, and the open sections, innermost first. -/
structure Linker where
  links : Array Link
  blocks : Dict BlockDef
  opened : List Section

namespace Linker

def start (size : Nat) : Linker := ⟨Array.replicate size ⟨0, none⟩, [], []⟩

def push (l : Linker) (s : Section) : Linker := { l with opened := s :: l.opened }

def setLink (l : Linker) (i : Nat) (link : Link) : Linker :=
  { l with links := l.links.modify i fun _ => link }

def fault {α : Type} (f : SyntaxFault) : Except Error α := .error (.syntaxError f none)

/-- A closer met another section than its own, or none. -/
def mismatch {α : Type} (i : Instruction) (opened : List Section) : Except Error α :=
  let expected := (opened.head?.map Section.name).getD "nothing"
  .error (.unbalanced (.mismatchedSection i.name expected) none)

/-- A further branch of a conditional; none may follow the final one. -/
def branch (l : Linker) (at_ : Nat) (i : Instruction) (final : Bool) : Except Error Linker :=
  match l.opened with
  | .branches last false :: rest =>
    .ok (({ l with opened := rest }.setLink last ⟨at_, none⟩).push (.branches at_ final))
  | .branches _ true :: _ => fault (.branchAfterElse i.name)
  | _ => fault (.branchOutsideIf i.name)

/-- An inline section becomes the clause of the loop around it. -/
def inlineEmpty (l : Linker) (at_ : Nat) : Except Error Linker :=
  match l.opened with
  | .loop start none :: rest =>
    .ok ({ l with opened := .loop start (some at_) :: rest }.push (.empty at_))
  | .loop _ (some _) :: _ => fault .secondEmptySection
  | _ => fault .emptyOutsideFor

def closeBlock (l : Linker) (start stop : Nat) (name : String) (params : List String) :
    Except Error Linker :=
  if Dict.contains l.blocks name then fault (.blockDefinedTwice name)
  else
    .ok { l.setLink start ⟨stop, none⟩ with
      blocks := Dict.insert l.blocks name ⟨params, start + 1, stop⟩ }

/-- Takes one instruction in. -/
def step (l : Linker) (at_ : Nat) (i : Instruction) : Except Error Linker :=
  match i with
  | .literal _ | .emit _ | .assign .. | .invoke .. | .include _ => .ok l
  | .beginIf _ => .ok (l.push (.branches at_ false))
  | .elseIf _ => l.branch at_ i false
  | .otherwise => l.branch at_ i true
  | .endIf =>
    match l.opened with
    | .branches last _ :: rest => .ok ({ l with opened := rest }.setLink last ⟨at_, none⟩)
    | opened => mismatch i opened
  | .beginFor _ => .ok (l.push (.loop at_ none))
  | .endFor =>
    match l.opened with
    | .loop start clause :: rest => .ok ({ l with opened := rest }.setLink start ⟨at_, clause⟩)
    | opened => mismatch i opened
  | .beginEmpty _ true => l.inlineEmpty at_
  | .beginEmpty _ false => .ok (l.push (.empty at_))
  | .endEmpty =>
    match l.opened with
    | .empty start :: rest => .ok ({ l with opened := rest }.setLink start ⟨at_, none⟩)
    | opened => mismatch i opened
  | .beginBlock name params =>
    if l.opened.any Section.isBlock then fault .nestedBlockDefinition
    else .ok (l.push (.block at_ name params))
  | .endBlock =>
    match l.opened with
    | .block start name params :: rest => { l with opened := rest }.closeBlock start at_ name params
    | opened => mismatch i opened
  | .beginRange _ => .ok (l.push (.range at_))
  | .endRange =>
    match l.opened with
    | .range start :: rest => .ok ({ l with opened := rest }.setLink start ⟨at_, none⟩)
    | opened => mismatch i opened

/-- Takes instructions in, the first of which has index `at_`. -/
def run (l : Linker) (at_ : Nat) : List Instruction → Except Error Linker
  | [] => .ok l
  | i :: is => do (← l.step at_ i).run (at_ + 1) is

end Linker

/-- Instructions with the links and blocks that linking them gives. -/
structure Template where
  instructions : Array Instruction
  links : Array Link
  blocks : Dict BlockDef
  /-- The directory that relative includes start from. -/
  dir : Option String
  linked : (Linker.start instructions.size).run 0 instructions.toList = .ok ⟨links, blocks, []⟩

namespace Template

def size (t : Template) : Nat := t.instructions.size

def link (t : Template) (i : Nat) : Link := t.links.getD i ⟨0, none⟩

/-- Links instructions, provided that their sections are balanced. -/
def ofInstructions (instructions : List Instruction) (dir : Option String) :
    Except Error Template :=
  match h : (Linker.start instructions.length).run 0 instructions with
  | .error e => .error e
  | .ok ⟨links, blocks, []⟩ => .ok ⟨instructions.toArray, links, blocks, dir, h⟩
  | .ok ⟨_, _, s :: opened⟩ =>
    .error (.unbalanced (.unclosedSections ((s :: opened).reverse.map Section.name)) none)

end Template

/-- A block that a template defines. -/
structure Block where
  template : Template
  body : BlockDef
  defined : body ∈ template.blocks.map Prod.snd

/-- The blocks of a template by their names. -/
def Template.definitions (t : Template) : Dict Block :=
  t.blocks.attach.map fun e => (e.1.1, ⟨t, e.1.2, List.mem_map_of_mem e.2⟩)

end BraceTemplate
