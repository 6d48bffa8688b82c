import BraceTemplate.Context
import BraceTemplate.Loader

/-!
What rendering works on, and its two ways of access: evaluating in the current scope, and writing
variables. A failure keeps all that was changed before it.
-/
namespace BraceTemplate

/-- A unit or block being rendered: the variables of a block, and at each depth the number of
entries of the last loop there. -/
structure Frame where
  locals : Option Layer
  counters : Array (Option Nat)

namespace Frame

def ofUnit : Frame := ⟨none, #[]⟩

def ofBlock (locals : Layer) : Frame := ⟨some locals, #[]⟩

/-- How many counters a frame can have at most: one takes up 16 bytes, and no allocation has more
than the greatest signed 64-bit integer. -/
def capacity : Nat := (Decimal.maxInt64 / 16).toNat

def counter? (f : Frame) (depth : Nat) : Option Nat := (f.counters[depth]?).join

/-- Makes counters up to a depth and sets the one there. -/
def withCounter (f : Frame) (depth count : Nat) : Frame :=
  let counters := f.counters ++ Array.replicate (depth + 1 - f.counters.size) none
  { f with counters := counters.setIfInBounds depth (some count) }

/-- No frame has a counter at a depth beyond its capacity. -/
def setCounter? (f : Frame) (depth count : Nat) : Option Frame :=
  if depth < capacity then some (f.withCounter depth count) else none

end Frame

/-- What stays the same during rendering. -/
structure RenderEnv where
  registry : Registry
  filters : FilterTable
  strict : Bool
  maxDepth : Nat
  view : Files.View

structure RenderState where
  context : Context
  frame : Frame
  /-- The blocks of all units rendered so far; later definitions win. -/
  blocks : Dict Block
  loader : Option Loader
  warnings : List Warning

abbrev Render := ExceptT Error (StateM RenderState)

namespace Render

def fault {α : Type} (f : RenderFault) : Render α := throw (.execution f)

/-- Runs a computation that only logs. -/
def logged {α : Type} (act : Logged α) : Render α := ExceptT.mk fun s =>
  let (result, warnings) := act.run.run s.warnings
  (result, { s with warnings := warnings })

def scope (env : RenderEnv) (s : RenderState) : Scope :=
  ⟨s.context.activeLayer, s.frame.locals, env.filters, env.strict⟩

def eval (env : RenderEnv) (e : Expr) : Render Value := do logged (e.eval (scope env (← get)))

def resolve (env : RenderEnv) (v : Var) : Render Value := do
  logged (v.resolve (scope env (← get)))

/-- Crashes at a depth that has no counter. -/
def setCounter (depth count : Nat) : Render Unit := do
  let s ← get
  match s.frame.setCounter? depth count with
  | some frame => set { s with frame := frame }
  | none => throw .crashed

/-- Runs in a frame of its own; the frame before comes back, also after a failure. -/
def inFrame {α : Type} (frame : Frame) (act : Render α) : Render α := ExceptT.mk fun s =>
  let (result, after) := act.run.run { s with frame := frame }
  (result, { after with frame := s.frame })

def faultIfAny : Option RenderFault → Render Unit
  | some f => fault f
  | none => return ()

/-- Writes below a root name: in place among the variables of a block where path and frame say so,
else to a copy that replaces the value in the context, where global names stay global. -/
def write (mode : Mode) (name : String) (keys : List String) (value : Value) : Render Unit := do
  let s ← get
  match mode, s.frame.locals with
  | .block, some locals =>
    let w := Value.setPath keys ((Dict.find? locals name).getD .null) value
    set { s with frame := { s.frame with locals := some (Dict.insert locals name w.slot) } }
    faultIfAny w.fault
  | _, _ =>
    let w := Value.setPath keys ((Dict.find? s.context.activeLayer name).getD .null) value
    faultIfAny w.fault
    set { s with context := s.context.assign name w.slot (s.context.isGlobal name) }

/-- Assigns to a path; the path without segments takes nothing. -/
def assign (env : RenderEnv) (target : Path) (value : Value) : Render Unit := do
  match ← logged (target.names (scope env (← get))) with
  | [] => return ()
  | name :: keys => write target.mode name keys value

end Render
end BraceTemplate
