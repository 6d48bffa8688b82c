import BraceTemplate.Proofs.Computation
import BraceTemplate.Proofs.Program.Exact
import BraceTemplate.Render.Run

/-!
Structured rendering: program trees are rendered by recursion on their structure, without indices
and links.
-/
namespace BraceTemplate

theorem Render.outcome_logged {α : Type} (act : Logged α) (s : RenderState) :
    outcome (logged act) s =
      ((outcome act s.warnings).1, { s with warnings := (outcome act s.warnings).2 }) := rfl

theorem Render.outcome_inFrame {α : Type} (frame : Frame) (act : Render α) (s : RenderState) :
    outcome (inFrame frame act) s = ((outcome act { s with frame := frame }).1,
      { (outcome act { s with frame := frame }).2 with frame := s.frame }) := rfl

/-- A counter is set, or the program crashes and nothing is set. -/
theorem Render.outcome_setCounter (depth count : Nat) (s : RenderState) :
    outcome (setCounter depth count) s =
      if depth < Frame.capacity then
        (.ok ⟨⟩, { s with frame := s.frame.withCounter depth count })
      else (.error .crashed, s) := by
  unfold setCounter
  rw [outcome_bind_ok outcome_get, Frame.setCounter?]
  by_cases hdepth : depth < Frame.capacity
  · rw [if_pos hdepth, if_pos hdepth]
    rfl
  · rw [if_neg hdepth, if_neg hdepth]
    rfl

/-- Loading leaves the loader behind the load, also where that fails. -/
theorem Render.outcome_load (env : RenderEnv) (href : String) (s : RenderState) :
    outcome (load env href) s =
      match s.loader with
      | none => (.error (.execution (.noLoader href)), s)
      | some l =>
        ((l.load env.view env.registry href).1,
          { s with loader := some (l.load env.view env.registry href).2 }) := by
  unfold load
  rw [outcome_bind_ok outcome_get]
  cases s.loader with
  | none => rfl
  | some l =>
    dsimp only
    rw [outcome_bind_ok (outcome_set _), outcome_lift]

/-- A write to a variable of a block changes the frame, also where it fails. -/
theorem Render.outcome_write_local {s : RenderState} {locals : Layer}
    (h : s.frame.locals = some locals) (name : String) (keys : List String) (value : Value) :
    outcome (write .block name keys value) s =
      let w := Value.setPath keys ((Dict.find? locals name).getD .null) value
      ((outcome (faultIfAny w.fault) s).1,
        { s with frame := { s.frame with locals := some (Dict.insert locals name w.slot) } }) := by
  unfold write
  rw [outcome_bind_ok outcome_get, h]
  dsimp only
  rw [outcome_bind_ok (outcome_set _)]
  cases (Value.setPath keys _ value).fault <;> rfl

/-- A write is to a shared name or to a variable of a block. -/
theorem Render.shared_or_local (mode : Mode) (f : Frame) : (mode = .shared ∨ f.locals = none) ∨
    mode = .block ∧ ∃ locals, f.locals = some locals := by
  cases mode with
  | shared => exact .inl (.inl rfl)
  | block =>
    cases hlocals : f.locals with
    | none => exact .inl (.inr rfl)
    | some locals => exact .inr ⟨rfl, locals, rfl⟩

/-- One computation before another, with their texts in this order. -/
def Render.before (act next : Render String) : Render String := do
  let text ← act
  return text ++ (← next)

theorem Render.nothing_before (act : Render String) : Render.before (return "") act = act := by
  have hnothing : (HAppend.hAppend "" : String → String) = id :=
    funext fun _ => String.empty_append
  rw [before, pure_bind, bind_pure_comp, hnothing, id_map]

/-- Renders a piece for each element in order and joins the texts. -/
def Render.joined {α : Type} (piece : α → Render String) : List α → Render String
  | [] => return ""
  | a :: as => do
    let text ← piece a
    return text ++ (← Render.joined piece as)

/-- The values from `start` by `step` up to `stop`, as far as integers go. -/
def counterValues (start step stop : Int) : List Int :=
  if stop < start then []
  else
    let further := List.range ((stop - start) / step).toNat
    start :: (further.map fun (k : Nat) => start + (k + 1) * step).takeWhile Decimal.fits

open Render

def Leaf.render (env : RenderEnv) (enter : Call → Render String) : Leaf → Render String
  | .literal text => return text
  | .emit v => return (← resolve env v).display
  | .assign target e => do
    Render.assign env target (← eval env e)
    return ""
  | .invoke name args => do enter (← blockCall env name args)
  | .include parts => do
    match ← includeCall env parts with
    | some call => enter call
    | none => return ""

/-- Renders the body if the condition holds, and the alternative if not. -/
def Render.choose (env : RenderEnv) (c : Expr) (body alternative : Render String) :
    Render String := do
  if (← eval env c).isTruthy then body else alternative

/-- One visit of an entry, of which `count` have come before. -/
def Loop.visit (env : RenderEnv) (loop : Loop) (body : Render String)
    (entry : (Value × Value) × Nat) : Render String := do
  setCounter loop.depth (entry.2 + 1)
  match loop.key with
  | some path => assign env path entry.1.1
  | none => pure ()
  assign env loop.value entry.1.2
  body

/-- Renders the body once for each entry that the collection has on entry, and the clause if there
are none. -/
def Loop.render (env : RenderEnv) (loop : Loop) (body clause : Render String) :
    Render String := do
  let entries := (← eval env loop.collection).entries
  setCounter loop.depth 0
  let text ← joined (loop.visit env body) entries.zipIdx
  setCounter loop.depth entries.length
  if entries.isEmpty then return text ++ (← clause) else return text

/-- Renders the body once for each value of the counter. -/
def Counting.render (env : RenderEnv) (c : Counting) (body : Render String) : Render String := do
  let start ← bound env c.start
  let step ← bound env c.step
  let stop ← bound env c.stop
  if step ≤ 0 then fault (.nonPositiveStep step)
  else
    joined (fun i => do
      assign env c.counter (.int i)
      body) (counterValues start step stop)

mutual

def Item.render (env : RenderEnv) (enter : Call → Render String) : Item → Render String
  | .leaf l => l.render env enter
  | .cond c body others => choose env c (Tree.render env enter body) (others.render env enter)
  | .loop loop body => loop.render env (Tree.render env enter body) (return "")
  | .loopElse loop before _ clause after =>
    loop.render env (do
      let text ← Tree.render env enter before
      return text ++ (← Tree.render env enter after)) (Tree.render env enter clause)
  | .empty depth body => do
    if (← get).frame.counter? depth = some 0 then Tree.render env enter body else return ""
  | .block .. => return ""
  | .range c body => c.render env (Tree.render env enter body)

/-- Renders the items of a tree in order. -/
def Tree.render (env : RenderEnv) (enter : Call → Render String) : Tree → Render String
  | [] => return ""
  | item :: items => do
    let text ← item.render env enter
    return text ++ (← Tree.render env enter items)

def Branches.render (env : RenderEnv) (enter : Call → Render String) : Branches → Render String
  | .done => return ""
  | .otherwise body => Tree.render env enter body
  | .elseIf c body others => choose env c (Tree.render env enter body) (others.render env enter)

end

/-- The tree that instructions denote; unbalanced ones denote none. -/
def Tree.ofInstructions (is : List Instruction) : Tree := (Tree.ofInstructions? is).getD []

def Template.tree (t : Template) : Tree := Tree.ofInstructions t.instructions.toList

/-- The body of a block. -/
def Block.instructions (b : Block) : List Instruction :=
  b.template.instructions.toList.extract b.body.start b.body.stop

def Block.tree (b : Block) : Tree := Tree.ofInstructions b.instructions

def Render.Target.tree : Target → Tree
  | .block b => b.tree
  | .unit t => t.tree

/-- Enters a block or an included template by its tree. -/
def Render.Call.render (env : RenderEnv) : (room : Nat) → Call → Render String
  | 0, call => fault call.tooDeep
  | room + 1, call =>
    inFrame call.frame do
      call.target.hoist
      Tree.render env (Render.Call.render env room) call.target.tree

/-- Renders a whole template by its tree. -/
def Template.render (env : RenderEnv) (t : Template) : Render String :=
  inFrame .ofUnit do
    hoist t
    Tree.render env (Render.Call.render env env.maxDepth) t.tree

end BraceTemplate
