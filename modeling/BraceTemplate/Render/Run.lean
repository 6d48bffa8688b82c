import BraceTemplate.Render.State

/-!
Rendering a template: running its instructions by their links. Blocks and included templates run in
frames of their own and use up room; the rest of a run is bounded by the length of the template.
-/
namespace BraceTemplate
namespace Render

/-- What is entered: a block, or an included template as a whole. -/
inductive Target where
  | block (b : Block)
  | unit (t : Template)

namespace Target

def template : Target → Template
  | .block b => b.template
  | .unit t => t

def start : Target → Nat
  | .block b => b.body.start
  | .unit _ => 0

def stop : Target → Nat
  | .block b => b.body.stop
  | .unit t => t.size

end Target

/-- A target about to be entered in a frame, with the fault of having no room for it. -/
structure Call where
  target : Target
  frame : Frame
  tooDeep : RenderFault

/-- Makes the blocks of a template known. -/
def hoist (t : Template) : Render Unit :=
  modify fun s => { s with blocks := Dict.insertAll s.blocks t.definitions }

/-- Makes the blocks of an included template known; a block defines none. -/
def Target.hoist : Target → Render Unit
  | .block _ => return ()
  | .unit t => Render.hoist t

def bound (env : RenderEnv) : Bound → Render Int
  | .literal n => return n
  | .var v => do
    let value ← resolve env v
    match value.number? with
    | some n => return n.truncate
    | none => fault (.boundNotANumber value.text)

/-- Parameters take the arguments in order; missing ones are absent. -/
def bindParams (params : List String) (args : List Value) : Layer :=
  Dict.ofList (params.zipIdx.map fun p => (p.1, args.getD p.2 .null))

def evalArgs (env : RenderEnv) (args : List Expr) : Render (List Value) := args.mapM (eval env)

/-- A call of a block. -/
def blockCall (env : RenderEnv) (name : String) (args : List Expr) : Render Call := do
  match Dict.find? (← get).blocks name with
  | none => fault (.undefinedBlock name)
  | some block =>
    let values ← evalArgs env args
    return ⟨.block block, .ofBlock (bindParams block.body.params values),
      .blockTooDeep env.maxDepth name⟩

def includePath (env : RenderEnv) : List IncludePart → Render String
  | [] => return ""
  | .text s :: parts => return s ++ (← includePath env parts)
  | .var v :: parts => do
    let s := (← resolve env v).display
    return s ++ (← includePath env parts)

def load (env : RenderEnv) (href : String) : Render Template := do
  let s ← get
  match s.loader with
  | none => fault (.noLoader href)
  | some loader =>
    let (result, loader) := loader.load env.view env.registry href
    set { s with loader := some loader }
    liftExcept result

/-- A call of an included template; the empty path includes nothing. -/
def includeCall (env : RenderEnv) (parts : List IncludePart) : Render (Option Call) := do
  let href ← includePath env parts
  if href = "" then
    logged (warn .emptyInclude)
    return none
  else
    let t ← load env href
    return some ⟨.unit t, .ofUnit, .includeTooDeep env.maxDepth href⟩

/-- Runs the instructions from one index up to before another. -/
abbrev RunRange := Nat → Nat → Render String

/-- Runs the first branch whose condition holds. Conditions behind it are not evaluated; the result
holds the index behind the conditional. -/
def branches (env : RenderEnv) (t : Template) (run : RunRange) :
    Nat → (taken : Bool) → (index : Nat) → Render (String × Nat)
  | 0, _, index => return ("", index + 1)
  | fuel + 1, taken, index => do
    let next := (t.link index).next
    match t.instructions[index]? with
    | none | some .endIf => return ("", index + 1)
    | some i =>
      let hit ←
        if taken then pure false
        else match i with
          | .beginIf c | .elseIf c => pure (← eval env c).isTruthy
          | _ => pure true
      if hit then
        let text ← run (index + 1) next
        let (rest, after) ← branches env t run fuel true next
        return (text ++ rest, after)
      else branches env t run fuel taken next

/-- The body of a loop without its inline empty section. -/
def loopBody (t : Template) (run : RunRange) (index : Nat) : Render String :=
  let link := t.link index
  match link.clause with
  | some clause => do
    let before ← run (index + 1) clause
    return before ++ (← run ((t.link clause).next + 1) link.next)
  | none => run (index + 1) link.next

/-- Visits entries in order. `count` entries came before. -/
def visit (env : RenderEnv) (loop : Loop) (body : Render String) :
    Nat → List (Value × Value) → Render (String × Nat)
  | count, [] => return ("", count)
  | count, (key, value) :: entries => do
    setCounter loop.depth (count + 1)
    match loop.key with
    | some path => assign env path key
    | none => pure ()
    assign env loop.value value
    let text ← body
    let (rest, total) ← visit env loop body (count + 1) entries
    return (text ++ rest, total)

/-- Runs a loop over the entries that its collection has on entry. -/
def forEach (env : RenderEnv) (t : Template) (run : RunRange) (index : Nat) (loop : Loop) :
    Render String := do
  let collection ← eval env loop.collection
  setCounter loop.depth 0
  let (text, count) ← visit env loop (loopBody t run index) 0 collection.entries
  setCounter loop.depth count
  match count, (t.link index).clause with
  | 0, some clause => return text ++ (← run (clause + 1) (t.link clause).next)
  | _, _ => return text

/-- Counts up to a bound, and no further than integers go. Every pass counts by one at least, so the
distance to the bound is fuel enough. -/
def countUp (step stop : Int) (body : Int → Render String) : Nat → Int → Render String
  | 0, _ => return ""
  | fuel + 1, i =>
    if stop < i then return ""
    else do
      let text ← body i
      if Decimal.fits (i + step) then return text ++ (← countUp step stop body fuel (i + step))
      else return text

def counting (env : RenderEnv) (t : Template) (run : RunRange) (index : Nat) (c : Counting) :
    Render String := do
  let start ← bound env c.start
  let step ← bound env c.step
  let stop ← bound env c.stop
  if step ≤ 0 then fault (.nonPositiveStep step)
  else
    let body (i : Int) : Render String := do
      assign env c.counter (.int i)
      run (index + 1) (t.link index).next
    countUp step stop body (stop - start + 1).toNat start

/-- Runs one instruction, with the structure that it opens; the result holds the index behind it. -/
def instruction (env : RenderEnv) (enter : Call → Render String) (t : Template) (run : RunRange)
    (index : Nat) (i : Instruction) : Render (String × Nat) := do
  let next := (t.link index).next
  match i with
  | .literal text => return (text, index + 1)
  | .emit v => return ((← resolve env v).display, index + 1)
  | .beginIf _ => branches env t run t.size false index
  | .beginFor loop => return (← forEach env t run index loop, next + 1)
  | .beginEmpty depth inLoop =>
    if !inLoop && (← get).frame.counter? depth = some 0 then
      return (← run (index + 1) next, next + 1)
    else return ("", next + 1)
  | .assign target e => do
    assign env target (← eval env e)
    return ("", index + 1)
  | .beginBlock .. => return ("", next + 1)
  | .invoke name args => do
    let call ← blockCall env name args
    return (← enter call, index + 1)
  | .beginRange c => return (← counting env t run index c, next + 1)
  | .include parts => do
    match ← includeCall env parts with
    | some call => return (← enter call, index + 1)
    | none => return ("", index + 1)
  | .elseIf _ | .otherwise | .endIf | .endEmpty | .endFor | .endBlock | .endRange =>
    return ("", index + 1)

/-- Runs the instructions of a range. Every round goes forward and every section is shorter than
what it stands in, so the length of the range is fuel enough. -/
def range (env : RenderEnv) (enter : Call → Render String) (t : Template) : Nat → RunRange
  | 0, _, _ => return ""
  | fuel + 1, index, stop => do
    if stop ≤ index then return ""
    else match t.instructions[index]? with
      | none => return ""
      | some i =>
        let (text, next) ← instruction env enter t (range env enter t fuel) index i
        return text ++ (← range env enter t fuel next stop)

/-- Enters a block or an included template, given how many may still be nested. -/
def enter (env : RenderEnv) : (room : Nat) → Call → Render String
  | 0, call => fault call.tooDeep
  | room + 1, call =>
    inFrame call.frame do
      call.target.hoist
      let t := call.target.template
      range env (enter env room) t t.size call.target.start call.target.stop

/-- Renders a whole template. -/
def template (env : RenderEnv) (t : Template) : Render String :=
  inFrame .ofUnit do
    hoist t
    range env (enter env env.maxDepth) t t.size 0 t.size

end Render
end BraceTemplate
