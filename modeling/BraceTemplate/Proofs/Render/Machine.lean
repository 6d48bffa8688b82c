import Mathlib.Logic.Function.Iterate
import BraceTemplate.Proofs.Render.Refinement

/-!
Rendering in single steps: a machine with a stack of tasks and a depth that counts entered blocks
and units. It has no fuel and no bound on its steps, so that it might run forever.
-/
namespace BraceTemplate
namespace Render

/-- What is still to be rendered. All but `enter` and `leave` take one step each: `leave` ends what
was entered, and brings the frame from before back. -/
inductive Task where
  | range (t : Template) (index stop : Nat)
  | branches (t : Template) (taken : Bool) (index stop : Nat)
  | visit (t : Template) (index : Nat) (loop : Loop) (count : Nat) (entries : List (Value × Value))
  | countUp (t : Template) (index : Nat) (counter : Path) (step stop value : Int)
  | enter (call : Call)
  | leave (frame : Frame)

namespace Task

def isLeave : Task → Bool
  | leave _ => true
  | _ => false

/-- The body of a loop without its inline empty section. -/
def loopBody (t : Template) (index : Nat) : List Task :=
  let link := t.link index
  match link.clause with
  | some clause => [range t (index + 1) clause, range t ((t.link clause).next + 1) link.next]
  | none => [range t (index + 1) link.next]

/-- The inline empty section of a loop, if it has one. -/
def loopClause (t : Template) (index : Nat) : List Task :=
  match (t.link index).clause with
  | some clause => [range t (clause + 1) (t.link clause).next]
  | none => []

/-- One instruction: its text, and the tasks up to the end of the range that it stands in. -/
def instruction (env : RenderEnv) (t : Template) (index stop : Nat) (i : Instruction) :
    Render (String × List Task) := do
  let next := (t.link index).next
  match i with
  | .literal text => return (text, [range t (index + 1) stop])
  | .emit v => return ((← resolve env v).display, [range t (index + 1) stop])
  | .beginIf _ => return ("", [branches t false index stop])
  | .beginFor loop => do
    let collection ← eval env loop.collection
    setCounter loop.depth 0
    return ("", [visit t index loop 0 collection.entries, range t (next + 1) stop])
  | .beginEmpty depth inLoop =>
    if !inLoop && (← get).frame.counter? depth = some 0 then
      return ("", [range t (index + 1) next, range t (next + 1) stop])
    else return ("", [range t (next + 1) stop])
  | .assign target e => do
    Render.assign env target (← eval env e)
    return ("", [range t (index + 1) stop])
  | .beginBlock .. => return ("", [range t (next + 1) stop])
  | .invoke name args => do
    let call ← blockCall env name args
    return ("", [enter call, range t (index + 1) stop])
  | .beginRange c => do
    let start ← bound env c.start
    let step ← bound env c.step
    let last ← bound env c.stop
    if step ≤ 0 then fault (.nonPositiveStep step)
    else return ("", [countUp t index c.counter step last start, range t (next + 1) stop])
  | .include parts => do
    match ← includeCall env parts with
    | some call => return ("", [enter call, range t (index + 1) stop])
    | none => return ("", [range t (index + 1) stop])
  | .elseIf _ | .otherwise | .endIf | .endEmpty | .endFor | .endBlock | .endRange =>
    return ("", [range t (index + 1) stop])

/-- The next instruction of a range, if there is one. -/
def next (env : RenderEnv) (t : Template) (index stop : Nat) : Render (String × List Task) :=
  if stop ≤ index then return ("", [])
  else match t.instructions[index]? with
    | none => return ("", [])
    | some i => instruction env t index stop i

/-- Whether a branch is the one to be run. No condition behind that one is evaluated. -/
def hits (env : RenderEnv) (taken : Bool) (i : Instruction) : Render Bool :=
  if taken then return false
  else match i with
    | .beginIf c | .elseIf c => return (← eval env c).isTruthy
    | _ => return true

/-- A branch of a conditional, or its end. -/
def branch (env : RenderEnv) (t : Template) (taken : Bool) (index stop : Nat) :
    Render (String × List Task) := do
  let next := (t.link index).next
  match t.instructions[index]? with
  | none | some .endIf => return ("", [range t (index + 1) stop])
  | some i =>
    if ← hits env taken i then return ("", [range t (index + 1) next, branches t true next stop])
    else return ("", [branches t taken next stop])

/-- An entry of a loop, or what follows the last one. -/
def entry (env : RenderEnv) (t : Template) (index : Nat) (loop : Loop) (count : Nat) :
    List (Value × Value) → Render (String × List Task)
  | [] => do
    setCounter loop.depth count
    return ("", if count = 0 then loopClause t index else [])
  | e :: entries => do
    let text ← loop.visit env (return "") (e, count)
    return (text, loopBody t index ++ [visit t index loop (count + 1) entries])

/-- A value of a counter, or the end of counting. -/
def value (env : RenderEnv) (t : Template) (index : Nat) (counter : Path) (step stop value : Int) :
    Render (String × List Task) := do
  if stop < value then return ("", [])
  else do
    Render.assign env counter (.int value)
    let body := range t (index + 1) (t.link index).next
    if Decimal.fits (value + step) then
      return ("", [body, countUp t index counter step stop (value + step)])
    else return ("", [body])

/-- What a task does at once: its text, and the tasks that take its place. -/
def perform (env : RenderEnv) : Task → Render (String × List Task)
  | range t index stop => next env t index stop
  | branches t taken index stop => branch env t taken index stop
  | visit t index loop count entries => entry env t index loop count entries
  | countUp t index counter step stop i => value env t index counter step stop i
  | enter call => return ("", [enter call])
  | leave frame => return ("", [leave frame])

end Task

/-- The tasks, first one first, and the text so far or the error that is on its way out. -/
structure Machine where
  tasks : List Task
  depth : Nat
  result : Except Error String
  state : RenderState

namespace Machine

/-- Goes one level deeper, if there is one. -/
def enter (env : RenderEnv) (call : Call) (m : Machine) : Machine :=
  if m.depth < env.maxDepth then
    { m with
      tasks := .range call.target.template call.target.start call.target.stop ::
        .leave m.state.frame :: m.tasks
      depth := m.depth + 1
      state := (outcome call.target.hoist { m.state with frame := call.frame }).2 }
  else { m with result := .error (.execution call.tooDeep) }

/-- Performs a task for the text so far. -/
def perform (env : RenderEnv) (task : Task) (text : String) (m : Machine) : Machine :=
  match outcome (task.perform env) m.state with
  | (.ok (piece, tasks), s) =>
    { m with tasks := tasks ++ m.tasks, result := .ok (text ++ piece), state := s }
  | (.error e, s) => { m with result := .error e, state := s }

/-- One step. An error passes by all tasks but those that end what was entered. -/
def step (env : RenderEnv) (m : Machine) : Machine :=
  match m.tasks with
  | [] => m
  | task :: rest =>
    let m := { m with tasks := rest }
    match task, m.result with
    | .leave frame, _ => { m with depth := m.depth - 1, state := { m.state with frame := frame } }
    | _, .error _ => m
    | .enter call, .ok _ => m.enter env call
    | task, .ok text => m.perform env task text

/-- Before the first instruction of a template. -/
def start (t : Template) (s : RenderState) : Machine where
  tasks := [.range t 0 t.size]
  depth := 0
  result := .ok ""
  state := (outcome (hoist t) { s with frame := .ofUnit }).2

/-- After a number of steps. -/
def after (env : RenderEnv) (n : Nat) (m : Machine) : Machine := (step env)^[n] m

@[simp] theorem after_zero (env : RenderEnv) (m : Machine) : after env 0 m = m := rfl

theorem after_one (env : RenderEnv) (m : Machine) : after env 1 m = step env m := rfl

theorem after_add (env : RenderEnv) (n k : Nat) (m : Machine) :
    after env (n + k) m = after env k (after env n m) := by
  rw [after, Nat.add_comm, Function.iterate_add_apply, after, after]

theorem after_succ (env : RenderEnv) (n : Nat) (m : Machine) :
    after env (n + 1) m = step env (after env n m) := Function.iterate_succ_apply' _ _ _

/-- The number of blocks and units that have been entered and not been left yet. -/
def nested (m : Machine) : Nat := m.tasks.countP Task.isLeave

end Machine

/-! One step of each kind. -/

/-- Neither entering nor leaving. -/
def Task.Plain : Task → Prop
  | enter _ | leave _ => False
  | _ => True

namespace Machine

variable {env : RenderEnv} {task : Task} {rest : List Task} {depth : Nat} {s : RenderState}

theorem step_leave (frame : Frame) (r : Except Error String) :
    step env ⟨.leave frame :: rest, depth, r, s⟩ =
      ⟨rest, depth - 1, r, { s with frame := frame }⟩ := by
  cases r <;> rfl

theorem step_error (h : task.isLeave = false) (e : Error) :
    step env ⟨task :: rest, depth, .error e, s⟩ = ⟨rest, depth, .error e, s⟩ := by
  cases task with
  | leave frame => cases h
  | _ => rfl

theorem step_enter (call : Call) (text : String) :
    step env ⟨.enter call :: rest, depth, .ok text, s⟩ =
      enter env call ⟨rest, depth, .ok text, s⟩ := rfl

theorem step_perform (h : task.Plain) (text : String) :
    step env ⟨task :: rest, depth, .ok text, s⟩ =
      perform env task text ⟨rest, depth, .ok text, s⟩ := by
  cases task with
  | enter call => cases h
  | leave frame => cases h
  | _ => rfl

theorem step_error_result {m : Machine} {e : Error} (h : m.result = .error e) :
    (m.step env).result = .error e := by
  obtain ⟨tasks, depth, r, s⟩ := m
  obtain rfl : r = .error e := h
  cases tasks with
  | nil => rfl
  | cons task rest => cases task <;> rfl

/-- An error stays to the end. -/
theorem after_error_result {m : Machine} {e : Error} (h : m.result = .error e) (n : Nat) :
    (m.after env n).result = .error e := by
  induction n with
  | zero => exact h
  | succ n ih =>
    rw [after_succ]
    exact step_error_result ih

end Machine

/-! Nesting. -/

/-- Going too deep is the fault of going deeper than the settings say. -/
def Call.Limited (env : RenderEnv) (call : Call) : Prop :=
  ∃ name, call.tooDeep = .blockTooDeep env.maxDepth name ∨
    call.tooDeep = .includeTooDeep env.maxDepth name

theorem message_append (limit what more name : String) :
    "maximum nesting depth of " ++ limit ++ (what ++ more) ++ name =
      "maximum nesting depth of " ++ limit ++ what ++ (more ++ name) := by
  rw [← String.append_assoc, ← String.append_assoc]

theorem Call.Limited.message {env : RenderEnv} {call : Call} (h : call.Limited env) : ∃ what,
    call.tooDeep.message = s!"maximum nesting depth of {env.maxDepth} exceeded by " ++ what := by
  obtain ⟨name, hname | hname⟩ := h
  · rw [hname]
    exact ⟨_, message_append _ " exceeded by " "block " (quoted name)⟩
  · rw [hname]
    exact ⟨_, message_append _ " exceeded by " "include " (quoted name)⟩

/-- What may take the place of a task: nothing is left that has not been entered, and entries are
visited where they are counted. -/
def Task.Follows (env : RenderEnv) : Task → Prop
  | visit _ _ loop _ _ => loop.depth < Frame.capacity
  | enter call => call.Limited env
  | leave _ => False
  | _ => True

open Markup

theorem blockCall_limited (env : RenderEnv) (name : String) (args : List Expr) :
    Ensures (fun _ => True) (blockCall env name args) fun call _ => call.Limited env := by
  refine .after fun s => ?_
  split
  · exact .throw
  · exact .after fun values => .pure fun _ _ => ⟨name, .inl rfl⟩

theorem includeCall_limited (env : RenderEnv) (parts : List IncludePart) :
    Ensures (fun _ => True) (includeCall env parts) fun call? _ =>
      ∀ call, call? = some call → call.Limited env := by
  refine .after fun href => ?_
  split
  · exact .after fun _ => .pure fun _ _ => nofun
  · refine .after fun t => .pure fun _ _ call hcall => ?_
    obtain rfl := Option.some.inj hcall
    exact ⟨href, .inr rfl⟩

theorem setCounter_counted (depth count : Nat) :
    Ensures (fun _ => True) (setCounter depth count) fun _ _ => depth < Frame.capacity := by
  intro s _ u s' hrun
  rw [outcome_setCounter] at hrun
  split at hrun
  · assumption
  · cases hrun

/-- An entry is visited only where it is counted. -/
theorem visit_counted (env : RenderEnv) (loop : Loop) (body : Render String)
    (entry : (Value × Value) × Nat) : Ensures (fun _ => True) (loop.visit env body entry)
      fun _ _ => loop.depth < Frame.capacity := by
  intro s _ text s' hrun
  obtain ⟨_, _, hset, -⟩ := outcome_bind_eq_ok hrun
  exact setCounter_counted _ _ s trivial _ _ hset

namespace Task

theorem instruction_follows (env : RenderEnv) (t : Template) (index stop : Nat) (i : Instruction) :
    Ensures (fun _ => True) (instruction env t index stop i) fun r _ =>
      ∀ task ∈ r.2, task.Follows env := by
  unfold instruction
  dsimp only
  cases i with
  | emit v => exact .after fun _ => .pure (by simp [Follows])
  | beginFor loop =>
    refine .after fun _ => .bind (setCounter_counted _ _) fun _ => .pure fun _ hdepth => ?_
    simpa [Follows] using hdepth
  | beginEmpty depth inLoop =>
    refine .after fun _ => ?_
    split <;> exact .pure (by simp [Follows])
  | assign target e => exact .after fun _ => .after fun _ => .pure (by simp [Follows])
  | invoke name args =>
    refine .bind (blockCall_limited env name args) fun call => .pure fun _ hcall => ?_
    simpa [Follows] using hcall
  | beginRange c =>
    refine .after fun _ => .after fun _ => .after fun _ => ?_
    split
    · exact .throw
    · exact .pure (by simp [Follows])
  | «include» parts =>
    refine .bind (includeCall_limited env parts) fun call? => ?_
    cases call? with
    | none => exact .pure (by simp [Follows])
    | some call =>
      refine .pure fun _ hcall => ?_
      simpa [Follows] using hcall call rfl
  | _ => exact .pure (by simp [Follows])

theorem next_follows (env : RenderEnv) (t : Template) (index stop : Nat) :
    Ensures (fun _ => True) (next env t index stop) fun r _ => ∀ task ∈ r.2, task.Follows env := by
  unfold next
  split
  · exact .pure (by simp)
  · split
    · exact .pure (by simp)
    · exact instruction_follows env t index stop _

theorem branch_follows (env : RenderEnv) (t : Template) (taken : Bool) (index stop : Nat) :
    Ensures (fun _ => True) (branch env t taken index stop) fun r _ =>
      ∀ task ∈ r.2, task.Follows env := by
  unfold branch
  dsimp only
  split
  · exact .pure (by simp [Follows])
  · exact .pure (by simp [Follows])
  · refine .after fun hit => ?_
    split <;> exact .pure (by simp [Follows])

theorem loopBody_follows (env : RenderEnv) (t : Template) (index : Nat) :
    ∀ task ∈ loopBody t index, task.Follows env := by
  unfold loopBody
  dsimp only
  split <;> simp [Follows]

theorem loopClause_follows (env : RenderEnv) (t : Template) (index : Nat) :
    ∀ task ∈ loopClause t index, task.Follows env := by
  unfold loopClause
  split <;> simp [Follows]

theorem entry_follows (env : RenderEnv) (t : Template) (index : Nat) (loop : Loop) (count : Nat)
    (entries : List (Value × Value)) :
    Ensures (fun _ => True) (entry env t index loop count entries)
      fun r _ => ∀ task ∈ r.2, task.Follows env := by
  cases entries with
  | nil =>
    refine .after fun _ => .pure fun _ _ => ?_
    split
    · exact loopClause_follows env t index
    · simp
  | cons e entries =>
    refine .bind (visit_counted _ _ _ _) fun _ => .pure fun _ hdepth task htask => ?_
    rcases List.mem_append.mp htask with htask | htask
    · exact loopBody_follows env t index task htask
    · rw [List.mem_singleton.mp htask]
      exact hdepth

theorem value_follows (env : RenderEnv) (t : Template) (index : Nat) (counter : Path)
    (step stop i : Int) : Ensures (fun _ => True) (value env t index counter step stop i)
      fun r _ => ∀ task ∈ r.2, task.Follows env := by
  unfold value
  split
  · exact .pure (by simp)
  · refine .after fun _ => ?_
    dsimp only
    split <;> exact .pure (by simp [Follows])

/-- What takes the place of a task that neither enters nor leaves. -/
theorem perform_follows (env : RenderEnv) {task : Task} (h : task.Plain) :
    Ensures (fun _ => True) (task.perform env) fun r _ => ∀ task ∈ r.2, task.Follows env := by
  cases task with
  | range t index stop => exact next_follows env t index stop
  | branches t taken index stop => exact branch_follows env t taken index stop
  | visit t index loop count entries => exact entry_follows env t index loop count entries
  | countUp t index counter step stop i => exact value_follows env t index counter step stop i
  | enter call => cases h
  | leave frame => cases h

end Task

namespace Machine

/-- The depth counts what has been entered and not been left, and stays within the settings. What
stays to be done beside that may follow on what came before. -/
structure Bounded (env : RenderEnv) (m : Machine) : Prop where
  depth : m.depth = m.nested
  limit : m.depth ≤ env.maxDepth
  follows : ∀ task ∈ m.tasks, task.isLeave = false → task.Follows env

variable {env : RenderEnv} {m : Machine}

theorem start_bounded (env : RenderEnv) (t : Template) (s : RenderState) :
    (start t s).Bounded env where
  depth := rfl
  limit := Nat.zero_le _
  follows := by simp [start, Task.Follows]

theorem countP_isLeave {tasks : List Task} (h : ∀ task ∈ tasks, task.Follows env) :
    tasks.countP Task.isLeave = 0 := by
  rw [List.countP_eq_zero]
  intro task htask hleave
  cases task with
  | leave frame => exact h _ htask
  | _ => cases hleave

/-- Whatever a task turns into, what has been entered stays on the stack. -/
theorem Bounded.perform {task : Task} {text : String} (hm : m.Bounded env) (h : task.Plain) :
    (m.perform env task text).Bounded env := by
  unfold Machine.perform
  split
  · rename_i piece tasks s hrun
    have hfollows := Task.perform_follows env h m.state trivial _ _ hrun
    refine ⟨?_, hm.limit, fun task htask hleave => ?_⟩
    · rw [nested, List.countP_append, countP_isLeave hfollows, Nat.zero_add]
      exact hm.depth
    · rcases List.mem_append.mp htask with htask | htask
      · exact hfollows _ htask
      · exact hm.follows task htask hleave
  · exact ⟨hm.depth, hm.limit, hm.follows⟩

theorem Bounded.enter {call : Call} (hm : m.Bounded env) : (m.enter env call).Bounded env := by
  unfold Machine.enter
  split
  · rename_i hdepth
    refine ⟨?_, hdepth, fun task htask hleave => ?_⟩
    · simp [nested, hm.depth, List.countP_cons, Task.isLeave]
    · rcases List.mem_cons.mp htask with rfl | htask
      · trivial
      · rcases List.mem_cons.mp htask with rfl | htask
        · cases hleave
        · exact hm.follows task htask hleave
  · exact ⟨hm.depth, hm.limit, hm.follows⟩

theorem Bounded.step (hm : m.Bounded env) : (m.step env).Bounded env := by
  obtain ⟨tasks, depth, r, s⟩ := m
  cases tasks with
  | nil => exact hm
  | cons task rest =>
    have htasks : ∀ task ∈ rest, task.isLeave = false → task.Follows env := fun task htask =>
      hm.follows task (List.mem_cons_of_mem _ htask)
    cases hleave : task.isLeave with
    | true =>
      cases task with
      | leave frame =>
        have hdepth : depth = rest.countP Task.isLeave + 1 := by
          simpa [nested, List.countP_cons, Task.isLeave] using hm.depth
        rw [step_leave]
        exact ⟨by simp [nested, hdepth], Nat.le_trans (Nat.sub_le _ _) hm.limit, htasks⟩
      | _ => cases hleave
    | false =>
      have hrest : Bounded env ⟨rest, depth, r, s⟩ := by
        refine ⟨?_, hm.limit, htasks⟩
        have hdepth := hm.depth
        rwa [nested, List.countP_cons_of_neg (by simp [hleave])] at hdepth
      cases r with
      | error e =>
        rw [step_error hleave]
        exact hrest
      | ok text =>
        cases task with
        | leave frame => cases hleave
        | enter call => exact hrest.enter
        | _ => exact hrest.perform trivial

/-- At every point of a run the depth counts what is nested, and stays within the settings. -/
theorem after_bounded (env : RenderEnv) (t : Template) (s : RenderState) (n : Nat) :
    ((start t s).after env n).Bounded env := by
  induction n with
  | zero => exact start_bounded env t s
  | succ n ih =>
    rw [after_succ]
    exact ih.step

end Machine

end Render
end BraceTemplate
