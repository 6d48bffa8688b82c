import BraceTemplate.Engine
import BraceTemplate.Files.Tree
import BraceTemplate.Proofs.Render.Machine
import BraceTemplate.Proofs.Render.Writes

/-!
Global names during a rendering: an assignment to one, by itself or by a loop, binds it alike in
every layer, and from there on all layers agree on it. Appending reaches the active layer only.
-/
namespace BraceTemplate

namespace Context

variable {c : Context} {name : String}

/-- Layers that agree on a global name do so behind every write. -/
theorem exists_agrees_write (h : ∃ value, c.Agrees name (some value)) (hc : c.Settled)
    (hglobal : c.isGlobal name = true) (w : String × Value) :
    ∃ value, (c.write w).Agrees name (some value) := by
  obtain ⟨value, h⟩ := h
  by_cases hname : w.1 = name
  · have hwrite : c.write w = c.assign name w.2 true := by rw [write, hname, hglobal]
    rw [hwrite]
    exact ⟨w.2, agrees_assign hc name w.2⟩
  · have hleaves : Op.Leaves name (.assign w.1 w.2 (c.isGlobal w.1)) := hname
    refine ⟨value, h.apply hc hglobal hleaves fun hpop => ?_⟩
    cases hpop

theorem isGlobal_writeAll (c : Context) (ws : List (String × Value)) (name : String) :
    (c.writeAll ws).isGlobal name = c.isGlobal name := by
  rw [isGlobal, (Retains.writeAll c ws).globals, isGlobal]

theorem exists_agrees_writeAll (h : ∃ value, c.Agrees name (some value)) (hc : c.Settled)
    (hglobal : c.isGlobal name = true) (ws : List (String × Value)) :
    ∃ value, (c.writeAll ws).Agrees name (some value) := by
  induction ws generalizing c with
  | nil => exact h
  | cons w ws ih =>
    have hwrite : (c.write w).isGlobal name = true := by
      rw [isGlobal, (Retains.write c w).globals]
      exact hglobal
    have hsettled : (c.write w).Settled := hc.apply (.assign w.1 w.2 (c.isGlobal w.1))
    exact ih (exists_agrees_write h hc hglobal w) hsettled hwrite

end Context

namespace Render

/-- The visit of an entry up to where its value is assigned. -/
def entered (env : RenderEnv) (loop : Loop) (count : Nat) (key : Value) : Render Unit := do
  setCounter loop.depth (count + 1)
  match loop.key with
  | some path => assign env path key
  | none => return ()

theorem visit_eq_entered (env : RenderEnv) (loop : Loop) (body : Render String)
    (entry : Value × Value) (count : Nat) :
    loop.visit env body (entry, count) = (do
      entered env loop count entry.1
      assign env loop.value entry.2
      body) := by
  cases hkey : loop.key <;> simp only [Loop.visit, entered, hkey, bind_assoc, pure_bind]

theorem entered_onlyWrites (env : RenderEnv) (loop : Loop) (count : Nat) (key : Value) :
    OnlyWrites (entered env loop count key) := by
  refine .bind (.setCounter _ _) fun _ => ?_
  split
  · exact .assign env _ key
  · exact .pure ()

namespace Task

/-- The assignments that a task makes at once: an assignment to a path, the key and the value of the
next entry of a loop, the next value of a counter. Each with the state in which it is made. -/
inductive Assigns (env : RenderEnv) (s : RenderState) : Task → Path → Value → RenderState → Prop
    where
  | set {t : Template} {index stop : Nat} {target : Path} {e : Expr} {value : Value}
    {before : RenderState} (h : t.instructions[index]? = some (.assign target e))
    (hindex : index < stop) (heval : outcome (eval env e) s = (.ok value, before)) :
    Assigns env s (.range t index stop) target value before
  | key {t : Template} {index count : Nat} {loop : Loop} {entry : Value × Value}
    {entries : List (Value × Value)} {path : Path} {before : RenderState}
    (h : loop.key = some path)
    (hcount : outcome (setCounter loop.depth (count + 1)) s = (.ok ⟨⟩, before)) :
    Assigns env s (.visit t index loop count (entry :: entries)) path entry.1 before
  | value {t : Template} {index count : Nat} {loop : Loop} {entry : Value × Value}
    {entries : List (Value × Value)} {before : RenderState}
    (h : outcome (entered env loop count entry.1) s = (.ok ⟨⟩, before)) :
    Assigns env s (.visit t index loop count (entry :: entries)) loop.value entry.2 before
  | count {t : Template} {index : Nat} {counter : Path} {step stop value : Int}
    (h : value ≤ stop) :
    Assigns env s (.countUp t index counter step stop value) counter (.int value) s

variable {env : RenderEnv} {s before : RenderState} {task : Task} {path : Path} {value : Value}

theorem Assigns.plain (h : task.Assigns env s path value before) : task.Plain := by
  cases h <;> trivial

/-- Before the assignment and behind it the task only writes. -/
theorem Assigns.perform (h : task.Assigns env s path value before) :
    (∃ ws, before.context = s.context.writeAll ws) ∧
      ∃ ws, (outcome (task.perform env) s).2.context =
        (outcome (assign env path value) before).2.context.writeAll ws := by
  cases h with
  | @set t index stop _ e _ _ hi hindex heval =>
    have hperform : (range t index stop).perform env = (do
        assign env path (← eval env e)
        return ("", [range t (index + 1) stop])) := by
      rw [Task.perform, next, if_neg (by omega), hi]
      rfl
    obtain ⟨ws, hws⟩ := (OnlyWrites.steps env).eval e s
    refine ⟨⟨ws, by rw [← hws, heval]⟩, ?_⟩
    rw [hperform, outcome_bind_ok heval]
    exact OnlyWrites.behind _ (fun _ => .pure _) before
  | @key t index count loop entry entries _ before hkey hcount =>
    have hperform : (visit t index loop count (entry :: entries)).perform env = (do
        setCounter loop.depth (count + 1)
        assign env path entry.1
        assign env loop.value entry.2
        return ("", loopBody t index ++ [visit t index loop (count + 1) entries])) := by
      rw [Task.perform, Task.entry, visit_eq_entered, entered, hkey]
      simp only [bind_assoc, pure_bind]
    obtain ⟨ws, hws⟩ := OnlyWrites.setCounter loop.depth (count + 1) s
    refine ⟨⟨ws, by rw [← hws, hcount]⟩, ?_⟩
    rw [hperform, outcome_bind_ok hcount]
    exact OnlyWrites.behind _ (fun _ => .bind (.assign env _ _) fun _ => .pure _) _
  | @value t index count loop entry entries before h =>
    have hperform : (visit t index loop count (entry :: entries)).perform env = (do
        entered env loop count entry.1
        assign env loop.value entry.2
        return ("", loopBody t index ++ [visit t index loop (count + 1) entries])) := by
      rw [Task.perform, Task.entry, visit_eq_entered]
      simp only [bind_assoc, pure_bind]
    obtain ⟨ws, hws⟩ := entered_onlyWrites env loop count entry.1 s
    refine ⟨⟨ws, by rw [← hws, h]⟩, ?_⟩
    rw [hperform, outcome_bind_ok h]
    exact OnlyWrites.behind _ (fun _ => .pure _) before
  | @count t index counter step stop value h =>
    refine ⟨⟨[], rfl⟩, ?_⟩
    rw [Task.perform, Task.value, if_neg (by omega)]
    refine OnlyWrites.behind _ (fun _ => ?_) s
    dsimp only
    split <;> exact .pure _

/-- What an instruction does at once. -/
theorem instruction_onlyWrites (env : RenderEnv) (t : Template) (index stop : Nat)
    (i : Instruction) : OnlyWrites (instruction env t index stop i) := by
  have hsteps := OnlyWrites.steps env
  unfold instruction
  dsimp only
  cases i with
  | emit v => exact .bind (hsteps.resolve v) fun _ => .pure _
  | beginFor loop =>
    exact .bind (hsteps.eval _) fun _ => .bind (hsteps.setCounter loop trivial 0) fun _ => .pure _
  | beginEmpty depth inLoop =>
    refine .bind .get fun _ => ?_
    split <;> exact .pure _
  | assign target e =>
    exact .bind (hsteps.eval e) fun _ => .bind (.assign env target _) fun _ => .pure _
  | invoke name args =>
    refine .bind (.bind .get fun s => ?_) fun _ => .pure _
    split
    · exact .throw _
    · exact .bind (hsteps.evalArgs args) fun _ => .pure _
  | beginRange c =>
    refine .bind (hsteps.bound c.start) fun _ => .bind (hsteps.bound c.step) fun _ =>
      .bind (hsteps.bound c.stop) fun _ => ?_
    split
    · exact .throw _
    · exact .pure _
  | «include» parts =>
    refine .bind (.bind (hsteps.includePath parts) fun href => ?_) fun call? => ?_
    · split
      · exact .bind (.logged _) fun _ => .pure _
      · exact .bind (.load env href) fun _ => .pure _
    · cases call? <;> exact .pure _
  | _ => exact .pure _

theorem perform_onlyWrites (env : RenderEnv) (task : Task) : OnlyWrites (task.perform env) := by
  cases task with
  | range t index stop =>
    rw [Task.perform, next]
    split
    · exact .pure _
    · split
      · exact .pure _
      · exact instruction_onlyWrites env t index stop _
  | branches t taken index stop =>
    rw [Task.perform, branch]
    split
    · exact .pure _
    · exact .pure _
    · refine .bind ?_ fun hit => ?_
      · unfold hits
        split
        · exact .pure _
        · split
          · exact .bind ((OnlyWrites.steps env).eval _) fun _ => .pure _
          · exact .bind ((OnlyWrites.steps env).eval _) fun _ => .pure _
          · exact .pure _
      · split <;> exact .pure _
  | visit t index loop count entries =>
    cases entries with
    | nil => exact .bind (.setCounter _ _) fun _ => .pure _
    | cons entry entries =>
      rw [Task.perform, Task.entry, visit_eq_entered]
      exact .bind (.bind (entered_onlyWrites env loop count entry.1) fun _ =>
        .bind (.assign env _ _) fun _ => .pure _) fun _ => .pure _
  | countUp t index counter step stop value =>
    rw [Task.perform, Task.value]
    split
    · exact .pure _
    · refine .bind (.assign env counter _) fun _ => ?_
      dsimp only
      split <;> exact .pure _
  | enter call => exact .pure _
  | leave frame => exact .pure _

end Task

namespace Machine

variable {env : RenderEnv} {m : Machine}

/-- The next step of a machine makes an assignment, in a state. -/
def Assigns (env : RenderEnv) (m : Machine) (path : Path) (value : Value) (before : RenderState) :
    Prop :=
  ∃ task rest text, m.tasks = task :: rest ∧ m.result = .ok text ∧
    task.Assigns env m.state path value before

theorem step_state {task : Task} (h : task.Plain) (rest : List Task) (depth : Nat) (text : String)
    (s : RenderState) : (step env ⟨task :: rest, depth, .ok text, s⟩).state =
      (outcome (task.perform env) s).2 := by
  rw [step_perform h, perform]
  split
  · rename_i hrun
    rw [hrun]
  · rename_i hrun
    rw [hrun]

/-- A step changes the context by writes alone. -/
theorem step_writes (env : RenderEnv) (m : Machine) :
    ∃ ws, (m.step env).state.context = m.state.context.writeAll ws := by
  obtain ⟨tasks, depth, r, s⟩ := m
  cases tasks with
  | nil => exact ⟨[], rfl⟩
  | cons task rest =>
    cases hleave : task.isLeave with
    | true =>
      cases task with
      | leave frame => exact ⟨[], by rw [step_leave]; rfl⟩
      | _ => cases hleave
    | false =>
      cases r with
      | error e => exact ⟨[], by rw [step_error hleave]; rfl⟩
      | ok text =>
        cases task with
        | leave frame => cases hleave
        | enter call =>
          rw [step_enter, enter]
          split
          · refine ⟨[], ?_⟩
            dsimp only
            cases call.target <;> rfl
          · exact ⟨[], rfl⟩
        | _ =>
          rw [step_state (by trivial)]
          exact Task.perform_onlyWrites env _ s

/-- A run changes the context by writes alone. -/
theorem after_writes (env : RenderEnv) (m : Machine) (n : Nat) :
    ∃ ws, (m.after env n).state.context = m.state.context.writeAll ws := by
  induction n with
  | zero => exact ⟨[], rfl⟩
  | succ n ih =>
    obtain ⟨ws, hws⟩ := ih
    obtain ⟨more, hmore⟩ := step_writes env (m.after env n)
    exact ⟨ws ++ more, by rw [after_succ, hmore, hws, Context.writeAll_append]⟩

end Machine

/-- An assignment to a path that starts with a shared name writes that name. -/
theorem context_assign {env : RenderEnv} {path : Path} {value : Value} {s after : RenderState}
    {name : String} {keys : List String}
    (hnames : (outcome (path.names (scope env s)) s.warnings).1 = .ok (name :: keys))
    (hmode : path.mode = .shared ∨ s.frame.locals = none)
    (h : outcome (assign env path value) s = (.ok ⟨⟩, after)) :
    after.context = s.context.write (name,
      (Value.setPath keys ((Dict.find? s.context.activeLayer name).getD .null) value).slot) := by
  let log := (outcome (path.names (scope env s)) s.warnings).2
  have hlog : outcome (logged (path.names (scope env s))) s =
      (.ok (name :: keys), { s with warnings := log }) := by
    rw [outcome_logged, hnames]
  have hmode : path.mode = .shared ∨ { s with warnings := log }.frame.locals = none := hmode
  unfold assign at h
  rw [outcome_bind_ok outcome_get, outcome_bind_ok hlog] at h
  have hwrite := (outcome_write hmode name keys value).symm.trans h
  dsimp only at hwrite
  split at hwrite
  · cases hwrite
  · obtain ⟨-, rfl⟩ := Prod.mk.inj hwrite
    rfl

/-- Whenever in a rendering a value is assigned to a global name or to a path below it, by an
assignment or by a loop, every layer binds the name to what the active layer binds it to, and at
every later point of the rendering all layers agree on it. -/
theorem global_assignments_spread (env : RenderEnv) (t : Template) (s : RenderState)
    (hc : s.context.Reachable) {g : String} (hg : s.context.isGlobal g = true) (n : Nat)
    {path : Path} {value : Value} {before after : RenderState} {keys : List String}
    (hassigns : ((Machine.start t s).after env n).Assigns env path value before)
    (hnames : (outcome (path.names (scope env before)) before.warnings).1 = .ok (g :: keys))
    (hmode : path.mode = .shared ∨ before.frame.locals = none)
    (hdone : outcome (assign env path value) before = (.ok ⟨⟩, after)) :
    after.context.Agrees g (some
      (Value.setPath keys ((Dict.find? before.context.activeLayer g).getD .null) value).slot) ∧
    ∀ k > n, ∃ v, ((Machine.start t s).after env k).state.context.Agrees g (some v) := by
  obtain ⟨⟨tasks, depth, r, now⟩, hm⟩ : ∃ m, (Machine.start t s).after env n = m := ⟨_, rfl⟩
  obtain ⟨task, rest, text, rfl, rfl, hassigns⟩ := hm ▸ hassigns
  obtain ⟨⟨ws, hbefore⟩, more, hrest⟩ := hassigns.perform
  -- up to the assignment the rendering has only written
  obtain ⟨earlier, hnow⟩ := Machine.after_writes env (Machine.start t s) n
  rw [hm] at hnow
  have hcontext : before.context = s.context.writeAll (earlier ++ ws) := by
    rw [hbefore, Context.writeAll_append]
    exact congrArg (Context.writeAll · ws) hnow
  have hsettled : before.context.Settled := by
    rw [hcontext]
    exact (hc.writeAll _).settled
  have hglobal : before.context.isGlobal g = true := by
    rw [hcontext, Context.isGlobal_writeAll, hg]
  have hwritten := context_assign hnames hmode hdone
  rw [Context.write, hglobal] at hwritten
  have hagrees : after.context.Agrees g (some _) := hwritten ▸ Context.agrees_assign hsettled g _
  refine ⟨hagrees, fun k hk => ?_⟩
  -- behind it the step, and then the rest of the run, only writes
  have hafter : after.context.Settled := hwritten ▸ hsettled.assign g _
  have hafterGlobal : after.context.isGlobal g = true := by
    rw [hwritten, Context.isGlobal_assign, hglobal, Bool.true_or]
  obtain ⟨later, hlater⟩ :=
    Machine.after_writes env ((Machine.start t s).after env (n + 1)) (k - (n + 1))
  rw [← Machine.after_add, show n + 1 + (k - (n + 1)) = k by omega, Machine.after_succ, hm,
    Machine.step_state hassigns.plain, hrest, hdone, ← Context.writeAll_append] at hlater
  rw [hlater]
  exact Context.exists_agrees_writeAll ⟨_, hagrees⟩ hafter hafterGlobal _

/-- The template of one assignment, below a name. -/
def revising : Template :=
  ⟨#[.assign ⟨.shared, [.key "site", .key "title"]⟩ (.literal (.str "new"))], #[⟨0, none⟩], [],
    none, rfl⟩

/-- A stack of two layers with a global mapping. -/
def layered : Context :=
  Context.empty.run [.assign "site" (.dict [("title", .str "old")]) true, .push]

/-- A mapping that is global is changed in the layer below as well. -/
theorem global_assignments_spread_revising :
    let env := (Engine.ofConfig Text.WordCase.speller .standard).env Files.Tree.empty.read
    let s : RenderState := ⟨layered, .ofUnit, [], none, []⟩
    let path : Path := ⟨.shared, [.key "site", .key "title"]⟩
    layered.Reachable ∧ layered.isGlobal "site" = true ∧
      (Machine.start revising s).Assigns env path (.str "new") s ∧
      (outcome (path.names (scope env s)) s.warnings).1 = .ok ["site", "title"] ∧
      (outcome (assign env path (.str "new")) s).2.context.Agrees "site"
        (some (.dict [("title", .str "new")])) ∧
      ∀ k > 0, ∃ v, ((Machine.start revising s).after env k).state.context.Agrees "site"
        (some v) := by
  intro env s path
  have hc : s.context.Reachable := ⟨_, rfl⟩
  have hg : s.context.isGlobal "site" = true := by decide
  have heval : outcome (eval env (.literal (.str "new"))) s = (.ok (.str "new"), s) := rfl
  have hassigns : ((Machine.start revising s).after env 0).Assigns env path (.str "new") s :=
    ⟨_, _, _, rfl, rfl, .set rfl (Nat.zero_lt_one) heval⟩
  have hnames : (outcome (path.names (scope env s)) s.warnings).1 = .ok ["site", "title"] := rfl
  have hdone : outcome (assign env path (.str "new")) s =
      (.ok ⟨⟩, (outcome (assign env path (.str "new")) s).2) := rfl
  exact ⟨hc, hg, hassigns, hnames,
    global_assignments_spread env revising s hc hg 0 hassigns hnames (.inl rfl) hdone⟩

/-- Appending to a global name leaves the layers below as they were. -/
theorem append_misses_layers : ∃ c : Context, c.Reachable ∧ c.isGlobal "g" = true ∧
    ¬∃ v, (c.append "g" (.int 2)).Agrees "g" (some v) := by
  let c := Context.empty.run [.assign "g" (.list [.int 1]) true, .push]
  refine ⟨c, ⟨_, rfl⟩, by decide, ?_⟩
  rintro ⟨v, h⟩
  have hbelow : some (Value.list [.int 1]) = some v := h.layers _ List.mem_cons_self
  have hactive : some (Value.list [.int 1, .int 2]) = some v := h.active
  cases hbelow.trans hactive.symm

end Render
end BraceTemplate
