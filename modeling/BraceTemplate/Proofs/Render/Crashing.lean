import BraceTemplate.Proofs.Render.Asking
import BraceTemplate.Proofs.Render.Failing
import BraceTemplate.Proofs.Render.Machine

/-!
Crashes of rendering: as far as filters and loaders do not crash by themselves, there is one exactly
where the machine comes to a loop that no frame can count the entries of.
-/
namespace BraceTemplate

/-- No filter answers with a crash. -/
def FilterTable.Returns (t : FilterTable) : Prop := t.FailsOnly (· ≠ .crashed)

namespace Render

/-- A loop whose entries can be counted, or any other instruction. -/
def Countable (i : Instruction) : Prop := ∀ loop, i = .beginFor loop → loop.depth < Frame.capacity

/-- No answer of the loader, if there is one, is a crash. -/
def LoaderReturns (env : RenderEnv) : RenderState → Prop := Provided env (· ≠ .error .crashed)

variable {env : RenderEnv}

theorem failing_countable (h : env.filters.Returns) {P : RenderState → Prop} (hP : Lasting P) :
    Failing env Countable (· ≠ .crashed) P where
  fault _ := nofun
  filters := h
  counted loop hloop := .inl (hloop loop rfl)
  lasting := hP

theorem load_returns (href : String) :
    FailsOnly (· ≠ .crashed) (LoaderReturns env) (load env href) := by
  intro s hs
  obtain ⟨hanswer, hafter⟩ := hs.load href
  refine ⟨?_, hafter⟩
  rintro _ he rfl
  rw [he] at hanswer
  rcases hanswer with hnone | hreturns
  · cases hnone
  · exact hreturns rfl

section Steps

variable (h : env.filters.Returns)
include h

theorem returns : Failing env Countable (· ≠ .crashed) (LoaderReturns env) :=
  failing_countable h fun _ _ _ _ hs => hs

theorem blockCall_returns (name : String) (args : List Expr) :
    FailsOnly (· ≠ .crashed) (LoaderReturns env) (blockCall env name args) := by
  refine .bind_get fun s _ => ?_
  split
  · exact .throw nofun
  · exact .bind ((returns h).steps.evalArgs args) fun _ => .pure _

theorem includeCall_returns (parts : List IncludePart) :
    FailsOnly (· ≠ .crashed) (LoaderReturns env) (includeCall env parts) := by
  refine .bind ((returns h).steps.includePath parts) fun href => ?_
  split
  · have hwarn : FailsOnly (· ≠ .crashed) (LoaderReturns env) (logged (warn .emptyInclude)) :=
      (returns h).logged (.modify fun _ _ => trivial)
    exact .bind hwarn fun _ => .pure _
  · exact .bind (load_returns href) fun _ => .pure _

end Steps

namespace Task

/-- What the task begins with can be counted, if it has entries. -/
def Counted : Task → Prop
  | range t index stop => index < stop → ∀ i, t.instructions[index]? = some i → Countable i
  | visit _ _ loop _ _ => loop.depth < Frame.capacity
  | _ => True

/-- What may follow can be counted, unless it begins with a loop that is too deep. -/
theorem counted_or_loop {task : Task} (h : task.Follows env) : task.Counted ∨
    ∃ t index stop loop, task = .range t index stop ∧ index < stop ∧
      t.instructions[index]? = some (.beginFor loop) ∧ Frame.capacity ≤ loop.depth := by
  cases task with
  | range t index stop =>
    by_cases hcounted : (range t index stop).Counted
    · exact .inl hcounted
    · simp only [Counted, Countable, not_forall, Nat.not_lt] at hcounted
      obtain ⟨hindex, _, hi, loop, rfl, hdeep⟩ := hcounted
      exact .inr ⟨t, index, stop, loop, rfl, hindex, hi, hdeep⟩
  | visit t index loop count entries => exact .inl h
  | _ => exact .inl trivial

variable (h : env.filters.Returns) {t : Template}
include h

theorem instruction_returns (index stop : Nat) {i : Instruction} (hi : Countable i) :
    FailsOnly (· ≠ .crashed) (LoaderReturns env) (instruction env t index stop i) := by
  have hsteps := (returns h).steps
  unfold instruction
  dsimp only
  cases i with
  | emit v => exact .bind (hsteps.resolve v) fun _ => .pure _
  | beginFor loop =>
    exact .bind (hsteps.eval _) fun _ => .bind (hsteps.setCounter loop hi 0) fun _ => .pure _
  | beginEmpty depth inLoop =>
    refine .bind_get fun s _ => ?_
    split <;> exact .pure _
  | assign target e =>
    have htarget := hsteps.assign (.assign target e) hi target (List.mem_singleton_self target)
    exact .bind (hsteps.eval e) fun v => .bind (htarget v) fun _ => .pure _
  | invoke name args => exact .bind (blockCall_returns h name args) fun _ => .pure _
  | beginRange c =>
    refine .bind (hsteps.bound _) fun _ => .bind (hsteps.bound _) fun _ =>
      .bind (hsteps.bound _) fun _ => ?_
    split
    · exact .throw nofun
    · exact .pure _
  | «include» parts =>
    refine .bind (includeCall_returns h parts) fun call? => ?_
    cases call? with
    | none => exact .pure _
    | some call => exact .pure _
  | _ => exact .pure _

theorem branch_returns (taken : Bool) (index stop : Nat) :
    FailsOnly (· ≠ .crashed) (LoaderReturns env) (branch env t taken index stop) := by
  have hhits : ∀ i, FailsOnly (· ≠ .crashed) (LoaderReturns env) (hits env taken i) := by
    intro i
    unfold hits
    split
    · exact .pure _
    · split
      · exact .bind ((returns h).steps.eval _) fun _ => .pure _
      · exact .bind ((returns h).steps.eval _) fun _ => .pure _
      · exact .pure _
  unfold branch
  dsimp only
  split
  · exact .pure _
  · exact .pure _
  · refine .bind (hhits _) fun hit => ?_
    split <;> exact .pure _

/-- A task does not crash where it begins with what can be counted. -/
theorem perform_returns {task : Task} (hcounted : task.Counted) :
    FailsOnly (· ≠ .crashed) (LoaderReturns env) (task.perform env) := by
  have hsteps := (returns h).steps
  cases task with
  | range t index stop =>
    rw [perform, next]
    split
    · exact .pure _
    · rename_i hstop
      split
      · exact .pure _
      · rename_i i hi
        exact instruction_returns h index stop (hcounted (Nat.lt_of_not_le hstop) i hi)
  | branches t taken index stop => exact branch_returns h taken index stop
  | visit t index loop count entries =>
    have hloop : Countable (.beginFor loop) := by
      rintro _ ⟨⟩
      exact hcounted
    rw [perform]
    cases entries with
    | nil => exact .bind (hsteps.setCounter loop hloop count) fun _ => .pure _
    | cons e entries =>
      have hvisit := @StepRelation.visit _ _ _ _ hsteps loop hloop (return "") (return "")
        (hsteps.pure "") (e, count)
      exact .bind hvisit fun _ => .pure _
  | countUp t index counter step stop i =>
    have hassign := hsteps.assign (.beginRange ⟨counter, .literal i, .literal step, .literal stop⟩)
      nofun counter (List.mem_singleton_self counter) (.int i)
    rw [perform, value]
    split
    · exact .pure _
    · refine .bind hassign fun _ => ?_
      dsimp only
      split <;> exact .pure _
  | enter call => exact .pure _
  | leave frame => exact .pure _

end Task

namespace Machine

/-- About to run a loop that has a collection, at a depth that no frame has a counter for. -/
def Overflows (env : RenderEnv) (m : Machine) : Prop :=
  ∃ t index stop loop rest text collection, m.tasks = .range t index stop :: rest ∧
    index < stop ∧ t.instructions[index]? = some (.beginFor loop) ∧
    Frame.capacity ≤ loop.depth ∧ m.result = .ok text ∧
    (outcome (eval env loop.collection) m.state).1 = .ok collection

/-- No crash, and none to come from the loader. -/
structure Sane (env : RenderEnv) (m : Machine) : Prop where
  result : m.result ≠ .error .crashed
  loader : LoaderReturns env m.state

variable {m : Machine} {t : Template} {index stop : Nat} {loop : Loop}

/-- A range that starts with a loop evaluates its collection and starts to count. -/
theorem perform_loop (hindex : index < stop)
    (hloop : t.instructions[index]? = some (.beginFor loop)) :
    (Task.range t index stop).perform env = (do
      let collection ← eval env loop.collection
      setCounter loop.depth 0
      return ("", [.visit t index loop 0 collection.entries,
        .range t ((t.link index).next + 1) stop])) := by
  rw [Task.perform, Task.next, if_neg (Nat.not_le.mpr hindex), hloop]
  rfl

theorem Overflows.step (hm : m.Overflows env) : (m.step env).result = .error .crashed := by
  obtain ⟨tasks, depth, r, s⟩ := m
  obtain ⟨t, index, stop, loop, rest, text, collection, rfl, hindex, hloop, hdeep, rfl, heval⟩ := hm
  have hcollection : outcome (eval env loop.collection) s =
      (.ok collection, (outcome (eval env loop.collection) s).2) := Prod.ext heval rfl
  have hcrash : ∀ s, outcome (setCounter loop.depth 0) s = (.error .crashed, s) := by
    intro s
    rw [outcome_setCounter, if_neg (Nat.not_lt.mpr hdeep)]
  have hrun := outcome_bind_error (hcrash (outcome (eval env loop.collection) s).2) fun _ =>
    (return ("", [.visit t index loop 0 collection.entries,
      .range t ((t.link index).next + 1) stop]) : Render (String × List Task))
  have hplain : (Task.range t index stop).Plain := trivial
  rw [step_perform hplain, perform, perform_loop hindex hloop, outcome_bind_ok hcollection, hrun]

namespace Sane

theorem perform {task : Task} {text : String} {r : Except Error (String × List Task)}
    {s : RenderState} (hrun : outcome (task.perform env) m.state = (r, s))
    (hfails : ∀ e, r = .error e → e ≠ .crashed) (hloader : LoaderReturns env s) :
    (m.perform env task text).Sane env := by
  unfold Machine.perform
  rw [hrun]
  cases r with
  | ok next => exact ⟨nofun, hloader⟩
  | error e => exact ⟨fun he => hfails e rfl (Except.error.inj he), hloader⟩

theorem enter (hm : m.Sane env) (call : Call) : (m.enter env call).Sane env := by
  obtain ⟨target, frame, tooDeep⟩ := call
  unfold Machine.enter
  split
  · refine ⟨hm.result, ?_⟩
    cases target with
    | block b => exact hm.loader
    | unit t => exact hm.loader
  · exact ⟨nofun, hm.loader⟩

/-- A step crashes only where the machine overflows. -/
theorem step (h : env.filters.Returns) (hm : m.Sane env) (hbounded : m.Bounded env)
    (hfits : ¬m.Overflows env) : (m.step env).Sane env := by
  obtain ⟨tasks, depth, r, s⟩ := m
  cases tasks with
  | nil => exact hm
  | cons task rest =>
    have hrest : Sane env ⟨rest, depth, r, s⟩ := ⟨hm.result, hm.loader⟩
    cases hleave : task.isLeave with
    | true =>
      cases task with
      | leave frame =>
        rw [step_leave]
        exact ⟨hm.result, hm.loader⟩
      | _ => cases hleave
    | false =>
      cases r with
      | error e =>
        rw [step_error hleave]
        exact hrest
      | ok text =>
        by_cases hplain : task.Plain
        · rw [step_perform hplain]
          have hfollows := hbounded.follows task List.mem_cons_self hleave
          rcases Task.counted_or_loop hfollows with hcounted | hdeep
          · obtain ⟨hfails, hloader⟩ := Task.perform_returns h hcounted s hm.loader
            exact perform rfl hfails hloader
          · -- only a failure of the collection keeps such a loop from overflowing
            obtain ⟨t, index, stop, loop, rfl, hindex, hloop, hdeep⟩ := hdeep
            obtain ⟨hfails, hloader⟩ := (returns h).steps.eval loop.collection s hm.loader
            cases heval : outcome (eval env loop.collection) s with
            | mk r s' =>
              rw [heval] at hfails hloader
              cases r with
              | ok collection =>
                have hcollection := congrArg Prod.fst heval
                exact absurd ⟨t, index, stop, loop, rest, text, collection, rfl, hindex, hloop,
                  hdeep, rfl, hcollection⟩ hfits
              | error e =>
                have hrun : outcome ((Task.range t index stop).perform env) s = (.error e, s') := by
                  rw [perform_loop hindex hloop]
                  exact outcome_bind_error heval _
                refine perform hrun (fun e' he => ?_) hloader
                rw [← Except.error.inj he]
                exact hfails e rfl
        · cases task with
          | enter call => exact hrest.enter call
          | leave frame => cases hleave
          | _ => exact absurd trivial hplain

end Sane

end Machine
end Render
end BraceTemplate
