import BraceTemplate.Engine
import BraceTemplate.Files.Tree
import BraceTemplate.Proofs.Render.Halting

/-!
Limits on nesting: a rendering that is never refused to go deeper goes the same way under every
higher limit, step by step.
-/
namespace BraceTemplate

/-- The same environment with another limit on nesting. -/
def RenderEnv.withLimit (env : RenderEnv) (limit : Nat) : RenderEnv := { env with maxDepth := limit }

/-- The same fault under another limit on nesting. -/
def RenderFault.withLimit (limit : Nat) : RenderFault → RenderFault
  | .blockTooDeep _ name => .blockTooDeep limit name
  | .includeTooDeep _ path => .includeTooDeep limit path
  | f => f

namespace Render

variable {env : RenderEnv} {limit : Nat}

def Call.withLimit (limit : Nat) (call : Call) : Call :=
  { call with tooDeep := call.tooDeep.withLimit limit }

def Task.withLimit (limit : Nat) : Task → Task
  | .enter call => .enter (call.withLimit limit)
  | task => task

def Machine.withLimit (limit : Nat) (m : Machine) : Machine :=
  { m with tasks := m.tasks.map (Task.withLimit limit) }

/-! Calls know the limit for their fault only. -/

theorem includePath_withLimit (parts : List IncludePart) :
    includePath (env.withLimit limit) parts = includePath env parts := by
  induction parts with
  | nil => rfl
  | cons part parts ih =>
    cases part with
    | text s => rw [includePath, includePath, ih]
    | var v => rw [includePath, includePath, ih]; rfl

theorem blockCall_withLimit (name : String) (args : List Expr) :
    blockCall (env.withLimit limit) name args =
      Call.withLimit limit <$> blockCall env name args := by
  unfold blockCall
  rw [map_bind]
  refine bind_congr fun s => ?_
  cases Dict.find? s.blocks name with
  | none => rfl
  | some block =>
    dsimp only
    rw [map_bind]
    refine bind_congr fun values => ?_
    rw [map_pure]
    rfl

theorem includeCall_withLimit (parts : List IncludePart) :
    includeCall (env.withLimit limit) parts =
      Option.map (Call.withLimit limit) <$> includeCall env parts := by
  unfold includeCall
  rw [includePath_withLimit, map_bind]
  refine bind_congr fun href => ?_
  split
  · rw [map_bind]
    rfl
  · rw [map_bind]
    refine bind_congr fun t => ?_
    rw [map_pure]
    rfl

/-! Tasks. -/

namespace Task

/-- What takes the place of a task, under another limit. -/
def relabelled (limit : Nat) (r : String × List Task) : String × List Task :=
  (r.1, r.2.map (withLimit limit))

theorem instruction_withLimit (t : Template) (index stop : Nat) (i : Instruction) :
    instruction (env.withLimit limit) t index stop i =
      relabelled limit <$> instruction env t index stop i := by
  unfold instruction
  dsimp only
  cases i with
  | invoke name args =>
    dsimp only
    rw [blockCall_withLimit, map_bind, bind_map_left]
    refine bind_congr fun call => ?_
    rw [map_pure]
    rfl
  | «include» parts =>
    dsimp only
    rw [includeCall_withLimit, map_bind, bind_map_left]
    refine bind_congr fun call? => ?_
    cases call? <;> rfl
  | emit v =>
    rw [map_bind]
    rfl
  | beginFor loop =>
    simp only [map_bind]
    rfl
  | beginEmpty depth inLoop =>
    rw [map_bind]
    refine bind_congr fun s => ?_
    split <;> rfl
  | assign target e =>
    simp only [map_bind]
    rfl
  | beginRange c =>
    simp only [map_bind]
    refine bind_congr fun start => bind_congr fun step => bind_congr fun last => ?_
    split <;> rfl
  | _ => rfl

theorem next_withLimit (t : Template) (index stop : Nat) :
    next (env.withLimit limit) t index stop = relabelled limit <$> next env t index stop := by
  unfold next
  split
  · rfl
  · split
    · rfl
    · exact instruction_withLimit t index stop _

theorem branch_withLimit (t : Template) (taken : Bool) (index stop : Nat) :
    branch (env.withLimit limit) t taken index stop =
      relabelled limit <$> branch env t taken index stop := by
  unfold branch
  dsimp only
  split
  · rfl
  · rfl
  · rw [map_bind]
    refine bind_congr fun hit => ?_
    split <;> rfl

theorem loopBody_withLimit (t : Template) (index : Nat) :
    (loopBody t index).map (withLimit limit) = loopBody t index := by
  unfold loopBody
  dsimp only
  split <;> rfl

theorem loopClause_withLimit (t : Template) (index : Nat) :
    (loopClause t index).map (withLimit limit) = loopClause t index := by
  unfold loopClause
  split <;> rfl

theorem entry_withLimit (t : Template) (index : Nat) (loop : Loop) (count : Nat)
    (entries : List (Value × Value)) :
    entry (env.withLimit limit) t index loop count entries =
      relabelled limit <$> entry env t index loop count entries := by
  cases entries with
  | nil =>
    unfold entry
    rw [map_bind]
    refine bind_congr fun _ => ?_
    rw [map_pure, relabelled, apply_ite (List.map (withLimit limit)), loopClause_withLimit]
    rfl
  | cons e entries =>
    unfold entry
    rw [map_bind]
    refine bind_congr fun text => ?_
    rw [map_pure, relabelled, List.map_append, loopBody_withLimit]
    rfl

theorem value_withLimit (t : Template) (index : Nat) (counter : Path) (step stop i : Int) :
    value (env.withLimit limit) t index counter step stop i =
      relabelled limit <$> value env t index counter step stop i := by
  unfold value
  split
  · rfl
  · rw [map_bind]
    refine bind_congr fun _ => ?_
    dsimp only
    split <;> rfl

theorem withLimit_of_plain {task : Task} (h : task.Plain) : task.withLimit limit = task := by
  cases task with
  | enter call => cases h
  | _ => rfl

/-- Tasks that neither enter nor leave do the same under every limit. -/
theorem perform_withLimit {task : Task} (h : task.Plain) :
    task.perform (env.withLimit limit) = relabelled limit <$> task.perform env := by
  cases task with
  | range t index stop => exact next_withLimit t index stop
  | branches t taken index stop => exact branch_withLimit t taken index stop
  | visit t index loop count entries => exact entry_withLimit t index loop count entries
  | countUp t index counter step stop i => exact value_withLimit t index counter step stop i
  | enter call => cases h
  | leave frame => cases h

end Task

/-! Runs. -/

namespace Machine

/-- About to go deeper than the limit. -/
def Refuses (env : RenderEnv) (m : Machine) : Prop :=
  ∃ call rest text, m.tasks = .enter call :: rest ∧ m.result = .ok text ∧ env.maxDepth ≤ m.depth

variable {m : Machine}

theorem perform_withLimit {task : Task} (h : task.Plain) (text : String) :
    (m.withLimit limit).perform (env.withLimit limit) task text =
      (m.perform env task text).withLimit limit := by
  unfold perform
  rw [Task.perform_withLimit h, outcome_map]
  have hstate : (m.withLimit limit).state = m.state := rfl
  rw [hstate]
  rcases outcome (task.perform env) m.state with ⟨e | ⟨piece, tasks⟩, s⟩
  · rfl
  · simp [Except.map, Task.relabelled, withLimit]

theorem enter_withLimit (call : Call) (h : env.maxDepth ≤ limit) (hdepth : m.depth < env.maxDepth) :
    (m.withLimit limit).enter (env.withLimit limit) (call.withLimit limit) =
      (m.enter env call).withLimit limit := by
  have hhigher : (m.withLimit limit).depth < (env.withLimit limit).maxDepth :=
    Nat.lt_of_lt_of_le hdepth h
  rw [Machine.enter, Machine.enter, if_pos hdepth, if_pos hhigher]
  rfl

/-- A step that is not refused is the same under a higher limit. -/
theorem step_withLimit (h : env.maxDepth ≤ limit) (hm : ¬m.Refuses env) :
    (m.withLimit limit).step (env.withLimit limit) = (m.step env).withLimit limit := by
  obtain ⟨tasks, depth, r, s⟩ := m
  cases tasks with
  | nil => rfl
  | cons task rest =>
    cases r with
    | error e => cases task <;> rfl
    | ok text =>
      by_cases hplain : task.Plain
      · have hlifted : withLimit limit ⟨task :: rest, depth, .ok text, s⟩ =
            ⟨task :: rest.map (Task.withLimit limit), depth, .ok text, s⟩ := by
          rw [withLimit, List.map_cons, Task.withLimit_of_plain hplain]
        rw [hlifted, step_perform hplain, step_perform hplain]
        exact perform_withLimit (m := ⟨rest, depth, .ok text, s⟩) hplain text
      · cases task with
        | leave frame => rfl
        | enter call =>
          have hdepth : depth < env.maxDepth :=
            Nat.lt_of_not_le fun hle => hm ⟨call, rest, text, rfl, rfl, hle⟩
          exact enter_withLimit (m := ⟨rest, depth, .ok text, s⟩) call h hdepth
        | _ => exact absurd trivial hplain

theorem after_withLimit (h : env.maxDepth ≤ limit) (hm : ∀ k, ¬(m.after env k).Refuses env)
    (n : Nat) : (m.withLimit limit).after (env.withLimit limit) n =
      (m.after env n).withLimit limit := by
  induction n with
  | zero => rfl
  | succ n ih => rw [after_succ, after_succ, ih, step_withLimit h (hm n)]

/-- Without tasks there is nothing more to do. -/
theorem after_of_done (h : m.tasks = []) (n : Nat) : m.after env n = m := by
  induction n with
  | zero => rfl
  | succ n ih =>
    rw [after_succ, ih, step]
    simp only [h]

end Machine

/-- A rendering is at some point about to go deeper than the limit. -/
def Exceeds (env : RenderEnv) (t : Template) (s : RenderState) : Prop :=
  ∃ n, ((Machine.start t s).after env n).Refuses env

variable {t : Template} {s : RenderState}

open Machine

/-- A rendering that stays within the limit is the same under a higher one. -/
theorem template_withLimit (h : env.maxDepth ≤ limit) (hwithin : ¬Exceeds env t s) :
    outcome (template (env.withLimit limit) t) s = outcome (template env t) s := by
  obtain ⟨n, r, s₁, hlow, hrun⟩ := after_start env t s
  obtain ⟨k, r', s₂, hhigh, hrun'⟩ := after_start (env.withLimit limit) t s
  have hstart : (start t s).withLimit limit = start t s := rfl
  have hlift := after_withLimit h (fun k hk => hwithin ⟨k, hk⟩) n (m := start t s)
  rw [hstart, hlow] at hlift
  -- both runs have come to an end behind `n + k` steps
  have hend : (⟨[], 0, r, s₁⟩ : Machine) = ⟨[], 0, r', s₂⟩ := by
    calc (⟨[], 0, r, s₁⟩ : Machine)
        = (start t s).after (env.withLimit limit) (n + k) := by
          rw [after_add, hlift]
          exact (after_of_done rfl k).symm
      _ = ⟨[], 0, r', s₂⟩ := by
          rw [Nat.add_comm, after_add, hhigh]
          exact after_of_done rfl n
  obtain ⟨-, -, rfl, rfl⟩ := Machine.mk.inj hend
  rw [hrun, hrun']

/-- A rendering that exceeds the limit fails with the fault of that. -/
theorem Exceeds.fails (h : Exceeds env t s) : ∃ name,
    (outcome (template env t) s).1 = .error (.execution (.blockTooDeep env.maxDepth name)) ∨
      (outcome (template env t) s).1 =
        .error (.execution (.includeTooDeep env.maxDepth name)) := by
  obtain ⟨k, call, rest, text, htasks, hresult, hdepth⟩ := h
  have hmem : .enter call ∈ ((start t s).after env k).tasks := htasks ▸ List.mem_cons_self
  obtain ⟨name, hname⟩ := (after_bounded env t s k).follows _ hmem rfl
  have hrefused : ((start t s).after env (k + 1)).result = .error (.execution call.tooDeep) := by
    rw [after_succ]
    generalize (start t s).after env k = m at htasks hresult hdepth ⊢
    obtain ⟨tasks, depth, r, s₁⟩ := m
    obtain rfl : tasks = _ := htasks
    obtain rfl : r = _ := hresult
    rw [step_enter, Machine.enter, if_neg (Nat.not_lt_of_le hdepth)]
  obtain ⟨n, r, s', hend, hrun⟩ := after_start env t s
  have hr : r = .error (.execution call.tooDeep) := by
    have hlast : (((start t s).after env (k + 1)).after env n).result =
        .error (.execution call.tooDeep) := after_error_result hrefused n
    rw [← after_add, Nat.add_comm, after_add, hend, after_of_done rfl] at hlast
    exact hlast
  refine ⟨name, ?_⟩
  rw [hrun, hr]
  rcases hname with hname | hname
  · exact .inl (by rw [hname])
  · exact .inr (by rw [hname])

end Render

namespace Engine

/-- The engine with another limit on nesting. -/
def withLimit (e : Engine) (limit : Nat) : Engine :=
  { e with config := { e.config with maxDepth := limit } }

/-- What a rendering of an engine starts from. -/
def start (e : Engine) : RenderState := ⟨e.context, .ofUnit, [], e.loader, []⟩

/-- Two renderings that give the same, warn of the same and leave the same. -/
structure Rendered.Alike (r r' : Rendered) : Prop where
  result : r.result = r'.result
  warnings : r.warnings = r'.warnings
  context : r.engine.context = r'.engine.context
  loader : r.engine.loader = r'.engine.loader

/-- What an engine renders it renders alike with every higher limit on nesting. So it does where it
fails, unless it is about to go deeper than its limit; and then its error is the one of that, so that
any other error comes back the same. -/
theorem render_higher_limit (e : Engine) (view : Files.View) (t : Template) {limit : Nat}
    (h : e.config.maxDepth ≤ limit) :
    let low := e.render view t
    let high := (e.withLimit limit).render view t
    (∀ text, low.result = .ok text → high.Alike low) ∧
    (∀ error, low.result = .error error → ¬Render.Exceeds (e.env view) t e.start →
      high.Alike low) ∧
    (Render.Exceeds (e.env view) t e.start → ∃ name,
      low.result = .error (.execution (.blockTooDeep e.config.maxDepth name)) ∨
        low.result = .error (.execution (.includeTooDeep e.config.maxDepth name))) := by
  intro low high
  have hwithin : ¬Render.Exceeds (e.env view) t e.start → high.Alike low := by
    intro hnot
    have hrun : outcome (Render.template ((e.env view).withLimit limit) t) e.start =
        outcome (Render.template (e.env view) t) e.start := Render.template_withLimit h hnot
    have hresult := congrArg Prod.fst hrun
    have hwarnings := congrArg (fun run => run.2.warnings) hrun
    have hcontext := congrArg (fun run => run.2.context) hrun
    have hloader := congrArg (fun run => run.2.loader) hrun
    exact ⟨hresult, hwarnings, hcontext, hloader⟩
  have hfails : Render.Exceeds (e.env view) t e.start → ∃ name,
      low.result = .error (.execution (.blockTooDeep e.config.maxDepth name)) ∨
        low.result = .error (.execution (.includeTooDeep e.config.maxDepth name)) :=
    fun hexceeds => hexceeds.fails
  refine ⟨fun text htext => hwithin fun hexceeds => ?_, fun _ _ => hwithin, hfails⟩
  obtain ⟨name, hname | hname⟩ := hfails hexceeds
  · cases htext.symm.trans hname
  · cases htext.symm.trans hname

/-- Shows what a block makes of another one. -/
def nested : Template where
  instructions := #[.beginBlock "inner" [], .literal "x", .endBlock,
    .beginBlock "outer" [], .invoke "inner" [], .endBlock, .invoke "outer" []]
  links := #[⟨2, none⟩, ⟨0, none⟩, ⟨0, none⟩, ⟨5, none⟩, ⟨0, none⟩, ⟨0, none⟩, ⟨0, none⟩]
  blocks := [("inner", ⟨[], 1, 2⟩), ("outer", ⟨[], 4, 5⟩)]
  dir := none
  linked := rfl

/-- Two levels are as good as three for a block inside of a block. -/
theorem render_higher_limit_nested :
    let e := (Engine.ofConfig Text.WordCase.speller .standard).withLimit 2
    let view := Files.Tree.empty.read
    e.config.maxDepth ≤ 3 ∧ (e.render view nested).result = .ok "x" ∧
      let low := e.render view nested
      let high := (e.withLimit 3).render view nested
      (∀ text, low.result = .ok text → high.Alike low) ∧
      (∀ error, low.result = .error error → ¬Render.Exceeds (e.env view) nested e.start →
        high.Alike low) ∧
      (Render.Exceeds (e.env view) nested e.start → ∃ name,
        low.result = .error (.execution (.blockTooDeep e.config.maxDepth name)) ∨
          low.result = .error (.execution (.includeTooDeep e.config.maxDepth name))) := by
  intro e view
  have hlimit : e.config.maxDepth ≤ 3 := by decide
  have hresult : (e.render view nested).result = .ok "x" := by rfl
  exact ⟨hlimit, hresult, render_higher_limit e view nested hlimit⟩

end Engine

end BraceTemplate
