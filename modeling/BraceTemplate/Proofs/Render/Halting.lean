import Mathlib.Data.Nat.Find
import BraceTemplate.Proofs.Render.Crashing

/-!
Rendering halts: from every template and state the machine comes to an end of its tasks, with what
rendering gives. The measure is what is left of the depth, then the tree that is rendered, then the
entries or values of a loop.
-/
namespace BraceTemplate
namespace Render

/-- What a computation adds to a text, unless an error is on its way out. -/
def added (act : Render String) :
    Except Error String × RenderState → Except Error String × RenderState :=
  continued fun text => (text ++ ·) <$> act

theorem added_ok (act : Render String) (text : String) (s : RenderState) :
    added act (.ok text, s) = ((outcome act s).1.map (text ++ ·), (outcome act s).2) := by
  rw [added, continued, map_eq_pure_bind, outcome_bind]
  cases outcome act s with
  | mk r s' => cases r <;> rfl

theorem added_pure (r : Except Error String × RenderState) : added (return "") r = r := by
  obtain ⟨_ | text, s⟩ := r
  · rfl
  · simp [added_ok, Except.map]

/-- Adding to a text that begins with another one. -/
theorem added_append (act : Render String) (text piece : String) (s : RenderState) :
    added act (.ok (text ++ piece), s) =
      ((added act (.ok piece, s)).1.map (text ++ ·), (added act (.ok piece, s)).2) := by
  rw [added_ok, added_ok]
  cases outcome act s with
  | mk r s' => cases r <;> simp [Except.map, String.append_assoc]

theorem added_before (act next : Render String) (r : Except Error String × RenderState) :
    added (act.before next) r = added next (added act r) := by
  obtain ⟨_ | text, s⟩ := r
  · rfl
  · rw [added_ok, added_ok, before, outcome_bind]
    cases outcome act s with
    | mk r s' =>
      cases r with
      | error e => rfl
      | ok piece =>
        rw [continued, Except.map, added_append, added_ok, bind_pure_comp, map_eq_pure_bind,
          outcome_bind]
        cases outcome next s' with
        | mk r s'' => cases r <;> rfl

/-- From every state and whatever else is to be done, the machine gets through the tasks and has
done what the computation does. -/
def Does (env : RenderEnv) (depth : Nat) (tasks : List Task) (act : Render String) : Prop :=
  ∀ rest r s, ∃ n, Machine.after env n ⟨tasks ++ rest, depth, r, s⟩ =
    ⟨rest, depth, (added act (r, s)).1, (added act (r, s)).2⟩

/-- The first step of a task and the tasks that it gives do what the computation does. -/
def Starts (env : RenderEnv) (depth : Nat) (first : Render (String × List Task))
    (act : Render String) : Prop :=
  ∀ s, (∃ e s', outcome first s = (.error e, s') ∧ outcome act s = (.error e, s')) ∨
    ∃ piece tasks s' next, outcome first s = (.ok (piece, tasks), s') ∧
      Does env depth tasks next ∧ outcome act s = added next (.ok piece, s')

variable {env : RenderEnv} {depth : Nat}

namespace Does

variable {tasks tasks' : List Task} {act act' : Render String}

theorem nil : Does env depth [] (return "") := by
  intro rest r s
  exact ⟨0, by rw [added_pure]; rfl⟩

theorem append (h : Does env depth tasks act) (h' : Does env depth tasks' act') :
    Does env depth (tasks ++ tasks') (act.before act') := by
  intro rest r s
  obtain ⟨n, hn⟩ := h (tasks' ++ rest) r s
  obtain ⟨k, hk⟩ := h' rest (added act (r, s)).1 (added act (r, s)).2
  refine ⟨n + k, ?_⟩
  rw [List.append_assoc, Machine.after_add, hn, hk, added_before]

/-- A task is done when what its first step gives is. -/
theorem of_starts {task : Task} (hp : task.Plain) (h : Starts env depth (task.perform env) act) :
    Does env depth [task] act := by
  intro rest r s
  rw [List.singleton_append]
  cases r with
  | error e =>
    have hleave : task.isLeave = false := by
      cases task with
      | leave frame => cases hp
      | _ => rfl
    exact ⟨1, Machine.step_error hleave e⟩
  | ok text =>
    rcases h s with ⟨e, s', hfirst, hact⟩ | ⟨piece, tasks, s', next, hfirst, hnext, hact⟩
    · refine ⟨1, (Machine.step_perform hp text).trans ?_⟩
      rw [Machine.perform, hfirst, added_ok, hact]
      rfl
    · have hstep : Machine.after env 1 ⟨task :: rest, depth, .ok text, s⟩ =
          ⟨tasks ++ rest, depth, .ok (text ++ piece), s'⟩ := by
        rw [Machine.after_one, Machine.step_perform hp, Machine.perform, hfirst]
      obtain ⟨n, hn⟩ := hnext rest (.ok (text ++ piece)) s'
      refine ⟨1 + n, ?_⟩
      rw [Machine.after_add, hstep, hn, added_append, ← hact, added_ok]

end Does

namespace Starts

variable {α : Type} {act : Render String}

theorem pure {piece : String} {tasks : List Task} (h : Does env depth tasks act) :
    Starts env depth (return (piece, tasks)) (Render.before (return piece) act) := by
  intro s
  refine .inr ⟨piece, tasks, s, act, rfl, h, ?_⟩
  rw [before, pure_bind, bind_pure_comp]
  rfl

/-- No text comes with the tasks. -/
theorem silent {tasks : List Task} (h : Does env depth tasks act) :
    Starts env depth (return ("", tasks)) act := by
  intro s
  refine .inr ⟨"", tasks, s, act, rfl, h, ?_⟩
  rw [added_ok]
  cases outcome act s with
  | mk r s' => cases r <;> simp [Except.map]

theorem throw {e : Error} : Starts env depth (throw e) (throw e) := by
  intro s
  exact .inl ⟨e, s, rfl, rfl⟩

theorem bind {pre : Render α} {first : α → Render (String × List Task)}
    {act : α → Render String} (h : ∀ a, Starts env depth (first a) (act a)) :
    Starts env depth (pre >>= first) (pre >>= act) := by
  intro s
  cases hpre : outcome pre s with
  | mk r s' =>
    cases r with
    | error e => exact .inl ⟨e, s', outcome_bind_error hpre _, outcome_bind_error hpre _⟩
    | ok a =>
      rw [outcome_bind_ok hpre, outcome_bind_ok hpre]
      exact h a s'

theorem bind_before {pre : Render α} {first : α → Render (String × List Task)}
    {piece : α → Render String} (h : ∀ a, Starts env depth (first a) ((piece a).before act)) :
    Starts env depth (pre >>= first) (Render.before (pre >>= piece) act) := by
  rw [before, bind_assoc]
  exact bind h

end Starts

/-! Ranges of a template. -/

section Ranges

variable {t : Template} {i stop : Nat} {act : Render String}

/-- A range is done by its first instruction. -/
theorem does_range {m : Instruction} (hm : t.instructions[i]? = some m) (hi : i < stop)
    (h : Starts env depth (Task.instruction env t i stop m) act) :
    Does env depth [.range t i stop] act := by
  refine .of_starts trivial ?_
  rw [Task.perform, Task.next, if_neg (by omega), hm]
  exact h

theorem does_range_nil : Does env depth [.range t i i] (return "") := by
  refine .of_starts trivial ?_
  rw [Task.perform, Task.next, if_pos (Nat.le_refl i)]
  exact .silent .nil

/-- The end of a conditional. -/
theorem does_branches_end (hm : t.instructions[i]? = some .endIf) {taken : Bool}
    (h : Does env depth [.range t (i + 1) stop] act) :
    Does env depth [.branches t taken i stop] act := by
  refine .of_starts trivial ?_
  simp only [Task.perform, Task.branch, hm]
  exact .silent h

/-- A branch behind the one that was taken. -/
theorem does_branches_passed {m : Instruction} (hm : t.instructions[i]? = some m)
    (hne : m ≠ .endIf) (h : Does env depth [.branches t true (t.link i).next stop] act) :
    Does env depth [.branches t true i stop] act := by
  refine .of_starts trivial ?_
  have hbranch : Task.branch env t true i stop =
      return ("", [.branches t true (t.link i).next stop]) := by
    cases m with
    | endIf => exact absurd rfl hne
    | _ => simp [Task.branch, hm, Task.hits]
  rw [Task.perform, hbranch]
  exact .silent h

/-- The final branch, if no other one was taken. -/
theorem does_otherwise {body : Render String} (hm : t.instructions[i]? = some .otherwise)
    (hbody : Does env depth [.range t (i + 1) (t.link i).next] body)
    (h : Does env depth [.branches t true (t.link i).next stop] act) :
    Does env depth [.branches t false i stop] (body.before act) := by
  refine .of_starts trivial ?_
  have hbranch : Task.branch env t false i stop =
      return ("", [.range t (i + 1) (t.link i).next, .branches t true (t.link i).next stop]) := by
    simp [Task.branch, hm, Task.hits]
  rw [Task.perform, hbranch]
  exact .silent (hbody.append h)

/-- A condition decides between its own branch and the ones behind it. -/
theorem does_condition {m : Instruction} {c : Expr} {body others : Render String}
    (hm : t.instructions[i]? = some m) (hc : m = .beginIf c ∨ m = .elseIf c)
    (hbody : Does env depth [.range t (i + 1) (t.link i).next] body)
    (hpassed : Does env depth [.branches t true (t.link i).next stop] act)
    (hothers : Does env depth [.branches t false (t.link i).next stop] (others.before act)) :
    Does env depth [.branches t false i stop] ((choose env c body others).before act) := by
  refine .of_starts trivial ?_
  have hbranch : Task.branch env t false i stop = eval env c >>= fun v =>
      if v.isTruthy then
        return ("", [.range t (i + 1) (t.link i).next, .branches t true (t.link i).next stop])
      else return ("", [.branches t false (t.link i).next stop]) := by
    rcases hc with rfl | rfl <;> simp [Task.branch, hm, Task.hits]
  rw [Task.perform, hbranch]
  refine .bind_before fun v => ?_
  cases v.isTruthy with
  | true => exact .silent (hbody.append hpassed)
  | false => exact .silent hothers

end Ranges

/-! Loops. -/

section Loops

variable {t : Template} {i stop : Nat} {loop : Loop} {body clause : Render String}

/-- What is left of a loop when `count` entries have come before. -/
def remaining (env : RenderEnv) (loop : Loop) (body clause : Render String) (count : Nat)
    (entries : List (Value × Value)) : Render String := do
  let text ← joined (loop.visit env body) (entries.zipIdx count)
  setCounter loop.depth (count + entries.length)
  if count + entries.length = 0 then return text ++ (← clause) else return text

theorem visit_before (env : RenderEnv) (loop : Loop) (body : Render String)
    (entry : (Value × Value) × Nat) :
    loop.visit env body entry = (loop.visit env (return "") entry).before body := by
  have hnothing := nothing_before body
  rw [before, pure_bind] at hnothing
  cases hkey : loop.key <;> simp only [before, Loop.visit, hkey, bind_assoc, pure_bind, hnothing]

theorem remaining_nil (count : Nat) : remaining env loop body clause count [] = (do
    setCounter loop.depth count
    if count = 0 then clause else return "") := by
  simp only [remaining, List.zipIdx_nil, joined, List.length_nil, Nat.add_zero, pure_bind]
  refine bind_congr fun _ => ?_
  split <;> simp

theorem remaining_cons (count : Nat) (entry : Value × Value) (entries : List (Value × Value)) :
    remaining env loop body clause count (entry :: entries) = (do
      let text ← loop.visit env (return "") (entry, count)
      Render.before (return text)
        (body.before (remaining env loop body clause (count + 1) entries))) := by
  have hlength : count + (entries.length + 1) = count + 1 + entries.length := by omega
  have hne : count + 1 + entries.length ≠ 0 := by omega
  simp only [remaining, List.zipIdx_cons, joined, List.length_cons, hlength, if_neg hne,
    visit_before env loop body, before]
  simp [String.append_assoc]

/-- A loop is done by one entry after the other. -/
theorem does_visit (hbody : Does env depth (Task.loopBody t i) body)
    (hclause : Does env depth (Task.loopClause t i) clause) (count : Nat)
    (entries : List (Value × Value)) :
    Does env depth [.visit t i loop count entries]
      (remaining env loop body clause count entries) := by
  induction entries generalizing count with
  | nil =>
    refine .of_starts trivial ?_
    rw [Task.perform, Task.entry, remaining_nil]
    refine .bind fun _ => ?_
    split
    · exact .silent hclause
    · exact .silent .nil
  | cons entry entries ih =>
    refine .of_starts trivial ?_
    rw [Task.perform, Task.entry, remaining_cons]
    exact .bind fun text => .pure (hbody.append (ih (count + 1)))

theorem loop_render_eq (env : RenderEnv) (loop : Loop) (body clause : Render String) :
    loop.render env body clause = (do
      let collection ← eval env loop.collection
      setCounter loop.depth 0
      remaining env loop body clause 0 collection.entries) := by
  refine bind_congr fun collection => bind_congr fun _ => ?_
  simp [remaining, List.isEmpty_iff]

/-- A counter is done by one value after the other; each comes closer to the last one. -/
theorem does_countUp {counter : Path} {step last : Int} (hs : 0 < step)
    (hbody : Does env depth [.range t (i + 1) (t.link i).next] body) (value : Int) :
    Does env depth [.countUp t i counter step last value]
      (joined (fun v => do
        assign env counter (.int v)
        body) (counterValues value step last)) := by
  induction hn : (last - value + 1).toNat using Nat.strongRecOn generalizing value with
  | ind n ih =>
    refine .of_starts trivial ?_
    rw [Task.perform, Task.value]
    by_cases hlast : last < value
    · rw [if_pos hlast, counterValues_of_lt hlast]
      exact .silent .nil
    · rw [if_neg hlast, counterValues_of_le hs (by omega), joined, bind_assoc]
      refine .bind fun _ => ?_
      dsimp only
      split
      · exact .silent (hbody.append (ih _ (by omega) _ rfl))
      · exact .silent (hbody.append .nil)

variable {act : Render String}

/-- A loop is done before what stands behind it. -/
theorem does_loop (hm : t.instructions[i]? = some (.beginFor loop)) (hi : i < stop)
    (hbody : Does env depth (Task.loopBody t i) body)
    (hclause : Does env depth (Task.loopClause t i) clause)
    (hact : Does env depth [.range t ((t.link i).next + 1) stop] act) :
    Does env depth [.range t i stop] ((loop.render env body clause).before act) := by
  refine does_range hm hi ?_
  rw [loop_render_eq, Task.instruction]
  refine .bind_before fun collection => .bind_before fun _ => .silent ?_
  exact (does_visit hbody hclause 0 collection.entries).append hact

/-- A counting loop is done before what stands behind it, if its step leads upwards. -/
theorem does_counting {c : Counting} (hm : t.instructions[i]? = some (.beginRange c))
    (hi : i < stop)
    (hbody : Does env depth [.range t (i + 1) (t.link i).next] body)
    (hact : Does env depth [.range t ((t.link i).next + 1) stop] act) :
    Does env depth [.range t i stop] ((c.render env body).before act) := by
  refine does_range hm hi ?_
  rw [Counting.render, Task.instruction]
  refine .bind_before fun start => .bind_before fun step => .bind_before fun last => ?_
  split
  · exact .throw
  · exact .silent ((does_countUp (by omega) hbody start).append hact)

end Loops

/-! Trees. -/

section Trees

variable {t : Template} {enter : Call → Render String}

theorem does_leaf (henter : ∀ call, Does env depth [.enter call] (enter call)) {i stop : Nat}
    (l : Leaf) (hm : t.instructions[i]? = some l.instruction) (hi : i < stop)
    {act : Render String} (hrest : Does env depth [.range t (i + 1) stop] act) :
    Does env depth [.range t i stop] ((l.render env enter).before act) := by
  refine does_range hm hi ?_
  cases l with
  | literal text => exact .pure hrest
  | emit v => exact .bind_before fun v => .pure hrest
  | assign target e =>
    refine .bind_before fun v => .bind_before fun _ => ?_
    rw [nothing_before]
    exact .silent hrest
  | invoke name args => exact .bind_before fun call => .silent ((henter call).append hrest)
  | «include» parts =>
    refine .bind_before fun call? => ?_
    cases call? with
    | none =>
      rw [nothing_before]
      exact .silent hrest
    | some call => exact .silent ((henter call).append hrest)

/-- Behind the branch that was taken the others are passed. -/
theorem does_passed {i stop : Nat} {act : Render String} :
    (others : Branches) → t.Holds i (others.layout i) →
    Does env depth [.range t (i + others.size) stop] act →
    Does env depth [.branches t true i stop] act
  | .done, h, hact => does_branches_end h.head.1 hact
  | .otherwise body, h, hact => by
    rw [Branches.layout] at h
    have hend := (h.tail.right (by rw [Tree.length_layout])).head.1
    rw [Branches.size_otherwise] at hact
    refine does_branches_passed h.head.1 nofun ?_
    rw [h.head.2]
    refine does_branches_end hend ?_
    rwa [show i + 1 + Tree.size body + 1 = i + (Tree.size body + 2) by omega]
  | .elseIf c body others, h, hact => by
    rw [Branches.layout] at h
    rw [Branches.size_elseIf] at hact
    refine does_branches_passed h.head.1 nofun ?_
    rw [h.head.2]
    refine does_passed others (h.tail.right (by rw [Tree.length_layout])) ?_
    rwa [show i + 1 + Tree.size body + others.size =
      i + (Tree.size body + others.size + 1) by omega]

mutual

/-- An item is done before what follows it in its range. -/
theorem does_item (henter : ∀ call, Does env depth [.enter call] (enter call)) {i stop : Nat}
    {act : Render String} :
    (item : Item) → t.Holds i (item.layout i) → i + item.size ≤ stop →
    Does env depth [.range t (i + item.size) stop] act →
    Does env depth [.range t i stop] ((item.render env enter).before act)
  | .leaf l, h, hstop, hact => does_leaf henter l h.head.1 hstop hact
  | .cond c body others, h, hstop, hact => by
    rw [Item.layout] at h
    rw [Item.size_cond] at hstop hact
    have hothers := h.tail.right (by rw [Tree.length_layout])
    rw [show i + (Tree.size body + others.size + 1) = i + 1 + Tree.size body + others.size by omega]
      at hact
    refine does_range h.head.1 (by omega) (.silent (does_condition h.head.1 (.inl rfl) ?_ ?_ ?_))
    all_goals rw [h.head.2]
    · exact does_tree henter body h.tail.left rfl
    · exact does_passed others hothers hact
    · exact does_branches henter others hothers hact
  | .loop loop body, h, hstop, hact => by
    rw [Item.layout] at h
    rw [Item.size_loop] at hstop hact
    have hlink : t.link i = ⟨i + 1 + Tree.size body, none⟩ := h.head.2
    have hbody : Does env depth (Task.loopBody t i) (Tree.render env enter body) := by
      rw [Task.loopBody, hlink]
      exact does_tree henter body h.tail.left rfl
    have hclause : Does env depth (Task.loopClause t i) (return "") := by
      rw [Task.loopClause, hlink]
      exact .nil
    refine does_loop h.head.1 (by omega) hbody hclause ?_
    rw [hlink, show i + 1 + Tree.size body + 1 = i + (Tree.size body + 2) by omega]
    exact hact
  | .loopElse loop before _ clause after, h, hstop, hact => by
    rw [Item.layout] at h
    rw [Item.size_loopElse] at hstop hact
    have hmid := h.tail.right (by rw [Tree.length_layout])
    have hend := hmid.tail.right (by rw [Tree.length_layout])
    have hbody : Does env depth (Task.loopBody t i)
        ((Tree.render env enter before).before (Tree.render env enter after)) := by
      simp only [Task.loopBody, h.head.2, hmid.head.2]
      exact (does_tree henter before h.tail.left rfl).append
        (does_tree henter after hend.tail.left rfl)
    have hclause : Does env depth (Task.loopClause t i) (Tree.render env enter clause) := by
      simp only [Task.loopClause, h.head.2, hmid.head.2]
      exact does_tree henter clause hmid.tail.left rfl
    refine does_loop h.head.1 (by omega) hbody hclause ?_
    rw [show i + (Tree.size before + Tree.size clause + Tree.size after + 4) =
      i + 1 + Tree.size before + 1 + Tree.size clause + 1 + Tree.size after + 1 by omega] at hact
    rw [h.head.2]
    exact hact
  | .empty depth body, h, hstop, hact => by
    rw [Item.layout] at h
    rw [Item.size_empty] at hstop hact
    refine does_range h.head.1 (by omega) ?_
    rw [Item.render, Task.instruction]
    refine .bind_before fun s => ?_
    simp only [h.head.2, Bool.not_false, Bool.true_and, decide_eq_true_eq]
    rw [show i + 1 + Tree.size body + 1 = i + (Tree.size body + 2) by omega]
    split
    · exact .silent ((does_tree henter body h.tail.left rfl).append hact)
    · rw [nothing_before]
      exact .silent hact
  | .block name params body, h, hstop, hact => by
    rw [Item.layout] at h
    rw [Item.size_block] at hstop hact
    refine does_range h.head.1 (by omega) ?_
    rw [Item.render, nothing_before, Task.instruction, h.head.2]
    rw [show i + 1 + Tree.size body + 1 = i + (Tree.size body + 2) by omega]
    exact .silent hact
  | .range c body, h, hstop, hact => by
    rw [Item.layout] at h
    rw [Item.size_range] at hstop hact
    have hlink : t.link i = ⟨i + 1 + Tree.size body, none⟩ := h.head.2
    have hbody :
        Does env depth [.range t (i + 1) (t.link i).next] (Tree.render env enter body) := by
      rw [hlink]
      exact does_tree henter body h.tail.left rfl
    refine does_counting h.head.1 (by omega) hbody ?_
    rw [hlink, show i + 1 + Tree.size body + 1 = i + (Tree.size body + 2) by omega]
    exact hact

/-- A stretch is done as the tree that stands there. -/
theorem does_tree (henter : ∀ call, Does env depth [.enter call] (enter call)) {i stop : Nat} :
    (items : Tree) → t.Holds i (Tree.layout i items) →
    i + Tree.size items = stop → Does env depth [.range t i stop] (Tree.render env enter items)
  | [], h, hstop => by
    subst hstop
    exact does_range_nil
  | item :: items, h, hstop => by
    rw [Tree.layout] at h
    rw [Tree.size_cons] at hstop
    have hrest :
        Does env depth [.range t (i + Item.size item) stop] (Tree.render env enter items) :=
      does_tree henter items (h.right (by rw [Item.length_layout])) (by omega)
    exact does_item henter item h.left (by omega) hrest

theorem does_branches (henter : ∀ call, Does env depth [.enter call] (enter call)) {i stop : Nat}
    {act : Render String} :
    (others : Branches) → t.Holds i (others.layout i) →
    Does env depth [.range t (i + others.size) stop] act →
    Does env depth [.branches t false i stop] ((others.render env enter).before act)
  | .done, h, hact => by
    rw [Branches.render, nothing_before]
    exact does_branches_end h.head.1 hact
  | .otherwise body, h, hact => by
    rw [Branches.layout] at h
    rw [Branches.size_otherwise] at hact
    have hend := (h.tail.right (by rw [Tree.length_layout])).head.1
    refine does_otherwise h.head.1 ?_ ?_
    all_goals rw [h.head.2]
    · exact does_tree henter body h.tail.left rfl
    · refine does_branches_end hend ?_
      rwa [show i + 1 + Tree.size body + 1 = i + (Tree.size body + 2) by omega]
  | .elseIf c body others, h, hact => by
    rw [Branches.layout] at h
    rw [Branches.size_elseIf] at hact
    have hothers := h.tail.right (by rw [Tree.length_layout])
    rw [show i + (Tree.size body + others.size + 1) = i + 1 + Tree.size body + others.size by omega]
      at hact
    refine does_condition h.head.1 (.inr rfl) ?_ ?_ ?_
    all_goals rw [h.head.2]
    · exact does_tree henter body h.tail.left rfl
    · exact does_passed others hothers hact
    · exact does_branches henter others hothers hact

end

end Trees

/-! Entering. -/

theorem hoist_eq_ok (target : Target) (s : RenderState) :
    outcome target.hoist s = (.ok ⟨⟩, (outcome target.hoist s).2) := by
  cases target <;> rfl

/-- A call is done at every depth; the frame and the depth from before come back. -/
theorem does_enter (env : RenderEnv) (room : Nat) {depth : Nat}
    (hroom : depth + room = env.maxDepth) (call : Call) :
    Does env depth [.enter call] (call.render env room) := by
  induction room generalizing depth call with
  | zero =>
    intro rest r s
    refine ⟨1, ?_⟩
    rw [Machine.after_one, List.singleton_append]
    cases r with
    | error e => exact Machine.step_error rfl e
    | ok text =>
      rw [Machine.step_enter, Machine.enter, if_neg (by simp only; omega)]
      rfl
  | succ room ih =>
    have henter : ∀ call, Does env (depth + 1) [.enter call] (call.render env room) :=
      fun call => ih (by omega) call
    obtain ⟨hholds, hstop⟩ := call.target.holds_tree
    have hbody := does_tree henter call.target.tree hholds hstop
    intro rest r s
    rw [List.singleton_append]
    cases r with
    | error e =>
      refine ⟨1, ?_⟩
      rw [Machine.after_one]
      exact Machine.step_error rfl e
    | ok text =>
      have hhoist := hoist_eq_ok call.target { s with frame := call.frame }
      obtain ⟨n, hn⟩ := hbody (.leave s.frame :: rest) (.ok text)
        (outcome call.target.hoist { s with frame := call.frame }).2
      refine ⟨1 + n + 1, ?_⟩
      rw [Machine.after_succ, Machine.after_add, Machine.after_one, Machine.step_enter,
        Machine.enter, if_pos (by simp only; omega)]
      simp only [List.singleton_append] at hn
      rw [hn, Machine.step_leave, added_ok, added_ok, Call.render, outcome_inFrame,
        outcome_bind_ok hhoist]
      rfl

namespace Machine

theorem after_start (env : RenderEnv) (t : Template) (s : RenderState) :
    ∃ n r s', (start t s).after env n = ⟨[], 0, r, s'⟩ ∧
      outcome (template env t) s = (r, { s' with frame := s.frame }) := by
  have hrange : Does env 0 [.range t 0 t.size]
      (Tree.render env (Call.render env env.maxDepth) t.tree) :=
    does_tree (does_enter env env.maxDepth (Nat.zero_add _)) t.tree t.denotes_tree.holds
      (by rw [t.size_tree, Nat.zero_add])
  obtain ⟨n, hn⟩ := hrange [] (.ok "") (start t s).state
  refine ⟨n, _, _, hn, ?_⟩
  have hempty : ∀ r : Except Error String, r.map ("" ++ ·) = r := by
    intro r
    cases r <;> simp [Except.map]
  rw [template_eq, Template.render, outcome_inFrame, added_ok, hempty]
  rfl

end Machine

end Render
end BraceTemplate
