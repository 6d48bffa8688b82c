import BraceTemplate.Proofs.Compile.Paths
import BraceTemplate.Proofs.Render.Refinement

/-!
Rendering is made of few steps: a relation between computations that has a clause for each of them
relates what two environments make of one tree.
-/
namespace BraceTemplate

namespace Render

/-- The block of a name, if one is known. -/
def blockNamed (name : String) : Render (Option Block) := do return Dict.find? (← get).blocks name

/-- The number of entries that the last loop at a depth has had, if there was one. -/
def counterAt (depth : Nat) : Render (Option Nat) := do return (← get).frame.counter? depth

theorem blockCall_bind (env : RenderEnv) (name : String) (args : List Expr)
    (enter : Call → Render String) : blockCall env name args >>= enter = (do
      match ← blockNamed name with
      | none => fault (.undefinedBlock name)
      | some block =>
        let values ← evalArgs env args
        enter ⟨.block block, .ofBlock (bindParams block.body.params values),
          .blockTooDeep env.maxDepth name⟩) := by
  simp only [blockCall, blockNamed, bind_assoc, pure_bind]
  refine bind_congr fun s => ?_
  cases Dict.find? s.blocks name with
  | none => rfl
  | some block => simp

/-- A template is rendered like a unit that is entered with room for it and for what is nested in it;
the fault of having none does not come up. -/
theorem render_eq_call (env : RenderEnv) (t : Template) (tooDeep : RenderFault) :
    t.render env = Call.render env (env.maxDepth + 1) ⟨.unit t, .ofUnit, tooDeep⟩ := rfl

section Relations

variable (env₁ env₂ : RenderEnv) (ok : Instruction → Prop)
  (R : ∀ {α : Type}, Render α → Render α → Prop)

/-- A relation between computations with a clause for each step of rendering certain instructions
that leaves the unit or block which is being rendered. -/
structure StepRelation : Prop where
  pure : ∀ {α : Type} (a : α), R (pure a) (pure a)
  fault : ∀ {α : Type} (f : RenderFault), R (fault f : Render α) (fault f)
  bind : ∀ {α β : Type} {m₁ m₂ : Render α} {next₁ next₂ : α → Render β}, R m₁ m₂ →
    (∀ a, R (next₁ a) (next₂ a)) → R (m₁ >>= next₁) (m₂ >>= next₂)
  eval : ∀ e, R (eval env₁ e) (eval env₂ e)
  resolve : ∀ v, R (resolve env₁ v) (resolve env₂ v)
  assign : ∀ i, ok i → ∀ target ∈ i.targets, ∀ value,
    R (assign env₁ target value) (assign env₂ target value)
  setCounter : ∀ loop, ok (.beginFor loop) → ∀ count,
    R (setCounter loop.depth count) (setCounter loop.depth count)
  counterAt : ∀ depth, R (counterAt depth) (counterAt depth)

/-- A relation with a clause for each step of entering blocks and included templates as well. -/
structure CallRelation : Prop extends StepRelation env₁ env₂ ok R where
  blockNamed : ∀ name, R (blockNamed name) (blockNamed name)
  load : ∀ href, R (load env₁ href) (load env₂ href)
  warn : R (logged (warn .emptyInclude)) (logged (warn .emptyInclude))
  hoist : ∀ t, R (hoist t) (hoist t)
  inFrame : ∀ frame {m₁ m₂ : Render String}, R m₁ m₂ → R (inFrame frame m₁) (inFrame frame m₂)

/-- What invokes and what includes is related, given how the two environments enter. -/
structure EntersAlike (enter₁ enter₂ : Call → Render String) : Prop where
  invoke : ∀ name args, ok (.invoke name args) →
    R ((Leaf.invoke name args).render env₁ enter₁) ((Leaf.invoke name args).render env₂ enter₂)
  includes : ∀ parts, ok (.include parts) →
    R ((Leaf.include parts).render env₁ enter₁) ((Leaf.include parts).render env₂ enter₂)

end Relations

variable {env₁ env₂ : RenderEnv} {ok : Instruction → Prop}
  {R : ∀ {α : Type}, Render α → Render α → Prop} {enter₁ enter₂ : Call → Render String}

namespace StepRelation

variable {α : Type}

theorem evalArgs (h : StepRelation env₁ env₂ ok R) (args : List Expr) :
    R (evalArgs env₁ args) (evalArgs env₂ args) := by
  unfold Render.evalArgs
  induction args with
  | nil => exact h.pure []
  | cons e es ih =>
    rw [List.mapM_cons, List.mapM_cons]
    exact h.bind (h.eval e) fun _ => h.bind ih fun _ => h.pure _

theorem bound (h : StepRelation env₁ env₂ ok R) (b : Bound) :
    R (bound env₁ b) (bound env₂ b) := by
  cases b with
  | literal n => exact h.pure n
  | var v =>
    refine h.bind (h.resolve v) fun value => ?_
    cases value.number? with
    | none => exact h.fault _
    | some n => exact h.pure _

theorem joined (h : StepRelation env₁ env₂ ok R) {piece₁ piece₂ : α → Render String}
    (hpiece : ∀ a, R (piece₁ a) (piece₂ a)) (as : List α) :
    R (joined piece₁ as) (joined piece₂ as) := by
  induction as with
  | nil => exact h.pure ""
  | cons a as ih => exact h.bind (hpiece a) fun _ => h.bind ih fun _ => h.pure _

theorem choose (h : StepRelation env₁ env₂ ok R) (c : Expr)
    {body₁ body₂ other₁ other₂ : Render String} (hbody : R body₁ body₂)
    (hother : R other₁ other₂) : R (choose env₁ c body₁ other₁) (choose env₂ c body₂ other₂) := by
  refine h.bind (h.eval c) fun value => ?_
  split
  · exact hbody
  · exact hother

theorem leaf (h : StepRelation env₁ env₂ ok R) (henter : EntersAlike env₁ env₂ ok R enter₁ enter₂)
    {l : Leaf} (hl : ok l.instruction) : R (l.render env₁ enter₁) (l.render env₂ enter₂) := by
  cases l with
  | literal text => exact h.pure text
  | emit v => exact h.bind (h.resolve v) fun _ => h.pure _
  | assign target e =>
    refine h.bind (h.eval e) fun value => h.bind (h.assign _ hl target ?_ value) fun _ => h.pure ""
    exact List.mem_singleton_self target
  | invoke name args => exact henter.invoke name args hl
  | «include» parts => exact henter.includes parts hl

theorem visit (h : StepRelation env₁ env₂ ok R) {loop : Loop} (hl : ok (.beginFor loop))
    {body₁ body₂ : Render String} (hbody : R body₁ body₂) (entry : (Value × Value) × Nat) :
    R (loop.visit env₁ body₁ entry) (loop.visit env₂ body₂ entry) := by
  have hvalue := h.assign _ hl loop.value (by simp [Instruction.targets])
  refine h.bind (h.setCounter loop hl _) fun _ => ?_
  cases hkey : loop.key with
  | none => exact h.bind (hvalue _) fun _ => hbody
  | some path =>
    have hpath := h.assign _ hl path (by simp [Instruction.targets, hkey])
    exact h.bind (hpath _) fun _ => h.bind (hvalue _) fun _ => hbody

theorem loop (h : StepRelation env₁ env₂ ok R) {loop : Loop} (hl : ok (.beginFor loop))
    {body₁ body₂ clause₁ clause₂ : Render String} (hbody : R body₁ body₂)
    (hclause : R clause₁ clause₂) :
    R (loop.render env₁ body₁ clause₁) (loop.render env₂ body₂ clause₂) := by
  refine h.bind (h.eval _) fun collection => h.bind (h.setCounter loop hl _) fun _ =>
    h.bind (h.joined (h.visit hl hbody) _) fun text => h.bind (h.setCounter loop hl _) fun _ => ?_
  split
  · exact h.bind hclause fun _ => h.pure _
  · exact h.pure _

theorem counting (h : StepRelation env₁ env₂ ok R) {c : Counting} (hc : ok (.beginRange c))
    {body₁ body₂ : Render String} (hbody : R body₁ body₂) :
    R (c.render env₁ body₁) (c.render env₂ body₂) := by
  refine h.bind (h.bound _) fun start => h.bind (h.bound _) fun step =>
    h.bind (h.bound _) fun stop => ?_
  split
  · exact h.fault _
  · refine h.joined (fun i => h.bind (h.assign _ hc c.counter ?_ _) fun _ => hbody) _
    exact List.mem_singleton_self c.counter

theorem includePath (h : StepRelation env₁ env₂ ok R) (parts : List IncludePart) :
    R (includePath env₁ parts) (includePath env₂ parts) := by
  induction parts with
  | nil => exact h.pure ""
  | cons part parts ih =>
    cases part with
    | text text => exact h.bind ih fun _ => h.pure _
    | var v => exact h.bind (h.resolve v) fun _ => h.bind ih fun _ => h.pure _

/-- It is enough that what is included is related, with the fault of the own room. -/
theorem includes (h : StepRelation env₁ env₂ ok R)
    (hload : ∀ href, R (load env₁ href) (load env₂ href))
    (hwarn : R (logged (warn .emptyInclude)) (logged (warn .emptyInclude)))
    (hcall : ∀ t href, R (enter₁ ⟨.unit t, .ofUnit, .includeTooDeep env₁.maxDepth href⟩)
      (enter₂ ⟨.unit t, .ofUnit, .includeTooDeep env₂.maxDepth href⟩)) (parts : List IncludePart) :
    R ((Leaf.include parts).render env₁ enter₁) ((Leaf.include parts).render env₂ enter₂) := by
  simp only [Leaf.render, includeCall, bind_assoc]
  refine h.bind (h.includePath parts) fun href => ?_
  split
  · simp only [bind_assoc, pure_bind]
    exact h.bind hwarn fun _ => h.pure ""
  · simp only [bind_assoc, pure_bind]
    exact h.bind (hload href) fun t => hcall t href

mutual

theorem item (h : StepRelation env₁ env₂ ok R)
    (henter : EntersAlike env₁ env₂ ok R enter₁ enter₂) :
    (item : Item) → (∀ i ∈ item.flatten, ok i) →
    R (item.render env₁ enter₁) (item.render env₂ enter₂)
  | .leaf l, hok => by
    rw [Item.render, Item.render]
    exact h.leaf henter (hok _ (by simp [Item.flatten]))
  | .cond c body others, hok => by
    rw [Item.render, Item.render]
    have hbody := h.tree henter body fun i hi => hok i (by simp [Item.flatten, hi])
    have hothers := h.branches henter others fun i hi => hok i (by simp [Item.flatten, hi])
    exact h.choose c hbody hothers
  | .loop loop body, hok => by
    rw [Item.render, Item.render]
    have hbody := h.tree henter body fun i hi => hok i (by simp [Item.flatten, hi])
    exact h.loop (hok _ (by simp [Item.flatten])) hbody (h.pure "")
  | .loopElse loop before depth clause after, hok => by
    rw [Item.render, Item.render]
    have hbefore := h.tree henter before fun i hi => hok i (by simp [Item.flatten, hi])
    have hclause := h.tree henter clause fun i hi => hok i (by simp [Item.flatten, hi])
    have hafter := h.tree henter after fun i hi => hok i (by simp [Item.flatten, hi])
    exact h.loop (hok _ (by simp [Item.flatten]))
      (h.bind hbefore fun _ => h.bind hafter fun _ => h.pure _) hclause
  | .empty depth body, hok => by
    have hbody := h.tree henter body fun i hi => hok i (by simp [Item.flatten, hi])
    have hcounter (env : RenderEnv) (enter : Call → Render String) :
        Item.render env enter (.empty depth body) = (do
          if (← Render.counterAt depth) = some 0 then Tree.render env enter body
          else return "") := by
      rw [Item.render, Render.counterAt, bind_assoc]
      simp only [pure_bind]
    rw [hcounter, hcounter]
    refine h.bind (h.counterAt depth) fun count => ?_
    split
    · exact hbody
    · exact h.pure ""
  | .block .., _ => by
    rw [Item.render, Item.render]
    exact h.pure ""
  | .range c body, hok => by
    rw [Item.render, Item.render]
    have hbody := h.tree henter body fun i hi => hok i (by simp [Item.flatten, hi])
    exact h.counting (hok _ (by simp [Item.flatten])) hbody

/-- What two environments make of a tree is related. -/
theorem tree (h : StepRelation env₁ env₂ ok R)
    (henter : EntersAlike env₁ env₂ ok R enter₁ enter₂) :
    (items : Tree) → (∀ i ∈ Tree.flatten items, ok i) →
    R (Tree.render env₁ enter₁ items) (Tree.render env₂ enter₂ items)
  | [], _ => by
    rw [Tree.render, Tree.render]
    exact h.pure ""
  | item :: items, hok => by
    rw [Tree.render, Tree.render]
    have hitem := h.item henter item fun i hi => hok i (by simp [Tree.flatten, hi])
    have hitems := h.tree henter items fun i hi => hok i (by simp [Tree.flatten, hi])
    exact h.bind hitem fun _ => h.bind hitems fun _ => h.pure _

theorem branches (h : StepRelation env₁ env₂ ok R)
    (henter : EntersAlike env₁ env₂ ok R enter₁ enter₂) :
    (others : Branches) → (∀ i ∈ others.flatten, ok i) →
    R (others.render env₁ enter₁) (others.render env₂ enter₂)
  | .done, _ => by
    rw [Branches.render, Branches.render]
    exact h.pure ""
  | .otherwise body, hok => by
    rw [Branches.render, Branches.render]
    exact h.tree henter body fun i hi => hok i (by simp [Branches.flatten, hi])
  | .elseIf c body others, hok => by
    rw [Branches.render, Branches.render]
    have hbody := h.tree henter body fun i hi => hok i (by simp [Branches.flatten, hi])
    have hothers := h.branches henter others fun i hi => hok i (by simp [Branches.flatten, hi])
    exact h.choose c hbody hothers

end

end StepRelation

namespace CallRelation

/-- It is enough that what is entered is related at each target, with the fault of the own room. -/
theorem enters (h : CallRelation env₁ env₂ ok R)
    (hcall : ∀ target frame (tooDeep : Nat → RenderFault),
      R (enter₁ ⟨target, frame, tooDeep env₁.maxDepth⟩)
        (enter₂ ⟨target, frame, tooDeep env₂.maxDepth⟩)) :
    EntersAlike env₁ env₂ ok R enter₁ enter₂ where
  invoke name args _ := by
    rw [Leaf.render, Leaf.render, blockCall_bind, blockCall_bind]
    refine h.bind (h.blockNamed name) fun block? => ?_
    cases block? with
    | none => exact h.fault _
    | some block =>
      exact h.bind (h.evalArgs args) fun values => hcall _ _ fun room => .blockTooDeep room name
  includes parts _ := h.includes h.load h.warn
    (fun _ href => hcall _ _ fun room => .includeTooDeep room href) parts

/-- What two environments make of a call is related, if so are the faults of their having no room. -/
theorem call (h : CallRelation env₁ env₂ ok R) (hok : ∀ i, ok i)
    (hfull : ∀ tooDeep : Nat → RenderFault, R (Render.fault (tooDeep env₁.maxDepth) : Render String)
      (Render.fault (tooDeep env₂.maxDepth)))
    (room : Nat) (target : Target) (frame : Frame) (tooDeep : Nat → RenderFault) :
    R (Call.render env₁ room ⟨target, frame, tooDeep env₁.maxDepth⟩)
      (Call.render env₂ room ⟨target, frame, tooDeep env₂.maxDepth⟩) := by
  induction room generalizing target frame tooDeep with
  | zero => exact hfull tooDeep
  | succ room ih =>
    refine h.inFrame frame (h.bind ?_ fun _ => h.tree (h.enters ih) _ fun i _ => hok i)
    cases target with
    | block b => exact h.pure ()
    | unit t => exact h.hoist t

/-- What two environments with the same room make of a template is related. -/
theorem template (h : CallRelation env₁ env₂ ok R) (hok : ∀ i, ok i)
    (hdepth : env₁.maxDepth = env₂.maxDepth) (t : Template) :
    R (template env₁ t) (template env₂ t) := by
  have hfull : ∀ tooDeep : Nat → RenderFault,
      R (Render.fault (tooDeep env₁.maxDepth) : Render String)
        (Render.fault (tooDeep env₂.maxDepth)) := by
    intro tooDeep
    rw [hdepth]
    exact h.fault _
  rw [template_eq, template_eq, render_eq_call, render_eq_call, hdepth]
  exact h.call hok hfull _ _ _ fun room => .includeTooDeep room ""

end CallRelation

end Render

end BraceTemplate
