import BraceTemplate.Expr.Eval

/-!
Evaluation is made of few steps: a relation between logging computations that has a clause for each
of them relates what two scopes with the same variables make of an expression.
-/
namespace BraceTemplate

section Relations

variable (s₁ s₂ : Scope) (R : ∀ {α : Type}, Logged α → Logged α → Prop)

/-- A relation between computations with a clause for each step of evaluating in two scopes. -/
structure EvalRelation : Prop where
  root : ∀ mode name, s₁.root? mode name = s₂.root? mode name
  pure : ∀ {α : Type} (a : α), R (pure a) (pure a)
  failing : ∀ {α : Type} (r : Except RenderFault α), R (failing r) (failing r)
  bind : ∀ {α β : Type} {m₁ m₂ : Logged α} {next₁ next₂ : α → Logged β}, R m₁ m₂ →
    (∀ a, R (next₁ a) (next₂ a)) → R (m₁ >>= next₁) (m₂ >>= next₂)
  apply : ∀ name v, R (s₁.filters.apply s₁.strict name v) (s₂.filters.apply s₂.strict name v)

end Relations

namespace EvalRelation

variable {s₁ s₂ : Scope} {R : ∀ {α : Type}, Logged α → Logged α → Prop}

theorem applyAll (h : EvalRelation s₁ s₂ R) (names : List String) (v : Value) :
    R (s₁.filters.applyAll s₁.strict names v) (s₂.filters.applyAll s₂.strict names v) := by
  induction names generalizing v with
  | nil => exact h.pure v
  | cons name names ih => exact h.bind (h.apply name v) ih

mutual

theorem eval (h : EvalRelation s₁ s₂ R) : (e : Expr) → R (e.eval s₁) (e.eval s₂)
  | .literal v => by
    rw [Expr.eval, Expr.eval]
    exact h.pure v
  | .array items => by
    rw [Expr.eval, Expr.eval]
    exact h.bind (h.evalItems items) fun _ => h.pure _
  | .var v => by
    rw [Expr.eval, Expr.eval]
    exact h.resolve v
  | .not e => by
    rw [Expr.eval, Expr.eval]
    exact h.bind (h.eval e) fun _ => h.pure _
  | .neg e => by
    rw [Expr.eval, Expr.eval]
    exact h.bind (h.eval e) fun _ => h.failing _
  | .binary op left right => by
    rw [Expr.eval, Expr.eval]
    refine h.bind (h.eval left) fun l => ?_
    split
    · exact h.pure _
    · exact h.bind (h.eval right) fun _ => h.failing _

theorem evalItems (h : EvalRelation s₁ s₂ R) :
    (es : List Expr) → R (evalItems s₁ es) (evalItems s₂ es)
  | [] => by
    rw [BraceTemplate.evalItems, BraceTemplate.evalItems]
    exact h.pure []
  | e :: es => by
    rw [BraceTemplate.evalItems, BraceTemplate.evalItems]
    exact h.bind (h.eval e) fun _ => h.bind (h.evalItems es) fun _ => h.pure _

theorem resolve (h : EvalRelation s₁ s₂ R) : (v : Var) → R (v.resolve s₁) (v.resolve s₂)
  | ⟨path, filters⟩ => by
    rw [Var.resolve, Var.resolve]
    exact h.bind (h.read path) fun v => h.applyAll filters v

theorem read (h : EvalRelation s₁ s₂ R) : (p : Path) → R (p.read s₁) (p.read s₂)
  | ⟨_, []⟩ => by
    rw [Path.read, Path.read]
    exact h.pure Value.null
  | ⟨mode, first :: rest⟩ => by
    rw [Path.read, Path.read]
    refine h.bind (h.name first) fun name => ?_
    rw [h.root mode name]
    split
    · exact h.readBelow rest _
    · exact h.pure Value.null

theorem readBelow (h : EvalRelation s₁ s₂ R) : (segments : List Segment) → (v : Value) →
    R (readBelow s₁ segments v) (readBelow s₂ segments v)
  | [], v => by
    rw [BraceTemplate.readBelow, BraceTemplate.readBelow]
    exact h.pure v
  | segment :: rest, v => by
    rw [BraceTemplate.readBelow, BraceTemplate.readBelow]
    refine h.bind (h.name segment) fun name => ?_
    split
    · exact h.readBelow rest _
    · exact h.pure Value.null

theorem name (h : EvalRelation s₁ s₂ R) :
    (segment : Segment) → R (segment.name s₁) (segment.name s₂)
  | .key name => by
    rw [Segment.name, Segment.name]
    exact h.pure name
  | .nested v => by
    rw [Segment.name, Segment.name]
    exact h.bind (h.resolve v) fun _ => h.pure _
  | .index e => by
    rw [Segment.name, Segment.name]
    exact h.bind (h.eval e) fun _ => h.pure _

end

theorem names (h : EvalRelation s₁ s₂ R) (p : Path) : R (p.names s₁) (p.names s₂) := by
  unfold Path.names
  induction p.segments with
  | nil => exact h.pure []
  | cons segment segments ih =>
    rw [List.mapM_cons, List.mapM_cons]
    exact h.bind (h.name segment) fun _ => h.bind ih fun _ => h.pure _

end EvalRelation

end BraceTemplate
