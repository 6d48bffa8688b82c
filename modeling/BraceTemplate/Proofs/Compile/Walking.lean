import BraceTemplate.Proofs.Computation

/-! Walks through source: a property that the handler keeps holds behind the whole walk. -/
namespace BraceTemplate.Markup

variable {σ : Type} {P : σ → Prop}

/-- Text and nodes that a handler takes in keep a property of its state. -/
structure Handler.Keeps (h : Handler σ) (P : σ → Prop) : Prop where
  text : ∀ cs, Ensures P (h.text cs) fun _ => P
  node : ∀ content inner, Ensures P (h.node content inner) fun _ => P

variable {h : Handler σ}

theorem flush_keeps (hk : h.Keeps P) (text : List Char) :
    Ensures P (flush h text) fun _ => P := by
  unfold flush
  split
  · exact .pure fun _ hs => hs
  · exact hk.text text

theorem closeNode_keeps (hk : h.Keeps P) (level : Level) (rest : Pending) :
    Ensures P (closeNode h level rest) fun _ => P := by
  refine .bind (hk.node _ _).located fun answer => ?_
  split
  · exact .pure fun _ hs => hs
  · exact .bind (flush_keeps hk answer) fun _ => .pure fun _ hs => hs

theorem step_keeps (hk : h.Keeps P) (p : Pending) (mark : Mark × Position) :
    Ensures P (step h p mark) fun _ => P := by
  unfold step
  split
  · exact .pure fun _ hs => hs
  · exact .bind (flush_keeps hk _) fun _ => .pure fun _ hs => hs
  · exact .pure fun _ hs => hs
  · exact .pure fun _ hs => hs
  · exact closeNode_keeps hk _ _
  · exact .pure fun _ hs => hs
  · exact .throw
  · exact .throw

theorem finish_keeps (hk : h.Keeps P) (p : Pending) :
    Ensures P (finish h p) fun _ => P := by
  unfold finish
  split
  · exact flush_keeps hk _
  · exact .throw

theorem steps_keep (hk : h.Keeps P) (marks : List (Mark × Position)) (p : Pending) :
    Ensures P (marks.foldlM (step h) p) fun _ => P := by
  induction marks generalizing p with
  | nil => exact .pure fun _ hs => hs
  | cons mark marks ih => exact .bind (step_keeps hk p mark) ih

/-- A whole walk keeps what its handler keeps. -/
theorem walk_keeps (hk : h.Keeps P) (source : List Char) :
    Ensures P (walk h source) fun _ => P :=
  .bind (steps_keep hk _ _) (finish_keeps hk)

end BraceTemplate.Markup
