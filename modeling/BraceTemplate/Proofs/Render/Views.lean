import BraceTemplate.Proofs.Render.Writes

/-!
Views: relations between states of which the steps of rendering see the same, and which they keep
when each of them works on both.
-/
namespace BraceTemplate
namespace Render

/-- Related states have the same active layer, frame, loader and log, and stay related when these are
changed alike. Whatever else they hold may differ. -/
structure View (V : RenderState → RenderState → Prop) : Prop where
  layer : ∀ {s₁ s₂}, V s₁ s₂ → s₁.context.activeLayer = s₂.context.activeLayer
  frame : ∀ {s₁ s₂}, V s₁ s₂ → s₁.frame = s₂.frame
  loader : ∀ {s₁ s₂}, V s₁ s₂ → s₁.loader = s₂.loader
  warnings : ∀ {s₁ s₂}, V s₁ s₂ → s₁.warnings = s₂.warnings
  withFrame : ∀ {s₁ s₂}, V s₁ s₂ → ∀ frame,
    V { s₁ with frame := frame } { s₂ with frame := frame }
  withLoader : ∀ {s₁ s₂}, V s₁ s₂ → ∀ loader,
    V { s₁ with loader := loader } { s₂ with loader := loader }
  withWarnings : ∀ {s₁ s₂}, V s₁ s₂ → ∀ warnings,
    V { s₁ with warnings := warnings } { s₂ with warnings := warnings }
  written : ∀ {s₁ s₂}, V s₁ s₂ → ∀ w,
    V { s₁ with context := s₁.context.write w } { s₂ with context := s₂.context.write w }

/-- From related states two computations end alike, in states that are related. -/
def Related (V : RenderState → RenderState → Prop) {α : Type} (m₁ m₂ : Render α) : Prop :=
  ∀ s₁ s₂, V s₁ s₂ →
    (outcome m₁ s₁).1 = (outcome m₂ s₂).1 ∧ V (outcome m₁ s₁).2 (outcome m₂ s₂).2

variable {V : RenderState → RenderState → Prop} {α β : Type}

theorem View.scope_eq (hV : View V) {s₁ s₂ : RenderState} (h : V s₁ s₂) (env : RenderEnv) :
    scope env s₁ = scope env s₂ := by
  rw [scope, scope, hV.layer h, hV.frame h]

namespace Related

theorem pure (a : α) : Related V (pure a) (pure a) := fun _ _ h => ⟨rfl, h⟩

theorem throw (e : Error) : Related V (throw e : Render α) (throw e) := fun _ _ h => ⟨rfl, h⟩

theorem bind {m₁ m₂ : Render α} {next₁ next₂ : α → Render β} (h : Related V m₁ m₂)
    (hnext : ∀ a, Related V (next₁ a) (next₂ a)) : Related V (m₁ >>= next₁) (m₂ >>= next₂) := by
  intro s₁ s₂ hs
  have hfirst := h s₁ s₂ hs
  rw [outcome_bind, outcome_bind]
  generalize outcome m₁ s₁ = first₁ at hfirst ⊢
  generalize outcome m₂ s₂ = first₂ at hfirst ⊢
  obtain ⟨r₁, t₁⟩ := first₁
  obtain ⟨r₂, t₂⟩ := first₂
  obtain ⟨rfl, hview⟩ : r₁ = r₂ ∧ V t₁ t₂ := hfirst
  cases r₁ with
  | error e => exact ⟨rfl, hview⟩
  | ok a => exact hnext a t₁ t₂ hview

/-- What follows the state depends on what is seen of it. -/
theorem bind_get {next₁ next₂ : RenderState → Render β}
    (h : ∀ s₁ s₂, V s₁ s₂ → Related V (next₁ s₁) (next₂ s₂)) :
    Related V (MonadState.get >>= next₁) (MonadState.get >>= next₂) := by
  intro s₁ s₂ hs
  rw [outcome_bind_ok outcome_get, outcome_bind_ok outcome_get]
  exact h s₁ s₂ hs s₁ s₂ hs

theorem modify {f₁ f₂ : RenderState → RenderState} (h : ∀ s₁ s₂, V s₁ s₂ → V (f₁ s₁) (f₂ s₂)) :
    Related V (modify f₁ : Render PUnit) (modify f₂) := fun s₁ s₂ hs => ⟨rfl, h s₁ s₂ hs⟩

theorem logged (hV : View V) (act : Logged α) : Related V (logged act) (logged act) := by
  intro s₁ s₂ hs
  rw [outcome_logged, outcome_logged, hV.warnings hs]
  exact ⟨rfl, hV.withWarnings hs _⟩

theorem inFrame (hV : View V) (frame : Frame) {m₁ m₂ : Render α} (h : Related V m₁ m₂) :
    Related V (inFrame frame m₁) (inFrame frame m₂) := by
  intro s₁ s₂ hs
  obtain ⟨hresult, hview⟩ := h _ _ (hV.withFrame hs frame)
  rw [outcome_inFrame, outcome_inFrame, hV.frame hs]
  exact ⟨hresult, hV.withFrame hview s₂.frame⟩

/-- What a write replaces and where it fails is seen. -/
theorem write (hV : View V) (mode : Mode) (name : String) (keys : List String) (value : Value) :
    Related V (write mode name keys value) (write mode name keys value) := by
  intro s₁ s₂ hs
  rcases shared_or_local mode s₁.frame with h | ⟨rfl, locals, hlocals⟩
  · rw [outcome_write h, outcome_write (hV.frame hs ▸ h), hV.layer hs]
    dsimp only
    cases (Value.setPath keys _ value).fault with
    | some f => exact ⟨rfl, hs⟩
    | none => exact ⟨rfl, hV.written hs _⟩
  · rw [outcome_write_local hlocals, outcome_write_local (hV.frame hs ▸ hlocals), hV.frame hs]
    dsimp only
    cases (Value.setPath keys _ value).fault <;> exact ⟨rfl, hV.withFrame hs _⟩

theorem assign (hV : View V) (env : RenderEnv) (target : Path) (value : Value) :
    Related V (assign env target value) (assign env target value) := by
  refine .bind_get fun s₁ s₂ hs => ?_
  rw [hV.scope_eq hs env]
  refine .bind (.logged hV _) fun names => ?_
  cases names with
  | nil => exact .pure ()
  | cons name keys => exact .write hV target.mode name keys value

theorem setCounter (hV : View V) (depth count : Nat) :
    Related V (setCounter depth count) (setCounter depth count) := by
  intro s₁ s₂ hs
  rw [outcome_setCounter, outcome_setCounter, hV.frame hs]
  split
  · exact ⟨rfl, hV.withFrame hs (s₂.frame.withCounter depth count)⟩
  · exact ⟨rfl, hs⟩

theorem load (hV : View V) (env : RenderEnv) (href : String) :
    Related V (load env href) (load env href) := by
  intro s₁ s₂ hs
  rw [outcome_load, outcome_load, hV.loader hs]
  cases s₂.loader with
  | none => exact ⟨rfl, hs⟩
  | some loader => exact ⟨rfl, hV.withLoader hs _⟩

/-- No step within a unit or block sees more than a view does. -/
theorem steps (hV : View V) (env : RenderEnv) :
    StepRelation env env (fun _ => True) (Related V) where
  pure := .pure
  fault _ := .throw _
  bind := .bind
  eval _ := .bind_get fun _ _ hs => by
    rw [hV.scope_eq hs env]
    exact .logged hV _
  resolve _ := .bind_get fun _ _ hs => by
    rw [hV.scope_eq hs env]
    exact .logged hV _
  assign _ _ target _ value := .assign hV env target value
  setCounter loop _ := .setCounter hV loop.depth
  counterAt depth := .bind_get fun _ _ hs => by
    rw [hV.frame hs]
    exact .pure _

end Related

end Render
end BraceTemplate
