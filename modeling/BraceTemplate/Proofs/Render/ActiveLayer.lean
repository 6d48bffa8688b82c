import BraceTemplate.Engine
import BraceTemplate.Proofs.Render.Views

/-!
Rendering sees no layer but the active one: whatever lies in the others, and whichever names are
global, it gives the same and leaves the same active layer.
-/
namespace BraceTemplate

namespace Context

/-- A write binds its name in the active layer, in other layers as well or not. -/
theorem activeLayer_write {c : Context} (hc : c.Settled) (w : String × Value) :
    (c.write w).activeLayer = Dict.insert c.activeLayer w.1 w.2 := by
  rw [write]
  cases hc with
  | flat detached globals =>
    cases isGlobal (flat detached globals) w.1 with
    | false => rw [assign_local, modifyActive_flat, activeLayer_flat, activeLayer_flat]
    | true => rw [assign_flat, activeLayer_flat, activeLayer_flat]
  | stacked below top globals =>
    cases isGlobal (stacked below top globals) w.1 with
    | false => rw [assign_local, modifyActive_stacked, activeLayer_stacked, activeLayer_stacked]
    | true => rw [assign_stacked, activeLayer_stacked, activeLayer_stacked]

theorem Settled.write {c : Context} (hc : c.Settled) (w : String × Value) : (c.write w).Settled :=
  hc.apply (.assign w.1 w.2 (c.isGlobal w.1))

end Context

namespace Render

/-- States that differ behind the active layer at most. -/
structure SameView (s₁ s₂ : RenderState) : Prop where
  settled₁ : s₁.context.Settled
  settled₂ : s₂.context.Settled
  layer : s₁.context.activeLayer = s₂.context.activeLayer
  frame : s₁.frame = s₂.frame
  blocks : s₁.blocks = s₂.blocks
  loader : s₁.loader = s₂.loader
  warnings : s₁.warnings = s₂.warnings

/-- What lies behind the active layer is not seen. -/
theorem SameView.view : View SameView where
  layer h := h.layer
  frame h := h.frame
  loader h := h.loader
  warnings h := h.warnings
  withFrame h _ := ⟨h.settled₁, h.settled₂, h.layer, rfl, h.blocks, h.loader, h.warnings⟩
  withLoader h _ := ⟨h.settled₁, h.settled₂, h.layer, h.frame, h.blocks, rfl, h.warnings⟩
  withWarnings h _ := ⟨h.settled₁, h.settled₂, h.layer, h.frame, h.blocks, h.loader, rfl⟩
  written h w := by
    refine ⟨h.settled₁.write w, h.settled₂.write w, ?_, h.frame, h.blocks, h.loader, h.warnings⟩
    rw [Context.activeLayer_write h.settled₁, Context.activeLayer_write h.settled₂, h.layer]

/-- From states that look the same two computations end alike, in states that look the same. -/
def Blind {α : Type} (m₁ m₂ : Render α) : Prop := ∀ s₁ s₂, SameView s₁ s₂ →
  (outcome m₁ s₁).1 = (outcome m₂ s₂).1 ∧ SameView (outcome m₁ s₁).2 (outcome m₂ s₂).2

namespace Blind

/-- No step of rendering sees the layers behind the active one. -/
theorem steps (env : RenderEnv) : CallRelation env env (fun _ => True) Blind where
  toStepRelation := Related.steps SameView.view env
  blockNamed name := Related.bind_get fun _ _ hs => by
    rw [hs.blocks]
    exact .pure _
  load := Related.load SameView.view env
  warn := Related.logged SameView.view _
  hoist t := Related.modify fun s₁ s₂ hs => by
    rw [hs.blocks]
    exact ⟨hs.settled₁, hs.settled₂, hs.layer, hs.frame, rfl, hs.loader, hs.warnings⟩
  inFrame frame _ _ h := Related.inFrame SameView.view frame h

theorem template (env : RenderEnv) (t : Template) : Blind (template env t) (template env t) :=
  (steps env).template (fun _ => trivial) rfl t

end Blind

end Render

namespace Engine

/-- The engine with another context. -/
def withContext (e : Engine) (c : Context) : Engine := { e with context := c }

/-- Of two contexts with the same active layer, each of the kind that operations lead to, an engine
makes the same: text or error, warnings, loader and active layer. -/
theorem render_active_layer {c₁ c₂ : Context} (h₁ : c₁.Settled) (h₂ : c₂.Settled)
    (h : c₁.activeLayer = c₂.activeLayer) (e : Engine) (view : Files.View) (t : Template) :
    let r₁ := (e.withContext c₁).render view t
    let r₂ := (e.withContext c₂).render view t
    r₁.result = r₂.result ∧ r₁.warnings = r₂.warnings ∧ r₁.engine.loader = r₂.engine.loader ∧
      r₁.engine.context.activeLayer = r₂.engine.context.activeLayer := by
  have hstart : Render.SameView ⟨c₁, .ofUnit, [], e.loader, []⟩ ⟨c₂, .ofUnit, [], e.loader, []⟩ :=
    ⟨h₁, h₂, h, rfl, rfl, rfl, rfl⟩
  obtain ⟨hresult, hview⟩ := Render.Blind.template (e.env view) t _ _ hstart
  exact ⟨hresult, hview.warnings, hview.loader, hview.layer⟩

/-- Counts a name up, and shows it and another one. -/
def tally : Template :=
  let shared (name : String) : Path := ⟨.shared, [.key name]⟩
  ⟨#[.assign (shared "n") (.binary .add (.var ⟨shared "n", []⟩) (.literal (.int 1))),
      .emit ⟨shared "n", []⟩, .emit ⟨shared "hidden", []⟩],
    #[⟨0, none⟩, ⟨0, none⟩, ⟨0, none⟩], [], none, rfl⟩

/-- A second layer with a global name, over one that binds another name as well, is like detached
bindings without either. -/
theorem render_active_layer_tally :
    let e := Engine.ofConfig Text.WordCase.speller .standard
    let c₁ := Context.flat [("n", .int 1)] []
    let c₂ := Context.stacked [[("n", .int 1), ("hidden", .str "x")]] [("n", .int 1)] ["n"]
    c₁.Settled ∧ c₂.Settled ∧ c₁.activeLayer = c₂.activeLayer ∧
      let r₁ := (e.withContext c₁).render Files.Tree.empty.read tally
      let r₂ := (e.withContext c₂).render Files.Tree.empty.read tally
      r₁.result = r₂.result ∧ r₁.warnings = r₂.warnings ∧ r₁.engine.loader = r₂.engine.loader ∧
        r₁.engine.context.activeLayer = r₂.engine.context.activeLayer := by
  intro e c₁ c₂
  have h₁ : c₁.Settled := .flat _ _
  have h₂ : c₂.Settled := .stacked _ _ _
  have h : c₁.activeLayer = c₂.activeLayer := rfl
  exact ⟨h₁, h₂, h, render_active_layer h₁ h₂ h e Files.Tree.empty.read tally⟩

end Engine

end BraceTemplate
