import BraceTemplate.Files.Tree
import BraceTemplate.Proofs.Compile.Steps
import BraceTemplate.Proofs.Render.Asking
import BraceTemplate.Proofs.Render.Limits
import BraceTemplate.Proofs.Source.Nodes

/-!
Including: a template that is nothing but an include makes what the included source makes by itself,
with room for one level more.
-/
namespace BraceTemplate

/-! The source of an include. -/

namespace Source

namespace PathText

def text (n : PathText) : String := .ofList n.chars

theorem text_ne_empty (n : PathText) : n.text ≠ "" := by
  intro h
  exact n.nonempty (by simpa [text] using congrArg String.toList h)

def reference (n : PathText) : Reference where
  parts := [.text n]
  nonempty := List.cons_ne_nil _ _
  alternating := List.isChain_singleton _

theorem print_reference (n : PathText) : n.reference.parts.flatMap Part.print = n.chars :=
  List.append_nil _

end PathText

/-- Every name is a path. -/
def Name.path (n : Name) : PathText where
  chars := n.chars
  nonempty := n.ne_nil
  valid c hc := by
    have hname := Name.isNameChar hc
    have hne {d : Char} (hd : Arguments.isNameChar d = false) : c ≠ d :=
      Arguments.ne_of_isNameChar hname hd
    have hquote : c ≠ '"' ∧ c ≠ '\'' := ⟨hne rfl, hne rfl⟩
    exact ⟨by simp [Delimiter.isQuote, hquote], hne rfl, hne rfl, hne rfl,
      Arguments.not_blank_of_isNameChar hname⟩

/-- A source that consists of the include of a path. -/
def includeSource (n : PathText) : String := .ofList (node (directive "include" n.chars))

/-- What it compiles to. -/
def includeTemplate (n : PathText) : Template :=
  ⟨#[.include [.text n.text]], #[⟨0, none⟩], [], none, rfl⟩

theorem compile_includeSource {r : Registry}
    (h : r.find? "include" = some (.directive .include)) (n : PathText) :
    compile r (includeSource n) none = .ok (includeTemplate n) := by
  let draft := Draft.start.add (.include [.text n.text])
  have hrun : outcome (Draft.node ⟨r, none⟩ (directive "include" n.chars) false) .start =
      (.ok [], draft) := by
    have hnode : outcome (Draft.node ⟨r, none⟩ _ false) .start = (.ok [], draft) :=
      Draft.outcome_includeNode h n.reference
    rwa [n.print_reference] at hnode
  have hname : Inert "include".toList := .of_check (by decide)
  have hinert : Inert (directive "include" n.chars) := hname.append (.cons (by decide) n.inert)
  have hread : Draft.Reading ⟨r, none⟩ .start (node (directive "include" n.chars)) draft :=
    .node ⟨'i', _, rfl, rfl⟩ (.of_inert hinert) hrun
  refine compile_eq_ok_iff.mpr ⟨draft, ?_, rfl, rfl⟩
  rw [includeSource, String.toList_ofList]
  exact hread.walk

end Source

namespace Render

/-! Environments that differ in their limit. -/

/-- Two computations that do the same as long as they succeed, and end in the same state also where
they fail; their errors are their own. -/
def SucceedAlike {α : Type} (m₁ m₂ : Render α) : Prop :=
  ∀ s, (∀ a, (outcome m₁ s).1 = .ok a ↔ (outcome m₂ s).1 = .ok a) ∧
    (outcome m₁ s).2 = (outcome m₂ s).2

namespace SucceedAlike

variable {α β : Type} {m₁ m₂ : Render α}

theorem refl (m : Render α) : SucceedAlike m m := fun _ => ⟨fun _ => Iff.rfl, rfl⟩

theorem fault (f₁ f₂ : RenderFault) :
    SucceedAlike (Render.fault f₁ : Render α) (Render.fault f₂) :=
  fun _ => ⟨fun _ => ⟨nofun, nofun⟩, rfl⟩

theorem bind {next₁ next₂ : α → Render β} (h : SucceedAlike m₁ m₂)
    (hnext : ∀ a, SucceedAlike (next₁ a) (next₂ a)) :
    SucceedAlike (m₁ >>= next₁) (m₂ >>= next₂) := by
  intro s
  rw [outcome_bind, outcome_bind]
  obtain ⟨hresult, hstate⟩ := h s
  generalize outcome m₁ s = run₁ at hresult hstate ⊢
  generalize outcome m₂ s = run₂ at hresult hstate ⊢
  obtain ⟨r₁, t⟩ := run₁
  obtain ⟨r₂, t₂⟩ := run₂
  obtain rfl : t = t₂ := hstate
  cases r₁ with
  | error e₁ =>
    cases r₂ with
    | error e₂ => exact ⟨fun _ => ⟨nofun, nofun⟩, rfl⟩
    | ok b => cases (hresult b).mpr rfl
  | ok a =>
    obtain rfl : r₂ = .ok a := (hresult a).mp rfl
    exact hnext a t

theorem inFrame (frame : Frame) {m₁ m₂ : Render String} (h : SucceedAlike m₁ m₂) :
    SucceedAlike (inFrame frame m₁) (inFrame frame m₂) := by
  intro s
  obtain ⟨hresult, hstate⟩ := h { s with frame := frame }
  rw [outcome_inFrame, outcome_inFrame]
  exact ⟨hresult, congrArg (fun t : RenderState => { t with frame := s.frame }) hstate⟩

/-- The limit matters for nothing but the room and the fault of having none. -/
theorem steps (env : RenderEnv) (limit₁ limit₂ : Nat) :
    CallRelation (env.withLimit limit₁) (env.withLimit limit₂) (fun _ => True) SucceedAlike where
  pure _ := .refl _
  fault _ := .refl _
  bind := .bind
  eval _ := .refl _
  resolve _ := .refl _
  assign _ _ _ _ _ := .refl _
  setCounter _ _ _ := .refl _
  counterAt _ := .refl _
  blockNamed _ := .refl _
  load _ := .refl _
  warn := .refl _
  hoist _ := .refl _
  inFrame frame _ _ h := inFrame frame h

/-- With the same room, a call goes alike under two limits. -/
theorem call (env : RenderEnv) (limit₁ limit₂ room : Nat) (target : Target) (frame : Frame)
    (tooDeep : Nat → RenderFault) :
    SucceedAlike (Call.render (env.withLimit limit₁) room ⟨target, frame, tooDeep limit₁⟩)
      (Call.render (env.withLimit limit₂) room ⟨target, frame, tooDeep limit₂⟩) :=
  (steps env limit₁ limit₂).call (fun _ => trivial) (fun _ => .fault _ _) room target frame tooDeep

end SucceedAlike

/-! The include. -/

/-- What is entered has a frame of its own. -/
theorem inFrame_call (frame : Frame) (env : RenderEnv) (room : Nat) (call : Call) :
    inFrame frame (Call.render env room call) = Call.render env room call := by
  cases room <;> rfl

theorem outcome_load_memory {env : RenderEnv} {s : RenderState} {sources : Dict String}
    {href source : String} (hloader : s.loader = some (.memory sources))
    (hsource : Dict.find? sources href = some source) :
    outcome (load env href) s = (compile env.registry source none, s) := by
  rw [outcome_load, hloader]
  simp only [Loader.load, hsource]
  rw [← hloader]

theorem includeCall_text (env : RenderEnv) (n : Source.PathText) :
    includeCall env [.text n.text] = (do
      let t ← load env n.text
      return some ⟨.unit t, .ofUnit, .includeTooDeep env.maxDepth n.text⟩) := by
  have hpath : includePath env [.text n.text] = pure n.text := by
    simp [includePath]
  rw [includeCall, hpath, pure_bind, if_neg n.text_ne_empty]

/-- The include is all that the template does. -/
theorem template_includeTemplate (env : RenderEnv) (n : Source.PathText) :
    template env (Source.includeTemplate n) = inFrame .ofUnit (do
      let t ← load env n.text
      Call.render env env.maxDepth ⟨.unit t, .ofUnit, .includeTooDeep env.maxDepth n.text⟩) := by
  have htree : (Source.includeTemplate n).tree = [.leaf (.include [.text n.text])] := rfl
  have hhoist : hoist (Source.includeTemplate n) = pure () := rfl
  rw [template_eq, Template.render, htree, hhoist, pure_bind]
  simp [Tree.render, Item.render, Leaf.render, includeCall_text]

variable {env : RenderEnv} {s : RenderState} {sources : Dict String} {n : Source.PathText}
  {source : String}

/-- The source is compiled and entered, with room for one level less. -/
theorem outcome_includeTemplate (hloader : s.loader = some (.memory sources))
    (hsource : Dict.find? sources n.text = some source) :
    outcome (template env (Source.includeTemplate n)) s = outcome (do
      let t ← liftExcept (compile env.registry source none)
      Call.render env env.maxDepth ⟨.unit t, .ofUnit, .includeTooDeep env.maxDepth n.text⟩) s := by
  have hload : outcome (load env n.text) { s with frame := .ofUnit } =
      (compile env.registry source none, { s with frame := .ofUnit }) :=
    outcome_load_memory hloader hsource
  rw [template_includeTemplate, outcome_inFrame, outcome_bind, hload, outcome_bind, outcome_lift]
  cases compile env.registry source none with
  | error e => rfl
  | ok t =>
    exact congrArg (outcome · s) (inFrame_call .ofUnit env env.maxDepth
      ⟨.unit t, .ofUnit, .includeTooDeep env.maxDepth n.text⟩)

theorem include_alike (env : RenderEnv) (s : RenderState)
    (hloader : s.loader = some (.memory sources))
    (hsource : Dict.find? sources n.text = some source) (limit : Nat) :
    let direct := outcome (do
      let t ← liftExcept (compile env.registry source none)
      template (env.withLimit limit) t) s
    let included := outcome (template (env.withLimit (limit + 1)) (Source.includeTemplate n)) s
    (∀ text, direct.1 = .ok text ↔ included.1 = .ok text) ∧ direct.2 = included.2 := by
  intro direct included
  have hincluded : included = _ := outcome_includeTemplate hloader hsource
  rw [hincluded]
  refine SucceedAlike.bind (.refl _) (fun t => ?_) s
  rw [template_eq, render_eq_call _ t (.includeTooDeep limit n.text)]
  exact .call env limit (limit + 1) (limit + 1) (.unit t) .ofUnit (.includeTooDeep · n.text)

end Render

namespace Engine

/-- A source is compiled and rendered in one computation; one that does not compile changes
nothing. -/
theorem renderString_run (e : Engine) (view : Files.View) (source : String) :
    let r := e.renderString view source
    let run := outcome (do
      let t ← liftExcept (BraceTemplate.compile e.registry source none)
      Render.template (e.env view) t) e.start
    r.result = run.1 ∧ r.engine.context = run.2.context ∧ r.warnings = run.2.warnings := by
  intro r run
  simp only [r, run]
  rw [outcome_bind, outcome_lift]
  cases hcompile : BraceTemplate.compile e.registry source none with
  | error error =>
    rw [renderString_error hcompile]
    exact ⟨rfl, rfl, rfl⟩
  | ok t =>
    rw [renderString_ok hcompile]
    exact ⟨rfl, rfl, rfl⟩

open Source in
/-- Where includes are known and the loader keeps sources, including one of them by its name is like
rendering it with one level less: the one succeeds if and only if the other does, with the same text,
and both leave the same context and give the same warnings, also where they fail. -/
theorem render_include_unit {e : Engine} {sources : Dict String} {n : PathText} {source : String}
    (hinclude : e.registry.find? "include" = some (.directive .include))
    (hloader : e.loader = some (.memory sources))
    (hsource : Dict.find? sources n.text = some source) (view : Files.View) (limit : Nat) :
    let direct := (e.withLimit limit).renderString view source
    let included := (e.withLimit (limit + 1)).renderString view (includeSource n)
    (∀ text, direct.result = .ok text ↔ included.result = .ok text) ∧
      included.engine.context = direct.engine.context ∧ included.warnings = direct.warnings := by
  intro direct included
  obtain ⟨hresult, hcontext, hwarnings⟩ := (e.withLimit limit).renderString_run view source
  have hincluded : included = (e.withLimit (limit + 1)).render view (includeTemplate n) :=
    renderString_ok (compile_includeSource hinclude n)
  obtain ⟨hsame, hstate⟩ := Render.include_alike (e.env view) e.start hloader hsource limit
  rw [hincluded]
  refine ⟨fun text => ?_, ?_, ?_⟩
  · rw [hresult]
    exact hsame text
  · exact (congrArg RenderState.context hstate).symm.trans hcontext.symm
  · exact (congrArg RenderState.warnings hstate).symm.trans hwarnings.symm

/-- Adds a letter, and includes itself until a number has been counted up. -/
def climbing : String :=
  "\x7bif $n < 2\x7d\x7bset $n = $n + 1\x7da\x7binclude climb\x7d\x7b/if\x7d"

open Source in
/-- A source that includes itself needs one level more when it is included. -/
theorem render_include_unit_climbing :
    let sources : Dict String := [("climb", climbing)]
    let e : Engine :=
      { Engine.ofConfig Text.WordCase.speller .standard with loader := some (.memory sources) }
    let n := Name.path ⟨"climb".toList, by decide⟩
    e.registry.find? "include" = some (.directive .include) ∧
      e.loader = some (.memory sources) ∧ Dict.find? sources n.text = some climbing ∧
      let direct := (e.withLimit 2).renderString Files.Tree.empty.read climbing
      let included := (e.withLimit (2 + 1)).renderString Files.Tree.empty.read (includeSource n)
      (∀ text, direct.result = .ok text ↔ included.result = .ok text) ∧
        included.engine.context = direct.engine.context ∧
        included.warnings = direct.warnings := by
  intro sources e n
  have hinclude : e.registry.find? "include" = some (.directive .include) := rfl
  have hloader : e.loader = some (.memory sources) := rfl
  have hsource : Dict.find? sources n.text = some climbing := rfl
  exact ⟨hinclude, hloader, hsource,
    render_include_unit hinclude hloader hsource Files.Tree.empty.read 2⟩

end Engine

end BraceTemplate
