import BraceTemplate.Proofs.Render.Evaluation
import BraceTemplate.Proofs.Render.Writes

/-!
Strict filters: the first warning of an unknown filter becomes an error, and up to there nothing else
changes.
-/
namespace BraceTemplate

/-- The filter that a warning is about, if it tells of an unknown one. -/
def Warning.unknown? : Warning → Option String
  | .unknownFilter name => some name
  | _ => none

/-- The filter that the first warning of an unknown filter is about. -/
def firstUnknown (log : List Warning) : Option String := log.findSome? Warning.unknown?

theorem firstUnknown_append (log more : List Warning) :
    firstUnknown (log ++ more) = (firstUnknown log).or (firstUnknown more) := List.findSome?_append

section Sterner

variable {σ α β : Type} (log : σ → List Warning)

/-- From a state a lenient computation adds certain warnings to its log. A strict one does the same
if none of them tells of an unknown filter, and fails with the first one that does. -/
structure Departs (strict lenient : ExceptT Error (StateM σ) α) (s : σ) (new : List Warning) :
    Prop where
  logged : log (outcome lenient s).2 = log s ++ new
  same : firstUnknown new = none → outcome strict s = outcome lenient s
  fails : ∀ name, firstUnknown new = some name →
    (outcome strict s).1 = .error (.execution (.unknownFilter name))

/-- A strict computation does what a lenient one does, up to the first unknown filter. -/
def Sterner (strict lenient : ExceptT Error (StateM σ) α) : Prop :=
  ∀ s, ∃ new, Departs log strict lenient s new

namespace Sterner

variable {log}

/-- What logs nothing cannot differ. -/
theorem of_silent {m : ExceptT Error (StateM σ) α} (h : ∀ s, log (outcome m s).2 = log s) :
    Sterner log m m :=
  fun s => ⟨[], by rw [h s, List.append_nil], fun _ => rfl, nofun⟩

theorem pure (a : α) : Sterner log (pure a) (pure a) := of_silent fun _ => rfl

theorem throw (e : Error) : Sterner log (throw e : ExceptT Error (StateM σ) α) (throw e) :=
  of_silent fun _ => rfl

theorem get : Sterner log get get := of_silent fun _ => rfl

/-- Where the first computations part the strict one has failed, and stays so; what the lenient one
logs from there on comes behind the first unknown filter. -/
theorem bind {strict lenient : ExceptT Error (StateM σ) α}
    {next₁ next₂ : α → ExceptT Error (StateM σ) β} (h : Sterner log strict lenient)
    (hnext : ∀ a, Sterner log (next₁ a) (next₂ a)) :
    Sterner log (strict >>= next₁) (lenient >>= next₂) := by
  intro s
  obtain ⟨new, hfirst⟩ := h s
  have hfailed : ∀ name, firstUnknown new = some name →
      (outcome (strict >>= next₁) s).1 = .error (.execution (.unknownFilter name)) := by
    intro name hname
    have herror : outcome strict s =
        (.error (.execution (.unknownFilter name)), (outcome strict s).2) :=
      Prod.ext (hfirst.fails name hname) rfl
    rw [outcome_bind_error herror]
  rcases hrun : outcome lenient s with ⟨e | a, t⟩
  · refine ⟨new, ?_, fun hnone => ?_, hfailed⟩
    · rw [outcome_bind_error hrun, ← hfirst.logged, hrun]
    · rw [outcome_bind_error hrun, outcome_bind_error ((hfirst.same hnone).trans hrun)]
  · obtain ⟨more, hrest⟩ := hnext a t
    have hlog : log t = log s ++ new := by rw [← hfirst.logged, hrun]
    refine ⟨new ++ more, ?_, fun hnone => ?_, fun name hname => ?_⟩
    · rw [outcome_bind_ok hrun, hrest.logged, hlog, List.append_assoc]
    · rw [firstUnknown_append, Option.or_eq_none_iff] at hnone
      rw [outcome_bind_ok hrun, outcome_bind_ok ((hfirst.same hnone.1).trans hrun),
        hrest.same hnone.2]
    · rw [firstUnknown_append] at hname
      cases hnew : firstUnknown new with
      | none =>
        rw [hnew, Option.none_or] at hname
        rw [outcome_bind_ok ((hfirst.same hnew).trans hrun)]
        exact hrest.fails name hname
      | some other =>
        rw [hnew, Option.some_or] at hname
        obtain rfl := Option.some.inj hname
        exact hfailed other hnew

end Sterner

end Sterner

/-! Evaluation. -/

/-- The same variables and filters, with unknown filters as errors or not. -/
def Scope.withStrict (s : Scope) (strict : Bool) : Scope := { s with strict := strict }

theorem FilterTable.apply_sterner (t : FilterTable) (name : String) (v : Value) :
    Sterner id (t.apply true name v) (t.apply false name v) := by
  unfold apply
  cases t.find? name with
  | some filter =>
    refine .of_silent fun log => ?_
    dsimp only
    rw [outcome_lift]
  | none =>
    intro log
    refine ⟨[.unknownFilter name], rfl, nofun, fun other hother => ?_⟩
    obtain rfl : name = other := Option.some.inj hother
    rfl

/-- Evaluation is stern wherever its filters are. -/
theorem Scope.sterner (s : Scope) :
    EvalRelation (s.withStrict true) (s.withStrict false) (Sterner id) where
  root _ _ := rfl
  pure := .pure
  failing _ := .of_silent fun _ => by rw [failing, outcome_lift]
  bind := .bind
  apply := s.filters.apply_sterner

/-! Rendering. -/

def RenderEnv.withStrict (env : RenderEnv) (strict : Bool) : RenderEnv :=
  { env with strict := strict }

namespace Render

theorem scope_withStrict (env : RenderEnv) (strict : Bool) (s : RenderState) :
    scope (env.withStrict strict) s = (scope env s).withStrict strict := rfl

namespace Sterner

variable {α : Type} {env : RenderEnv}

theorem logged {strict lenient : Logged α} (h : Sterner id strict lenient) :
    Sterner RenderState.warnings (logged strict) (logged lenient) := by
  intro s
  obtain ⟨new, h⟩ := h s.warnings
  refine ⟨new, h.logged, fun hnone => ?_, h.fails⟩
  rw [outcome_logged, outcome_logged, h.same hnone]

theorem write (mode : Mode) (name : String) (keys : List String) (value : Value) :
    Sterner RenderState.warnings (write mode name keys value) (write mode name keys value) := by
  refine .of_silent fun s => ?_
  rcases shared_or_local mode s.frame with h | ⟨rfl, locals, hlocals⟩
  · rw [outcome_write h]
    dsimp only
    cases (Value.setPath keys _ value).fault <;> rfl
  · rw [outcome_write_local hlocals]

theorem assign (target : Path) (value : Value) : Sterner RenderState.warnings
    (assign (env.withStrict true) target value) (assign (env.withStrict false) target value) := by
  refine .bind .get fun s => ?_
  rw [scope_withStrict, scope_withStrict]
  refine .bind (logged ((scope env s).sterner.names target)) fun names => ?_
  cases names with
  | nil => exact .pure ()
  | cons name keys => exact write target.mode name keys value

theorem load (href : String) : Sterner RenderState.warnings
    (load (env.withStrict true) href) (load (env.withStrict false) href) := by
  refine .of_silent fun s => ?_
  rw [outcome_load]
  cases s.loader <;> rfl

theorem setCounter (depth count : Nat) :
    Sterner RenderState.warnings (setCounter depth count) (setCounter depth count) := by
  refine .of_silent fun s => ?_
  rw [outcome_setCounter]
  split <;> rfl

theorem inFrame (frame : Frame) {strict lenient : Render α}
    (h : Sterner RenderState.warnings strict lenient) :
    Sterner RenderState.warnings (inFrame frame strict) (inFrame frame lenient) := by
  intro s
  obtain ⟨new, h⟩ := h { s with frame := frame }
  refine ⟨new, h.logged, fun hnone => ?_, h.fails⟩
  rw [outcome_inFrame, outcome_inFrame, h.same hnone]

/-- Every step of rendering is the same with strict filters, up to the first unknown one. -/
theorem steps (env : RenderEnv) : CallRelation (env.withStrict true) (env.withStrict false)
    (fun _ => True) (Sterner RenderState.warnings) where
  pure := .pure
  fault _ := .throw _
  bind := .bind
  eval e := .bind .get fun s => logged ((scope env s).sterner.eval e)
  resolve v := .bind .get fun s => logged ((scope env s).sterner.resolve v)
  assign _ _ target _ value := assign target value
  setCounter loop _ := setCounter loop.depth
  counterAt _ := .bind .get fun _ => .pure _
  blockNamed _ := .bind .get fun _ => .pure _
  load := load
  warn _ := ⟨[.emptyInclude], rfl, fun _ => rfl, nofun⟩
  hoist _ := .of_silent fun _ => rfl
  inFrame frame _ _ h := inFrame frame h

theorem template (env : RenderEnv) (t : Template) : Sterner RenderState.warnings
    (template (env.withStrict true) t) (template (env.withStrict false) t) :=
  (steps env).template (fun _ => trivial) rfl t

end Sterner

end Render

namespace Engine

/-- The engine with unknown filters as errors or not. -/
def withStrict (e : Engine) (strict : Bool) : Engine :=
  { e with config := { e.config with strictFilters := strict } }

/-- If an engine with strict filters renders a text, the lenient one renders the same, leaves the same
context and warns of no unknown filter. If the lenient one warns of none, the strict one does the
same, also where it fails; if it warns of some, the strict one fails with the first of them. -/
theorem render_strict_filters (e : Engine) (view : Files.View) (t : Template) :
    let strict := (e.withStrict true).render view t
    let lenient := (e.withStrict false).render view t
    (∀ text, strict.result = .ok text → lenient.result = .ok text ∧
      lenient.engine.context = strict.engine.context ∧ firstUnknown lenient.warnings = none) ∧
    (firstUnknown lenient.warnings = none → strict.result = lenient.result ∧
      strict.engine.context = lenient.engine.context) ∧
    ∀ name, firstUnknown lenient.warnings = some name →
      strict.result = .error (.execution (.unknownFilter name)) := by
  intro strict lenient
  obtain ⟨new, hdeparts⟩ :=
    Render.Sterner.template (e.env view) t ⟨e.context, .ofUnit, [], e.loader, []⟩
  have hnew : lenient.warnings = new := hdeparts.logged
  have hsame : firstUnknown lenient.warnings = none →
      strict.result = lenient.result ∧ strict.engine.context = lenient.engine.context := by
    intro hnone
    have hrun := hdeparts.same (hnew ▸ hnone)
    have hresult := congrArg Prod.fst hrun
    have hcontext := congrArg (fun run => run.2.context) hrun
    exact ⟨hresult, hcontext⟩
  have hfails : ∀ name, firstUnknown lenient.warnings = some name →
      strict.result = .error (.execution (.unknownFilter name)) :=
    fun name hname => hdeparts.fails name (hnew ▸ hname)
  refine ⟨fun text htext => ?_, hsame, hfails⟩
  cases hfirst : firstUnknown lenient.warnings with
  | none =>
    obtain ⟨hresult, hcontext⟩ := hsame hfirst
    exact ⟨hresult ▸ htext, hcontext.symm, rfl⟩
  | some name =>
    rw [hfails name hfirst] at htext
    cases htext

end Engine

end BraceTemplate
