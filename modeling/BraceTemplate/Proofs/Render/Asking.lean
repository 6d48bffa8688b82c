import BraceTemplate.Engine
import BraceTemplate.Proofs.Render.Parametric

/-!
Rendering asks its loader for references, one after the other, and depends on the loader only
through the answers.
-/
namespace BraceTemplate

namespace Loader

variable {view : Files.View} {r : Registry}

/-- A loader behind the loads of references in order. -/
def after (view : Files.View) (r : Registry) (l : Loader) (hrefs : List String) : Loader :=
  hrefs.foldl (fun l href => (l.load view r href).2) l

/-- What a loader answers to references in order. -/
def answers (view : Files.View) (r : Registry) : Loader → List String →
    List (Except Error Template)
  | _, [] => []
  | l, href :: hrefs => (l.load view r href).1 :: answers view r (l.load view r href).2 hrefs

theorem after_append (l : Loader) (hrefs more : List String) :
    l.after view r (hrefs ++ more) = (l.after view r hrefs).after view r more :=
  List.foldl_append

theorem length_answers (l : Loader) (hrefs : List String) :
    (l.answers view r hrefs).length = hrefs.length := by
  induction hrefs generalizing l with
  | nil => rfl
  | cons href hrefs ih => rw [answers, List.length_cons, ih, List.length_cons]

theorem answers_append (l : Loader) (hrefs more : List String) :
    l.answers view r (hrefs ++ more) =
      l.answers view r hrefs ++ (l.after view r hrefs).answers view r more := by
  induction hrefs generalizing l with
  | nil => rfl
  | cons href hrefs ih =>
    rw [List.cons_append, answers, ih]
    rfl

/-- Loaders answer references alike if they answer the first of them alike and then the others. -/
theorem answers_append_inj {l l' : Loader} {hrefs more : List String}
    (h : l'.answers view r (hrefs ++ more) = l.answers view r (hrefs ++ more)) :
    l'.answers view r hrefs = l.answers view r hrefs ∧
      (l'.after view r hrefs).answers view r more = (l.after view r hrefs).answers view r more := by
  rw [answers_append, answers_append] at h
  exact List.append_inj h (by rw [length_answers, length_answers])

/-- Every answer of the loader is a good one, whatever it has been asked before. -/
def Answering (view : Files.View) (r : Registry) (good : Except Error Template → Prop)
    (l : Loader) : Prop := ∀ hrefs, ∀ answer ∈ l.answers view r hrefs, good answer

/-- A load is answered well, and so is all that the loader behind it is asked. -/
theorem Answering.load {good : Except Error Template → Prop} {l : Loader}
    (h : l.Answering view r good) (href : String) :
    good (l.load view r href).1 ∧ (l.load view r href).2.Answering view r good := by
  constructor
  · exact h [href] _ List.mem_cons_self
  · intro hrefs answer hin
    exact h (href :: hrefs) answer (List.mem_cons_of_mem _ hin)

/-- A loader of the host that answers as another one does, and that has been asked before. -/
def recorder (view : Files.View) (r : Registry) (l : Loader) (asked : List Request) : Loader :=
  .host
    { asked := asked
      answer := fun
        | [] => .error .crashed
        | request :: before =>
          let earlier := (before.map Request.href).reverse
          ((l.after view r earlier).load view r request.href).1 }

theorem answers_recorder (l : Loader) (asked : List Request) (hrefs : List String) :
    (recorder view r l asked).answers view r hrefs =
      (l.after view r (asked.map Request.href).reverse).answers view r hrefs := by
  induction hrefs generalizing asked with
  | nil => rfl
  | cons href hrefs ih =>
    have hload : (recorder view r l asked).load view r href =
        (((l.after view r (asked.map Request.href).reverse).load view r href).1,
          recorder view r l (⟨view, r, href⟩ :: asked)) := rfl
    rw [answers, answers, hload, ih, List.map_cons, List.reverse_cons, after_append]
    rfl

theorem after_recorder (l : Loader) (asked : List Request) (hrefs : List String) :
    (recorder view r l asked).after view r hrefs =
      recorder view r l ((hrefs.map (Request.mk view r)).reverse ++ asked) := by
  induction hrefs generalizing asked with
  | nil => rfl
  | cons href hrefs ih =>
    have hload : ((recorder view r l asked).load view r href).2 =
        recorder view r l (⟨view, r, href⟩ :: asked) := rfl
    rw [after, List.foldl_cons, hload, ← after, ih, List.map_cons, List.reverse_cons,
      List.append_assoc]
    rfl

end Loader

def RenderState.withLoader (s : RenderState) (l : Loader) : RenderState :=
  { s with loader := some l }

namespace Render

variable {env : RenderEnv} {α β : Type}

/-- A computation leaves the loader alone. -/
def Indifferent (m : Render α) : Prop := ∀ s l, outcome m (s.withLoader l) =
  ((outcome m s).1, (outcome m s).2.withLoader l)

namespace Indifferent

theorem pure (a : α) : Indifferent (Pure.pure a : Render α) := fun _ _ => rfl

theorem throw (e : Error) : Indifferent (throw e : Render α) := fun _ _ => rfl

theorem logged (act : Logged α) : Indifferent (logged act) := fun _ _ => rfl

theorem bind {m : Render α} {next : α → Render β} (h : Indifferent m)
    (hnext : ∀ a, Indifferent (next a)) : Indifferent (m >>= next) := by
  intro s l
  rw [outcome_bind, outcome_bind, h s l]
  rcases outcome m s with ⟨e | a, s'⟩
  · rfl
  · exact hnext a s' l

theorem bind_get {next : RenderState → Render β}
    (h : ∀ s l, outcome (next (s.withLoader l)) (s.withLoader l) =
      ((outcome (next s) s).1, (outcome (next s) s).2.withLoader l)) :
    Indifferent (MonadState.get >>= next) := by
  intro s l
  rw [outcome_bind_ok outcome_get, outcome_bind_ok outcome_get]
  exact h s l

theorem write (mode : Mode) (name : String) (keys : List String) (value : Value) :
    Indifferent (write mode name keys value) := by
  refine bind_get fun s l => ?_
  have hlocals : (s.withLoader l).frame.locals = s.frame.locals := rfl
  rw [hlocals]
  split
  · dsimp only
    rw [outcome_bind_ok (outcome_set _), outcome_bind_ok (outcome_set _)]
    cases (Value.setPath _ _ _).fault <;> rfl
  · have hcontext : (s.withLoader l).context = s.context := rfl
    dsimp only
    rw [hcontext]
    generalize Value.setPath _ _ _ = w
    cases w.fault <;> rfl

theorem setCounter (depth count : Nat) : Indifferent (setCounter depth count) := by
  intro s l
  rw [outcome_setCounter, outcome_setCounter]
  split <;> rfl

theorem assign (target : Path) (value : Value) : Indifferent (assign env target value) := by
  refine bind_get fun s l => ?_
  refine bind (.logged (target.names (scope env s))) (fun names => ?_) s l
  cases names with
  | nil => exact .pure ()
  | cons name keys => exact .write target.mode name keys value

end Indifferent

/-- From a state with a loader, a computation asks for the references in order: with every loader
that gives the same answers it ends alike, with the loader behind them. -/
def AsksFor (env : RenderEnv) (m : Render α) (s : RenderState) (l : Loader) (asked : List String)
    (result : Except Error α) (s' : RenderState) : Prop :=
  ∀ l', l'.answers env.view env.registry asked = l.answers env.view env.registry asked →
    outcome m (s.withLoader l') =
      (result, s'.withLoader (l'.after env.view env.registry asked))

/-- A computation depends on the loader only through what it asks for. -/
def Asking (env : RenderEnv) (m : Render α) : Prop :=
  ∀ s l, ∃ asked result s', AsksFor env m s l asked result s'

namespace Asking

theorem of_indifferent {m : Render α} (h : Indifferent m) : Asking env m :=
  fun s _ => ⟨[], (outcome m s).1, (outcome m s).2, fun l' _ => h s l'⟩

theorem bind {m : Render α} {next : α → Render β} (h : Asking env m)
    (hnext : ∀ a, Asking env (next a)) : Asking env (m >>= next) := by
  intro s l
  obtain ⟨asked, result, s', hasked⟩ := h s l
  cases result with
  | error e =>
    exact ⟨asked, .error e, s', fun l' hl' => outcome_bind_error (hasked l' hl') next⟩
  | ok a =>
    obtain ⟨more, result, s'', hmore⟩ := hnext a s' (l.after env.view env.registry asked)
    refine ⟨asked ++ more, result, s'', fun l' hl' => ?_⟩
    obtain ⟨hfirst, hrest⟩ := Loader.answers_append_inj hl'
    rw [outcome_bind_ok (hasked l' hfirst), hmore _ hrest, Loader.after_append]

theorem load (href : String) : Asking env (load env href) := by
  intro s l
  refine ⟨[href], (l.load env.view env.registry href).1, s, fun l' hl' => ?_⟩
  have hrun : outcome (Render.load env href) (s.withLoader l') =
      ((l'.load env.view env.registry href).1,
        s.withLoader (l'.load env.view env.registry href).2) :=
    outcome_load env href (s.withLoader l')
  rw [hrun, (List.cons_eq_cons.mp hl').1]
  rfl

theorem inFrame (frame : Frame) {m : Render String} (h : Asking env m) :
    Asking env (inFrame frame m) := by
  intro s l
  obtain ⟨asked, result, s', hasked⟩ := h { s with frame := frame } l
  refine ⟨asked, result, { s' with frame := s.frame }, fun l' hl' => ?_⟩
  have hinner : outcome m { s.withLoader l' with frame := frame } = _ := hasked l' hl'
  rw [outcome_inFrame, hinner]
  rfl

/-- Every step of rendering depends on the loader only through what it asks for. -/
theorem steps (env : RenderEnv) : CallRelation env env (fun _ => True) fun m _ => Asking env m where
  pure a := of_indifferent (.pure a)
  fault _ := of_indifferent (.throw _)
  bind := bind
  eval _ := of_indifferent (.bind_get fun _ _ => rfl)
  resolve _ := of_indifferent (.bind_get fun _ _ => rfl)
  assign _ _ target _ value := of_indifferent (.assign target value)
  setCounter _ _ _ := of_indifferent (.setCounter _ _)
  counterAt _ := of_indifferent (.bind_get fun _ _ => rfl)
  blockNamed _ := of_indifferent (.bind_get fun _ _ => rfl)
  load := load
  warn := of_indifferent (.logged _)
  hoist _ := of_indifferent fun _ _ => rfl
  inFrame frame _ _ h := inFrame frame h

theorem template (env : RenderEnv) (t : Template) : Asking env (template env t) :=
  (steps env).template (fun _ => trivial) rfl t

end Asking

end Render

namespace Engine

variable {e : Engine} {view : Files.View}

/-- An engine asks its loader for the references in order: with every loader that gives the same
answers it does the same, and leaves the loader behind them. -/
def AsksFor (e : Engine) (view : Files.View) (act : Engine → Rendered) (l : Loader)
    (asked : List String) : Prop :=
  ∃ result context warnings, ∀ l',
    l'.answers view e.registry asked = l.answers view e.registry asked →
    act { e with loader := some l' } =
      ⟨result, { e with context := context, loader := some (l'.after view e.registry asked) },
        warnings⟩

/-- What an engine asks for is settled by what it does: a loader of the host may remember it. -/
theorem AsksFor.unique {act : Engine → Rendered} {l : Loader} {asked asked' : List String}
    (h : e.AsksFor view act l asked) (h' : e.AsksFor view act l asked') : asked = asked' := by
  obtain ⟨result, context, warnings, hasked⟩ := h
  obtain ⟨result', context', warnings', hasked'⟩ := h'
  have hrun := (hasked (.recorder view e.registry l []) (l.answers_recorder [] asked)).symm.trans
    (hasked' _ (l.answers_recorder [] asked'))
  have hloader := congrArg (fun done => done.engine.loader) hrun
  simp only [Loader.after_recorder, List.append_nil, Option.some.injEq] at hloader
  have hrequests := List.reverse_inj.mp (HostLoader.mk.inj (Loader.host.inj hloader)).1
  refine List.map_injective_iff.mpr (fun href href' hsame => ?_) hrequests
  exact (Request.mk.inj hsame).2.2

theorem failed_asks (l : Loader) (error : Error) : e.AsksFor view (·.failed error) l [] :=
  ⟨.error error, e.context, [], fun _ _ => rfl⟩

theorem render_asks (view : Files.View) (l : Loader) (t : Template) :
    ∃ asked, e.AsksFor view (·.render view t) l asked := by
  obtain ⟨asked, result, s', hasked⟩ :=
    Render.Asking.template (e.env view) t ⟨e.context, .ofUnit, [], none, []⟩ l
  refine ⟨asked, result, s'.context, s'.warnings, fun l' hl' => ?_⟩
  have hrun : (Render.template (e.env view) t).run.run ⟨e.context, .ofUnit, [], some l', []⟩ = _ :=
    hasked l' hl'
  have henv : env { e with loader := some l' } view = e.env view := rfl
  simp only [render, henv, hrun]
  rfl

theorem renderString_error {source : String} {error : Error}
    (h : e.compile source none = .error error) : e.renderString view source = e.failed error := by
  simp only [renderString, h]

theorem renderString_ok {source : String} {t : Template} (h : e.compile source none = .ok t) :
    e.renderString view source = e.render view t := by
  simp only [renderString, h]

theorem renderString_asks (view : Files.View) (l : Loader) (source : String) :
    ∃ asked, e.AsksFor view (·.renderString view source) l asked := by
  cases hcompile : e.compile source none with
  | error error =>
    obtain ⟨result, context, warnings, h⟩ : e.AsksFor view _ l [] := failed_asks l error
    refine ⟨[], result, context, warnings, fun l' hl' => ?_⟩
    exact (renderString_error (e := { e with loader := some l' }) hcompile).trans (h l' hl')
  | ok t =>
    obtain ⟨asked, result, context, warnings, h⟩ := e.render_asks view l t
    refine ⟨asked, result, context, warnings, fun l' hl' => ?_⟩
    exact (renderString_ok (e := { e with loader := some l' }) hcompile).trans (h l' hl')

theorem renderFile_error {l : Loader} {name : String} {error : Error}
    (hloader : e.loader = some l) (h : (l.load view e.registry name).1 = .error error) :
    e.renderFile view name =
      failed { e with loader := some (l.load view e.registry name).2 } error := by
  simp only [renderFile, hloader, h]

theorem renderFile_ok {l : Loader} {name : String} {t : Template}
    (hloader : e.loader = some l) (h : (l.load view e.registry name).1 = .ok t) :
    e.renderFile view name =
      render { e with loader := some (l.load view e.registry name).2 } view t := by
  simp only [renderFile, hloader, h]

/-- Rendering a file asks for the file and then for what its template asks for. -/
theorem renderFile_asks (view : Files.View) (l : Loader) (name : String) :
    ∃ asked, e.AsksFor view (·.renderFile view name) l (name :: asked) := by
  cases hload : (l.load view e.registry name).1 with
  | error error =>
    refine ⟨[], .error error, e.context, [], fun l' hl' => ?_⟩
    rw [(List.cons_eq_cons.mp hl').1.symm] at hload
    exact renderFile_error (e := { e with loader := some l' }) rfl hload
  | ok t =>
    obtain ⟨asked, result, context, warnings, h⟩ :=
      e.render_asks view (l.load view e.registry name).2 t
    refine ⟨asked, result, context, warnings, fun l' hl' => ?_⟩
    obtain ⟨hfirst, hrest⟩ := List.cons_eq_cons.mp hl'
    rw [← hfirst] at hload
    exact (renderFile_ok (e := { e with loader := some l' }) rfl hload).trans (h _ hrest)

end Engine

end BraceTemplate
