import BraceTemplate.Proofs.Loading.Answers
import BraceTemplate.Session

/-!
Sessions whose handlers change: a session renders a file as a fresh engine with its handlers and its
context does, except that templates which were loaded before stay as they were compiled then.
-/
namespace BraceTemplate

open Files

/-- Actions that leave files, filters and loaders as they are. -/
def Action.Quiet : Action → Prop
  | .registerFilter .. | .setLoader _ | .writeFile .. | .removeFile _ | .stamp _ => False
  | _ => True

namespace Session

/-- The session behind actions. -/
def reached (s : Session) (as : List Action) : Session := as.foldl (fun s a => (s.step a).session) s

theorem reached_concat (s : Session) (as : List Action) (a : Action) :
    s.reached (as ++ [a]) = ((s.reached as).step a).session := by
  rw [reached, List.foldl_append]
  rfl

/-- The last action of a run is performed in the session behind the others. -/
theorem run_concat (s : Session) (as : List Action) (a : Action) :
    s.run (as ++ [a]) = s.run as ++ [(s.reached as).step a] := by
  induction as generalizing s with
  | nil => rfl
  | cons first as ih =>
    rw [List.cons_append, run, run, ih]
    rfl

/-- A new engine with the handlers and the context of the session. -/
def fresh (speller : Text.Speller) (config : Config) (s : Session) : Engine :=
  { Engine.ofConfig speller config with
    registry := s.engine.registry, context := s.engine.context }

/-- What an action does with the engine of the session, if it renders. -/
def rendering? (s : Session) : Action → Option (Engine → Engine.Rendered)
  | .render id => (Dict.find? s.compiled id).map fun t e => e.render s.tree.read t
  | .renderString source => some (·.renderString s.tree.read source)
  | .renderFile name => some (·.renderFile s.tree.read name)
  | _ => none

theorem step_rendering {s : Session} {a : Action} {act : Engine → Engine.Rendered}
    (h : s.rendering? a = some act) : s.step a = s.rendered (act s.engine) := by
  cases a with
  | render id =>
    obtain ⟨t, ht, rfl⟩ := Option.map_eq_some_iff.mp h
    simp only [step, ht]
  | renderString source =>
    cases h
    rfl
  | renderFile name =>
    cases h
    rfl
  | _ => cases h

/-- What renders asks its loader for references. -/
theorem rendering_asks {s : Session} {a : Action} {act : Engine → Engine.Rendered}
    (h : s.rendering? a = some act) (l : Loader) :
    ∃ asked, s.engine.AsksFor s.tree.read act l asked := by
  cases a with
  | render id =>
    obtain ⟨t, -, rfl⟩ := Option.map_eq_some_iff.mp h
    exact s.engine.render_asks s.tree.read l t
  | renderString source =>
    cases h
    exact s.engine.renderString_asks s.tree.read l source
  | renderFile name =>
    cases h
    obtain ⟨more, hasks⟩ := s.engine.renderFile_asks s.tree.read l name
    exact ⟨name :: more, hasks⟩
  | _ => cases h

/-- The action asks the loader of the session for the reference, and this answers with the
template. -/
def Loads (s : Session) (a : Action) (href : String) (t : Template) : Prop :=
  ∃ act l asked, s.rendering? a = some act ∧ s.engine.loader = some l ∧
    s.engine.AsksFor s.tree.read act l asked ∧
    (href, .ok t) ∈ asked.zip (l.answers s.tree.read s.engine.registry asked)

/-- One of the actions made the entry: it loaded a reference, and what the files of that moment have
there, compiled with the handlers of that moment, is the template that it was given. -/
def Made (start : Session) (as : List Action) (l : FileLoader) (c : Cached) : Prop :=
  ∃ before a after href, as = before ++ a :: after ∧
    let s := start.reached before
    s.Loads a href c.template ∧ l.Makes s.tree.read s.engine.registry href c

theorem Made.concat {start : Session} {as : List Action} {l : FileLoader} {c : Cached}
    (h : Made start as l c) (a : Action) : Made start (as ++ [a]) l c := by
  obtain ⟨before, first, after, href, rfl, hmade⟩ := h
  exact ⟨before, first, after ++ [a], href, by simp, hmade⟩

/-- The session behind actions has the given files, and its engine is a new one but for what its
loader holds, which was made on the way. -/
structure Runs (speller : Text.Speller) (config : Config) (tree : Files.Tree) (as : List Action)
    (s : Session) (l : FileLoader) : Prop where
  files : s.tree = tree
  baseDir : l.baseDir = config.baseDir
  engine : s.engine = { s.fresh speller config with loader := some (.files l) }
  made : ∀ c ∈ l.cache, Made (.ofConfig speller config tree) as l c

variable {speller : Text.Speller} {config : Config} {tree : Files.Tree} {as : List Action}
  {s : Session} {l : FileLoader}

namespace Runs

theorem ofConfig (speller : Text.Speller) (config : Config) (tree : Files.Tree) :
    Runs speller config tree [] (.ofConfig speller config tree) ⟨config.baseDir, []⟩ where
  files := rfl
  baseDir := rfl
  engine := rfl
  made := nofun

/-- A change of the context or the handlers leaves the rest in place. -/
theorem changed (h : Runs speller config tree as s l) (a : Action) (registry : Registry)
    (context : Context) (compiled : Dict Template) : Runs speller config tree (as ++ [a])
      ⟨{ s.engine with registry := registry, context := context }, s.tree, compiled⟩ l where
  files := h.files
  baseDir := h.baseDir
  engine := by
    rw [h.engine]
    rfl
  made c hc := (h.made c hc).concat a

theorem kept (h : Runs speller config tree as s l) (a : Action) :
    Runs speller config tree (as ++ [a]) s l :=
  { h with made := fun c hc => (h.made c hc).concat a }

/-- What a rendering adds to the loader, it has made with the handlers in force. -/
theorem rendered (h : Runs speller config tree as s l)
    (hs : s = (Session.ofConfig speller config tree).reached as) {a : Action}
    {act : Engine → Engine.Rendered} (hact : s.rendering? a = some act) :
    ∃ l', Runs speller config tree (as ++ [a]) (s.step a).session l' := by
  obtain ⟨asked, hasks⟩ := rendering_asks hact (.files l)
  obtain ⟨result, context, warnings, hrun⟩ := id hasks
  have hloader : s.engine.loader = some (.files l) := by rw [h.engine]
  have hengine : { s.engine with loader := some (.files l) } = s.engine := by rw [h.engine]
  have hrun := hrun (.files l) rfl
  rw [hengine] at hrun
  obtain ⟨l', hafter, hbase, hentries⟩ :=
    @FileLoader.after_files s.tree.read s.engine.registry l asked
  rw [step_rendering hact]
  refine ⟨l', h.files, hbase.trans h.baseDir, ?_, fun c hc => ?_⟩
  · rw [hrun, hafter, Session.rendered, h.engine]
    rfl
  · rcases hentries c hc with hold | ⟨href, hmakes, hin⟩
    · obtain ⟨before, first, after, href, has, hloads, hmakes⟩ := (h.made c hold).concat a
      exact ⟨before, first, after, href, has, hloads, (FileLoader.makes_congr hbase).mpr hmakes⟩
    · refine ⟨as, a, [], href, rfl, ?_, ?_⟩
      · rw [← hs]
        exact ⟨act, _, asked, hact, hloader, hasks, hin⟩
      · rw [← hs]
        exact (FileLoader.makes_congr hbase).mpr hmakes

theorem step (h : Runs speller config tree as s l)
    (hs : s = (Session.ofConfig speller config tree).reached as) {a : Action} (ha : a.Quiet) :
    ∃ l', Runs speller config tree (as ++ [a]) (s.step a).session l' := by
  cases a with
  | assign name value global => exact ⟨l, h.changed _ _ _ _⟩
  | assignAll values global => exact ⟨l, h.changed _ _ _ _⟩
  | append name value => exact ⟨l, h.changed _ _ _ _⟩
  | get name => exact ⟨l, h.kept _⟩
  | clear name => exact ⟨l, h.changed _ _ _ _⟩
  | clearAll names => exact ⟨l, h.changed _ _ _ _⟩
  | push => exact ⟨l, h.changed _ _ _ _⟩
  | pop => exact ⟨l, h.changed _ _ _ _⟩
  | isGlobal name => exact ⟨l, h.kept _⟩
  | register name handler => exact ⟨l, h.changed _ _ _ _⟩
  | unregister name => exact ⟨l, h.changed _ _ _ _⟩
  | registerFilter => cases ha
  | setLoader => cases ha
  | writeFile => cases ha
  | removeFile => cases ha
  | stamp => cases ha
  | compile id source dir =>
    rw [Session.step]
    split
    · exact ⟨l, h.changed _ _ _ _⟩
    · exact ⟨l, h.kept _⟩
  | render id =>
    cases hact : s.rendering? (.render id) with
    | some act => exact h.rendered hs hact
    | none =>
      have hunknown : Dict.find? s.compiled id = none := Option.map_eq_none_iff.mp hact
      simp only [Session.step, hunknown]
      exact ⟨l, h.kept _⟩
  | renderString source => exact h.rendered hs rfl
  | renderFile name => exact h.rendered hs rfl

/-- Behind quiet actions the loader holds what these have made. -/
theorem reached (speller : Text.Speller) (config : Config) (tree : Files.Tree)
    (has : ∀ a ∈ as, a.Quiet) :
    ∃ l, Runs speller config tree as ((Session.ofConfig speller config tree).reached as) l := by
  induction as using List.reverseRecOn with
  | nil => exact ⟨_, ofConfig speller config tree⟩
  | append_singleton as a ih =>
    rw [List.forall_mem_append] at has
    obtain ⟨l, hruns⟩ := ih has.1
    rw [reached_concat]
    exact hruns.step rfl (has.2 a List.mem_cons_self)

/-- If what a loader holds answers the references of a rendering as a loader that holds nothing, the
session renders as a fresh engine. -/
theorem renderFile (h : Runs speller config tree as s l) {name : String} {asked : List String}
    (hasks : (s.fresh speller config).AsksFor tree.read (·.renderFile tree.read name)
      (.files l.emptied) asked)
    (halike : ∀ href ∈ asked, (l.load tree.read s.engine.registry href).1 =
      (l.emptied.load tree.read s.engine.registry href).1) :
    let done := s.step (.renderFile name)
    let anew := Session.step ⟨s.fresh speller config, tree, s.compiled⟩ (.renderFile name)
    done.answer = anew.answer ∧ done.warnings = anew.warnings ∧
      done.session.engine.context = anew.session.engine.context := by
  obtain ⟨result, context, warnings, hact⟩ := hasks
  have hloader : (s.fresh speller config).loader = some (.files l.emptied) := by
    rw [FileLoader.emptied, h.baseDir]
    rfl
  have halike : FileLoader.Alike tree.read s.engine.registry asked l.emptied l := ⟨rfl, halike⟩
  have hheld := hact (.files l) (halike.answers tree.read_coherent fun _ hin => hin)
  have hnone := hact (.files l.emptied) rfl
  rw [← h.engine] at hheld
  change s.engine.renderFile tree.read name = _ at hheld
  rw [← hloader] at hnone
  change (s.fresh speller config).renderFile tree.read name = _ at hnone
  dsimp only [Session.step]
  rw [h.files, hheld, hnone]
  exact ⟨rfl, rfl, rfl⟩

end Runs

end Session

end BraceTemplate
