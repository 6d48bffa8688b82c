import BraceTemplate.Config.Basic
import BraceTemplate.Render.Run

/-! An engine: handlers, filters and a loader around a context that outlives single renderings. -/
namespace BraceTemplate

structure Engine where
  registry : Registry
  context : Context
  filters : FilterTable
  loader : Option Loader
  config : Config

namespace Engine

/-- An engine that loads files. -/
def ofConfig (speller : Text.Speller) (config : Config) : Engine where
  registry := .builtin
  context := .empty
  filters := .builtin speller
  loader := some (.files ⟨config.baseDir, []⟩)
  config := config

/-- What a rendering leaves: its text or a failure, the engine and the warnings. -/
structure Rendered where
  result : Except Error String
  engine : Engine
  warnings : List Warning

def env (e : Engine) (view : Files.View) : RenderEnv :=
  ⟨e.registry, e.filters, e.config.strictFilters, e.config.maxDepth, view⟩

def compile (e : Engine) (source : String) (dir : Option String) : Except Error Template :=
  BraceTemplate.compile e.registry source dir

/-- Renders a template against the active layer. -/
def render (e : Engine) (view : Files.View) (t : Template) : Rendered :=
  let start : RenderState := ⟨e.context, .ofUnit, [], e.loader, []⟩
  let (result, after) := (Render.template (e.env view) t).run.run start
  ⟨result, { e with context := after.context, loader := after.loader }, after.warnings⟩

def failed (e : Engine) (error : Error) : Rendered := ⟨.error error, e, []⟩

def renderString (e : Engine) (view : Files.View) (source : String) : Rendered :=
  match e.compile source none with
  | .error error => e.failed error
  | .ok t => e.render view t

/-- Loads a template through the loader and renders it. -/
def renderFile (e : Engine) (view : Files.View) (href : String) : Rendered :=
  match e.loader with
  | none => e.failed (.execution (.other ("cannot load " ++ quoted href ++ " without a loader")))
  | some loader =>
    let (loaded, loader) := loader.load view e.registry href
    let e := { e with loader := some loader }
    match loaded with
    | .error error => e.failed error
    | .ok t => e.render view t

end Engine
end BraceTemplate
