import BraceTemplate.Engine
import BraceTemplate.Files.Tree

/-!
Sessions: an engine together with the files it sees and the templates that were compiled by hand,
driven by one action after the other. A failing action keeps what it changed before it failed.
-/
namespace BraceTemplate

inductive Action where
  | assign (name : String) (value : Value) (global : Bool)
  | assignAll (values : List (String × Value)) (global : Bool)
  | append (name : String) (value : Value)
  | get (name : String)
  | clear (name : String)
  | clearAll (names : List String)
  | push
  | pop
  | isGlobal (name : String)
  | register (name : String) (handler : External)
  | unregister (name : String)
  | registerFilter (name : String) (filter : Filter)
  | setLoader (loader : Loader)
  | writeFile (name : String) (file : Files.File)
  | removeFile (name : String)
  | stamp (times : List Files.Name → Int)
  | compile (id : String) (source : String) (dir : Option String)
  | render (id : String)
  | renderString (source : String)
  | renderFile (name : String)

/-- What an action answers. -/
inductive Answer where
  | done
  | flag (b : Bool)
  | value (v : Value)
  | compiled (instructions : Nat)
  | text (s : String)
  | unknownId
  | failed (e : Error)

structure Session where
  engine : Engine
  tree : Files.Tree
  compiled : Dict Template

namespace Session

/-- The outcome of one action. -/
structure Step where
  answer : Answer
  session : Session
  warnings : List Warning

def ofConfig (speller : Text.Speller) (config : Config) (tree : Files.Tree) : Session :=
  ⟨.ofConfig speller config, tree, []⟩

/-- An action that only changes the session. -/
def changed (s : Session) : Step := ⟨.done, s, []⟩

def withContext (s : Session) (f : Context → Context) : Step :=
  changed { s with engine := { s.engine with context := f s.engine.context } }

def tell (s : Session) (a : Answer) : Step := ⟨a, s, []⟩

def rendered (s : Session) (r : Engine.Rendered) : Step :=
  let answer := match r.result with
    | .ok text => .text text
    | .error e => .failed e
  ⟨answer, { s with engine := r.engine }, r.warnings⟩

def step (s : Session) : Action → Step
  | .assign name value global => s.withContext (·.assign name value global)
  | .assignAll values global => s.withContext (·.assignAll values global)
  | .append name value => s.withContext (·.append name value)
  | .get name => s.tell (.value (s.engine.context.get name))
  | .clear name => s.withContext (·.clear name)
  | .clearAll names => s.withContext (·.clearAll names)
  | .push => s.withContext Context.push
  | .pop => s.withContext Context.pop
  | .isGlobal name => s.tell (.flag (s.engine.context.isGlobal name))
  | .register name handler =>
    let (added, registry) := s.engine.registry.register name handler
    ⟨.flag added, { s with engine := { s.engine with registry := registry } }, []⟩
  | .unregister name =>
    let (removed, registry, warnings) := s.engine.registry.unregister name
    ⟨.flag removed, { s with engine := { s.engine with registry := registry } }, warnings⟩
  | .registerFilter name filter =>
    let (added, filters) := s.engine.filters.register name filter
    ⟨.flag added, { s with engine := { s.engine with filters := filters } }, []⟩
  | .setLoader loader => changed { s with engine := { s.engine with loader := some loader } }
  | .writeFile name file => changed { s with tree := s.tree.put name file }
  | .removeFile name => changed { s with tree := s.tree.remove name }
  | .stamp times => changed { s with tree := s.tree.stamp times }
  | .compile id source dir =>
    match s.engine.compile source dir with
    | .ok t => ⟨.compiled t.size, { s with compiled := Dict.insert s.compiled id t }, []⟩
    | .error e => s.tell (.failed e)
  | .render id =>
    match Dict.find? s.compiled id with
    | some t => s.rendered (s.engine.render s.tree.read t)
    | none => s.tell .unknownId
  | .renderString source => s.rendered (s.engine.renderString s.tree.read source)
  | .renderFile name => s.rendered (s.engine.renderFile s.tree.read name)

/-- Performs actions in order. -/
def run (s : Session) : List Action → List Step
  | [] => []
  | a :: as =>
    let r := s.step a
    r :: run r.session as

end Session
end BraceTemplate
