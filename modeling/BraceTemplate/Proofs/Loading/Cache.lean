import BraceTemplate.Loader
import BraceTemplate.Proofs.Loading.Spellings

/-!
The cache of a loader: what it holds was made by earlier loads, so that loading through it is
loading without it, up to the spelling of the directory that a template is compiled in.
-/
namespace BraceTemplate

open Files

namespace FileLoader

variable {l : FileLoader} {view : View} {r : Registry} {href : String}

/-- The loader before it has kept anything. -/
def emptied (l : FileLoader) : FileLoader := { l with cache := [] }

/-- The directory that the template of a reference is compiled in. -/
def home (l : FileLoader) (href : String) : Option String :=
  (Path.directory? (l.resolve href)).map String.ofList

/-- Loads without a cache, compiling in a given directory. -/
def loadIn (l : FileLoader) (view : View) (r : Registry) (href : String) (dir : Option String) :
    Except Error Template :=
  match view (l.resolve href) with
  | .error f => .error (unreadable (l.resolve href) f)
  | .ok entry => compileAt r (l.resolve href) entry dir

/-- A load of the reference makes the entry. -/
def Makes (l : FileLoader) (view : View) (r : Registry) (href : String) (c : Cached) : Prop :=
  ∃ file source, view (l.resolve href) = .ok (.file file) ∧ file.content = .ok source ∧
    c.key = Path.key (l.resolve href) ∧ c.modified = file.modified ∧
    compile r source (l.home href) = .ok c.template

/-- The entry is taken for the reference. -/
def Holds (l : FileLoader) (view : View) (href : String) (c : Cached) : Prop :=
  c ∈ l.cache ∧ c.key = Path.key (l.resolve href) ∧
    ∃ entry, view (l.resolve href) = .ok entry ∧ c.modified = entry.modified

/-- Only files that can be read are compiled. -/
theorem compileAt_eq_ok {path : List Char} {entry : Entry} {dir : Option String} {t : Template}
    (h : compileAt r path entry dir = .ok t) :
    ∃ file source, entry = .file file ∧ file.content = .ok source ∧
      compile r source dir = .ok t := by
  unfold compileAt at h
  obtain ⟨source, hsource, hcompile⟩ := bind_eq_ok.mp h
  cases entry with
  | directory modified => cases hsource
  | file file =>
    cases hcontent : file.content with
    | error f =>
      rw [Entry.content, hcontent] at hsource
      cases hsource
    | ok text =>
      rw [Entry.content, hcontent] at hsource
      cases hsource
      exact ⟨file, source, rfl, hcontent, hcompile⟩

theorem resolve_congr {l' : FileLoader} (h : l'.baseDir = l.baseDir) (href : String) :
    l'.resolve href = l.resolve href := by
  unfold resolve
  rw [h]

theorem load_unreadable {f : Failure} (h : view (l.resolve href) = .error f) :
    l.load view r href = (.error (unreadable (l.resolve href) f), l) := by
  simp only [load, h]

theorem load_cached {entry : Entry} {t : Template} (h : view (l.resolve href) = .ok entry)
    (hcached : l.cached? (l.resolve href) entry.modified = some t) :
    l.load view r href = (.ok t, l) := by
  simp only [load, h, hcached]

theorem load_error {entry : Entry} {e : Error} (h : view (l.resolve href) = .ok entry)
    (hcached : l.cached? (l.resolve href) entry.modified = none)
    (hcompile : compileAt r (l.resolve href) entry (l.home href) = .error e) :
    l.load view r href = (.error e, l) := by
  rw [home] at hcompile
  simp only [load, h, hcached, hcompile]

theorem load_ok {entry : Entry} {t : Template} (h : view (l.resolve href) = .ok entry)
    (hcached : l.cached? (l.resolve href) entry.modified = none)
    (hcompile : compileAt r (l.resolve href) entry (l.home href) = .ok t) :
    l.load view r href = (.ok t, l.keep (l.resolve href) entry.modified t) := by
  rw [home] at hcompile
  simp only [load, h, hcached, hcompile]

theorem load_uncached {entry : Entry} (h : view (l.resolve href) = .ok entry)
    (hcached : l.cached? (l.resolve href) entry.modified = none) :
    (l.load view r href).1 = compileAt r (l.resolve href) entry (l.home href) := by
  cases hcompile : compileAt r (l.resolve href) entry (l.home href) with
  | error e => rw [load_error h hcached hcompile]
  | ok t => rw [load_ok h hcached hcompile]

theorem emptied_load (l : FileLoader) (view : View) (r : Registry) (href : String) :
    (l.emptied.load view r href).1 = l.loadIn view r href (l.home href) := by
  unfold loadIn
  cases hview : view (l.resolve href) with
  | error f => rw [load_unreadable (show view (l.emptied.resolve href) = _ from hview)]; rfl
  | ok entry => exact load_uncached (show view (l.emptied.resolve href) = _ from hview) rfl

theorem cached?_eq_some {path : List Char} {modified : Int} {t : Template}
    (h : l.cached? path modified = some t) :
    ∃ c ∈ l.cache, c.key = Path.key path ∧ c.modified = modified ∧ c.template = t := by
  obtain ⟨c, hfind, rfl⟩ := Option.map_eq_some_iff.mp h
  have hmatch := List.find?_some hfind
  simp only [Bool.and_eq_true, decide_eq_true_eq] at hmatch
  exact ⟨c, List.mem_of_find?_eq_some hfind, hmatch.1, hmatch.2, rfl⟩

/-- A load takes what is held, makes an entry and keeps it, or fails and keeps nothing. Unless it
takes what is held it answers as if nothing were. -/
theorem load_cases (l : FileLoader) (view : View) (r : Registry) (href : String) :
    (∃ c, l.Holds view href c ∧ l.load view r href = (.ok c.template, l)) ∨
    (l.load view r href).1 = (l.emptied.load view r href).1 ∧
      ((∃ c, l.Makes view r href c ∧ l.load view r href =
          (.ok c.template, l.keep (l.resolve href) c.modified c.template)) ∨
        ∃ e, l.load view r href = (.error e, l)) := by
  rw [emptied_load]
  unfold loadIn
  cases hview : view (l.resolve href) with
  | error f =>
    rw [load_unreadable hview]
    exact .inr ⟨rfl, .inr ⟨_, rfl⟩⟩
  | ok entry =>
    cases hcached : l.cached? (l.resolve href) entry.modified with
    | some t =>
      obtain ⟨c, hc, hkey, hmodified, rfl⟩ := cached?_eq_some hcached
      exact .inl ⟨c, ⟨hc, hkey, entry, hview, hmodified⟩, load_cached hview hcached⟩
    | none =>
      refine .inr ⟨load_uncached hview hcached, ?_⟩
      cases hcompile : compileAt r (l.resolve href) entry (l.home href) with
      | error e => exact .inr ⟨e, load_error hview hcached hcompile⟩
      | ok t =>
        obtain ⟨file, source, rfl, hcontent, hsource⟩ := compileAt_eq_ok hcompile
        exact .inl ⟨⟨_, file.modified, t⟩, ⟨file, source, hview, hcontent, rfl, rfl, hsource⟩,
          load_ok hview hcached hcompile⟩

/-- A failing load keeps nothing. -/
theorem keeps_of_error {e : Error} (h : (l.load view r href).1 = .error e) :
    (l.load view r href).2 = l := by
  rcases l.load_cases view r href with ⟨c, -, hload⟩ | ⟨-, ⟨c, -, hload⟩ | ⟨e', hload⟩⟩
  · rw [hload] at h
    cases h
  · rw [hload] at h
    cases h
  · rw [hload]

theorem baseDir_load : (l.load view r href).2.baseDir = l.baseDir := by
  rcases l.load_cases view r href with ⟨c, -, hload⟩ | ⟨-, ⟨c, -, hload⟩ | ⟨e, hload⟩⟩
  · rw [hload]
  · rw [hload, keep]
  · rw [hload]

/-- What loads make depends on the base directory alone. -/
theorem makes_congr {l' : FileLoader} (h : l'.baseDir = l.baseDir) {c : Cached} :
    l'.Makes view r href c ↔ l.Makes view r href c := by
  rw [Makes, Makes, home, home, resolve_congr h]

/-- What is held behind a load was held before, or the load made it and answered with it. -/
theorem load_entries {c : Cached} (hc : c ∈ (l.load view r href).2.cache) :
    c ∈ l.cache ∨ l.Makes view r href c ∧ (l.load view r href).1 = .ok c.template := by
  rcases l.load_cases view r href with ⟨_, -, hload⟩ | ⟨-, ⟨made, hmakes, hload⟩ | ⟨e, hload⟩⟩
  · rw [hload] at hc
    exact .inl hc
  · obtain ⟨key, modified, t⟩ := made
    obtain ⟨_, _, -, -, rfl, -⟩ := id hmakes
    rw [hload] at hc ⊢
    rcases List.mem_cons.mp hc with rfl | hc
    · exact .inr ⟨hmakes, rfl⟩
    · exact .inl (List.mem_of_mem_filter hc)
  · rw [hload] at hc
    exact .inl hc

/-- Every entry of the cache was made by one of the given loads. -/
def Known (loads : View → Registry → String → Prop) (l : FileLoader) : Prop :=
  ∀ c ∈ l.cache, ∃ view r href, loads view r href ∧ l.Makes view r href c

namespace Known

variable {loads : View → Registry → String → Prop}

theorem emptied (l : FileLoader) : Known loads l.emptied := fun _ hc => nomatch hc

theorem load (h : Known loads l) (hloads : loads view r href) :
    Known loads (l.load view r href).2 := by
  intro c hc
  rcases load_entries hc with hold | ⟨hmakes, -⟩
  · obtain ⟨view', r', href', hloads', hmakes⟩ := h c hold
    exact ⟨view', r', href', hloads', (makes_congr baseDir_load).mpr hmakes⟩
  · exact ⟨view, r, href, hloads, (makes_congr baseDir_load).mpr hmakes⟩

end Known

end FileLoader

/-! Loads between changes to the files. -/

/-- What happens to files and directories, and the loads between that. -/
inductive Event where
  | write (path : String) (file : File)
  | remove (path : String)
  | stamp (times : List Name → Int)
  | load (href : String)

namespace Event

/-- The files after an event. -/
def change (t : Files.Tree) : Event → Files.Tree
  | .write path file => t.put path file
  | .remove path => t.remove path
  | .stamp times => t.stamp times
  | .load _ => t

def href? : Event → Option String
  | .load href => some href
  | _ => none

end Event

/-- Files and a loader that reads them. -/
structure Disk where
  tree : Files.Tree
  loader : FileLoader

namespace Disk

variable {r : Registry}

def step (r : Registry) (d : Disk) (e : Event) : Disk where
  tree := e.change d.tree
  loader := match e with
    | .load href => (d.loader.load d.tree.read r href).2
    | _ => d.loader

def run (r : Registry) (d : Disk) (es : List Event) : Disk := es.foldl (step r) d

/-- The references that are loaded. -/
def loads (es : List Event) : List String := es.filterMap Event.href?

/-- Loads of certain references at certain moments. -/
def At (r : Registry) (ts : List Files.Tree) (hrefs : List String) (view : View) (r' : Registry)
    (href : String) : Prop :=
  r' = r ∧ href ∈ hrefs ∧ ∃ t ∈ ts, view = t.read

end Disk

end BraceTemplate
