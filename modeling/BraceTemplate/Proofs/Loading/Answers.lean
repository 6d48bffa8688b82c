import BraceTemplate.Proofs.Loading.Cache
import BraceTemplate.Proofs.Render.Asking

/-!
Loaders of files that answer references alike: they still do so behind any of these references, and
so they answer any row of them alike.
-/
namespace BraceTemplate

open Files

/-- Spellings of one path that lead anywhere lead to one file or directory. -/
def Files.View.Coherent (view : View) : Prop :=
  ∀ path path' entry entry', Path.key path = Path.key path' → view path = .ok entry →
    view path' = .ok entry' → entry = entry'

theorem Files.Tree.read_coherent (t : Tree) : View.Coherent t.read := by
  intro path path' entry entry' hkey h h'
  obtain ⟨p, hplace, rfl⟩ := read_eq_ok h
  obtain ⟨p', hplace', rfl⟩ := read_eq_ok h'
  rw [place?_key hkey hplace hplace']

namespace FileLoader

variable {l l' : FileLoader} {view : View} {r : Registry} {href : String}

theorem cached?_congr {path path' : List Char} (h : Path.key path' = Path.key path)
    (modified : Int) : l.cached? path' modified = l.cached? path modified := by
  unfold cached?
  rw [h]

theorem cached?_keep (path : List Char) (modified : Int) (t : Template) :
    (l.keep path modified t).cached? path modified = some t := by
  simp [keep, cached?]

theorem cached?_keep_of_ne {path path' : List Char} (h : Path.key path' ≠ Path.key path)
    (modified modified' : Int) (t : Template) :
    (l.keep path modified t).cached? path' modified' = l.cached? path' modified' := by
  have hfind : ∀ cs : List Cached,
      (cs.filter fun c => c.key ≠ Path.key path).find?
        (fun c => c.key = Path.key path' && c.modified = modified') =
      cs.find? fun c => c.key = Path.key path' && c.modified = modified' := by
    intro cs
    induction cs with
    | nil => rfl
    | cons c cs ih =>
      by_cases hc : c.key = Path.key path
      · have hother : (decide (c.key = Path.key path')) = false := by
          rw [hc]
          exact decide_eq_false fun h' => h h'.symm
        rw [List.filter_cons_of_neg (by simpa using hc), ih, List.find?_cons, hother]
        rfl
      · rw [List.filter_cons_of_pos (by simpa using hc), List.find?_cons, List.find?_cons, ih]
  have hnew : (decide (Path.key path = Path.key path')) = false :=
    decide_eq_false fun h' => h h'.symm
  unfold keep cached?
  rw [List.find?_cons, hfind, hnew]
  rfl

/-- A load that answers with a template leaves that template for its path, and what is held for
other paths as it was. -/
theorem cached?_load {t : Template} (h : (l.load view r href).1 = .ok t) :
    ∃ entry, view (l.resolve href) = .ok entry ∧
      (∀ path, Path.key path = Path.key (l.resolve href) →
        (l.load view r href).2.cached? path entry.modified = some t) ∧
      ∀ path modified, Path.key path ≠ Path.key (l.resolve href) →
        (l.load view r href).2.cached? path modified = l.cached? path modified := by
  cases hview : view (l.resolve href) with
  | error f =>
    rw [load_unreadable hview] at h
    cases h
  | ok entry =>
    refine ⟨entry, rfl, ?_⟩
    cases hcached : l.cached? (l.resolve href) entry.modified with
    | some t' =>
      rw [load_cached hview hcached] at h ⊢
      obtain rfl : t' = t := Except.ok.inj h
      exact ⟨fun path hpath => (cached?_congr hpath _).trans hcached, fun _ _ _ => rfl⟩
    | none =>
      cases hcompile : compileAt r (l.resolve href) entry (l.home href) with
      | error e =>
        rw [load_error hview hcached hcompile] at h
        cases h
      | ok t' =>
        rw [load_ok hview hcached hcompile] at h ⊢
        obtain rfl : t' = t := Except.ok.inj h
        exact ⟨fun path hpath => (cached?_congr hpath _).trans (cached?_keep _ _ _),
          fun path modified hpath => cached?_keep_of_ne hpath _ _ _⟩

/-- A loader answers by its base directory and by what it holds for the path. -/
theorem load_congr (hbase : l'.baseDir = l.baseDir)
    (hcached : ∀ modified, l'.cached? (l.resolve href) modified =
      l.cached? (l.resolve href) modified) :
    (l'.load view r href).1 = (l.load view r href).1 := by
  have hresolve := resolve_congr hbase href
  cases hview : view (l.resolve href) with
  | error f =>
    rw [load_unreadable hview, load_unreadable (hresolve ▸ hview), hresolve]
  | ok entry =>
    rw [← hresolve] at hcached
    cases hheld : l.cached? (l.resolve href) entry.modified with
    | some t =>
      rw [load_cached hview hheld, load_cached (hresolve ▸ hview) ?_]
      rw [hcached, hresolve, hheld]
    | none =>
      rw [load_uncached hview hheld, load_uncached (hresolve ▸ hview) ?_, home, home, hresolve]
      rw [hcached, hresolve, hheld]

/-- Behind a load that answers with a template, all spellings of its path that lead anywhere are
answered with that template, and other references as before. -/
theorem load_behind (hview : view.Coherent) {t : Template} (h : (l.load view r href).1 = .ok t)
    (other : String) : ((l.load view r href).2.load view r other).1 =
      if Path.key (l.resolve other) = Path.key (l.resolve href) ∧
          (view (l.resolve other)).isOk = true then .ok t else (l.load view r other).1 := by
  obtain ⟨entry, hentry, hheld, hkept⟩ := cached?_load h
  have hresolve : (l.load view r href).2.resolve other = l.resolve other :=
    resolve_congr baseDir_load other
  by_cases hkey : Path.key (l.resolve other) = Path.key (l.resolve href)
  · cases hread : view (l.resolve other) with
    | error f =>
      rw [if_neg fun hboth => Bool.noConfusion hboth.2, load_unreadable hread,
        load_unreadable (hresolve ▸ hread), hresolve]
    | ok entry' =>
      obtain rfl : entry' = entry := hview _ _ _ _ hkey hread hentry
      rw [if_pos ⟨hkey, rfl⟩, load_cached (hresolve ▸ hread) ?_]
      rw [hresolve]
      exact hheld _ hkey
  · rw [if_neg fun hboth => hkey hboth.1]
    exact load_congr baseDir_load fun modified => hkept _ _ hkey

/-- Two loaders from one base directory answer each of the references alike. -/
structure Alike (view : View) (r : Registry) (hrefs : List String) (l l' : FileLoader) : Prop where
  baseDir : l'.baseDir = l.baseDir
  load : ∀ href ∈ hrefs, (l'.load view r href).1 = (l.load view r href).1

variable {hrefs asked : List String}

/-- Loaders that answer references alike still do so behind one of these references. -/
theorem Alike.behind (h : Alike view r hrefs l l') (hview : view.Coherent) (hin : href ∈ hrefs) :
    Alike view r hrefs (l.load view r href).2 (l'.load view r href).2 := by
  have hsame := h.load href hin
  cases hload : (l.load view r href).1 with
  | error e =>
    rw [keeps_of_error hload, keeps_of_error (hsame.trans hload)]
    exact h
  | ok t =>
    refine ⟨?_, fun other hother => ?_⟩
    · rw [baseDir_load, baseDir_load, h.baseDir]
    · rw [load_behind hview hload, load_behind hview (hsame.trans hload), h.load other hother,
        resolve_congr h.baseDir, resolve_congr h.baseDir]

/-- Loaders that answer references alike answer any row of them alike. -/
theorem Alike.answers (h : Alike view r hrefs l l') (hview : view.Coherent)
    (hasked : ∀ href ∈ asked, href ∈ hrefs) :
    (Loader.files l').answers view r asked = (Loader.files l).answers view r asked := by
  induction asked generalizing l l' with
  | nil => rfl
  | cons href asked ih =>
    rw [List.forall_mem_cons] at hasked
    have hrest := ih (h.behind hview hasked.1) hasked.2
    have hfirst := h.load href hasked.1
    exact congrArg₂ List.cons hfirst hrest

/-- Behind references a loader of files is one from the same base directory. Its entries are those
of the loader before, and those that loads of the references made and answered with. -/
theorem after_files (l : FileLoader) (asked : List String) :
    ∃ l' : FileLoader, (Loader.files l).after view r asked = .files l' ∧ l'.baseDir = l.baseDir ∧
      ∀ c ∈ l'.cache, c ∈ l.cache ∨ ∃ href, l.Makes view r href c ∧
        (href, .ok c.template) ∈ asked.zip ((Loader.files l).answers view r asked) := by
  induction asked generalizing l with
  | nil => exact ⟨l, rfl, rfl, fun c hc => .inl hc⟩
  | cons href asked ih =>
    obtain ⟨l', hafter, hbase, hentries⟩ := ih (l.load view r href).2
    have hsame : (l.load view r href).2.baseDir = l.baseDir := baseDir_load
    refine ⟨l', hafter, hbase.trans hsame, fun c hc => ?_⟩
    rcases hentries c hc with hheld | ⟨other, hmakes, hin⟩
    · rcases load_entries hheld with hold | ⟨hmakes, hanswer⟩
      · exact .inl hold
      · refine .inr ⟨href, hmakes, ?_⟩
        rw [← hanswer]
        exact List.mem_cons_self
    · exact .inr ⟨other, (makes_congr hsame).mp hmakes, List.mem_cons_of_mem _ hin⟩

end FileLoader

end BraceTemplate
