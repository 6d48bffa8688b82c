import Mathlib.Logic.Relation
import BraceTemplate.Loader
import BraceTemplate.Proofs.Loading.Paths
import BraceTemplate.Proofs.Source.Nodes

/-!
Siblings: an include of `./name` stays in the directory of the template it stands in, and so do the
includes in there.
-/
namespace BraceTemplate

open Files

/-- Letters, digits, underscores, dots and dashes. -/
def isFileChar (c : Char) : Bool := Arguments.isNameChar c || c == '.' || c == '-'

/-- A plain file name; it does not start with a dot. -/
structure FileName where
  chars : List Char
  ne_nil : chars ≠ []
  no_dot : chars.head? ≠ some '.'
  plain : chars.all isFileChar = true

namespace FileName

theorem char_cases {g : FileName} {c : Char} (hc : c ∈ g.chars) :
    Arguments.isNameChar c = true ∨ c = '.' ∨ c = '-' := by
  have hplain := List.all_eq_true.mp g.plain c hc
  simpa [isFileChar, or_assoc] using hplain

theorem ne {g : FileName} {c d : Char} (hc : c ∈ g.chars)
    (hd : Arguments.isNameChar d = false ∧ d ≠ '.' ∧ d ≠ '-') : c ≠ d := by
  rcases g.char_cases hc with hname | rfl | rfl
  · exact Arguments.ne_of_isNameChar hname hd.1
  · exact hd.2.1.symm
  · exact hd.2.2.symm

theorem isPiece (g : FileName) : Path.IsPiece g.chars := by
  intro c hc
  have hslash : c ≠ '/' := ne hc (by decide)
  simp [Path.isSlash, hslash]

theorem not_void (g : FileName) : Path.isVoid g.chars = false := by
  have hdot : g.chars ≠ ['.'] := fun h => g.no_dot (by rw [h]; rfl)
  simp [Path.isVoid, g.ne_nil, hdot]

/-- The name behind `./`. -/
def besides (g : FileName) : List Char := '.' :: '/' :: g.chars

theorem path_char {g : FileName} {c : Char} (hc : c ∈ g.besides) :
    Delimiter.isQuote c = false ∧ c ≠ '\x7b' ∧ c ≠ '\x7d' ∧ c ≠ '\\' ∧ Text.isBlank c = false := by
  simp only [besides, List.mem_cons] at hc
  rcases hc with rfl | rfl | hc
  · decide
  · decide
  · have hblank : Text.isBlank c = false := by
      rcases g.char_cases hc with hname | rfl | rfl
      · exact Arguments.not_blank_of_isNameChar hname
      · rfl
      · rfl
    have hquote : c ≠ '"' ∧ c ≠ '\'' := ⟨ne hc (by decide), ne hc (by decide)⟩
    exact ⟨by simp [Delimiter.isQuote, hquote], ne hc (by decide), ne hc (by decide),
      ne hc (by decide), hblank⟩

/-- The path of an include of a sibling. -/
def reference (g : FileName) : Source.Reference where
  parts := [.text ⟨g.besides, List.cons_ne_nil _ _, fun _ hc => path_char hc⟩]
  nonempty := List.cons_ne_nil _ _
  alternating := List.isChain_singleton _

theorem print_reference (g : FileName) :
    g.reference.parts.flatMap Source.Part.print = g.besides := List.append_nil _

theorem resolveRelative_besides (g : FileName) (dir : List Char) :
    Path.resolveRelative dir g.besides = Path.trimSlashes dir ++ '/' :: g.chars := by
  rw [Path.resolveRelative, besides, Path.resolveFrom]
  obtain ⟨c, cs, hc⟩ := List.exists_cons_of_ne_nil g.ne_nil
  have hdot : c ≠ '.' := by
    have := g.no_dot
    rw [hc] at this
    simpa using this
  rw [hc]
  unfold Path.resolveFrom
  split
  · simp_all
  · simp_all
  · rfl

end FileName

namespace FileLoader

variable {l : FileLoader} {r : Registry}

/-- The template at a path has the node of a sibling loaded from the next path, wherever the node
stands in it. -/
def Includes (l : FileLoader) (r : Registry) (path : List Char) (g : FileName)
    (next : List Char) : Prop :=
  ∃ href, l.resolve href = next ∧ ∀ d : Draft,
    outcome (Draft.node ⟨r, ((Path.directory? path).map String.ofList).map slashed⟩
      (Source.directive "include" g.besides) false) d = (.ok [], d.add (.include [.text href]))

/-- A template is reached from another one by includes of siblings. -/
def Reaches (l : FileLoader) (r : Registry) : List Char → List Char → Prop :=
  Relation.ReflTransGen fun path next => ∃ g, Includes l r path g next

theorem outcome_sibling {ctx : CompileContext} {home : List Char}
    (hinclude : ctx.registry.find? "include" = some (.directive .include))
    (hhome : ctx.dir = some home) (g : FileName) (d : Draft) :
    outcome (Draft.node ctx (Source.directive "include" g.besides) false) d =
      (.ok [], d.add (.include [.text (.ofList (Path.trimSlashes home ++ '/' :: g.chars))])) := by
  have hanchor : Arguments.anchor ctx.dir (g.reference.parts.map (Source.Part.part d.mode)) =
      [.text (.ofList (Path.trimSlashes home ++ '/' :: g.chars))] := by
    have hself : Path.isRelativeToSelf g.besides = true := rfl
    simp [FileName.reference, Source.Part.part, Arguments.anchor, hhome, hself,
      g.resolveRelative_besides]
  have hrun : outcome (Draft.node ctx _ false) d = _ :=
    Draft.outcome_includeNode hinclude g.reference
  rwa [g.print_reference, hanchor] at hrun

theorem includes_iff (hinclude : r.find? "include" = some (.directive .include))
    {path home : List Char} (hhome : Path.directory? path = some home) (hslash : '\\' ∉ home)
    {g : FileName} {next : List Char} :
    l.Includes r path g next ↔
      l.resolve (.ofList (Path.trimSlashes home ++ '/' :: g.chars)) = next := by
  have hslashed : slashed (.ofList home) = home := by
    have hkept : ∀ c ∈ home, (if c = '\\' then '/' else c) = id c := by
      intro c hc
      refine if_neg ?_
      rintro rfl
      exact hslash hc
    rw [slashed, String.toList_ofList, List.map_congr_left hkept, List.map_id]
  have hnode (d : Draft) : outcome (Draft.node
      ⟨r, ((Path.directory? path).map String.ofList).map slashed⟩
      (Source.directive "include" g.besides) false) d = _ :=
    outcome_sibling hinclude (by rw [hhome, Option.map_some, Option.map_some, hslashed]) g d
  constructor
  · rintro ⟨href, rfl, hrun⟩
    have hsame := (hnode .start).symm.trans (hrun .start)
    simp only [Draft.add, Draft.start, Prod.mk.injEq, Draft.mk.injEq, List.cons.injEq,
      Instruction.include.injEq, IncludePart.text.injEq] at hsame
    rw [hsame.2.1.1.1]
  · intro hnext
    exact ⟨_, hnext, hnode⟩

/-- A path that no base is put in front of. -/
def Fixed (l : FileLoader) (path : List Char) : Prop :=
  l.baseDir = none ∨ Path.isAbsolute path = true

theorem resolve_of_fixed {path : List Char} (h : l.Fixed path) :
    l.resolve (.ofList path) = path := by
  unfold resolve
  rw [String.toList_ofList]
  rcases h with h | h
  · rw [h]
  · cases l.baseDir with
    | none => rfl
    | some base => exact if_pos h

/-- The references whose files lie in a directory that no base is put in front of again: there is no
base directory, or the directory of the reference or the base directory is absolute. -/
def Rooted (l : FileLoader) (dir : List Char) : Prop :=
  l.Fixed dir ∨ ∃ base, l.baseDir = some base ∧ Path.isAbsolute base.toList = true ∧
    '\\' ∉ base.toList

theorem resolve_below {dir : List Char} (hdir : dir ≠ []) (hslash : '\\' ∉ dir)
    (hrooted : l.Rooted dir) (name : List Char) :
    ∃ below, below ≠ [] ∧ '\\' ∉ below ∧ l.Fixed below ∧
      l.resolve (.ofList (dir ++ '/' :: name)) = below ++ '/' :: name := by
  rcases hrooted with hfixed | ⟨base, hbase, habsolute, hback⟩
  · have hbelow : l.Fixed (dir ++ '/' :: name) := by
      unfold Fixed
      rw [Path.isAbsolute_below hdir]
      exact hfixed
    exact ⟨dir, hdir, hslash, hfixed, resolve_of_fixed hbelow⟩
  · have hroot : Path.isAbsolute (Path.join base.toList dir) = true :=
      Path.isAbsolute_join habsolute
    refine ⟨Path.join base.toList dir, ?_, ?_, .inr hroot, ?_⟩
    · intro hnil
      rw [hnil] at hroot
      cases hroot
    · intro hmem
      rcases Path.mem_join hmem with h | h | h
      · exact hback h
      · cases h
      · exact hslash h
    · rw [resolve, hbase, String.toList_ofList]
      exact Path.join_below hdir name

/-- What is reached from a file through its siblings stays in its directory. -/
theorem siblings_found {dir name : List Char}
    (hinclude : r.find? "include" = some (.directive .include))
    (hdir : dir ≠ []) (hslash : '\\' ∉ dir) (hname : Path.IsPiece name)
    (hvoid : Path.isVoid name = false)
    (hrooted : l.Rooted dir) :
    ∃ home, Path.directory? (l.resolve (.ofList (dir ++ '/' :: name))) = some home ∧
      ∀ path, l.Reaches r (l.resolve (.ofList (dir ++ '/' :: name))) path →
        ∀ g next, l.Includes r path g next ↔ next = Path.join home g.chars := by
  obtain ⟨below, hne, hbelow, hfixed, hresolve⟩ := resolve_below hdir hslash hrooted name
  have hhome : Path.directory? (l.resolve (.ofList (dir ++ '/' :: name))) =
      some (Path.tidy below) := by
    rw [hresolve, Path.directory?, Path.parent?_below hne hname hvoid, Option.filter_some,
      if_pos (by simpa using Path.tidy_ne_nil hne)]
  have hback : '\\' ∉ Path.tidy below := fun h => hbelow ((Path.tidy_prefix below).subset h)
  have hstep {path : List Char} (hpath : Path.directory? path = some (Path.tidy below))
      (g : FileName) (next : List Char) :
      l.Includes r path g next ↔ next = Path.join (Path.tidy below) g.chars := by
    have hfixed : l.Fixed (Path.join (Path.tidy below) g.chars) :=
      hfixed.imp_right fun h => Path.isAbsolute_join (Path.isAbsolute_tidy h)
    rw [includes_iff hinclude hpath hback, ← Path.join_tidy hne g.isPiece,
      resolve_of_fixed hfixed, eq_comm]
  refine ⟨Path.tidy below, hhome, fun path hreach => hstep ?_⟩
  induction hreach with
  | refl => exact hhome
  | tail _ hnext ih =>
    obtain ⟨g, hg⟩ := hnext
    rw [(hstep ih g _).mp hg]
    exact Path.directory?_join hne g.isPiece g.not_void

def part : FileName := ⟨"part.html".toList, by decide, by decide, by decide⟩

/-- A part beside a page, below an absolute base directory. -/
theorem siblings_found_page :
    let l : FileLoader := ⟨some "/site", []⟩
    l.Includes .builtin "/site/pages/index.html".toList part
      "/site/pages/part.html".toList := by
  obtain ⟨home, hhome, hnext⟩ := @siblings_found ⟨some "/site", []⟩ .builtin "pages".toList
    "index.html".toList rfl (by decide) (by decide) (by decide) (by decide)
    (.inr ⟨"/site", rfl, by decide, by decide⟩)
  have hpages : home = "/site/pages".toList := Option.some.inj (hhome.symm.trans (by decide))
  subst hpages
  exact (hnext _ .refl _ _).mpr (by decide)

/-- A relative base directory is put in front of the directory of the page a second time. -/
theorem sibling_missed :
    let l : FileLoader := ⟨some "site", []⟩
    l.resolve "pages/index.html" = "site/pages/index.html".toList ∧
      l.Includes .builtin "site/pages/index.html".toList part "site/site/pages/part.html".toList ∧
      ¬l.Includes .builtin "site/pages/index.html".toList part "site/pages/part.html".toList := by
  have hhome : Path.directory? "site/pages/index.html".toList = some "site/pages".toList := by
    decide +kernel
  refine ⟨by decide, (includes_iff rfl hhome (by decide)).mpr (by decide),
    fun h => ?_⟩
  exact absurd ((includes_iff rfl hhome (by decide)).mp h) (by decide)

end FileLoader

end BraceTemplate
