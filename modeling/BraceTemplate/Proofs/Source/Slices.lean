import Mathlib.Data.List.Forall2
import BraceTemplate.Proofs.Source.PhraseReading
import BraceTemplate.Proofs.Source.Piece

/-!
The slices of an include path: text, and variables in braces. A path has one list of slices at most,
and it is compiled exactly if it has one whose variables can be read.
-/
namespace BraceTemplate

namespace Delimiter

/-- A brace is closed by the first one behind paired text. -/
theorem exists_paired {d : Nat} {cs : List Char} (h : (closeBrace? (d + 1) cs).isSome) :
    ∃ inner rest, cs = inner ++ '\x7d' :: rest ∧ Paired inner ∧
      (d ≠ 0 → (closeBrace? d rest).isSome) := by
  induction hn : cs.length using Nat.strongRecOn generalizing d cs with
  | ind n ih =>
    cases cs with
    | nil => cases h
    | cons c cs =>
      have hlength : cs.length + 1 = n := hn
      by_cases hclose : c = '\x7d'
      · subst hclose
        refine ⟨[], cs, rfl, .nil, fun hd => ?_⟩
        simpa [closeBrace?, hd] using h
      by_cases hopen : c = '\x7b'
      · -- the brace that opens here is closed before the one around it
        subst hopen
        have hinside : (closeBrace? (d + 1 + 1) cs).isSome := by simpa [closeBrace?] using h
        obtain ⟨inner, rest, rfl, hinner, hrest⟩ := ih _ (by omega) hinside rfl
        rw [List.length_append, List.length_cons] at hlength
        obtain ⟨more, rest, rfl, hmore, hd⟩ := ih _ (by omega) (hrest (by omega)) rfl
        exact ⟨'\x7b' :: (inner ++ '\x7d' :: more), rest, by simp, .braces hinner hmore, hd⟩
      · have hbehind : (closeBrace? (d + 1) cs).isSome := by
          simpa [closeBrace?, hclose, hopen] using h
        obtain ⟨inner, rest, rfl, hinner, hd⟩ := ih _ (by omega) hbehind rfl
        exact ⟨c :: inner, rest, rfl, .char hopen hclose hinner, hd⟩

end Delimiter

namespace Source

/-! Cutting a path before its variables. -/

section Cutting

variable {mode : Mode}

/-- A brace starts a variable together with the dollar sign behind it. -/
theorem starts_no_variable {cs : List Char} (hcs : ∀ c ∈ cs, c ≠ '\x7b') :
    ¬['\x7b', '$'] <:+: cs :=
  fun h => hcs '\x7b' (h.subset List.mem_cons_self) rfl

/-- The character in front is text unless it starts a variable. -/
theorem cutVariable_cons {c : Char} {cs : List Char} (h : ¬['\x7b', '$'] <+: c :: cs) :
    Arguments.cutVariable (c :: cs) =
      (c :: (Arguments.cutVariable cs).1, (Arguments.cutVariable cs).2) := by
  rw [Arguments.cutVariable]
  rintro more rfl rfl
  exact h ⟨more, rfl⟩

theorem cutVariable_text {cs : List Char} (hcs : ¬['\x7b', '$'] <:+: cs) :
    Arguments.cutVariable cs = (cs, []) := by
  induction cs with
  | nil => rfl
  | cons c cs ih =>
    rw [List.infix_cons_iff, not_or] at hcs
    rw [cutVariable_cons hcs.1, ih hcs.2]

theorem cutVariable_append {cs : List Char} (rest : List Char) (hcs : ¬['\x7b', '$'] <:+: cs) :
    Arguments.cutVariable (cs ++ '\x7b' :: '$' :: rest) = (cs, '\x7b' :: '$' :: rest) := by
  induction cs with
  | nil => simp [Arguments.cutVariable]
  | cons c cs ih =>
    rw [List.infix_cons_iff, not_or] at hcs
    have hstart : ¬['\x7b', '$'] <+: c :: (cs ++ '\x7b' :: '$' :: rest) := by
      cases cs with
      | nil => simp [List.cons_prefix_cons]
      | cons d cs => simpa [List.cons_prefix_cons] using hcs.1
    rw [List.cons_append, cutVariable_cons hstart, ih hcs.2]

/-- A variable with its braces is read as the variable inside of them. -/
theorem parse_node {inner : List Char} (hhead : inner.head? = some '$')
    (hpaired : Delimiter.Paired inner) : Var.parse mode (node inner) = Var.parse mode inner :=
  variableOf_bare (bare_braced hhead hpaired) maxExprNesting

theorem cutVariable_node {cs inner : List Char} (rest : List Char)
    (hcs : ¬['\x7b', '$'] <:+: cs) (hhead : inner.head? = some '$') :
    Arguments.cutVariable (cs ++ (node inner ++ rest)) = (cs, node inner ++ rest) := by
  obtain ⟨name, rfl⟩ := List.head?_eq_some_iff.mp hhead
  rw [node, List.cons_append, List.cons_append, List.cons_append]
  exact cutVariable_append _ hcs

theorem closeBrace?_node {inner : List Char} (hpaired : Delimiter.Paired inner)
    (rest : List Char) :
    Delimiter.closeBrace? 0 (node inner ++ rest) = some (node inner, rest) := by
  rw [node, List.cons_append, List.append_assoc, List.singleton_append]
  exact hpaired.closeBrace?_node rest

/-- One variable of a path with the text before it. -/
theorem pathParts_node {args cs inner rest : List Char} {fuel : Nat}
    (hcs : ¬['\x7b', '$'] <:+: cs) (hhead : inner.head? = some '$')
    (hpaired : Delimiter.Paired inner) :
    Arguments.pathParts mode args (fuel + 1) (cs ++ (node inner ++ rest)) = (do
      let v ← Var.parse mode (node inner)
      return (if cs = [] then [] else [.text (.ofList cs)]) ++
        .var v :: (← Arguments.pathParts mode args fuel rest)) := by
  have hne : node inner ++ rest ≠ [] := by simp [node]
  simp only [Arguments.pathParts, cutVariable_node rest hcs hhead, hne, if_false,
    closeBrace?_node hpaired]

end Cutting

/-- A slice of a path. A variable is given by what stands inside of its braces. -/
inductive Slice where
  | text (cs : List Char)
  | braced (inner : List Char)

namespace Slice

def source : Slice → List Char
  | text cs => cs
  | braced inner => node inner

def isText : Slice → Bool
  | text _ => true
  | braced _ => false

/-- Text is not empty and starts no variable; a variable ends at the brace that closes its first
one. -/
def Formed : Slice → Prop
  | text cs => cs ≠ [] ∧ ¬['\x7b', '$'] <:+: cs
  | braced inner => inner.head? = some '$' ∧ Delimiter.Paired inner

/-- Text is kept as it is, and a variable is read with its braces. -/
inductive Reads (mode : Mode) : Slice → IncludePart → Prop where
  | text (cs : List Char) : Reads mode (text cs) (.text (.ofList cs))
  | braced {inner : List Char} {v : Var} (h : Var.parse mode (node inner) = .ok v) :
    Reads mode (braced inner) (.var v)

/-- The slice of text in front of a variable, if there is any text. -/
def lead (cs : List Char) : List Slice := if cs = [] then [] else [text cs]

theorem lead_of_ne {cs : List Char} (h : cs ≠ []) : lead cs = [text cs] := if_neg h

end Slice

/-- A path put together from slices, of which no two texts are adjacent. -/
structure Sliced (path : List Char) (slices : List Slice) : Prop where
  joined : slices.flatMap Slice.source = path
  formed : ∀ s ∈ slices, s.Formed
  apart : slices.IsChain fun s t => ¬(s.isText = true ∧ t.isText = true)

namespace Sliced

variable {cs inner path rest : List Char} {slices slices' : List Slice}

theorem nil : Sliced [] [] := ⟨rfl, List.forall_mem_nil _, .nil⟩

theorem braced (hhead : inner.head? = some '$') (hpaired : Delimiter.Paired inner)
    (h : Sliced rest slices) : Sliced (node inner ++ rest) (.braced inner :: slices) := by
  obtain ⟨rfl, hformed, hapart⟩ := h
  refine ⟨rfl, List.forall_mem_cons.mpr ⟨⟨hhead, hpaired⟩, hformed⟩, ?_⟩
  exact hapart.cons fun t _ htext => nomatch htext.1

theorem text (hcs : ¬['\x7b', '$'] <:+: cs) (h : Sliced rest slices)
    (hhead : ∀ s ∈ slices.head?, s.isText = false) :
    Sliced (cs ++ rest) (Slice.lead cs ++ slices) := by
  by_cases hne : cs = []
  · subst hne
    exact h
  · obtain ⟨rfl, hformed, hapart⟩ := h
    rw [Slice.lead_of_ne hne]
    refine ⟨rfl, List.forall_mem_cons.mpr ⟨⟨hne, hcs⟩, hformed⟩, ?_⟩
    refine hapart.cons fun t ht htext => ?_
    rw [hhead t ht] at htext
    exact nomatch htext.2

/-- A path starts with text, and it ends there or goes on with a variable. -/
theorem cases (h : Sliced path slices) :
    ∃ cs more, slices = Slice.lead cs ++ more ∧ ¬['\x7b', '$'] <:+: cs ∧
      (path = cs ∧ more = [] ∨ ∃ inner rest behind, path = cs ++ (node inner ++ rest) ∧
        more = .braced inner :: behind ∧ inner.head? = some '$' ∧ Delimiter.Paired inner ∧
        Sliced rest behind) := by
  obtain ⟨rfl, hformed, hapart⟩ := h
  have hempty : ¬['\x7b', '$'] <:+: ([] : List Char) := by simp
  match slices with
  | [] => exact ⟨[], [], rfl, hempty, .inl ⟨rfl, rfl⟩⟩
  | .braced inner :: behind =>
    obtain ⟨⟨hhead, hpaired⟩, hformed⟩ := List.forall_mem_cons.mp hformed
    exact ⟨[], _, rfl, hempty, .inr ⟨inner, _, behind, rfl, rfl, hhead, hpaired,
      rfl, hformed, hapart.tail⟩⟩
  | [.text cs] =>
    obtain ⟨hne, hcs⟩ := hformed _ List.mem_cons_self
    exact ⟨cs, [], by rw [Slice.lead_of_ne hne, List.append_nil], hcs,
      .inl ⟨List.append_nil cs, rfl⟩⟩
  | .text cs :: .text ds :: behind =>
    rw [List.isChain_cons_cons] at hapart
    exact absurd ⟨rfl, rfl⟩ hapart.1
  | .text cs :: .braced inner :: behind =>
    obtain ⟨⟨hne, hcs⟩, hformed⟩ := List.forall_mem_cons.mp hformed
    obtain ⟨⟨hhead, hpaired⟩, hformed⟩ := List.forall_mem_cons.mp hformed
    refine ⟨cs, .braced inner :: behind, by rw [Slice.lead_of_ne hne]; rfl, hcs, .inr ?_⟩
    exact ⟨inner, _, behind, rfl, rfl, hhead, hpaired, rfl, hformed, hapart.tail.tail⟩

/-- A path is put together in one way only. -/
theorem unique (h : Sliced path slices) (h' : Sliced path slices') : slices = slices' := by
  induction hn : path.length using Nat.strongRecOn generalizing path slices slices' with
  | ind n ih =>
    obtain ⟨cs, more, rfl, hcs, hmore⟩ := h.cases
    obtain ⟨cs', more', rfl, hcs', hmore'⟩ := h'.cases
    rcases hmore with ⟨rfl, rfl⟩ | ⟨inner, rest, behind, rfl, rfl, hhead, hpaired, hrest⟩
    · have hcut := cutVariable_text hcs
      rcases hmore' with ⟨rfl, rfl⟩ | ⟨inner, rest, behind, rfl, rfl, hhead, -, -⟩
      · rfl
      · rw [cutVariable_node rest hcs' hhead] at hcut
        exact absurd (Prod.mk.inj hcut).2 (List.cons_ne_nil _ _)
    · have hcut := cutVariable_node rest hcs hhead
      rcases hmore' with ⟨rfl, rfl⟩ | ⟨inner', rest', behind', hpath, rfl, hhead', hpaired', hrest'⟩
      · rw [cutVariable_text hcs'] at hcut
        exact absurd (Prod.mk.inj hcut).2.symm (List.cons_ne_nil _ _)
      · rw [hpath, cutVariable_node rest' hcs' hhead'] at hcut
        obtain ⟨rfl, hbraced⟩ := Prod.mk.inj hcut
        have hclose := closeBrace?_node hpaired rest
        rw [← hbraced, closeBrace?_node hpaired'] at hclose
        obtain ⟨hinner, rfl⟩ := Prod.mk.inj (Option.some.inj hclose)
        obtain rfl : inner' = inner := by simpa [node] using hinner
        have hlength : rest'.length < n := by
          rw [← hn]
          simp only [List.length_append, node, List.length_cons]
          omega
        rw [ih _ hlength hrest hrest' rfl]

end Sliced

/-! Reading the slices. -/

namespace Slice

variable {mode : Mode}

/-- The part of an include for the text in front of a variable. -/
theorem forall₂_reads_lead {cs : List Char} {slices : List Slice} {parts : List IncludePart} :
    List.Forall₂ (Reads mode) (lead cs ++ slices) parts ↔
      ∃ more, parts = (if cs = [] then [] else [.text (.ofList cs)]) ++ more ∧
        List.Forall₂ (Reads mode) slices more := by
  by_cases hcs : cs = []
  · subst hcs
    exact ⟨fun h => ⟨parts, rfl, h⟩, fun ⟨_, heq, h⟩ => heq ▸ h⟩
  · rw [lead_of_ne hcs, if_neg hcs]
    constructor
    · rintro (_ | ⟨⟨⟩, h⟩)
      exact ⟨_, rfl, h⟩
    · rintro ⟨more, rfl, h⟩
      exact .cons (.text cs) h

end Slice

section Path

variable {mode : Mode} {args cs path : List Char} {fuel : Nat} {parts : List IncludePart}

/-- Text up to the first variable, which is closed or not. -/
theorem path_cases (path : List Char) :
    ∃ cs, ¬['\x7b', '$'] <:+: cs ∧ (path = cs ∨
      (∃ inner rest, path = cs ++ (node inner ++ rest) ∧ inner.head? = some '$' ∧
        Delimiter.Paired inner) ∨
      ∃ more, path = cs ++ '\x7b' :: '$' :: more ∧
        Delimiter.closeBrace? 0 ('\x7b' :: '$' :: more) = none) := by
  induction path with
  | nil => exact ⟨[], by simp, .inl rfl⟩
  | cons c path ih =>
    by_cases hstart : ['\x7b', '$'] <+: c :: path
    · obtain ⟨more, hmore⟩ := hstart
      have hempty : ¬['\x7b', '$'] <:+: ([] : List Char) := by simp
      refine ⟨[], hempty, .inr ?_⟩
      rw [← hmore]
      cases hclose : Delimiter.closeBrace? 0 ('\x7b' :: '$' :: more) with
      | none => exact .inr ⟨more, rfl, hclose⟩
      | some r =>
        have hsome : (Delimiter.closeBrace? (0 + 1) ('$' :: more)).isSome := by
          simpa [Delimiter.closeBrace?] using congrArg Option.isSome hclose
        obtain ⟨inner, rest, hinner, hpaired, -⟩ := Delimiter.exists_paired hsome
        have hhead : inner.head? = some '$' := by
          cases inner with
          | nil => exact absurd (List.cons.inj hinner).1 (by decide)
          | cons c inner => exact congrArg some (List.cons.inj hinner).1.symm
        exact .inl ⟨inner, rest, by simp [node, hinner], hhead, hpaired⟩
    · obtain ⟨cs, hcs, hrest⟩ := ih
      refine ⟨c :: cs, ?_, ?_⟩
      · rw [List.infix_cons_iff, not_or]
        refine ⟨fun hprefix => hstart ?_, hcs⟩
        rcases hrest with rfl | ⟨inner, rest, rfl, -, -⟩ | ⟨more, rfl, -⟩
        · exact hprefix
        · exact hprefix.trans (List.prefix_append _ _)
        · exact hprefix.trans (List.prefix_append _ _)
      · rcases hrest with rfl | ⟨inner, rest, rfl, hinner⟩ | ⟨more, rfl, hclose⟩
        · exact .inl rfl
        · exact .inr (.inl ⟨inner, rest, rfl, hinner⟩)
        · exact .inr (.inr ⟨more, rfl, hclose⟩)

theorem pathParts_text (hcs : ¬['\x7b', '$'] <:+: cs) :
    Arguments.pathParts mode args (fuel + 1) cs =
      .ok (if cs = [] then [] else [.text (.ofList cs)]) := by
  simp [Arguments.pathParts, cutVariable_text hcs]

theorem pathParts_unclosed {more : List Char} (hcs : ¬['\x7b', '$'] <:+: cs)
    (hclose : Delimiter.closeBrace? 0 ('\x7b' :: '$' :: more) = none) :
    Arguments.pathParts mode args (fuel + 1) (cs ++ '\x7b' :: '$' :: more) =
      .error (.unclosedIncludeVariable (.ofList args)) := by
  simp [Arguments.pathParts, cutVariable_append more hcs, hclose]

/-- The parts of a path are its slices, in order, with every variable read. -/
theorem pathParts_eq_ok_iff (hfuel : path.length < fuel) :
    Arguments.pathParts mode args fuel path = .ok parts ↔
      ∃ slices, Sliced path slices ∧ List.Forall₂ (Slice.Reads mode) slices parts := by
  induction fuel generalizing path parts with
  | zero => exact absurd hfuel (Nat.not_lt_zero _)
  | succ fuel ih =>
    constructor
    · intro h
      obtain ⟨cs, hcs, hpath⟩ := path_cases path
      rcases hpath with rfl | ⟨inner, rest, rfl, hhead, hpaired⟩ | ⟨more, rfl, hclose⟩
      · rw [pathParts_text hcs] at h
        cases h
        have hsliced := Sliced.nil.text hcs (by simp)
        rw [List.append_nil] at hsliced
        exact ⟨_, hsliced, Slice.forall₂_reads_lead.mpr ⟨[], (List.append_nil _).symm, .nil⟩⟩
      · rw [pathParts_node hcs hhead hpaired] at h
        obtain ⟨v, hv, h⟩ := bind_eq_ok.mp h
        obtain ⟨more, hmore, h⟩ := bind_eq_ok.mp h
        cases h
        obtain ⟨slices, hslices, hreads⟩ := (ih (by simp [node] at hfuel; omega)).mp hmore
        exact ⟨_, (hslices.braced hhead hpaired).text hcs (by simp [Slice.isText]),
          Slice.forall₂_reads_lead.mpr ⟨_, rfl, .cons (.braced hv) hreads⟩⟩
      · rw [pathParts_unclosed hcs hclose] at h
        cases h
    · rintro ⟨slices, hslices, hall⟩
      obtain ⟨cs, more, rfl, hcs, hmore⟩ := hslices.cases
      obtain ⟨parts, rfl, hreads⟩ := Slice.forall₂_reads_lead.mp hall
      rcases hmore with ⟨rfl, rfl⟩ | ⟨inner, rest, behind, rfl, rfl, hhead, hpaired, hrest⟩
      · cases hreads
        rw [pathParts_text hcs, List.append_nil]
      · obtain _ | ⟨hfirst, hreads⟩ := hreads
        obtain _ | hv := hfirst
        have hparts := (ih (by simp [node] at hfuel; omega)).mpr ⟨_, hrest, hreads⟩
        rw [pathParts_node hcs hhead hpaired, hv, ok_bind, hparts, ok_bind]
        rfl

end Path

/-! Includes. -/

/-- The path that the arguments of an include give. -/
def unquoted (args : List Char) : List Char := args.filter fun c => !Delimiter.isQuote c

/-- Without a directory nothing is resolved. -/
theorem anchor_none (parts : List IncludePart) : Arguments.anchor none parts = parts := by
  unfold Arguments.anchor
  split <;> rfl

theorem unquoted_eq {args : List Char} (h : ∀ c ∈ args, Delimiter.isQuote c = false) :
    unquoted args = args := by
  rw [unquoted, List.filter_eq_self]
  intro c hc
  rw [h c hc]
  rfl

theorem includePath_eq {mode : Mode} {args : List Char} (dir : Option (List Char))
    (hne : unquoted args ≠ []) : Arguments.includePath mode dir args =
      (Arguments.pathParts mode args ((unquoted args).length + 1) (unquoted args)).map
        fun parts => some (Arguments.anchor dir parts) := by
  have hpath : args.filter (fun c => !Delimiter.isQuote c) = unquoted args := rfl
  simp only [Arguments.includePath, hpath, if_neg hne]
  cases Arguments.pathParts mode args ((unquoted args).length + 1) (unquoted args) <;> rfl

/-- Slices that can be read are the parts of the path, with the first one resolved. -/
theorem Sliced.includePath {mode : Mode} {args : List Char} {slices : List Slice}
    {parts : List IncludePart} {dir : Option (List Char)} (h : Sliced (unquoted args) slices)
    (hne : unquoted args ≠ []) (hreads : List.Forall₂ (Slice.Reads mode) slices parts) :
    Arguments.includePath mode dir args = .ok (some (Arguments.anchor dir parts)) := by
  rw [includePath_eq dir hne, (pathParts_eq_ok_iff (Nat.lt_succ_self _)).mpr ⟨slices, h, hreads⟩]
  rfl

/-- Compiling an include leaves the draft as it is. -/
theorem outcome_undirected {registry : Registry} {args : List Char} (d : Draft)
    (hne : unquoted args ≠ []) :
    outcome (Draft.openDirective ⟨registry, none⟩ .include args) d =
      ((Arguments.pathParts d.mode args ((unquoted args).length + 1) (unquoted args)).map
        (fun parts => [.include parts]) |>.mapError (.syntaxError · none), d) := by
  rw [Draft.openDirective, outcome_bind_ok outcome_get]
  simp only [includePath_eq none hne, anchor_none]
  cases Arguments.pathParts d.mode args ((unquoted args).length + 1) (unquoted args) <;> rfl

/-- An include without a directory is compiled exactly if its path is a row of slices whose
variables can be read. The slices are unique, and its parts are the slices in their order. -/
theorem include_slices (registry : Registry) {args : List Char} (d : Draft)
    (hne : unquoted args ≠ []) :
    (∀ is d', outcome (Draft.openDirective ⟨registry, none⟩ .include args) d = (.ok is, d') ↔
      d' = d ∧ ∃ slices parts, Sliced (unquoted args) slices ∧
        List.Forall₂ (Slice.Reads d.mode) slices parts ∧ is = [.include parts]) ∧
    ∀ slices slices', Sliced (unquoted args) slices → Sliced (unquoted args) slices' →
      slices = slices' := by
  refine ⟨fun is d' => ?_, fun _ _ => Sliced.unique⟩
  have hparts (parts : List IncludePart) :
      Arguments.pathParts d.mode args ((unquoted args).length + 1) (unquoted args) = .ok parts ↔
        ∃ slices, Sliced (unquoted args) slices ∧
          List.Forall₂ (Slice.Reads d.mode) slices parts := pathParts_eq_ok_iff (Nat.lt_succ_self _)
  rw [outcome_undirected d hne]
  constructor
  · intro h
    obtain ⟨hok, rfl⟩ := Prod.mk.inj h
    cases hread : Arguments.pathParts d.mode args _ (unquoted args) with
    | error f =>
      rw [hread] at hok
      cases hok
    | ok parts =>
      rw [hread] at hok
      cases hok
      obtain ⟨slices, hslices, hreads⟩ := (hparts parts).mp hread
      exact ⟨rfl, slices, parts, hslices, hreads, rfl⟩
  · rintro ⟨rfl, slices, parts, hslices, hreads, rfl⟩
    rw [(hparts parts).mpr ⟨slices, hslices, hreads⟩]
    rfl

/-- A printed variable in braces is a slice, and it is read as the variable. -/
theorem Access.reads_slice (mode : Mode) {v : Access} (hclear : v.clear = true)
    (hnesting : v.nesting ≤ maxExprNesting) :
    Slice.Formed (.braced v.print) ∧ Slice.Reads mode (.braced v.print) (.var (v.var mode)) :=
  ⟨⟨v.head?_print, (v.matched hclear).paired⟩,
    .braced (v.variableOf_bare mode maxExprNesting hclear hnesting (bare_braced hclear))⟩

/-- A variable with another one in its path. -/
def themed : Access := .mk (.key ⟨['t'], rfl⟩) [.nested (.mk (.key ⟨['l'], rfl⟩) [] [])] []

def filtered : Access := .mk (.key ⟨['y'], rfl⟩) [] [⟨['n'], rfl⟩]

/-- Text that ends with a brace, and two variables side by side. -/
theorem include_slices_themed :
    let args := "'./\x7b\x7b$t.\x7b$l\x7d\x7d\x7b$y|n\x7d/page'".toList
    let slices : List Slice := [.text "./\x7b".toList, .braced themed.print,
      .braced filtered.print, .text "/page".toList]
    unquoted args ≠ [] ∧
      outcome (Draft.openDirective ⟨.builtin, none⟩ .include args) .start =
        (.ok [.include [.text "./\x7b", .var (themed.var .shared), .var (filtered.var .shared),
          .text "/page"]], .start) ∧
      Sliced (unquoted args) slices ∧
      ∀ slices', Sliced (unquoted args) slices' → slices' = slices := by
  intro args slices
  have hne : unquoted args ≠ [] := by decide
  obtain ⟨hthemed, hreadThemed⟩ := Access.reads_slice .shared (show themed.clear = true from rfl)
    (by decide)
  obtain ⟨hfiltered, hreadFiltered⟩ :=
    Access.reads_slice .shared (show filtered.clear = true from rfl) (by decide)
  have hsliced : Sliced (unquoted args) slices := by
    refine ⟨by decide, ?_, by decide⟩
    simp only [slices, List.forall_mem_cons]
    exact ⟨⟨by decide, by decide⟩, hthemed, hfiltered, ⟨by decide, by decide⟩,
      List.forall_mem_nil _⟩
  have hreads : List.Forall₂ (Slice.Reads Draft.start.mode) slices [.text "./\x7b",
      .var (themed.var .shared), .var (filtered.var .shared), .text "/page"] :=
    .cons (.text _) (.cons hreadThemed (.cons hreadFiltered (.cons (.text _) .nil)))
  obtain ⟨hcompiled, hunique⟩ := include_slices .builtin .start hne
  exact ⟨hne, (hcompiled _ _).mpr ⟨rfl, slices, _, hsliced, hreads, rfl⟩, hsliced,
    fun slices' h => hunique slices' slices h hsliced⟩

end Source
end BraceTemplate
