import BraceTemplate.Engine
import BraceTemplate.Files.Tree
import BraceTemplate.Proofs.Render.Failing

/-!
Failures: where nothing is included, rendering fails with errors of execution only, unless there is
a loop at a depth that no frame can count at, and resolving variables that are put together from
keys and total filters does not fail at all.
-/
namespace BraceTemplate

def Error.IsExecution (e : Error) : Prop := ∃ fault, e = .execution fault

/-- What rendering may stop with: an error of execution, and a crash if some loop is too deep. -/
def Error.Expected (deep : Prop) (e : Error) : Prop := e.IsExecution ∨ e = .crashed ∧ deep

/-! Tables of filters. -/

namespace FilterTable

/-- Filters that fail with errors of execution only. -/
def FailsInExecution (t : FilterTable) : Prop := t.FailsOnly Error.IsExecution

/-- The tables that a host can come to by registering filters. -/
inductive Grown (speller : Text.Speller) : FilterTable → Prop where
  | builtin : Grown speller (builtin speller)
  | register {t : FilterTable} (name : String) (filter : Filter) (h : Grown speller t) :
    Grown speller (t.register name filter).2

variable {speller : Text.Speller} {t : FilterTable} {name : String} {filter : Filter}

/-- A registered filter is found by its own name, and all others as before. -/
theorem find?_register (t : FilterTable) (name other : String) (filter : Filter) :
    (t.register name filter).2.find? other =
      if t.find? name = none ∧ other = name then some filter else t.find? other := by
  unfold register
  by_cases htaken : Dict.contains t.filters name = true
  · have hfound : t.find? name ≠ none := Option.isSome_iff_ne_none.mp htaken
    rw [if_pos htaken, if_neg fun h => hfound h.1]
  · have hfree : t.find? name = none := by simpa [Dict.contains, find?] using htaken
    rw [if_neg htaken]
    by_cases hname : other = name
    · subst hname
      rw [if_pos ⟨hfree, rfl⟩]
      exact Dict.find?_insert_self t.filters other filter
    · rw [if_neg fun h => hname h.2]
      exact Dict.find?_insert_of_ne t.filters filter hname

/-- Built-in filters keep their names. -/
theorem Grown.find?_eq (h : Grown speller t)
    (hfind : (FilterTable.builtin speller).find? name = some filter) :
    t.find? name = some filter := by
  induction h with
  | builtin => exact hfind
  | register other added h ih =>
    rw [find?_register, if_neg, ih]
    rintro ⟨hfree, rfl⟩
    rw [ih] at hfree
    cases hfree

/-- The only built-in filter that fails is `abs`. -/
theorem builtin_cases (h : (builtin speller).find? name = some filter) :
    (name = "abs" ∧ filter = fun v => (Filter.abs v).mapError .execution) ∨
      ∃ f : Value → Value, filter = fun v => .ok (f v) := by
  rcases List.mem_cons.mp (Dict.mem_of_find? h) with habs | htotal
  · exact .inl (Prod.mk.inj habs)
  · obtain ⟨⟨_, f⟩, -, heq⟩ := List.mem_map.mp htotal
    exact .inr ⟨f, (Prod.mk.inj heq).2.symm⟩

theorem FailsInExecution.register (h : t.FailsInExecution)
    (hfilter : ∀ v e, filter v = .error e → e.IsExecution) :
    (t.register name filter).2.FailsInExecution := by
  intro other found hfind
  rw [find?_register] at hfind
  split at hfind
  · cases hfind
    exact hfilter
  · exact h other found hfind

end FilterTable

/-! Variables that can be resolved whatever is bound. -/

section Variables

variable (speller : Text.Speller)

mutual

/-- A variable of keys and such variables, with built-in filters other than `abs`. -/
def Var.Safe : Var → Prop
  | ⟨path, filters⟩ =>
    path.Safe ∧ ∀ name ∈ filters, name ≠ "abs" ∧ ((FilterTable.builtin speller).find? name).isSome

def Path.Safe : Path → Prop
  | ⟨_, segments⟩ => segmentsSafe segments

def segmentsSafe : List Segment → Prop
  | [] => True
  | segment :: rest => segment.Safe ∧ segmentsSafe rest

def Segment.Safe : Segment → Prop
  | .key _ => True
  | .nested v => v.Safe
  | .index _ => False

end

end Variables

section Safe

variable {speller : Text.Speller} {s : Scope}

theorem applyAll_safe (hs : s.filters.Grown speller) (names : List String)
    (h : ∀ name ∈ names, name ≠ "abs" ∧ ((FilterTable.builtin speller).find? name).isSome)
    (v : Value) : ∃ w, s.filters.applyAll s.strict names v = pure w := by
  induction names generalizing v with
  | nil => exact ⟨v, rfl⟩
  | cons name names ih =>
    obtain ⟨⟨hne, hbuiltin⟩, hnames⟩ := List.forall_mem_cons.mp h
    obtain ⟨filter, hfilter⟩ := Option.isSome_iff_exists.mp hbuiltin
    rcases FilterTable.builtin_cases hfilter with ⟨habs, -⟩ | ⟨f, rfl⟩
    · exact absurd habs hne
    · have happly : s.filters.apply s.strict name v = pure (f v) := by
        simp only [FilterTable.apply, hs.find?_eq hfilter]
        rfl
      obtain ⟨w, hw⟩ := ih hnames (f v)
      refine ⟨w, ?_⟩
      rw [FilterTable.applyAll, List.foldlM_cons, happly, pure_bind]
      exact hw

mutual

theorem Var.resolve_safe (hs : s.filters.Grown speller) :
    (v : Var) → v.Safe speller → ∃ w, v.resolve s = pure w
  | ⟨path, filters⟩, h => by
    obtain ⟨v, hv⟩ := path.read_safe hs h.1
    obtain ⟨w, hw⟩ := applyAll_safe hs filters h.2 v
    exact ⟨w, by rw [Var.resolve, hv, pure_bind, hw]⟩

theorem Path.read_safe (hs : s.filters.Grown speller) :
    (p : Path) → p.Safe speller → ∃ w, p.read s = pure w
  | ⟨_, []⟩, _ => ⟨.null, by rw [Path.read]⟩
  | ⟨mode, first :: rest⟩, h => by
    obtain ⟨name, hname⟩ := first.name_safe hs h.1
    rw [Path.read, hname, pure_bind]
    cases s.root? mode name with
    | none => exact ⟨.null, rfl⟩
    | some v => exact readBelow_safe hs rest h.2 v

theorem readBelow_safe (hs : s.filters.Grown speller) : (segments : List Segment) →
    segmentsSafe speller segments → (v : Value) → ∃ w, readBelow s segments v = pure w
  | [], _, v => ⟨v, by rw [readBelow]⟩
  | segment :: rest, h, v => by
    obtain ⟨name, hname⟩ := segment.name_safe hs h.1
    rw [readBelow, hname, pure_bind]
    cases v.lookup? name with
    | none => exact ⟨.null, rfl⟩
    | some w => exact readBelow_safe hs rest h.2 w

theorem Segment.name_safe (hs : s.filters.Grown speller) :
    (segment : Segment) → segment.Safe speller → ∃ name, segment.name s = pure name
  | .key name, _ => ⟨name, by rw [Segment.name]⟩
  | .nested v, h => by
    obtain ⟨w, hw⟩ := v.resolve_safe hs h
    exact ⟨w.display, by rw [Segment.name, hw, pure_bind]⟩

end

end Safe

/-! Rendering. -/

/-- An instruction other than an include, and no loop that is too deep, unless there is one. -/
structure Instruction.Plain (deep : Prop) (i : Instruction) : Prop where
  includes : ∀ parts, i ≠ .include parts
  counted : ∀ loop, i = .beginFor loop → loop.depth < Frame.capacity ∨ deep

open Render

theorem FilterTable.FailsInExecution.failing {env : RenderEnv} {deep : Prop}
    (h : env.filters.FailsInExecution) : Failing env (Instruction.Plain deep)
      (Error.Expected deep) (Supplied env (Instruction.Plain deep) (Error.Expected deep)) where
  fault f := .inl ⟨f, rfl⟩
  filters name filter hfind v e he := .inl (h name filter hfind v e he)
  counted loop hloop := (hloop.counted loop rfl).imp_right fun hdeep => .inr ⟨rfl, hdeep⟩
  lasting := Supplied.lasting

end BraceTemplate
