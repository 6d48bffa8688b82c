import Mathlib.Data.List.Induction
import BraceTemplate.Dict

/-!
Nesting of tags: which words of opening and closing tags are well nested, which leave names open,
and where a word stops being the front of a well-nested one. A stack of names tells all of these.
-/
namespace BraceTemplate

/-- What a node does to the nesting around it: it opens a name, or closes one. -/
inductive Tag where
  | opens (name : String)
  | closes (name : String)
  deriving DecidableEq, Repr

namespace Tag

/-- Each opening tag has a closing one of the same name behind it, with a well-nested word between,
and the other way round. -/
inductive WellNested : List Tag → Prop where
  | nil : WellNested []
  | pair (name : String) {inner rest : List Tag} (hinner : WellNested inner)
    (hrest : WellNested rest) : WellNested (.opens name :: (inner ++ .closes name :: rest))

/-- All closing tags of a word match. It leaves names open, listed outermost first. -/
inductive LeavesOpen : List Tag → List String → Prop where
  | done {word : List Tag} (h : WellNested word) : LeavesOpen word []
  | opened {front word : List Tag} {names : List String} (hfront : WellNested front)
    (name : String) (h : LeavesOpen word names) :
    LeavesOpen (front ++ .opens name :: word) (name :: names)

variable {front word rest : List Tag} {names names' : List String} {name : String}

theorem WellNested.append (h : WellNested front) (h' : WellNested word) :
    WellNested (front ++ word) := by
  induction h with
  | nil => exact h'
  | pair name hinner _ _ ih =>
    rw [List.cons_append, List.append_assoc, List.cons_append]
    exact .pair name hinner ih

theorem LeavesOpen.wellNested (h : LeavesOpen word []) : WellNested word := by
  cases h with
  | done h => exact h

theorem LeavesOpen.concat_opens (h : LeavesOpen word names) (name : String) :
    LeavesOpen (word ++ [.opens name]) (names ++ [name]) := by
  induction h with
  | done h => exact .opened h name (.done .nil)
  | opened hfront outer _ ih =>
    rw [List.append_assoc, List.cons_append, List.cons_append]
    exact .opened hfront outer ih

/-- A closing tag takes the innermost open name away. -/
theorem LeavesOpen.concat_closes (h : LeavesOpen word (names ++ [name])) :
    LeavesOpen (word ++ [.closes name]) names := by
  generalize hall : names ++ [name] = all at h
  induction h generalizing names with
  | done => simp at hall
  | @opened front word further hfront outer h ih =>
    rw [List.append_assoc, List.cons_append]
    cases names with
    | nil =>
      obtain ⟨rfl, rfl⟩ := List.cons.inj hall
      exact .done (hfront.append (.pair name h.wellNested .nil))
    | cons first names =>
      obtain ⟨rfl, rfl⟩ := List.cons.inj hall
      exact .opened hfront first (ih rfl)

/-! The stack of open names, innermost first. -/

def push (opened : List String) : Tag → Option (List String)
  | .opens name => some (name :: opened)
  | .closes name => if opened.head? = some name then some opened.tail else none

def run (opened : List String) (word : List Tag) : Option (List String) := word.foldlM push opened

theorem run_append (opened : List String) (word rest : List Tag) :
    run opened (word ++ rest) = (run opened word).bind fun opened => run opened rest :=
  List.foldlM_append

theorem run_cons (opened : List String) (tag : Tag) (word : List Tag) :
    run opened (tag :: word) = (push opened tag).bind fun opened => run opened word := rfl

theorem run_one (opened : List String) (tag : Tag) : run opened [tag] = push opened tag := by
  rw [run_cons]
  exact Option.bind_fun_some _

theorem push_closes (name : String) (opened : List String) :
    push (name :: opened) (.closes name) = some opened := if_pos rfl

theorem WellNested.run (h : WellNested word) (opened : List String) :
    run opened word = some opened := by
  induction h generalizing opened with
  | nil => rfl
  | pair name _ _ ihinner ihrest =>
    rw [run_cons, push, Option.bind_some, run_append, ihinner, Option.bind_some, run_cons,
      push_closes, Option.bind_some, ihrest]

theorem LeavesOpen.run (h : LeavesOpen word names) (opened : List String) :
    run opened word = some (names.reverse ++ opened) := by
  induction h generalizing opened with
  | done h => exact h.run opened
  | opened hfront name _ ih =>
    rw [run_append, hfront.run, Option.bind_some, run_cons, push, Option.bind_some, ih,
      List.reverse_cons, List.append_assoc]
    rfl

/-- A word leaves exactly the names that stay on the stack. -/
theorem leavesOpen_iff : LeavesOpen word names ↔ run [] word = some names.reverse := by
  constructor
  · intro h
    rw [h.run, List.append_nil]
  · intro h
    induction word using List.reverseRecOn generalizing names with
    | nil =>
      obtain rfl : names = [] := by simpa [run] using h
      exact .done .nil
    | append_singleton word tag ih =>
      rw [run_append] at h
      obtain ⟨opened, hword, htag⟩ := Option.bind_eq_some_iff.mp h
      have hopened : LeavesOpen word opened.reverse := ih (by rw [List.reverse_reverse, hword])
      rw [run_one] at htag
      cases tag with
      | opens name =>
        have hnames : opened.reverse ++ [name] = names := by
          rw [← List.reverse_cons, Option.some.inj htag, List.reverse_reverse]
        exact hnames ▸ hopened.concat_opens name
      | closes name =>
        rw [push] at htag
        split at htag
        · rename_i hhead
          obtain ⟨rest, rfl⟩ := List.head?_eq_some_iff.mp hhead
          have hnames : rest.reverse = names := by
            rw [← List.reverse_reverse names, ← Option.some.inj htag]
            rfl
          rw [List.reverse_cons, hnames] at hopened
          exact hopened.concat_closes
        · cases htag

/-- The names that a word leaves are determined. -/
theorem LeavesOpen.unique (h : LeavesOpen word names) (h' : LeavesOpen word names') :
    names = names' :=
  List.reverse_inj.mp (Option.some.inj ((leavesOpen_iff.mp h).symm.trans (leavesOpen_iff.mp h')))

theorem LeavesOpen.wellNested_iff (h : LeavesOpen word names) : WellNested word ↔ names = [] := by
  constructor
  · exact fun hnested => h.unique (.done hnested)
  · rintro rfl
    exact h.wellNested

/-- Only a closing tag of another name than the innermost open one stops a word from going on. -/
theorem LeavesOpen.stopped (h : LeavesOpen word names) {tag : Tag}
    (hstop : ∀ names', ¬LeavesOpen (word ++ [tag]) names') :
    ∃ name, tag = .closes name ∧ names.getLast? ≠ some name := by
  cases tag with
  | opens name => exact absurd (h.concat_opens name) (hstop _)
  | closes name =>
    refine ⟨name, rfl, fun hlast => ?_⟩
    obtain ⟨outer, rfl⟩ := List.getLast?_eq_some_iff.mp hlast
    exact hstop _ h.concat_closes

/-- A name on the stack has been there before, or a tag has opened it. -/
theorem opens_mem_of_run {opened opened' : List String} (h : run opened word = some opened')
    (hname : name ∈ opened') : name ∈ opened ∨ .opens name ∈ word := by
  induction word generalizing opened with
  | nil =>
    obtain rfl := Option.some.inj h
    exact .inl hname
  | cons tag word ih =>
    rw [run_cons] at h
    obtain ⟨behind, htag, hword⟩ := Option.bind_eq_some_iff.mp h
    rcases ih hword with hmem | hmem
    · cases tag with
      | opens other =>
        obtain rfl := Option.some.inj htag
        rcases List.mem_cons.mp hmem with rfl | hmem
        · exact .inr List.mem_cons_self
        · exact .inl hmem
      | closes other =>
        rw [push] at htag
        split at htag
        · obtain rfl := Option.some.inj htag
          exact .inl (List.mem_of_mem_tail hmem)
        · cases htag
    · exact .inr (List.mem_cons_of_mem _ hmem)

/-- Behind a closing tag that does not match nothing makes up for it. -/
theorem LeavesOpen.not_of_mismatch (h : LeavesOpen front names)
    (hname : names.getLast? ≠ some name) : ¬LeavesOpen (front ++ .closes name :: rest) names' := by
  rw [← List.head?_reverse] at hname
  intro h'
  rw [leavesOpen_iff, run_append, leavesOpen_iff.mp h, Option.bind_some, run_cons, push,
    if_neg hname] at h'
  cases h'

end Tag
end BraceTemplate
