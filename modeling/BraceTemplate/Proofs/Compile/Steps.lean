import BraceTemplate.Compile.Draft
import BraceTemplate.Proofs.Compile.Walking
import BraceTemplate.Proofs.Program.Exact

/-! Steps that many directives share, and when a compilation succeeds. -/
namespace BraceTemplate

namespace Draft

open Markup

theorem bind_parsed {α β : Type} {P : Draft → Prop} {R : β → Draft → Prop}
    {r : Except SyntaxFault α} {next : α → Step β} (h : ∀ a, r = .ok a → Ensures P (next a) R) :
    Ensures P (parsed r >>= next) R := by
  refine .bind_lift fun a ha => h a ?_
  cases r with
  | error f => cases ha
  | ok b => cases ha; rfl

theorem bind_condition {β : Type} {d : Draft} {R : β → Draft → Prop} {name : String}
    {args : List Char} {next : Expr → Step β}
    (h : ∀ c, Expr.parse d.mode args = .ok c → Ensures (· = d) (next c) R) :
    Ensures (· = d) (condition name args >>= next) R := by
  unfold condition
  split
  · exact .bind (Q := fun _ _ => False) .throw fun _ _ hf => hf.elim
  · rw [bind_assoc]
    exact .bind_get (bind_parsed h)

theorem outcome_popOpened {d : Draft} {name : String} {rest : List String}
    (h : d.opened = name :: rest) :
    outcome (popOpened name) d = (.ok (), { d with opened := rest }) := by
  unfold popOpened
  rw [outcome_bind_ok outcome_get, h]
  dsimp only
  rw [outcome_bind_ok (outcome_set _), if_pos rfl]
  rfl

/-- The built-in handlers are directives. -/
theorem find?_builtin {name : String} {handler : NodeHandler}
    (h : Registry.builtin.find? name = some handler) : ∃ d, handler = .directive d := by
  have hmem := Dict.mem_of_find? h
  obtain ⟨e, -, he⟩ := List.mem_map.mp hmem
  exact ⟨e.2, by simpa using (congrArg Prod.snd he).symm⟩

theorem no_hosted {name : String} {e : External} :
    Registry.builtin.find? name ≠ some (.external e) := by
  intro h
  obtain ⟨directive, hd⟩ := find?_builtin h
  cases hd

end Draft

theorem compile_of_walk_error {registry : Registry} {source : String} {dir : Option String}
    {e : Error} {draft : Draft}
    (h : outcome (Markup.walk (Draft.handler ⟨registry, dir.map slashed⟩) source.toList) .start =
      (.error e, draft)) : compile registry source dir = .error e := by
  change (Markup.walk (Draft.handler _) source.toList).run Draft.start = _ at h
  unfold compile
  dsimp only
  rw [h]

/-- Behind its walk, source is linked or the names that are left open are reported. -/
theorem compile_of_walk {registry : Registry} {source : String} {dir : Option String}
    {draft : Draft}
    (h : outcome (Markup.walk (Draft.handler ⟨registry, dir.map slashed⟩) source.toList) .start =
      (.ok (), draft)) : compile registry source dir =
      if draft.opened = [] then Template.ofInstructions draft.instructions dir
      else .error (.unbalanced (.unclosedTags draft.opened.reverse) none) := by
  change (Markup.walk (Draft.handler _) source.toList).run Draft.start = _ at h
  unfold compile
  dsimp only
  rw [h]
  simp only [List.isEmpty_iff]

/-- Source compiles exactly when its walk succeeds, all names are closed and the program links. -/
theorem compile_eq_ok_iff {registry : Registry} {source : String} {dir : Option String}
    {t : Template} : compile registry source dir = .ok t ↔ ∃ draft,
      outcome (Markup.walk (Draft.handler ⟨registry, dir.map slashed⟩) source.toList) .start =
        (.ok (), draft) ∧ draft.opened = [] ∧
      Template.ofInstructions draft.instructions dir = .ok t := by
  cases hrun : outcome (Markup.walk (Draft.handler ⟨registry, dir.map slashed⟩) source.toList)
    .start with
  | mk r d =>
  cases r with
  | error e => simp [compile_of_walk_error hrun]
  | ok _ =>
    rw [compile_of_walk hrun]
    by_cases hopened : d.opened = [] <;> simp [hopened]

end BraceTemplate
