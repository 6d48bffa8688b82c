import BraceTemplate.Engine
import BraceTemplate.Files.Tree
import BraceTemplate.Proofs.Compile.Joining
import BraceTemplate.Proofs.Render.Refinement

/-!
Escaped text: whatever characters it has, it is read as text alone, compiled to one literal and
rendered as it was, by itself and in front of other source.
-/
namespace BraceTemplate

namespace Markup

/-- Escaped text is a run of text without any node. -/
theorem readBody_escape (p : Position) (cs : List Char) :
    readBody p (Source.escape cs) = .text cs := by
  induction cs generalizing p with
  | nil => exact readBody_nil p
  | cons c cs ih =>
    rw [Source.escape, List.flatMap_cons, ← Source.escape]
    by_cases hc : isEscapable c = true
    · have hhead : head '\\' (some c) = .escape c := by
        simp [head, (isEscapable_iff c).mp hc]
      rw [if_pos hc, List.cons_append, List.singleton_append, readBody_cons, List.head?_cons, hhead]
      dsimp only [List.tail_cons]
      rw [ih]
      rfl
    · have hhead : head c (Source.escape cs).head? = .single := by
        have hslash : c ≠ '\\' := fun h => hc (h ▸ rfl)
        have hbrace : c ≠ '\x7b' := fun h => hc (h ▸ rfl)
        cases (Source.escape cs).head? with
        | none => rfl
        | some d => simp [head, hslash, hbrace]
      rw [if_neg hc, List.singleton_append, readBody_cons, hhead]
      dsimp only
      rw [ih]
      rfl

theorem walk_escape {σ : Type} (h : Handler σ) (cs : List Char) :
    walk h (Source.escape cs) = h.run cs := by
  rw [walk_eq, read, readBody_escape, Body.handOver]

end Markup

/-- Text with a backslash in front of each brace and backslash. -/
def escaped (t : String) : String := .ofList (Source.escape t.toList)

/-- The program that shows a text. -/
def textRow (t : String) : List Instruction := if t = "" then [] else [.literal t]

theorem instructions_takes_start (t : String) :
    (Draft.start.takes t.toList.reverse).instructions = textRow t := by
  unfold Draft.takes textRow
  by_cases ht : t = ""
  · simp [ht, Draft.start, Draft.instructions]
  · simp [ht, Draft.start, Draft.addText, Draft.instructions]

theorem blockNames_textRow (t : String) : blockNames (textRow t) = [] := by
  unfold textRow
  split <;> rfl

/-- Escaped text compiles with every registry. -/
theorem compile_escaped (registry : Registry) (t : String) (dir : Option String) :
    ∃ x, compile registry (escaped t) dir = .ok x ∧
      Template.ofInstructions (textRow t) dir = .ok x := by
  have hwalk : outcome (Markup.walk (Draft.handler ⟨registry, dir.map slashed⟩)
      (escaped t).toList) .start = (.ok (), Draft.start.takes t.toList.reverse) := by
    rw [escaped, String.toList_ofList, Markup.walk_escape, Draft.outcome_run_takes]
  have hopened : (Draft.start.takes t.toList.reverse).opened = [] := by
    unfold Draft.takes
    split <;> rfl
  have htree : ∃ items, Tree.flatten items = textRow t ∧ Tree.Shallow items := by
    unfold textRow
    split
    · exact ⟨[], rfl, trivial⟩
    · exact ⟨[.leaf (.literal t)], rfl, trivial, trivial⟩
  obtain ⟨items, hitems, hshallow⟩ := htree
  obtain ⟨x, hx⟩ := (Template.ofInstructions_ok_iff (textRow t) dir).mpr
    ⟨items, hitems, hshallow, by rw [blockNames_textRow]; exact List.nodup_nil⟩
  refine ⟨x, compile_eq_ok_iff.mpr ⟨_, hwalk, hopened, ?_⟩, hx⟩
  rw [instructions_takes_start]
  exact hx

/-- Source behind escaped text compiles to its own program behind the text. -/
theorem compile_behind_escaped {registry : Registry} (hr : registry.Grown) (t : String) {u : String}
    {dir : Option String} {a : Template} (ha : compile registry u dir = .ok a) :
    ∃ c, compile registry (escaped t ++ u) dir = .ok c ∧
      c.instructions.toList = joinRows (textRow t) a.instructions.toList := by
  obtain ⟨x, -, hx⟩ := compile_escaped registry t dir
  obtain ⟨hrow, -⟩ := Template.ofInstructions_eq_ok_iff.mp hx
  have hreading : Draft.Reading ⟨registry, dir.map slashed⟩ .start (Source.escape t.toList)
      (Draft.start.takes t.toList.reverse) := by
    unfold Draft.takes
    split
    · rename_i ht
      rw [List.reverse_eq_nil_iff.mp ht]
      exact .nil
    · rename_i ht
      rw [List.reverse_reverse]
      exact .text fun h => ht (by rw [h]; rfl)
  have hstart : Draft.Continues (Draft.start.takes t.toList.reverse).instructions
      (Draft.start.takes t.toList.reverse) .start := by
    unfold Draft.takes
    split <;> exact ⟨(joinRows_nil _).symm, rfl, rfl, rfl, fun _ => rfl⟩
  have hnone : Dict.keys x.blocks = [] := by
    obtain ⟨items, hitems⟩ := x.denotes
    rw [hitems.keys_blocks, hrow, blockNames_textRow]
  have hdisjoint : (Dict.keys x.blocks).Disjoint (Dict.keys a.blocks) := by
    rw [hnone]
    exact List.disjoint_nil_left _
  rw [← instructions_takes_start] at hx
  obtain ⟨c, hc, hinstructions, -⟩ := compile_reached hr hreading.reaches hstart hx ha hdisjoint
  exact ⟨c, hc, hrow ▸ hinstructions⟩

/-- What a rendering leaves, from the outcome of its template. -/
theorem Engine.render_eq_outcome (e : Engine) (view : Files.View) (t : Template) :
    e.render view t =
      ⟨(outcome (Render.template (e.env view) t) ⟨e.context, .ofUnit, [], e.loader, []⟩).1,
        { e with
          context := (outcome (Render.template (e.env view) t)
            ⟨e.context, .ofUnit, [], e.loader, []⟩).2.context,
          loader := (outcome (Render.template (e.env view) t)
            ⟨e.context, .ofUnit, [], e.loader, []⟩).2.loader },
        (outcome (Render.template (e.env view) t)
          ⟨e.context, .ofUnit, [], e.loader, []⟩).2.warnings⟩ := rfl

namespace Tree

variable {env : RenderEnv} {enter : Render.Call → Render String} {items others : Tree} {t : String}

theorem render_literal (text : String) (items : Tree) :
    render env enter (.leaf (.literal text) :: items) = (text ++ ·) <$> render env enter items := by
  rw [render, Item.render, Leaf.render, pure_bind, bind_pure_comp]

theorem render_textRow (h : flatten items = textRow t) : render env enter items = return t := by
  unfold textRow at h
  split at h
  · rename_i ht
    obtain rfl : items = [] := flatten_injective h
    rw [ht, render]
  · obtain rfl : items = [.leaf (.literal t)] := flatten_injective h
    rw [render_literal, render, map_pure, String.append_empty]

/-- Text in front of a program is shown in front of what the program shows. -/
theorem render_behind_text (h : flatten items = joinRows (textRow t) (flatten others)) :
    render env enter items = (t ++ ·) <$> render env enter others := by
  unfold textRow at h
  split at h
  · rename_i ht
    obtain rfl : items = others := flatten_injective h
    simp [ht]
  · rcases joinRows_cases [.literal t] (flatten others) with
      hjoined | ⟨front, x, y, rest, ht, hothers, hjoined⟩
    · obtain rfl : items = .leaf (.literal t) :: others := flatten_injective (h.trans hjoined)
      exact render_literal t others
    · obtain ⟨rfl, rfl⟩ : front = [] ∧ t = x := by
        simpa [eq_comm] using List.append_eq_singleton_iff.mp ht.symm
      obtain ⟨behind, rfl, rfl⟩ := Tree.eq_cons_literal hothers
      obtain rfl : items = .leaf (.literal (t ++ y)) :: behind :=
        flatten_injective (h.trans hjoined)
      simp [render_literal, String.append_assoc]

end Tree

namespace Render

/-- A template without blocks makes nothing known. -/
theorem outcome_hoist {t : Template} (h : t.blocks = []) (s : RenderState) :
    outcome (hoist t) s = (.ok (), s) := by
  have hdefinitions : t.definitions = [] := by
    simp [Template.definitions, h]
  rw [hoist, hdefinitions]
  rfl

/-- Without blocks, text in front of a program changes nothing but the text that is shown. -/
theorem outcome_behind_text {a c : Template} {t : String} (ha : a.blocks = []) (hc : c.blocks = [])
    (h : Tree.flatten c.tree = joinRows (textRow t) (Tree.flatten a.tree)) (env : RenderEnv)
    (s : RenderState) : outcome (template env c) s =
      ((outcome (template env a) s).1.map (t ++ ·), (outcome (template env a) s).2) := by
  rw [template_eq, template_eq, Template.render, Template.render, outcome_inFrame, outcome_inFrame,
    outcome_bind_ok (outcome_hoist hc _), outcome_bind_ok (outcome_hoist ha _),
    Tree.render_behind_text h, outcome_map]

end Render

/-- A template that opens no block defines none. -/
theorem Template.blocks_eq_nil {t : Template} (h : blockNames t.instructions.toList = []) :
    t.blocks = [] := by
  have hkeys := t.denotes_tree.keys_blocks
  rw [h] at hkeys
  exact List.map_eq_nil_iff.mp hkeys

namespace Engine

/-- Escaping is undone. Escaped text is handed over as the text it was, without any node; every
engine compiles it and renders it to the text, and is left as it was. In front of source that
compiles and defines no block it shows the text in front of what that source shows, and changes
nothing else. -/
theorem escape_undone (t : String) :
    (∀ {σ : Type} (h : Markup.Handler σ),
      Markup.walk h (Source.escape t.toList) = h.run t.toList) ∧
    ∀ (e : Engine) (view : Files.View) (dir : Option String),
      (∃ x, e.compile (escaped t) dir = .ok x ∧ e.render view x = ⟨.ok t, e, []⟩) ∧
      (e.registry.Grown → ∀ u a, e.compile u dir = .ok a → a.blocks = [] →
        ∃ c, e.compile (escaped t ++ u) dir = .ok c ∧ e.render view c =
          { e.render view a with result := (e.render view a).result.map (t ++ ·) }) := by
  refine ⟨fun h => Markup.walk_escape h t.toList, fun e view dir => ⟨?_, ?_⟩⟩
  · obtain ⟨x, hcompile, hx⟩ := compile_escaped e.registry t dir
    refine ⟨x, hcompile, ?_⟩
    obtain ⟨hrow, -⟩ := Template.ofInstructions_eq_ok_iff.mp hx
    have hblocks : x.blocks = [] := Template.blocks_eq_nil (hrow ▸ blockNames_textRow t)
    have htemplate : outcome (Render.template (e.env view) x)
        ⟨e.context, .ofUnit, [], e.loader, []⟩ =
          (.ok t, ⟨e.context, .ofUnit, [], e.loader, []⟩) := by
      rw [Render.template_eq, Template.render, Render.outcome_inFrame,
        outcome_bind_ok (Render.outcome_hoist hblocks _),
        Tree.render_textRow (x.denotes_tree.instructions.trans hrow)]
      rfl
    rw [render_eq_outcome, htemplate]
  · intro hr u a ha hblocks
    obtain ⟨c, hc, hrow⟩ := compile_behind_escaped hr t ha
    have hcblocks : c.blocks = [] := by
      apply Template.blocks_eq_nil
      rw [hrow, blockNames_joinRows, blockNames_textRow, ← a.denotes_tree.keys_blocks, hblocks]
      rfl
    have htree : Tree.flatten c.tree = joinRows (textRow t) (Tree.flatten a.tree) := by
      rw [c.denotes_tree.instructions, hrow, a.denotes_tree.instructions]
    refine ⟨c, hc, ?_⟩
    rw [render_eq_outcome, render_eq_outcome, Render.outcome_behind_text hblocks hcblocks htree]

/-- Text that ends in a line break, in front of a choice between two branches. -/
theorem escape_undone_seam :
    let e := Engine.ofConfig Text.WordCase.speller .standard
    let view := Files.Tree.empty.read
    let t := "a\x7b\\\x7d\n"
    let u := "b\x7bif $x\x7dc\x7belse\x7dd\x7b/if\x7d"
    ∃ a c, (e.registry.Grown ∧ e.compile u none = .ok a ∧ a.blocks = []) ∧
      e.compile (escaped t ++ u) none = .ok c ∧ (e.render view c).result = .ok (t ++ "bd") := by
  intro e view t u
  have hcheck : (e.compile u none).toOption.any (fun a => decide (a.blocks = []) &&
      decide ((e.render view a).result.toOption = some "bd")) = true := by decide +kernel
  obtain ⟨a, ha, hcheck⟩ := exists_ok_of_any hcheck
  obtain ⟨hblocks, hshown⟩ := Bool.and_eq_true_iff.mp hcheck
  have hblocks := of_decide_eq_true hblocks
  have hgrown : e.registry.Grown := .builtin
  obtain ⟨c, hc, hrender⟩ := ((escape_undone t).2 e view none).2 hgrown u a ha hblocks
  refine ⟨a, c, ⟨hgrown, ha, hblocks⟩, hc, ?_⟩
  have hresult : (e.render view a).result = .ok "bd" := by
    cases hr : (e.render view a).result with
    | ok shown => simpa [hr, Except.toOption] using hshown
    | error _ => simp [hr, Except.toOption] at hshown
  rw [hrender, hresult]
  rfl

end Engine

end BraceTemplate
