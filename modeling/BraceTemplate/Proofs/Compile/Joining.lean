import BraceTemplate.Proofs.Compile.Continuing
import BraceTemplate.Proofs.Source.Scanning

/-!
Source behind source. Text that a walk still holds may be handed over at once, so that a source
compiles behind another one as it does alone.
-/
namespace BraceTemplate

namespace Draft
open Markup

variable {d d' : Draft} {ctx : CompileContext}

/-! Text that waits. -/

theorem outcome_run_takes (cs : List Char) (d : Draft) :
    outcome ((handler ctx).run cs) d = (.ok (), d.takes cs.reverse) := by
  rw [← flush_eq_run, ← outcome_flush, List.reverse_reverse]

theorem takes_takes (d : Draft) (text text' : List Char) :
    (d.takes text).takes text' = d.takes (text' ++ text) := by
  unfold takes
  by_cases ht : text = []
  · simp [ht]
  · by_cases ht' : text' = []
    · simp [ht']
    · simp [ht, ht', addText_addText]

/-- Where handing a body over succeeds, text in front of it may have been handed over before. -/
theorem handOver_prepend {body : Body} {text : List Char}
    (h : outcome (body.handOver (handler ctx)) (d.takes text) = (.ok (), d')) :
    outcome ((body.prepend text.reverse).handOver (handler ctx)) d = (.ok (), d') := by
  have hrun (run : List Char) : outcome ((handler ctx).run (text.reverse ++ run)) d =
      (.ok (), (d.takes text).takes run.reverse) := by
    rw [outcome_run_takes, takes_takes, List.reverse_append, List.reverse_reverse]
  cases body with
  | text run =>
    rw [Body.handOver, outcome_run_takes] at h
    exact (hrun run).trans h
  | node run start parts body =>
    rw [Body.handOver, outcome_bind_ok (outcome_run_takes _ _)] at h
    exact (outcome_bind_ok (hrun run) _).trans h
  | openComment run start => cases h
  | openNode run start parts stop =>
    rw [Body.handOver, outcome_bind_ok (outcome_run_takes _ _)] at h
    exact (outcome_bind_ok (hrun run) _).trans h

theorem resume_takes {text : List Char} {pos : Position} {cs : List Char}
    (h : outcome (resume (handler ctx) .empty pos cs) (d.takes text) = (.ok (), d')) :
    outcome (resume (handler ctx) ⟨[], text⟩ pos cs) d = (.ok (), d') := by
  rw [Pending.empty, resume_body, List.reverse_nil, Body.prepend_nil] at h
  rw [resume_body]
  exact handOver_prepend h

/-- A walk over the source comes to a draft, text that waits included, whatever follows. -/
def Reaches (ctx : CompileContext) (cs : List Char) (d : Draft) : Prop :=
  ∃ d₀ text, d₀.takes text = d ∧ ∀ more, ∃ pos,
    outcome (walk (handler ctx) (cs ++ more)) .start =
      outcome (resume (handler ctx) ⟨[], text⟩ pos more) d₀

theorem Reading.reaches {cs : List Char} (h : Reading ctx .start cs d) : Reaches ctx cs d := by
  obtain ⟨d₀, text, hd, hmoves⟩ := h .start [] rfl
  refine ⟨d₀, text, hd, fun more => ?_⟩
  obtain ⟨pos, hfeed⟩ := hmoves .start more
  refine ⟨pos, ?_⟩
  change outcome (feed (handler ctx) ⟨[], []⟩ .start (cs ++ more) >>= finish (handler ctx)) .start =
    outcome (feed (handler ctx) ⟨[], text⟩ pos more >>= finish (handler ctx)) d₀
  rw [outcome_bind, hfeed, ← outcome_bind]

theorem reaches_of_walk {cs : List Char} (hcut : Cut cs)
    (h : outcome (walk (handler ctx) cs) .start = (.ok (), d)) : Reaches ctx cs d := by
  obtain ⟨q, hq⟩ := walk_append (handler ctx) hcut (walk_closed h)
  obtain ⟨⟨levels, text⟩, d₀, hsteps, hfinish⟩ := outcome_bind_eq_ok h
  cases levels with
  | cons l ls => cases hfinish
  | nil =>
    refine ⟨d₀, text, ?_, fun more => ⟨q, by rw [hq, outcome_bind_ok hsteps]⟩⟩
    rw [finish, outcome_flush] at hfinish
    exact congrArg Prod.snd hfinish

/-- Behind a source that leaves the draft as it is at the start, but for its instructions, more
source compiles as it does alone. -/
theorem Reaches.append {cs more : List Char} (hr : ctx.registry.Grown) (h : Reaches ctx cs d)
    (hd : Continues d.instructions d .start)
    (hmore : outcome (walk (handler ctx) more) .start = (.ok (), d')) :
    ∃ d₂, outcome (walk (handler ctx) (cs ++ more)) .start = (.ok (), d₂) ∧
      Continues d.instructions d₂ d' := by
  obtain ⟨d₀, text, rfl, hwalk⟩ := h
  obtain ⟨pos, hpos⟩ := hwalk more
  have hcoupled := resume_coupled (handler_alike hr (d₀.takes text).instructions) (.refl .empty)
    pos .start more
  obtain ⟨_, d₂, hrest, hcontinues⟩ := hcoupled.exists_ok hd hmore
  exact ⟨d₂, hpos.trans (resume_takes hrest), hcontinues⟩

end Draft

/-- Behind a source that leaves nothing but a program, source compiles to the joined program. -/
theorem compile_reached {registry : Registry} (hr : registry.Grown) {cs : List Char} {t : String}
    {dir : Option String} {d : Draft} {a b : Template}
    (hd : Draft.Reaches ⟨registry, dir.map slashed⟩ cs d)
    (hstart : Draft.Continues d.instructions d .start)
    (ha : Template.ofInstructions d.instructions dir = .ok a)
    (hb : compile registry t dir = .ok b)
    (hblocks : (Dict.keys a.blocks).Disjoint (Dict.keys b.blocks)) :
    ∃ c, compile registry (.ofList cs ++ t) dir = .ok c ∧
      c.instructions.toList = joinRows a.instructions.toList b.instructions.toList ∧
      c.blocks = a.blocks ++ movedBlocks (c.size - b.size) b.blocks ∧ c.dir = dir := by
  obtain ⟨d', hwalk', hopened', hlink'⟩ := compile_eq_ok_iff.mp hb
  obtain ⟨d₂, hwalk, hcontinues⟩ := hd.append hr hstart hwalk'
  obtain ⟨c, hc, hcblocks⟩ := Template.exists_join hblocks dir
  have hrow : d₂.instructions = joinRows a.instructions.toList b.instructions.toList := by
    rw [hcontinues.instructions, (Template.ofInstructions_eq_ok_iff.mp ha).1,
      (Template.ofInstructions_eq_ok_iff.mp hlink').1]
  have hlink : Template.ofInstructions d₂.instructions dir = .ok c := by
    rw [hrow]
    exact hc
  have hsource : (String.ofList cs ++ t).toList = cs ++ t.toList := by simp
  obtain ⟨hinstructions, hdir⟩ := Template.ofInstructions_eq_ok_iff.mp hc
  refine ⟨c, compile_eq_ok_iff.mpr ⟨d₂, ?_, hcontinues.opened.trans hopened', hlink⟩,
    hinstructions, hcblocks, hdir⟩
  rwa [hsource]

/-- Source behind source compiles to joined programs: where both compile and define no block of the
same name, and the first ends in nothing that looks ahead, the instructions of the second stand
behind those of the first, with literals that meet made one, and its blocks behind the others. -/
theorem compile_append {registry : Registry} (hr : registry.Grown) {s t : String}
    {dir : Option String} {a b : Template} (hslash : s.toList.getLast? ≠ some '\\')
    (hbrace : s.toList.getLast? ≠ some '\x7b') (ha : compile registry s dir = .ok a)
    (hb : compile registry t dir = .ok b)
    (hblocks : (Dict.keys a.blocks).Disjoint (Dict.keys b.blocks)) :
    ∃ c, compile registry (s ++ t) dir = .ok c ∧
      c.instructions.toList = joinRows a.instructions.toList b.instructions.toList ∧
      c.blocks = a.blocks ++ movedBlocks (c.size - b.size) b.blocks ∧ c.dir = dir := by
  obtain ⟨d, hwalk, hopened, hlink⟩ := compile_eq_ok_iff.mp ha
  have htold : d.Told :=
    Markup.walk_keeps (Draft.Told.handler_keeps hr) s.toList .start .start () d hwalk
  have hreached := compile_reached hr (Draft.reaches_of_walk ⟨hslash, hbrace⟩ hwalk)
    (htold.continues_start hopened) hlink hb hblocks
  rwa [String.ofList_toList] at hreached

/-- Text meets where the two sources do, and the block of the second one moves. -/
theorem compile_append_blocks :
    let s := "x\x7bdefine_block p\x7da\x7b/define_block\x7dy"
    let t := "z\x7bdefine_block q\x7db\x7b/define_block\x7d"
    ∃ a b c, (compile .builtin s none = .ok a ∧ compile .builtin t none = .ok b ∧
        (Dict.keys a.blocks).Disjoint (Dict.keys b.blocks) ∧ s.toList.getLast? ≠ some '\\' ∧
        s.toList.getLast? ≠ some '\x7b') ∧
      (compile .builtin (s ++ t) none = .ok c ∧
        c.instructions.toList = joinRows a.instructions.toList b.instructions.toList ∧
        c.blocks = a.blocks ++ movedBlocks (c.size - b.size) b.blocks ∧ c.dir = none) ∧
      c.size = 8 ∧ c.blocks = [("p", ⟨[], 2, 3⟩), ("q", ⟨[], 6, 7⟩)] := by
  intro s t
  have hfirst : (compile .builtin s none).toOption.any
      (fun a => decide (a.size = 5 ∧ a.blocks = [("p", ⟨[], 2, 3⟩)])) = true := by decide +kernel
  have hsecond : (compile .builtin t none).toOption.any
      (fun b => decide (b.size = 4 ∧ b.blocks = [("q", ⟨[], 2, 3⟩)])) = true := by decide +kernel
  have hboth : (compile .builtin (s ++ t) none).toOption.any (fun c => decide (c.size = 8)) =
      true := by decide +kernel
  obtain ⟨a, ha, hablocks⟩ := exists_ok_of_any hfirst
  obtain ⟨b, hb, hbblocks⟩ := exists_ok_of_any hsecond
  obtain ⟨c, hc, hcsize⟩ := exists_ok_of_any hboth
  obtain ⟨-, hablocks⟩ := of_decide_eq_true hablocks
  obtain ⟨hbsize, hbblocks⟩ := of_decide_eq_true hbblocks
  have hcsize := of_decide_eq_true hcsize
  have hdisjoint : (Dict.keys a.blocks).Disjoint (Dict.keys b.blocks) := by
    simp [hablocks, hbblocks, Dict.keys]
  have hslash : s.toList.getLast? ≠ some '\\' := by decide
  have hbrace : s.toList.getLast? ≠ some '\x7b' := by decide
  obtain ⟨c', hc', hrow, hblocks, hdir⟩ :=
    compile_append .builtin hslash hbrace ha hb hdisjoint
  obtain rfl : c = c' := Except.ok.inj (hc.symm.trans hc')
  refine ⟨a, b, c, ⟨ha, hb, hdisjoint, hslash, hbrace⟩, ⟨hc, hrow, hblocks, hdir⟩, hcsize, ?_⟩
  rw [hblocks, hablocks, hbblocks, hcsize, hbsize]
  rfl

end BraceTemplate
