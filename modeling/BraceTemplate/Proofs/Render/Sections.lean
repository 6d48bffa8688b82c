import BraceTemplate.Proofs.Compile.Depths
import BraceTemplate.Proofs.Render.Parametric

/-!
Empty sections follow their loop: the counter that a section reads is the one that its loop has left
behind, whatever has been rendered in between.
-/
namespace BraceTemplate

@[simp] theorem Frame.counter?_withCounter (f : Frame) (depth count : Nat) :
    (f.withCounter depth count).counter? depth = some count := by
  have hsize : depth < f.counters.size + (depth + 1 - f.counters.size) := by omega
  simp [Frame.counter?, Frame.withCounter, hsize]

theorem Frame.counter?_withCounter_of_ne (f : Frame) {depth other : Nat} (h : depth ≠ other)
    (count : Nat) : (f.withCounter other count).counter? depth = f.counter? depth := by
  unfold counter? withCounter
  dsimp only
  rw [Array.getElem?_setIfInBounds_ne h.symm, Array.getElem?_append]
  split
  · rfl
  · -- A counter that was made on the way is as absent as before.
    rename_i hsize
    have hnone : f.counters[depth]? = none := Array.getElem?_eq_none (Nat.le_of_not_lt hsize)
    rw [hnone, Array.getElem?_replicate]
    split <;> rfl

namespace Render

variable {α β : Type} {depth : Nat}

/-- The counter of a depth stays as it is, also when the computation fails. -/
def KeepsCounter (depth : Nat) (act : Render α) : Prop :=
  ∀ s, (outcome act s).2.frame.counter? depth = s.frame.counter? depth

namespace KeepsCounter

theorem pure {a : α} : KeepsCounter depth (Pure.pure a : Render α) := fun _ => rfl

theorem throw {e : Error} : KeepsCounter depth (throw e : Render α) := fun _ => rfl

theorem bind {act : Render α} {next : α → Render β} (h : KeepsCounter depth act)
    (hnext : ∀ a, KeepsCounter depth (next a)) : KeepsCounter depth (act >>= next) := by
  intro s
  have hact := h s
  rw [outcome_bind]
  cases hrun : outcome act s with
  | mk r s' =>
    rw [hrun] at hact
    cases r with
    | error e => exact hact
    | ok a => exact (hnext a s').trans hact

theorem get : KeepsCounter depth (get : Render RenderState) := fun _ => rfl

theorem bind_get {next : RenderState → Render β}
    (h : ∀ s, (outcome (next s) s).2.frame.counter? depth = s.frame.counter? depth) :
    KeepsCounter depth (Bind.bind MonadState.get next) := by
  intro s
  rw [outcome_bind_ok outcome_get]
  exact h s

theorem modify {f : RenderState → RenderState}
    (h : ∀ s, (f s).frame.counter? depth = s.frame.counter? depth) :
    KeepsCounter depth (modify f : Render PUnit) := h

theorem logged (act : Logged α) : KeepsCounter depth (logged act) := fun _ => rfl

theorem inFrame (frame : Frame) (act : Render α) : KeepsCounter depth (inFrame frame act) :=
  fun _ => rfl

theorem setCounter {other : Nat} (h : depth ≠ other) (count : Nat) :
    KeepsCounter depth (setCounter other count) := by
  intro s
  rw [outcome_setCounter]
  split
  · exact s.frame.counter?_withCounter_of_ne h count
  · rfl

theorem eval (env : RenderEnv) (e : Expr) : KeepsCounter depth (eval env e) :=
  .bind .get fun _ => .logged _

theorem resolve (env : RenderEnv) (v : Var) : KeepsCounter depth (resolve env v) :=
  .bind .get fun _ => .logged _

theorem faultIfAny (f : Option RenderFault) : KeepsCounter depth (faultIfAny f) := by
  cases f with
  | none => exact .pure
  | some f => exact .throw

theorem write (mode : Mode) (name : String) (keys : List String) (value : Value) :
    KeepsCounter depth (write mode name keys value) := by
  refine bind_get fun s => ?_
  split
  · rw [outcome_bind_ok (outcome_set _)]
    exact faultIfAny _ _
  · dsimp only
    generalize (Value.setPath _ _ _).fault = fault
    cases fault <;> rfl

theorem assign (env : RenderEnv) (target : Path) (value : Value) :
    KeepsCounter depth (assign env target value) := by
  refine .bind .get fun s => .bind (.logged _) fun names => ?_
  cases names with
  | nil => exact .pure
  | cons name keys => exact .write target.mode name keys value

theorem load (env : RenderEnv) (href : String) : KeepsCounter depth (load env href) := by
  intro s
  rw [outcome_load]
  cases s.loader <;> rfl

theorem call (env : RenderEnv) (room : Nat) (call : Call) :
    KeepsCounter depth (call.render env room) := by
  cases room with
  | zero => exact .throw
  | succ room => exact .inFrame _ _

/-- Every step of rendering but the loops of a depth keeps the counter of that depth. -/
theorem steps (env : RenderEnv) (depth : Nat) : CallRelation env env
    (fun i => ∀ loop, i = .beginFor loop → depth ≠ loop.depth) fun m _ => KeepsCounter depth m where
  pure _ := .pure
  fault _ := .throw
  bind := .bind
  eval := .eval env
  resolve := .resolve env
  assign _ _ target _ value := .assign env target value
  setCounter loop h count := .setCounter (h loop rfl) count
  counterAt _ := .bind .get fun _ => .pure
  blockNamed _ := .bind .get fun _ => .pure
  load := .load env
  warn := .logged _
  hoist _ := .modify fun _ => rfl
  inFrame frame m _ _ := .inFrame frame m

end KeepsCounter

end Render

open Render

/-- No loop of a depth begins in a row. -/
def Clear (depth : Nat) (is : List Instruction) : Prop :=
  ∀ loop, .beginFor loop ∈ is → depth ≠ loop.depth

/-- Rendering a tree without loops of a depth keeps the counter of that depth. -/
theorem Tree.keepsCounter {depth : Nat} {env : RenderEnv} {enter : Call → Render String}
    (henter : ∀ call, KeepsCounter depth (enter call)) (items : Tree)
    (h : Clear depth (Tree.flatten items)) : KeepsCounter depth (Tree.render env enter items) := by
  have hsteps := KeepsCounter.steps env depth
  have henters : EntersAlike env env _ (fun m _ => KeepsCounter depth m) enter enter :=
    hsteps.enters fun _ _ _ => henter _
  refine hsteps.tree henters items ?_
  rintro i hi loop rfl
  exact h loop hi

/-! Loops and the sections behind them. -/

/-- Renders a loop and keeps the number of its entries. The clause is rendered once, behind the
visits, if there are no entries, and else not at all. -/
def Loop.counted (env : RenderEnv) (loop : Loop) (body clause : Render String) :
    Render (String × Nat) := do
  let entries := (← eval env loop.collection).entries
  setCounter loop.depth 0
  let text ← joined (loop.visit env body) entries.zipIdx
  setCounter loop.depth entries.length
  if entries.length = 0 then return (text ++ (← clause), 0) else return (text, entries.length)

section Sections

variable {env : RenderEnv} {enter : Call → Render String} {loop : Loop}
  {body clause : Render String}

theorem Loop.render_eq_counted (env : RenderEnv) (loop : Loop) (body clause : Render String) :
    loop.render env body clause = Prod.fst <$> loop.counted env body clause := by
  simp only [Loop.render, Loop.counted, map_bind, List.isEmpty_iff, List.length_eq_zero_iff]
  refine bind_congr fun collection => bind_congr fun _ => bind_congr fun text =>
    bind_congr fun _ => ?_
  split <;> simp

/-- A counter that has been set is there. -/
theorem Render.setCounter_ensures (depth count : Nat) :
    Markup.Ensures (fun _ => True) (setCounter depth count) fun _ s =>
      s.frame.counter? depth = some count := by
  intro s _ u s' hrun
  rw [outcome_setCounter] at hrun
  split at hrun
  · cases hrun
    exact s.frame.counter?_withCounter depth count
  · cases hrun

/-- The counter of a loop is left at the number of its entries. -/
theorem Loop.counted_ensures (hclause : KeepsCounter loop.depth clause) :
    Markup.Ensures (fun _ => True) (loop.counted env body clause) fun r s =>
      s.frame.counter? loop.depth = some r.2 := by
  refine .after fun collection => .after fun _ => .after fun text => ?_
  refine .bind (Q := fun _ s =>
    s.frame.counter? loop.depth = some collection.entries.length) ?_ fun _ => ?_
  · exact setCounter_ensures _ _
  · split
    · rename_i hnone
      refine .bind (Q := fun _ s => s.frame.counter? loop.depth = some 0) ?_ fun more =>
        .pure fun _ h => h
      intro s hs more s' hrun
      have hkept := hclause s
      rw [hrun] at hkept
      rw [← hnone, ← hs]
      exact hkept
    · exact .pure fun _ h => h

theorem Tree.render_append (items items' : Tree) : Tree.render env enter (items ++ items') =
    (Tree.render env enter items).before (Tree.render env enter items') := by
  induction items with
  | nil => exact (Render.nothing_before _).symm
  | cons item items ih =>
    rw [List.cons_append, Tree.render, Tree.render, ih]
    simp only [Render.before, bind_assoc, pure_bind, String.append_assoc]

theorem Tree.render_one (item : Item) :
    Tree.render env enter [item] = item.render env enter := by
  simp [Tree.render]

/-- A section behind a loop is rendered exactly when that loop has just found no entries. -/
theorem Tree.render_section (henter : ∀ call, KeepsCounter loop.depth (enter call)) {item : Item}
    (hitem : item.render env enter = loop.render env body clause)
    (hclause : KeepsCounter loop.depth clause) {mid : Tree}
    (hmid : Clear loop.depth (Tree.flatten mid)) (own rest : Tree) :
    Tree.render env enter (item :: (mid ++ .empty loop.depth own :: rest)) = (do
      let (text, count) ← loop.counted env body clause
      let between ← Tree.render env enter mid
      let within ← if count = 0 then Tree.render env enter own else pure ""
      let behind ← Tree.render env enter rest
      return text ++ (between ++ (within ++ behind))) := by
  have hkeeps : KeepsCounter loop.depth (Tree.render env enter mid) :=
    Tree.keepsCounter henter mid hmid
  rw [Tree.render, hitem, Loop.render_eq_counted, bind_map_left, Tree.render_append,
    Render.before]
  funext s
  refine outcome_bind_congr fun r s₁ hloop => ?_
  have hcount := Loop.counted_ensures hclause s trivial r s₁ hloop
  rw [bind_assoc]
  refine outcome_bind_congr fun between s₂ hbetween => ?_
  have hkept := hkeeps s₁
  rw [hbetween, hcount] at hkept
  have hsection : ∀ next : String → Render String,
      outcome (Item.render env enter (.empty loop.depth own) >>= next) s₂ =
        outcome ((if r.2 = 0 then Tree.render env enter own else pure "") >>= next) s₂ := by
    intro next
    rw [Item.render, bind_assoc, outcome_bind_ok outcome_get, hkept]
    simp only [Option.some.injEq]
  rw [Tree.render]
  simp only [bind_assoc, pure_bind]
  refine (hsection _).trans ?_
  split
  · rfl
  · rw [pure_bind]

end Sections

namespace Template

/-- The inline section of a loop, run for itself. -/
def clauseBody (t : Template) (run : RunRange) (i : Nat) : Render String :=
  match (t.link i).clause with
  | some c => run (c + 1) (t.link c).next
  | none => return ""

/-- Whenever the loop at `i` is run, what stands in the section at `c` is run once behind all visits
if there are no entries. It is not run if there is one, and no visit runs it. -/
def RunsInline (t : Template) (i c : Nat) (loop : Loop) : Prop :=
  ∀ env room fuel, (t.link i).next - i < fuel → fuel ≤ t.size →
    let run := range env (enter env room) t fuel
    let body : Render String := do
      let before ← run (i + 1) c
      return before ++ (← run ((t.link c).next + 1) (t.link i).next)
    run i ((t.link i).next + 1) = Prod.fst <$> loop.counted env body (run (c + 1) (t.link c).next)

/-- Whenever a body is run from the loop at `i` on, the section at `c` is run in its turn, and what
stands in it exactly if the loop has just had no entries. -/
def RunsBehind (t : Template) (i c : Nat) (loop : Loop) : Prop :=
  ∀ env room fuel stop, t.Balanced ((t.link c).next + 1) stop → stop - i ≤ fuel → fuel ≤ t.size →
    let run := range env (enter env room) t fuel
    run i stop = do
      let (text, count) ← loop.counted env (loopBody t run i) (t.clauseBody run i)
      let between ← run ((t.link i).next + 1) c
      let within ← if count = 0 then run (c + 1) (t.link c).next else pure ""
      let behind ← run ((t.link c).next + 1) stop
      return text ++ (between ++ (within ++ behind))

variable {t : Template} {i j c depth : Nat} {loop : Loop} {env : RenderEnv}
  {enter : Call → Render String} {fuel : Nat} {items : Tree}

/-- Running a stretch is rendering the tree that stands there. -/
theorem Stretch.run (h : t.Stretch i j items) (hfuel : j - i ≤ fuel) (hsize : fuel ≤ t.size) :
    range env enter t fuel i j = Tree.render env enter items := by
  have hj := h.size
  have hrun := Tree.run_eq env enter fuel hsize items i h.holds (by omega)
  rwa [hj] at hrun

theorem runsInline (hi : t.instructions[i]? = some (.beginFor loop))
    (hclause : (t.link i).clause = some c) : t.RunsInline i c loop := by
  obtain ⟨before, depth, clause, after, hc, hbefore, hwithin, hafter, hloop⟩ :=
    loopElse_stretch hi hclause
  intro env room fuel hfuel hsize
  have hic := hbefore.le_right
  have hcn := hwithin.le_right
  have hni := hafter.le_right
  dsimp only
  rw [hloop.run (by omega) hsize, hbefore.run (by omega) hsize, hwithin.run (by omega) hsize,
    hafter.run (by omega) hsize, Tree.render_one, Item.render, Loop.render_eq_counted]

/-- Whatever a loop holds inline, it is an item by itself, and rendering the inline section keeps
the counter of the loop. -/
theorem loop_item (hplaced : Placed t.instructions.toList)
    (hi : t.instructions[i]? = some (.beginFor loop)) :
    ∃ item, t.Stretch i ((t.link i).next + 1) [item] ∧ ∀ env room fuel, (t.link i).next - i < fuel →
      fuel ≤ t.size →
      item.render env (Render.enter env room) = loop.render env
        (loopBody t (range env (Render.enter env room) t fuel) i)
        (t.clauseBody (range env (Render.enter env room) t fuel) i) ∧
      KeepsCounter loop.depth (t.clauseBody (range env (Render.enter env room) t fuel) i) := by
  cases hclause : (t.link i).clause with
  | none =>
    obtain ⟨body, hbody, hloop⟩ := loop_stretch hi hclause
    have hle := hbody.le_right
    refine ⟨_, hloop, fun env room fuel hfuel hsize => ?_⟩
    simp only [clauseBody, loopBody, hclause, hbody.run (show _ ≤ fuel by omega) hsize, Item.render]
    exact ⟨trivial, .pure⟩
  | some k =>
    obtain ⟨before, depth, clause, after, hk, hbefore, hwithin, hafter, hloop⟩ :=
      loopElse_stretch hi hclause
    have hik := hbefore.le_right
    have hkn := hwithin.le_right
    have hni := hafter.le_right
    have hopen : loopsOpen 0 (t.segment 0 (k + 1)) = some loop.depth := by
      rw [segment_zero_succ hk, loopsOpen_append, hbefore.loopsOpen_eq, loopsOpen_behind hplaced hi]
      rfl
    have hclear : Clear loop.depth (Tree.flatten clause) := fun inner hinner =>
      Nat.ne_of_lt (depth_lt_of_inside hplaced hwithin hopen hinner)
    refine ⟨_, hloop, fun env room fuel hfuel hsize => ?_⟩
    simp only [clauseBody, loopBody, hclause, hbefore.run (show _ ≤ fuel by omega) hsize,
      hwithin.run (show _ ≤ fuel by omega) hsize, hafter.run (show _ ≤ fuel by omega) hsize,
      Item.render]
    refine ⟨trivial, Tree.keepsCounter (fun call => ?_) clause hclear⟩
    rw [enter_eq]
    exact .call env room call

theorem runsBehind (hplaced : Placed t.instructions.toList)
    (hi : t.instructions[i]? = some (.beginFor loop))
    (hc : t.instructions[c]? = some (.beginEmpty loop.depth false))
    (hmid : t.Stretch ((t.link i).next + 1) c items)
    (hnone : anyLoop (Tree.flatten items) = false) :
    t.RunsBehind i c loop := by
  rintro env room fuel stop ⟨rest, hrest⟩ hfuel hsize
  obtain ⟨own, hown, hsection⟩ := section_stretch hc
  obtain ⟨item, hloop, hitem⟩ := loop_item hplaced hi
  have hle := hloop.size
  have hpos := item.size_pos
  have hmidLe := hmid.le_right
  have hownLe := hown.le_right
  have hrestLe := hrest.le_right
  rw [Tree.size_cons] at hle
  obtain ⟨hrender, hclause⟩ := hitem env room fuel (by omega) hsize
  have henter : ∀ call, KeepsCounter loop.depth (Render.enter env room call) := by
    intro call
    rw [enter_eq]
    exact .call env room call
  have hclear : Clear loop.depth (Tree.flatten items) := fun inner hinner =>
    absurd hinner (anyLoop_eq_false_iff.mp hnone inner)
  have hall := ((hloop.append hmid).append hsection).append hrest
  dsimp only
  rw [hall.run (by omega) hsize, hmid.run (by omega) hsize, hown.run (by omega) hsize,
    hrest.run (by omega) hsize, ← Tree.render_section henter hrender hclause hclear own rest]
  simp

end Template

/-- Empty sections follow their loops, in what every source over the directives compiles to. A
section belongs to a loop exactly if it stands directly in it with no other loop in front; then it
is run when that loop has no entries. A section that follows a loop in the same body, with no other
loop between them, is run exactly when that loop has had no entries in the same pass. -/
theorem sections_follow_loops {source : String} {dir : Option String} {t : Template}
    (h : compile .builtin source dir = .ok t) {i c depth : Nat} {loop : Loop} {inLoop : Bool}
    (hi : t.instructions[i]? = some (.beginFor loop))
    (hc : t.instructions[c]? = some (.beginEmpty depth inLoop)) :
    ((t.link i).clause = some c ↔
      t.Balanced (i + 1) c ∧ ∀ inner, .beginFor inner ∉ t.segment (i + 1) c) ∧
    ((t.link i).clause = some c →
      inLoop = true ∧ depth = loop.depth ∧ t.RunsInline i c loop) ∧
    (t.Balanced ((t.link i).next + 1) c →
      (∀ inner, .beginFor inner ∉ t.segment ((t.link i).next + 1) c) →
      inLoop = false ∧ depth = loop.depth ∧ t.RunsBehind i c loop) := by
  have hplaced := compile_placed h
  have hinline : (t.link i).clause = some c →
      inLoop = true ∧ ∃ items, t.Stretch (i + 1) c items := by
    intro hclause
    obtain ⟨before, d, _, _, hk, hbefore, -⟩ := Template.loopElse_stretch hi hclause
    obtain ⟨-, rfl⟩ : depth = d ∧ inLoop = true := by
      simpa using hc.symm.trans hk
    exact ⟨rfl, before, hbefore⟩
  refine ⟨⟨?_, ?_⟩, ?_, ?_⟩
  · intro hclause
    obtain ⟨rfl, items, hinside⟩ := hinline hclause
    obtain ⟨-, hnone⟩ := Template.depth_of_inline hplaced hi hc hinside
    exact ⟨⟨items, hinside⟩, anyLoop_eq_false_iff.mp hnone⟩
  · rintro ⟨⟨items, hinside⟩, hnone⟩
    obtain rfl := Template.inline_of_inside hplaced hi hc hinside (anyLoop_eq_false_iff.mpr hnone)
    exact Template.clause_of_inline hi hc hinside
  · intro hclause
    obtain ⟨rfl, items, hinside⟩ := hinline hclause
    obtain ⟨hdepth, -⟩ := Template.depth_of_inline hplaced hi hc hinside
    exact ⟨rfl, hdepth, Template.runsInline hi hclause⟩
  · rintro ⟨items, hmid⟩ hnone
    obtain ⟨item, hloop, -⟩ := Template.loop_item hplaced hi
    obtain ⟨rfl, rfl⟩ :=
      Template.depth_of_behind hplaced hi hc (Template.loop_closed hi) hloop hmid
    refine ⟨rfl, rfl, Template.runsBehind hplaced hi hc hmid ?_⟩
    rw [hmid.flatten]
    exact anyLoop_eq_false_iff.mpr hnone

/-- A loop with an inline section, and another section behind it. -/
def rowsOrNone : String :=
  "\x7bfor $x in $xs\x7d-\x7bempty\x7dnone\x7b/empty\x7d\x7b/for\x7d, \x7bempty\x7dnothing\x7b/empty\x7d"

def Instruction.isLiteral : Instruction → Bool
  | .literal _ => true
  | _ => false

/-- The depth of an empty section and whether it is inline. -/
def Instruction.emptyAt? : Instruction → Option (Nat × Bool)
  | .beginEmpty depth inLoop => some (depth, inLoop)
  | _ => none

set_option maxRecDepth 4000 in
theorem sections_follow_rowsOrNone : ∃ t loop, compile .builtin rowsOrNone none = .ok t ∧
    t.instructions[0]? = some (.beginFor loop) ∧ t.instructions[7]? = some (.beginEmpty 1 false) ∧
    loop.depth = 1 ∧ t.RunsBehind 0 7 loop := by
  have hcheck : (compile .builtin rowsOrNone none).toOption.any (fun t =>
      decide ((t.link 0).next = 5) && t.instructions[0]?.any Instruction.isLoop &&
        t.instructions[6]?.any Instruction.isLiteral &&
        t.instructions[7]?.any (·.emptyAt? = some (1, false))) = true := by decide +kernel
  obtain ⟨t, ht, hcheck⟩ := exists_ok_of_any hcheck
  simp only [Bool.and_eq_true, decide_eq_true_eq, Option.any_eq_true] at hcheck
  obtain ⟨⟨⟨hnext, opener, hi, hloop⟩, middle, hm, hmiddle⟩, clause, hc, hclause⟩ := hcheck
  cases opener with
  | beginFor loop =>
    cases middle with
    | literal text =>
      cases clause with
      | beginEmpty depth inLoop =>
        obtain ⟨rfl, rfl⟩ := Prod.mk.inj (Option.some.inj hclause)
        have hsegment : t.segment 6 7 = [.literal text] := Template.segment_one hm
        have hbetween : t.Balanced ((t.link 0).next + 1) 7 := by
          rw [hnext]
          exact ⟨[.leaf (.literal text)], .of_flatten hsegment.symm (by omega)
            (Nat.le_of_lt (Template.lt_size hc))⟩
        obtain ⟨-, hdepth, hruns⟩ := (sections_follow_loops ht hi hc).2.2 hbetween (by
          rw [hnext, hsegment]
          simp)
        exact ⟨t, loop, ht, hi, hc, hdepth.symm, hruns⟩
      | _ => cases hclause
    | _ => cases hmiddle
  | _ => cases hloop

end BraceTemplate
