import BraceTemplate.Proofs.Render.Structured

/-!
Rendering by links is rendering by structure: whatever stretch of a template is run, it is the
layout of a tree, and running it is rendering that tree.
-/
namespace BraceTemplate

/-! Counting. -/

theorem counterValues_of_lt {start step stop : Int} (h : stop < start) :
    counterValues start step stop = [] := by
  rw [counterValues, if_pos h]

theorem counterValues_eq {start step stop : Int} {n : Nat} (h : start ≤ stop)
    (hn : (stop - start) / step = n) : counterValues start step stop = start ::
      ((List.range n).map fun (k : Nat) => start + (k + 1) * step).takeWhile Decimal.fits := by
  rw [counterValues, if_neg (by omega), hn, Int.toNat_natCast]

/-- Behind its first value a counter goes on from the next one, if that is an integer. -/
theorem counterValues_of_le {start step stop : Int} (hs : 0 < step) (h : start ≤ stop) :
    counterValues start step stop = start ::
      if Decimal.fits (start + step) then counterValues (start + step) step stop else [] := by
  have hnext : (stop - (start + step)) / step = (stop - start) / step - 1 := by
    rw [← Int.sub_sub, Int.sub_ediv_of_dvd _ (Int.dvd_refl step), Int.ediv_self (by omega)]
  have hpos : 0 ≤ (stop - start) / step := Int.ediv_nonneg (by omega) (by omega)
  obtain ⟨n, hn⟩ := Int.eq_ofNat_of_zero_le hpos
  cases n with
  | zero =>
    have hlast : stop < start + step := by
      have hlt := Int.lt_mul_of_ediv_lt hs (show (stop - start) / step < 1 by omega)
      omega
    rw [counterValues_eq h hn, counterValues_of_lt hlast]
    simp
  | succ n =>
    have hmore : start + step ≤ stop := by
      have hle := Int.mul_le_of_le_ediv hs (show (1 : Int) ≤ (stop - start) / step by omega)
      omega
    have hshift : (fun k : Nat => start + ((k.succ : Int) + 1) * step) =
        fun k : Nat => start + step + (k + 1) * step := by
      funext k
      rw [Int.natCast_succ, Int.add_mul (k + 1), Int.one_mul, Int.add_assoc start,
        Int.add_comm step]
    have hmap : (List.range (n + 1)).map (fun (k : Nat) => start + (k + 1) * step) =
        (start + step) :: (List.range n).map fun (k : Nat) => start + step + (k + 1) * step := by
      rw [List.range_succ_eq_map, List.map_cons, List.map_map]
      congr 1
      · simp
      · rw [← hshift]
        rfl
    have htail : counterValues (start + step) step stop = _ :=
      counterValues_eq hmore (n := n) (by omega)
    rw [counterValues_eq h hn, hmap, List.takeWhile_cons, htail]

/-- Counting with enough fuel passes through the values of the counter. -/
theorem Render.countUp_eq {step stop : Int} (hs : 0 < step) (body : Int → Render String)
    (fuel : Nat) (i : Int) (hfuel : (stop - i + 1).toNat ≤ fuel) :
    countUp step stop body fuel i = joined body (counterValues i step stop) := by
  induction fuel generalizing i with
  | zero =>
    rw [counterValues_of_lt (by omega)]
    rfl
  | succ fuel ih =>
    rw [countUp]
    by_cases hi : stop < i
    · rw [if_pos hi, counterValues_of_lt hi]
      rfl
    · rw [if_neg hi, counterValues_of_le hs (by omega), joined]
      congr 1
      funext text
      split
      · rw [ih _ (by omega)]
      · simp [joined]

/-! Visiting. -/

/-- Visiting entries counts them. -/
theorem Render.visit_eq (env : RenderEnv) (loop : Loop) (body : Render String) (count : Nat)
    (entries : List (Value × Value)) : visit env loop body count entries =
      (do
        let text ← joined (loop.visit env body) (entries.zipIdx count)
        return (text, count + entries.length)) := by
  induction entries generalizing count with
  | nil => simp [visit, joined]
  | cons entry entries ih =>
    obtain ⟨key, value⟩ := entry
    have hlength : count + 1 + entries.length = count + (entries.length + 1) := by omega
    cases hk : loop.key <;>
      simp [visit, ih, joined, Loop.visit, hk, hlength]

namespace Template

variable {t : Template} {i : Nat} {env : RenderEnv} {enter : Render.Call → Render String}

/-- Runs render the trees below a size. -/
def RunsBelow (t : Template) (env : RenderEnv) (enter : Render.Call → Render String)
    (run : Render.RunRange) (size : Nat) : Prop :=
  ∀ items i, t.Holds i (Tree.layout i items) → Tree.size items < size →
    run i (i + Tree.size items) = Tree.render env enter items

theorem RunsBelow.mono {run : Render.RunRange} {size size' : Nat}
    (h : t.RunsBelow env enter run size) (hs : size' ≤ size) : t.RunsBelow env enter run size' :=
  fun items i hi hlt => h items i hi (Nat.lt_of_lt_of_le hlt hs)

end Template

open Template

theorem Render.branches_end {t : Template} {env : RenderEnv} {run : RunRange} {i : Nat}
    (h : t.instructions[i]? = some .endIf) (fuel : Nat) (taken : Bool) :
    branches env t run fuel taken i = return ("", i + 1) := by
  cases fuel with
  | zero => rfl
  | succ fuel => simp [branches, h]

/-- Behind the branch that was taken the others are passed. -/
theorem Branches.passed {t : Template} (env : RenderEnv) (run : Render.RunRange) {i : Nat} :
    (others : Branches) → (fuel : Nat) → t.Holds i (others.layout i) → others.size ≤ fuel →
    Render.branches env t run fuel true i = return ("", i + others.size)
  | .done, fuel, h, _ => by
    rw [Branches.layout] at h
    exact Render.branches_end h.head.1 fuel true
  | others, 0, _, hf => by
    have hpos := others.size_pos
    omega
  | .otherwise body, fuel + 1, h, hf => by
    rw [Branches.layout] at h
    have hend := (h.tail.right (by rw [Tree.length_layout])).head.1
    rw [Render.branches]
    simp only [h.head.1, h.head.2, ↓reduceIte, pure_bind, Bool.false_eq_true]
    rw [Render.branches_end hend, Branches.size_otherwise, show i + (Tree.size body + 2) =
      i + 1 + Tree.size body + 1 by omega]
  | .elseIf c body others, fuel + 1, h, hf => by
    rw [Branches.layout] at h
    rw [Branches.size_elseIf] at hf
    have hrest := others.passed env run fuel
      (h.tail.right (by rw [Tree.length_layout])) (by omega)
    rw [Render.branches]
    simp only [h.head.1, h.head.2, ↓reduceIte, pure_bind, Bool.false_eq_true]
    rw [hrest, Branches.size_elseIf]
    congr 2
    omega

/-- A condition decides between its own branch and the ones behind it. -/
theorem Branches.condition {t : Template} {env : RenderEnv} {enter : Render.Call → Render String}
    {run : Render.RunRange} {i fuel : Nat} {opener : Instruction} {c : Expr} {body : Tree}
    (others : Branches) (hopener : opener = .beginIf c ∨ opener = .elseIf c)
    (h : t.Holds i ((opener, ⟨i + 1 + Tree.size body, none⟩) ::
      (Tree.layout (i + 1) body ++ others.layout (i + 1 + Tree.size body))))
    (hbody : run (i + 1) (i + 1 + Tree.size body) = Tree.render env enter body)
    (hfuel : others.size ≤ fuel)
    (hothers : Render.branches env t run fuel false (i + 1 + Tree.size body) =
      (fun text => (text, i + 1 + Tree.size body + others.size)) <$> others.render env enter) :
    Render.branches env t run (fuel + 1) false i =
      (fun text => (text, i + 1 + Tree.size body + others.size)) <$>
        Render.choose env c (Tree.render env enter body) (others.render env enter) := by
  have hpassed := others.passed env run fuel
    (h.tail.right (by rw [Tree.length_layout])) hfuel
  rw [Render.branches, Render.choose, map_bind]
  rcases hopener with rfl | rfl
  all_goals
    simp only [h.head.1, h.head.2, ↓reduceIte, Bool.false_eq_true, pure_bind]
    refine bind_congr fun value => ?_
    split <;> simp [hpassed, hbody, hothers]

/-- The first branch whose condition holds is run, and the index behind the conditional is found. -/
theorem Branches.run_eq {t : Template} {env : RenderEnv} {enter : Render.Call → Render String}
    {run : Render.RunRange} {i size : Nat} (hrun : t.RunsBelow env enter run size) :
    (others : Branches) → (fuel : Nat) → t.Holds i (others.layout i) → others.size ≤ fuel →
    others.size ≤ size → Render.branches env t run fuel false i =
      (fun text => (text, i + others.size)) <$> others.render env enter
  | .done, fuel, h, _, _ => by
    rw [Branches.layout] at h
    rw [Render.branches_end h.head.1]
    simp [Branches.render]
  | others, 0, _, hf, _ => by
    have hpos := others.size_pos
    omega
  | .otherwise body, fuel + 1, h, hf, hs => by
    rw [Branches.layout] at h
    rw [Branches.size_otherwise] at hs
    have hend := (h.tail.right (by rw [Tree.length_layout])).head.1
    have hbody := hrun body (i + 1) h.tail.left (by omega)
    have hstop : i + 1 + Tree.size body + 1 = i + (Branches.otherwise body).size := by
      rw [Branches.size_otherwise]
      omega
    rw [Render.branches]
    simp only [h.head.1, h.head.2, ↓reduceIte, pure_bind, Bool.false_eq_true]
    rw [Render.branches_end hend, hbody, hstop]
    simp [Branches.render]
  | .elseIf c body others, fuel + 1, h, hf, hs => by
    rw [Branches.layout] at h
    rw [Branches.size_elseIf] at hf hs
    have hothers := others.run_eq hrun fuel (h.tail.right (by rw [Tree.length_layout]))
      (by omega) (by omega)
    have hbody := hrun body (i + 1) h.tail.left (by omega)
    have hstop : i + 1 + Tree.size body + others.size =
        i + (Branches.elseIf c body others).size := by
      rw [Branches.size_elseIf]
      omega
    rw [others.condition (.inr rfl) h hbody (by omega) hothers, hstop, Branches.render]

theorem Leaf.run_eq {t : Template} {env : RenderEnv} {enter : Render.Call → Render String}
    {run : Render.RunRange} {i : Nat} (l : Leaf) :
    Render.instruction env enter t run i l.instruction =
      (fun text => (text, i + 1)) <$> l.render env enter := by
  cases l with
  | «include» parts =>
    rw [Leaf.instruction, Render.instruction, Leaf.render, map_bind]
    refine bind_congr fun call => ?_
    cases call <;> simp
  | _ => simp [Leaf.instruction, Render.instruction, Leaf.render]

/-- Running a loop is rendering it, if its parts are run as they are rendered. -/
theorem Render.forEach_eq {t : Template} {env : RenderEnv} {run : RunRange} {i : Nat} {loop : Loop}
    {body : Render String} (hbody : loopBody t run i = body) : forEach env t run i loop =
      loop.render env body (match (t.link i).clause with
        | some clause => run (clause + 1) (t.link clause).next
        | none => return "") := by
  rw [forEach, Loop.render]
  refine bind_congr fun collection => ?_
  simp only [visit_eq, hbody, bind_assoc, pure_bind, Nat.zero_add]
  refine bind_congr fun _ => bind_congr fun text => bind_congr fun _ => ?_
  cases collection.entries with
  | nil => cases (t.link i).clause <;> simp
  | cons entry entries => simp

theorem Render.counting_eq {t : Template} {env : RenderEnv} {run : RunRange} {i : Nat}
    {c : Counting} {body : Render String} (hbody : run (i + 1) (t.link i).next = body) :
    counting env t run i c = c.render env body := by
  rw [counting, Counting.render]
  refine bind_congr fun start => bind_congr fun step => bind_congr fun stop => ?_
  split
  · rfl
  · rw [countUp_eq (by omega) _ _ _ (Nat.le_refl _), hbody]

/-- An item that stands at an index is run by its first instruction. -/
theorem Item.run_eq {t : Template} {env : RenderEnv} {enter : Render.Call → Render String}
    {run : Render.RunRange} {i : Nat} (item : Item) (hrun : t.RunsBelow env enter run item.size)
    (h : t.Holds i (item.layout i)) (hsize : item.size ≤ t.size) :
    ∃ m, t.instructions[i]? = some m ∧ Render.instruction env enter t run i m =
      (fun text => (text, i + item.size)) <$> item.render env enter := by
  cases item with
  | leaf l => exact ⟨_, h.head.1, l.run_eq⟩
  | cond c body others =>
    rw [Item.layout] at h
    rw [Item.size_cond] at hrun hsize
    have hbody := hrun body (i + 1) h.tail.left (by omega)
    have hothers := others.run_eq hrun (t.size - 1) (h.tail.right (by rw [Tree.length_layout]))
      (by omega) (by omega)
    have hstop : i + 1 + Tree.size body + others.size = i + (Item.cond c body others).size := by
      rw [Item.size_cond]
      omega
    refine ⟨_, h.head.1, ?_⟩
    rw [Render.instruction, show t.size = t.size - 1 + 1 by omega,
      others.condition (.inl rfl) h hbody (by omega) hothers, hstop, Item.render]
  | loop loop body =>
    rw [Item.layout] at h
    rw [Item.size_loop] at hrun
    have hlink : t.link i = ⟨i + 1 + Tree.size body, none⟩ := h.head.2
    have hbody : Render.loopBody t run i = Tree.render env enter body := by
      rw [Render.loopBody, hlink]
      exact hrun body (i + 1) h.tail.left (by omega)
    have hstop : i + 1 + Tree.size body + 1 = i + (Item.loop loop body).size := by
      rw [Item.size_loop]
      omega
    refine ⟨_, h.head.1, ?_⟩
    rw [Render.instruction, Render.forEach_eq hbody, Item.render]
    simp only [hlink, hstop, bind_pure_comp]
  | loopElse loop before depth clause after =>
    rw [Item.layout] at h
    rw [Item.size_loopElse] at hrun
    have hmid := h.tail.right (by rw [Tree.length_layout])
    have hend := hmid.tail.right (by rw [Tree.length_layout])
    have hbefore := hrun before _ h.tail.left (by omega)
    have hclause := hrun clause _ hmid.tail.left (by omega)
    have hafter := hrun after _ hend.tail.left (by omega)
    have hbody : Render.loopBody t run i = do
        let text ← Tree.render env enter before
        return text ++ (← Tree.render env enter after) := by
      simp only [Render.loopBody, h.head.2, hmid.head.2, hbefore, hafter]
    have hstop : i + 1 + Tree.size before + 1 + Tree.size clause + 1 + Tree.size after + 1 =
        i + (Item.loopElse loop before depth clause after).size := by
      rw [Item.size_loopElse]
      omega
    refine ⟨_, h.head.1, ?_⟩
    rw [Render.instruction, Render.forEach_eq hbody, Item.render]
    simp only [h.head.2, hmid.head.2, hclause, hstop, bind_pure_comp]
  | empty depth body =>
    rw [Item.layout] at h
    rw [Item.size_empty] at hrun
    have hbody := hrun body (i + 1) h.tail.left (by omega)
    have hstop : i + 1 + Tree.size body + 1 = i + (Item.empty depth body).size := by
      rw [Item.size_empty]
      omega
    refine ⟨_, h.head.1, ?_⟩
    rw [Render.instruction, Item.render, map_bind]
    simp only [h.head.2, hbody, hstop, Bool.not_false, Bool.true_and, decide_eq_true_eq]
    refine bind_congr fun s => ?_
    split <;> simp
  | block name params body =>
    rw [Item.layout] at h
    have hstop : i + 1 + Tree.size body + 1 = i + (Item.block name params body).size := by
      rw [Item.size_block]
      omega
    refine ⟨_, h.head.1, ?_⟩
    rw [Render.instruction, Item.render]
    simp only [h.head.2, hstop, map_pure]
  | range c body =>
    rw [Item.layout] at h
    rw [Item.size_range] at hrun
    have hlink : t.link i = ⟨i + 1 + Tree.size body, none⟩ := h.head.2
    have hbody : run (i + 1) (t.link i).next = Tree.render env enter body := by
      rw [hlink]
      exact hrun body (i + 1) h.tail.left (by omega)
    have hstop : i + 1 + Tree.size body + 1 = i + (Item.range c body).size := by
      rw [Item.size_range]
      omega
    refine ⟨_, h.head.1, ?_⟩
    rw [Render.instruction, Render.counting_eq hbody, Item.render]
    simp only [hlink, hstop, bind_pure_comp]

/-- Running a stretch with fuel for its length is rendering the tree that stands there. -/
theorem Tree.run_eq {t : Template} (env : RenderEnv) (enter : Render.Call → Render String)
    (fuel : Nat) (hfuel : fuel ≤ t.size) :
    t.RunsBelow env enter (Render.range env enter t fuel) (fuel + 1) := by
  induction fuel with
  | zero =>
    intro items i _ hs
    cases items with
    | nil => rfl
    | cons item items =>
      have hpos := item.size_pos
      rw [Tree.size_cons] at hs
      omega
  | succ fuel ih =>
    intro items i h hs
    cases items with
    | nil =>
      rw [Render.range, if_pos (by simp)]
      rfl
    | cons item items =>
      have hpos := item.size_pos
      rw [Tree.size_cons] at hs ⊢
      rw [Tree.layout] at h
      have hruns := ih (by omega)
      obtain ⟨m, hm, hrun⟩ := item.run_eq (hruns.mono (by omega)) h.left (by omega)
      have hrest := hruns items (i + item.size) (h.right (by rw [Item.length_layout])) (by omega)
      rw [Nat.add_assoc] at hrest
      rw [Render.range, if_neg (by omega), hm]
      simp only [hrun, bind_map_left, hrest, Tree.render]

/-! Entering. -/

theorem Tree.ofInstructions_eq {is : List Instruction} {items : Tree}
    (h : Tree.flatten items = is) : Tree.ofInstructions is = items := by
  rw [Tree.ofInstructions, Tree.ofInstructions?_eq_some_iff.mpr h, Option.getD_some]

theorem Template.denotes_tree (t : Template) : t.Denotes t.tree := by
  obtain ⟨items, h⟩ := t.denotes
  rw [Template.tree, Tree.ofInstructions_eq h.instructions]
  exact h

theorem Template.size_tree (t : Template) : Tree.size t.tree = t.size := by
  rw [← Tree.length_flatten, t.denotes_tree.instructions, Array.length_toList, Template.size]

/-- The tree of a block stands between the markers of the block. -/
theorem Block.holds_tree (b : Block) :
    b.template.Holds b.body.start (Tree.layout b.body.start b.tree) ∧
      b.body.start + Tree.size b.tree = b.body.stop := by
  obtain ⟨items, hitems, hsize⟩ := b.holds
  have hflat := hitems.extract
  rw [Tree.length_layout, Tree.layout_instructions, hsize] at hflat
  rw [Block.tree, Block.instructions, Tree.ofInstructions_eq hflat.symm]
  exact ⟨hitems, hsize⟩

theorem Block.flatten_tree (b : Block) : Tree.flatten b.tree = b.instructions := by
  obtain ⟨hholds, hstop⟩ := b.holds_tree
  have hflat := hholds.extract
  rw [Tree.length_layout, Tree.layout_instructions, hstop] at hflat
  exact hflat.symm

namespace Render

/-- What is entered is the layout of its tree. -/
theorem Target.holds_tree (target : Target) :
    target.template.Holds target.start (Tree.layout target.start target.tree) ∧
      target.start + Tree.size target.tree = target.stop := by
  cases target with
  | block b => exact b.holds_tree
  | unit t => exact ⟨t.denotes_tree.holds, by
      rw [Target.start, Target.tree, t.size_tree, Nat.zero_add, Target.stop]⟩

/-- Entering by links is entering by structure, however deep it goes. -/
theorem enter_eq (env : RenderEnv) (room : Nat) : enter env room = Call.render env room := by
  induction room with
  | zero => rfl
  | succ room ih =>
    funext call
    obtain ⟨hholds, hstop⟩ := call.target.holds_tree
    have hsize := hholds.length_le
    rw [Tree.length_layout] at hsize
    have hrun :=
      Tree.run_eq env (enter env room) _ (Nat.le_refl _) call.target.tree _ hholds (by omega)
    rw [hstop, ih] at hrun
    rw [enter, Call.render, ih]
    simp only [hrun]

theorem template_eq (env : RenderEnv) (t : Template) : template env t = t.render env := by
  have hrun := Tree.run_eq env (enter env env.maxDepth) _ (Nat.le_refl _) t.tree 0
    t.denotes_tree.holds (by rw [t.size_tree]; omega)
  rw [Nat.zero_add, t.size_tree, enter_eq] at hrun
  rw [template, Template.render, enter_eq]
  simp only [hrun]

end Render

/-- Accepted instructions denote exactly one tree, and so does the body of every block; from every
state, rendering by links ends with the result and the state of rendering by structure. -/
theorem Template.render_refines {is : List Instruction} {dir : Option String} {t : Template}
    (h : Template.ofInstructions is dir = .ok t) :
    Tree.flatten t.tree = is ∧ (∀ items, Tree.flatten items = is → items = t.tree) ∧
      (∀ b : Block, Tree.flatten b.tree = b.instructions) ∧
      ∀ env s, (Render.template env t).run.run s = (t.render env).run.run s := by
  obtain ⟨rfl, -⟩ := Template.ofInstructions_eq_ok_iff.mp h
  have htree := t.denotes_tree.instructions
  refine ⟨htree, ?_, Block.flatten_tree, ?_⟩
  · intro items hitems
    exact Tree.flatten_injective (hitems.trans htree.symm)
  · intro env s
    rw [Render.template_eq]

theorem Template.render_refines_block : ∃ t, Template.ofInstructions
      [.beginBlock "greet" [], .literal "Hi", .endBlock, .invoke "greet" []] none = .ok t ∧
    Tree.flatten t.tree =
      [.beginBlock "greet" [], .literal "Hi", .endBlock, .invoke "greet" []] ∧
    ∀ env s, (Render.template env t).run.run s = (t.render env).run.run s := by
  obtain ⟨t, ht⟩ := (Template.ofInstructions_ok_iff _ none).mpr
    ⟨[.block "greet" [] [.leaf (.literal "Hi")], .leaf (.invoke "greet" [])], rfl, by
      simp [Tree.Shallow, Item.Shallow, Tree.flatten, Item.flatten, Leaf.instruction], by decide⟩
  obtain ⟨htree, -, -, hrun⟩ := Template.render_refines ht
  exact ⟨t, ht, htree, hrun⟩

end BraceTemplate
