import BraceTemplate.Proofs.Compile.Agreement
import BraceTemplate.Proofs.Program.Stretches

/-!
Depths of loops and empty sections: what the compiler chooses for them depends only on which
sections are open in front, and on whether a loop was closed inside of the innermost open one.
-/
namespace BraceTemplate

/-- The names of the open sections behind an instruction, innermost first. -/
def Instruction.nest (opened : List String) : Instruction → List String
  | .beginIf _ => "if" :: opened
  | .beginFor _ => "for" :: opened
  | .beginEmpty .. => "empty" :: opened
  | .beginBlock .. => "define_block" :: opened
  | .beginRange _ => "range" :: opened
  | .endIf | .endFor | .endEmpty | .endBlock | .endRange => opened.tail
  | _ => opened

def nesting (opened : List String) (is : List Instruction) : List String :=
  is.foldl Instruction.nest opened

/-- Whether a loop was closed behind the last one that was opened. -/
def closedLoop (closed : Bool) (is : List Instruction) : Bool :=
  is.foldl Instruction.closesLoop closed

/-- The depth of a loop is one more than the number of loops around it. An empty section is inline
exactly when it stands directly in a loop and no loop was closed there in front of it; else its
depth is one more. -/
def Instruction.Placed (before : List Instruction) : Instruction → Prop
  | .beginFor loop => (loopsOpen 0 before).map (· + 1) = some loop.depth
  | .beginEmpty depth inLoop =>
    (inLoop = true ↔ (nesting [] before).head? = some "for" ∧ closedLoop false before = false) ∧
      (loopsOpen 0 before).map (· + if inLoop then 0 else 1) = some depth
  | _ => True

def Placed (is : List Instruction) : Prop :=
  ∀ pre i post, is = pre ++ i :: post → i.Placed pre

section Rows

variable {opened : List String} {closed : Bool} {is js : List Instruction} {i : Instruction}

@[simp] theorem nesting_nil : nesting opened [] = opened := rfl

@[simp] theorem nesting_cons : nesting opened (i :: is) = nesting (i.nest opened) is := rfl

@[simp] theorem nesting_append :
    nesting opened (is ++ js) = nesting (nesting opened is) js := List.foldl_append

@[simp] theorem closedLoop_nil : closedLoop closed [] = closed := rfl

@[simp] theorem closedLoop_cons :
    closedLoop closed (i :: is) = closedLoop (i.closesLoop closed) is := rfl

@[simp] theorem closedLoop_append :
    closedLoop closed (is ++ js) = closedLoop (closedLoop closed is) js := List.foldl_append

theorem placed_nil : Placed [] := by
  intro pre i post h
  simp at h

theorem Placed.concat (h : Placed is) (hi : i.Placed is) : Placed (is ++ [i]) := by
  intro pre j post hsplit
  rcases concat_eq_append_cons hsplit with ⟨rfl, rfl, rfl⟩ | ⟨post', rfl, rfl⟩
  · exact hi
  · exact h pre j post' rfl

theorem Placed.of_concat (h : Placed (is ++ [i])) : Placed is := by
  intro pre j post hsplit
  exact h pre j (post ++ [i]) (by simp [hsplit])

/-- Loops that are open in front stay open. -/
theorem loopsOpen_add {n m : Nat} (h : loopsOpen n is = some m) (k : Nat) :
    loopsOpen (n + k) is = some (m + k) := by
  induction is generalizing n with
  | nil =>
    obtain rfl : n = m := Option.some.inj h
    rfl
  | cons i is ih =>
    obtain ⟨n', hi, his⟩ := Option.bind_eq_some_iff.mp h
    refine Option.bind_eq_some_iff.mpr ⟨n' + k, ?_, ih his⟩
    cases i <;>
      simp only [Instruction.loops, Option.some.injEq, Option.ite_none_left_eq_some] at hi ⊢
      <;> omega

theorem loopsOpen_append {n : Nat} :
    loopsOpen n (is ++ js) = (loopsOpen n is).bind fun m => loopsOpen m js :=
  List.foldlM_append

theorem loopsOpen_cons {n : Nat} :
    loopsOpen n (i :: is) = (i.loops n).bind fun m => loopsOpen m is := rfl

end Rows

/-! Whole nodes. -/

theorem nesting_leaf (opened : List String) (l : Leaf) :
    l.instruction.nest opened = opened := by
  cases l <;> rfl

mutual

theorem Item.nesting_flatten (opened : List String) :
    (item : Item) → nesting opened item.flatten = opened
  | .leaf l => nesting_leaf opened l
  | .cond c body others => by
    simp [Item.flatten, Instruction.nest, Tree.nesting_flatten, others.nesting_flatten]
  | .loop loop body => by simp [Item.flatten, Instruction.nest, Tree.nesting_flatten]
  | .loopElse loop before depth clause after => by
    simp [Item.flatten, Instruction.nest, Tree.nesting_flatten]
  | .empty depth body => by simp [Item.flatten, Instruction.nest, Tree.nesting_flatten]
  | .block name params body => by simp [Item.flatten, Instruction.nest, Tree.nesting_flatten]
  | .range c body => by simp [Item.flatten, Instruction.nest, Tree.nesting_flatten]

/-- Whole nodes leave the open sections as they are. -/
theorem Tree.nesting_flatten (opened : List String) :
    (items : Tree) → nesting opened (Tree.flatten items) = opened
  | [] => rfl
  | item :: items => by
    rw [Tree.flatten, nesting_append, item.nesting_flatten, Tree.nesting_flatten]

theorem Branches.nesting_flatten (opened : List String) :
    (others : Branches) → nesting ("if" :: opened) others.flatten = opened
  | .done => rfl
  | .otherwise body => by simp [Branches.flatten, Instruction.nest, Tree.nesting_flatten]
  | .elseIf c body others => by
    simp [Branches.flatten, Instruction.nest, Tree.nesting_flatten, others.nesting_flatten]

end

mutual

theorem Item.loopsOpen_flatten (n : Nat) : (item : Item) → loopsOpen n item.flatten = some n
  | .leaf l => by simp [Item.flatten, loopsOpen_cons, Draft.loops_leaf]
  | .cond c body others => by
    simp [Item.flatten, loopsOpen_cons, loopsOpen_append, Instruction.loops, Tree.loopsOpen_flatten,
      others.loopsOpen_flatten]
  | .loop loop body => by
    simp [Item.flatten, loopsOpen_cons, loopsOpen_append, Instruction.loops, Tree.loopsOpen_flatten]
  | .loopElse loop before depth clause after => by
    simp [Item.flatten, loopsOpen_cons, loopsOpen_append, Instruction.loops, Tree.loopsOpen_flatten]
  | .empty depth body => by
    simp [Item.flatten, loopsOpen_cons, loopsOpen_append, Instruction.loops, Tree.loopsOpen_flatten]
  | .block name params body => by
    simp [Item.flatten, loopsOpen_cons, loopsOpen_append, Instruction.loops, Tree.loopsOpen_flatten]
  | .range c body => by
    simp [Item.flatten, loopsOpen_cons, loopsOpen_append, Instruction.loops, Tree.loopsOpen_flatten]

/-- Whole nodes leave the number of open loops as it is. -/
theorem Tree.loopsOpen_flatten (n : Nat) : (items : Tree) →
    loopsOpen n (Tree.flatten items) = some n
  | [] => rfl
  | item :: items => by
    rw [Tree.flatten, loopsOpen_append, item.loopsOpen_flatten, Option.bind_some,
      Tree.loopsOpen_flatten]

theorem Branches.loopsOpen_flatten (n : Nat) : (others : Branches) →
    loopsOpen n others.flatten = some n
  | .done => rfl
  | .otherwise body => by
    simp [Branches.flatten, loopsOpen_cons, loopsOpen_append, Instruction.loops,
      Tree.loopsOpen_flatten]
  | .elseIf c body others => by
    simp [Branches.flatten, loopsOpen_cons, loopsOpen_append, Instruction.loops,
      Tree.loopsOpen_flatten, others.loopsOpen_flatten]

end

def Instruction.isLoop : Instruction → Bool
  | .beginFor _ => true
  | _ => false

/-- A loop begins somewhere in a row. -/
def anyLoop (is : List Instruction) : Bool := is.any Instruction.isLoop

theorem anyLoop_eq_false_iff {is : List Instruction} :
    anyLoop is = false ↔ ∀ loop, .beginFor loop ∉ is := by
  rw [anyLoop, List.any_eq_false]
  constructor
  · intro h loop hloop
    exact h _ hloop rfl
  · intro h i hi hloop
    cases i with
    | beginFor loop => exact h loop hi
    | _ => cases hloop

theorem closesLoop_leaf (closed : Bool) (l : Leaf) : l.instruction.closesLoop closed = closed := by
  cases l <;> rfl

theorem isLoop_leaf (l : Leaf) : l.instruction.isLoop = false := by
  cases l <;> rfl

mutual

theorem Item.closedLoop_flatten (closed : Bool) :
    (item : Item) → closedLoop closed item.flatten = (closed || anyLoop item.flatten)
  | .leaf l => by simp [Item.flatten, anyLoop, closesLoop_leaf, isLoop_leaf]
  | .cond c body others => by
    have hbody := Tree.closedLoop_flatten closed body
    have hothers := others.closedLoop_flatten (closed || anyLoop (Tree.flatten body))
    simp_all [Item.flatten, anyLoop, Instruction.closesLoop, Instruction.isLoop, Bool.or_assoc]
  | .loop loop body => by simp [Item.flatten, anyLoop, Instruction.closesLoop, Instruction.isLoop]
  | .loopElse loop before depth clause after => by
    simp [Item.flatten, anyLoop, Instruction.closesLoop, Instruction.isLoop]
  | .empty depth body => by
    have hbody := Tree.closedLoop_flatten closed body
    simp_all [Item.flatten, anyLoop, Instruction.closesLoop, Instruction.isLoop]
  | .block name params body => by
    have hbody := Tree.closedLoop_flatten closed body
    simp_all [Item.flatten, anyLoop, Instruction.closesLoop, Instruction.isLoop]
  | .range c body => by
    have hbody := Tree.closedLoop_flatten closed body
    simp_all [Item.flatten, anyLoop, Instruction.closesLoop, Instruction.isLoop]

/-- Behind whole nodes a loop was closed if one was before or if there is one among them. -/
theorem Tree.closedLoop_flatten (closed : Bool) : (items : Tree) →
    closedLoop closed (Tree.flatten items) = (closed || anyLoop (Tree.flatten items))
  | [] => by simp [Tree.flatten, anyLoop]
  | item :: items => by
    have hitem := item.closedLoop_flatten closed
    have hitems := Tree.closedLoop_flatten (closed || anyLoop item.flatten) items
    simp_all [Tree.flatten, anyLoop, Bool.or_assoc]

theorem Branches.closedLoop_flatten (closed : Bool) : (others : Branches) →
    closedLoop closed others.flatten = (closed || anyLoop others.flatten)
  | .done => by simp [Branches.flatten, anyLoop, Instruction.closesLoop, Instruction.isLoop]
  | .otherwise body => by
    have hbody := Tree.closedLoop_flatten closed body
    simp_all [Branches.flatten, anyLoop, Instruction.closesLoop, Instruction.isLoop]
  | .elseIf c body others => by
    have hbody := Tree.closedLoop_flatten closed body
    have hothers := others.closedLoop_flatten (closed || anyLoop (Tree.flatten body))
    simp_all [Branches.flatten, anyLoop, Instruction.closesLoop, Instruction.isLoop, Bool.or_assoc]

end

/-! Drafts. -/

namespace Draft

/-- The draft has kept track of what it has emitted. -/
structure Tracked (d : Draft) : Prop extends d.Agrees .builtin where
  opened : d.opened = nesting [] d.instructions
  last : d.closedInnerLoop = closedLoop false d.instructions
  placed : Placed d.instructions

variable {d d' : Draft}

theorem tracked_start : start.Tracked := ⟨agrees_start, rfl, rfl, placed_nil⟩

theorem Tracked.emit {i : Instruction} (h : d.Tracked) (hagrees : (d'.emit i).Agrees .builtin)
    (he : d'.emitted = d.emitted) (hopened : d'.opened = i.nest d.opened)
    (hlast : d'.closedInnerLoop = i.closesLoop d.closedInnerLoop)
    (hplaced : i.Placed d.instructions) :
    (d'.emit i).Tracked where
  toAgrees := hagrees
  opened := by
    rw [instructions_emit, instructions_congr he, nesting_append, ← h.opened]
    exact hopened
  last := by
    rw [instructions_emit, instructions_congr he, closedLoop_append, ← h.last]
    exact hlast
  placed := by
    rw [instructions_emit, instructions_congr he]
    exact h.placed.concat hplaced

/-- Leaves at the end make no difference. -/
theorem tracked_emit_leaf (d : Draft) (l : Leaf) : (d.emit l.instruction).Tracked ↔ d.Tracked := by
  constructor
  · intro h
    have hopened := h.opened
    have hlast := h.last
    have hplaced := h.placed
    rw [instructions_emit, nesting_append, nesting_cons, nesting_nil, nesting_leaf] at hopened
    rw [instructions_emit, closedLoop_append, closedLoop_cons, closesLoop_leaf] at hlast
    rw [instructions_emit] at hplaced
    exact ⟨h.toAgrees.of_emit_leaf, hopened, hlast, hplaced.of_concat⟩
  · intro h
    refine h.emit (h.toAgrees.emit_leaf l) rfl (nesting_leaf d.opened l).symm
      (closesLoop_leaf _ l).symm ?_
    cases l <;> trivial

theorem Tracked.openEmpty (h : d.Tracked) :
    (({ d with opened := "empty" :: d.opened } : Draft).add d.emptySection).Tracked := by
  have hagrees := h.toAgrees.openEmpty .builtin
  by_cases hinline : d.opened.head? = some "for" ∧ d.closedInnerLoop = false
  · rw [emptySection, if_pos hinline] at hagrees ⊢
    refine h.emit hagrees rfl rfl rfl ⟨?_, by simp [h.row]⟩
    rw [← h.opened, ← h.last]
    simp [hinline]
  · rw [emptySection, if_neg hinline] at hagrees ⊢
    refine h.emit hagrees rfl rfl rfl ⟨?_, by simp [h.row]⟩
    rw [← h.opened, ← h.last]
    simp [hinline]

/-- Every change by a directive is kept track of. -/
theorem Tracked.becomes (h : d.Tracked) (hb : d.Becomes .builtin d') : d'.Tracked := by
  have hagrees := h.toAgrees.becomes .builtin hb
  obtain ⟨is, d₁, hchanges, rfl⟩ := hb
  have htail : ∀ name rest, d.opened = name :: rest → rest = d.opened.tail := by
    intro name rest hopened
    rw [hopened, List.tail_cons]
  cases hchanges with
  | leaves hleaves => exact addLeaves_keeps tracked_emit_leaf hleaves h
  | openHosted hleaves hfind => exact absurd hfind no_hosted
  | closeHosted hleaves hfind hopened => exact absurd hfind no_hosted
  | branch hi hhead =>
    rcases hi with ⟨c, rfl⟩ | rfl
    · exact h.emit hagrees rfl rfl rfl trivial
    · exact h.emit hagrees rfl rfl rfl trivial
  | openPlain hi =>
    rcases hi with ⟨c, rfl⟩ | ⟨c, rfl⟩
    · exact h.emit hagrees rfl rfl rfl trivial
    · exact h.emit hagrees rfl rfl rfl trivial
  | openEmpty => exact h.openEmpty
  | openLoop hdepth =>
    refine h.emit hagrees rfl rfl rfl ?_
    change _ = _
    rw [h.row, hdepth]
    rfl
  | openBlock hopened => exact h.emit hagrees rfl rfl rfl trivial
  | closePlain hi hopened =>
    rcases hi with rfl | rfl | rfl
    all_goals exact h.emit hagrees rfl (htail _ _ hopened) rfl trivial
  | closeLoop hopened => exact h.emit hagrees rfl (htail _ _ hopened) rfl trivial
  | closeBlock hopened => exact h.emit hagrees rfl (htail _ _ hopened) rfl trivial

end Draft

/-- In what a source compiles to all loops and empty sections have the depths of their places. -/
theorem compile_placed {source : String} {dir : Option String} {t : Template}
    (h : compile .builtin source dir = .ok t) : Placed t.instructions.toList := by
  obtain ⟨draft, hwalk, -, hlink⟩ := compile_eq_ok_iff.mp h
  have hkeeps : (Draft.handler ⟨.builtin, dir.map slashed⟩).Keeps Draft.Tracked :=
    Draft.handler_keeps_of_becomes .builtin Registry.leavesOnly_builtin fun d d' hd hb =>
      hd.becomes hb
  have hdraft := Markup.walk_keeps hkeeps _ _ Draft.tracked_start () draft hwalk
  rw [(Template.ofInstructions_eq_ok_iff.mp hlink).1]
  exact hdraft.placed

/-! Empty sections in a template. -/

namespace Template

variable {t : Template} {i j c depth : Nat} {loop : Loop} {inLoop : Bool} {items : Tree}

theorem Stretch.segment_zero (h : t.Stretch i j items) :
    t.segment 0 j = t.segment 0 i ++ Tree.flatten items := by
  rw [h.flatten, segment_append (Nat.zero_le i) h.le_right]

theorem segment_zero_succ {m : Instruction} (h : t.instructions[i]? = some m) :
    t.segment 0 (i + 1) = t.segment 0 i ++ [m] := by
  rw [← segment_one h, segment_append (Nat.zero_le i) (Nat.le_succ i)]

theorem placed_at (h : Placed t.instructions.toList) {m : Instruction}
    (hm : t.instructions[i]? = some m) : m.Placed (t.segment 0 i) := by
  have hsplit := segment_drop (t := t) (Nat.zero_le i)
  have hi : i < t.instructions.toList.length := by
    rw [Array.length_toList]
    exact lt_size hm
  have hat : t.instructions.toList[i] = m := by
    rw [← Array.getElem?_toList, List.getElem?_eq_getElem hi] at hm
    exact Option.some.inj hm
  rw [List.drop_zero, List.drop_eq_getElem_cons hi, hat] at hsplit
  exact h _ _ _ hsplit

theorem loopsOpen_behind (h : Placed t.instructions.toList)
    (hi : t.instructions[i]? = some (.beginFor loop)) :
    loopsOpen 0 (t.segment 0 (i + 1)) = some loop.depth := by
  have hdepth : (loopsOpen 0 (t.segment 0 i)).map (· + 1) = some loop.depth := placed_at h hi
  obtain ⟨n, hn, hloop⟩ := Option.map_eq_some_iff.mp hdepth
  rw [segment_zero_succ hi, loopsOpen_append, hn, ← hloop]
  rfl

theorem Stretch.loopsOpen_eq (h : t.Stretch i j items) :
    loopsOpen 0 (t.segment 0 j) = loopsOpen 0 (t.segment 0 i) := by
  rw [h.segment_zero, loopsOpen_append]
  cases loopsOpen 0 (t.segment 0 i) with
  | none => rfl
  | some n => exact Tree.loopsOpen_flatten n items

/-- An empty section directly in a loop, with no other loop in front of it, is inline. -/
theorem inline_of_inside (h : Placed t.instructions.toList)
    (hi : t.instructions[i]? = some (.beginFor loop))
    (hc : t.instructions[c]? = some (.beginEmpty depth inLoop))
    (hinside : t.Stretch (i + 1) c items)
    (hnone : anyLoop (t.segment (i + 1) c) = false) : inLoop = true := by
  have hrow : t.segment 0 c = t.segment 0 i ++ .beginFor loop :: Tree.flatten items := by
    rw [hinside.segment_zero, segment_zero_succ hi, List.append_assoc]
    rfl
  have hhead : (nesting [] (t.segment 0 c)).head? = some "for" := by
    rw [hrow, nesting_append, nesting_cons, Tree.nesting_flatten]
    rfl
  have hclosed : closedLoop false (t.segment 0 c) = false := by
    rw [← hinside.flatten] at hnone
    rw [hrow, closedLoop_append, closedLoop_cons, Tree.closedLoop_flatten, hnone]
    rfl
  exact (placed_at h hc).1.mpr ⟨hhead, hclosed⟩

/-- An inline section directly in a loop has the depth of that loop, and no other loop stands in
front of it there. -/
theorem depth_of_inline (h : Placed t.instructions.toList)
    (hi : t.instructions[i]? = some (.beginFor loop))
    (hc : t.instructions[c]? = some (.beginEmpty depth true))
    (hinside : t.Stretch (i + 1) c items) :
    depth = loop.depth ∧ anyLoop (t.segment (i + 1) c) = false := by
  obtain ⟨hinline, hdepth⟩ := placed_at h hc
  constructor
  · rw [hinside.loopsOpen_eq, loopsOpen_behind h hi] at hdepth
    exact (Option.some.inj hdepth).symm
  · have hclosed := (hinline.mp rfl).2
    rw [hinside.segment_zero, segment_zero_succ hi, List.append_assoc, closedLoop_append,
      closedLoop_append, Tree.closedLoop_flatten, hinside.flatten] at hclosed
    exact (Bool.or_eq_false_iff.mp hclosed).2

/-- An empty section behind a loop in the same body has the depth of that loop. -/
theorem depth_of_behind (h : Placed t.instructions.toList)
    (hi : t.instructions[i]? = some (.beginFor loop))
    (hc : t.instructions[c]? = some (.beginEmpty depth inLoop))
    (hj : t.instructions[j]? = some .endFor) {item : Item} (hloop : t.Stretch i (j + 1) [item])
    (hbehind : t.Stretch (j + 1) c items) : inLoop = false ∧ depth = loop.depth := by
  have hat : (loopsOpen 0 (t.segment 0 i)).map (· + 1) = some loop.depth := placed_at h hi
  obtain ⟨hinline, hdepth⟩ := placed_at h hc
  have hclosed : closedLoop false (t.segment 0 c) = true := by
    rw [hbehind.segment_zero, segment_zero_succ hj, closedLoop_append, closedLoop_append,
      Tree.closedLoop_flatten]
    rfl
  cases inLoop with
  | true =>
    rw [(hinline.mp rfl).2] at hclosed
    cases hclosed
  | false =>
    rw [hbehind.loopsOpen_eq, hloop.loopsOpen_eq] at hdepth
    exact ⟨rfl, Option.some.inj (hdepth.symm.trans hat)⟩

/-- Loops inside of a stretch are deeper than what is open in front of it. -/
theorem depth_lt_of_inside (h : Placed t.instructions.toList) (hinside : t.Stretch i j items)
    {n : Nat} (hn : loopsOpen 0 (t.segment 0 i) = some n)
    (hloop : .beginFor loop ∈ Tree.flatten items) : n < loop.depth := by
  obtain ⟨pre, post, hsplit⟩ := List.append_of_mem hloop
  have hopen := Tree.loopsOpen_flatten 0 items
  rw [hsplit, loopsOpen_append] at hopen
  obtain ⟨m, hm, -⟩ := Option.bind_eq_some_iff.mp hopen
  have hrow : t.instructions.toList = (t.segment 0 i ++ pre) ++ .beginFor loop ::
      (post ++ t.instructions.toList.drop j) := by
    have hdrop := segment_drop (t := t) (Nat.zero_le j)
    rw [List.drop_zero, hinside.segment_zero, hsplit] at hdrop
    simpa using hdrop
  have hdepth : (loopsOpen 0 (t.segment 0 i ++ pre)).map (· + 1) = some loop.depth :=
    h _ _ _ hrow
  have hmore := loopsOpen_add hm n
  rw [Nat.zero_add] at hmore
  rw [loopsOpen_append, hn, Option.bind_some, hmore] at hdepth
  have hvalue : m + n + 1 = loop.depth := Option.some.inj hdepth
  omega

/-- An inline section directly in a loop is the clause of that loop. -/
theorem clause_of_inline (hi : t.instructions[i]? = some (.beginFor loop))
    (hc : t.instructions[c]? = some (.beginEmpty depth true))
    (hinside : t.Stretch (i + 1) c items) :
    (t.link i).clause = some c := by
  cases hclause : (t.link i).clause with
  | none =>
    have hleads := t.leads hi
    simp only [Leads, hclause] at hleads
    obtain ⟨body, hbody⟩ := hleads.stretch
    obtain ⟨_, hend, rfl⟩ := hleads.marked
    obtain rfl := hinside.end_unique hbody hc trivial hend trivial
    rw [hc] at hend
    cases hend
  | some k =>
    obtain ⟨before, _, _, _, hk, hbefore, -⟩ := loopElse_stretch hi hclause
    exact congrArg some (hbefore.end_unique hinside hk trivial hc trivial)

end Template
end BraceTemplate
