import BraceTemplate.Proofs.Program.Stretches

/-!
Programs one behind the other. Where two rows of instructions link, so does the one made by joining
them, unless they define a block of the same name; the blocks of the second one move.
-/
namespace BraceTemplate

/-- One row behind another; literals that meet become one. -/
def joinRows (is js : List Instruction) : List Instruction :=
  match is.getLast?, js with
  | some (.literal x), .literal y :: rest => is.dropLast ++ .literal (x ++ y) :: rest
  | _, _ => is ++ js

@[simp] theorem joinRows_nil (is : List Instruction) : joinRows is [] = is := by
  unfold joinRows
  split
  · rename_i heq
    cases heq
  · exact List.append_nil is

/-- What stands in front of the last instruction is not touched. -/
theorem cons_joinRows (i j : Instruction) (is js : List Instruction) :
    joinRows (i :: j :: is) js = i :: joinRows (j :: is) js := by
  unfold joinRows
  rw [List.getLast?_cons_cons]
  split <;> rfl

theorem joinRows_literal (x y : String) (js : List Instruction) :
    joinRows [.literal x] (.literal y :: js) = .literal (x ++ y) :: js := rfl

/-- Rows are joined by appending them, or literals meet. -/
theorem joinRows_cases (is js : List Instruction) : joinRows is js = is ++ js ∨
    ∃ front x y rest, is = front ++ [.literal x] ∧ js = .literal y :: rest ∧
      joinRows is js = front ++ .literal (x ++ y) :: rest := by
  unfold joinRows
  split
  · rename_i x y rest hlast
    exact .inr ⟨is.dropLast, x, y, rest, (List.dropLast_append_getLast? _ hlast).symm, rfl, rfl⟩
  · exact .inl rfl

/-- An instruction that is no text stays in front of what follows. -/
theorem cons_joinRows_of_ne {i : Instruction} (h : ∀ x, i ≠ .literal x) (is js : List Instruction) :
    joinRows (i :: is) js = i :: joinRows is js := by
  cases is with
  | nil =>
    unfold joinRows
    split
    · rename_i x y rest hlast
      exact absurd (Option.some.inj hlast) (h x)
    · rfl
  | cons j is => exact cons_joinRows i j is js

theorem joinRows_cons_of_ne {j : Instruction} (h : ∀ y, j ≠ .literal y) (is js : List Instruction) :
    joinRows is (j :: js) = is ++ j :: js := by
  unfold joinRows
  split
  · rename_i x y rest hlast hj
    exact absurd (List.cons.inj hj).1 (h y)
  · rfl

theorem joinRows_ne_nil {is : List Instruction} (h : is ≠ []) (js : List Instruction) :
    joinRows is js ≠ [] := by
  unfold joinRows
  split <;> simp [h]

/-- A literal in front is joined as a whole. -/
theorem joinRows_text_assoc (x : String) (js ks : List Instruction) :
    joinRows (joinRows [.literal x] js) ks = joinRows [.literal x] (joinRows js ks) := by
  cases js with
  | nil => rfl
  | cons j js =>
    by_cases hj : ∃ y, j = .literal y
    · obtain ⟨y, rfl⟩ := hj
      cases js with
      | cons j' js => rw [joinRows_literal, cons_joinRows, cons_joinRows, joinRows_literal]
      | nil =>
        cases ks with
        | nil => rfl
        | cons k ks =>
          by_cases hk : ∃ z, k = .literal z
          · obtain ⟨z, rfl⟩ := hk
            simp [joinRows_literal, String.append_assoc]
          · have hk : ∀ z, k ≠ .literal z := fun z hz => hk ⟨z, hz⟩
            rw [joinRows_literal, joinRows_cons_of_ne hk, joinRows_cons_of_ne hk]
            rfl
    · have hj : ∀ y, j ≠ .literal y := fun y hy => hj ⟨y, hy⟩
      rw [joinRows_cons_of_ne hj, cons_joinRows_of_ne hj, joinRows_cons_of_ne hj]
      exact (cons_joinRows _ j js ks).trans (congrArg _ (cons_joinRows_of_ne hj js ks))

theorem joinRows_assoc (is js ks : List Instruction) :
    joinRows (joinRows is js) ks = joinRows is (joinRows js ks) := by
  induction is with
  | nil => rfl
  | cons i is ih =>
    by_cases hi : ∃ x, i = .literal x
    · obtain ⟨x, rfl⟩ := hi
      cases is with
      | nil => exact joinRows_text_assoc x js ks
      | cons i' is =>
        obtain ⟨j, rest, hjoined⟩ := List.exists_cons_of_ne_nil
          (joinRows_ne_nil (List.cons_ne_nil i' is) js)
        rw [cons_joinRows, cons_joinRows, ← ih, hjoined, cons_joinRows]
    · have hi : ∀ x, i ≠ .literal x := fun x hx => hi ⟨x, hx⟩
      rw [cons_joinRows_of_ne hi, cons_joinRows_of_ne hi, cons_joinRows_of_ne hi, ih]

/-! Literals at the ends of a tree. -/

theorem Branches.getLast?_flatten (others : Branches) :
    others.flatten.getLast? = some .endIf := by
  cases others with
  | done => rfl
  | otherwise body => simp [Branches.flatten, List.getLast?_cons, List.getLast?_append]
  | elseIf c body others =>
    have hothers := others.getLast?_flatten
    simp [Branches.flatten, List.getLast?_cons, List.getLast?_append, hothers]

/-- A row that ends in a literal ends in it as an item of its own. -/
theorem Item.eq_of_getLast?_flatten {item : Item} {x : String}
    (h : item.flatten.getLast? = some (.literal x)) : item = .leaf (.literal x) := by
  cases item with
  | leaf l => cases l <;> simp_all [Item.flatten, Leaf.instruction]
  | cond c body others =>
    simp [Item.flatten, List.getLast?_cons, List.getLast?_append, others.getLast?_flatten] at h
  | _ => simp [Item.flatten, List.getLast?_cons, List.getLast?_append] at h

theorem Tree.eq_concat_literal {items : Tree} {front : List Instruction} {x : String}
    (h : Tree.flatten items = front ++ [.literal x]) :
    ∃ before, items = before ++ [.leaf (.literal x)] ∧ Tree.flatten before = front := by
  rcases List.eq_nil_or_concat items with rfl | ⟨before, item, rfl⟩
  · simp [Tree.flatten] at h
  · rw [List.concat_eq_append] at h ⊢
    rw [Tree.flatten_append] at h
    have hitem : Tree.flatten [item] = item.flatten := by simp [Tree.flatten]
    have hlast : item.flatten.getLast? = some (.literal x) := by
      have hne : item.flatten ≠ [] := List.ne_nil_of_length_pos item.size_pos
      have hlast := congrArg List.getLast? h
      rw [hitem, List.getLast?_append_of_ne_nil _ hne] at hlast
      simpa using hlast
    obtain rfl := Item.eq_of_getLast?_flatten hlast
    exact ⟨before, rfl, (List.append_inj' h rfl).1⟩

theorem Tree.eq_cons_literal {items : Tree} {rest : List Instruction} {x : String}
    (h : Tree.flatten items = .literal x :: rest) :
    ∃ behind, items = .leaf (.literal x) :: behind ∧ Tree.flatten behind = rest := by
  cases items with
  | nil => cases h
  | cons item behind =>
    cases item with
    | leaf l => cases l <;> simp_all [Tree.flatten, Item.flatten, Leaf.instruction]
    | _ => simp [Tree.flatten, Item.flatten] at h

/-! Blocks that move. -/

def BlockDef.moved (k : Nat) (b : BlockDef) : BlockDef :=
  { b with start := b.start + k, stop := b.stop + k }

/-- The blocks of instructions that stand further back. -/
def movedBlocks (k : Nat) (blocks : Dict BlockDef) : Dict BlockDef :=
  blocks.map fun e => (e.1, e.2.moved k)

@[simp] theorem movedBlocks_append (k : Nat) (blocks blocks' : Dict BlockDef) :
    movedBlocks k (blocks ++ blocks') = movedBlocks k blocks ++ movedBlocks k blocks' :=
  List.map_append

mutual

theorem Item.blocks_moved (k : Nat) {i j : Nat} (hj : j = i + k) : (item : Item) →
    Code.blocks j (item.layout j) = movedBlocks k (Code.blocks i (item.layout i))
  | .leaf l => by
    cases l <;> rfl
  | .cond c body others => by
    have hbody := Tree.blocks_moved k (i := i + 1) (j := j + 1) (by omega) body
    have hothers := others.blocks_moved k (i := i + 1 + Tree.size body)
      (j := j + 1 + Tree.size body) (by omega)
    simp [Item.layout, Code.blocks, Code.blocks_append, hbody, hothers]
  | .loop loop body | .empty _ body | .range _ body => by
    have hbody := Tree.blocks_moved k (i := i + 1) (j := j + 1) (by omega) body
    simp [Item.layout, Code.blocks, Code.blocks_append, hbody, Instruction.plain, movedBlocks]
  | .loopElse loop before depth clause after => by
    have hbefore := Tree.blocks_moved k (i := i + 1) (j := j + 1) (by omega) before
    have hclause := Tree.blocks_moved k (i := i + 1 + Tree.size before + 1)
      (j := j + 1 + Tree.size before + 1) (by omega) clause
    have hafter := Tree.blocks_moved k
      (i := i + 1 + Tree.size before + 1 + Tree.size clause + 1)
      (j := j + 1 + Tree.size before + 1 + Tree.size clause + 1) (by omega) after
    simp [Item.layout, Code.blocks, Code.blocks_append, hbefore, hclause, hafter,
      Instruction.plain, movedBlocks]
  | .block name params body => by
    have hbody := Tree.blocks_moved k (i := i + 1) (j := j + 1) (by omega) body
    have hstart : j + 1 = i + 1 + k := by omega
    have hstop : j + 1 + Tree.size body = i + 1 + Tree.size body + k := by omega
    simpa [Item.layout, Code.blocks, Code.blocks_append, hbody, Instruction.plain, movedBlocks,
      BlockDef.moved, hstop] using hstart

/-- The blocks of a tree that stands further back are those of the tree, further back. -/
theorem Tree.blocks_moved (k : Nat) {i j : Nat} (hj : j = i + k) : (items : Tree) →
    Code.blocks j (Tree.layout j items) = movedBlocks k (Code.blocks i (Tree.layout i items))
  | [] => rfl
  | item :: items => by
    have hitem := item.blocks_moved k hj
    have hitems := Tree.blocks_moved k (i := i + item.size) (j := j + item.size) (by omega) items
    simp [Tree.layout, Code.blocks_append, hitem, hitems]

theorem Branches.blocks_moved (k : Nat) {i j : Nat} (hj : j = i + k) : (others : Branches) →
    Code.blocks j (others.layout j) = movedBlocks k (Code.blocks i (others.layout i))
  | .done => rfl
  | .otherwise body => by
    have hbody := Tree.blocks_moved k (i := i + 1) (j := j + 1) (by omega) body
    simp [Branches.layout, Code.blocks, Code.blocks_append, hbody, Instruction.plain, movedBlocks]
  | .elseIf c body others => by
    have hbody := Tree.blocks_moved k (i := i + 1) (j := j + 1) (by omega) body
    have hothers := others.blocks_moved k (i := i + 1 + Tree.size body)
      (j := j + 1 + Tree.size body) (by omega)
    simp [Branches.layout, Code.blocks, Code.blocks_append, hbody, hothers]

end

/-! Joined programs. -/

theorem blockNames_joinRows (is js : List Instruction) :
    blockNames (joinRows is js) = blockNames is ++ blockNames js := by
  rcases joinRows_cases is js with hjoined | ⟨front, x, y, rest, rfl, rfl, hjoined⟩ <;>
    simp [hjoined]

theorem Tree.Shallow.left {items others : Tree} (h : Tree.Shallow (items ++ others)) :
    Tree.Shallow items := by
  induction items with
  | nil => trivial
  | cons item items ih => exact ⟨h.1, ih h.2⟩

/-- A leaf in front defines no block. -/
theorem Tree.blocks_leaf (i : Nat) (l : Leaf) (items : Tree) :
    Code.blocks i (Tree.layout i (.leaf l :: items)) =
      Code.blocks (i + 1) (Tree.layout (i + 1) items) := by
  cases l <;> rfl

/-- A joined row is that of a tree if both rows are, and its blocks are those of both trees. -/
theorem Tree.exists_join {items others : Tree} (hs : Tree.Shallow items)
    (hs' : Tree.Shallow others) : ∃ joined : Tree,
      Tree.flatten joined = joinRows (Tree.flatten items) (Tree.flatten others) ∧
      Tree.Shallow joined ∧ Code.blocks 0 (Tree.layout 0 joined) =
        Code.blocks 0 (Tree.layout 0 items) ++ movedBlocks (Tree.size joined - Tree.size others)
          (Code.blocks 0 (Tree.layout 0 others)) := by
  rcases joinRows_cases (Tree.flatten items) (Tree.flatten others) with
    hjoined | ⟨front, x, y, rest, hitems, hothers, hjoined⟩
  · have hflat : Tree.flatten (items ++ others) =
        joinRows (Tree.flatten items) (Tree.flatten others) := by
      rw [Tree.flatten_append, hjoined]
    refine ⟨items ++ others, hflat, hs.append hs', ?_⟩
    have hsize : Tree.size (items ++ others) - Tree.size others = Tree.size items := by
      rw [Tree.size, Tree.flatten_append, List.length_append]
      simp
    have hmoved := Tree.blocks_moved (Tree.size items) (i := 0) (Nat.zero_add _).symm others
    rw [Tree.layout_append, Code.blocks_append, Tree.length_layout, Nat.zero_add, hsize, hmoved]
  · obtain ⟨before, rfl, rfl⟩ := Tree.eq_concat_literal hitems
    obtain ⟨behind, rfl, rfl⟩ := Tree.eq_cons_literal hothers
    have hflat : Tree.flatten (before ++ .leaf (.literal (x ++ y)) :: behind) =
        Tree.flatten before ++ .literal (x ++ y) :: Tree.flatten behind := by
      rw [Tree.flatten_append]
      rfl
    refine ⟨before ++ .leaf (.literal (x ++ y)) :: behind, hflat.trans hjoined.symm,
      hs.left.append ⟨trivial, hs'.2⟩, ?_⟩
    have hsize : Tree.size (before ++ .leaf (.literal (x ++ y)) :: behind) -
        Tree.size (.leaf (.literal y) :: behind) = Tree.size before := by
      rw [Tree.size, hflat, List.length_append, Tree.size_cons]
      simp
      omega
    have hmoved := Tree.blocks_moved (Tree.size before) (i := 0) (Nat.zero_add _).symm
      (.leaf (.literal y) :: behind)
    rw [Tree.blocks_leaf] at hmoved
    rw [hsize, ← hmoved, Tree.layout_append, Tree.layout_append, Code.blocks_append,
      Code.blocks_append, Tree.length_layout, Nat.zero_add, Tree.blocks_leaf, Tree.blocks_leaf]
    simp [Tree.layout, Code.blocks]

theorem Template.Denotes.keys_blocks {t : Template} {items : Tree} (h : t.Denotes items) :
    Dict.keys t.blocks = blockNames t.instructions.toList := by
  rw [h.blocks, Code.blocks_keys, Tree.layout_instructions, h.instructions]

theorem Template.Denotes.size_eq {t : Template} {items : Tree} (h : t.Denotes items) :
    Tree.size items = t.size := by
  rw [← Tree.length_flatten, h.instructions]
  rfl

/-- Two templates joined: where they define no block of the same name the rows link as one, and the
blocks of the second stand behind those of the first. -/
theorem Template.exists_join {a b : Template}
    (hblocks : (Dict.keys a.blocks).Disjoint (Dict.keys b.blocks)) (dir : Option String) :
    ∃ c, ofInstructions (joinRows a.instructions.toList b.instructions.toList) dir = .ok c ∧
      c.blocks = a.blocks ++ movedBlocks (c.size - b.size) b.blocks := by
  obtain ⟨items, ha⟩ := a.denotes
  obtain ⟨others, hb⟩ := b.denotes
  obtain ⟨joined, hflat, hshallow, hjoined⟩ := Tree.exists_join ha.shallow hb.shallow
  rw [ha.instructions, hb.instructions] at hflat
  have hnames : (blockNames (joinRows a.instructions.toList b.instructions.toList)).Nodup := by
    rw [blockNames_joinRows, ← ha.keys_blocks, ← hb.keys_blocks]
    exact List.nodup_append'.mpr ⟨ha.keys_nodup, hb.keys_nodup, hblocks⟩
  obtain ⟨c, hc⟩ := (ofInstructions_ok_iff _ dir).mpr ⟨joined, hflat, hshallow, hnames⟩
  obtain ⟨hrow, -⟩ := ofInstructions_eq_ok_iff.mp hc
  obtain ⟨others', hc'⟩ := c.denotes
  obtain rfl : others' = joined :=
    Tree.flatten_injective (hc'.instructions.trans (hrow.trans hflat.symm))
  refine ⟨c, hc, ?_⟩
  rw [hc'.blocks, hjoined, ← ha.blocks, ← hb.blocks, hc'.size_eq, hb.size_eq]

end BraceTemplate
