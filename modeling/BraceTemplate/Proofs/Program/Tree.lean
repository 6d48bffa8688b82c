import BraceTemplate.Program.Template

/-!
Program trees: what a balanced row of instructions stands for. A tree is written out as a row of
instructions, and laid out from an index as a row of instructions with their links.
-/
namespace BraceTemplate

/-- An instruction that neither opens nor closes anything. -/
inductive Leaf where
  | literal (text : String)
  | emit (v : Var)
  | assign (target : Path) (value : Expr)
  | invoke (name : String) (args : List Expr)
  | include (parts : List IncludePart)

def Leaf.instruction : Leaf → Instruction
  | .literal text => .literal text
  | .emit v => .emit v
  | .assign target value => .assign target value
  | .invoke name args => .invoke name args
  | .include parts => .include parts

mutual

/-- One construct with all that stands inside of it. The inline empty section of a loop divides the
body of the loop in two. -/
inductive Item where
  | leaf (l : Leaf)
  | cond (condition : Expr) (body : List Item) (others : Branches)
  | loop (loop : Loop) (body : List Item)
  | loopElse (loop : Loop) (before : List Item) (depth : Nat) (clause after : List Item)
  | empty (depth : Nat) (body : List Item)
  | block (name : String) (params : List String) (body : List Item)
  | range (counting : Counting) (body : List Item)

/-- The branches of a conditional behind its first one, and its end. -/
inductive Branches where
  | done
  | otherwise (body : List Item)
  | elseIf (condition : Expr) (body : List Item) (others : Branches)

end

abbrev Tree := List Item

mutual

def Item.flatten : Item → List Instruction
  | .leaf l => [l.instruction]
  | .cond c body others => .beginIf c :: (Tree.flatten body ++ others.flatten)
  | .loop loop body => .beginFor loop :: (Tree.flatten body ++ [.endFor])
  | .loopElse loop before depth clause after =>
    .beginFor loop :: (Tree.flatten before ++ .beginEmpty depth true :: (Tree.flatten clause ++
      .endEmpty :: (Tree.flatten after ++ [.endFor])))
  | .empty depth body => .beginEmpty depth false :: (Tree.flatten body ++ [.endEmpty])
  | .block name params body => .beginBlock name params :: (Tree.flatten body ++ [.endBlock])
  | .range c body => .beginRange c :: (Tree.flatten body ++ [.endRange])

/-- The instructions of a tree in a row. -/
def Tree.flatten : Tree → List Instruction
  | [] => []
  | item :: items => item.flatten ++ Tree.flatten items

def Branches.flatten : Branches → List Instruction
  | .done => [.endIf]
  | .otherwise body => .otherwise :: (Tree.flatten body ++ [.endIf])
  | .elseIf c body others => .elseIf c :: (Tree.flatten body ++ others.flatten)

end

def Item.size (item : Item) : Nat := item.flatten.length

def Tree.size (items : Tree) : Nat := (Tree.flatten items).length

def Branches.size (others : Branches) : Nat := others.flatten.length

/-- Instructions with their links. -/
abbrev Code := List (Instruction × Link)

/-- The code of an instruction that leads nowhere. -/
def Instruction.plain (i : Instruction) : Instruction × Link := (i, ⟨0, none⟩)

mutual

def Item.layout (i : Nat) : Item → Code
  | .leaf l => [l.instruction.plain]
  | .cond c body others =>
    let next := i + 1 + Tree.size body
    (.beginIf c, ⟨next, none⟩) :: (Tree.layout (i + 1) body ++ others.layout next)
  | .loop loop body =>
    (.beginFor loop, ⟨i + 1 + Tree.size body, none⟩) ::
      (Tree.layout (i + 1) body ++ [Instruction.endFor.plain])
  | .loopElse loop before depth clause after =>
    let opener := i + 1 + Tree.size before
    let closer := opener + 1 + Tree.size clause
    (.beginFor loop, ⟨closer + 1 + Tree.size after, some opener⟩) :: (Tree.layout (i + 1) before ++
      (.beginEmpty depth true, ⟨closer, none⟩) :: (Tree.layout (opener + 1) clause ++
        Instruction.endEmpty.plain ::
          (Tree.layout (closer + 1) after ++ [Instruction.endFor.plain])))
  | .empty depth body =>
    (.beginEmpty depth false, ⟨i + 1 + Tree.size body, none⟩) ::
      (Tree.layout (i + 1) body ++ [Instruction.endEmpty.plain])
  | .block name params body =>
    (.beginBlock name params, ⟨i + 1 + Tree.size body, none⟩) ::
      (Tree.layout (i + 1) body ++ [Instruction.endBlock.plain])
  | .range c body =>
    (.beginRange c, ⟨i + 1 + Tree.size body, none⟩) ::
      (Tree.layout (i + 1) body ++ [Instruction.endRange.plain])

/-- The code of a tree whose first instruction has index `i`. -/
def Tree.layout (i : Nat) : Tree → Code
  | [] => []
  | item :: items => item.layout i ++ Tree.layout (i + item.size) items

def Branches.layout (i : Nat) : Branches → Code
  | .done => [Instruction.endIf.plain]
  | .otherwise body =>
    (.otherwise, ⟨i + 1 + Tree.size body, none⟩) ::
      (Tree.layout (i + 1) body ++ [Instruction.endIf.plain])
  | .elseIf c body others =>
    let next := i + 1 + Tree.size body
    (.elseIf c, ⟨next, none⟩) :: (Tree.layout (i + 1) body ++ others.layout next)

end

@[simp] def Instruction.blockName? : Instruction → Option String
  | .beginBlock name _ => some name
  | _ => none

/-- The names of the blocks that instructions define. -/
def blockNames (is : List Instruction) : List String := is.filterMap Instruction.blockName?

/-- The blocks that code defines, from its links; the first instruction has index `i`. -/
def Code.blocks (i : Nat) : Code → Dict BlockDef
  | [] => []
  | (.beginBlock name params, link) :: code =>
    (name, ⟨params, i + 1, link.next⟩) :: Code.blocks (i + 1) code
  | _ :: code => Code.blocks (i + 1) code

mutual

def Item.Shallow : Item → Prop
  | .leaf _ => True
  | .cond _ body others => Tree.Shallow body ∧ others.Shallow
  | .loop _ body | .empty _ body | .range _ body => Tree.Shallow body
  | .loopElse _ before _ clause after =>
    Tree.Shallow before ∧ Tree.Shallow clause ∧ Tree.Shallow after
  | .block _ _ body => blockNames (Tree.flatten body) = []

/-- No block is defined inside of a block. -/
def Tree.Shallow : Tree → Prop
  | [] => True
  | item :: items => item.Shallow ∧ Tree.Shallow items

def Branches.Shallow : Branches → Prop
  | .done => True
  | .otherwise body => Tree.Shallow body
  | .elseIf _ body others => Tree.Shallow body ∧ others.Shallow

end

/-! Sizes and layouts. -/

@[simp] theorem Tree.length_flatten (items : Tree) :
    (Tree.flatten items).length = Tree.size items := rfl

@[simp] theorem Branches.length_flatten (others : Branches) :
    others.flatten.length = others.size := rfl

theorem Tree.flatten_append (items items' : Tree) :
    Tree.flatten (items ++ items') = Tree.flatten items ++ Tree.flatten items' := by
  induction items with
  | nil => rfl
  | cons item items ih =>
    rw [List.cons_append, Tree.flatten, Tree.flatten, ih, List.append_assoc]

theorem Tree.Shallow.append {items items' : Tree} (h : Tree.Shallow items)
    (h' : Tree.Shallow items') : Tree.Shallow (items ++ items') := by
  induction items with
  | nil => exact h'
  | cons item items ih => exact ⟨h.1, ih h.2⟩

@[simp] theorem Tree.size_nil : Tree.size [] = 0 := rfl

@[simp] theorem Tree.size_cons (item : Item) (items : Tree) :
    Tree.size (item :: items) = item.size + Tree.size items := by
  simp only [Tree.size, Item.size, Tree.flatten, List.length_append]

@[simp] theorem Item.size_leaf (l : Leaf) : (Item.leaf l).size = 1 := rfl

@[simp] theorem Item.size_cond (c : Expr) (body : Tree) (others : Branches) :
    (Item.cond c body others).size = Tree.size body + others.size + 1 := by
  simp [Item.size, Item.flatten]

@[simp] theorem Item.size_loop (loop : Loop) (body : Tree) :
    (Item.loop loop body).size = Tree.size body + 2 := by
  simp [Item.size, Item.flatten]

@[simp] theorem Item.size_loopElse (loop : Loop) (before : Tree) (depth : Nat)
    (clause after : Tree) : (Item.loopElse loop before depth clause after).size =
      Tree.size before + Tree.size clause + Tree.size after + 4 := by
  simp only [Item.size, Item.flatten, List.length_cons, List.length_append, Tree.length_flatten,
    List.length_nil]
  omega

@[simp] theorem Item.size_empty (depth : Nat) (body : Tree) :
    (Item.empty depth body).size = Tree.size body + 2 := by
  simp [Item.size, Item.flatten]

@[simp] theorem Item.size_block (name : String) (params : List String) (body : Tree) :
    (Item.block name params body).size = Tree.size body + 2 := by
  simp [Item.size, Item.flatten]

@[simp] theorem Item.size_range (c : Counting) (body : Tree) :
    (Item.range c body).size = Tree.size body + 2 := by
  simp [Item.size, Item.flatten]

@[simp] theorem Branches.size_done : Branches.done.size = 1 := rfl

@[simp] theorem Branches.size_otherwise (body : Tree) :
    (Branches.otherwise body).size = Tree.size body + 2 := by
  simp only [Branches.size, Branches.flatten, List.length_cons, List.length_append,
    Tree.length_flatten, List.length_nil]

@[simp] theorem Branches.size_elseIf (c : Expr) (body : Tree) (others : Branches) :
    (Branches.elseIf c body others).size = Tree.size body + others.size + 1 := by
  simp only [Branches.size, Branches.flatten, List.length_cons, List.length_append,
    Tree.length_flatten]

theorem Item.size_pos (item : Item) : 0 < item.size := by
  cases item <;> simp

theorem Branches.size_pos (others : Branches) : 0 < others.size := by
  cases others <;> simp

mutual

theorem Item.layout_instructions (i : Nat) :
    (item : Item) → (item.layout i).map Prod.fst = item.flatten
  | .leaf l => by simp [Item.layout, Item.flatten, Instruction.plain]
  | .cond c body others => by
    simp [Item.layout, Item.flatten, Tree.layout_instructions, others.layout_instructions]
  | .loop loop body => by
    simp [Item.layout, Item.flatten, Tree.layout_instructions, Instruction.plain]
  | .loopElse loop before depth clause after => by
    simp [Item.layout, Item.flatten, Tree.layout_instructions, Instruction.plain]
  | .empty depth body => by
    simp [Item.layout, Item.flatten, Tree.layout_instructions, Instruction.plain]
  | .block name params body => by
    simp [Item.layout, Item.flatten, Tree.layout_instructions, Instruction.plain]
  | .range c body => by
    simp [Item.layout, Item.flatten, Tree.layout_instructions, Instruction.plain]

/-- Laying out keeps the instructions. -/
theorem Tree.layout_instructions (i : Nat) :
    (items : Tree) → (Tree.layout i items).map Prod.fst = Tree.flatten items
  | [] => rfl
  | item :: items => by
    simp [Tree.layout, Tree.flatten, item.layout_instructions, Tree.layout_instructions]

theorem Branches.layout_instructions (i : Nat) :
    (others : Branches) → (others.layout i).map Prod.fst = others.flatten
  | .done => rfl
  | .otherwise body => by
    simp [Branches.layout, Branches.flatten, Tree.layout_instructions, Instruction.plain]
  | .elseIf c body others => by
    simp [Branches.layout, Branches.flatten, Tree.layout_instructions,
      others.layout_instructions]

end

@[simp] theorem Item.length_layout (i : Nat) (item : Item) :
    (item.layout i).length = item.size := by
  rw [Item.size, ← item.layout_instructions i, List.length_map]

@[simp] theorem Tree.length_layout (i : Nat) (items : Tree) :
    (Tree.layout i items).length = Tree.size items := by
  rw [Tree.size, ← Tree.layout_instructions i, List.length_map]

@[simp] theorem Branches.length_layout (i : Nat) (others : Branches) :
    (others.layout i).length = others.size := by
  rw [Branches.size, ← others.layout_instructions i, List.length_map]

/-! Blocks of code. -/

@[simp] theorem blockNames_nil : blockNames [] = [] := rfl

@[simp] theorem blockNames_cons (i : Instruction) (is : List Instruction) :
    blockNames (i :: is) = i.blockName?.toList ++ blockNames is := by
  rw [blockNames, List.filterMap_cons]
  cases i.blockName? <;> rfl

@[simp] theorem blockNames_append (is js : List Instruction) :
    blockNames (is ++ js) = blockNames is ++ blockNames js := List.filterMap_append

/-- Only an instruction that opens a block adds one. -/
theorem Code.blocks_cons {instruction : Instruction} (h : instruction.blockName? = none) (i : Nat)
    (link : Link) (code : Code) :
    Code.blocks i ((instruction, link) :: code) = Code.blocks (i + 1) code := by
  cases instruction <;> simp_all [Code.blocks]

theorem Code.blocks_append (i : Nat) (code rest : Code) :
    Code.blocks i (code ++ rest) = Code.blocks i code ++ Code.blocks (i + code.length) rest := by
  induction code generalizing i with
  | nil => simp [Code.blocks]
  | cons e code ih =>
    obtain ⟨instruction, link⟩ := e
    cases instruction <;> simp [Code.blocks, ih, Nat.add_assoc, Nat.add_comm 1]

/-- The blocks of code carry the names that its instructions define. -/
theorem Code.blocks_keys (i : Nat) (code : Code) :
    Dict.keys (Code.blocks i code) = blockNames (code.map Prod.fst) := by
  induction code generalizing i with
  | nil => rfl
  | cons e code ih =>
    obtain ⟨instruction, link⟩ := e
    have ih := ih (i + 1)
    simp only [Dict.keys] at ih
    cases instruction <;> simp [Code.blocks, Dict.keys, ih]

mutual

theorem Item.shallow_of_blockNames : {item : Item} → blockNames item.flatten = [] → item.Shallow
  | .leaf _, _ => trivial
  | .cond c body others, h => by
    simp only [Item.flatten, blockNames_cons, blockNames_append, List.append_eq_nil_iff] at h
    exact ⟨Tree.shallow_of_blockNames h.2.1, Branches.shallow_of_blockNames h.2.2⟩
  | .loop _ body, h | .empty _ body, h | .range _ body, h => by
    simp only [Item.flatten, blockNames_cons, blockNames_append, List.append_eq_nil_iff] at h
    exact @Tree.shallow_of_blockNames body h.2.1
  | .loopElse _ before _ clause after, h => by
    simp only [Item.flatten, blockNames_cons, blockNames_append, List.append_eq_nil_iff] at h
    exact ⟨Tree.shallow_of_blockNames h.2.1, Tree.shallow_of_blockNames h.2.2.2.1,
      Tree.shallow_of_blockNames h.2.2.2.2.2.1⟩
  | .block .., h => by simp [Item.flatten] at h

/-- Without blocks no block stands inside of another one. -/
theorem Tree.shallow_of_blockNames :
    {items : Tree} → blockNames (Tree.flatten items) = [] → Tree.Shallow items
  | [], _ => trivial
  | item :: items, h => by
    rw [Tree.flatten, blockNames_append, List.append_eq_nil_iff] at h
    exact ⟨Item.shallow_of_blockNames h.1, Tree.shallow_of_blockNames h.2⟩

theorem Branches.shallow_of_blockNames :
    {others : Branches} → blockNames others.flatten = [] → others.Shallow
  | .done, _ => trivial
  | .otherwise body, h => by
    simp only [Branches.flatten, blockNames_cons, blockNames_append, List.append_eq_nil_iff] at h
    exact @Tree.shallow_of_blockNames body h.2.1
  | .elseIf _ body others, h => by
    simp only [Branches.flatten, blockNames_cons, blockNames_append, List.append_eq_nil_iff] at h
    exact ⟨Tree.shallow_of_blockNames h.2.1, Branches.shallow_of_blockNames h.2.2⟩

end

end BraceTemplate
