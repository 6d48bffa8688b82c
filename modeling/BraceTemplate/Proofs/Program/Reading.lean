import BraceTemplate.Proofs.Program.Tree

/-!
Reading trees off instructions, from the last instruction to the first. A row of instructions
denotes at most one tree, and it denotes one exactly when reading succeeds with nothing left open.
-/
namespace BraceTemplate

/-- What ends a sequence of items: the rest of the construct that the sequence stands in. -/
inductive End where
  | branches (others : Branches)
  | loop
  | loopElse (depth : Nat) (clause after : Tree)
  | empty
  | block
  | range

def End.flatten : End → List Instruction
  | .branches others => others.flatten
  | .loop => [.endFor]
  | .loopElse depth clause after =>
    .beginEmpty depth true ::
      (Tree.flatten clause ++ .endEmpty :: (Tree.flatten after ++ [.endFor]))
  | .empty => [.endEmpty]
  | .block => [.endBlock]
  | .range => [.endRange]

/-- The back part of a program: items up to the first end, and each end with the items behind it. -/
structure Suffix where
  items : Tree
  ends : List (End × Tree)

namespace Suffix

def flatten (s : Suffix) : List Instruction :=
  Tree.flatten s.items ++ s.ends.flatMap fun e => e.1.flatten ++ Tree.flatten e.2

/-- Puts an item in front. -/
def cons (item : Item) (s : Suffix) : Suffix := { s with items := item :: s.items }

/-- Puts an end in front of all items. -/
def close (e : End) (s : Suffix) : Suffix := ⟨[], (e, s.items) :: s.ends⟩

/-- Puts an instruction in front. An opener needs the end of its own construct, and a branch or an
inline empty section the end of what it continues. -/
def prepend (i : Instruction) (s : Suffix) : Option Suffix :=
  match i, s.ends with
  | .literal text, _ => some (s.cons (.leaf (.literal text)))
  | .emit v, _ => some (s.cons (.leaf (.emit v)))
  | .assign target value, _ => some (s.cons (.leaf (.assign target value)))
  | .invoke name args, _ => some (s.cons (.leaf (.invoke name args)))
  | .include parts, _ => some (s.cons (.leaf (.include parts)))
  | .endIf, _ => some (s.close (.branches .done))
  | .endFor, _ => some (s.close .loop)
  | .endEmpty, _ => some (s.close .empty)
  | .endBlock, _ => some (s.close .block)
  | .endRange, _ => some (s.close .range)
  | .otherwise, (.branches .done, after) :: ends =>
    some ⟨[], (.branches (.otherwise s.items), after) :: ends⟩
  | .elseIf c, (.branches others, after) :: ends =>
    some ⟨[], (.branches (.elseIf c s.items others), after) :: ends⟩
  | .beginIf c, (.branches others, after) :: ends => some ⟨.cond c s.items others :: after, ends⟩
  | .beginEmpty depth true, (.empty, after) :: (.loop, behind) :: ends =>
    some ⟨[], (.loopElse depth s.items after, behind) :: ends⟩
  | .beginEmpty depth false, (.empty, after) :: ends => some ⟨.empty depth s.items :: after, ends⟩
  | .beginFor loop, (.loop, after) :: ends => some ⟨.loop loop s.items :: after, ends⟩
  | .beginFor loop, (.loopElse depth clause rest, after) :: ends =>
    some ⟨.loopElse loop s.items depth clause rest :: after, ends⟩
  | .beginBlock name params, (.block, after) :: ends =>
    some ⟨.block name params s.items :: after, ends⟩
  | .beginRange c, (.range, after) :: ends => some ⟨.range c s.items :: after, ends⟩
  | _, _ => none

def read : List Instruction → Option Suffix
  | [] => some ⟨[], []⟩
  | i :: is => (read is).bind (prepend i)

end Suffix

/-- The tree of balanced instructions. -/
def Tree.ofInstructions? (is : List Instruction) : Option Tree :=
  match Suffix.read is with
  | some ⟨items, []⟩ => some items
  | _ => none

namespace Suffix

theorem flatten_prepend {i : Instruction} {s t : Suffix} (h : prepend i s = some t) :
    t.flatten = i :: s.flatten := by
  obtain ⟨items, ends⟩ := s
  unfold prepend at h
  split at h <;> simp_all only [Option.some.injEq, reduceCtorEq] <;> subst h <;>
    simp [flatten, cons, close, End.flatten, Tree.flatten, Item.flatten, Branches.flatten,
      Leaf.instruction]

/-- Reading loses nothing. -/
theorem flatten_read {is : List Instruction} {s : Suffix} (h : read is = some s) :
    s.flatten = is := by
  induction is generalizing s with
  | nil =>
    obtain rfl : (⟨[], []⟩ : Suffix) = s := by simpa [read] using h
    rfl
  | cons i is ih =>
    obtain ⟨t, ht, hs⟩ := Option.bind_eq_some_iff.mp h
    rw [flatten_prepend hs, ih ht]

end Suffix

mutual

theorem Item.read_flatten (rest : List Instruction) : (item : Item) →
    Suffix.read (item.flatten ++ rest) = (Suffix.read rest).map (Suffix.cons item)
  | .leaf l => by
    cases l <;> cases h : Suffix.read rest <;>
      simp [Item.flatten, Leaf.instruction, Suffix.read, Suffix.prepend, h]
  | .cond c body others => by
    cases h : Suffix.read rest <;>
      simp [Item.flatten, Suffix.read, Tree.read_flatten, others.read_flatten, h, Suffix.prepend,
        Suffix.close, Suffix.cons]
  | .loop loop body => by
    cases h : Suffix.read rest <;>
      simp [Item.flatten, Suffix.read, Tree.read_flatten, h, Suffix.prepend, Suffix.close,
        Suffix.cons]
  | .loopElse loop before depth clause after => by
    cases h : Suffix.read rest <;>
      simp [Item.flatten, Suffix.read, Tree.read_flatten, h, Suffix.prepend, Suffix.close,
        Suffix.cons]
  | .empty depth body => by
    cases h : Suffix.read rest <;>
      simp [Item.flatten, Suffix.read, Tree.read_flatten, h, Suffix.prepend, Suffix.close,
        Suffix.cons]
  | .block name params body => by
    cases h : Suffix.read rest <;>
      simp [Item.flatten, Suffix.read, Tree.read_flatten, h, Suffix.prepend, Suffix.close,
        Suffix.cons]
  | .range c body => by
    cases h : Suffix.read rest <;>
      simp [Item.flatten, Suffix.read, Tree.read_flatten, h, Suffix.prepend, Suffix.close,
        Suffix.cons]

/-- A tree is read back in front of whatever follows it. -/
theorem Tree.read_flatten (rest : List Instruction) : (items : Tree) →
    Suffix.read (Tree.flatten items ++ rest) =
      (Suffix.read rest).map fun s => ⟨items ++ s.items, s.ends⟩
  | [] => by cases h : Suffix.read rest <;> simp [Tree.flatten, h]
  | item :: items => by
    cases h : Suffix.read rest <;>
      simp [Tree.flatten, item.read_flatten, Tree.read_flatten _ items, h, Suffix.cons]

theorem Branches.read_flatten (rest : List Instruction) : (others : Branches) →
    Suffix.read (others.flatten ++ rest) =
      (Suffix.read rest).map (Suffix.close (.branches others))
  | .done => by
    cases h : Suffix.read rest <;> simp [Branches.flatten, Suffix.read, Suffix.prepend, h]
  | .otherwise body => by
    cases h : Suffix.read rest <;>
      simp [Branches.flatten, Suffix.read, Tree.read_flatten, h, Suffix.prepend, Suffix.close]
  | .elseIf c body others => by
    cases h : Suffix.read rest <;>
      simp [Branches.flatten, Suffix.read, Tree.read_flatten, others.read_flatten, h,
        Suffix.prepend, Suffix.close]

end

@[simp] theorem Tree.ofInstructions?_flatten (items : Tree) :
    Tree.ofInstructions? (Tree.flatten items) = some items := by
  have h := Tree.read_flatten [] items
  simp only [List.append_nil, Suffix.read, Option.map_some] at h
  simp [Tree.ofInstructions?, h]

/-- Instructions denote a tree exactly when they are the instructions of that tree. -/
theorem Tree.ofInstructions?_eq_some_iff {is : List Instruction} {items : Tree} :
    Tree.ofInstructions? is = some items ↔ Tree.flatten items = is := by
  constructor
  · intro h
    unfold Tree.ofInstructions? at h
    split at h
    · rename_i t hread
      obtain rfl := Option.some.inj h
      simpa [Suffix.flatten] using Suffix.flatten_read hread
    · simp at h
  · rintro rfl
    exact Tree.ofInstructions?_flatten items

theorem Tree.flatten_injective {items others : Tree}
    (h : Tree.flatten items = Tree.flatten others) : items = others :=
  Option.some.inj (by rw [← Tree.ofInstructions?_flatten, h, Tree.ofInstructions?_flatten])

end BraceTemplate
