import BraceTemplate.Proofs.Program.Linked

/-!
Code in a template: every template holds the layout of exactly one tree, and inside of it each
section holds the layout of its body.
-/
namespace BraceTemplate
namespace Template

/-- Code stands in a template from an index on, with its links. -/
def Holds (t : Template) (i : Nat) (code : Code) : Prop :=
  ∀ k e, code[k]? = some e → t.instructions[i + k]? = some e.1 ∧ t.link (i + k) = e.2

namespace Holds

variable {t : Template} {i : Nat}

theorem head {e : Instruction × Link} {code : Code} (h : t.Holds i (e :: code)) :
    t.instructions[i]? = some e.1 ∧ t.link i = e.2 := h 0 e rfl

theorem tail {e : Instruction × Link} {code : Code} (h : t.Holds i (e :: code)) :
    t.Holds (i + 1) code := by
  intro k e' hk
  rw [Nat.add_assoc, Nat.add_comm 1]
  exact h (k + 1) e' hk

theorem left {code rest : Code} (h : t.Holds i (code ++ rest)) : t.Holds i code := by
  intro k e hk
  apply h k e
  rw [List.getElem?_append_left (List.getElem?_eq_some_iff.mp hk).1, hk]

theorem right {code rest : Code} {j : Nat} (h : t.Holds i (code ++ rest))
    (hj : i + code.length = j) : t.Holds j rest := by
  intro k e hk
  rw [← hj, Nat.add_assoc]
  apply h (code.length + k) e
  rw [List.getElem?_append_right (Nat.le_add_right _ _), Nat.add_sub_cancel_left, hk]

theorem length_le {code : Code} (h : t.Holds i code) : code.length ≤ t.size := by
  rcases Nat.eq_zero_or_pos code.length with hzero | hpos
  · omega
  · have hlast := List.getElem?_eq_getElem (show code.length - 1 < code.length by omega)
    have hlt := (Array.getElem?_eq_some_iff.mp (h _ _ hlast).1).1
    rw [size]
    omega

/-- The instructions of a stretch are those of the code that stands there. -/
theorem extract {code : Code} (h : t.Holds i code) :
    t.instructions.toList.extract i (i + code.length) = code.map Prod.fst := by
  apply List.ext_getElem?
  intro k
  rw [List.extract_eq_take_drop, Nat.add_sub_cancel_left, List.getElem?_take]
  split
  · rename_i hk
    have hc := List.getElem?_eq_getElem hk
    have hi := (h k _ hc).1
    simp [hc, hi]
  · rename_i hk
    rw [List.getElem?_eq_none (by simpa using Nat.le_of_not_lt hk)]

end Holds

/-- Linking succeeds with a template exactly when that has the instructions and the directory. -/
theorem ofInstructions_eq_ok_iff {is : List Instruction} {dir : Option String} {t : Template} :
    ofInstructions is dir = .ok t ↔ t.instructions.toList = is ∧ t.dir = dir := by
  constructor
  · intro h
    unfold ofInstructions at h
    split at h
    · cases h
    · cases h
      exact ⟨rfl, rfl⟩
    · cases h
  · rintro ⟨rfl, rfl⟩
    obtain ⟨⟨is⟩, links, blocks, dir, linked⟩ := t
    have hrun : (Linker.start is.length).run 0 is = .ok ⟨links, blocks, []⟩ := linked
    unfold ofInstructions
    split
    · rename_i e he
      rw [he] at hrun
      cases hrun
    · rename_i he
      obtain ⟨rfl, rfl⟩ : _ ∧ _ := by simpa using he.symm.trans hrun
      rfl
    · rename_i he
      rw [he] at hrun
      cases hrun

/-- What a template consists of: the tree of its instructions, laid out from the first index on. -/
structure Denotes (t : Template) (items : Tree) : Prop where
  instructions : Tree.flatten items = t.instructions.toList
  shallow : Tree.Shallow items
  holds : t.Holds 0 (Tree.layout 0 items)
  blocks : t.blocks = Code.blocks 0 (Tree.layout 0 items)
  names : (blockNames t.instructions.toList).Nodup

theorem start_distinct (size : Nat) : (Linker.start size).Distinct :=
  ⟨by simp [Linker.start], by simp [Linker.start, Dict.keys]⟩

/-- A tree that may be linked has its layout as links and blocks. -/
theorem run_start {items : Tree} (hs : Tree.Shallow items)
    (hn : (blockNames (Tree.flatten items)).Nodup) :
    (Linker.start (Tree.size items)).run 0 (Tree.flatten items) =
      .ok ((Linker.start (Tree.size items)).past 0 (Tree.layout 0 items)) := by
  have hadmits : (Linker.start (Tree.size items)).Admits (blockNames (Tree.flatten items)) :=
    ⟨by simp [Linker.start], by simpa [Linker.start, Dict.keys] using hn⟩
  have h := Tree.passes (i := 0) items hs hadmits []
  rw [List.append_nil] at h
  exact h

/-- The blocks of a template stand apart and have distinct names. -/
theorem apart (t : Template) : Apart false t.instructions.toList ∧
    (blockNames t.instructions.toList).Nodup := by
  obtain ⟨hkeys, hnodup, hapart⟩ := Linker.blocks_of_run t.linked rfl (start_distinct _)
  refine ⟨hapart, ?_⟩
  rw [hkeys] at hnodup
  simpa [Linker.start, Dict.keys] using hnodup

theorem denotes (t : Template) : ∃ items, t.Denotes items := by
  obtain ⟨s, hread, hclosed⟩ := Linker.read_of_run t.linked rfl
  obtain ⟨items, ends⟩ := s
  -- no section was open in front, so that nothing is left to be closed
  obtain rfl : ends = [] := by
    cases ends with
    | nil => rfl
    | cons e rest => exact hclosed.elim
  have hflat : Tree.flatten items = t.instructions.toList := by
    simpa [Suffix.flatten] using Suffix.flatten_read hread
  obtain ⟨hapart, hnames⟩ := t.apart
  have hshallow : Tree.Shallow items := by
    rw [← hflat, ← List.append_nil (Tree.flatten items)] at hapart
    exact (Tree.shallow_of_apart hapart).1
  have hsize : Tree.size items = t.instructions.size := by
    rw [← Tree.length_flatten, hflat, Array.length_toList]
  have hrun := run_start hshallow (hflat ▸ hnames)
  rw [hflat, hsize, t.linked] at hrun
  obtain ⟨hlinks, hblocks⟩ : t.links = patch (Array.replicate t.instructions.size ⟨0, none⟩) 0
      (Tree.layout 0 items) ∧ t.blocks = Code.blocks 0 (Tree.layout 0 items) := by
    simpa [Linker.past, Linker.start] using hrun
  refine ⟨items, hflat, hshallow, ?_, hblocks, hnames⟩
  intro k e he
  have hi : t.instructions.toList[k]? = some e.1 := by
    rw [← hflat, ← Tree.layout_instructions 0, List.getElem?_map, he]
    rfl
  have hl : t.links.toList[k]? = some e.2 := by
    have h := patch_replicate (Tree.layout 0 items)
    rw [Tree.length_layout, hsize, ← hlinks] at h
    rw [h, List.getElem?_map, he]
    rfl
  rw [Nat.zero_add]
  rw [Array.getElem?_toList] at hi hl
  exact ⟨hi, by simp [link, hl]⟩

theorem Denotes.unique {t : Template} {items others : Tree} (h : t.Denotes items)
    (h' : t.Denotes others) : items = others :=
  Tree.flatten_injective (h.instructions.trans h'.instructions.symm)

/-- A row of instructions links exactly when it is that of a tree whose blocks stand apart and have
distinct names. -/
theorem ofInstructions_ok_iff (is : List Instruction) (dir : Option String) :
    (∃ t, ofInstructions is dir = .ok t) ↔
      ∃ items, Tree.flatten items = is ∧ Tree.Shallow items ∧ (blockNames is).Nodup := by
  constructor
  · rintro ⟨t, ht⟩
    obtain ⟨rfl, -⟩ := ofInstructions_eq_ok_iff.mp ht
    obtain ⟨items, h⟩ := t.denotes
    exact ⟨items, h.instructions, h.shallow, h.names⟩
  · rintro ⟨items, rfl, hs, hn⟩
    have hrun := run_start hs hn
    exact ⟨⟨(Tree.flatten items).toArray, _, _, dir, hrun⟩,
      ofInstructions_eq_ok_iff.mpr ⟨rfl, rfl⟩⟩

end Template
end BraceTemplate
