import BraceTemplate.Proofs.Program.Exact

/-!
Balanced stretches of a template: whole nodes of one body. Wherever such a stretch stands it is laid
out as by itself, and between an index and the first end behind it there is only one.
-/
namespace BraceTemplate

/-! Laying out what has been read. -/

def End.layout (k : Nat) : End → Code
  | .branches others => others.layout k
  | .loop => [Instruction.endFor.plain]
  | .loopElse depth clause after =>
    let closer := k + 1 + Tree.size clause
    (.beginEmpty depth true, ⟨closer, none⟩) :: (Tree.layout (k + 1) clause ++
      Instruction.endEmpty.plain ::
        (Tree.layout (closer + 1) after ++ [Instruction.endFor.plain]))
  | .empty => [Instruction.endEmpty.plain]
  | .block => [Instruction.endBlock.plain]
  | .range => [Instruction.endRange.plain]

namespace Suffix

/-- Ends, each with the items behind it, from index `k` on. -/
def layoutEnds (k : Nat) : List (End × Tree) → Code
  | [] => []
  | (e, items) :: ends =>
    let behind := k + e.flatten.length
    e.layout k ++ (Tree.layout behind items ++ layoutEnds (behind + Tree.size items) ends)

def layout (k : Nat) (s : Suffix) : Code :=
  Tree.layout k s.items ++ layoutEnds (k + Tree.size s.items) s.ends

/-- One more instruction in front is laid out in front. -/
theorem layout_prepend {i : Instruction} {s t : Suffix} (k : Nat) (h : prepend i s = some t) :
    ∃ link, t.layout k = (i, link) :: s.layout (k + 1) := by
  obtain ⟨items, ends⟩ := s
  unfold prepend at h
  split at h <;> simp_all only [Option.some.injEq, reduceCtorEq] <;> subst h <;>
    simp [layout, layoutEnds, cons, close, End.layout, End.flatten, Tree.layout, Item.layout,
      Branches.layout, Branches.flatten, Leaf.instruction, Instruction.plain, Nat.add_assoc,
      Nat.add_comm, Nat.add_left_comm]
  all_goals congr 2 <;> omega

/-- What has been read of the back part of laid out instructions is laid out where it stands. -/
theorem layout_of_read {pre is : List Instruction} {s s' : Suffix} (h : read is = some s)
    (h' : read (pre ++ is) = some s') (k : Nat) :
    ∃ front, s'.layout k = front ++ s.layout (k + pre.length) ∧ front.length = pre.length := by
  induction pre generalizing s' k with
  | nil =>
    obtain rfl := Option.some.inj (h.symm.trans h')
    exact ⟨[], rfl, rfl⟩
  | cons i pre ih =>
    obtain ⟨t, ht, hs⟩ := Option.bind_eq_some_iff.mp h'
    obtain ⟨link, hlink⟩ := layout_prepend k hs
    obtain ⟨front, hfront, hlength⟩ := ih ht (k + 1)
    refine ⟨(i, link) :: front, ?_, by simp [hlength]⟩
    rw [hlink, hfront, List.length_cons, Nat.add_assoc, Nat.add_comm 1]
    rfl

/-- Where a row can be read, so can every back part of it. -/
theorem read_of_append {pre is : List Instruction} {s : Suffix} (h : read (pre ++ is) = some s) :
    ∃ s', read is = some s' := by
  induction pre generalizing s with
  | nil => exact ⟨s, h⟩
  | cons i pre ih =>
    obtain ⟨t, ht, -⟩ := Option.bind_eq_some_iff.mp h
    exact ih ht

end Suffix

/-- Instructions that end a sequence of items: no item begins with one of them. -/
def Instruction.IsEnd : Instruction → Prop
  | .elseIf _ | .otherwise | .endIf | .endFor | .beginEmpty _ true | .endEmpty | .endBlock
  | .endRange => True
  | _ => False

theorem Tree.layout_append (i : Nat) (items items' : Tree) :
    Tree.layout i (items ++ items') =
      Tree.layout i items ++ Tree.layout (i + Tree.size items) items' := by
  induction items generalizing i with
  | nil => rfl
  | cons item items ih =>
    rw [List.cons_append, Tree.layout, Tree.layout, ih, List.append_assoc, Tree.size_cons,
      Nat.add_assoc]

theorem Suffix.items_of_isEnd {i : Instruction} {s t : Suffix} (hi : i.IsEnd)
    (h : prepend i s = some t) : t.items = [] := by
  unfold prepend at h
  split at h <;> simp_all only [Option.some.injEq, reduceCtorEq] <;> subst h <;>
    first | rfl | exact hi.elim

namespace Template

/-- The instructions from one index up to before another. -/
def segment (t : Template) (i j : Nat) : List Instruction := t.instructions.toList.extract i j

section Segments

variable {t : Template} {i j k : Nat}

theorem segment_append (hij : i ≤ j) (hjk : j ≤ k) :
    t.segment i j ++ t.segment j k = t.segment i k := by
  simp only [segment, List.extract_eq_take_drop]
  rw [show k - i = j - i + (k - j) by omega, List.take_add, List.drop_drop, Nat.add_sub_of_le hij]

theorem segment_one {m : Instruction} (h : t.instructions[i]? = some m) :
    t.segment i (i + 1) = [m] := by
  rw [← Array.getElem?_toList] at h
  obtain ⟨hi, rfl⟩ := List.getElem?_eq_some_iff.mp h
  rw [segment, List.extract_eq_take_drop, Nat.add_sub_cancel_left, List.drop_eq_getElem_cons hi]
  rfl

theorem segment_cons {m : Instruction} (h : t.instructions[i]? = some m) (hij : i < j) :
    t.segment i j = m :: t.segment (i + 1) j := by
  rw [← segment_append (Nat.le_succ i) hij, segment_one h]
  rfl

theorem segment_drop (hij : i ≤ j) :
    t.instructions.toList.drop i = t.segment i j ++ t.instructions.toList.drop j := by
  rw [segment, List.extract_eq_take_drop, ← Nat.add_sub_of_le hij, ← List.drop_drop,
    Nat.add_sub_cancel_left, List.take_append_drop]

end Segments

/-- The instructions from one index up to before another are those of a tree. -/
structure Stretch (t : Template) (i j : Nat) (items : Tree) : Prop where
  flatten : Tree.flatten items = t.segment i j
  size : i + Tree.size items = j
  le : j ≤ t.size

/-- The instructions from one index up to before another are whole nodes of one body. -/
def Balanced (t : Template) (i j : Nat) : Prop := ∃ items, t.Stretch i j items

variable {t : Template} {i j k : Nat} {items items' : Tree}

/-- Every back part of a template can be read, and is laid out where it stands. -/
theorem read_drop (t : Template) {i : Nat} (hi : i ≤ t.size) :
    ∃ s, Suffix.read (t.instructions.toList.drop i) = some s ∧ t.Holds i (s.layout i) := by
  obtain ⟨all, hall⟩ := t.denotes
  have hlength : (t.instructions.toList.take i).length = i := by
    rw [List.length_take, Array.length_toList]
    exact Nat.min_eq_left hi
  have hread : Suffix.read (t.instructions.toList.take i ++ t.instructions.toList.drop i) =
      some ⟨all, []⟩ := by
    rw [List.take_append_drop, ← hall.instructions, ← List.append_nil (Tree.flatten all),
      Tree.read_flatten]
    simp [Suffix.read]
  obtain ⟨s, hs⟩ := Suffix.read_of_append hread
  obtain ⟨front, hfront, hfrontLength⟩ := Suffix.layout_of_read hs hread 0
  have hholds : t.Holds 0 (Suffix.layout 0 ⟨all, []⟩) := by
    simpa [Suffix.layout, Suffix.layoutEnds] using hall.holds
  rw [hfront, hlength, Nat.zero_add] at hholds
  exact ⟨s, hs, hholds.right (by omega)⟩

namespace Stretch

theorem le_right (h : t.Stretch i j items) : i ≤ j := by
  have hsize := h.size
  omega

theorem drop (h : t.Stretch i j items) :
    t.instructions.toList.drop i = Tree.flatten items ++ t.instructions.toList.drop j := by
  rw [h.flatten, segment_drop h.le_right]

theorem append (h : t.Stretch i j items) (h' : t.Stretch j k items') :
    t.Stretch i k (items ++ items') where
  flatten := by
    rw [Tree.flatten_append, h.flatten, h'.flatten, segment_append h.le_right h'.le_right]
  size := by
    have hj := h.size
    have hk := h'.size
    rw [Tree.size, Tree.flatten_append, List.length_append, Tree.length_flatten,
      Tree.length_flatten]
    omega
  le := h'.le

/-- A row of instructions that is that of a tree is a stretch. -/
theorem of_flatten (h : Tree.flatten items = t.segment i j) (hij : i ≤ j) (hj : j ≤ t.size) :
    t.Stretch i j items where
  flatten := h
  size := by
    have hlength : (t.segment i j).length = j - i := by
      rw [segment, List.extract_eq_take_drop, List.length_take, List.length_drop,
        Array.length_toList]
      exact Nat.min_eq_left (Nat.sub_le_sub_right hj i)
    rw [← Tree.length_flatten, h, hlength]
    omega
  le := hj

/-- What is read from the beginning of a stretch on are its nodes and what is read behind them. -/
theorem read (h : t.Stretch i j items) : ∃ s, Suffix.read (t.instructions.toList.drop j) = some s ∧
    t.Holds i (Suffix.layout i ⟨items ++ s.items, s.ends⟩) := by
  obtain ⟨s, hs, -⟩ := t.read_drop h.le
  obtain ⟨s', hs', hholds⟩ := t.read_drop (Nat.le_trans h.le_right h.le)
  rw [h.drop, Tree.read_flatten, hs] at hs'
  obtain rfl := Option.some.inj hs'
  exact ⟨s, hs, hholds⟩

/-- A stretch is laid out as it would be by itself. -/
theorem holds (h : t.Stretch i j items) : t.Holds i (Tree.layout i items) := by
  obtain ⟨s, -, hholds⟩ := h.read
  rw [Suffix.layout, Tree.layout_append, List.append_assoc] at hholds
  exact hholds.left

/-- From an index on there is one end that comes behind whole nodes. -/
theorem end_unique {m m' : Instruction} (h : t.Stretch i j items) (h' : t.Stretch i k items')
    (hm : t.instructions[j]? = some m) (hend : m.IsEnd) (hm' : t.instructions[k]? = some m')
    (hend' : m'.IsEnd) : j = k := by
  have hread : ∀ {j items m}, t.Stretch i j items → t.instructions[j]? = some m → m.IsEnd →
      (Suffix.read (t.instructions.toList.drop i)).map Suffix.items = some items := by
    intro j items m h hm hend
    have hdrop : t.instructions.toList.drop j = m :: t.instructions.toList.drop (j + 1) := by
      rw [← Array.getElem?_toList] at hm
      obtain ⟨hj, rfl⟩ := List.getElem?_eq_some_iff.mp hm
      exact List.drop_eq_getElem_cons hj
    obtain ⟨s, hs, -⟩ := t.read_drop h.le
    have hcons := hs
    rw [hdrop] at hcons
    obtain ⟨s', -, hprepend⟩ := Option.bind_eq_some_iff.mp hcons
    rw [h.drop, Tree.read_flatten, hs, Option.map_some, Option.map_some,
      Suffix.items_of_isEnd hend hprepend, List.append_nil]
  obtain rfl := Option.some.inj ((hread h hm hend).symm.trans (hread h' hm' hend'))
  exact h.size.symm.trans h'.size

end Stretch

theorem Spans.stretch {marker : Instruction → Prop} (h : t.Spans i j marker) :
    ∃ items, t.Stretch (i + 1) j items := by
  obtain ⟨m, hm, -⟩ := h.marked
  obtain ⟨items, hflatten, -⟩ := h.balanced
  exact ⟨items, .of_flatten hflatten h.lt (Nat.le_of_lt (Array.getElem?_eq_some_iff.mp hm).1)⟩

theorem lt_size {m : Instruction} (h : t.instructions[i]? = some m) : i < t.size :=
  (Array.getElem?_eq_some_iff.mp h).1

/-- A section of its own, from its opener to its closer. -/
theorem section_stretch {depth : Nat} (h : t.instructions[i]? = some (.beginEmpty depth false)) :
    ∃ body, t.Stretch (i + 1) (t.link i).next body ∧
      t.Stretch i ((t.link i).next + 1) [.empty depth body] := by
  obtain ⟨hspan, -⟩ := t.leads h
  obtain ⟨body, hbody⟩ := hspan.stretch
  obtain ⟨_, hclose, rfl⟩ := hspan.marked
  refine ⟨body, hbody, .of_flatten ?_ (Nat.le_succ_of_le (Nat.le_of_lt hspan.lt)) (lt_size hclose)⟩
  rw [segment_cons h (Nat.lt_succ_of_lt hspan.lt), ← segment_append hspan.lt (Nat.le_succ _),
    segment_one hclose, ← hbody.flatten]
  simp [Tree.flatten, Item.flatten]

theorem loop_closed {loop : Loop} (h : t.instructions[i]? = some (.beginFor loop)) :
    t.instructions[(t.link i).next]? = some .endFor := by
  have hleads := t.leads h
  simp only [Leads] at hleads
  split at hleads
  · obtain ⟨_, hend, rfl⟩ := hleads.marked
    exact hend
  · obtain ⟨_, hend, rfl⟩ := hleads.2.2.marked
    exact hend

/-- A loop without an inline section, from its opener to its closer. -/
theorem loop_stretch {loop : Loop} (h : t.instructions[i]? = some (.beginFor loop))
    (hclause : (t.link i).clause = none) : ∃ body, t.Stretch (i + 1) (t.link i).next body ∧
      t.Stretch i ((t.link i).next + 1) [.loop loop body] := by
  have hleads := t.leads h
  simp only [Leads, hclause] at hleads
  obtain ⟨body, hbody⟩ := hleads.stretch
  obtain ⟨_, hclose, rfl⟩ := hleads.marked
  refine ⟨body, hbody, .of_flatten ?_ (Nat.le_succ_of_le (Nat.le_of_lt hleads.lt)) (lt_size hclose)⟩
  rw [segment_cons h (Nat.lt_succ_of_lt hleads.lt), ← segment_append hleads.lt (Nat.le_succ _),
    segment_one hclose, ← hbody.flatten]
  simp [Tree.flatten, Item.flatten]

/-- A loop with an inline section, from its opener to its closer. -/
theorem loopElse_stretch {loop : Loop} (h : t.instructions[i]? = some (.beginFor loop))
    (hclause : (t.link i).clause = some k) : ∃ before depth clause after,
      t.instructions[k]? = some (.beginEmpty depth true) ∧ t.Stretch (i + 1) k before ∧
      t.Stretch (k + 1) (t.link k).next clause ∧
      t.Stretch ((t.link k).next + 1) (t.link i).next after ∧
      t.Stretch i ((t.link i).next + 1) [.loopElse loop before depth clause after] := by
  have hleads := t.leads h
  simp only [Leads, hclause] at hleads
  obtain ⟨hfront, hmid, hback⟩ := hleads
  obtain ⟨before, hbefore⟩ := hfront.stretch
  obtain ⟨clause, hclause⟩ := hmid.stretch
  obtain ⟨after, hafter⟩ := hback.stretch
  obtain ⟨opener, hopen, hinline⟩ := hfront.marked
  obtain ⟨_, hclose, rfl⟩ := hmid.marked
  obtain ⟨_, hend, rfl⟩ := hback.marked
  obtain ⟨depth, rfl⟩ : ∃ depth, opener = .beginEmpty depth true := by
    unfold Instruction.IsInlineEmpty at hinline
    split at hinline
    · exact ⟨_, rfl⟩
    · exact hinline.elim
  have hik := hfront.lt
  have hkn := hmid.lt
  have hni := hback.lt
  have hsplit : t.segment (i + 1) ((t.link i).next + 1) =
      t.segment (i + 1) k ++ t.segment k ((t.link i).next + 1) :=
    (segment_append hik (by omega)).symm
  have hsection : t.segment (k + 1) ((t.link i).next + 1) =
      t.segment (k + 1) (t.link k).next ++ t.segment (t.link k).next ((t.link i).next + 1) :=
    (segment_append hkn (by omega)).symm
  have hlast : t.segment ((t.link k).next + 1) ((t.link i).next + 1) =
      t.segment ((t.link k).next + 1) (t.link i).next ++ [.endFor] := by
    rw [← segment_one hend, segment_append hni (Nat.le_succ _)]
  refine ⟨before, depth, clause, after, hopen, hbefore, hclause, hafter,
    .of_flatten ?_ (by omega) (lt_size hend)⟩
  rw [segment_cons h (by omega), hsplit, segment_cons hopen (by omega), hsection,
    segment_cons hclose (by omega), hlast, ← hbefore.flatten, ← hclause.flatten, ← hafter.flatten]
  simp [Tree.flatten, Item.flatten]

end Template
end BraceTemplate
