import BraceTemplate.Proofs.Program.Tree
import BraceTemplate.Proofs.Source.Piece

/-!
Balance: the instructions of valid pieces are those of a program tree. The empty section that
belongs to a loop divides the body of the loop; every other piece is an item of its own.
-/
namespace BraceTemplate.Source

/-- The instructions of a tree without nested blocks. -/
def Balanced (is : List Instruction) : Prop :=
  ∃ items : Tree, Tree.flatten items = is ∧ Tree.Shallow items

/-- The further branches of a conditional without nested blocks. -/
def BalancedBranches (is : List Instruction) : Prop :=
  ∃ others : Branches, others.flatten = is ∧ others.Shallow

namespace Balanced

variable {is js : List Instruction}

theorem nil : Balanced [] := ⟨[], rfl, trivial⟩

theorem append (h : Balanced is) (h' : Balanced js) : Balanced (is ++ js) := by
  obtain ⟨items, rfl, hs⟩ := h
  obtain ⟨items', rfl, hs'⟩ := h'
  exact ⟨items ++ items', Tree.flatten_append items items', hs.append hs'⟩

theorem item (item : Item) (h : item.Shallow) : Balanced item.flatten :=
  ⟨[item], by simp [Tree.flatten], h, trivial⟩

theorem cond (c : Expr) (h : Balanced is) (ho : BalancedBranches js) :
    Balanced (.beginIf c :: (is ++ js)) := by
  obtain ⟨items, rfl, hs⟩ := h
  obtain ⟨others, rfl, ho⟩ := ho
  exact item (.cond c items others) ⟨hs, ho⟩

theorem loop (l : Loop) (h : Balanced is) : Balanced (.beginFor l :: (is ++ [.endFor])) := by
  obtain ⟨items, rfl, hs⟩ := h
  exact item (.loop l items) hs

theorem empty (depth : Nat) (h : Balanced is) :
    Balanced (.beginEmpty depth false :: (is ++ [.endEmpty])) := by
  obtain ⟨items, rfl, hs⟩ := h
  exact item (.empty depth items) hs

theorem range (c : Counting) (h : Balanced is) :
    Balanced (.beginRange c :: (is ++ [.endRange])) := by
  obtain ⟨items, rfl, hs⟩ := h
  exact item (.range c items) hs

theorem block (name : String) (params : List String) (h : Balanced is) (hn : blockNames is = []) :
    Balanced (.beginBlock name params :: (is ++ [.endBlock])) := by
  obtain ⟨items, rfl, hs⟩ := h
  exact item (.block name params items) hn

/-- A loop whose body an empty section of its own divides in two. -/
theorem loopElse (l : Loop) {before clause after : List Instruction} (depth : Nat)
    (hb : Balanced before) (hc : Balanced clause) (ha : Balanced after) :
    Balanced (.beginFor l :: (before ++ .beginEmpty depth true :: (clause ++ .endEmpty ::
      (after ++ [.endFor])))) := by
  obtain ⟨before, rfl, hb⟩ := hb
  obtain ⟨clause, rfl, hc⟩ := hc
  obtain ⟨after, rfl, ha⟩ := ha
  exact item (.loopElse l before depth clause after) ⟨hb, hc, ha⟩

end Balanced

namespace BalancedBranches

variable {is js : List Instruction}

theorem done : BalancedBranches [.endIf] := ⟨.done, rfl, trivial⟩

theorem otherwise (h : Balanced is) : BalancedBranches (.otherwise :: (is ++ [.endIf])) := by
  obtain ⟨items, rfl, hs⟩ := h
  exact ⟨.otherwise items, rfl, hs⟩

theorem elseIf (c : Expr) (h : Balanced is) (ho : BalancedBranches js) :
    BalancedBranches (.elseIf c :: (is ++ js)) := by
  obtain ⟨items, rfl, hs⟩ := h
  obtain ⟨others, rfl, ho⟩ := ho
  exact ⟨.elseIf c items others, rfl, hs, ho⟩

end BalancedBranches

/-! Blocks of pieces. -/

mutual

theorem Piece.blockNames_program : (p : Piece) → (at_ : Place) →
    blockNames (p.program at_) = p.blocks
  | .text _, _ | .emit _, _ | .set .., _ | .invoke .., _ | .include _, _ => by
    simp [Piece.program, Piece.blocks]
  | .cond c body others, at_ => by
    simp [Piece.program, Piece.blocks, blockNames_programAll body, others.blockNames_program]
  | .loop _ _ _ body, _ | .range _ _ _ _ body, _ | .block _ _ body, _ => by
    simp [Piece.program, Piece.blocks, blockNames_programAll body]
  | .empty body, at_ => by
    have hempty : at_.beginEmpty.blockName? = none := by
      unfold Place.beginEmpty
      split <;> rfl
    rw [Piece.program, blockNames_cons, hempty, blockNames_append, blockNames_programAll body]
    simp [Piece.blocks]

/-- The blocks that pieces define are those of their instructions. -/
theorem blockNames_programAll : (ps : List Piece) → (at_ : Place) →
    blockNames (programAll at_ ps) = blocksAll ps
  | [], _ => rfl
  | p :: ps, at_ => by
    simp [programAll, blocksAll, p.blockNames_program, blockNames_programAll ps]

theorem Others.blockNames_program : (others : Others) → (at_ : Place) →
    blockNames (others.program at_) = others.blocks
  | .done, _ => by simp [Others.program, Others.blocks]
  | .otherwise body, _ => by
    simp [Others.program, Others.blocks, blockNames_programAll body]
  | .elseIf c body others, _ => by
    simp [Others.program, Others.blocks, blockNames_programAll body, others.blockNames_program]

end

mutual

theorem Piece.blocks_of_valid : {p : Piece} → p.Valid .block → p.blocks = []
  | .text _, _ | .emit _, _ | .set .., _ | .invoke .., _ | .include _, _ => rfl
  | .cond _ body others, ⟨_, hb, ho⟩ => by
    rw [Piece.blocks, blocksAll_of_valid hb, others.blocks_of_valid ho, List.append_nil]
  | .loop _ _ _ _, ⟨_, hb, _⟩ => by rw [Piece.blocks, blocksAll_of_valid hb]
  | .empty _, hb | .range _ _ _ _ _, hb => by rw [Piece.blocks, blocksAll_of_valid hb]

/-- No block is defined inside of a block. -/
theorem blocksAll_of_valid : {ps : List Piece} → ValidAll .block ps → blocksAll ps = []
  | [], _ => rfl
  | p :: ps, ⟨hp, _, hps⟩ => by
    rw [blocksAll, p.blocks_of_valid hp, blocksAll_of_valid hps, List.append_nil]

theorem Others.blocks_of_valid : {others : Others} → others.Valid .block → others.blocks = []
  | .done, _ => rfl
  | .otherwise _, hb => by rw [Others.blocks, blocksAll_of_valid hb]
  | .elseIf _ body others, ⟨_, hb, ho⟩ => by
    rw [Others.blocks, blocksAll_of_valid hb, others.blocks_of_valid ho, List.append_nil]

end

/-! Pieces. -/

/-- Whether a piece is an empty section of the loop around it. -/
def Piece.inlineAt (at_ : Place) : Piece → Bool
  | .empty _ => at_.inLoop && !at_.closed
  | _ => false

/-- Instructions that an empty section of the loop around them divides in two. -/
def Divided (is : List Instruction) : Prop :=
  ∃ before depth clause after, Balanced before ∧ Balanced clause ∧ Balanced after ∧
    is = before ++ .beginEmpty depth true :: (clause ++ .endEmpty :: after)

theorem Divided.prepend {is js : List Instruction} (h : Balanced is) (hd : Divided js) :
    Divided (is ++ js) := by
  obtain ⟨before, depth, clause, after, hb, hc, ha, rfl⟩ := hd
  exact ⟨is ++ before, depth, clause, after, h.append hb, hc, ha, by rw [List.append_assoc]⟩

theorem Divided.loop {is : List Instruction} (l : Loop) (h : Divided is) :
    Balanced (.beginFor l :: (is ++ [.endFor])) := by
  obtain ⟨before, depth, clause, after, hb, hc, ha, rfl⟩ := h
  simpa using Balanced.loopElse l depth hb hc ha

/-- Counting goes on behind the first piece. -/
theorem inlineSections_cons (at_ : Place) (hin : at_.inLoop = true) (p : Piece) (ps : List Piece) :
    inlineSections at_.closed (p :: ps) =
      (if p.inlineAt at_ then 1 else 0) + inlineSections (at_.behind p.hasLoop).closed ps := by
  cases p with
  | empty body =>
    cases hc : at_.closed <;>
      simp [inlineSections, Piece.inlineAt, hin, hc, Place.behind, Piece.hasLoop]
  | _ => simp [inlineSections, Piece.inlineAt, Place.behind]

theorem Piece.inlineAt_of_not_inLoop {at_ : Place} (h : at_.inLoop = false) (p : Piece) :
    p.inlineAt at_ = false := by
  cases p <;> simp [Piece.inlineAt, h]

/-- Without an empty section of the loop around them, the first piece is none, and there is none
behind it. -/
theorem whole_cons {at_ : Place} {p : Piece} {ps : List Piece}
    (h : at_.inLoop = false ∨ inlineSections at_.closed (p :: ps) = 0) :
    p.inlineAt at_ = false ∧
      (at_.inLoop = false ∨ inlineSections (at_.behind p.hasLoop).closed ps = 0) := by
  cases hin : at_.inLoop with
  | false => exact ⟨p.inlineAt_of_not_inLoop hin, .inl rfl⟩
  | true =>
    have hcount := h.resolve_left (by simp [hin])
    rw [inlineSections_cons at_ hin] at hcount
    refine ⟨?_, .inr (by omega)⟩
    by_contra hp
    simp [hp] at hcount

theorem Place.beginEmpty_of_not_inline {at_ : Place} {body : List Piece}
    (h : (Piece.empty body).inlineAt at_ = false) :
    at_.beginEmpty = .beginEmpty (at_.depth + 1) false := by
  rw [Piece.inlineAt] at h
  rw [Place.beginEmpty, h]
  rfl

theorem Balanced.leaf (l : Leaf) : Balanced [l.instruction] := Balanced.item (.leaf l) trivial

mutual

theorem Piece.balanced : (p : Piece) → (at_ : Place) → p.Valid at_.mode → p.inlineAt at_ = false →
    Balanced (p.program at_)
  | .text t, _, _, _ => .leaf (.literal (.ofList t.chars))
  | .emit v, at_, _, _ => .leaf (.emit (v.var at_.mode))
  | .set target value, at_, _, _ => .leaf (.assign (target.path at_.mode) (value.expr at_.mode))
  | .invoke n args, at_, _, _ => .leaf (.invoke n.text (exprs at_.mode args))
  | .include r, at_, _, _ =>
    .leaf (.include (Arguments.anchor at_.dir (r.parts.map (Part.part at_.mode))))
  | .cond c body others, at_, ⟨_, hb, ho⟩, _ =>
    .cond _ ((balanced_all body at_.within hb).1 (.inl rfl))
      (others.balanced (at_.within.behind (anyLoop body)) ho rfl)
  | .loop _ _ _ body, at_, ⟨_, hb, hinline⟩, _ => by
    obtain ⟨hwhole, hdivided⟩ := balanced_all body at_.inner hb
    rcases Nat.le_one_iff_eq_zero_or_eq_one.mp hinline with h | h
    · exact .loop _ (hwhole (.inr h))
    · exact (hdivided rfl h).loop _
  | .empty body, at_, hb, hinline => by
    rw [Piece.program, Place.beginEmpty_of_not_inline hinline]
    exact .empty _ ((balanced_all body at_.within hb).1 (.inl rfl))
  | .block n params body, at_, ⟨_, hb⟩, _ =>
    .block _ _ ((balanced_all body at_.inBlock hb).1 (.inl rfl))
      ((blockNames_programAll body at_.inBlock).trans (blocksAll_of_valid hb))
  | .range counter start step stop body, at_, hb, _ =>
    .range _ ((balanced_all body at_.within hb).1 (.inl rfl))

theorem balanced_all : (ps : List Piece) → (at_ : Place) → ValidAll at_.mode ps →
    (at_.inLoop = false ∨ inlineSections at_.closed ps = 0 → Balanced (programAll at_ ps)) ∧
      (at_.inLoop = true → inlineSections at_.closed ps = 1 → Divided (programAll at_ ps))
  | [], _, _ => ⟨fun _ => .nil, fun _ h => absurd h (by simp [inlineSections])⟩
  | p :: ps, at_, ⟨hp, _, hps⟩ => by
    obtain ⟨hwhole, hdivided⟩ := balanced_all ps (at_.behind p.hasLoop) hps
    rw [programAll]
    constructor
    · intro h
      obtain ⟨hfirst, hrest⟩ := whole_cons h
      exact (p.balanced at_ hp hfirst).append (hwhole hrest)
    · intro hin hcount
      rw [inlineSections_cons at_ hin] at hcount
      cases hfirst : p.inlineAt at_ with
      | false =>
        rw [hfirst] at hcount
        exact .prepend (p.balanced at_ hp hfirst) (hdivided hin (by simpa using hcount))
      | true =>
        obtain ⟨clause, hclause, heq⟩ := p.clause at_ hfirst hp
        rw [hfirst, if_pos rfl] at hcount
        refine ⟨[], at_.depth, clause, _, .nil, hclause, hwhole (.inr (by omega)), ?_⟩
        rw [heq, List.cons_append, List.append_assoc]
        rfl

/-- The empty section of a loop is its clause. -/
theorem Piece.clause : (p : Piece) → (at_ : Place) → p.inlineAt at_ = true → p.Valid at_.mode →
    ∃ clause, Balanced clause ∧
      p.program at_ = .beginEmpty at_.depth true :: (clause ++ [.endEmpty])
  | .empty body, at_, hinline, hb => by
    refine ⟨programAll at_.within body, (balanced_all body at_.within hb).1 (.inl rfl), ?_⟩
    rw [Piece.inlineAt] at hinline
    rw [Piece.program, Place.beginEmpty, hinline, if_pos rfl]
  | .text _, _, h, _ | .emit _, _, h, _ | .set .., _, h, _ | .invoke .., _, h, _
  | .include _, _, h, _ | .cond .., _, h, _ | .loop .., _, h, _ | .block .., _, h, _
  | .range .., _, h, _ => absurd h Bool.false_ne_true

theorem Others.balanced : (others : Others) → (at_ : Place) → others.Valid at_.mode →
    at_.inLoop = false → BalancedBranches (others.program at_)
  | .done, _, _, _ => .done
  | .otherwise body, at_, hb, hin => .otherwise ((balanced_all body at_ hb).1 (.inl hin))
  | .elseIf _ body others, at_, ⟨_, hb, ho⟩, hin =>
    .elseIf _ ((balanced_all body at_ hb).1 (.inl hin))
      (others.balanced (at_.behind (anyLoop body)) ho hin)

end

end BraceTemplate.Source
