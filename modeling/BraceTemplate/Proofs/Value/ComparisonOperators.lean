import BraceTemplate.Proofs.Value.Arithmetic
import BraceTemplate.Proofs.Value.Comparison

/-!
The operators that compare. They follow the order of their operands wherever equality is being equals
in that order; and integers count for what they are when rounded to floats.
-/
namespace BraceTemplate

open Decimal

section Evaluation

variable {s : Scope} {left right : Expr} {w w₁ w₂ : List Warning} {l r : Value} {o : Ordering}

/-- What a comparison says of operands in the given order. -/
def BinaryOp.answer? : BinaryOp → Ordering → Option Bool
  | .eq, o => some o.isEq
  | .ne, o => some o.isNe
  | .lt, o => some o.isLT
  | .le, o => some o.isLE
  | .gt, o => some o.isGT
  | .ge, o => some o.isGE
  | _, _ => none

/-- Where equality is being equals in the order, all comparisons follow the order. -/
theorem outcome_comparison (hleft : outcome (left.eval s) w = (.ok l, w₁))
    (hright : outcome (right.eval s) w₁ = (.ok r, w₂)) (horder : Value.order l r = some o)
    (hequal : Value.equal l r = o.isEq) {op : BinaryOp} {t : Bool} (hop : op.answer? o = some t) :
    outcome ((Expr.binary op left right).eval s) w = (.ok (.bool t), w₂) := by
  have hsettled : op.settled? = none := by
    cases op <;> first | rfl | cases hop
  have happly : op.apply l r = .ok (.bool t) := by
    cases op <;> cases hop <;> simp only [BinaryOp.apply, ordered, horder, hequal] <;>
      cases o <;> rfl
  rw [outcome_binary hsettled hleft hright, happly]
  rfl

/-- The order of two integers is that of the rounded ones. -/
theorem Value.order_ints {m n : Int} (hm : fits m) (hn : fits n) :
    Value.order (.int m) (.int n) = some (compare (rounded m) (rounded n)) := by
  have hreadings : Value.readings? (.int m) (.int n) = some (Float.ofInt m, Float.ofInt n) :=
    Value.readings?_eq_some.mpr
      ⟨.int m, .int n, (readsAs_int hm).number, (readsAs_int hn).number, rfl⟩
  rw [Value.order_scalars rfl rfl, hreadings]
  exact floatOrder_ofInt (inRange_of_fits hm) (inRange_of_fits hn)

/-- Two integers that are rounded to one are close to each other, and one of them has more digits
than a float. -/
theorem near_of_rounded {m n : Int} (hm : fits m) (hn : fits n) (h : rounded m = rounded n)
    (hne : m ≠ n) : (2 ^ 53 < m.natAbs ∨ 2 ^ 53 < n.natAbs) ∧ (m - n).natAbs ≤ 1024 := by
  constructor
  · by_contra hsmall
    rw [not_or, Nat.not_lt, Nat.not_lt] at hsmall
    rw [rounded_of_le hsmall.1, rounded_of_le hsmall.2] at h
    exact hne h
  · have hm := rounded_near hm
    have hn := rounded_near hn
    omega

/-- Integers are compared as they are when rounded to 53 significant digits. Where this does not make
them one number, every comparison answers for the integers themselves; where it does, they count as
equal, which for different integers needs more digits than 53 and a distance of 1024 at most. -/
theorem comparison_of_integers {m n : Int} (hleft : outcome (left.eval s) w = (.ok (.int m), w₁))
    (hright : outcome (right.eval s) w₁ = (.ok (.int n), w₂)) (hm : fits m) (hn : fits n) :
    let o := if rounded m = rounded n then .eq else compare m n
    Value.order (.int m) (.int n) = some o ∧
    Value.equal (.int m) (.int n) = decide (rounded m = rounded n) ∧
    (∀ op t, op.answer? o = some t →
      outcome ((Expr.binary op left right).eval s) w = (.ok (.bool t), w₂)) ∧
    (rounded m = rounded n → m ≠ n →
      (2 ^ 53 < m.natAbs ∨ 2 ^ 53 < n.natAbs) ∧ (m - n).natAbs ≤ 1024) := by
  intro o
  have ho : compare (rounded m) (rounded n) = o := compare_rounded m n
  have horder := Value.order_ints hm hn
  rw [ho] at horder
  have hequal : Value.equal (.int m) (.int n) = o.isEq := by
    rw [Value.equal_eq_order rfl rfl (by rintro ⟨⟩), horder]
    cases o <;> rfl
  have hdecide : o.isEq = decide (rounded m = rounded n) := by
    rw [← ho, Bool.eq_iff_iff, Ordering.isEq_iff_eq_eq, compare_eq_iff_eq, decide_eq_true_iff]
  refine ⟨horder, hequal.trans hdecide, ?_, near_of_rounded hm hn⟩
  intro op t hop
  exact outcome_comparison hleft hright horder hequal hop

/-- Three integers behind one another, of which the first two are rounded to one. -/
theorem comparison_of_integers_neighbours :
    let s : Scope := ⟨[], none, .builtin Text.WordCase.speller, false⟩
    let result (op : BinaryOp) (m n : Int) :=
      outcome ((Expr.binary op (.literal (.int m)) (.literal (.int n))).eval s) []
    (∀ m ∈ [9007199254740992, 9007199254740993, 9007199254740994],
      outcome ((Expr.literal (.int m)).eval s) [] = (.ok (.int m), []) ∧ fits m = true) ∧
    result .ge 9007199254740992 9007199254740993 = (.ok (.bool true), []) ∧
    result .lt 9007199254740992 9007199254740994 = (.ok (.bool true), []) ∧
    result .ne 9007199254740993 9007199254740994 = (.ok (.bool true), []) := by
  intro s result
  have hliteral (m : Int) := outcome_literal s (.int m) []
  refine ⟨fun m hm => ⟨hliteral m, ?_⟩, ?_, ?_, ?_⟩
  · revert m
    decide
  · obtain ⟨-, -, hop, -⟩ := comparison_of_integers (hliteral 9007199254740992)
      (hliteral 9007199254740993) (by decide) (by decide)
    exact hop .ge true (by decide)
  · obtain ⟨-, -, hop, -⟩ := comparison_of_integers (hliteral 9007199254740992)
      (hliteral 9007199254740994) (by decide) (by decide)
    exact hop .lt true (by decide)
  · obtain ⟨-, -, hop, -⟩ := comparison_of_integers (hliteral 9007199254740993)
      (hliteral 9007199254740994) (by decide) (by decide)
    exact hop .ne true (by decide)

/-- Two integers in a row that count as equal. -/
theorem neighbours_equal :
    fits 9007199254740992 ∧ fits 9007199254740993 ∧
    Value.order (.int 9007199254740992) (.int 9007199254740993) = some .eq ∧
    Value.equal (.int 9007199254740992) (.int 9007199254740993) = true ∧
    ¬ (∀ m n, fits m → fits n → Value.order (.int m) (.int n) = some (compare m n) ∧
      (Value.equal (.int m) (.int n) = true ↔ m = n)) := by
  have horder : Value.order (.int 9007199254740992) (.int 9007199254740993) = some .eq := by
    decide +kernel
  have hequal : Value.equal (.int 9007199254740992) (.int 9007199254740993) = true := by
    decide +kernel
  refine ⟨by decide, by decide, horder, hequal, ?_⟩
  intro hexact
  have hsame := (hexact 9007199254740992 9007199254740993 (by decide) (by decide)).2.mp hequal
  exact absurd hsame (by decide)

/-- Of two numerals of one number neither less nor equal nor greater holds. -/
theorem outcome_apart (hleft : outcome (left.eval s) w = (.ok l, w₁))
    (hright : outcome (right.eval s) w₁ = (.ok r, w₂)) (h : l.SpelledApart r) :
    ∀ op ∈ [BinaryOp.lt, .eq, .gt],
      outcome ((Expr.binary op left right).eval s) w = (.ok (.bool false), w₂) := by
  simp only [List.forall_mem_cons, List.not_mem_nil, false_implies, implies_true, and_true]
  refine ⟨?_, ?_, ?_⟩
  all_goals
    rw [outcome_binary rfl hleft hright]
    simp only [BinaryOp.apply, ordered, h.order_eq, h.equal_eq]
    rfl

/-- Of two scalars exactly one of less, equal and greater holds, and they are equals in the order
exactly if they are equal; only of two different numerals of one number none holds, since these are
equals in the order and not equal. -/
theorem scalars_trichotomous (hleft : outcome (left.eval s) w = (.ok l, w₁))
    (hright : outcome (right.eval s) w₁ = (.ok r, w₂)) (hl : l.Sound) (hr : r.Sound)
    (hlscalar : l.isCollection = false) (hrscalar : r.isCollection = false) :
    let result (op : BinaryOp) := outcome ((Expr.binary op left right).eval s) w
    (¬ l.SpelledApart r →
      (∃ op ∈ [BinaryOp.lt, .eq, .gt], ∀ other ∈ [BinaryOp.lt, .eq, .gt],
        result other = (.ok (.bool (decide (other = op))), w₂)) ∧
      (l.order r = some .eq ↔ l.equal r = true)) ∧
    (l.SpelledApart r →
      (∀ op ∈ [BinaryOp.lt, .eq, .gt], result op = (.ok (.bool false), w₂)) ∧
      l.order r = some .eq ∧ l.equal r = false) := by
  intro result
  constructor
  · intro happart
    have hequal := Value.equal_eq_order hlscalar hrscalar happart
    obtain ⟨o, ho⟩ := Option.isSome_iff_exists.mp (hl.order_isSome hr hlscalar hrscalar)
    have hholds : ∃ op ∈ [BinaryOp.lt, .eq, .gt], ∀ other ∈ [BinaryOp.lt, .eq, .gt],
        other.answer? o = some (decide (other = op)) := by
      cases o <;> decide
    obtain ⟨op, hop, hanswer⟩ := hholds
    refine ⟨⟨op, hop, ?_⟩, by rw [hequal, beq_iff_eq]⟩
    intro other hother
    have hequal : l.equal r = o.isEq := by
      rw [hequal, ho]
      cases o <;> rfl
    exact outcome_comparison hleft hright ho hequal (hanswer other hother)
  · intro happart
    exact ⟨outcome_apart hleft hright happart, happart.order_eq, happart.equal_eq⟩

/-- A whole number and one with a fraction of zero. -/
theorem Value.spelledApart_five : SpelledApart (.str "5") (.str "5.0") := by
  have hwhole : readNumber "5" = some (.int 5) := by rfl
  have hfraction : readNumber "5.0" = some (.float 5) := by rfl
  exact .intro (by decide) (by decide +kernel) (by decide +kernel) hwhole hfraction
    (by decide +kernel)

/-- A padded text against a number, and two numerals of one number. -/
theorem scalars_trichotomous_padded :
    let s : Scope := ⟨[], none, .builtin Text.WordCase.speller, false⟩
    let result (op : BinaryOp) (l r : Value) :=
      outcome ((Expr.binary op (.literal l) (.literal r)).eval s) []
    (∀ v ∈ [.str " 5", .int 5, .str "5", .str "5.0"],
      outcome ((Expr.literal v).eval s) [] = (.ok v, []) ∧ v.Sound ∧ v.isCollection = false) ∧
    (∃ op ∈ [BinaryOp.lt, .eq, .gt], ∀ other ∈ [BinaryOp.lt, .eq, .gt],
      result other (.str " 5") (.int 5) = (.ok (.bool (decide (other = op))), [])) ∧
    ∀ op ∈ [BinaryOp.lt, .eq, .gt],
      result op (.str "5") (.str "5.0") = (.ok (.bool false), []) := by
  intro s result
  have hliteral (v : Value) := outcome_literal s v []
  have hsound : (Value.int 5).Sound := .int ⟨by decide, by decide⟩
  refine ⟨?_, ?_, ?_⟩
  · simp only [List.forall_mem_cons, List.not_mem_nil, false_implies, implies_true, and_true]
    exact ⟨⟨hliteral _, .str _, rfl⟩, ⟨hliteral _, hsound, rfl⟩, ⟨hliteral _, .str _, rfl⟩,
      hliteral _, .str _, rfl⟩
  · exact ((scalars_trichotomous (hliteral (.str " 5")) (hliteral (.int 5)) (.str _) hsound rfl
      rfl).1 (by rintro ⟨⟩)).1
  · exact ((scalars_trichotomous (hliteral (.str "5")) (hliteral (.str "5.0")) (.str _) (.str _) rfl
      rfl).2 Value.spelledApart_five).1

/-- Two numerals of one number, of which neither less nor equal nor greater holds. -/
theorem numerals_apart :
    let s : Scope := ⟨[], none, .builtin Text.WordCase.speller, false⟩
    let result (op : BinaryOp) :=
      outcome ((Expr.binary op (.literal (.str "5")) (.literal (.str "5.0"))).eval s) []
    Value.order (.str "5") (.str "5.0") = some .eq ∧ Value.equal (.str "5") (.str "5.0") = false ∧
    ∀ op ∈ [BinaryOp.lt, .eq, .gt], result op = (.ok (.bool false), []) := by
  intro s result
  have happart := Value.spelledApart_five
  exact ⟨happart.order_eq, happart.equal_eq,
    outcome_apart (outcome_literal s _ []) (outcome_literal s _ []) happart⟩

end Evaluation

end BraceTemplate
