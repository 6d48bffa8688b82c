import BraceTemplate.Proofs.Decimal.Integers
import BraceTemplate.Value.Compare

/-!
The order of floats. It turns around with its operands, and any two finite floats have one, which is
that of equals exactly where they are equal. Floats made of integers are ordered as the integers are,
unless both are rounded to one.
-/
namespace BraceTemplate.Decimal

open Float.Model Float.Model.UnpackedFloat
open Value (floatOrder)

theorem compare_swap (x y : UnpackedFloat) : y.compare x = (x.compare y).map Ordering.swap := by
  rcases x with s | _ | s | ⟨s, m, e, hm⟩ <;> rcases y with s' | _ | s' | ⟨s', m', e', hm'⟩
  case finite.finite =>
    have hsize : (compare e' e).then (compare m' m) =
        ((compare e e').then (compare m m')).swap := by
      rw [Ordering.swap_then, ← Std.OrientedCmp.eq_swap, ← Std.OrientedCmp.eq_swap]
    cases s <;> cases s' <;> simp only [UnpackedFloat.compare, Option.map_some, hsize] <;> rfl
  -- elsewhere the signs decide
  all_goals (try cases s) <;> (try cases s') <;> rfl

theorem compare_self {x : UnpackedFloat} (hx : x.isFinite = true) : x.compare x = some .eq := by
  cases x with
  | finite s m e hm => cases s <;> simp [UnpackedFloat.compare]
  | zero s => rfl
  | _ => cases hx

theorem exists_of_isFinite {x : UnpackedFloat} (hx : x.isFinite = true) :
    (∃ s, x = .zero s) ∨ ∃ s m e hm, x = .finite s m e hm := by
  cases x with
  | finite s m e hm => exact .inr ⟨s, m, e, hm, rfl⟩
  | zero s => exact .inl ⟨s, rfl⟩
  | _ => cases hx

/-- Any two finite floats have an order. -/
theorem compare_isSome {x y : UnpackedFloat} (hx : x.isFinite = true) (hy : y.isFinite = true) :
    (x.compare y).isSome = true := by
  rcases exists_of_isFinite hx with ⟨s, rfl⟩ | ⟨s, m, e, hm, rfl⟩ <;>
    rcases exists_of_isFinite hy with ⟨s', rfl⟩ | ⟨s', m', e', hm', rfl⟩ <;>
    cases s <;> cases s' <;> rfl

section Floats

variable {x y : Float}

theorem lt_iff_compare : x < y ↔ x.toModel.unpack.compare y.toModel.unpack = some .lt := by
  show decide (x.toModel.unpack.lt y.toModel.unpack = true) = true ↔ _
  rw [decide_eq_true_iff, UnpackedFloat.lt, beq_iff_eq]

theorem beq_eq_compare (x y : Float) :
    (x == y) = (x.toModel.unpack.compare y.toModel.unpack == some .eq) := rfl

theorem floatOrder_eq (x y : Float) :
    floatOrder x y = x.toModel.unpack.compare y.toModel.unpack := by
  have hswap := compare_swap x.toModel.unpack y.toModel.unpack
  unfold floatOrder
  simp only [lt_iff_compare, beq_eq_compare, hswap]
  rcases x.toModel.unpack.compare y.toModel.unpack with _ | (_ | _ | _) <;> rfl

theorem beq_eq_floatOrder (x y : Float) : (x == y) = (floatOrder x y == some .eq) := by
  rw [floatOrder_eq, beq_eq_compare]

theorem floatOrder_swap (x y : Float) : floatOrder y x = (floatOrder x y).map Ordering.swap := by
  rw [floatOrder_eq, floatOrder_eq]
  exact compare_swap _ _

theorem float_beq_comm (x y : Float) : (x == y) = (y == x) := by
  rw [beq_eq_floatOrder, beq_eq_floatOrder, floatOrder_swap x y]
  rcases floatOrder x y with _ | (_ | _ | _) <;> rfl

theorem floatOrder_self (hx : x.isFinite = true) : floatOrder x x = some .eq := by
  rw [floatOrder_eq]
  exact compare_self hx

theorem floatOrder_isSome (hx : x.isFinite = true) (hy : y.isFinite = true) :
    (floatOrder x y).isSome = true := by
  rw [floatOrder_eq]
  exact compare_isSome hx hy

end Floats

section Integers

variable {m n hi : Int} {x y : UnpackedFloat}

theorem compare_map {α β : Type} [LinearOrder α] [LinearOrder β] {f : α → β} (hf : StrictMono f)
    (a b : α) : compare (f a) (f b) = compare a b := by
  rw [← cmp_eq_compare, ← cmp_eq_compare, hf.cmp_map_eq]

theorem compare_neg (a b : Int) : compare (-a) (-b) = compare b a := by
  have hneg : StrictAnti (fun n : Int => -n) := fun _ _ h => Int.neg_lt_neg h
  rw [← cmp_eq_compare, ← cmp_eq_compare]
  exact hneg.cmp_map_eq a b

/-- Of two numbers with 53 digits the one with the higher exponent is the larger one. -/
theorem magnitude_lt {m m' : Nat} (hm : m.log2 = 52) (hm' : m'.log2 = 52) {a b : Nat} (h : a < b) :
    m * 2 ^ a < m' * 2 ^ b := by
  have hupper := (log2_bounds (ne_zero_of_log2 (d := 0) hm)).2
  have hlower := (log2_bounds (ne_zero_of_log2 (d := 0) hm')).1
  rw [hm] at hupper
  rw [hm'] at hlower
  calc m * 2 ^ a < 2 ^ (52 + 1) * 2 ^ a := Nat.mul_lt_mul_of_pos_right hupper (Nat.two_pow_pos a)
    _ = 2 ^ 52 * 2 ^ (a + 1) := by rw [Nat.pow_succ 2 52, Nat.mul_assoc, ← Nat.pow_succ']
    _ ≤ 2 ^ 52 * 2 ^ b := Nat.mul_le_mul_left _ (Nat.pow_le_pow_right Nat.two_pos h)
    _ ≤ m' * 2 ^ b := Nat.mul_le_mul_right _ hlower

theorem compare_magnitude {m m' : Nat} {e e' : Int} (hm : m.log2 = 52) (hm' : m'.log2 = 52)
    (he : -52 ≤ e) (he' : -52 ≤ e') : (compare e e').then (compare m m') =
      compare (m * 2 ^ (e + 52).toNat) (m' * 2 ^ (e' + 52).toNat) := by
  rcases Int.lt_trichotomy e e' with hlt | rfl | hgt
  · rw [compare_lt_iff_lt.mpr hlt, compare_lt_iff_lt.mpr (magnitude_lt hm hm' (by omega))]
    rfl
  · have hunit := strictMono_mul_right_of_pos (Nat.two_pow_pos (e + 52).toNat)
    rw [compare_eq_iff_eq.mpr rfl, Ordering.eq_then]
    exact (compare_map hunit m m').symm
  · rw [compare_gt_iff_gt.mpr hgt, compare_gt_iff_gt.mpr (magnitude_lt hm' hm (by omega))]
    rfl

/-- Floats in units of `2 ^ -52` are ordered by what they count for. -/
theorem compare_moderate (hx : Moderate (-52) hi x) (hy : Moderate (-52) hi y) :
    x.compare y = some (compare (units x) (units y)) := by
  have hpositive {m : Nat} {e : Int} (hm : 0 < m) : 0 < ((m * 2 ^ (e + 52).toNat : Nat) : Int) :=
    Int.natCast_pos.mpr (Nat.mul_pos hm (Nat.two_pow_pos _))
  rcases hx with ⟨s, rfl⟩ | hx
  · rcases hy with ⟨s', rfl⟩ | hy
    · rfl
    · obtain ⟨s', m', e', hm', rfl, hy⟩ := hy.exists_finite
      have := hpositive (e := e') hm'
      cases s' <;> simp only [UnpackedFloat.compare, units, Sign.apply]
      · rw [compare_gt_iff_gt.mpr (by omega)]
      · rw [compare_lt_iff_lt.mpr (by omega)]
  · obtain ⟨s, m, e, hm, rfl, hx⟩ := hx.exists_finite
    have := hpositive (e := e) hm
    rcases hy with ⟨s', rfl⟩ | hy
    · cases s <;> simp only [UnpackedFloat.compare, units, Sign.apply]
      · rw [compare_lt_iff_lt.mpr (by omega)]
      · rw [compare_gt_iff_gt.mpr (by omega)]
    · obtain ⟨s', m', e', hm', rfl, hy⟩ := hy.exists_finite
      have := hpositive (e := e') hm'
      have hsize := compare_magnitude hx.1 hy.1 hx.2.1 hy.2.1
      cases s <;> cases s' <;> simp only [UnpackedFloat.compare, units, Sign.apply]
      · rw [compare_neg, compare_map Nat.strictMono_cast, hsize, ← Std.OrientedCmp.eq_swap]
      · rw [compare_lt_iff_lt.mpr (by omega)]
      · rw [compare_gt_iff_gt.mpr (by omega)]
      · rw [compare_map Nat.strictMono_cast, hsize]

/-- The floats made of two integers are ordered as the rounded integers are. -/
theorem floatOrder_ofInt (hm : InRange m) (hn : InRange n) :
    floatOrder (Float.ofInt m) (Float.ofInt n) = some (compare (rounded m) (rounded n)) := by
  obtain ⟨hx, -, hxunits⟩ := ofInt_rounded hm
  obtain ⟨hy, -, hyunits⟩ := ofInt_rounded hn
  rw [floatOrder_eq, compare_moderate hx hy, hxunits, hyunits]
  exact congrArg some (compare_map (strictMono_mul_right_of_pos (by decide)) _ _)

/-- Where two integers are not rounded to one, their floats are ordered as they are. -/
theorem compare_rounded (m n : Int) : compare (rounded m) (rounded n) =
    if rounded m = rounded n then .eq else compare m n := by
  by_cases hsame : rounded m = rounded n
  · rw [if_pos hsame, compare_eq_iff_eq.mpr hsame]
  · rw [if_neg hsame]
    rcases Int.lt_trichotomy m n with hlt | rfl | hgt
    · have := rounded_mono (Int.le_of_lt hlt)
      rw [compare_lt_iff_lt.mpr hlt, compare_lt_iff_lt.mpr (by omega)]
    · exact absurd rfl hsame
    · have := rounded_mono (Int.le_of_lt hgt)
      rw [compare_gt_iff_gt.mpr hgt, compare_gt_iff_gt.mpr (by omega)]

end Integers

end BraceTemplate.Decimal
