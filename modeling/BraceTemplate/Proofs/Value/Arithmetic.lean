import BraceTemplate.Expr.Eval
import BraceTemplate.Proofs.Computation
import BraceTemplate.Proofs.Decimal.Magnitude

/-!
Arithmetic on values that read as signed 64-bit integers. What an operator makes of them is the
exact integer, where that is a signed 64-bit one, and a float otherwise; nothing wraps around. Only
the least integer is special: it has no negation and no absolute value.
-/
namespace BraceTemplate

open Decimal

/-- The value reads as a signed 64-bit integer. -/
structure Value.ReadsAs (v : Value) (n : Int) : Prop where
  number : v.number? = some (.int n)
  fits : fits n

/-- An exact integer as far as it is a signed 64-bit one, a float beyond that. -/
def Value.exactOr (n : Int) (x : Float) : Value := if fits n then .int n else .float x

theorem Value.readsAs_int {n : Int} (h : Decimal.fits n) : (Value.int n).ReadsAs n := by
  refine ⟨?_, h⟩
  rw [Value.number?, if_pos (fits_iff.mp h).2]

section Quotients

variable {m n : Int}

/-- The quotient of two signed 64-bit integers is one, except for that of the least one by -1. -/
theorem fits_tdiv_iff (hm : fits m) (hn : n ≠ 0) :
    fits (m.tdiv n) ↔ ¬(m = minInt64 ∧ n = -1) := by
  constructor
  · rintro hquotient ⟨rfl, rfl⟩
    exact absurd hquotient (by decide)
  · intro hpair
    rw [fits_iff, minInt64, maxInt64] at hm ⊢
    rw [minInt64] at hpair
    by_cases hunit : n.natAbs = 1
    · rcases Int.natAbs_eq_iff.mp hunit with rfl | rfl
      · rwa [Int.natCast_one, Int.tdiv_one]
      · rw [Int.natCast_one, Int.tdiv_neg, Int.tdiv_one]
        omega
    · have hsize := Int.natAbs_tdiv m n
      have hhalf : m.natAbs / n.natAbs ≤ m.natAbs / 2 :=
        Nat.div_le_div_left (by omega) Nat.two_pos
      have hquotient : (m.tdiv n).natAbs ≤ m.natAbs / 2 := hsize ▸ hhalf
      omega

/-- The remainder of truncating division has the sign of the dividend and is smaller than the
divisor. -/
theorem tmod_bounds (m : Int) (hn : n ≠ 0) :
    (0 ≤ m → 0 ≤ m.tmod n) ∧ (m ≤ 0 → m.tmod n ≤ 0) ∧ (m.tmod n).natAbs < n.natAbs := by
  refine ⟨Int.tmod_nonneg n, ?_, ?_⟩
  · intro hm
    have hneg := Int.tmod_nonneg n (Int.neg_nonneg_of_nonpos hm)
    rw [Int.neg_tmod] at hneg
    omega
  · rw [Int.natAbs_tmod]
    exact Nat.mod_lt _ (Int.natAbs_pos.mpr hn)

theorem fits_tmod (m : Int) (hn : n ≠ 0) (hfits : fits n) : fits (m.tmod n) := by
  have hsize := (tmod_bounds m hn).2.2
  rw [fits_iff, minInt64, maxInt64] at hfits ⊢
  omega

end Quotients

namespace Number

variable {m n : Int}

theorem apply_int (op : ArithmeticOp) (hn : n ≠ 0) : apply op (.int m) (.int n) =
    match exactInt op m n with
    | some k => .ok (.int k)
    | none => floatResult op (Float.ofInt m) (Float.ofInt n) := by
  unfold apply
  split
  · rename_i h
    cases h
    exact absurd rfl hn
  · rename_i h
    cases h
    exact absurd rfl hn
  · rename_i h h'
    cases h
    cases h'
    rfl
  · rename_i hints _ _
    exact (hints m n rfl rfl).elim

/-- An integer that does not fit gives way to a float, which has to be finite. -/
theorem checked_or (k : Int) {x : Float} (hx : x.isFinite = true) :
    (match checked k with
      | some k => .ok (.int k)
      | none => .ok (.ofFloat x) : Except RenderFault Value) = .ok (.exactOr k x) := by
  unfold checked Value.exactOr
  by_cases hk : fits k
  · rw [if_pos hk, if_pos hk]
  · rw [if_neg hk, if_neg hk, Value.ofFloat, if_pos hx]

theorem apply_add (hm : fits m) (hn : fits n) : apply .add (.int m) (.int n) =
    .ok (.exactOr (m + n) (Float.ofInt m + Float.ofInt n)) :=
  checked_or (m + n) (isFinite_add hm hn)

theorem apply_sub (hm : fits m) (hn : fits n) : apply .sub (.int m) (.int n) =
    .ok (.exactOr (m - n) (Float.ofInt m - Float.ofInt n)) :=
  checked_or (m - n) (isFinite_sub hm hn)

theorem apply_mul (hm : fits m) (hn : fits n) : apply .mul (.int m) (.int n) =
    .ok (.exactOr (m * n) (Float.ofInt m * Float.ofInt n)) :=
  checked_or (m * n) (isFinite_mul hm hn)

theorem apply_div (hm : fits m) (hn : fits n) (hne : n ≠ 0) : apply .div (.int m) (.int n) =
    .ok (if n ∣ m then .exactOr (m / n) (Float.ofInt m / Float.ofInt n)
      else .float (Float.ofInt m / Float.ofInt n)) := by
  have hfinite := isFinite_div hm hn hne
  have hfloat : floatResult .div (Float.ofInt m) (Float.ofInt n) =
      .ok (.ofFloat (Float.ofInt m / Float.ofInt n)) := by
    simp only [floatResult, ofInt_beq_zero hn hne, Bool.false_eq_true, if_false]
  rw [apply_int .div hne, hfloat, exactInt]
  by_cases hdvd : n ∣ m
  · rw [if_pos hdvd, if_pos (Int.tmod_eq_zero_of_dvd hdvd), Int.tdiv_eq_ediv_of_dvd hdvd]
    exact checked_or (m / n) hfinite
  · rw [if_neg hdvd, if_neg fun hrest => hdvd (Int.dvd_of_tmod_eq_zero hrest)]
    simp only [Value.ofFloat, hfinite, if_true]

theorem apply_rem (hm : fits m) (hn : fits n) (hne : n ≠ 0) : apply .rem (.int m) (.int n) =
    .ok (if m = minInt64 ∧ n = -1 then .float (-0.0) else .int (m.tmod n)) := by
  rw [apply_int .rem hne, exactInt]
  by_cases hpair : m = minInt64 ∧ n = -1
  · rw [if_pos hpair, if_neg fun hquotient => (fits_tdiv_iff hm hne).mp hquotient hpair]
    obtain ⟨rfl, rfl⟩ := hpair
    have hzero : remainder (Float.ofInt minInt64) (Float.ofInt (-1)) = -0.0 := by decide +kernel
    have hfinite : (-0.0 : Float).isFinite = true := by decide +kernel
    simp only [floatResult, ofInt_beq_zero hn hne, hzero, Value.ofFloat, hfinite, if_true,
      Bool.false_eq_true, if_false]
  · rw [if_neg hpair, if_pos ((fits_tdiv_iff hm hne).mpr hpair), checked,
      if_pos (fits_tmod m hne hn)]

end Number

section Evaluation

variable {s : Scope} {left right : Expr} {w w₁ w₂ : List Warning} {l r : Value} {m n : Int}

theorem outcome_literal (s : Scope) (v : Value) (w : List Warning) :
    outcome ((Expr.literal v).eval s) w = (.ok v, w) := by
  rw [Expr.eval]
  rfl

/-- An operator that needs both of its operands gets their values. -/
theorem outcome_binary {op : BinaryOp} (hop : op.settled? = none)
    (hleft : outcome (left.eval s) w = (.ok l, w₁))
    (hright : outcome (right.eval s) w₁ = (.ok r, w₂)) :
    outcome ((Expr.binary op left right).eval s) w =
      ((op.apply l r).mapError .execution, w₂) := by
  rw [Expr.eval, outcome_bind_ok hleft, hop, if_neg (by simp), outcome_bind_ok hright, failing,
    outcome_lift]

/-- An arithmetic operator computes on what its operands read as. -/
theorem outcome_arithmetic {op : BinaryOp} {kind : ArithmeticOp} (hop : op.settled? = none)
    (hkind : ∀ l r, op.apply l r = Value.arithmetic kind l r)
    (hleft : outcome (left.eval s) w = (.ok l, w₁))
    (hright : outcome (right.eval s) w₁ = (.ok r, w₂)) (hl : l.ReadsAs m) (hr : r.ReadsAs n) :
    outcome ((Expr.binary op left right).eval s) w =
      ((Number.apply kind (.int m) (.int n)).mapError .execution, w₂) := by
  rw [outcome_binary hop hleft hright, hkind]
  simp only [Value.arithmetic, Value.numberOrFault, hl.number, hr.number]
  rfl

/-- Integer arithmetic is exact or goes on in floats. Sums, differences and products are exact where
they are signed 64-bit integers, and so are quotients of a multiple by its divisor; otherwise the
operator works on floats, and its result is one. Only a divisor of zero makes an operator fail. -/
theorem arithmetic_on_integers (hleft : outcome (left.eval s) w = (.ok l, w₁))
    (hright : outcome (right.eval s) w₁ = (.ok r, w₂)) (hl : l.ReadsAs m) (hr : r.ReadsAs n) :
    let result (op : BinaryOp) := outcome ((Expr.binary op left right).eval s) w
    let x := Float.ofInt m
    let y := Float.ofInt n
    result .add = (.ok (.exactOr (m + n) (x + y)), w₂) ∧
    result .sub = (.ok (.exactOr (m - n) (x - y)), w₂) ∧
    result .mul = (.ok (.exactOr (m * n) (x * y)), w₂) ∧
    (n ≠ 0 → result .div =
      (.ok (if n ∣ m then .exactOr (m / n) (x / y) else .float (x / y)), w₂)) ∧
    (n ≠ 0 → result .rem =
      (.ok (if m = minInt64 ∧ n = -1 then .float (-0.0) else .int (m.tmod n)), w₂)) ∧
    (n = 0 → result .div = (.error (.execution .divisionByZero), w₂) ∧
      result .rem = (.error (.execution .moduloByZero), w₂)) := by
  intro result x y
  have hresult (op : BinaryOp) (kind : ArithmeticOp) (hop : op.settled? = none)
      (hkind : ∀ l r, op.apply l r = Value.arithmetic kind l r) :
      result op = ((Number.apply kind (.int m) (.int n)).mapError .execution, w₂) :=
    outcome_arithmetic hop hkind hleft hright hl hr
  refine ⟨?_, ?_, ?_, ?_, ?_, ?_⟩
  · rw [hresult .add .add rfl fun _ _ => rfl, Number.apply_add hl.fits hr.fits]
    rfl
  · rw [hresult .sub .sub rfl fun _ _ => rfl, Number.apply_sub hl.fits hr.fits]
    rfl
  · rw [hresult .mul .mul rfl fun _ _ => rfl, Number.apply_mul hl.fits hr.fits]
    rfl
  · intro hne
    rw [hresult .div .div rfl fun _ _ => rfl, Number.apply_div hl.fits hr.fits hne]
    rfl
  · intro hne
    rw [hresult .rem .rem rfl fun _ _ => rfl, Number.apply_rem hl.fits hr.fits hne]
    rfl
  · rintro rfl
    exact ⟨hresult .div .div rfl fun _ _ => rfl, hresult .rem .rem rfl fun _ _ => rfl⟩

/-- The least integer, read from text, and -1. -/
theorem arithmetic_on_integers_extreme :
    let s : Scope := ⟨[], none, .builtin Text.WordCase.speller, false⟩
    let left := Expr.literal (.str " -9223372036854775808 ")
    let right := Expr.neg (.literal (.bool true))
    let result (op : BinaryOp) := outcome ((Expr.binary op left right).eval s) []
    (outcome (left.eval s) [] = (.ok (.str " -9223372036854775808 "), []) ∧
      outcome (right.eval s) [] = (.ok (.int (-1)), []) ∧
      (Value.str " -9223372036854775808 ").ReadsAs minInt64 ∧ (Value.int (-1)).ReadsAs (-1)) ∧
    result .add = (.ok (.float (-9223372036854775808)), []) ∧
    result .sub = (.ok (.int (-9223372036854775807)), []) ∧
    result .mul = (.ok (.float 9223372036854775808), []) ∧
    result .div = (.ok (.float 9223372036854775808), []) ∧
    result .rem = (.ok (.float (-0.0)), []) := by
  intro s left right result
  have hleft : outcome (left.eval s) [] = (.ok (.str " -9223372036854775808 "), []) :=
    outcome_literal s _ []
  have hright : outcome (right.eval s) [] = (.ok (.int (-1)), []) := by
    rw [Expr.eval, Expr.eval]
    rfl
  have hl : (Value.str " -9223372036854775808 ").ReadsAs minInt64 := ⟨by rfl, by decide⟩
  have hr : (Value.int (-1)).ReadsAs (-1) := Value.readsAs_int (by decide)
  obtain ⟨hadd, hsub, hmul, hdiv, hrem, -⟩ := arithmetic_on_integers hleft hright hl hr
  have hsum : Float.ofInt minInt64 + Float.ofInt (-1) = -9223372036854775808 := by decide +kernel
  have hproduct : Float.ofInt minInt64 * Float.ofInt (-1) = 9223372036854775808 := by
    decide +kernel
  have hquotient : Float.ofInt minInt64 / Float.ofInt (-1) = 9223372036854775808 := by
    decide +kernel
  rw [hsum] at hadd
  rw [hproduct] at hmul
  rw [hquotient] at hdiv
  exact ⟨⟨hleft, hright, hl, hr⟩, hadd, hsub, hmul, hdiv (by decide), hrem (by decide)⟩

theorem outcome_neg (hleft : outcome (left.eval s) w = (.ok l, w₁)) (hl : l.ReadsAs m) :
    outcome ((Expr.neg left).eval s) w =
      (.ok (if fits (-m) then .int (-m) else .null), w₁) := by
  have hnegate : l.negate = .ok (if fits (-m) then .int (-m) else .null) := by
    simp only [Value.negate, Value.numberOrFault, hl.number]
    rfl
  rw [Expr.eval, outcome_bind_ok hleft, hnegate]
  rfl

/-- What is left of zero when an integer is taken away from it. -/
theorem outcome_difference (hleft : outcome (left.eval s) w = (.ok l, w₁)) (hl : l.ReadsAs m) :
    outcome ((Expr.binary .sub (.literal (.int 0)) left).eval s) w =
      (.ok (.exactOr (-m) (Float.ofInt 0 - Float.ofInt m)), w₁) := by
  have hzero := outcome_literal s (.int 0) w
  have hreads : (Value.int 0).ReadsAs 0 := Value.readsAs_int (by decide)
  rw [outcome_arithmetic rfl (fun _ _ => rfl) hzero hleft hreads hl,
    Number.apply_sub hreads.fits hl.fits, Int.zero_sub]
  rfl

theorem outcome_abs (speller : Text.Speller) (hl : l.ReadsAs m) (strict : Bool) :
    outcome ((FilterTable.builtin speller).apply strict "abs" l) w =
      (.ok (if fits m.natAbs then .int m.natAbs else .null), w) := by
  have hfilter : (FilterTable.builtin speller).apply strict "abs" l =
      liftExcept ((Filter.abs l).mapError Error.execution) := rfl
  rw [hfilter, outcome_lift, Filter.abs, hl.number]
  rfl

theorem fits_neg_iff (hm : fits m) : fits (-m) ↔ minInt64 < m := by
  rw [fits_iff, minInt64, maxInt64] at *
  omega

/-- Negation, absolute value and remainder agree with the other operators on integers. For every
integer but the least one `-x` is what `0 - x` is, and the absolute value of a negative integer is
that as well. Of the least integer both are absent, where `0 - x` is a float. The remainder is what
truncating division leaves, with the sign of the dividend and smaller than the divisor. -/
theorem unary_on_integers (speller : Text.Speller) {x y : Int}
    (hleft : outcome (left.eval s) w = (.ok (.int x), w₁))
    (hright : outcome (right.eval s) w₁ = (.ok (.int y), w₂)) (hx : fits x) (hy : fits y) :
    let negated := outcome ((Expr.neg left).eval s) w
    let difference := outcome ((Expr.binary .sub (.literal (.int 0)) left).eval s) w
    let absolute := outcome ((FilterTable.builtin speller).apply s.strict "abs" (.int x)) w₁
    let remainder := outcome ((Expr.binary .rem left right).eval s) w
    (minInt64 < x → negated = (.ok (.int (-x)), w₁) ∧ difference = negated) ∧
    (0 ≤ x → absolute = (.ok (.int x), w₁)) ∧
    (minInt64 < x → x < 0 → absolute = difference) ∧
    (x = minInt64 → negated = (.ok .null, w₁) ∧ absolute = (.ok .null, w₁) ∧
      difference = (.ok (.float 9223372036854775808), w₁)) ∧
    (y ≠ 0 → ¬(x = minInt64 ∧ y = -1) →
      remainder = (.ok (.int (x - y * x.tdiv y)), w₂) ∧
      (0 ≤ x → 0 ≤ x - y * x.tdiv y) ∧ (x ≤ 0 → x - y * x.tdiv y ≤ 0) ∧
      (x - y * x.tdiv y).natAbs < y.natAbs) := by
  intro negated difference absolute remainder
  have hl := Value.readsAs_int hx
  have hnegated : negated = _ := outcome_neg hleft hl
  have hdifference : difference = _ := outcome_difference hleft hl
  have habsolute : absolute = _ := outcome_abs speller hl s.strict
  refine ⟨?_, ?_, ?_, ?_, ?_⟩
  · intro hleast
    have hfits := (fits_neg_iff hx).mpr hleast
    rw [hdifference, hnegated, Value.exactOr, if_pos hfits, if_pos hfits]
    exact ⟨rfl, rfl⟩
  · intro hpos
    have hsame : (x.natAbs : Int) = x := Int.natAbs_of_nonneg hpos
    rw [habsolute, hsame, if_pos hx]
  · intro hleast hneg
    have hfits := (fits_neg_iff hx).mpr hleast
    have hopposite : (x.natAbs : Int) = -x := Int.ofNat_natAbs_of_nonpos (Int.le_of_lt hneg)
    rw [habsolute, hdifference, Value.exactOr, hopposite, if_pos hfits, if_pos hfits]
  · rintro rfl
    have hfloat : Float.ofInt 0 - Float.ofInt minInt64 = 9223372036854775808 := by decide +kernel
    rw [hnegated, habsolute, hdifference, hfloat]
    exact ⟨rfl, rfl, rfl⟩
  · intro hy0 hpair
    have hremainder : remainder = _ :=
      outcome_arithmetic rfl (fun _ _ => rfl) hleft hright hl (Value.readsAs_int hy)
    rw [Number.apply_rem hx hy hy0, if_neg hpair] at hremainder
    rw [← Int.tmod_def]
    exact ⟨hremainder, tmod_bounds x hy0⟩

/-- Next to the least integer, and modulo the least one. -/
theorem unary_on_integers_extreme :
    let s : Scope := ⟨[], none, .builtin Text.WordCase.speller, false⟩
    let left := Expr.literal (.int (-9223372036854775807))
    let right := Expr.literal (.int minInt64)
    (outcome (left.eval s) [] = (.ok (.int (-9223372036854775807)), []) ∧
      outcome (right.eval s) [] = (.ok (.int minInt64), []) ∧
      fits (-9223372036854775807) ∧ fits minInt64) ∧
    outcome ((Expr.neg left).eval s) [] = (.ok (.int 9223372036854775807), []) ∧
    outcome (s.filters.apply false "abs" (.int (-9223372036854775807))) [] =
      (.ok (.int 9223372036854775807), []) ∧
    outcome ((Expr.binary .rem left right).eval s) [] =
      (.ok (.int (-9223372036854775807)), []) := by
  intro s left right
  have hleft := outcome_literal s (.int (-9223372036854775807)) []
  have hright := outcome_literal s (.int minInt64) []
  obtain ⟨hneg, -, habs, -, hrem⟩ :=
    unary_on_integers Text.WordCase.speller hleft hright (by decide) (by decide)
  have hless : minInt64 < -9223372036854775807 := by decide
  refine ⟨⟨hleft, hright, by decide, by decide⟩, (hneg hless).1, ?_, ?_⟩
  · exact (habs hless (by decide)).trans ((hneg hless).2.trans (hneg hless).1)
  · exact (hrem (by decide) (by decide)).1

/-- The least integer has neither a negation nor an absolute value, and is not zero but a float
modulo -1. -/
theorem least_integer_absent :
    let s : Scope := ⟨[], none, .builtin Text.WordCase.speller, false⟩
    let least := Expr.literal (.int minInt64)
    outcome ((Expr.neg least).eval s) [] = (.ok .null, []) ∧
    outcome (s.filters.apply false "abs" (.int minInt64)) [] = (.ok .null, []) ∧
    outcome ((Expr.binary .sub (.literal (.int 0)) least).eval s) [] =
      (.ok (.float 9223372036854775808), []) ∧
    outcome ((Expr.neg least).eval s) [] ≠
      outcome ((Expr.binary .sub (.literal (.int 0)) least).eval s) [] ∧
    outcome ((Expr.binary .rem least (.literal (.int (-1)))).eval s) [] =
      (.ok (.float (-0.0)), []) := by
  intro s least
  have hliteral (v : Value) := outcome_literal s v []
  have hreads : (Value.int minInt64).ReadsAs minInt64 := Value.readsAs_int (by decide)
  have hone : (Value.int (-1)).ReadsAs (-1) := Value.readsAs_int (by decide)
  have hneg : outcome ((Expr.neg least).eval s) [] = (.ok .null, []) :=
    outcome_neg (hliteral _) hreads
  have hfloat : Float.ofInt 0 - Float.ofInt minInt64 = 9223372036854775808 := by decide +kernel
  have hdifference := outcome_difference (hliteral (.int minInt64)) hreads
  rw [hfloat] at hdifference
  have hremainder : outcome ((Expr.binary .rem least (.literal (.int (-1)))).eval s) [] = _ :=
    outcome_arithmetic rfl (fun _ _ => rfl) (hliteral _) (hliteral _) hreads hone
  rw [Number.apply_rem hreads.fits hone.fits (by decide)] at hremainder
  refine ⟨hneg, outcome_abs Text.WordCase.speller hreads false, hdifference, ?_, hremainder⟩
  rw [hneg, hdifference]
  intro hsame
  cases hsame

end Evaluation

end BraceTemplate
