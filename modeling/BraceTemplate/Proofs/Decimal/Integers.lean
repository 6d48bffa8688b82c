import BraceTemplate.Proofs.Decimal.Rounding

/-!
The floats made of the integers that values hold. Such a float is the integer rounded to 53 binary
digits, so that no integer up to `2 ^ 53` changes, a signed 64-bit one moves by 512 at most, and
rounding keeps the order of two integers or makes them equal.
-/
namespace BraceTemplate.Decimal

open Float.Model Float.Model.UnpackedFloat

/-- The binary digits of a number beyond the 53 in front. -/
def surplus (n : Nat) : Nat := n.log2 - 52

def roundedNat (n : Nat) : Nat := halfEven n (surplus n) * 2 ^ surplus n

theorem surplus_le {n k : Nat} (h : n < 2 ^ (53 + k)) : surplus n ≤ k := by
  unfold surplus
  by_cases hn : n = 0
  · rw [hn, Nat.log2_zero]
    exact Nat.zero_le k
  · have := (Nat.log2_lt hn).mpr h
    omega

/-- An integer rounded to 53 binary digits. -/
def rounded (n : Int) : Int := n.sign * roundedNat n.natAbs

/-- An integer that a value holds: a signed or an unsigned 64-bit one. -/
def InRange (n : Int) : Prop := minInt64 ≤ n ∧ n ≤ maxNat64

theorem inRange_of_fits {n : Int} (h : fits n) : InRange n := by
  obtain ⟨hlo, hhi⟩ := fits_iff.mp h
  refine ⟨hlo, Int.le_trans hhi ?_⟩
  decide

/-- What a float counts for in units of `2 ^ -52`, down to which the floats made of integers reach. -/
def units : UnpackedFloat → Int
  | .finite s m e _ => s.apply (m * 2 ^ (e + 52).toNat : Nat)
  | _ => 0

theorem rounded_neg (n : Int) : rounded (-n) = -rounded n := by
  rw [rounded, rounded, Int.sign_neg, Int.natAbs_neg, Int.neg_mul]

theorem rounded_natCast (n : Nat) : rounded n = roundedNat n := by
  rcases Nat.eq_zero_or_pos n with rfl | hn
  · rfl
  · rw [rounded, Int.sign_natCast_of_ne_zero (Nat.ne_of_gt hn), Int.one_mul, Int.natAbs_natCast]

section Conversion

variable {lo hi n : Int} {x : UnpackedFloat}

/-- The float one. -/
theorem mul_one (hx : Sized lo hi x) (hlo : -1074 ≤ lo) :
    UnpackedFloat.mul Format.binary64 x (Float.ofBits 0x3FF0000000000000).toModel.unpack = x := by
  obtain ⟨s, m, e, hm, rfl, hlog, hle, hge⟩ := hx.exists_finite
  have hsign : s * Sign.positive = s := by cases s <;> rfl
  have hkept := roundWithAccuracy_kept (d := 52) (e := e + -52) hm hlog (by omega) (s * .positive)
  have hexponent : e + -52 + (52 : Nat) = e := by omega
  have hone : (Float.ofBits 0x3FF0000000000000).toModel.unpack =
      .finite .positive (2 ^ 52) (-52) (Nat.two_pow_pos 52) := rfl
  rw [hone, UnpackedFloat.mul, hkept]
  simp only [hsign, hexponent]

/-- An integer with 53 digits at most is converted as it is. -/
theorem ofNat_of_lt {n : Nat} (hn : 0 < n) (hsmall : n < 2 ^ 53) : ∃ hpos,
    (Float.ofNat n).toModel.unpack =
      .finite .positive (n * 2 ^ (52 - n.log2)) (n.log2 - 52 : Int) hpos := by
  have hlog := (Nat.log2_lt (Nat.ne_of_gt hn)).mpr hsmall
  have hpos : 0 < n * 2 ^ (52 - n.log2) := Nat.mul_pos hn (Nat.two_pow_pos _)
  have hfloat : Float.ofNat n = n.toUInt64.toFloat * Float.ofBits 0x3FF0000000000000 := by
    show Float.ofScientific n false 0 = _
    rw [Float.ofScientific, dif_pos ⟨hsmall, by omega⟩]
    rfl
  have hword : n.toUInt64.toNat = n := Nat.mod_eq_of_lt (by omega)
  have hconvert : n.toUInt64.toFloat.toModel =
      Float.Model.pack (UnpackedFloat.round Format.binary64 .positive n 0) := by
    show Float.Model.pack
      (UnpackedFloat.normalize Format.binary64 (n.toUInt64.toNat : Int) 0 .positive) = _
    have hcompare : compare (n : Int) 0 = .gt := Int.compare_eq_gt.mpr (by omega)
    rw [hword, UnpackedFloat.normalize, hcompare]
    rfl
  have hdigits : (n * 2 ^ (52 - n.log2)).log2 = 52 := by
    rw [← Nat.shiftLeft_eq, log2_shiftLeft (Nat.ne_of_gt hn)]
    omega
  have hround : UnpackedFloat.round Format.binary64 .positive n 0 =
      .finite .positive (n * 2 ^ (52 - n.log2)) (n.log2 - 52 : Int) hpos := by
    have htarget : Format.binary64.targetExponent (totalExponent n 0) = n.log2 - 52 := by
      simp only [Format.targetExponent, totalExponent, Format.mantissaBits, Format.minExponent]
      omega
    have hshift : (0 - (n.log2 - 52 : Int)).toNat = 52 - n.log2 := by omega
    have hkept := roundWithAccuracy_kept (d := 0) (e := 0 - (52 - n.log2 : Nat)) hpos hdigits
      (by omega) .positive
    have hexponent : 0 - ((52 - n.log2 : Nat) : Int) + (0 : Nat) = n.log2 - 52 := by omega
    rw [Nat.pow_zero, Nat.mul_one] at hkept
    simp only [UnpackedFloat.round, decreaseExponent, htarget, hshift, Nat.shiftLeft_eq, hkept,
      hexponent]
  have hsized : Sized (-52) 0 (UnpackedFloat.round Format.binary64 .positive n 0) := by
    rw [hround]
    exact ⟨hdigits, by omega, by omega⟩
  refine ⟨hpos, ?_⟩
  rw [hfloat]
  show (Float.Model.pack (UnpackedFloat.mul Format.binary64 n.toUInt64.toFloat.toModel.unpack
    (Float.ofBits 0x3FF0000000000000).toModel.unpack)).unpack = _
  rw [hconvert, hsized.unpack_pack_eq (by omega) (by omega), mul_one hsized (by omega),
    hsized.unpack_pack_eq (by omega) (by omega), hround]

/-- An integer with more than 53 digits is rounded once. -/
theorem ofNat_of_ge {n : Nat} (hlarge : 2 ^ 53 ≤ n) (hfits : n < 2 ^ 64) : ∃ m k hpos,
    (Float.ofNat n).toModel.unpack = .finite .positive m (surplus n + (k : Nat) : Int) hpos ∧
      m.log2 = 52 ∧ k ≤ 1 ∧ m * 2 ^ k = halfEven n (surplus n) := by
  have hn : n ≠ 0 := by omega
  have hlog : 53 ≤ n.log2 := (Nat.le_log2 hn).mpr hlarge
  have hupper := (Nat.log2_lt hn).mpr hfits
  have hsurplus : surplus n + 53 = n.log2 + 1 := by
    unfold surplus
    omega
  have hdigits : (n * 2 ^ 53).log2 = 52 + (surplus n + 53) := by
    rw [← Nat.shiftLeft_eq, log2_shiftLeft hn]
    omega
  have hfloat : (Float.ofNat n).toModel = Float.Model.pack
      (roundWithAccuracy Format.binary64 .positive (n * 2 ^ 53) (-53) .exact) := by
    show (Float.ofScientific n false 0).toModel = _
    have hmodel : UnpackedFloat.ofScientific Format.binary64 n (Int.ofNat 0) =
        roundWithAccuracy Format.binary64 .positive (n <<< 53 * 10 ^ 0) (-53 + 0) .exact := by
      rw [UnpackedFloat.ofScientific, dif_neg hn, if_neg (by decide), if_neg, if_pos (by decide)]
      · rfl
      · simp only [Int.ofNat_eq_natCast]
        omega
    rw [Float.ofScientific, dif_neg (by omega)]
    simp only [Bool.false_eq_true, if_false, Float.Model.ofScientific, hmodel, Nat.pow_zero,
      Nat.mul_one, Nat.shiftLeft_eq, Int.add_zero]
  obtain ⟨m, k, hpos, hround, hm, hk, hvalue⟩ :=
    roundWithAccuracy_eq hdigits (e := -53) (by omega) .positive .exact
  rw [roundedMantissa_shiftRight, halfEven_mul_pow] at hvalue
  have hexponent : (-53 + (surplus n + 53 : Nat) + (k : Nat) : Int) = surplus n + (k : Nat) := by
    omega
  simp only [hexponent] at hround
  have hsized : Sized (-52) 12 (roundWithAccuracy Format.binary64 .positive (n * 2 ^ 53) (-53)
      .exact) := by
    rw [hround]
    exact ⟨hm, by omega, by omega⟩
  refine ⟨m, k, hpos, ?_, hm, hk, hvalue⟩
  rw [hfloat, hsized.unpack_pack_eq (by omega) (by omega), hround]

/-- The float made of a positive integer has 53 digits, and counts for the rounded integer. -/
theorem ofNat_rounded {n : Nat} (hn : 0 < n) (hfits : n < 2 ^ 64) :
    Sized (-52) 12 (Float.ofNat n).toModel.unpack ∧
      units (Float.ofNat n).toModel.unpack = rounded n * 2 ^ 52 := by
  rw [rounded_natCast, roundedNat]
  by_cases hsmall : n < 2 ^ 53
  · obtain ⟨hpos, hfloat⟩ := ofNat_of_lt hn hsmall
    have hlog := (Nat.log2_lt (Nat.ne_of_gt hn)).mpr hsmall
    have hnone : surplus n = 0 := Nat.le_zero.mp (surplus_le hsmall)
    have hexponent : ((n.log2 : Int) - 52 + 52).toNat = n.log2 := by omega
    have hpow : 52 - n.log2 + n.log2 = 52 := by omega
    rw [hfloat, hnone, halfEven_zero]
    refine ⟨⟨?_, by omega, by omega⟩, ?_⟩
    · rw [← Nat.shiftLeft_eq, log2_shiftLeft (Nat.ne_of_gt hn)]
      omega
    · rw [units, Sign.apply, hexponent, Nat.mul_assoc, ← Nat.pow_add, hpow]
      omega
  · obtain ⟨m, k, hpos, hfloat, hm, hk, hvalue⟩ := ofNat_of_ge (by omega) hfits
    have hsurplus : surplus n ≤ 11 := surplus_le hfits
    have hexponent : ((surplus n + (k : Nat) : Int) + 52).toNat = k + (surplus n + 52) := by omega
    rw [hfloat]
    refine ⟨⟨hm, by omega, by omega⟩, ?_⟩
    rw [units, Sign.apply, hexponent, Nat.pow_add, ← Nat.mul_assoc, hvalue, Nat.pow_add,
      ← Nat.mul_assoc, Int.natCast_mul]
    rfl

theorem units_neg (x : UnpackedFloat) : units x.neg = -units x := by
  cases x with
  | finite s m e hm =>
    cases s with
    | negative => exact (Int.neg_neg _).symm
    | positive => rfl
  | _ => rfl

/-- The float made of an integer in range counts for the rounded integer. -/
theorem ofInt_rounded (h : InRange n) : Moderate (-52) 12 (Float.ofInt n).toModel.unpack ∧
    (n ≠ 0 → Sized (-52) 12 (Float.ofInt n).toModel.unpack) ∧
    units (Float.ofInt n).toModel.unpack = rounded n * 2 ^ 52 := by
  obtain ⟨hlo, hhi⟩ := h
  rw [minInt64] at hlo
  rw [maxNat64] at hhi
  cases n with
  | ofNat n =>
    have hupper : (n : Int) ≤ 18446744073709551615 := hhi
    rcases Nat.eq_zero_or_pos n with rfl | hn
    · exact ⟨.inl ⟨.positive, rfl⟩, fun h => absurd rfl h, rfl⟩
    · obtain ⟨hsized, hunits⟩ := ofNat_rounded hn (by omega)
      exact ⟨.inr hsized, fun _ => hsized, hunits⟩
  | negSucc n =>
    obtain ⟨hsized, hunits⟩ := ofNat_rounded n.succ_pos (by omega)
    have hneg : (Float.ofInt (Int.negSucc n)).toModel.unpack =
        (Float.ofNat n.succ).toModel.unpack.neg := hsized.neg.unpack_pack_eq (by omega) (by omega)
    rw [hneg, units_neg, hunits, ← Int.neg_mul, ← rounded_neg]
    exact ⟨.inr hsized.neg, fun _ => hsized.neg, rfl⟩

theorem ofInt_moderate (h : InRange n) : Moderate (-52) 12 (Float.ofInt n).toModel.unpack :=
  (ofInt_rounded h).1

theorem ofInt_sized (hn : n ≠ 0) (h : InRange n) :
    Sized (-52) 12 (Float.ofInt n).toModel.unpack :=
  (ofInt_rounded h).2.1 hn

theorem isFinite_ofInt (h : InRange n) : (Float.ofInt n).isFinite = true :=
  (ofInt_moderate h).isFinite

end Conversion

section Order

variable {m n : Int}

/-- Rounding does not pass a power of two. -/
theorem roundedNat_bounds {n : Nat} (hn : n ≠ 0) :
    2 ^ n.log2 ≤ roundedNat n ∧ roundedNat n ≤ 2 ^ (n.log2 + 1) := by
  have hlog := log2_bounds hn
  have hhalf := halfEven_bounds n (surplus n)
  have hscale {k : Nat} (hk : surplus n ≤ k) : 2 ^ (k - surplus n) * 2 ^ surplus n = 2 ^ k := by
    rw [← Nat.pow_add, Nat.sub_add_cancel hk]
  have hsurplus : surplus n ≤ n.log2 := Nat.sub_le _ _
  have hlower : 2 ^ (n.log2 - surplus n) ≤ n / 2 ^ surplus n := by
    rw [Nat.le_div_iff_mul_le (Nat.two_pow_pos _), hscale hsurplus]
    exact hlog.1
  have hupper : n / 2 ^ surplus n < 2 ^ (n.log2 + 1 - surplus n) := by
    rw [Nat.div_lt_iff_lt_mul (Nat.two_pow_pos _), hscale (by omega)]
    exact hlog.2
  rw [← hscale hsurplus, ← hscale (Nat.le_succ_of_le hsurplus)]
  exact ⟨Nat.mul_le_mul_right _ (Nat.le_trans hlower hhalf.1),
    Nat.mul_le_mul_right _ (Nat.le_trans hhalf.2 hupper)⟩

/-- Numbers of as many digits are rounded at one place, and between others lies a power of two. -/
theorem roundedNat_mono {m n : Nat} (h : m ≤ n) : roundedNat m ≤ roundedNat n := by
  rcases Nat.eq_zero_or_pos m with rfl | hm
  · exact Nat.zero_le _
  · have hm : m ≠ 0 := Nat.ne_of_gt hm
    have hn : n ≠ 0 := by omega
    have hdigits : m.log2 ≤ n.log2 := (Nat.le_log2 hn).mpr (Nat.le_trans (log2_bounds hm).1 h)
    rcases Nat.eq_or_lt_of_le hdigits with hsame | hfewer
    · have hplaces : surplus m = surplus n := by rw [surplus, surplus, hsame]
      rw [roundedNat, roundedNat, hplaces]
      exact Nat.mul_le_mul_right _ (halfEven_mono h _)
    · calc roundedNat m ≤ 2 ^ (m.log2 + 1) := (roundedNat_bounds hm).2
        _ ≤ 2 ^ n.log2 := Nat.pow_le_pow_right Nat.two_pos hfewer
        _ ≤ roundedNat n := (roundedNat_bounds hn).1

/-- Rounding keeps the order of two integers or makes them equal. -/
theorem rounded_mono (h : m ≤ n) : rounded m ≤ rounded n := by
  rcases Int.eq_nat_or_neg m with ⟨a, rfl | rfl⟩ <;>
    rcases Int.eq_nat_or_neg n with ⟨b, rfl | rfl⟩ <;>
    simp only [rounded_neg, rounded_natCast]
  · have := roundedNat_mono (m := a) (n := b) (by omega)
    omega
  · obtain ⟨rfl, rfl⟩ : a = 0 ∧ b = 0 := by omega
    exact Int.le_refl 0
  · omega
  · have := roundedNat_mono (m := b) (n := a) (by omega)
    omega

theorem roundedNat_of_le {n : Nat} (h : n ≤ 2 ^ 53) : roundedNat n = n := by
  by_cases hlast : n = 2 ^ 53
  · rw [hlast]
    decide +kernel
  · have hnone : surplus n = 0 := Nat.le_zero.mp (surplus_le (by omega))
    rw [roundedNat, hnone, halfEven_zero, Nat.pow_zero, Nat.mul_one]

/-- Up to `2 ^ 53` nothing is rounded. -/
theorem rounded_of_le (h : n.natAbs ≤ 2 ^ 53) : rounded n = n := by
  rcases Int.eq_nat_or_neg n with ⟨a, rfl | rfl⟩
  · rw [rounded_natCast, roundedNat_of_le (by omega)]
  · rw [rounded_neg, rounded_natCast, roundedNat_of_le (by omega)]

/-- Up to `2 ^ 63` a number has at most ten digits too many, but for the last one, which is a power
of two. -/
theorem roundedNat_near {n : Nat} (h : n ≤ 2 ^ 63) :
    roundedNat n ≤ n + 512 ∧ n ≤ roundedNat n + 512 := by
  by_cases hlast : n = 2 ^ 63
  · have hkept : roundedNat (2 ^ 63) = 2 ^ 63 := by decide +kernel
    rw [hlast, hkept]
    omega
  · have hplaces : surplus n ≤ 10 := surplus_le (by omega)
    have hunit : 2 ^ surplus n ≤ 2 ^ 10 := Nat.pow_le_pow_right Nat.two_pos hplaces
    have hmoved := halfEven_near n (surplus n)
    unfold roundedNat
    omega

/-- A signed 64-bit integer moves by 512 at most. -/
theorem rounded_near (h : fits n) : (rounded n - n).natAbs ≤ 512 := by
  obtain ⟨hlo, hhi⟩ := fits_iff.mp h
  rw [minInt64] at hlo
  rw [maxInt64] at hhi
  rcases Int.eq_nat_or_neg n with ⟨a, rfl | rfl⟩
  · have := roundedNat_near (n := a) (by omega)
    rw [rounded_natCast]
    omega
  · have := roundedNat_near (n := a) (by omega)
    rw [rounded_neg, rounded_natCast]
    omega

end Order

end BraceTemplate.Decimal
