import BraceTemplate.Proofs.Decimal.Integers

/-!
Floats of moderate size. Rounding keeps 53 binary digits of a number and moves its last digit by one
place at most, so arithmetic on floats made of signed 64-bit integers comes nowhere near the end of
the range of exponents.
-/
namespace BraceTemplate.Decimal

open Float.Model Float.Model.UnpackedFloat

section Operations

variable {lo hi lo' hi' : Int} {x y : UnpackedFloat}

theorem normalize_moderate {mantissa e : Int} {k : Nat} (hk : mantissa.natAbs < 2 ^ k)
    (he : -1022 ≤ e) (sign : Sign) :
    Moderate (e - 52) (k + e - 51) (UnpackedFloat.normalize Format.binary64 mantissa e sign) := by
  have hround {m : Nat} (hm : m ≠ 0) (hmk : m < 2 ^ k) (s : Sign) :
      Moderate (e - 52) (k + e - 51) (UnpackedFloat.round Format.binary64 s m e) := by
    have hlog := (Nat.log2_lt hm).mpr hmk
    exact .inr ((round_sized hm (by omega) s).mono (by omega) (by omega))
  unfold UnpackedFloat.normalize
  cases hsign : compare mantissa 0 with
  | lt =>
    have hneg := Int.compare_eq_lt.mp hsign
    exact hround (by omega) (by omega) .negative
  | eq => exact .inl ⟨sign, rfl⟩
  | gt =>
    have hpos := Int.compare_eq_gt.mp hsign
    exact hround (by omega) (by omega) .positive

theorem natAbs_apply (s : Sign) (n : Nat) : (s.apply n).natAbs = n := by
  cases s with
  | negative => rw [Sign.apply, Int.natAbs_neg, Int.natAbs_natCast]
  | positive => rw [Sign.apply, Int.natAbs_natCast]

/-- A sum has one digit more than the larger operand at most, once both count in the same units. -/
theorem add_sized (hx : Sized lo hi x) (hy : Sized lo hi y) (hlo : -1022 ≤ lo) :
    Moderate (lo - 52) (2 * hi - lo + 3) (UnpackedFloat.add Format.binary64 x y) := by
  obtain ⟨s, m, e, hm, rfl, hx⟩ := hx.exists_finite
  obtain ⟨s', m', e', hm', rfl, hy⟩ := hy.exists_finite
  have hscaled {m : Nat} {e₀ : Int} (hm : 0 < m) (hlog : m.log2 = 52) (he₀ : e₀ ≤ hi) :
      m <<< (e₀ - min e e').toNat < 2 ^ (53 + (hi - lo).toNat) := by
    have hshifted := log2_shiftLeft (Nat.ne_of_gt hm) (e₀ - min e e').toNat
    have hne : m <<< (e₀ - min e e').toNat ≠ 0 := by
      rw [Nat.shiftLeft_eq]
      exact Nat.mul_ne_zero (Nat.ne_of_gt hm) (Nat.ne_of_gt (Nat.two_pow_pos _))
    exact (Nat.log2_lt hne).mp (by omega)
  have hfirst := hscaled hm hx.1 hx.2.2
  have hsecond := hscaled hm' hy.1 hy.2.2
  have hsum : (s.apply (m <<< (e - min e e').toNat : Nat) +
      s'.apply (m' <<< (e' - min e e').toNat : Nat)).natAbs < 2 ^ (54 + (hi - lo).toNat) := by
    have hdouble : 2 ^ (54 + (hi - lo).toNat) = 2 * 2 ^ (53 + (hi - lo).toNat) := by
      rw [← Nat.pow_succ']
      congr 1
      omega
    have hle := Int.natAbs_add_le (s.apply (m <<< (e - min e e').toNat : Nat))
      (s'.apply (m' <<< (e' - min e e').toNat : Nat))
    rw [natAbs_apply, natAbs_apply] at hle
    omega
  exact (normalize_moderate hsum (by omega) .positive).mono (by omega) (by omega)

theorem mul_sized (hx : Sized lo hi x) (hy : Sized lo' hi' y) (hlo : -1074 ≤ lo + lo' + 52) :
    Sized (lo + lo' + 52) (hi + hi' + 54) (UnpackedFloat.mul Format.binary64 x y) := by
  obtain ⟨s, m, e, hm, rfl, hx⟩ := hx.exists_finite
  obtain ⟨s', m', e', hm', rfl, hy⟩ := hy.exists_finite
  have hfront := log2_bounds (Nat.ne_of_gt hm)
  have hfront' := log2_bounds (Nat.ne_of_gt hm')
  rw [hx.1] at hfront
  rw [hy.1] at hfront'
  have hproduct : (m * m').log2 = 52 + 52 ∨ (m * m').log2 = 52 + 53 := by
    have hle : 2 ^ 52 * 2 ^ 52 ≤ m * m' := Nat.mul_le_mul hfront.1 hfront'.1
    have hlt : m * m' < 2 ^ 53 * 2 ^ 53 := Nat.mul_lt_mul'' hfront.2 hfront'.2
    rw [← Nat.pow_add] at hle hlt
    have hne : m * m' ≠ 0 := by omega
    have := (Nat.le_log2 hne).mpr hle
    have := (Nat.log2_lt hne).mpr hlt
    omega
  rcases hproduct with hproduct | hproduct
  · exact (roundWithAccuracy_sized hproduct (by omega) (s * s') .exact).mono (by omega) (by omega)
  · exact (roundWithAccuracy_sized hproduct (by omega) (s * s') .exact).mono (by omega) (by omega)

/-- The dividend is scaled by `2 ^ 53` before it is divided. -/
theorem divCore_eq {m m' : Nat} {e e' : Int} (hm : m.log2 = 52) (hm' : m'.log2 = 52)
    (he : -1021 ≤ e - e') : divCore Format.binary64 m e m' e' =
      (m * 2 ^ 53 / m', e - e' - 53, accuracyOfFraction (m * 2 ^ 53 % m') m') := by
  have htarget : min (e - e') (Format.binary64.targetExponent
      (totalExponent m e - totalExponent m' e')) = e - e' - 53 := by
    simp only [Format.targetExponent, totalExponent, Format.mantissaBits, Format.minExponent, hm,
      hm']
    omega
  have hshift : (e - e' - (e - e' - 53)).toNat = 53 := by omega
  simp only [divCore, htarget, hshift, Nat.shiftLeft_eq]

theorem div_sized (hx : Sized lo hi x) (hy : Sized lo' hi' y) (hlo : -1000 ≤ lo - hi') :
    Sized (lo - hi' - 53) (hi - lo' - 50) (UnpackedFloat.div Format.binary64 x y) := by
  obtain ⟨s, m, e, hm, rfl, hx⟩ := hx.exists_finite
  obtain ⟨s', m', e', hm', rfl, hy⟩ := hy.exists_finite
  have hfront := log2_bounds (Nat.ne_of_gt hm)
  have hfront' := log2_bounds (Nat.ne_of_gt hm')
  rw [hx.1] at hfront
  rw [hy.1] at hfront'
  have hquotient : ∃ d, (m * 2 ^ 53 / m').log2 = 52 + d ∧ d ≤ 1 := by
    have hle : 2 ^ 52 ≤ m * 2 ^ 53 / m' := by
      rw [Nat.le_div_iff_mul_le hm']
      omega
    have hlt : m * 2 ^ 53 / m' < 2 ^ 54 := by
      rw [Nat.div_lt_iff_lt_mul hm']
      omega
    have hne : m * 2 ^ 53 / m' ≠ 0 := by omega
    have := (Nat.le_log2 hne).mpr hle
    have := (Nat.log2_lt hne).mpr hlt
    exact ⟨(m * 2 ^ 53 / m').log2 - 52, by omega, by omega⟩
  obtain ⟨d, hlog, hd⟩ := hquotient
  have hround := roundWithAccuracy_sized hlog (e := e - e' - 53) (by omega) (s / s')
    (accuracyOfFraction (m * 2 ^ 53 % m') m')
  have hdiv : UnpackedFloat.div Format.binary64 (.finite s m e hm) (.finite s' m' e' hm') =
      roundWithAccuracy Format.binary64 (s / s') (divCore Format.binary64 m e m' e').1
        (divCore Format.binary64 m e m' e').2.1 (divCore Format.binary64 m e m' e').2.2 := rfl
  rw [hdiv, divCore_eq hx.1 hy.1 (by omega)]
  exact hround.mono (by omega) (by omega)

end Operations

section Zeros

variable {lo hi lo' hi' : Int} {x y : UnpackedFloat}

theorem add_moderate (hx : Moderate lo hi x) (hy : Moderate lo hi y) (hlo : -1022 ≤ lo) :
    Moderate (lo - 52) (2 * hi - lo + 3) (UnpackedFloat.add Format.binary64 x y) := by
  have hone {z : UnpackedFloat} (hz : Sized lo hi z) : Moderate (lo - 52) (2 * hi - lo + 3) z := by
    obtain ⟨s, m, e, hm, rfl, h⟩ := hz.exists_finite
    exact .inr ⟨h.1, by omega, by omega⟩
  rcases hx with ⟨s, rfl⟩ | hx
  · rcases hy with ⟨s', rfl⟩ | hy
    · cases s <;> cases s' <;> exact .inl ⟨_, rfl⟩
    · obtain ⟨s', m', e', hm', rfl, h⟩ := hy.exists_finite
      exact hone hy
  · rcases hy with ⟨s', rfl⟩ | hy
    · obtain ⟨s, m, e, hm, rfl, h⟩ := hx.exists_finite
      exact hone hx
    · exact add_sized hx hy hlo

theorem sub_eq_add_neg (hx : Moderate lo hi x) (hy : Moderate lo hi y) :
    UnpackedFloat.sub Format.binary64 x y = UnpackedFloat.add Format.binary64 x y.neg := by
  have happly (s : Sign) (n : Int) : (-s).apply n = -s.apply n := by
    cases s with
    | negative => exact (Int.neg_neg n).symm
    | positive => rfl
  rcases hx with ⟨s, rfl⟩ | hx
  · rcases hy with ⟨s', rfl⟩ | hy
    · rfl
    · obtain ⟨s', m', e', hm', rfl, h⟩ := hy.exists_finite
      rfl
  · obtain ⟨s, m, e, hm, rfl, h⟩ := hx.exists_finite
    rcases hy with ⟨s', rfl⟩ | hy
    · rfl
    · obtain ⟨s', m', e', hm', rfl, h'⟩ := hy.exists_finite
      simp only [UnpackedFloat.sub, UnpackedFloat.add, UnpackedFloat.neg, happly,
        Int.sub_eq_add_neg]

theorem Moderate.neg (h : Moderate lo hi x) : Moderate lo hi x.neg := by
  rcases h with ⟨s, rfl⟩ | h
  · exact .inl ⟨-s, rfl⟩
  · exact .inr h.neg

theorem mul_moderate (hx : Moderate lo hi x) (hy : Moderate lo' hi' y)
    (hlo : -1074 ≤ lo + lo' + 52) :
    Moderate (lo + lo' + 52) (hi + hi' + 54) (UnpackedFloat.mul Format.binary64 x y) := by
  rcases hx with ⟨s, rfl⟩ | hx
  · rcases hy with ⟨s', rfl⟩ | hy
    · exact .inl ⟨s * s', rfl⟩
    · obtain ⟨s', m', e', hm', rfl, h⟩ := hy.exists_finite
      exact .inl ⟨s * s', rfl⟩
  · rcases hy with ⟨s', rfl⟩ | hy
    · obtain ⟨s, m, e, hm, rfl, h⟩ := hx.exists_finite
      exact .inl ⟨s * s', rfl⟩
    · exact .inr (mul_sized hx hy hlo)

/-- Only the dividend may be zero. -/
theorem div_moderate (hx : Moderate lo hi x) (hy : Sized lo' hi' y) (hlo : -1000 ≤ lo - hi') :
    Moderate (lo - hi' - 53) (hi - lo' - 50) (UnpackedFloat.div Format.binary64 x y) := by
  rcases hx with ⟨s, rfl⟩ | hx
  · obtain ⟨s', m', e', hm', rfl, h⟩ := hy.exists_finite
    exact .inl ⟨s / s', rfl⟩
  · exact .inr (div_sized hx hy hlo)

end Zeros

section Integers

variable {n l r : Int}

theorem moderate_of_fits (h : fits n) : Moderate (-52) 12 (Float.ofInt n).toModel.unpack :=
  ofInt_moderate (inRange_of_fits h)

theorem isFinite_add (hl : fits l) (hr : fits r) :
    (Float.ofInt l + Float.ofInt r).isFinite = true :=
  ((add_moderate (moderate_of_fits hl) (moderate_of_fits hr) (by omega)).unpack_pack (by omega)
    (by omega)).isFinite

theorem isFinite_sub (hl : fits l) (hr : fits r) :
    (Float.ofInt l - Float.ofInt r).isFinite = true := by
  have hsub := sub_eq_add_neg (moderate_of_fits hl) (moderate_of_fits hr)
  have hsize := add_moderate (moderate_of_fits hl) (moderate_of_fits hr).neg (by omega)
  rw [← hsub] at hsize
  exact (hsize.unpack_pack (by omega) (by omega)).isFinite

theorem isFinite_mul (hl : fits l) (hr : fits r) :
    (Float.ofInt l * Float.ofInt r).isFinite = true :=
  ((mul_moderate (moderate_of_fits hl) (moderate_of_fits hr) (by omega)).unpack_pack (by omega)
    (by omega)).isFinite

theorem isFinite_div (hl : fits l) (hr : fits r) (hne : r ≠ 0) :
    (Float.ofInt l / Float.ofInt r).isFinite = true :=
  ((div_moderate (moderate_of_fits hl) (ofInt_sized hne (inRange_of_fits hr))
    (by omega)).unpack_pack (by omega) (by omega)).isFinite

theorem ofInt_beq_zero (hfits : fits n) (hn : n ≠ 0) : (Float.ofInt n == 0.0) = false := by
  obtain ⟨s, m, e, hm, hunpack, -⟩ := (ofInt_sized hn (inRange_of_fits hfits)).exists_finite
  have hzero : (0.0 : Float).toModel.unpack = .zero .positive := rfl
  show UnpackedFloat.beq (Float.ofInt n).toModel.unpack (0.0 : Float).toModel.unpack = false
  rw [hunpack, hzero]
  cases s <;> rfl

end Integers

end BraceTemplate.Decimal
