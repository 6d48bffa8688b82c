import Mathlib
import BraceTemplate.Value.Arithmetic

/-!
Rounding to 53 binary digits. The digits in front are kept and rounded by what stands behind them, to
the nearest number and from halfway to the even one; a number that has no more digits is kept as it
is, and one in the range of exponents is unpacked as it was packed.
-/
namespace BraceTemplate.Decimal

open Float.Model Float.Model.UnpackedFloat

/-- A number with 53 binary digits, the last of which counts for `2 ^ lo` at least and for `2 ^ hi`
at most. -/
def Sized (lo hi : Int) : UnpackedFloat → Prop
  | .finite _ mantissa exponent _ => mantissa.log2 = 52 ∧ lo ≤ exponent ∧ exponent ≤ hi
  | _ => False

/-- Zero or a number with 53 binary digits. -/
def Moderate (lo hi : Int) (x : UnpackedFloat) : Prop := (∃ s, x = .zero s) ∨ Sized lo hi x

section Sizes

variable {lo hi lo' hi' : Int} {x y : UnpackedFloat}

theorem Sized.mono (h : Sized lo hi x) (hlo : lo' ≤ lo) (hhi : hi ≤ hi') : Sized lo' hi' x := by
  cases x with
  | finite s m e hm => exact ⟨h.1, Int.le_trans hlo h.2.1, Int.le_trans h.2.2 hhi⟩
  | _ => exact h

theorem Sized.exists_finite (h : Sized lo hi x) :
    ∃ s m e hm, x = .finite s m e hm ∧ m.log2 = 52 ∧ lo ≤ e ∧ e ≤ hi := by
  cases x with
  | finite s m e hm => exact ⟨s, m, e, hm, rfl, h⟩
  | _ => exact h.elim

theorem Sized.neg (h : Sized lo hi x) : Sized lo hi x.neg := by
  obtain ⟨s, m, e, hm, rfl, h⟩ := h.exists_finite
  exact h

theorem Moderate.mono (h : Moderate lo hi x) (hlo : lo' ≤ lo) (hhi : hi ≤ hi') :
    Moderate lo' hi' x :=
  h.imp id fun h => h.mono hlo hhi

end Sizes

/-- The quotient by `2 ^ d` rounded to the nearest integer; halfway between two it is the even one. -/
def halfEven (n d : Nat) : Nat :=
  if 2 * (n % 2 ^ d) < 2 ^ d then n / 2 ^ d
  else if 2 * (n % 2 ^ d) = 2 ^ d then n / 2 ^ d + n / 2 ^ d % 2
  else n / 2 ^ d + 1

section HalfEven

variable {m n : Nat}

theorem halfEven_zero (n : Nat) : halfEven n 0 = n := by
  rw [halfEven, if_pos (by omega), Nat.pow_zero, Nat.div_one]

theorem halfEven_bounds (n d : Nat) : n / 2 ^ d ≤ halfEven n d ∧ halfEven n d ≤ n / 2 ^ d + 1 := by
  unfold halfEven
  split
  · omega
  · split <;> omega

/-- Scaling both sides changes nothing. -/
theorem halfEven_mul_pow (n d k : Nat) : halfEven (n * 2 ^ k) (d + k) = halfEven n d := by
  have hpos : 0 < 2 ^ k := Nat.two_pow_pos k
  have hquotient : n * 2 ^ k / 2 ^ (d + k) = n / 2 ^ d := by
    rw [Nat.pow_add, Nat.mul_div_mul_right _ _ hpos]
  have hrest : n * 2 ^ k % 2 ^ (d + k) = n % 2 ^ d * 2 ^ k := by
    rw [Nat.pow_add, Nat.mul_mod_mul_right]
  have hlt : 2 * (n % 2 ^ d * 2 ^ k) < 2 ^ (d + k) ↔ 2 * (n % 2 ^ d) < 2 ^ d := by
    rw [← Nat.mul_assoc, Nat.pow_add, Nat.mul_lt_mul_right hpos]
  have heq : 2 * (n % 2 ^ d * 2 ^ k) = 2 ^ (d + k) ↔ 2 * (n % 2 ^ d) = 2 ^ d := by
    rw [← Nat.mul_assoc, Nat.pow_add, Nat.mul_left_inj (Nat.ne_of_gt hpos)]
  simp only [halfEven, hquotient, hrest, hlt, heq]

theorem halfEven_mono (h : m ≤ n) (d : Nat) : halfEven m d ≤ halfEven n d := by
  have hquotient : m / 2 ^ d ≤ n / 2 ^ d := Nat.div_le_div_right h
  by_cases hsame : m / 2 ^ d = n / 2 ^ d
  · have hm := Nat.div_add_mod m (2 ^ d)
    have hn := Nat.div_add_mod n (2 ^ d)
    rw [hsame] at hm
    unfold halfEven
    rw [hsame]
    split <;> split <;> (try split) <;> (try split) <;> omega
  · have hm := halfEven_bounds m d
    have hn := halfEven_bounds n d
    omega

/-- Rounding moves a number by half a unit at most. -/
theorem halfEven_near (n d : Nat) : 2 * (halfEven n d * 2 ^ d) ≤ 2 * n + 2 ^ d ∧
    2 * n ≤ 2 * (halfEven n d * 2 ^ d) + 2 ^ d := by
  have hn := Nat.div_add_mod' n (2 ^ d)
  have hrest : n % 2 ^ d < 2 ^ d := Nat.mod_lt _ (Nat.two_pow_pos d)
  have hnext : (n / 2 ^ d + 1) * 2 ^ d = n / 2 ^ d * 2 ^ d + 2 ^ d := Nat.succ_mul _ _
  unfold halfEven
  split
  · omega
  · split
    · rcases Nat.mod_two_eq_zero_or_one (n / 2 ^ d) with heven | hodd
      · rw [heven, Nat.add_zero]
        omega
      · rw [hodd]
        omega
    · omega

end HalfEven

section Mantissas

variable {m n d : Nat}

theorem log2_bounds (hm : m ≠ 0) : 2 ^ m.log2 ≤ m ∧ m < 2 ^ (m.log2 + 1) :=
  (Nat.log2_eq_iff hm).mp rfl

theorem ne_zero_of_log2 (hm : m.log2 = 52 + d) : m ≠ 0 := by
  rintro rfl
  rw [Nat.log2_zero] at hm
  omega

theorem log2_shiftLeft (hm : m ≠ 0) (d : Nat) : (m <<< d).log2 = m.log2 + d := by
  induction d with
  | zero => rw [Nat.shiftLeft_zero, Nat.add_zero]
  | succ d ih =>
    have hshifted : m <<< d ≠ 0 := by
      rw [Nat.shiftLeft_eq]
      exact Nat.mul_ne_zero hm (Nat.ne_of_gt (Nat.two_pow_pos d))
    rw [Nat.shiftLeft_succ, Nat.log2_two_mul hshifted, ih, Nat.add_assoc]

/-- The 53 digits in front. -/
theorem front_digits (hm : m.log2 = 52 + d) : 2 ^ 52 ≤ m / 2 ^ d ∧ m / 2 ^ d < 2 ^ 53 := by
  have hbounds := log2_bounds (ne_zero_of_log2 hm)
  rw [hm] at hbounds
  constructor
  · rw [Nat.le_div_iff_mul_le (Nat.two_pow_pos d), ← Nat.pow_add]
    exact hbounds.1
  · rw [Nat.div_lt_iff_lt_mul (Nat.two_pow_pos d), ← Nat.pow_add]
    have hexponent : 53 + d = 52 + d + 1 := by omega
    rw [hexponent]
    exact hbounds.2

theorem mantissa_shiftRight (em : ExtendedMantissa) (d : Nat) :
    (em >>> d).mantissa = em.mantissa / 2 ^ d := by
  induction d with
  | zero => rw [Nat.pow_zero, Nat.div_one]; rfl
  | succ d ih =>
    rw [Nat.pow_succ, ← Nat.div_div_eq_div_mul, ← ih]
    rfl

theorem mantissa_ofMantissaAndAccuracy (m : Nat) (accuracy : Accuracy) :
    (ExtendedMantissa.ofMantissaAndAccuracy m accuracy).mantissa = m := by
  rcases accuracy with _ | (_ | _ | _) <;> rfl

/-- Rounding takes the mantissa or the next one. -/
theorem roundedMantissa_bounds (em : ExtendedMantissa) :
    em.mantissa ≤ em.roundedMantissa ∧ em.roundedMantissa ≤ em.mantissa + 1 := by
  obtain ⟨m, roundBit, stickyBit⟩ := em
  cases roundBit <;> cases stickyBit <;>
    simp only [ExtendedMantissa.roundedMantissa, ExtendedMantissa.accuracy,
      Accuracy.roundToNearestEven] <;>
    omega

/-- The bits that shifting keeps beside the mantissa tell how the rest compares with half a unit. -/
theorem bits_shiftRight (m d : Nat) :
    let em := ExtendedMantissa.ofMantissaAndAccuracy m .exact >>> d
    (em.roundBit = true ↔ 2 ^ d ≤ 2 * (m % 2 ^ d)) ∧
      (em.stickyBit = true ↔ 2 * (m % 2 ^ d) ≠ 0 ∧ 2 * (m % 2 ^ d) ≠ 2 ^ d) := by
  induction d with
  | zero =>
    have hrest : m % 2 ^ 0 = 0 := Nat.mod_one m
    rw [hrest]
    exact ⟨⟨nofun, nofun⟩, ⟨nofun, fun h => absurd rfl h.1⟩⟩
  | succ d ih =>
    obtain ⟨hround, hsticky⟩ := ih
    have hmantissa := mantissa_shiftRight (ExtendedMantissa.ofMantissaAndAccuracy m .exact) d
    rw [mantissa_ofMantissaAndAccuracy] at hmantissa
    have hrest : m % 2 ^ (d + 1) = m % 2 ^ d + 2 ^ d * (m / 2 ^ d % 2) := Nat.mod_pow_succ
    have hlt : m % 2 ^ d < 2 ^ d := Nat.mod_lt _ (Nat.two_pow_pos d)
    have hshift : ExtendedMantissa.ofMantissaAndAccuracy m .exact >>> (d + 1) =
        (ExtendedMantissa.ofMantissaAndAccuracy m .exact >>> d).shiftRightOne := rfl
    have hpow : 2 ^ (d + 1) = 2 * 2 ^ d := Nat.pow_succ'
    rw [hshift, hrest]
    simp only [ExtendedMantissa.shiftRightOne, Bool.or_eq_true, hround, hsticky, hmantissa,
      bne_iff_ne, hpow]
    rcases Nat.mod_two_eq_zero_or_one (m / 2 ^ d) with heven | hodd
    · rw [heven, Nat.mul_zero]
      omega
    · rw [hodd, Nat.mul_one]
      omega

theorem roundedMantissa_shiftRight (m d : Nat) :
    (ExtendedMantissa.ofMantissaAndAccuracy m .exact >>> d).roundedMantissa = halfEven m d := by
  obtain ⟨hround, hsticky⟩ := bits_shiftRight m d
  have hmantissa := mantissa_shiftRight (ExtendedMantissa.ofMantissaAndAccuracy m .exact) d
  rw [mantissa_ofMantissaAndAccuracy] at hmantissa
  generalize ExtendedMantissa.ofMantissaAndAccuracy m .exact >>> d = em at *
  obtain ⟨mantissa, roundBit, stickyBit⟩ := em
  obtain rfl : mantissa = m / 2 ^ d := hmantissa
  unfold halfEven
  cases roundBit <;> cases stickyBit <;>
    simp only [Bool.false_eq_true, false_iff, true_iff, ne_eq] at hround hsticky <;>
    simp only [ExtendedMantissa.roundedMantissa, ExtendedMantissa.accuracy,
      Accuracy.roundToNearestEven]
  · rw [if_pos (by omega)]
  · rw [if_pos (by omega)]
  · rw [if_neg (by omega), if_pos (by omega)]
  · rw [if_neg (by omega), if_neg (by omega)]

end Mantissas

section Rounding

variable {m d : Nat} {e : Int}

theorem targetExponent_eq (hm : m.log2 = 52 + d) (he : -1074 ≤ e + d) :
    Format.binary64.targetExponent (totalExponent m e) = e + d := by
  simp only [Format.targetExponent, totalExponent, Format.mantissaBits, Format.minExponent, hm]
  omega

/-- Shifting leaves 53 digits. -/
theorem shiftToTargetExponent_eq (hm : m.log2 = 52 + d) (he : -1074 ≤ e + d)
    (accuracy : Accuracy) : shiftToTargetExponent Format.binary64 m e accuracy =
      (ExtendedMantissa.ofMantissaAndAccuracy m accuracy >>> d, e + d) := by
  have hshift : (e + d - e).toNat = d := by omega
  rw [shiftToTargetExponent, targetExponent_eq hm he, shiftToExponent, hshift]

theorem log2_of_bounds (hlo : 2 ^ 52 ≤ m) (hhi : m < 2 ^ 53) : m.log2 = 52 :=
  (Nat.log2_eq_iff (by omega)).mpr ⟨hlo, hhi⟩

/-- Rounding a number with enough digits keeps the 53 in front, rounded by what stands behind them;
where that makes one digit more, the last one is zero and dropped. -/
theorem roundWithAccuracy_eq (hm : m.log2 = 52 + d) (he : -1074 ≤ e + d) (s : Sign)
    (accuracy : Accuracy) : ∃ m' k hpos,
      roundWithAccuracy Format.binary64 s m e accuracy = .finite s m' (e + d + (k : Nat)) hpos ∧
        m'.log2 = 52 ∧ k ≤ 1 ∧ m' * 2 ^ k =
          (ExtendedMantissa.ofMantissaAndAccuracy m accuracy >>> d).roundedMantissa := by
  have hshift := shiftToTargetExponent_eq hm he accuracy
  have hfront := front_digits hm
  have hround := roundedMantissa_bounds (ExtendedMantissa.ofMantissaAndAccuracy m accuracy >>> d)
  rw [mantissa_shiftRight, mantissa_ofMantissaAndAccuracy] at hround
  generalize ExtendedMantissa.ofMantissaAndAccuracy m accuracy >>> d = em at *
  have hcarry : ∃ k ≤ 1, em.roundedMantissa.log2 = 52 + k ∧ 2 ^ k ∣ em.roundedMantissa := by
    by_cases hlast : em.roundedMantissa < 2 ^ 53
    · exact ⟨0, by omega, log2_of_bounds (by omega) hlast, one_dvd _⟩
    · have hcarry : em.roundedMantissa = 2 ^ 53 := by omega
      rw [hcarry]
      exact ⟨1, by omega, Nat.log2_two_pow, by decide⟩
  obtain ⟨k, hk, hlog, hdvd⟩ := hcarry
  have hagain := shiftToTargetExponent_eq hlog (e := e + d) (by omega) .exact
  have hmantissa :
      (ExtendedMantissa.ofMantissaAndAccuracy em.roundedMantissa .exact >>> k).mantissa =
        em.roundedMantissa / 2 ^ k := by
    rw [mantissa_shiftRight, mantissa_ofMantissaAndAccuracy]
  have hdigits := front_digits hlog
  have hne : em.roundedMantissa / 2 ^ k ≠ 0 := by omega
  refine ⟨em.roundedMantissa / 2 ^ k, k, Nat.pos_of_ne_zero hne, ?_,
    log2_of_bounds hdigits.1 hdigits.2, hk, Nat.div_mul_cancel hdvd⟩
  simp only [roundWithAccuracy, hshift, hagain, hmantissa, dif_neg hne]

/-- A number with 53 digits and zeros behind them is kept as it is. -/
theorem roundWithAccuracy_kept (hpos : 0 < m) (hm : m.log2 = 52) (he : -1074 ≤ e + d) (s : Sign) :
    roundWithAccuracy Format.binary64 s (m * 2 ^ d) e .exact = .finite s m (e + d) hpos := by
  have hlog : (m * 2 ^ d).log2 = 52 + d := by
    rw [← Nat.shiftLeft_eq, log2_shiftLeft (Nat.ne_of_gt hpos), hm]
  obtain ⟨m', k, hpos', hround, hlog', -, hvalue⟩ := roundWithAccuracy_eq hlog he s .exact
  have hsame : m' * 2 ^ k = m := by
    have hscale := halfEven_mul_pow m 0 d
    rw [Nat.zero_add, halfEven_zero] at hscale
    rw [hvalue, roundedMantissa_shiftRight, hscale]
  obtain rfl : k = 0 := by
    have hlog := log2_shiftLeft (Nat.ne_of_gt hpos') k
    rw [Nat.shiftLeft_eq, hsame, hm, hlog'] at hlog
    omega
  obtain rfl : m' = m := by rwa [Nat.pow_zero, Nat.mul_one] at hsame
  rw [hround]
  simp only [Int.natCast_zero, Int.add_zero]

/-- The last digit moves by at most one place more than there are digits too many. -/
theorem roundWithAccuracy_sized (hm : m.log2 = 52 + d) (he : -1074 ≤ e + d) (s : Sign)
    (accuracy : Accuracy) :
    Sized (e + d) (e + d + 1) (roundWithAccuracy Format.binary64 s m e accuracy) := by
  obtain ⟨m', k, hpos, hround, hlog, hk, -⟩ := roundWithAccuracy_eq hm he s accuracy
  rw [hround]
  exact ⟨hlog, by omega, by omega⟩

/-- Rounding any number but zero. -/
theorem round_sized (hm : m ≠ 0) (he : -1022 ≤ m.log2 + e) (s : Sign) :
    Sized (m.log2 + e - 52) (m.log2 + e - 51) (UnpackedFloat.round Format.binary64 s m e) := by
  have htarget : Format.binary64.targetExponent (totalExponent m e) = m.log2 + e - 52 := by
    simp only [Format.targetExponent, totalExponent, Format.mantissaBits, Format.minExponent]
    omega
  simp only [UnpackedFloat.round, decreaseExponent, htarget]
  have hlog := log2_shiftLeft hm (e - (m.log2 + e - 52)).toNat
  have hlarge : (m <<< (e - (m.log2 + e - 52)).toNat).log2 = 52 + (m.log2 - 52) := by omega
  apply (roundWithAccuracy_sized hlarge (by omega) s .exact).mono <;> omega

end Rounding

section Packing

variable {lo hi : Int} {x : UnpackedFloat}

/-- A fraction behind its implicit digit. -/
theorem toNat_implicit (fraction : BitVec 52) :
    (1#1 ++ fraction).toNat = 2 ^ 52 + fraction.toNat := by
  rw [BitVec.toNat_append, ← Nat.shiftLeft_add_eq_or_of_lt fraction.isLt]
  rfl

/-- A number in the range of exponents is unpacked as it was packed. -/
theorem Sized.unpack_pack_eq (h : Sized lo hi x) (hlo : -1074 ≤ lo) (hhi : hi ≤ 971) :
    (Float.Model.pack x).unpack = x := by
  obtain ⟨s, m, e, hm, rfl, hlog, hle, hge⟩ := h.exists_finite
  have hfield : (e + Format.binary64.exponentBias +
      Format.binary64.mantissaBitsWithoutImplicit).toNat = (e + 1075).toNat := by
    show (e + 1023 + 52).toNat = (e + 1075).toNat
    omega
  have hpack : UnpackedFloat.pack Format.binary64 (.finite s m e hm) =
      packComponents Format.binary64 s (BitVec.ofNat 11 (e + 1075).toNat) (BitVec.ofNat 52 m) := by
    simp only [UnpackedFloat.pack, hfield]
    rw [if_neg, if_pos]
    · show m.log2 + 1 = 53
      omega
    · show ¬2048 ≤ (e + 1075).toNat + 1
      omega
  have hexponent : (BitVec.ofNat 11 (e + 1075).toNat).toNat = (e + 1075).toNat := by
    rw [BitVec.toNat_ofNat]
    omega
  have hones : BitVec.ofNat 11 (e + 1075).toNat ≠ -1#11 := by
    intro h
    have := congrArg BitVec.toNat h
    rw [hexponent] at this
    have hlast : (-1#11).toNat = 2047 := rfl
    omega
  have hzeros : BitVec.ofNat 11 (e + 1075).toNat ≠ 0#11 := by
    intro h
    have := congrArg BitVec.toNat h
    rw [hexponent, BitVec.toNat_ofNat] at this
    omega
  have hmantissa : (1#1 ++ BitVec.ofNat 52 m).toNat = m := by
    have hbounds := log2_bounds (Nat.ne_of_gt hm)
    rw [hlog] at hbounds
    rw [toNat_implicit, BitVec.toNat_ofNat]
    omega
  show UnpackedFloat.unpack Format.binary64 (UnpackedFloat.pack Format.binary64 _) = _
  rw [hpack]
  simp only [UnpackedFloat.unpack, unpackMantissa_packComponents, unpackExponent_packComponents,
    unpackSign_packComponents, Sign.ofBitVec_toBitVec, hexponent]
  rw [if_neg hones, if_neg hzeros]
  simp only [finite.injEq, hmantissa, true_and]
  show ((e + 1075).toNat : Int) - (1023 + 52) = e
  omega

/-- Packing does not change the size of a number in the range of exponents. -/
theorem Sized.unpack_pack (h : Sized lo hi x) (hlo : -1074 ≤ lo) (hhi : hi ≤ 971) :
    Sized lo hi (Float.Model.pack x).unpack := by
  rwa [h.unpack_pack_eq hlo hhi]

theorem Moderate.unpack_pack (h : Moderate lo hi x) (hlo : -1074 ≤ lo) (hhi : hi ≤ 971) :
    Moderate lo hi (Float.Model.pack x).unpack := by
  rcases h with ⟨s, rfl⟩ | h
  · refine .inl ⟨s, ?_⟩
    cases s <;> rfl
  · exact .inr (h.unpack_pack hlo hhi)

theorem Moderate.isFinite (h : Moderate lo hi x) : x.isFinite = true := by
  rcases h with ⟨s, rfl⟩ | h
  · rfl
  · obtain ⟨s, m, e, hm, rfl, -⟩ := h.exists_finite
    rfl

end Packing

end BraceTemplate.Decimal
