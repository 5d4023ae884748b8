import Mathlib
import ProtectedCall.Proofs.Digits

/-!
# Numbers in range

A numeral is read as a double by one multiplication or division. It is out of range where the
product is infinite. The significand, the power of ten and their product are rounded once each, and
that enlarges a number by at most one part in `2 ^ 53`.

* `AtMost`: a double is finite, and its magnitude has a bound.
* `atMost_roundWithAccuracy`, `AtMost.unpack_pack`: the error of one rounding, and packing.
* `FloatAtMost.mul`, `floatAtMost_ofScientific`: the bounds of a product and of a whole number.
* `appendDigits_lt`, `appendDigits_le`, `significand_le`: the significand of a numeral against what
  its digits write.
* `inRange_of_magnitude_le`: so every numeral is in range whose magnitude is at most the double two
  below the greatest one.
-/

namespace ProtectedCall

open Decimal Json

/-- The magnitude that the numeral writes. -/
def Decimal.Numeral.magnitude (n : Numeral) : ℚ :=
  Nat.ofDigitChars 10 (n.whole ++ n.fraction) 0 *
    10 ^ (exponentValue n.exponent - n.fraction.length)

namespace Json

open Float.Model Float.Model.UnpackedFloat

/-! ## Rounding -/

/-- The most that one rounding multiplies a number by. -/
def growth : ℚ := 1 + 1 / 2 ^ 53

theorem one_le_growth : 1 ≤ growth := by norm_num [growth]

theorem growth_pos : 0 < growth := one_pos.trans_le one_le_growth

/-- The double is finite and has all its 53 bits, none of them below `2 ^ -52`. Its magnitude is at
most the bound. -/
def AtMost (bound : ℚ) : UnpackedFloat → Prop
  | .finite _ mantissa exponent _ =>
    2 ^ 52 ≤ mantissa ∧ mantissa < 2 ^ 53 ∧ -52 ≤ exponent ∧ mantissa * 2 ^ exponent ≤ bound
  | _ => False

instance (bound : ℚ) : DecidablePred (AtMost bound)
  | .finite _ _ _ _ => inferInstanceAs (Decidable (_ ∧ _ ∧ _ ∧ _))
  | .zero _ => .isFalse id
  | .infinity _ => .isFalse id
  | .notANumber => .isFalse id

theorem AtMost.mono {bound bound' : ℚ} {x : UnpackedFloat} (h : AtMost bound x)
    (hle : bound ≤ bound') : AtMost bound' x := by
  cases x with
  | finite =>
    obtain ⟨low, high, whole, le⟩ := h
    exact ⟨low, high, whole, le.trans hle⟩
  | _ => exact h

theorem mantissa_shiftRight (em : ExtendedMantissa) (k : Nat) :
    (em >>> k).mantissa = em.mantissa / 2 ^ k := by
  induction k with
  | zero => exact (Nat.div_one _).symm
  | succ k ih =>
    have step : (em >>> (k + 1)).mantissa = (em >>> k).mantissa / 2 := rfl
    rw [step, ih, Nat.div_div_eq_div_mul, Nat.pow_succ]

theorem roundedMantissa_bounds (em : ExtendedMantissa) :
    em.mantissa ≤ em.roundedMantissa ∧
      em.roundedMantissa ≤ em.mantissa + em.roundBit.toNat := by
  obtain ⟨mantissa, roundBit, stickyBit⟩ := em
  cases roundBit <;> cases stickyBit <;>
    simp only [ExtendedMantissa.roundedMantissa, ExtendedMantissa.accuracy,
      Accuracy.roundToNearestEven, Bool.toNat_true, Bool.toNat_false] <;> omega

/-- Rounding after a shift adds at most half of the last place. -/
theorem roundedMantissa_shiftRight_le (mantissa k : Nat) :
    (ExtendedMantissa.mk mantissa false false >>> k).roundedMantissa * 2 ^ k ≤
      mantissa + 2 ^ k / 2 := by
  cases k with
  | zero => exact Nat.le_of_eq (Nat.mul_one _)
  | succ k =>
    -- The last bit that is shifted out is the round bit, and rounding up takes it to be set.
    have hround := (roundedMantissa_bounds (ExtendedMantissa.mk mantissa false false >>> (k + 1))).2
    have hmantissa : (ExtendedMantissa.mk mantissa false false >>> (k + 1)).mantissa =
        mantissa / 2 ^ k / 2 := congrArg (· / 2) (mantissa_shiftRight _ k)
    have hbit : (ExtendedMantissa.mk mantissa false false >>> (k + 1)).roundBit =
        (mantissa / 2 ^ k % 2 != 0) := congrArg (· % 2 != 0) (mantissa_shiftRight _ k)
    have hmod := Nat.mod_two_eq_zero_or_one (mantissa / 2 ^ k)
    have hodd : (mantissa / 2 ^ k % 2 != 0).toNat = mantissa / 2 ^ k % 2 := by
      rcases hmod with h | h <;> rw [h] <;> rfl
    rw [hmantissa, hbit, hodd] at hround
    generalize (ExtendedMantissa.mk mantissa false false >>> (k + 1)).roundedMantissa = rounded
      at hround ⊢
    have htwice : rounded * 2 ≤ mantissa / 2 ^ k + 1 := by omega
    calc
      rounded * 2 ^ (k + 1) = rounded * 2 * 2 ^ k := by rw [Nat.pow_succ', Nat.mul_assoc]
      _ ≤ (mantissa / 2 ^ k + 1) * 2 ^ k := Nat.mul_le_mul_right _ htwice
      _ = mantissa / 2 ^ k * 2 ^ k + 2 ^ k := Nat.succ_mul _ _
      _ ≤ mantissa + 2 ^ k := Nat.add_le_add_right (Nat.div_mul_le_self _ _) _
      _ = mantissa + 2 ^ (k + 1) / 2 := by rw [Nat.pow_succ, Nat.mul_div_cancel _ Nat.two_pos]

/-- A mantissa of more than 53 bits is shifted by those that are left over. -/
theorem shiftToTargetExponent_eq {mantissa k : Nat} (exponent : Int)
    (bits : mantissa.log2 = 52 + k) (normal : -1074 ≤ exponent + k) :
    shiftToTargetExponent Format.binary64 mantissa exponent .exact =
      (ExtendedMantissa.mk mantissa false false >>> k, exponent + k) := by
  have htarget : Format.binary64.targetExponent (totalExponent mantissa exponent) =
      max ((mantissa.log2 : Int) + 1 + exponent - 53) (-1074) := rfl
  have hshift : (Format.binary64.targetExponent (totalExponent mantissa exponent) -
      exponent).toNat = k := by omega
  rw [shiftToTargetExponent, shiftToExponent, hshift]
  rfl

/-- All 53 bits are left after the shift. -/
theorem shifted_bounds {n k : Nat} (bits : n.log2 = 52 + k) :
    2 ^ 52 ≤ n / 2 ^ k ∧ n / 2 ^ k < 2 ^ 53 := by
  have hn : n ≠ 0 := by
    rintro rfl
    rw [Nat.log2_zero] at bits
    omega
  obtain ⟨hlow, hhigh⟩ := (Nat.log2_eq_iff hn).mp bits
  rw [Nat.le_div_iff_mul_le (Nat.two_pow_pos k), Nat.div_lt_iff_lt_mul (Nat.two_pow_pos k),
    ← Nat.pow_add, ← Nat.pow_add]
  exact ⟨hlow, by rwa [Nat.add_right_comm] at hhigh⟩

/-- One rounding of a number of at least one adds at most half of the last place. -/
theorem atMost_add_half {sign : Sign} {mantissa k : Nat} {exponent : Int}
    (bits : mantissa.log2 = 52 + k) (whole : -52 ≤ exponent + k) :
    AtMost ((mantissa + (2 ^ k / 2 : Nat)) * 2 ^ exponent)
      (roundWithAccuracy Format.binary64 sign mantissa exponent .exact) := by
  have hshift := shiftToTargetExponent_eq exponent bits (by omega)
  have hvalue := roundedMantissa_shiftRight_le mantissa k
  have hrounded : 2 ^ 52 ≤
      (ExtendedMantissa.mk mantissa false false >>> k).roundedMantissa := by
    refine Nat.le_trans ?_ (roundedMantissa_bounds _).1
    rw [mantissa_shiftRight]
    exact (shifted_bounds bits).1
  obtain ⟨rounded, hdef⟩ :
      ∃ n, (ExtendedMantissa.mk mantissa false false >>> k).roundedMantissa = n := ⟨_, rfl⟩
  rw [hdef] at hvalue hrounded
  -- A carry may take one more bit, which the second shift drops: it is zero.
  have hne : rounded ≠ 0 := by omega
  obtain ⟨k', hbits'⟩ := Nat.exists_eq_add_of_le ((Nat.le_log2 hne).mpr hrounded)
  have hshift' := shiftToTargetExponent_eq (exponent + k) hbits' (by omega)
  obtain ⟨hlow, hhigh⟩ := shifted_bounds hbits'
  simp only [roundWithAccuracy, hshift, hdef, hshift', mantissa_shiftRight]
  rw [dif_neg (by omega)]
  refine ⟨hlow, hhigh, by omega, ?_⟩
  have hnat : rounded / 2 ^ k' * 2 ^ k' * 2 ^ k ≤ mantissa + 2 ^ k / 2 :=
    Nat.le_trans (Nat.mul_le_mul_right _ (Nat.div_mul_le_self _ _)) hvalue
  calc
    ((rounded / 2 ^ k' : Nat) : ℚ) * 2 ^ (exponent + k + k') =
        ((rounded / 2 ^ k' * 2 ^ k' * 2 ^ k : Nat) : ℚ) * 2 ^ exponent := by
      rw [zpow_add₀ two_ne_zero, zpow_add₀ two_ne_zero, zpow_natCast, zpow_natCast]
      push_cast
      ring
    _ ≤ (mantissa + (2 ^ k / 2 : Nat)) * 2 ^ exponent :=
      mul_le_mul_of_nonneg_right (by exact_mod_cast hnat) (zpow_nonneg two_pos.le _)

/-- Rounding a number of at least one. -/
theorem atMost_roundWithAccuracy {sign : Sign} {mantissa : Nat} {exponent : Int}
    (low : 2 ^ 52 ≤ mantissa) (whole : 0 ≤ mantissa.log2 + exponent) :
    AtMost (mantissa * 2 ^ exponent * growth)
      (roundWithAccuracy Format.binary64 sign mantissa exponent .exact) := by
  have hne : mantissa ≠ 0 := by omega
  obtain ⟨k, bits⟩ := Nat.exists_eq_add_of_le ((Nat.le_log2 hne).mpr low)
  refine (atMost_add_half bits (by omega)).mono ?_
  have hlast : 2 ^ 52 * 2 ^ k ≤ mantissa := by
    rw [← Nat.pow_add, ← bits]
    exact Nat.log2_self_le hne
  have hhalf : (2 ^ k / 2) * 2 ^ 53 ≤ mantissa := by omega
  have hhalf' : ((2 ^ k / 2 : Nat) : ℚ) ≤ mantissa * (1 / 2 ^ 53) := by
    rw [mul_one_div, le_div_iff₀ (by positivity)]
    exact_mod_cast hhalf
  calc
    ((mantissa : ℚ) + (2 ^ k / 2 : Nat)) * 2 ^ exponent ≤
        (mantissa + mantissa * (1 / 2 ^ 53)) * 2 ^ exponent :=
      mul_le_mul_of_nonneg_right (add_le_add_right hhalf' _) (zpow_nonneg two_pos.le _)
    _ = mantissa * 2 ^ exponent * growth := by
      rw [growth]
      ring

/-- A whole number of at most 53 bits is not rounded. -/
theorem atMost_round {sign : Sign} {n : Nat} (pos : 0 < n) (h : n < 2 ^ 53) :
    AtMost n (UnpackedFloat.round Format.binary64 sign n 0) := by
  have hne := Nat.ne_of_gt pos
  obtain ⟨k, hk⟩ := Nat.exists_eq_add_of_le (Nat.le_of_lt_succ ((Nat.log2_lt hne).mpr h))
  have htarget : Format.binary64.targetExponent (totalExponent n 0) =
      max ((n.log2 : Int) + 1 + 0 - 53) (-1074) := rfl
  have hshift : (0 - Format.binary64.targetExponent (totalExponent n 0)).toNat = k := by omega
  have hbits : (n <<< k).log2 = 52 + 0 := by
    have hshifted : n <<< k ≠ 0 := Nat.ne_of_gt (Nat.shiftLeft_pos_iff.mpr pos)
    have hlow := Nat.log2_self_le hne
    have hhigh := @Nat.lt_log2_self n
    have hexponent : 52 = n.log2 + k := hk
    rw [Nat.log2_eq_iff hshifted, Nat.shiftLeft_eq, Nat.add_zero, hexponent, Nat.add_right_comm,
      Nat.pow_add, Nat.pow_add]
    exact ⟨Nat.mul_le_mul_right _ hlow, Nat.mul_lt_mul_of_pos_right hhigh (Nat.two_pow_pos k)⟩
  simp only [UnpackedFloat.round, decreaseExponent, hshift]
  refine (atMost_add_half hbits (by omega)).mono (le_of_eq ?_)
  rw [Nat.shiftLeft_eq, zero_sub, zpow_neg, zpow_natCast, pow_zero, Nat.div_eq_of_lt Nat.one_lt_two]
  push_cast
  rw [add_zero, mul_inv_cancel_right₀ (pow_ne_zero k two_ne_zero)]

/-! ## Packing -/

/-- A double below `2 ^ 1024` ends below `2 ^ 972`. -/
theorem AtMost.exponent_lt {bound : ℚ} {sign : Sign} {mantissa : Nat} {exponent : Int}
    {pos : 0 < mantissa} (h : AtMost bound (.finite sign mantissa exponent pos))
    (finite : bound < 2 ^ 1024) : 52 + exponent < 1024 := by
  obtain ⟨low, -, -, le⟩ := h
  refine (zpow_lt_zpow_iff_right₀ (one_lt_two (α := ℚ))).mp ?_
  calc
    (2 : ℚ) ^ (52 + exponent) = 2 ^ 52 * 2 ^ exponent := zpow_add₀ two_ne_zero _ _
    _ ≤ mantissa * 2 ^ exponent :=
      mul_le_mul_of_nonneg_right (by exact_mod_cast low) (zpow_nonneg two_pos.le _)
    _ ≤ bound := le
    _ < 2 ^ (1024 : Int) := finite

/-- The leading bit is not written, and is back after reading. -/
theorem toNat_one_append {mantissa : Nat} (low : 2 ^ 52 ≤ mantissa) (high : mantissa < 2 ^ 53) :
    (1#1 ++ BitVec.ofNat 52 mantissa).toNat = mantissa := by
  rw [BitVec.toNat_append, ← Nat.shiftLeft_add_eq_or_of_lt (BitVec.isLt _), BitVec.toNat_ofNat,
    BitVec.toNat_ofNat, Nat.shiftLeft_eq]
  omega

/-- Packing keeps a double that is finite. -/
theorem AtMost.unpack_pack {bound : ℚ} {x : UnpackedFloat} (h : AtMost bound x)
    (finite : bound < 2 ^ 1024) : AtMost bound (Float.Model.pack x).unpack := by
  have hunpack : (Float.Model.pack x).unpack =
      UnpackedFloat.unpack Format.binary64 (UnpackedFloat.pack Format.binary64 x) := rfl
  rw [hunpack]
  cases x with
  | finite sign mantissa exponent pos =>
    have hexponent := h.exponent_lt finite
    obtain ⟨low, high, whole, le⟩ := h
    have hlog : mantissa.log2 + 1 = Format.binary64.mantissaBits :=
      congrArg Nat.succ ((Nat.log2_eq_iff (Nat.ne_of_gt pos)).mpr ⟨low, high⟩)
    have hbias : (Format.binary64.exponentBias : Int) +
        (Format.binary64.mantissaBitsWithoutImplicit : Int) = 1075 := rfl
    generalize hbiased : (exponent + 1075).toNat = biased
    have hlt : biased + 1 < 2 ^ 11 := by omega
    have hfield : (BitVec.ofNat 11 biased).toNat = biased := by
      rw [BitVec.toNat_ofNat, Nat.mod_eq_of_lt (by omega)]
    -- The exponent field is neither that of an infinity nor that of a subnormal double.
    have hlargest : BitVec.ofNat 11 biased ≠ -1#11 := fun heq => by
      have hvalue : biased = 2047 := hfield.symm.trans (congrArg BitVec.toNat heq)
      omega
    have hsmallest : BitVec.ofNat 11 biased ≠ 0#11 := fun heq => by
      have hvalue : biased = 0 := hfield.symm.trans (congrArg BitVec.toNat heq)
      omega
    simp only [UnpackedFloat.pack, Int.add_assoc, hbias, hbiased]
    rw [if_neg (Nat.not_le_of_lt hlt), if_pos hlog]
    simp only [UnpackedFloat.unpack, unpackExponent_packComponents, unpackMantissa_packComponents,
      hbias]
    rw [if_neg hlargest, if_neg hsmallest, AtMost, toNat_one_append low high, hfield]
    have hexponent : (biased : Int) - 1075 = exponent := by omega
    exact ⟨low, high, by omega, hexponent ▸ le⟩
  | _ => exact h.elim

/-! ## Doubles -/

/-- The double is finite, and its magnitude is at least one and at most the bound. -/
def FloatAtMost (x : Float) (bound : ℚ) : Prop := AtMost bound x.toModel.unpack

instance (x : Float) (bound : ℚ) : Decidable (FloatAtMost x bound) :=
  inferInstanceAs (Decidable (AtMost _ _))

theorem FloatAtMost.not_isInf {x : Float} {bound : ℚ} (h : FloatAtMost x bound) : ¬ x.isInf := by
  change ¬ x.toModel.unpack.isInf
  rw [FloatAtMost] at h
  cases hx : x.toModel.unpack with
  | infinity => exact (hx ▸ h).elim
  | _ => exact Bool.false_ne_true

theorem FloatAtMost.mul {x y : Float} {a b : ℚ} (hx : FloatAtMost x a) (hy : FloatAtMost y b)
    (finite : a * b * growth < 2 ^ 1024) : FloatAtMost (x * y) (a * b * growth) := by
  have hmul : (x * y).toModel.unpack =
      (Float.Model.pack (UnpackedFloat.mul Format.binary64 x.toModel.unpack
        y.toModel.unpack)).unpack := rfl
  rw [FloatAtMost, hmul]
  refine AtMost.unpack_pack ?_ finite
  rw [FloatAtMost] at hx hy
  cases hxu : x.toModel.unpack with
  | finite sx mx ex px =>
    cases hyu : y.toModel.unpack with
    | finite sy my ey py =>
      rw [hxu] at hx
      rw [hyu] at hy
      obtain ⟨lowx, -, wholex, lex⟩ := hx
      obtain ⟨lowy, -, wholey, ley⟩ := hy
      have hproduct : 2 ^ 104 ≤ mx * my := calc
        2 ^ 104 = 2 ^ 52 * 2 ^ 52 := by decide
        _ ≤ mx * my := Nat.mul_le_mul lowx lowy
      have hlog := (Nat.le_log2 (by omega)).mpr hproduct
      refine (atMost_roundWithAccuracy (by omega) (by omega)).mono ?_
      refine mul_le_mul_of_nonneg_right ?_ growth_pos.le
      calc
        ((mx * my : Nat) : ℚ) * 2 ^ (ex + ey) = (mx * 2 ^ ex) * (my * 2 ^ ey) := by
          rw [zpow_add₀ two_ne_zero, Nat.cast_mul, mul_mul_mul_comm]
        _ ≤ a * b := mul_le_mul lex ley (by positivity) (le_trans (by positivity) lex)
    | _ => exact (hyu ▸ hy).elim
  | _ => exact (hxu ▸ hx).elim

/-- A whole number of at most 53 bits is a double. -/
theorem floatAtMost_toFloat {n : UInt64} (pos : 0 < n.toNat) (h : n.toNat < 2 ^ 53) :
    FloatAtMost n.toFloat n.toNat := by
  have hfloat : n.toFloat.toModel.unpack =
      (Float.Model.pack (UnpackedFloat.normalize Format.binary64 n.toNat 0 .positive)).unpack := rfl
  have hbound : (n.toNat : ℚ) < 2 ^ 1024 := calc
    (n.toNat : ℚ) < 2 ^ 53 := by exact_mod_cast h
    _ ≤ 2 ^ 1024 := pow_le_pow_right₀ one_le_two (by decide)
  rw [FloatAtMost, hfloat]
  refine AtMost.unpack_pack ?_ hbound
  rw [UnpackedFloat.normalize, Int.compare_eq_gt.mpr (by omega)]
  exact atMost_round pos h

theorem floatAtMost_exactlyRepresentablePowersOfTen :
    ∀ e : Fin Float.exactlyRepresentablePowersOfTen.size,
      FloatAtMost Float.exactlyRepresentablePowersOfTen[e] (10 ^ e.val) := by
  decide +kernel

/-- The double of a whole number with zeros behind it is rounded once. Small ones are the product of
two doubles that are exact. -/
theorem floatAtMost_ofScientific {m e : Nat} (pos : 0 < m) (small : e ≤ 308)
    (finite : (m : ℚ) * 10 ^ e * growth < 2 ^ 1024) :
    FloatAtMost (Float.ofScientific m false e) (m * 10 ^ e * growth) := by
  rw [Float.ofScientific]
  split
  · rename_i hexact
    have hten := floatAtMost_exactlyRepresentablePowersOfTen ⟨e, Nat.lt_succ_of_le hexact.2⟩
    have hword : m.toUInt64.toNat = m := by
      rw [Nat.toUInt64, UInt64.toNat_ofNat_of_lt']
      exact Nat.lt_trans hexact.1 (by decide)
    have hfloat := floatAtMost_toFloat (hword.symm ▸ pos) (hword.symm ▸ hexact.1)
    rw [hword] at hfloat
    exact hfloat.mul hten finite
  · have hmodel : (Float.ofModel (Float.Model.ofScientific m (Int.ofNat e))).toModel.unpack =
        (Float.Model.pack (UnpackedFloat.ofScientific Format.binary64 m e)).unpack := rfl
    rw [if_neg Bool.false_ne_true, FloatAtMost, hmodel]
    refine AtMost.unpack_pack ?_ finite
    rw [UnpackedFloat.ofScientific, dif_neg (Nat.ne_of_gt pos), if_neg (by simp; omega),
      if_neg (by simp; omega), if_pos (by omega), UnpackedFloat.mul, Int.toNat_natCast]
    have hlow : 2 ^ 53 ≤ m <<< 53 * 10 ^ e := by
      rw [Nat.shiftLeft_eq, Nat.mul_right_comm]
      exact Nat.le_mul_of_pos_left _ (Nat.mul_pos pos (Nat.pow_pos (by decide)))
    have hlog := (Nat.le_log2 (by omega)).mpr hlow
    have hbits : Format.binary64.mantissaBits = 53 := rfl
    rw [hbits]
    refine (atMost_roundWithAccuracy (by omega) (by omega)).mono (le_of_eq ?_)
    rw [Nat.shiftLeft_eq, Nat.mul_right_comm, add_zero, zpow_neg, zpow_natCast, Nat.cast_mul,
      Nat.cast_pow, Nat.cast_ofNat, mul_inv_cancel_right₀ (pow_ne_zero _ two_ne_zero), Nat.cast_mul,
      Nat.cast_pow, Nat.cast_ofNat]

/-! ## Scaling -/

/-- Zero times infinity is not infinite either. -/
theorem not_isInf_zero_mul (x : Float) : ¬ (Float.ofNat 0 * x).isInf := by
  have hmul (y : UnpackedFloat) : UnpackedFloat.mul Format.binary64 (.zero .positive) y =
      .notANumber ∨ ∃ sign, UnpackedFloat.mul Format.binary64 (.zero .positive) y = .zero sign := by
    cases y with
    | infinity => exact .inl rfl
    | notANumber => exact .inl rfl
    | zero => exact .inr ⟨_, rfl⟩
    | finite => exact .inr ⟨_, rfl⟩
  change ¬ (Float.Model.pack (UnpackedFloat.mul Format.binary64 (.zero .positive)
    x.toModel.unpack)).unpack.isInf
  rcases hmul x.toModel.unpack with h | ⟨_ | _, h⟩ <;> rw [h] <;> decide

/-- A significand is scaled up in range if the exact product stays there after three roundings. -/
theorem scaleUp?_isSome {significand places : Nat}
    (h : (significand : ℚ) * 10 ^ places * growth ^ 3 < 2 ^ 1024) :
    (scaleUp? (Float.ofNat significand) places).isSome := by
  rw [scaleUp?]
  rcases Nat.eq_zero_or_pos significand with rfl | hpos
  · split
    · simp [not_isInf_zero_mul]
    · rw [if_pos (by decide +kernel)]
      rfl
  · have hone : (1 : ℚ) ≤ significand := by exact_mod_cast hpos
    have hpower : (1 : ℚ) ≤ 10 ^ places := one_le_pow₀ (by norm_num)
    have hplaces : places ≤ 308 := by
      by_contra hlt
      have hcontra : (10 : ℚ) ^ 309 < 2 ^ 1024 := calc
        (10 : ℚ) ^ 309 ≤ 10 ^ places := pow_le_pow_right₀ (by norm_num) (Nat.lt_of_not_le hlt)
        _ ≤ significand * 10 ^ places := le_mul_of_one_le_left (by positivity) hone
        _ ≤ significand * 10 ^ places * growth ^ 3 :=
          le_mul_of_one_le_right (by positivity) (one_le_pow₀ one_le_growth)
        _ < 2 ^ 1024 := h
      exact absurd hcontra (by decide +kernel)
    -- The significand and the power of ten are rounded once each, and then their product is.
    have hthrice : growth ≤ growth ^ 3 := le_self_pow₀ one_le_growth (by decide)
    have hsignificand : FloatAtMost (Float.ofNat significand) (significand * 10 ^ 0 * growth) := by
      refine floatAtMost_ofScientific hpos (by decide) (lt_of_le_of_lt ?_ h)
      refine mul_le_mul ?_ hthrice growth_pos.le (by positivity)
      exact mul_le_mul_of_nonneg_left hpower (by positivity)
    have hten : FloatAtMost (powerOfTen places) ((1 : Nat) * 10 ^ places * growth) := by
      refine floatAtMost_ofScientific Nat.one_pos hplaces (lt_of_le_of_lt ?_ h)
      refine mul_le_mul ?_ hthrice growth_pos.le (by positivity)
      exact mul_le_mul_of_nonneg_right (by exact_mod_cast hpos) (by positivity)
    have hfinite : significand * 10 ^ 0 * growth * ((1 : Nat) * 10 ^ places * growth) * growth <
        2 ^ 1024 := by
      refine lt_of_eq_of_lt ?_ h
      rw [Nat.cast_one]
      ring
    rw [if_pos hplaces, if_neg (hsignificand.mul hten hfinite).not_isInf]
    rfl

/-! ## Significands -/

theorem digitValue_lt {c : Char} (h : c.isDigit) : digitValue c < 10 := by
  simp only [Char.isDigit, Bool.and_eq_true, decide_eq_true_eq] at h
  have hle : c.toNat ≤ 57 := h.2
  have hzero : '0'.toNat = 48 := rfl
  rw [digitValue]
  omega

/-- Digits raise a significand by less than one in the place that it ends at. -/
theorem appendDigits_lt {ds : List Char} (digits : ∀ c ∈ ds, c.isDigit) (significand : Nat) :
    (appendDigits significand ds).1 <
      (significand + 1) * 10 ^ (appendDigits significand ds).2 := by
  induction ds generalizing significand with
  | nil => simp [appendDigits]
  | cons c ds ih =>
    have hc := digitValue_lt (digits c List.mem_cons_self)
    rw [appendDigits]
    split
    · have hrest := ih (fun d hd => digits d (List.mem_cons_of_mem _ hd))
        (significand * 10 + digitValue c)
      refine Nat.lt_of_lt_of_le hrest ?_
      rw [Nat.pow_succ', ← Nat.mul_assoc]
      exact Nat.mul_le_mul_right _ (by omega)
    · simp

/-- A significand that takes a digit is within 64 bits at the first one. -/
theorem appendDigits_lt_bound {ds : List Char} (digits : ∀ c ∈ ds, c.isDigit)
    {significand places : Nat} (h : (appendDigits significand ds).2 = places + 1) :
    (appendDigits significand ds).1 < significandBound * 10 ^ places := by
  cases ds with
  | nil => simp [appendDigits] at h
  | cons c ds =>
    have hrest := appendDigits_lt (fun d hd => digits d (List.mem_cons_of_mem _ hd))
      (significand * 10 + digitValue c)
    rw [appendDigits] at h ⊢
    split at h
    · rename_i hlt
      rw [if_pos hlt]
      rw [Nat.succ.inj h] at hrest
      exact Nat.lt_of_lt_of_le hrest (Nat.mul_le_mul_right _ hlt)
    · simp at h

/-- With zeros for the digits that are not taken, a significand is at most what the digits write. -/
theorem appendDigits_le (ds : List Char) (significand : Nat) :
    (appendDigits significand ds).2 ≤ ds.length ∧
      (appendDigits significand ds).1 * 10 ^ (ds.length - (appendDigits significand ds).2) ≤
        Nat.ofDigitChars 10 ds significand := by
  induction ds generalizing significand with
  | nil => simp [appendDigits]
  | cons c ds ih =>
    obtain ⟨hcount, hle⟩ := ih (significand * 10 + digitValue c)
    rw [appendDigits, ofDigitChars_cons]
    split
    · exact ⟨Nat.succ_le_succ hcount, by simpa using hle⟩
    · refine ⟨Nat.zero_le _, ?_⟩
      rw [Nat.ofDigitChars_eq_ofDigitChars_zero]
      simp only [List.length_cons, Nat.sub_zero, Nat.pow_succ']
      refine Nat.le_add_right_of_le ?_
      rw [← Nat.mul_assoc, Nat.mul_comm]
      exact Nat.mul_le_mul_left _ (Nat.le_add_right _ _)

/-- The digits exceed 64 bits where one of them is not taken. -/
theorem bound_le_of_untaken {ds : List Char} {significand rest : Nat}
    (h : ds.length - (appendDigits significand ds).2 = rest + 1) :
    significandBound * 10 ^ rest ≤ Nat.ofDigitChars 10 ds significand := by
  induction ds generalizing significand with
  | nil => simp at h
  | cons c ds ih =>
    rw [ofDigitChars_cons]
    rw [appendDigits] at h
    split at h
    · exact ih (by simpa using h)
    · rename_i hge
      obtain rfl : ds.length = rest := by simpa using h
      rw [Nat.ofDigitChars_eq_ofDigitChars_zero, Nat.mul_comm]
      exact Nat.le_add_right_of_le (Nat.mul_le_mul_left _ (Nat.le_of_not_lt hge))

/-- With zeros for the digits that are not taken, the significand of a numeral is at most what its
digits write. -/
theorem significand_le {n : Numeral} (h : n.WellFormed) {whole taken significand places : Nat}
    (hwhole : appendDigits 0 n.whole = (whole, taken))
    (hfraction : appendDigits whole n.fraction = (significand, places)) :
    significand * 10 ^ (n.whole.length - taken) * 10 ^ (n.fraction.length - places) ≤
      Nat.ofDigitChars 10 (n.whole ++ n.fraction) 0 := by
  obtain ⟨htaken, hwholeLe⟩ := appendDigits_le n.whole 0
  obtain ⟨hplaces, hfractionLe⟩ := appendDigits_le n.fraction whole
  have hvalue := @eq_of_appendDigits n.whole 0
  have huntaken := @bound_le_of_untaken n.whole 0
  have hlt := appendDigits_lt h.fraction whole
  have hbound := @appendDigits_lt_bound n.fraction h.fraction whole
  simp only [hwhole, hfraction] at htaken hwholeLe hplaces hfractionLe hvalue huntaken hlt hbound
  rw [Nat.ofDigitChars_append]
  cases hrest : n.whole.length - taken with
  | zero =>
    have hall : taken = n.whole.length := by omega
    rwa [Nat.pow_zero, Nat.mul_one, ← (hvalue hall).1]
  | succ rest =>
    rw [hrest] at hwholeLe
    rw [Nat.ofDigitChars_eq_ofDigitChars_zero]
    refine Nat.le_add_right_of_le ?_
    -- A digit behind the point may be taken where one in front of it is not, if it is smaller.
    cases places with
    | zero =>
      have hsame : significand ≤ whole := by omega
      calc significand * 10 ^ (rest + 1) * 10 ^ n.fraction.length
        _ ≤ Nat.ofDigitChars 10 n.whole 0 * 10 ^ n.fraction.length :=
          Nat.mul_le_mul_right _ (Nat.le_trans (Nat.mul_le_mul_right _ hsame) hwholeLe)
        _ = 10 ^ n.fraction.length * Nat.ofDigitChars 10 n.whole 0 := Nat.mul_comm _ _
    | succ places =>
      calc significand * 10 ^ (rest + 1) * 10 ^ (n.fraction.length - (places + 1))
        _ ≤ significandBound * 10 ^ places * 10 ^ (rest + 1) *
            10 ^ (n.fraction.length - (places + 1)) :=
          Nat.mul_le_mul_right _ (Nat.mul_le_mul_right _ (hbound rfl).le)
        _ = 10 ^ (places + 1 + (n.fraction.length - (places + 1))) *
            (significandBound * 10 ^ rest) := by
          rw [Nat.pow_add]
          ring
        _ = 10 ^ n.fraction.length * (significandBound * 10 ^ rest) := by
          rw [Nat.add_sub_cancel' hplaces]
        _ ≤ 10 ^ n.fraction.length * Nat.ofDigitChars 10 n.whole 0 :=
          Nat.mul_le_mul_left _ (huntaken hrest)

/-! ## Numerals -/

/-- Every numeral is in range whose magnitude is at most the double two below the greatest one. -/
theorem inRange_of_magnitude_le {n : Numeral} (h : n.WellFormed)
    (hle : n.magnitude ≤ (2 ^ 53 - 3) * 2 ^ 971) : InRange n := by
  rw [InRange, Number.ofNumeral?]
  cases hwhole : appendDigits 0 n.whole with | mk whole taken =>
  cases hfraction : appendDigits whole n.fraction with | mk significand places =>
  have hsignificand := significand_le h hwhole hfraction
  have hplaces := (appendDigits_le n.fraction whole).1
  simp only [hfraction] at hplaces ⊢
  split
  · rfl
  · rw [Option.isSome_map, scale?]
    generalize n.whole.length - taken = zeros at hsignificand ⊢
    split
    · rfl
    · rename_i hexponent
      generalize he : (zeros : Int) - places + exponentValue n.exponent = exponent at hexponent ⊢
      obtain ⟨power, rfl⟩ := Int.eq_ofNat_of_zero_le (Int.not_lt.mp hexponent)
      refine scaleUp?_isSome ?_
      have hscaled : (significand : ℚ) * 10 ^ power ≤ n.magnitude := calc
        (significand : ℚ) * 10 ^ power
        _ = significand * 10 ^ zeros * 10 ^ (n.fraction.length - places) *
            10 ^ (exponentValue n.exponent - n.fraction.length) := by
          rw [← zpow_natCast, ← zpow_natCast, ← zpow_natCast, mul_assoc, mul_assoc,
            ← zpow_add₀ (by norm_num), ← zpow_add₀ (by norm_num)]
          congr 2
          omega
        _ ≤ n.magnitude :=
          mul_le_mul_of_nonneg_right (by exact_mod_cast hsignificand)
            (zpow_pos (by norm_num) _).le
      calc
        (significand : ℚ) * 10 ^ power * growth ^ 3 ≤ (2 ^ 53 - 3) * 2 ^ 971 * growth ^ 3 :=
          mul_le_mul_of_nonneg_right (hscaled.trans hle) (pow_pos growth_pos 3).le
        _ < 2 ^ 1024 := by decide +kernel

end Json

end ProtectedCall
