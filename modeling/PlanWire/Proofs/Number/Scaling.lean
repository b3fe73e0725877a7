import PlanWire.Number.Literal
import PlanWire.Proofs.Number.Rounding

/-!
# Literals of fractions have finite values

A significand of 64 bits and a power of ten are rounded once each, and their
product once more, so the product stays finite unless it comes within three
units of the largest fraction. Quotients stay finite too, also those of a power
that is itself infinite. So every value of a literal is a finite number.
-/

set_option autoImplicit false

namespace PlanWire.Number

open Float.Model Float.Model.UnpackedFloat
open Literal

theorem near_ofNat {n : Nat} (hpos : 0 < n) (hn : n < 2 ^ 64) :
    Near (Float.Model.ofNat n).unpack n := by
  have hlog : n.log2 < 64 := (Nat.log2_lt (by omega)).2 hn
  have htarget : Format.binary64.targetExponent (totalExponent n 0) = (n.log2 : Int) - 52 := by
    rw [targetExponent_eq, totalExponent]
    omega
  have hround : UnpackedFloat.ofNat Format.binary64 n = roundWithAccuracy Format.binary64 .positive
      (n <<< (52 - n.log2)) (-(52 - n.log2 : Nat)) .exact := by
    have hsign : compare (n : Int) 0 = .gt := Int.compare_eq_gt.2 (by omega)
    have hshift : (0 - ((n.log2 : Int) - 52)).toNat = 52 - n.log2 := by omega
    rw [UnpackedFloat.ofNat, UnpackedFloat.ofInt, UnpackedFloat.normalize, hsign]
    change UnpackedFloat.round Format.binary64 .positive n 0 = _
    rw [UnpackedFloat.round, htarget, decreaseExponent, hshift, zero_sub]
  rw [Float.Model.ofNat, hround]
  apply near_pack
  apply near_round
  · rw [Nat.shiftLeft_eq]
    calc 2 ^ 52 ≤ 2 ^ (n.log2 + (52 - n.log2)) := Nat.pow_le_pow_right (by decide) (by omega)
      _ = 2 ^ n.log2 * 2 ^ (52 - n.log2) := Nat.pow_add ..
      _ ≤ n * 2 ^ (52 - n.log2) := Nat.mul_le_mul_right _ (Nat.log2_self_le (by omega))
  · omega
  · rw [Nat.shiftLeft_eq, zpow_neg, zpow_natCast]
    push_cast
    rw [mul_inv_cancel_right₀ (by positivity)]
  · apply lt_overflow
    exact Nat.lt_trans hn (by decide +kernel)

theorem near_toFloat {n : Nat} (hpos : 0 < n) (hn : n < 2 ^ 64) :
    Near n.toUInt64.toFloat.toModel.unpack n := by
  have htoNat : n.toUInt64.toNat = n := Nat.mod_eq_of_lt hn
  change Near (Float.Model.ofNat n.toUInt64.toNat).unpack n
  rw [htoNat]
  exact near_ofNat hpos hn

theorem isInf_eq_false {f : Float} (h : Within 971 f.toModel.unpack) : f.isInf = false := by
  change f.toModel.unpack.isInf = false
  cases hu : f.toModel.unpack with
  | infinity s =>
    rw [hu] at h
    exact h.elim
  | _ => rfl

theorem tenTo_of_small : ∀ n < 23, (tenTo n).toModel = Float.Model.ofScientific 1 n := by
  decide +kernel

/-- The powers that are looked up are those that are computed. -/
theorem toModel_tenTo (n : Nat) : (tenTo n).toModel = Float.Model.ofScientific 1 n := by
  by_cases hn : n < 23
  · exact tenTo_of_small n hn
  · have hlarge : ¬ (1 < 2 ^ 53 ∧ n ≤ 22) := by omega
    rw [tenTo, Float.ofScientific, dif_neg hlarge]
    rfl

theorem ofScientific_one {n : Nat} (hn : n ≤ 2048) :
    Float.Model.ofScientific 1 n = Float.Model.pack
      (roundWithAccuracy Format.binary64 .positive (2 ^ 53 * 10 ^ n) (-53) .exact) := by
  have hhigh : ¬ (n : Int) > 2 ^ 11 := by omega
  have hlow : ¬ (n : Int) < -((2 : Int) ^ 11 + (Nat.log2 1 : Nat)) := by omega
  rw [Float.Model.ofScientific, UnpackedFloat.ofScientific, dif_neg (by decide), if_neg hhigh,
    if_neg hlow, if_pos (by omega)]
  rfl

theorem long_tenTo (n : Nat) : Long (tenTo n).toModel.unpack := by
  rw [toModel_tenTo]
  by_cases hn : n ≤ 2048
  · rw [ofScientific_one hn]
    apply long_pack
    apply long_round
    · have := Nat.one_le_pow n 10 (by decide)
      omega
    · decide
  · have hhigh : (n : Int) > 2 ^ 11 := by omega
    rw [Float.Model.ofScientific, UnpackedFloat.ofScientific, dif_neg (by decide), if_pos hhigh]
    exact .infinity _

theorem near_tenTo {n : Nat} (hn : n ≤ 308) : Near (tenTo n).toModel.unpack (10 ^ n) := by
  rw [toModel_tenTo, ofScientific_one (by omega)]
  apply near_pack
  apply near_round
  · have := Nat.one_le_pow n 10 (by decide)
    omega
  · decide
  · push_cast
    rw [mul_right_comm]
    norm_num
  · have hmono := @Nat.pow_le_pow_right 10 (by decide) n 308 hn
    have hlimit : 10 ^ n < (2 ^ 54 - 1) * 2 ^ 970 := Nat.lt_of_le_of_lt hmono (by decide +kernel)
    exact_mod_cast lt_overflow hlimit

theorem within_toFloat (n : Nat) : Within 12 n.toUInt64.toFloat.toModel.unpack := by
  have hsize : n.toUInt64.toNat < 2 ^ 64 := n.toUInt64.toNat_lt
  change Within 12 (Float.Model.ofNat n.toUInt64.toNat).unpack
  generalize n.toUInt64.toNat = k at hsize
  by_cases hk : k = 0
  · subst hk
    exact within_pack (by decide) (by decide) trivial
  · obtain ⟨hlong, -, s, m, e, hm, hf, hv⟩ := near_ofNat (Nat.pos_of_ne_zero hk) hsize
    rw [hf] at hlong ⊢
    cases hlong with
    | finite low high exponent =>
      refine ⟨high, ?_⟩
      have hkQ : (k : ℚ) < 2 ^ 64 := by exact_mod_cast hsize
      have hmQ : (2 : ℚ) ^ 52 ≤ m := by exact_mod_cast low
      have hpow : (0 : ℚ) < 2 ^ e := by positivity
      have hlt : (2 : ℚ) ^ e < 2 ^ (13 : Int) := by
        have hlow : (2 : ℚ) ^ 52 * 2 ^ e ≤ m * 2 ^ e := mul_le_mul_of_nonneg_right hmQ hpow.le
        rw [slack] at hv
        norm_num
        linarith
      have := (zpow_lt_zpow_iff_right₀ (by norm_num)).1 hlt
      omega

theorem within_quotient {f : Float} {bound : Int} (h : Within bound f.toModel.unpack)
    (hlow : -1074 ≤ bound) (hhigh : bound + 105 ≤ 971) (n : Nat) :
    Within (bound + 105) (f / tenTo n).toModel.unpack :=
  within_div h (long_tenTo n) hlow hhigh

theorem within_shrink {fuel : Nat} {f : Float} {bound : Int} (h : Within bound f.toModel.unpack)
    (hlow : -1074 ≤ bound) (hhigh : bound + 105 * (fuel + 1) ≤ 971) (n : Nat) :
    Within 971 (shrink fuel f n).toModel.unpack := by
  induction fuel generalizing f bound n with
  | zero => exact (within_quotient h hlow (by omega) n).mono (by omega)
  | succ fuel ih =>
    rw [shrink]
    split
    · exact (within_quotient h hlow (by omega) _).mono (by omega)
    · exact ih (within_quotient h hlow (by omega) 308) (by omega) (by push_cast at hhigh; omega) _

theorem within_scale {significand : Nat} {exponent : Int} {f : Float}
    (h : scale significand exponent = some f) : Within 971 f.toModel.unpack := by
  have hsignificand := within_toFloat significand
  simp only [scale] at h
  split at h
  · obtain rfl := Option.some.inj h
    exact within_shrink hsignificand (by decide) (by decide) _
  split at h
  · obtain rfl := Option.some.inj h
    exact hsignificand.mono (by decide)
  split at h
  · cases h
  · next hexponent =>
    split at h
    · cases h
    · next hinf =>
      obtain rfl := Option.some.inj h
      have hsmall : exponent.natAbs ≤ 308 := by omega
      have hten := (near_tenTo hsmall).within
      rcases within_mul (hsignificand.mono (by decide)) hten with hw | hi
      · exact hw
      · exact absurd hi hinf

/-- No product of a significand and a power of ten is infinite that is at most this. -/
def safe : ℚ := (2 ^ 54 - 7) * 2 ^ (970 : Int)

theorem safe_slack : safe * (slack * slack) < overflow := by
  have hunit : (0 : ℚ) < 2 ^ (970 : Int) := by positivity
  rw [safe, slack, overflow]
  generalize (2 : ℚ) ^ (970 : Int) = unit at hunit
  norm_num
  linarith

theorem safe_lt_overflow : safe < overflow := by
  have hunit : (0 : ℚ) < 2 ^ (970 : Int) := by positivity
  rw [safe, overflow]
  generalize (2 : ℚ) ^ (970 : Int) = unit at hunit
  linarith

theorem le_of_pow_le_safe {k : Nat} (h : (10 : ℚ) ^ k ≤ safe) : k ≤ 308 := by
  by_contra hlarge
  have hmono := @Nat.pow_le_pow_right 10 (by decide) 309 k (by omega)
  have hover : overflow < ((10 ^ k : Nat) : ℚ) :=
    overflow_lt (Nat.lt_of_lt_of_le (by decide +kernel) hmono)
  push_cast at hover
  exact absurd (h.trans_lt safe_lt_overflow) (not_lt.2 hover.le)

theorem scale_of_le_safe {significand : Nat} {exponent : Int} (hs : significand < 2 ^ 64)
    (h : (significand : ℚ) * 10 ^ exponent ≤ safe) :
    (scale significand exponent).isSome = true := by
  simp only [scale]
  split
  · rfl
  split
  · rfl
  next hsign hzero =>
  obtain ⟨k, rfl⟩ := Int.eq_ofNat_of_zero_le (Int.not_lt.1 hsign)
  rw [zpow_natCast] at h
  have hpos : 0 < significand := Nat.pos_of_ne_zero hzero
  have hpower : (10 : ℚ) ^ k ≤ significand * 10 ^ k := by
    have hone : (1 : ℚ) ≤ significand := by exact_mod_cast hpos
    exact le_mul_of_one_le_left (by positivity) hone
  have hk := le_of_pow_le_safe (hpower.trans h)
  rw [if_neg (by omega)]
  have hproduct : (significand : ℚ) * slack * (10 ^ k * slack) < overflow := by
    calc (significand : ℚ) * slack * (10 ^ k * slack)
        = significand * 10 ^ k * (slack * slack) := by ring
      _ ≤ safe * (slack * slack) := mul_le_mul_of_nonneg_right h (by rw [slack]; norm_num)
      _ < overflow := safe_slack
  have hmul := mul_of_near (near_toFloat hpos hs) (near_tenTo hk) hproduct
  have hfinite : (significand.toUInt64.toFloat * tenTo k).isInf = false :=
    isInf_eq_false (within_pack (by decide) le_rfl hmul)
  change (if (significand.toUInt64.toFloat * tenTo k).isInf = true then none
    else some (significand.toUInt64.toFloat * tenTo k)).isSome = true
  rw [hfinite]
  rfl

def FiniteBits (bits : UInt64) : Prop := bits.toNat / 2 ^ 52 % 2 ^ 11 ≠ 2047

theorem toNat_unpackExponent (b : BitVec 64) :
    (@unpackExponent Format.binary64 b).toNat = b.toNat / 2 ^ 52 % 2 ^ 11 := by
  change (b.toNat >>> 52) % 2 ^ 11 = _
  rw [Nat.shiftRight_eq_div_pow]

theorem finiteBits_of_within {f : Float} (h : Within 971 f.toModel.unpack) :
    FiniteBits f.toBits := by
  intro hspecial
  apply not_within_of_special _ h
  rw [toNat_unpackExponent]
  exact hspecial

theorem finiteBits_signed {negative : Bool} {f : Float} (h : Within 971 f.toModel.unpack)
    {bits : UInt64} (hb : signed negative f = .float bits) : FiniteBits bits := by
  have hneg : Within 971 (-f).toModel.unpack := by
    apply within_pack (by decide) le_rfl
    revert h
    generalize f.toModel.unpack = u
    intro h
    cases u with
    | zero s => trivial
    | finite s m e hm => exact h
    | _ => exact h.elim
  cases hb
  cases negative with
  | true => exact finiteBits_of_within hneg
  | false => exact finiteBits_of_within h

end PlanWire.Number
