import Mathlib.Algebra.Order.Field.Power
import Mathlib.Tactic.Linarith
import Mathlib.Tactic.NormNum
import Mathlib.Tactic.Positivity
import Mathlib.Tactic.Ring

/-!
# How fractions are rounded

A product or a quotient is rounded to the nearest fraction of 53 places, which
adds at most one part in 2 ^ 53 to it. A mantissa with more places than that is
shifted first; where it is rounded up to one place more it is halved again. The
result is infinite only from half a unit above the largest fraction on.
-/

set_option autoImplicit false

namespace PlanWire.Number

open Float.Model Float.Model.UnpackedFloat

/-- Everything from here on is rounded to infinity. -/
def overflow : ℚ := (2 ^ 54 - 1) * 2 ^ (970 : Int)

/-- What rounding may multiply a magnitude by. -/
def slack : ℚ := 1 + 1 / 2 ^ 53

theorem overflow_eq : overflow = (((2 ^ 54 - 1) * 2 ^ 970 : Nat) : ℚ) := by
  have hpow : (2 : ℚ) ^ (970 : Int) = ((2 ^ 970 : Nat) : ℚ) := by
    rw [Nat.cast_pow]
    exact zpow_natCast 2 970
  have hmantissa : ((2 ^ 54 - 1 : Nat) : ℚ) = 2 ^ 54 - 1 := by norm_num
  rw [overflow, hpow, Nat.cast_mul, hmantissa]

theorem lt_overflow {n : Nat} (h : n < (2 ^ 54 - 1) * 2 ^ 970) : (n : ℚ) < overflow := by
  rw [overflow_eq]
  exact Nat.cast_lt.2 h

theorem overflow_lt {n : Nat} (h : (2 ^ 54 - 1) * 2 ^ 970 < n) : overflow < (n : ℚ) := by
  rw [overflow_eq]
  exact Nat.cast_lt.2 h

section Mantissa

theorem shifted_mantissa (em : ExtendedMantissa) (k : Nat) :
    (em >>> k).mantissa = em.mantissa / 2 ^ k := by
  induction k with
  | zero => simp [HShiftRight.hShiftRight, Nat.repeat]
  | succ k ih =>
    change (em >>> k).mantissa / 2 = _
    rw [ih, Nat.div_div_eq_div_mul, Nat.pow_succ]

theorem shifted_roundBit_le (m k : Nat) :
    (2 * ((⟨m, false, false⟩ : ExtendedMantissa) >>> k).mantissa +
      ((⟨m, false, false⟩ : ExtendedMantissa) >>> k).roundBit.toNat) * 2 ^ k ≤ 2 * m := by
  cases k with
  | zero => simp [HShiftRight.hShiftRight, Nat.repeat]
  | succ k =>
    have hbit : ((⟨m, false, false⟩ : ExtendedMantissa) >>> (k + 1)).roundBit =
        ((m / 2 ^ k) % 2 != 0) := by
      change (((⟨m, false, false⟩ : ExtendedMantissa) >>> k).mantissa % 2 != 0) = _
      rw [shifted_mantissa]
    have hnat : ((m / 2 ^ k) % 2 != 0).toNat = (m / 2 ^ k) % 2 := by
      rcases Nat.mod_two_eq_zero_or_one (m / 2 ^ k) with h | h <;> rw [h] <;> rfl
    rw [shifted_mantissa, hbit, hnat, Nat.pow_succ, ← Nat.div_div_eq_div_mul]
    have hsplit : 2 * (m / 2 ^ k / 2) + m / 2 ^ k % 2 = m / 2 ^ k := Nat.div_add_mod _ _
    have hle : m / 2 ^ k * 2 ^ k ≤ m := Nat.div_mul_le_self _ _
    calc (2 * (m / 2 ^ k / 2) + m / 2 ^ k % 2) * (2 ^ k * 2)
        = 2 * (m / 2 ^ k * 2 ^ k) := by rw [hsplit]; ring
      _ ≤ 2 * m := Nat.mul_le_mul_left 2 hle

theorem roundedMantissa_bounds (em : ExtendedMantissa) :
    em.mantissa ≤ em.roundedMantissa ∧ em.roundedMantissa ≤ em.mantissa + em.roundBit.toNat := by
  obtain ⟨m, r, s⟩ := em
  cases r <;> cases s <;> simp [ExtendedMantissa.roundedMantissa, ExtendedMantissa.accuracy,
    Accuracy.roundToNearestEven]
  omega

theorem twice_rounded_le (m k : Nat) :
    2 * ((⟨m, false, false⟩ : ExtendedMantissa) >>> k).roundedMantissa * 2 ^ k ≤ 2 * m + 2 ^ k := by
  have hround := (roundedMantissa_bounds ((⟨m, false, false⟩ : ExtendedMantissa) >>> k)).2
  have hbits := shifted_roundBit_le m k
  set em := (⟨m, false, false⟩ : ExtendedMantissa) >>> k
  have hone : em.roundBit.toNat ≤ 1 := Bool.toNat_le _
  calc 2 * em.roundedMantissa * 2 ^ k
      ≤ (2 * em.mantissa + em.roundBit.toNat + 1) * 2 ^ k :=
        Nat.mul_le_mul_right _ (by omega)
    _ = (2 * em.mantissa + em.roundBit.toNat) * 2 ^ k + 2 ^ k := Nat.succ_mul _ _
    _ ≤ 2 * m + 2 ^ k := Nat.add_le_add_right hbits _

end Mantissa

def dropped (m : Nat) (e : Int) : Nat :=
  (Format.binary64.targetExponent (totalExponent m e) - e).toNat

def rounded (m : Nat) (e : Int) (a : Accuracy) : Nat :=
  (ExtendedMantissa.ofMantissaAndAccuracy m a >>> dropped m e).roundedMantissa

theorem targetExponent_eq (n : Int) :
    Format.binary64.targetExponent n = max (n - 53) (-1074) := rfl

theorem dropped_eq (m : Nat) (e : Int) :
    (dropped m e : Int) = max (max ((m.log2 : Int) - 52) (-1074 - e)) 0 := by
  rw [dropped, targetExponent_eq, totalExponent]
  omega

theorem rounded_bounds (m : Nat) (e : Int) (a : Accuracy) :
    m / 2 ^ dropped m e ≤ rounded m e a ∧ rounded m e a ≤ 2 ^ 53 := by
  have hmantissa : (ExtendedMantissa.ofMantissaAndAccuracy m a >>> dropped m e).mantissa =
      m / 2 ^ dropped m e := by
    rw [shifted_mantissa]
    cases a with
    | exact => rfl
    | inexact o => cases o <;> rfl
  obtain ⟨hlow, hhigh⟩ :=
    roundedMantissa_bounds (ExtendedMantissa.ofMantissaAndAccuracy m a >>> dropped m e)
  rw [hmantissa] at hlow hhigh
  have hlog : m.log2 + 1 ≤ 53 + dropped m e := by
    have hdropped := dropped_eq m e
    omega
  have hfits : m / 2 ^ dropped m e < 2 ^ 53 := by
    rw [Nat.div_lt_iff_lt_mul (Nat.two_pow_pos _), ← Nat.pow_add]
    exact Nat.lt_of_lt_of_le Nat.lt_log2_self (Nat.pow_le_pow_right (by decide) hlog)
  have hone := Bool.toNat_le (ExtendedMantissa.ofMantissaAndAccuracy m a >>> dropped m e).roundBit
  refine ⟨hlow, ?_⟩
  change (ExtendedMantissa.ofMantissaAndAccuracy m a >>> dropped m e).roundedMantissa ≤ 2 ^ 53
  omega

theorem shift_of_fits {m : Nat} {e : Int} (hm : m < 2 ^ 53) (he : -1074 ≤ e) :
    shiftToTargetExponent Format.binary64 m e .exact = (⟨m, false, false⟩, e) := by
  have hlog : m.log2 ≤ 52 := by
    by_cases h : m = 0
    · simp [h]
    · have := (Nat.log2_lt h).2 hm
      omega
  have hdropped : dropped m e = 0 := by
    have := dropped_eq m e
    omega
  change ((⟨m, false, false⟩ : ExtendedMantissa) >>> dropped m e, e + (dropped m e : Int)) = _
  rw [hdropped]
  simp [HShiftRight.hShiftRight, Nat.repeat]

theorem shift_of_carry {e : Int} (he : -1074 ≤ e) :
    shiftToTargetExponent Format.binary64 (2 ^ 53) e .exact = (⟨2 ^ 52, false, false⟩, e + 1) := by
  have hdropped : dropped (2 ^ 53) e = 1 := by
    have := dropped_eq (2 ^ 53) e
    rw [Nat.log2_two_pow] at this
    omega
  change ((⟨2 ^ 53, false, false⟩ : ExtendedMantissa) >>> dropped (2 ^ 53) e,
    e + (dropped (2 ^ 53) e : Int)) = _
  rw [hdropped]
  rfl

/-- Rounding gives zero, the rounded mantissa, or half of it where it got one place too long. -/
theorem round_cases {P : UnpackedFloat → Prop} {s : Sign} {m : Nat} {e : Int} {a : Accuracy}
    (zero : rounded m e a = 0 → P (.zero s))
    (fits : ∀ hpos : 0 < rounded m e a, rounded m e a < 2 ^ 53 →
      P (.finite s (rounded m e a) (e + dropped m e) hpos))
    (carry : rounded m e a = 2 ^ 53 → P (.finite s (2 ^ 52) (e + dropped m e + 1) (by decide))) :
    P (roundWithAccuracy Format.binary64 s m e a) := by
  have hexponent : -1074 ≤ e + (dropped m e : Int) := by
    have := dropped_eq m e
    omega
  have hbound := (rounded_bounds m e a).2
  have hround : roundWithAccuracy Format.binary64 s m e a =
      if h : (shiftToTargetExponent Format.binary64 (rounded m e a) (e + (dropped m e : Int))
          .exact).1.mantissa = 0 then .zero s
      else .finite s (shiftToTargetExponent Format.binary64 (rounded m e a)
        (e + (dropped m e : Int)) .exact).1.mantissa (shiftToTargetExponent Format.binary64
          (rounded m e a) (e + (dropped m e : Int)) .exact).2 (Nat.pos_of_ne_zero h) := rfl
  rw [hround]
  by_cases hfits : rounded m e a < 2 ^ 53
  · rw [shift_of_fits hfits hexponent]
    by_cases hzero : rounded m e a = 0
    · exact dif_pos hzero ▸ zero hzero
    · exact dif_neg hzero ▸ fits (Nat.pos_of_ne_zero hzero) hfits
  · have hcarry : rounded m e a = 2 ^ 53 := by omega
    rw [hcarry, shift_of_carry hexponent]
    exact carry hcarry

def Within (bound : Int) : UnpackedFloat → Prop
  | .zero _ => True
  | .finite _ m e _ => m < 2 ^ 53 ∧ e ≤ bound
  | _ => False

theorem Within.mono {a b : Int} {f : UnpackedFloat} (h : Within a f) (hab : a ≤ b) :
    Within b f := by
  cases f with
  | finite s m e hm => exact ⟨h.1, Int.le_trans h.2 hab⟩
  | _ => exact h

theorem unpack_normal {b : BitVec 64} {m : Nat} {e : Int} (hm : 0 < m)
    (hones : @unpackExponent Format.binary64 b ≠ -1#_)
    (hzero : @unpackExponent Format.binary64 b ≠ 0#_)
    (hmantissa : 2 ^ 52 + (@unpackMantissa Format.binary64 b).toNat = m)
    (hexponent : ((@unpackExponent Format.binary64 b).toNat : Int) - 1075 = e) :
    ∃ s, UnpackedFloat.unpack Format.binary64 b = .finite s m e hm := by
  have hlt := (@unpackMantissa Format.binary64 b).isLt
  change _ < 2 ^ 52 at hlt
  refine ⟨Sign.ofBitVec (@unpackSign Format.binary64 b), ?_⟩
  unfold UnpackedFloat.unpack
  dsimp only
  rw [if_neg hones, if_neg hzero]
  congr 1
  rw [BitVec.toNat_append, ← Nat.shiftLeft_add_eq_or_of_lt (by exact hlt)]
  exact hmantissa

theorem within_unpack {bound : Int} (hbound : -1074 ≤ bound) {b : BitVec 64}
    (hb : (@unpackExponent Format.binary64 b).toNat ≠ 2047)
    (hle : ((@unpackExponent Format.binary64 b).toNat : Int) ≤ bound + 1075) :
    Within bound (UnpackedFloat.unpack Format.binary64 b) := by
  have hmantissa := (@unpackMantissa Format.binary64 b).isLt
  change _ < 2 ^ 52 at hmantissa
  have hones : @unpackExponent Format.binary64 b ≠ -1#_ := fun h => hb (congrArg BitVec.toNat h)
  by_cases hzero : @unpackExponent Format.binary64 b = 0#_
  · unfold UnpackedFloat.unpack
    dsimp only
    rw [if_neg hones, if_pos hzero]
    by_cases hnothing : @unpackMantissa Format.binary64 b = 0#_
    · rw [dif_pos hnothing]
      trivial
    · rw [dif_neg hnothing]
      refine ⟨by omega, ?_⟩
      rw [hzero]
      change (0 : Int) - (1023 + 52) + 1 ≤ bound
      omega
  · obtain ⟨s, hs⟩ := unpack_normal (by omega) hones hzero rfl rfl
    rw [hs]
    exact ⟨by omega, by omega⟩

theorem not_within_of_special {bound : Int} {b : BitVec 64}
    (hb : (@unpackExponent Format.binary64 b).toNat = 2047) :
    ¬ Within bound (UnpackedFloat.unpack Format.binary64 b) := by
  have hones : @unpackExponent Format.binary64 b = -1#_ := BitVec.eq_of_toNat_eq hb
  unfold UnpackedFloat.unpack
  dsimp only
  rw [if_pos hones]
  by_cases hnothing : @unpackMantissa Format.binary64 b = 0#_
  · exact if_pos hnothing ▸ id
  · exact if_neg hnothing ▸ id

theorem unpackExponent_pack (s : Sign) {m : Nat} {e : Int} (hm : 0 < m) (he : e ≤ 971) :
    (@unpackExponent Format.binary64 (UnpackedFloat.pack Format.binary64
      (.finite s m e hm))).toNat = if m.log2 = 52 then (e + 1075).toNat else 0 := by
  have hroom : ¬ 2 ^ 11 ≤ (e + (1023 : Nat) + (52 : Nat)).toNat + 1 := by
    norm_num
    omega
  change (@unpackExponent Format.binary64 (if 2 ^ 11 ≤ (e + (1023 : Nat) +
    (52 : Nat)).toNat + 1 then packedInfinity Format.binary64 s else if m.log2 + 1 = 53 then
      packComponents Format.binary64 s (BitVec.ofNat _ (e + (1023 : Nat) + (52 : Nat)).toNat)
        (BitVec.ofNat _ m) else packComponents Format.binary64 s 0 (BitVec.ofNat _ m))).toNat = _
  rw [if_neg hroom]
  by_cases hlog : m.log2 = 52
  · rw [if_pos (by omega), if_pos hlog, unpackExponent_packComponents]
    change (e + (1023 : Nat) + (52 : Nat)).toNat % 2 ^ 11 = _
    omega
  · rw [if_neg (by omega), if_neg hlog, unpackExponent_packComponents]
    rfl

theorem within_pack {bound : Int} (hlow : -1074 ≤ bound) (hhigh : bound ≤ 971) {f : UnpackedFloat}
    (h : Within bound f) : Within bound (Float.Model.pack f).unpack := by
  cases f with
  | zero s => cases s <;> exact within_unpack hlow (by decide) (by
      change ((0 : Nat) : Int) ≤ _
      omega)
  | finite s m e hm =>
    have he := h.2
    have hexponent := unpackExponent_pack s hm (Int.le_trans he hhigh)
    apply within_unpack hlow
    · change (@unpackExponent Format.binary64
        (UnpackedFloat.pack Format.binary64 (.finite s m e hm))).toNat ≠ _
      rw [hexponent]
      split <;> omega
    · change ((@unpackExponent Format.binary64
        (UnpackedFloat.pack Format.binary64 (.finite s m e hm))).toNat : Int) ≤ _
      rw [hexponent]
      split <;> omega
  | infinity s => exact h.elim
  | notANumber => exact h.elim

theorem unpack_pack_normal (s : Sign) {m : Nat} {e : Int} (hm : 0 < m) (hlow : 2 ^ 52 ≤ m)
    (hhigh : m < 2 ^ 53) (he : -1074 ≤ e) (htop : e ≤ 971) :
    ∃ t, (Float.Model.pack (.finite s m e hm)).unpack = .finite t m e hm := by
  have hlog : m.log2 = 52 := (Nat.log2_eq_iff (by omega)).2 ⟨hlow, hhigh⟩
  have hexponent := unpackExponent_pack s hm htop
  rw [if_pos hlog] at hexponent
  have hmantissa : (@unpackMantissa Format.binary64 (UnpackedFloat.pack Format.binary64
      (.finite s m e hm))).toNat = m - 2 ^ 52 := by
    have hroom : ¬ 2 ^ 11 ≤ (e + (1023 : Nat) + (52 : Nat)).toNat + 1 := by
      norm_num
      omega
    have hplaces : m.log2 + 1 = 53 := by omega
    change (@unpackMantissa Format.binary64 (if 2 ^ 11 ≤ (e + (1023 : Nat) +
      (52 : Nat)).toNat + 1 then packedInfinity Format.binary64 s else if m.log2 + 1 = 53 then
        packComponents Format.binary64 s (BitVec.ofNat _ (e + (1023 : Nat) + (52 : Nat)).toNat)
          (BitVec.ofNat _ m) else packComponents Format.binary64 s 0 (BitVec.ofNat _ m))).toNat = _
    rw [if_neg hroom, if_pos hplaces, unpackMantissa_packComponents]
    change m % 2 ^ 52 = _
    omega
  change ∃ t, UnpackedFloat.unpack Format.binary64 (UnpackedFloat.pack Format.binary64
    (.finite s m e hm)) = _
  generalize UnpackedFloat.pack Format.binary64 (.finite s m e hm) = b at hexponent hmantissa
  have hones : @unpackExponent Format.binary64 b ≠ -1#_ := by
    intro h
    have := congrArg BitVec.toNat h
    rw [hexponent] at this
    change (e + 1075).toNat = 2047 at this
    omega
  have hzero : @unpackExponent Format.binary64 b ≠ 0#_ := by
    intro h
    have := congrArg BitVec.toNat h
    rw [hexponent] at this
    change (e + 1075).toNat = 0 at this
    omega
  exact unpack_normal hm hones hzero (by omega) (by omega)

section Long

variable {m : Nat} {e : Int} (hm : 2 ^ 52 ≤ m) (he : -1074 ≤ e)

include hm he

theorem log2_of_long : m.log2 = 52 + dropped m e := by
  have hlog : 52 ≤ m.log2 := (Nat.le_log2 (by omega)).2 hm
  have hdropped := dropped_eq m e
  omega

theorem kept_le : 2 ^ 52 * 2 ^ dropped m e ≤ m := by
  rw [← Nat.pow_add, ← log2_of_long hm he]
  exact Nat.log2_self_le (by omega)

theorem le_rounded (a : Accuracy) : 2 ^ 52 ≤ rounded m e a :=
  Nat.le_trans ((Nat.le_div_iff_mul_le (Nat.two_pow_pos _)).2 (kept_le hm he))
    (rounded_bounds m e a).1

theorem rounded_value_le :
    (rounded m e .exact : ℚ) * 2 ^ (e + dropped m e) ≤ m * 2 ^ e * slack := by
  have hkept : (2 : ℚ) ^ 52 * 2 ^ dropped m e ≤ m := by exact_mod_cast kept_le hm he
  have htwice : 2 * (rounded m e .exact : ℚ) * 2 ^ dropped m e ≤ 2 * m + 2 ^ dropped m e := by
    exact_mod_cast twice_rounded_le m (dropped m e)
  have hrounded : (rounded m e .exact : ℚ) * 2 ^ dropped m e ≤ m * slack := by
    rw [slack]
    linarith
  calc (rounded m e .exact : ℚ) * 2 ^ (e + dropped m e)
      = rounded m e .exact * 2 ^ dropped m e * 2 ^ e := by
        rw [zpow_add₀ (by norm_num), zpow_natCast]
        ring
    _ ≤ m * slack * 2 ^ e := mul_le_mul_of_nonneg_right hrounded (by positivity)
    _ = m * 2 ^ e * slack := by ring

/-- A mantissa that is rounded up to the next place was within half a unit of it. -/
theorem exponent_le (hv : (m : ℚ) * 2 ^ e < overflow) :
    e + dropped m e ≤ 971 ∧ (rounded m e .exact = 2 ^ 53 → e + dropped m e + 1 ≤ 971) := by
  have hscale : (2 : ℚ) ^ (e + dropped m e) = 2 ^ dropped m e * 2 ^ e := by
    rw [zpow_add₀ (by norm_num), zpow_natCast, mul_comm]
  have hpow : (0 : ℚ) ≤ 2 ^ e := by positivity
  have hbig (c : ℚ) (hc : c * 2 ^ dropped m e ≤ m) : c * 2 ^ (e + dropped m e) < overflow := by
    calc c * 2 ^ (e + dropped m e) = c * 2 ^ dropped m e * 2 ^ e := by
          rw [hscale]
          ring
      _ ≤ m * 2 ^ e := mul_le_mul_of_nonneg_right hc hpow
      _ < overflow := hv
  constructor
  · have hkept : (2 : ℚ) ^ 52 * 2 ^ dropped m e ≤ m := by exact_mod_cast kept_le hm he
    have hlt : (2 : ℚ) ^ (e + dropped m e) < 2 ^ (972 : Int) := by
      have htop : (972 : Int) = 970 + 1 + 1 := rfl
      have hover := hbig _ hkept
      have hunit : (0 : ℚ) < 2 ^ (970 : Int) := by positivity
      rw [overflow] at hover
      rw [htop, zpow_add_one₀ (by norm_num), zpow_add_one₀ (by norm_num)]
      generalize (2 : ℚ) ^ (970 : Int) = unit at hover hunit
      generalize (2 : ℚ) ^ (e + dropped m e) = value at hover
      linarith
    have := (zpow_lt_zpow_iff_right₀ (by norm_num)).1 hlt
    omega
  · intro hcarry
    have htwice : 2 * (2 : ℚ) ^ 53 * 2 ^ dropped m e ≤ 2 * m + 2 ^ dropped m e := by
      have htwice := twice_rounded_le m (dropped m e)
      change 2 * rounded m e .exact * 2 ^ dropped m e ≤ _ at htwice
      rw [hcarry] at htwice
      exact_mod_cast htwice
    have hover := hbig ((2 ^ 54 - 1) / 2) (by linarith)
    have hlt : (2 : ℚ) ^ (e + dropped m e) < 2 ^ (971 : Int) := by
      have htop : (971 : Int) = 970 + 1 := rfl
      rw [htop, zpow_add_one₀ (by norm_num)]
      rw [overflow] at hover
      linarith
    have := (zpow_lt_zpow_iff_right₀ (by norm_num)).1 hlt
    omega

end Long

inductive Long : UnpackedFloat → Prop
  | finite {s : Sign} {m : Nat} {e : Int} {hm : 0 < m} (low : 2 ^ 52 ≤ m) (high : m < 2 ^ 53)
      (exponent : -104 ≤ e) : Long (.finite s m e hm)
  | infinity (s : Sign) : Long (.infinity s)

/-- A finite one that is no larger than the number rounded to it, but for the rounding. -/
structure Near (f : UnpackedFloat) (x : ℚ) : Prop where
  long : Long f
  within : Within 971 f
  value : ∃ s m e hm, f = .finite s m e hm ∧ (m : ℚ) * 2 ^ e ≤ x * slack

theorem long_round {s : Sign} {m : Nat} {e : Int} (hm : 2 ^ 52 ≤ m) (he : -104 ≤ e) (a : Accuracy) :
    Long (roundWithAccuracy Format.binary64 s m e a) := by
  have hlow : 2 ^ 52 ≤ rounded m e a := le_rounded hm (by omega) a
  refine round_cases (P := Long) (fun hzero => ?_) (fun _ hfits => ?_) (fun _ => ?_)
  · omega
  · exact .finite hlow hfits (by omega)
  · exact .finite le_rfl (by decide) (by omega)

theorem within_round (s : Sign) {m : Nat} {e bound : Int} (a : Accuracy)
    (h : e + dropped m e + 1 ≤ bound) :
    Within bound (roundWithAccuracy Format.binary64 s m e a) := by
  refine round_cases (P := Within bound) (fun _ => trivial) (fun _ hfits => ?_) (fun _ => ?_)
  · exact ⟨hfits, by omega⟩
  · exact ⟨by decide, h⟩

theorem within_round_of_lt {s : Sign} {m : Nat} {e : Int} (hm : 2 ^ 52 ≤ m) (he : -1074 ≤ e)
    (hv : (m : ℚ) * 2 ^ e < overflow) :
    Within 971 (roundWithAccuracy Format.binary64 s m e .exact) := by
  obtain ⟨hexponent, hcarry⟩ := exponent_le hm he hv
  refine round_cases (P := Within 971) (fun _ => trivial) (fun _ hfits => ?_) (fun hfull => ?_)
  · exact ⟨hfits, hexponent⟩
  · exact ⟨by decide, hcarry (by omega)⟩

theorem near_round {s : Sign} {m : Nat} {e : Int} (hm : 2 ^ 52 ≤ m) (he : -104 ≤ e) {x : ℚ}
    (hx : (m : ℚ) * 2 ^ e ≤ x) (hlimit : x < overflow) :
    Near (roundWithAccuracy Format.binary64 s m e .exact) x where
  long := long_round hm he .exact
  within := within_round_of_lt hm (by omega) (lt_of_le_of_lt hx hlimit)
  value := by
    have he' : -1074 ≤ e := by omega
    have hlow : 2 ^ 52 ≤ rounded m e .exact := le_rounded hm he' .exact
    have hvalue : (rounded m e .exact : ℚ) * 2 ^ (e + dropped m e) ≤ x * slack :=
      (rounded_value_le hm he').trans
        (mul_le_mul_of_nonneg_right hx (by rw [slack]; norm_num))
    have hhalf (hr : rounded m e .exact = 2 ^ 53) :
        ((2 ^ 52 : Nat) : ℚ) * 2 ^ (e + dropped m e + 1) =
          rounded m e .exact * 2 ^ (e + dropped m e) := by
      rw [zpow_add_one₀ (by norm_num), hr]
      push_cast
      ring
    refine round_cases
      (P := fun f => ∃ s m e hm, f = .finite s m e hm ∧ (m : ℚ) * 2 ^ e ≤ x * slack)
      (fun hzero => ?_) (fun _ _ => ?_) (fun hfull => ?_)
    · omega
    · exact ⟨s, _, _, _, rfl, hvalue⟩
    · exact ⟨s, _, _, _, rfl, (hhalf hfull).symm ▸ hvalue⟩

theorem infinite_pack (s : Sign) {m : Nat} {e : Int} (hm : 0 < m) (he : 971 < e) :
    ∃ t, (Float.Model.pack (.finite s m e hm)).unpack = .infinity t := by
  have hroom : 2 ^ 11 ≤ (e + (1023 : Nat) + (52 : Nat)).toNat + 1 := by
    norm_num
    omega
  have hpack : UnpackedFloat.pack Format.binary64 (.finite s m e hm) =
      packedInfinity Format.binary64 s := if_pos hroom
  change ∃ t, UnpackedFloat.unpack Format.binary64 (UnpackedFloat.pack Format.binary64 _) = _
  rw [hpack]
  cases s <;> exact ⟨_, rfl⟩

theorem long_pack {f : UnpackedFloat} (h : Long f) : Long (Float.Model.pack f).unpack := by
  cases h with
  | @finite s m e hm low high exponent =>
    by_cases he : e ≤ 971
    · obtain ⟨t, ht⟩ := unpack_pack_normal s hm low high (by omega) he
      rw [ht]
      exact .finite low high exponent
    · obtain ⟨t, ht⟩ := infinite_pack s hm (Int.not_le.1 he)
      rw [ht]
      exact .infinity t
  | infinity s => cases s <;> exact .infinity _

theorem near_pack {f : UnpackedFloat} {x : ℚ} (h : Near f x) :
    Near (Float.Model.pack f).unpack x := by
  obtain ⟨hlong, hwithin, s, m, e, hm, rfl, hv⟩ := h
  cases hlong with
  | finite low high exponent =>
    obtain ⟨t, ht⟩ := unpack_pack_normal s hm low high (by omega) hwithin.2
    rw [ht]
    exact ⟨.finite low high exponent, hwithin, t, m, e, hm, rfl, hv⟩

theorem mul_of_near {f g : UnpackedFloat} {x y : ℚ} (hf : Near f x) (hg : Near g y)
    (hlimit : x * slack * (y * slack) < overflow) :
    Within 971 (UnpackedFloat.mul Format.binary64 f g) := by
  obtain ⟨hf, -, s, m, e, hm, rfl, hx⟩ := hf
  obtain ⟨hg, -, t, n, d, hn, rfl, hy⟩ := hg
  cases hf with
  | finite mlow mhigh elow => cases hg with
    | finite nlow nhigh dlow =>
      apply within_round_of_lt
      · calc 2 ^ 52 ≤ m * 1 := by omega
          _ ≤ m * n := Nat.mul_le_mul_left m hn
      · omega
      · calc ((m * n : Nat) : ℚ) * 2 ^ (e + d) = m * 2 ^ e * (n * 2 ^ d) := by
              rw [zpow_add₀ (by norm_num)]
              push_cast
              ring
          _ ≤ x * slack * (y * slack) := by
              have hm' : (0 : ℚ) ≤ m * 2 ^ e := by positivity
              have hn' : (0 : ℚ) ≤ n * 2 ^ d := by positivity
              exact mul_le_mul hx hy hn' (hm'.trans hx)
          _ < overflow := hlimit

/-- A product is a finite fraction or infinity. -/
theorem within_mul {f g : UnpackedFloat} (hf : Within 971 f) (hg : Within 971 g) :
    Within 971 (Float.Model.pack (UnpackedFloat.mul Format.binary64 f g)).unpack ∨
      (Float.Model.pack (UnpackedFloat.mul Format.binary64 f g)).isInf = true := by
  have hpack (u : UnpackedFloat) (hu : ∃ bound, Within bound u) :
      Within 971 (Float.Model.pack u).unpack ∨ (Float.Model.pack u).isInf = true := by
    obtain ⟨bound, hu⟩ := hu
    cases u with
    | zero s => exact .inl (within_pack (by decide) le_rfl trivial)
    | finite s m e hm =>
      by_cases he : e ≤ 971
      · exact .inl (within_pack (by decide) le_rfl ⟨hu.1, he⟩)
      · obtain ⟨t, ht⟩ := infinite_pack s hm (Int.not_le.1 he)
        right
        rw [Float.Model.isInf, ht]
        rfl
    | infinity s => exact hu.elim
    | notANumber => exact hu.elim
  apply hpack
  cases f with
  | zero s => cases g with
    | zero t => exact ⟨0, trivial⟩
    | finite t m e hm => exact ⟨0, trivial⟩
    | _ => exact hg.elim
  | finite s m e hm => cases g with
    | zero t => exact ⟨0, trivial⟩
    | finite t n d hn => exact ⟨_, within_round (s * t) .exact le_rfl⟩
    | _ => exact hg.elim
  | _ => exact hf.elim

theorem within_div {f g : UnpackedFloat} {bound : Int} (hf : Within bound f) (hg : Long g)
    (hlow : -1074 ≤ bound) (hhigh : bound + 105 ≤ 971) :
    Within (bound + 105) (Float.Model.pack (UnpackedFloat.div Format.binary64 f g)).unpack := by
  apply within_pack (by omega) hhigh
  cases hg with
  | infinity t => cases f with
    | zero s => trivial
    | finite s m e hm => trivial
    | _ => exact hf.elim
  | @finite t n d hn low high exponent => cases f with
    | zero s => trivial
    | finite s m e hm =>
      obtain ⟨hm', he⟩ := hf
      change Within _ (roundWithAccuracy _ _ _ _ _)
      apply within_round
      change (divCore Format.binary64 m e n d).2.1 +
        dropped (divCore Format.binary64 m e n d).1 (divCore Format.binary64 m e n d).2.1 + 1 ≤ _
      rw [divCore]
      set target := min (e - d)
        (Format.binary64.targetExponent (totalExponent m e - totalExponent n d)) with htarget
      dsimp only
      set shift := (e - d - target).toNat with hshift
      have hle : target ≤ e - d := min_le_left _ _
      have hquotient : (m <<< shift) / n < 2 ^ (shift + 1) := by
        rw [Nat.shiftLeft_eq, Nat.div_lt_iff_lt_mul hn]
        calc m * 2 ^ shift < 2 ^ 53 * 2 ^ shift :=
              Nat.mul_lt_mul_of_pos_right hm' (Nat.two_pow_pos _)
          _ = 2 ^ (shift + 1) * 2 ^ 52 := by ring
          _ ≤ 2 ^ (shift + 1) * n := Nat.mul_le_mul_left _ low
      have hlog : ((m <<< shift) / n).log2 ≤ shift := by
        by_cases h : (m <<< shift) / n = 0
        · rw [h]
          exact Nat.zero_le _
        · exact Nat.lt_succ_iff.1 ((Nat.log2_lt h).2 hquotient)
      have hdropped := dropped_eq ((m <<< shift) / n) target
      omega
    | _ => exact hf.elim

end PlanWire.Number
