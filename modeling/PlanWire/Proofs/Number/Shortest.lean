import Mathlib.Algebra.Order.Field.Power
import Mathlib.Data.Nat.Cast.Order.Field
import Mathlib.Tactic.Linarith
import Mathlib.Tactic.LinearCombination
import Mathlib.Tactic.NormNum
import Mathlib.Tactic.Positivity
import PlanWire.Proofs.Number.Digits

/-!
# The shortest decimal stays within half a unit

The search goes down from the largest power of ten that is no larger than the
magnitude, so there are digits at its end whatever grid it stops at. What it
stops at rounds to the magnitude or lies below it, and is therefore at most half
a unit of the last place above it.
-/

set_option autoImplicit false

namespace PlanWire.Number

def Decimal.worth (d : Decimal) : ℚ := d.digits * 10 ^ d.scale

def Magnitude.worth (m : Magnitude) : ℚ := m.mantissa * 2 ^ m.exponent

theorem pow_toNat {b : ℚ} (hb : b ≠ 0) (i : Int) : b ^ (-i).toNat * b ^ i = b ^ i.toNat := by
  rw [← zpow_natCast, ← zpow_natCast, ← zpow_add₀ hb]
  congr 1
  omega

theorem gridStep_worth (exponent scale : Int) :
    ((gridStep exponent scale).1 : ℚ) * 10 ^ scale * 4 =
      (gridStep exponent scale).2 * 2 ^ exponent := by
  have htwo := pow_toNat (two_ne_zero (α := ℚ)) (exponent - 2)
  have hten := pow_toNat (b := 10) (by norm_num) scale
  have hsplit : (2 : ℚ) ^ exponent = 2 ^ (exponent - 2) * 4 := by
    rw [zpow_sub₀ two_ne_zero]
    norm_num
  simp only [gridStep, Nat.pow_eq]
  push_cast
  rw [hsplit, ← htwo, ← hten]
  ring

theorem gridStep_pos (exponent scale : Int) : 0 < (gridStep exponent scale).2 :=
  Nat.mul_pos (Nat.pow_pos (by decide)) (Nat.pow_pos (by decide))

variable {m : Magnitude}

theorem units_le {scale : Int} {d quarters : Nat}
    (h : d * (gridStep m.exponent scale).2 ≤ quarters * (gridStep m.exponent scale).1) :
    (d : ℚ) * 10 ^ scale ≤ quarters / 4 * 2 ^ m.exponent := by
  have hstep := gridStep_worth m.exponent scale
  have hpos : (0 : ℚ) < (gridStep m.exponent scale).2 := by exact_mod_cast gridStep_pos _ _
  have hpow : (0 : ℚ) < 10 ^ scale := by positivity
  have hq : (d : ℚ) * (gridStep m.exponent scale).2 ≤ quarters * (gridStep m.exponent scale).1 := by
    exact_mod_cast h
  apply le_of_mul_le_mul_right _ hpos
  calc (d : ℚ) * 10 ^ scale * (gridStep m.exponent scale).2
      = d * (gridStep m.exponent scale).2 * 10 ^ scale := by ring
    _ ≤ quarters * (gridStep m.exponent scale).1 * 10 ^ scale :=
        mul_le_mul_of_nonneg_right hq hpow.le
    _ = quarters / 4 * ((gridStep m.exponent scale).1 * 10 ^ scale * 4) := by ring
    _ = quarters / 4 * 2 ^ m.exponent * (gridStep m.exponent scale).2 := by
        rw [hstep]
        ring

theorem units_pos {scale : Int} (h : (10 : ℚ) ^ scale ≤ m.worth) :
    0 < 4 * m.mantissa * (gridStep m.exponent scale).1 / (gridStep m.exponent scale).2 := by
  have hstep := gridStep_worth m.exponent scale
  have hpos : (0 : ℚ) < (gridStep m.exponent scale).2 := by exact_mod_cast gridStep_pos _ _
  have hpow : (0 : ℚ) < 10 ^ scale := by positivity
  have hq : ((gridStep m.exponent scale).2 : ℚ) ≤
      4 * m.mantissa * (gridStep m.exponent scale).1 := by
    apply le_of_mul_le_mul_right _ hpow
    calc ((gridStep m.exponent scale).2 : ℚ) * 10 ^ scale
        ≤ (gridStep m.exponent scale).2 * m.worth := mul_le_mul_of_nonneg_left h hpos.le
      _ = m.mantissa * ((gridStep m.exponent scale).2 * 2 ^ m.exponent) := by
          rw [Magnitude.worth]
          ring
      _ = 4 * m.mantissa * (gridStep m.exponent scale).1 * 10 ^ scale := by
          rw [← hstep]
          ring
  exact Nat.div_pos (by exact_mod_cast hq) (gridStep_pos _ _)

/-- A decimal with digits in it, and no larger than what rounds to the magnitude. -/
structure Fits (m : Magnitude) (d : Decimal) : Prop where
  pos : 0 < d.digits
  worth : d.worth ≤ (m.mantissa + 1 / 2) * 2 ^ m.exponent

theorem fits_of_units {scale : Int} {d quarters : Nat} (hpos : 0 < d)
    (hq : quarters ≤ 4 * m.mantissa + 2)
    (h : d * (gridStep m.exponent scale).2 ≤ quarters * (gridStep m.exponent scale).1) :
    Fits m ⟨d, scale⟩ where
  pos := hpos
  worth := by
    have hquarters : (quarters : ℚ) ≤ 4 * m.mantissa + 2 := by exact_mod_cast hq
    have hpow : (0 : ℚ) < 2 ^ m.exponent := by positivity
    calc (d : ℚ) * 10 ^ scale ≤ quarters / 4 * 2 ^ m.exponent := units_le h
      _ ≤ (m.mantissa + 1 / 2) * 2 ^ m.exponent :=
          mul_le_mul_of_nonneg_right (by linarith) hpow.le

theorem le_of_roundsTo {step : Nat × Nat} {d : Nat} (h : roundsTo m step d = true) :
    d * step.2 ≤ (4 * m.mantissa + 2) * step.1 := by
  simp only [roundsTo] at h
  split at h
  · simp only [Bool.and_eq_true, decide_eq_true_eq] at h
    exact h.2
  · simp only [Bool.and_eq_true, decide_eq_true_eq] at h
    exact Nat.le_of_lt h.2

theorem fits_of_onGrid {scale : Int} {d : Decimal} (h : onGrid m scale = some d) : Fits m d := by
  have hfloor := Nat.div_mul_le_self (4 * m.mantissa * (gridStep m.exponent scale).1)
    (gridStep m.exponent scale).2
  have hlow (hpos : 0 < 4 * m.mantissa * (gridStep m.exponent scale).1 /
      (gridStep m.exponent scale).2) : Fits m ⟨_, scale⟩ :=
    fits_of_units hpos (Nat.le_add_right _ 2) hfloor
  simp only [onGrid] at h
  split at h
  · next hl hh =>
    have hhigh := fits_of_units (Nat.succ_pos _) le_rfl (le_of_roundsTo hh)
    simp only [Bool.and_eq_true, decide_eq_true_eq] at hl
    split at h <;> obtain rfl := Option.some.inj h
    · exact hlow hl.1
    · exact hhigh
  · next hl hh =>
    simp only [Bool.and_eq_true, decide_eq_true_eq] at hl
    obtain rfl := Option.some.inj h
    exact hlow hl.1
  · next hl hh =>
    obtain rfl := Option.some.inj h
    exact fits_of_units (Nat.succ_pos _) le_rfl (le_of_roundsTo hh)
  · cases h

theorem fits_refine {fuel : Nat} {scale : Int} (h : (10 : ℚ) ^ (scale - fuel) ≤ m.worth) :
    Fits m (refine m fuel scale) := by
  induction fuel generalizing scale with
  | zero =>
    rw [Nat.cast_zero, sub_zero] at h
    exact fits_of_units (units_pos h) (Nat.le_add_right _ 2) (Nat.div_mul_le_self _ _)
  | succ fuel ih =>
    rw [refine]
    cases hg : onGrid m scale with
    | some d => exact fits_of_onGrid hg
    | none =>
      apply ih
      have hscale : scale - 1 - (fuel : Int) = scale - (fuel + 1 : Nat) := by omega
      rw [hscale]
      exact h

theorem fits_stripZeros {fuel : Nat} {d : Decimal} (h : Fits m d) : Fits m (stripZeros fuel d) := by
  induction fuel generalizing d with
  | zero => exact h
  | succ fuel ih =>
    rw [stripZeros]
    split
    · next hzero =>
      have hpos := h.pos
      have hworth : Decimal.worth ⟨d.digits / 10, d.scale + 1⟩ = d.worth := by
        obtain ⟨k, hk⟩ := Nat.dvd_of_mod_eq_zero hzero
        simp only [Decimal.worth]
        rw [hk, Nat.mul_div_cancel_left _ (by decide), zpow_add_one₀ (by norm_num)]
        push_cast
        ring
      exact ih ⟨by dsimp only; omega, hworth ▸ h.worth⟩
    · exact h

/-- The exponent that is climbed down to is one of a power no larger than the number. -/
theorem pow_climb_le {den n : Nat} (hden : 0 < den) {x : ℚ} {fuel : Nat} {e : Int}
    (hn : (n : ℚ) * 10 ^ e = x * den) (hx : (10 : ℚ) ^ (e - fuel) ≤ x) :
    (10 : ℚ) ^ leadingExponent.climb den fuel n e ≤ x := by
  have hdenQ : (0 : ℚ) < den := by exact_mod_cast hden
  induction fuel generalizing n e with
  | zero =>
    rw [Nat.cast_zero, sub_zero] at hx
    exact hx
  | succ fuel ih =>
    rw [leadingExponent.climb]
    split
    · next hle =>
      have hleQ : (den : ℚ) ≤ n := by exact_mod_cast hle
      apply le_of_mul_le_mul_right _ hdenQ
      calc (10 : ℚ) ^ e * den ≤ 10 ^ e * n := mul_le_mul_of_nonneg_left hleQ (by positivity)
        _ = x * den := by rw [mul_comm, hn]
    · apply ih
      · rw [← hn, zpow_sub_one₀ (by norm_num)]
        push_cast
        ring
      · have hfuel : e - 1 - (fuel : Int) = e - (fuel + 1 : Nat) := by omega
        rw [hfuel]
        exact hx

theorem pow_leadingExponent_le {num den : Nat} (hden : 0 < den) {x : ℚ} (hx : (num : ℚ) = x * den)
    (hlow : (10 : ℚ) ^ (-400 : Int) ≤ x) : (10 : ℚ) ^ leadingExponent num den ≤ x := by
  have hdenQ : (0 : ℚ) < den := by exact_mod_cast hden
  rw [leadingExponent]
  split
  · next hle =>
    obtain ⟨ds, hds⟩ := exists_spells (num / den)
    have hlength : (Nat.toDigits 10 (num / den)).length = ds.length := by
      have hmap := congrArg List.length hds.chars
      rwa [List.length_map] at hmap
    have hpow : ((10 ^ (ds.length - 1) : Nat) : ℚ) ≤ (num / den : Nat) :=
      Nat.cast_le.2 (hds.pow_le (Nat.div_pos hle hden))
    have hexponent : ((ds.length : Int) - 1) = (ds.length - 1 : Nat) := by
      have := List.length_pos_iff.2 hds.plain.nonempty
      omega
    rw [hlength, hexponent, zpow_natCast]
    push_cast at hpow
    calc (10 : ℚ) ^ (ds.length - 1) ≤ (num / den : Nat) := hpow
      _ ≤ num / den := Nat.cast_div_le
      _ = x := by rw [hx, mul_div_cancel_right₀ _ hdenQ.ne']
  · exact pow_climb_le hden (by simpa using hx) hlow

theorem pow_le_worth (hm : 0 < m.mantissa) (he : -1074 ≤ m.exponent) :
    (10 : ℚ) ^ (-400 : Int) ≤ m.worth := by
  have hone : (1 : ℚ) ≤ m.mantissa := by exact_mod_cast hm
  calc (10 : ℚ) ^ (-400 : Int) ≤ 8 ^ (-400 : Int) := by
        rw [zpow_neg, zpow_neg]
        exact inv_anti₀ (by positivity)
          (zpow_le_zpow_left₀ (by norm_num) (by norm_num) (by norm_num))
    _ = 2 ^ (-1200 : Int) := by
        have height : (8 : ℚ) = 2 ^ (3 : Int) := by norm_num
        rw [height, ← zpow_mul]
        rfl
    _ ≤ 2 ^ m.exponent := zpow_le_zpow_right₀ (by norm_num) (by omega)
    _ ≤ m.worth := le_mul_of_one_le_left (by positivity) hone

theorem fits_shortest (hm : 0 < m.mantissa) (he : -1074 ≤ m.exponent) : Fits m (shortest m) := by
  have hunit := gridStep_worth m.exponent 0
  have hworth : ((4 * m.mantissa * (gridStep m.exponent 0).1 : Nat) : ℚ) =
      m.worth * (gridStep m.exponent 0).2 := by
    rw [zpow_zero] at hunit
    rw [Magnitude.worth]
    push_cast
    linear_combination (m.mantissa : ℚ) * hunit
  have hlead := pow_leadingExponent_le (gridStep_pos m.exponent 0) hworth (pow_le_worth hm he)
  apply fits_stripZeros
  apply fits_refine
  exact (zpow_le_zpow_right₀ (by norm_num) (by omega)).trans hlead

end PlanWire.Number
