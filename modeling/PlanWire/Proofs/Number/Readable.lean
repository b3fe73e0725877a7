import PlanWire.Proofs.Number.Scaling
import PlanWire.Proofs.Number.Written

/-!
# Whatever is read is written so that it is read

Every number has a text that is one literal. It need not stand for the same
number, for a fraction is rounded more than once when it is read; but it stands
for some number unless the fraction is infinite, and no literal stands for an
infinite one. The three largest fractions are looked at one by one, since the
product that their text asks for comes too close to infinity for any bound.
-/

set_option autoImplicit false

namespace PlanWire.Number

open Text.Utf8
open Literal (gather scale signed)

namespace Literal

theorem isSome_scale_of_nonpos {significand : Nat} {exponent : Int} (hs : significand < 2 ^ 64)
    (he : exponent ≤ 0) : (scale significand exponent).isSome = true := by
  apply scale_of_le_safe hs
  have hsize : (significand : ℚ) ≤ 2 ^ (64 : Int) := by
    have hcast : (significand : ℚ) < 2 ^ 64 := by exact_mod_cast hs
    exact hcast.le
  have hpow : (2 : ℚ) ^ (64 : Int) ≤ 2 ^ (970 : Int) :=
    zpow_le_zpow_right₀ (by norm_num) (by decide)
  calc (significand : ℚ) * 10 ^ exponent ≤ significand * 1 :=
        mul_le_mul_of_nonneg_left (zpow_le_one_of_nonpos₀ (by norm_num) he) (Nat.cast_nonneg _)
    _ ≤ 2 ^ (970 : Int) := by
        rw [mul_one]
        exact hsize.trans hpow
    _ ≤ safe := le_mul_of_one_le_left (by positivity) (by norm_num)

theorem isSome_scale_up {l : Literal} {n significand e : Nat} {rest : List Nat}
    (hn : n < UInt64.size) (hgather : gather UInt64.size n l.fraction = (significand, rest))
    (hworth : (extended n l.fraction : ℚ) * 10 ^ ((e : Int) - l.fraction.length) ≤ safe) :
    (scale significand (0 - (l.fraction.length - rest.length : Nat) + e)).isSome = true := by
  obtain ⟨hs, hle, hlength⟩ := gather_le hn hgather
  apply scale_of_le_safe hs
  have hexponent : (0 : Int) - (l.fraction.length - rest.length : Nat) + e =
      rest.length + (e - l.fraction.length) := by omega
  have hcast : (significand : ℚ) * 10 ^ rest.length ≤ extended n l.fraction := by exact_mod_cast hle
  rw [hexponent, zpow_add₀ (by norm_num), zpow_natCast, ← mul_assoc]
  exact (mul_le_mul_of_nonneg_right hcast (by positivity)).trans hworth

theorem isSome_fractional {l : Literal} {n : Nat} (hn : n < UInt64.size)
    (hup : ∀ ds, l.exponent = some (false, ds) → extended 0 ds < 2 ^ 31 ∧
      (extended n l.fraction : ℚ) * 10 ^ ((extended 0 ds : Int) - l.fraction.length) ≤ safe) :
    (l.fractional n 0).isSome = true := by
  cases hgather : gather UInt64.size n l.fraction with
  | mk significand rest =>
  obtain ⟨hs, -, -⟩ := gather_le hn hgather
  simp only [fractional, hgather, Nat.cast_zero]
  cases he : l.exponent with
  | none =>
    have hstart : 0 - ((l.fraction.length - rest.length : Nat) : Int) ≤ 0 := by omega
    obtain ⟨f, hf⟩ := Option.isSome_iff_exists.1 (isSome_scale_of_nonpos hs hstart)
    dsimp only
    rw [hf]
    rfl
  | some e =>
    obtain ⟨down, ds⟩ := e
    cases down with
    | false =>
      obtain ⟨hsmall, hworth⟩ := hup ds he
      obtain ⟨f, hf⟩ := Option.isSome_iff_exists.1 (isSome_scale_up hn hgather hworth)
      dsimp only
      rw [Nat.pow_eq, gather_of_lt hsmall]
      simp only [Bool.false_eq_true, if_false, hf]
      rfl
    | true =>
      dsimp only
      split
      · next e _ =>
        have hdown : 0 - ((l.fraction.length - rest.length : Nat) : Int) - e ≤ 0 := by omega
        obtain ⟨f, hf⟩ := Option.isSome_iff_exists.1 (isSome_scale_of_nonpos hs hdown)
        simp only [if_true, hf]
        rfl
      · simp

/-- A literal has a value if its whole part and its exponent are not too large, and what it
stands for is safe. -/
theorem isSome_value? {l : Literal} (hwhole : extended 0 l.whole < UInt64.size)
    (hup : ∀ ds, l.exponent = some (false, ds) → extended 0 ds < 2 ^ 31 ∧ l.worth ≤ safe) :
    l.value?.isSome = true := by
  have hfractional : (l.fractional (extended 0 l.whole) 0).isSome = true := by
    apply isSome_fractional hwhole
    intro ds hds
    obtain ⟨hsmall, hworth⟩ := hup ds hds
    rw [worth, hds, extended_append] at hworth
    exact ⟨hsmall, hworth⟩
  rw [value?, gather_of_lt hwhole]
  split
  · next n hn =>
    split
    · rfl
    split <;> rfl
  · next n rest hn _ =>
    obtain ⟨rfl, rfl⟩ := Prod.mk.inj hn
    exact hfractional

end Literal

def ofText? (cs : List Char) : Option Number :=
  match Json.cutLiteral (encode cs) with
  | some (l, []) => l.value?
  | _ => none

def Readable (n : Number) : Prop := (ofText? n.text).isSome = true

theorem Literal.Formed.ofText? {l : Literal} (h : l.Formed) : ofText? l.text = l.value? := by
  rw [Number.ofText?, h.cutLiteral]

theorem readable_of_rereads {n : Number} (h : n.Rereads) : n.Readable := by
  obtain ⟨l, hcut, hvalue⟩ := h
  have htext : ofText? n.text = l.value? := by rw [ofText?, hcut]
  rw [Readable, htext, hvalue]
  rfl

theorem magnitude_exponent_ge (bits : UInt64) : -1074 ≤ (magnitude bits).exponent := by
  simp only [magnitude]
  split
  · exact le_rfl
  · dsimp only
    omega

theorem magnitude_foot {bits : UInt64} (hm : (magnitude bits).mantissa ≠ 2 ^ 52) :
    (magnitude bits).foot = false := by
  simp only [magnitude] at hm ⊢
  split at hm
  · rw [if_pos ‹_›]
  · rw [if_neg ‹_›]
    dsimp only at hm ⊢
    rw [Nat.pow_eq] at *
    have hfraction : bits.toNat % 2 ^ 52 ≠ 0 := by omega
    rw [decide_eq_false hfraction]
    rfl

theorem magnitude_mantissa_lt (bits : UInt64) : (magnitude bits).mantissa < 2 ^ 53 := by
  have hfraction : bits.toNat % Nat.pow 2 52 < 2 ^ 52 := Nat.mod_lt _ (by decide)
  simp only [magnitude]
  split
  · dsimp only
    omega
  · rw [Nat.pow_eq] at *
    dsimp only
    omega

theorem exists_text (bits : UInt64) : ∃ l : Literal, l.Formed ∧ text (.float bits) = l.text ∧
    ((magnitude bits).mantissa ≠ 0 → l.Writes (shortest (magnitude bits))) ∧
    ((magnitude bits).mantissa = 0 → l.value?.isSome = true) := by
  have hsign (l : Literal) (hnegative : l.negative = isNegative bits)
      (hmagnitude : magnitudeText (magnitude bits) = l.unsignedText) :
      text (.float bits) = l.text := by
    rw [text, Literal.text, hnegative, hmagnitude]
  by_cases hzero : (magnitude bits).mantissa = 0
  · refine ⟨⟨isNegative bits, [0], [0], none⟩, ⟨⟨by simp, by simp, by simp⟩, by simp, by simp⟩, ?_,
      fun h => absurd hzero h, ?_⟩
    · apply hsign _ rfl
      rw [magnitudeText, if_pos hzero]
      rfl
    · intro _
      apply Literal.isSome_value?
      · change 0 < UInt64.size
        decide
      · simp
  · have hfits := fits_shortest (Nat.pos_of_ne_zero hzero) (magnitude_exponent_ge bits)
    obtain ⟨l, hnegative, hl⟩ := exists_writes hfits.pos (isNegative bits)
    refine ⟨l, hl.formed, ?_, fun _ => hl, fun h => absurd h hzero⟩
    apply hsign l hnegative
    rw [magnitudeText, if_neg hzero]
    exact hl.text.symm

theorem exists_literal (n : Number) : ∃ l, Json.cutLiteral (encode n.text) = some (l, []) := by
  cases n with
  | int i =>
    obtain ⟨ds, hds⟩ := exists_spells i.natAbs
    rw [text_int hds]
    exact ⟨_, (hds.formed _).cutLiteral⟩
  | float bits =>
    obtain ⟨l, hformed, htext, -⟩ := exists_text bits
    rw [htext]
    exact ⟨l, hformed.cutLiteral⟩

/-- The three largest fractions come too close to infinity for the bound on products. -/
theorem readable_top : ∀ k < 3, ∀ negative : Bool,
    (ofText? (if negative then '-' :: magnitudeText ⟨2 ^ 53 - 1 - k, 971, false⟩
      else magnitudeText ⟨2 ^ 53 - 1 - k, 971, false⟩)).isSome = true := by
  decide +kernel

section Finite

variable {bits : UInt64} (h : FiniteBits bits)

include h

theorem magnitude_exponent_le : (magnitude bits).exponent ≤ 971 := by
  have hfield : bits.toNat / Nat.pow 2 52 % Nat.pow 2 11 < 2 ^ 11 := Nat.mod_lt _ (by decide)
  have hspecial : bits.toNat / Nat.pow 2 52 % Nat.pow 2 11 ≠ 2047 := h
  simp only [magnitude]
  split
  · dsimp only
    omega
  · dsimp only
    omega

/-- What rounds to another magnitude than the three largest is safe. -/
theorem le_safe
    (htop : ¬ ((magnitude bits).exponent = 971 ∧ 2 ^ 53 - 3 ≤ (magnitude bits).mantissa)) :
    (((magnitude bits).mantissa : ℚ) + 1 / 2) * 2 ^ (magnitude bits).exponent ≤ safe := by
  have hexponent := magnitude_exponent_le h
  have hmantissa := magnitude_mantissa_lt bits
  generalize magnitude bits = m at *
  rw [safe]
  by_cases he : m.exponent = 971
  · have hm : (m.mantissa : ℚ) + 4 ≤ 2 ^ 53 := by
      have hnat : m.mantissa + 4 ≤ 2 ^ 53 := by omega
      exact_mod_cast hnat
    have hsum : (971 : Int) = 970 + 1 := rfl
    rw [he, hsum, zpow_add_one₀ (by norm_num), mul_comm ((2 : ℚ) ^ (970 : Int)), ← mul_assoc]
    exact mul_le_mul_of_nonneg_right (by linarith) (by positivity)
  · have hm : (m.mantissa : ℚ) + 1 ≤ 2 ^ 53 := by exact_mod_cast hmantissa
    have hpow : (2 : ℚ) ^ m.exponent ≤ 2 ^ (970 : Int) :=
      zpow_le_zpow_right₀ (by norm_num) (by omega)
    exact mul_le_mul (by linarith) hpow (by positivity) (by norm_num)

/-- Every finite fraction has a text that is read as some number. -/
theorem readable_float : Readable (.float bits) := by
  obtain ⟨l, hformed, htext, hwrites, hzero⟩ := exists_text bits
  by_cases htop : (magnitude bits).exponent = 971 ∧ 2 ^ 53 - 3 ≤ (magnitude bits).mantissa
  · obtain ⟨hexponent, hmantissa⟩ := htop
    have hlt := magnitude_mantissa_lt bits
    have hmagnitude : magnitude bits =
        ⟨2 ^ 53 - 1 - (2 ^ 53 - 1 - (magnitude bits).mantissa), 971, false⟩ := by
      have hself : 2 ^ 53 - 1 - (2 ^ 53 - 1 - (magnitude bits).mantissa) =
          (magnitude bits).mantissa := by omega
      have hfoot : (magnitude bits).foot = false := magnitude_foot (by omega)
      rw [hself, ← hexponent, ← hfoot]
    have heval := readable_top (2 ^ 53 - 1 - (magnitude bits).mantissa) (by omega) (isNegative bits)
    rw [← hmagnitude] at heval
    exact heval
  rw [Readable, htext, hformed.ofText?]
  by_cases hm : (magnitude bits).mantissa = 0
  · exact hzero hm
  · have hl := hwrites hm
    have hfits := fits_shortest (Nat.pos_of_ne_zero hm) (magnitude_exponent_ge bits)
    have hsafe : l.worth ≤ safe := hl.worth ▸ hfits.worth.trans (le_safe h htop)
    apply Literal.isSome_value? hl.whole
    intro es hes
    have hpow := hl.pow_le_worth hfits.pos hes
    have hsmall := le_of_pow_le_safe (hpow.trans hsafe)
    exact ⟨by omega, hsafe⟩

end Finite

theorem readable_signed {f : Float} (h : Within 971 f.toModel.unpack) (negative : Bool) :
    Readable (signed negative f) :=
  readable_float (finiteBits_signed h rfl)

theorem readable_scale {significand : Nat} {exponent : Int} {negative : Bool} {n : Number}
    (h : (do return signed negative (← scale significand exponent)) = some n) : n.Readable := by
  cases hf : scale significand exponent with
  | none =>
    rw [hf] at h
    cases h
  | some f =>
    rw [hf] at h
    obtain rfl : signed negative f = n := Option.some.inj h
    exact readable_signed (within_scale hf) negative

theorem within_zero : Within 971 (0 : Float).toModel.unpack := by
  have hzero : (0 : Float) = (0 : Nat).toUInt64.toFloat := by decide +kernel
  rw [hzero]
  exact (within_toFloat 0).mono (by decide)

theorem readable_fractional {l : Literal} {significand dropped : Nat} {n : Number}
    (h : l.fractional significand dropped = some n) : n.Readable := by
  simp only [Literal.fractional] at h
  split at h
  · exact readable_scale h
  · split at h
    · exact readable_scale h
    · split at h
      · obtain rfl := Option.some.inj h
        exact readable_signed within_zero l.negative
      · cases h

/-- Whatever a literal stands for has a text that is read as some number again. -/
theorem readable_of_value? {l : Literal} {n : Number} (h : l.value? = some n) : n.Readable := by
  have hsize : UInt64.size = 2 ^ 64 := rfl
  rw [Literal.value?] at h
  split at h
  · next k hk _ _ =>
    have hlt := (gather_le (by decide) hk).1
    split at h
    · obtain rfl := Option.some.inj h
      exact readable_of_rereads (rereads_int (by omega) (by omega))
    · split at h
      · obtain rfl := Option.some.inj h
        exact readable_signed ((within_toFloat k).mono (by decide)) true
      · next hbound =>
        obtain rfl := Option.some.inj h
        simp only [Nat.pow_eq, Bool.or_eq_true, decide_eq_true_eq, not_or] at hbound
        exact readable_of_rereads (rereads_int (by omega) (by omega))
  · exact readable_fractional h

end PlanWire.Number
