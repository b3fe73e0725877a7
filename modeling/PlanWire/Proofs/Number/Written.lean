import PlanWire.Proofs.Number.Shortest

/-!
# The text of a decimal is one literal

The digits of a decimal are written with the point behind them, among them or in
front of them, or with an exponent. Each of these texts is that of a literal
which stands for the decimal.
-/

set_option autoImplicit false

namespace PlanWire.Number

namespace Literal

def power : Option (Bool × List Nat) → Int
  | none => 0
  | some (true, ds) => -(extended 0 ds : Int)
  | some (false, ds) => extended 0 ds

def worth (l : Literal) : ℚ :=
  extended 0 (l.whole ++ l.fraction) * 10 ^ (power l.exponent - l.fraction.length)

end Literal

/-- The literal in the text of a decimal. -/
structure Literal.Writes (l : Literal) (d : Decimal) : Prop where
  formed : l.Formed
  text : l.unsignedText = scaled (digitChars d.digits) (d.scale + (digitChars d.digits).length - 1)
  worth : l.worth = d.worth
  whole : extended 0 l.whole < UInt64.size
  up : ∀ es, l.exponent = some (false, es) →
    (extended 0 es : Int) = d.scale + (digitChars d.digits).length - 1

theorem extended_lt {ds : List Nat} (h : ∀ d ∈ ds, d < 10) : extended 0 ds < 10 ^ ds.length := by
  induction ds with
  | nil => exact Nat.one_pos
  | cons d ds ih =>
    obtain ⟨hd, hds⟩ := List.forall_mem_cons.1 h
    have hvalue : extended 0 (d :: ds) = (0 * 10 + d) * 10 ^ ds.length + extended 0 ds :=
      extended_eq (0 * 10 + d) ds
    have hrest := ih hds
    have hmul : (0 * 10 + d) * 10 ^ ds.length ≤ 9 * 10 ^ ds.length :=
      Nat.mul_le_mul_right _ (by omega)
    rw [hvalue, List.length_cons, Nat.pow_succ]
    omega

section Shapes

variable {ds : List Nat} {d : Decimal} (h : Spells ds d.digits) (hd : 0 < d.digits)
  (negative : Bool)

include h

theorem Spells.length_chars : (digitChars d.digits).length = ds.length := by
  rw [h.chars, List.length_map]

include hd

theorem Spells.first_pos (rest : List Nat) : ds ≠ 0 :: rest := by
  rintro rfl
  obtain rfl := h.plain.first rest rfl
  have hzero : 0 = d.digits := h.value
  omega

theorem writes_whole {k : Nat} (hscale : d.scale = k) (hhigh : k + ds.length ≤ 16) :
    Literal.Writes ⟨negative, ds ++ List.replicate k 0, [0], none⟩ d := by
  have hlength := h.length_chars
  have hnonempty := List.length_pos_iff.2 h.plain.nonempty
  have hsmall : ∀ e ∈ ds ++ List.replicate k 0, e < 10 := by
    intro e he
    rcases List.mem_append.1 he with he | he
    · exact h.plain.small e he
    · rw [List.eq_of_mem_replicate he]
      decide
  refine ⟨⟨⟨hsmall, by simp [h.plain.nonempty], ?_⟩, by simp, nofun⟩, ?_, ?_, ?_, nofun⟩
  · intro rest hrest
    cases ds with
    | nil => exact absurd rfl h.plain.nonempty
    | cons e es =>
      obtain ⟨rfl, -⟩ := List.cons.inj hrest
      exact absurd rfl (h.first_pos hd es)
  · have hplaces : (d.scale + (digitChars d.digits).length - 1).toNat + 1 = k + ds.length := by
      omega
    rw [scaled, if_pos (by omega), hplaces, pointed, h.chars]
    have hdrop : (ds.map Nat.digitChar).drop (k + ds.length) = [] := by
      apply List.drop_of_length_le
      rw [List.length_map]
      omega
    have htake : (ds.map Nat.digitChar).take (k + ds.length) = ds.map Nat.digitChar := by
      apply List.take_of_length_le
      rw [List.length_map]
      omega
    rw [hdrop, htake, List.length_map, Nat.add_sub_cancel]
    simp only [Literal.unsignedText, Literal.fractionText, Literal.exponentText, List.map_append,
      List.map_replicate, List.append_assoc]
    rfl
  · have hdigits : extended 0 (ds ++ List.replicate k 0 ++ [0]) = d.digits * 10 ^ k * 10 := by
      rw [extended_append, extended_append, h.value, extended_zeros]
      rfl
    rw [Literal.worth, Decimal.worth, hdigits, hscale, zpow_natCast]
    change ((d.digits * 10 ^ k * 10 : Nat) : ℚ) * 10 ^ ((0 : Int) - 1) = _
    rw [zero_sub, zpow_neg_one]
    push_cast
    rw [mul_assoc, mul_inv_cancel₀ (by norm_num), mul_one]
  · have hlt := extended_lt hsmall
    rw [List.length_append, List.length_replicate] at hlt
    have hpow : 10 ^ (ds.length + k) ≤ 10 ^ 16 := Nat.pow_le_pow_right (by decide) (by omega)
    exact Nat.lt_of_lt_of_le hlt (Nat.le_trans hpow (by decide))

theorem writes_pointed {k : Nat} (hk : 0 < k) (hscale : d.scale = (k : Int) - ds.length)
    (hlow : k < ds.length) (hhigh : k ≤ 16) :
    Literal.Writes ⟨negative, ds.take k, ds.drop k, none⟩ d := by
  have hlength := h.length_chars
  have hsmall : ∀ e ∈ ds.take k, e < 10 := fun e he => h.plain.small e (List.mem_of_mem_take he)
  have hdrop : ds.drop k ≠ [] := by
    rw [Ne, List.drop_eq_nil_iff]
    omega
  refine ⟨⟨⟨hsmall, ?_, ?_⟩, fun e he => h.plain.small e (List.mem_of_mem_drop he), nofun⟩, ?_, ?_,
    ?_, nofun⟩
  · rw [Ne, List.take_eq_nil_iff]
    rintro (hzero | hnil)
    · omega
    · exact h.plain.nonempty hnil
  · intro rest hrest
    cases ds with
    | nil => exact absurd rfl h.plain.nonempty
    | cons e es =>
      obtain ⟨j, rfl⟩ := Nat.exists_eq_add_one_of_ne_zero (Nat.ne_of_gt hk)
      obtain ⟨rfl, -⟩ := List.cons.inj hrest
      exact absurd rfl (h.first_pos hd es)
  · have hplaces : (d.scale + (digitChars d.digits).length - 1).toNat + 1 = k := by omega
    have hmap : (ds.map Nat.digitChar).drop k ≠ [] := by
      rw [← List.map_drop]
      simpa using hdrop
    rw [scaled, if_pos (by omega), hplaces, pointed, h.chars]
    have hnone : k - (ds.map Nat.digitChar).length = 0 := by
      rw [List.length_map]
      omega
    have hfraction : ((ds.map Nat.digitChar).drop k).isEmpty = false := by simpa using hmap
    simp only [hnone, hfraction, Literal.unsignedText, Literal.fractionText, if_neg hdrop,
      Literal.exponentText, List.map_take, List.map_drop, List.append_nil, List.replicate_zero]
    rfl
  · have hpower : (0 : Int) - (ds.drop k).length = (k : Int) - ds.length := by
      rw [List.length_drop]
      omega
    rw [Literal.worth, Decimal.worth, List.take_append_drop, h.value, hscale]
    change (d.digits : ℚ) * 10 ^ ((0 : Int) - (ds.drop k).length) = _
    rw [hpower]
  · have hlt := extended_lt hsmall
    have hle := List.length_take_le k ds
    have hpow : 10 ^ (ds.take k).length ≤ 10 ^ 16 := Nat.pow_le_pow_right (by decide) (by omega)
    exact Nat.lt_of_lt_of_le hlt (Nat.le_trans hpow (by decide))

omit hd in
theorem writes_small {k : Nat} (hk : k < 5) (hscale : d.scale = -(k : Int) - ds.length) :
    Literal.Writes ⟨negative, [0], List.replicate k 0 ++ ds, none⟩ d := by
  have hlength := h.length_chars
  have hnonempty := List.length_pos_iff.2 h.plain.nonempty
  have hsmall : ∀ e ∈ List.replicate k 0 ++ ds, e < 10 := by
    intro e he
    rcases List.mem_append.1 he with he | he
    · rw [List.eq_of_mem_replicate he]
      decide
    · exact h.plain.small e he
  refine ⟨⟨⟨by simp, by simp, by simp⟩, hsmall, nofun⟩, ?_, ?_, ?_, nofun⟩
  · have hzeros : (-(d.scale + (digitChars d.digits).length - 1)).toNat - 1 = k := by omega
    have hfraction : List.replicate k 0 ++ ds ≠ [] := by simp [h.plain.nonempty]
    rw [scaled, if_neg (by omega), if_pos (by omega), hzeros, h.chars]
    simp only [Literal.unsignedText, Literal.fractionText, if_neg hfraction, Literal.exponentText,
      List.map_append, List.map_replicate, List.append_nil]
    rfl
  · have hdigits : extended 0 ([0] ++ (List.replicate k 0 ++ ds)) = d.digits := by
      change extended 0 (List.replicate (k + 1) 0 ++ ds) = _
      rw [extended_append, extended_zeros, Nat.zero_mul, h.value]
    have hpower : (0 : Int) - (List.replicate k 0 ++ ds).length = d.scale := by
      rw [List.length_append, List.length_replicate]
      omega
    rw [Literal.worth, Decimal.worth, hdigits]
    change (d.digits : ℚ) * 10 ^ ((0 : Int) - (List.replicate k 0 ++ ds).length) = _
    rw [hpower]
  · change 0 < UInt64.size
    decide

omit hd

theorem writes_marked {x : Int} (hscale : d.scale = x + 1 - ds.length) (hx : ¬ (-5 ≤ x ∧ x < 16))
    {first : Nat} {rest es : List Nat} (hds : ds = first :: rest) (hes : Spells es x.natAbs) :
    Literal.Writes ⟨negative, [first], rest, some (decide (x < 0), es)⟩ d := by
  have hlength := h.length_chars
  have hexponent : d.scale + (digitChars d.digits).length - 1 = x := by omega
  have hfirst : first < 10 := h.plain.small first (hds ▸ List.mem_cons_self ..)
  refine ⟨⟨⟨by simpa using hfirst, by simp, ?_⟩, ?_, ?_⟩, ?_, ?_, ?_, ?_⟩
  · intro others hothers
    exact (List.cons.inj hothers).2.symm
  · exact fun e he => h.plain.small e (hds ▸ List.mem_cons_of_mem _ he)
  · intro down others hothers
    obtain ⟨-, rfl⟩ := Prod.mk.inj (Option.some.inj hothers)
    exact ⟨hes.plain.nonempty, hes.plain.small⟩
  · rw [hexponent, scaled, if_neg (by omega), if_neg (by omega), h.chars, hes.chars, hds]
    cases rest with
    | nil => by_cases hneg : x < 0 <;> simp [hneg, Literal.unsignedText, Literal.fractionText,
        Literal.exponentText]
    | cons second rest => by_cases hneg : x < 0 <;> simp [hneg, Literal.unsignedText,
        Literal.fractionText, Literal.exponentText]
  · have hpower : Literal.power (some (decide (x < 0), es)) = x := by
      by_cases hneg : x < 0
      · rw [decide_eq_true hneg, Literal.power, hes.value]
        omega
      · rw [decide_eq_false hneg, Literal.power, hes.value]
        omega
    have hdigits : extended 0 ([first] ++ rest) = d.digits := by
      rw [← h.value, hds]
      rfl
    have hrest : (rest.length : Int) = ds.length - 1 := by
      rw [hds, List.length_cons]
      omega
    have hsum : x - (rest.length : Int) = d.scale := by omega
    rw [Literal.worth, Decimal.worth, hdigits, hpower, hsum]
  · change 0 * 10 + first < UInt64.size
    have hsize : 10 < UInt64.size := by decide
    omega
  · intro others hothers
    obtain ⟨hneg, rfl⟩ := Prod.mk.inj (Option.some.inj hothers)
    have hx : ¬ x < 0 := of_decide_eq_false hneg
    rw [hexponent, hes.value]
    omega

end Shapes

/-- The text of a decimal is one literal. -/
theorem exists_writes {d : Decimal} (hd : 0 < d.digits) (negative : Bool) :
    ∃ l : Literal, l.negative = negative ∧ l.Writes d := by
  obtain ⟨ds, h⟩ := exists_spells d.digits
  have hnonempty := List.length_pos_iff.2 h.plain.nonempty
  by_cases hwide : 0 ≤ d.scale ∧ d.scale + ds.length ≤ 16
  · exact ⟨_, rfl, writes_whole h hd negative (k := d.scale.toNat) (by omega) (by omega)⟩
  by_cases hamong : 0 < d.scale + ds.length ∧ d.scale + ds.length ≤ 16
  · exact ⟨_, rfl, writes_pointed h hd negative (k := (d.scale + ds.length).toNat) (by omega)
      (by omega) (by omega) (by omega)⟩
  by_cases hsmall : -5 < d.scale + ds.length ∧ d.scale + ds.length ≤ 0
  · exact ⟨_, rfl, writes_small h negative (k := (-(d.scale + ds.length)).toNat) (by omega)
      (by omega)⟩
  · obtain ⟨first, rest, hds⟩ := List.exists_cons_of_ne_nil h.plain.nonempty
    obtain ⟨es, hes⟩ := exists_spells (d.scale + ds.length - 1).natAbs
    exact ⟨_, rfl, writes_marked h negative (by omega) (by omega) hds hes⟩

theorem Literal.Writes.pow_le_worth {l : Literal} {d : Decimal} (h : l.Writes d) (hd : 0 < d.digits)
    {es : List Nat} (hes : l.exponent = some (false, es)) : (10 : ℚ) ^ extended 0 es ≤ l.worth := by
  obtain ⟨ds, hds⟩ := exists_spells d.digits
  have hnonempty := List.length_pos_iff.2 hds.plain.nonempty
  have hexponent : (extended 0 es : Int) = d.scale + (ds.length - 1 : Nat) := by
    have hup := h.up es hes
    have hlength := hds.length_chars
    omega
  have hpow : (10 : ℚ) ^ (ds.length - 1) ≤ d.digits := by exact_mod_cast hds.pow_le hd
  rw [h.worth, Decimal.worth, ← zpow_natCast, hexponent, zpow_add₀ (by norm_num), zpow_natCast,
    mul_comm]
  exact mul_le_mul_of_nonneg_right hpow (by positivity)

end PlanWire.Number
