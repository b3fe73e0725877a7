import PlanWire.Text.Parts

/-!
# Numbers in decimal

A run of digits is read as the number that it denotes, unless 64 bits cannot
hold it. The digits that a number is written with denote this number.
-/

set_option autoImplicit false

namespace PlanWire.Text

/-- A run of digits that denotes a number that 64 bits hold. -/
structure IsWord (ds : List Char) (n : Nat) : Prop where
  nonempty : ds ≠ []
  digits : ∀ c ∈ ds, c.isDigit = true
  value : Nat.ofDigitChars 10 ds 0 = n
  fits : n < UInt64.size

theorem digits?_eq_some {ds : List Char} {start n : Nat} :
    digits? start ds = some n ↔
      (∀ c ∈ ds, c.isDigit = true) ∧ Nat.ofDigitChars 10 ds start = n := by
  induction ds generalizing start with
  | nil => simp [digits?]
  | cons c rest ih =>
    by_cases hc : c.isDigit = true
    · have hstart : start * 10 + (c.toNat - 48) = 10 * start + (c.toNat - '0'.toNat) := by
        rw [Nat.mul_comm]
        rfl
      simp [digits?, hc, ih, hstart, Nat.ofDigitChars_cons]
    · simp [digits?, hc]

theorem word?_of_ne_nil {ds : List Char} (h : ds ≠ []) :
    word? ds = (digits? 0 ds).bind fun n => if n < UInt64.size then some n else none := by
  cases ds with
  | nil => exact absurd rfl h
  | cons c rest => rfl

theorem word?_eq_some {ds : List Char} {n : Nat} : word? ds = some n ↔ IsWord ds n := by
  constructor
  · intro h
    have hne : ds ≠ [] := by
      rintro rfl
      cases h
    rw [word?_of_ne_nil hne] at h
    obtain ⟨m, hread, hword⟩ := Option.bind_eq_some_iff.1 h
    obtain ⟨hds, hvalue⟩ := digits?_eq_some.1 hread
    obtain ⟨hfits, hsame⟩ := Option.ite_none_right_eq_some.1 hword
    obtain rfl := Option.some.inj hsame
    exact ⟨hne, hds, hvalue, hfits⟩
  · rintro ⟨hne, hds, hvalue, hfits⟩
    rw [word?_of_ne_nil hne, digits?_eq_some.2 ⟨hds, hvalue⟩]
    exact if_pos hfits

theorem IsWord.not_mem {ds : List Char} {n : Nat} (h : IsWord ds n) {c : Char}
    (hc : c.isDigit = false) : c ∉ ds := by
  intro hmem
  rw [h.digits c hmem] at hc
  cases hc

theorem unsigned?_of_not_mem {cs : List Char} (h : '+' ∉ cs) : unsigned? cs = word? cs := by
  rw [unsigned?.eq_def]
  split
  · exact absurd (List.mem_cons_self ..) h
  · rfl

theorem unsigned?_eq_some {cs : List Char} {n : Nat} :
    unsigned? cs = some n ↔ ∃ ds, (cs = ds ∨ cs = '+' :: ds) ∧ IsWord ds n := by
  constructor
  · intro h
    rw [unsigned?.eq_def] at h
    split at h
    · next ds => exact ⟨ds, .inr rfl, word?_eq_some.1 h⟩
    · exact ⟨cs, .inl rfl, word?_eq_some.1 h⟩
  · rintro ⟨ds, rfl | rfl, hds⟩
    · rw [unsigned?_of_not_mem (hds.not_mem rfl)]
      exact word?_eq_some.2 hds
    · exact word?_eq_some.2 hds

theorem isWord_toDigits {n : Nat} (h : n < UInt64.size) : IsWord (Nat.toDigits 10 n) n where
  nonempty := Nat.toDigits_ne_nil
  digits _ hc := Nat.isDigit_of_mem_toDigits (by decide) (by decide) hc
  value := Nat.ofDigitChars_ten_toDigits
  fits := h

end PlanWire.Text
