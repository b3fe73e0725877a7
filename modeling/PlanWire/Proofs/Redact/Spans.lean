import PlanWire.Redact.Policy

/-!
# Keeping and masking the ends of a string

What a span policy does at a position depends on the position and the length of
the string alone. Of two policies with one span, one keeps the character exactly
where the other masks it. The string stays as long as it was, so that either
policy decides again as before and changes nothing more.
-/

set_option autoImplicit false

namespace PlanWire.Redact

theorem getElem?_maskWhere (hidden : Nat → Bool) (maskChar : Char) (start : Nat) (cs : List Char)
    (i : Nat) :
    (maskWhere hidden maskChar start cs)[i]? =
      cs[i]?.map fun own => if hidden (start + i) then maskChar else own := by
  induction cs generalizing start i with
  | nil => simp [maskWhere]
  | cons c rest ih =>
    cases i with
    | zero => simp [maskWhere]
    | succ i =>
      have hstart : start + 1 + i = start + (i + 1) := by omega
      simp [maskWhere, ih, hstart]

theorem length_maskWhere (hidden : Nat → Bool) (maskChar : Char) (start : Nat) (cs : List Char) :
    (maskWhere hidden maskChar start cs).length = cs.length := by
  induction cs generalizing start with
  | nil => rfl
  | cons c rest ih => simp [maskWhere, ih]

namespace Span

/-- A position at one of the ends of a string of this length, or any if the ends
cover the string. -/
def Covers (s : Span) (length i : Nat) : Prop :=
  length ≤ s.first + s.last ∨ i < s.first ∨ length - s.last ≤ i

instance (s : Span) (length i : Nat) : Decidable (s.Covers length i) :=
  inferInstanceAs (Decidable (_ ∨ _ ∨ _))

theorem length_keep (s : Span) (cs : List Char) : (s.keep cs).length = cs.length := by
  unfold keep
  split
  · rfl
  · exact length_maskWhere ..

theorem length_mask (s : Span) (cs : List Char) : (s.mask cs).length = cs.length :=
  length_maskWhere ..

theorem getElem?_keep (s : Span) (cs : List Char) (i : Nat) :
    (s.keep cs)[i]? = cs[i]?.map fun own => if s.Covers cs.length i then own else s.maskChar := by
  by_cases hall : cs.length ≤ s.first + s.last
  · simp [keep, Covers, hall]
  · have hhidden : (s.first ≤ i && i < cs.length - s.last) = true ↔ ¬ s.Covers cs.length i := by
      simp [Covers, hall]
      omega
    rw [keep, if_neg hall, getElem?_maskWhere, Nat.zero_add]
    simp only [hhidden, ite_not]

theorem getElem?_mask (s : Span) (cs : List Char) (i : Nat) :
    (s.mask cs)[i]? = cs[i]?.map fun own => if s.Covers cs.length i then s.maskChar else own := by
  rw [mask, getElem?_maskWhere, Nat.zero_add]
  cases hown : cs[i]? with
  | none => rfl
  | some own =>
    obtain ⟨hi, -⟩ := List.getElem?_eq_some_iff.1 hown
    have hhidden : (!(min s.first cs.length ≤ i && i < cs.length - s.last)) = true ↔
        s.Covers cs.length i := by
      simp [Covers]
      omega
    simp only [hhidden]

theorem keep_keep (s : Span) (cs : List Char) : s.keep (s.keep cs) = s.keep cs := by
  apply List.ext_getElem?
  intro i
  rw [getElem?_keep, length_keep, getElem?_keep]
  by_cases hi : s.Covers cs.length i <;> simp [hi, Function.comp_def]

theorem mask_mask (s : Span) (cs : List Char) : s.mask (s.mask cs) = s.mask cs := by
  apply List.ext_getElem?
  intro i
  rw [getElem?_mask, length_mask, getElem?_mask]
  by_cases hi : s.Covers cs.length i <;> simp [hi, Function.comp_def]

def sum? (a b : Nat) : Option Nat := if a + b < UInt64.size then some (a + b) else none

def difference? (a b : Nat) : Option Nat := if b ≤ a then some (a - b) else none

/-- Keeps both ends and checks the sum and the difference on the way. -/
def checkedKeep? (s : Span) (cs : List Char) : Option (List Char) := do
  if cs.length ≤ (← sum? s.first s.last) then return cs
  let behind ← difference? cs.length s.last
  return maskWhere (fun i => s.first ≤ i && i < behind) s.maskChar 0 cs

theorem checkedKeep?_eq {s : Span} (h : s.first + s.last < UInt64.size) (cs : List Char) :
    s.checkedKeep? cs = some (s.keep cs) := by
  have hsum : sum? s.first s.last = some (s.first + s.last) := if_pos h
  by_cases hall : cs.length ≤ s.first + s.last
  · simp [checkedKeep?, keep, hsum, hall]
  · have hdifference : difference? cs.length s.last = some (cs.length - s.last) :=
      if_pos (by omega)
    simp [checkedKeep?, keep, hsum, hall, hdifference]

/-- What the two policies with this span make of a text. -/
structure Complements (s : Span) (text kept masked : String) : Prop where
  keeps : (Policy.keep s).apply (.str text) = .str kept
  masks : (Policy.mask s).apply (.str text) = .str masked
  checked : s.checkedKeep? text.toList = some kept.toList
  kept_length : kept.length = text.length
  masked_length : masked.length = text.length
  kept_at : ∀ i, kept.toList[i]? =
    text.toList[i]?.map fun own => if s.Covers text.length i then own else s.maskChar
  masked_at : ∀ i, masked.toList[i]? =
    text.toList[i]?.map fun own => if s.Covers text.length i then s.maskChar else own
  keeps_again : (Policy.keep s).apply (.str kept) = .str kept
  masks_again : (Policy.mask s).apply (.str masked) = .str masked

theorem keep_complements_mask {s : Span} (h : s.first + s.last < UInt64.size) (text : String) :
    ∃ kept masked, s.Complements text kept masked := by
  refine ⟨String.ofList (s.keep text.toList), String.ofList (s.mask text.toList), ?_⟩
  constructor
  case keeps => rfl
  case masks => rfl
  case checked => simpa using checkedKeep?_eq h text.toList
  case kept_length => simp [length_keep, String.length_toList]
  case masked_length => simp [length_mask, String.length_toList]
  case kept_at =>
    intro i
    simpa [String.length_toList] using getElem?_keep s text.toList i
  case masked_at =>
    intro i
    simpa [String.length_toList] using getElem?_mask s text.toList i
  case keeps_again => simp [Policy.apply, keep_keep]
  case masks_again => simp [Policy.apply, mask_mask]

theorem keep_complements_mask_wide :
    (⟨2, 1, '#'⟩ : Span).first + (⟨2, 1, '#'⟩ : Span).last < UInt64.size ∧
      (⟨2, 1, '#'⟩ : Span).Complements "aé😀bc" "aé##c" "##😀b#" := by
  have hsum : (⟨2, 1, '#'⟩ : Span).first + (⟨2, 1, '#'⟩ : Span).last < UInt64.size := by decide
  obtain ⟨kept, masked, h⟩ := keep_complements_mask hsum "aé😀bc"
  obtain rfl : kept = "aé##c" := Json.str.inj (h.keeps.symm.trans rfl)
  obtain rfl : masked = "##😀b#" := Json.str.inj (h.masks.symm.trans rfl)
  exact ⟨hsum, h⟩

end Span
end PlanWire.Redact
