import PlanWire.Rule

/-!
# Supported format versions

A text names a supported version when it is the text of a version from 0.1 on
and below 2.0 that is no prerelease. These are the texts that pass the check of
a document.
-/

set_option autoImplicit false

namespace PlanWire.FormatVersion

def Accepted (range : Range) (text : String) : Prop :=
  ∃ v, ofString? text = some v ∧ v.prerelease = false ∧ range.least ≤ v ∧ v < range.bound

def Supported (text : String) : Prop := Accepted ⟨release 0 1, release 2 0⟩ text

theorem ofString?_empty : ofString? "" = none := rfl

theorem Range.contains_iff {range : Range} {v : FormatVersion} :
    range.contains v = true ↔ range.least ≤ v ∧ v < range.bound := by
  simp [Range.contains]

theorem checkIn_eq_ok {range : Range} {kind : DocumentKind} {text : String} :
    checkIn range kind text = .ok () ↔ Accepted range text := by
  by_cases hempty : text = ""
  · subst hempty
    simp [checkIn, Accepted, ofString?_empty]
  · cases hv : ofString? text with
    | none => simp [checkIn, Accepted, hempty, hv]
    | some v =>
      have hone : Accepted range text ↔ v.prerelease = false ∧ range.contains v = true := by
        simp [Accepted, hv, Range.contains_iff]
      rw [hone]
      cases hp : v.prerelease <;> simp [checkIn, hempty, hv, hp]

theorem check_eq_ok {kind : DocumentKind} {text : String} :
    check kind text = .ok () ↔ Supported text := checkIn_eq_ok

end PlanWire.FormatVersion
