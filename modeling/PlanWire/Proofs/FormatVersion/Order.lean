import PlanWire.Proofs.FormatVersion.Grammar
import PlanWire.Proofs.FormatVersion.Supported

/-!
# The order of versions and the check by it

Versions are ordered by their numbers, and of two versions with the same
numbers the prerelease stands below the release. The order is linear. A text
passes the check of a range when it is read as a version that is no prerelease
and lies in the range, so nothing counts of the text but the version.
-/

set_option autoImplicit false

namespace PlanWire.FormatVersion

variable {v w : FormatVersion}

instance : Std.TransOrd FormatVersion :=
  inferInstanceAs (Std.TransCmp (compareLex (compareOn major)
    (compareLex (compareOn minor) (compareOn fun v : FormatVersion => !v.prerelease))))

theorem compare_eq (v w : FormatVersion) :
    compare v w = (compare v.major w.major).then
      ((compare v.minor w.minor).then (compare (!v.prerelease) (!w.prerelease))) := rfl

instance : Std.LawfulEqOrd FormatVersion where
  eq_of_compare {v w} h := by
    obtain ⟨major, minor, prerelease⟩ := v
    obtain ⟨major', minor', prerelease'⟩ := w
    simpa only [compare_eq, Ordering.then_eq_eq, Std.LawfulEqOrd.compare_eq_iff_eq,
      Bool.not_inj_iff, ← mk.injEq] using h

instance : Std.IsLinearOrder FormatVersion := .of_ord

/-- The major number is less, or it is the same and the minor number is less. -/
def NumbersBelow (v w : FormatVersion) : Prop :=
  v.major < w.major ∨ v.major = w.major ∧ v.minor < w.minor

theorem compare_not_eq_lt {a b : Bool} : compare (!a) (!b) = .lt ↔ a = true ∧ b = false := by
  cases a <;> cases b <;> decide

/-- Behind the numbers only a prerelease is less than a release. -/
theorem lt_iff : v < w ↔ NumbersBelow v w ∨
    (v.major = w.major ∧ v.minor = w.minor) ∧ v.prerelease = true ∧ w.prerelease = false := by
  change compare v w = .lt ↔ _
  simp only [compare_eq, Ordering.then_eq_lt, Nat.compare_eq_lt, Nat.compare_eq_eq,
    compare_not_eq_lt, NumbersBelow, and_or_left, or_assoc, and_assoc]

/-- The order is linear, and versions are equal when they compare as equal. A
prerelease stands below its release and above all versions with lesser numbers. -/
structure OrderLaws : Prop where
  linear : Std.IsLinearOrder FormatVersion
  strict : ∀ v w : FormatVersion, v < w ↔ v ≤ w ∧ ¬ w ≤ v
  equal : ∀ v w : FormatVersion, compare v w = .eq ↔ v = w
  below_release : ∀ v : FormatVersion, v.prerelease = true → v < release v.major v.minor
  above_lesser : ∀ v w : FormatVersion, v.prerelease = true → NumbersBelow w v → w < v

theorem orderLaws : OrderLaws where
  linear := inferInstance
  strict _ _ := Std.lt_iff_le_and_not_ge
  equal _ _ := Std.LawfulEqOrd.compare_eq_iff_eq
  below_release _ hv := lt_iff.2 (.inr ⟨⟨rfl, rfl⟩, hv, rfl⟩)
  above_lesser _ _ _ hw := lt_iff.2 (.inl hw)

section Release

variable {major minor : Nat} (hv : v.prerelease = false)

include hv

theorem lt_release : v < release major minor ↔
    v.major < major ∨ v.major = major ∧ v.minor < minor := by
  simp [lt_iff, hv, NumbersBelow, release]

theorem release_le : release major minor ≤ v ↔
    major < v.major ∨ major = v.major ∧ minor ≤ v.minor := by
  have hnot : release major minor ≤ v ↔ ¬ NumbersBelow v (release major minor) := by
    rw [← Std.not_lt, lt_iff]
    simp [hv]
  rw [hnot]
  simp only [NumbersBelow, release]
  omega

end Release

theorem accepted_of_read {range : Range} {text : String} (h : ofString? text = some v) :
    Accepted range text ↔ v.prerelease = false ∧ range.least ≤ v ∧ v < range.bound := by
  simp [Accepted, h]

theorem supported_of_read {text : String} (h : ofString? text = some v) :
    Supported text ↔ v.prerelease = false ∧ (v.major = 1 ∨ v.major = 0 ∧ 1 ≤ v.minor) := by
  rw [Supported, accepted_of_read h]
  refine and_congr_right fun hv => ?_
  rw [release_le hv, lt_release hv]
  omega

/-- The order obeys its laws. A text passes the check of a range exactly when it
is not empty and is read as a version of the range that is no prerelease. The
range that documents are checked by asks for the major number 1, or for 0 and a
minor number from 1 on, however the version is spelled. Texts of one version
pass together or not at all. -/
theorem gated_by_numbers :
    OrderLaws ∧
    (∀ (range : Range) (kind : DocumentKind) (text : String),
      checkIn range kind text = .ok () ↔
        text ≠ "" ∧ ∃ v, ofString? text = some v ∧ v.prerelease = false ∧
          range.least ≤ v ∧ v < range.bound) ∧
    (∀ (kind : DocumentKind) (text : String),
      check kind text = .ok () ↔
        ∃ v, ofString? text = some v ∧ v.prerelease = false ∧
          (v.major = 1 ∨ v.major = 0 ∧ 1 ≤ v.minor)) ∧
    (∀ (kind : DocumentKind) (text : String) (v : FormatVersion), Spells text.toList v →
      (check kind text = .ok () ↔
        v.prerelease = false ∧ (v.major = 1 ∨ v.major = 0 ∧ 1 ≤ v.minor))) ∧
    ∀ (range : Range) (kind other : DocumentKind) (text same : String) (v : FormatVersion),
      ofString? text = some v → ofString? same = some v →
        (checkIn range kind text = .ok () ↔ checkIn range other same = .ok ()) := by
  refine ⟨orderLaws, ?_, ?_, ?_, ?_⟩
  · intro range kind text
    rw [checkIn_eq_ok]
    refine ⟨fun h => ⟨?_, h⟩, And.right⟩
    rintro rfl
    obtain ⟨v, hread, -⟩ := h
    cases hread
  · intro kind text
    rw [check_eq_ok]
    constructor
    · rintro ⟨v, hread, h⟩
      exact ⟨v, hread, (supported_of_read hread).1 ⟨v, hread, h⟩⟩
    · rintro ⟨v, hread, h⟩
      exact (supported_of_read hread).2 h
  · intro kind text v hspells
    rw [check_eq_ok]
    exact supported_of_read (ofChars?_of_spells hspells)
  · intro range kind other text same v htext hsame
    rw [checkIn_eq_ok, checkIn_eq_ok, accepted_of_read htext, accepted_of_read hsame]

/-- A prerelease of the upper bound lies in the range and is refused. -/
example : ofString? "2.0-rc1" = some ⟨2, 0, true⟩ ∧ supported.contains ⟨2, 0, true⟩ = true ∧
    check .plan "2.0-rc1" =
      .error (.unsupportedFormatVersion .plan "2.0-rc1" (release 0 1) (release 2 0)) :=
  ⟨rfl, rfl, rfl⟩

end PlanWire.FormatVersion
