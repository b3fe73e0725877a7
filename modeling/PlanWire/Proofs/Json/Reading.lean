import PlanWire.Proofs.Json.Paths
import PlanWire.Proofs.Json.Spelling

/-!
# Trees that are read

The reader returns the tree that the tokens of a text spell, sorted, unless it
is deeper than allowed. So every tree that is read is well formed and within
the limit. That a key is repeated shows only in the tree that is spelled.
-/

set_option autoImplicit false

namespace PlanWire.Json

def RepeatsNoKey (bytes : List UInt8) : Prop := ∀ j, Spells (tokens bytes) j → j.KeysDiffer

theorem read_eq_some_iff_readFront {bytes : List UInt8} {v : Json} :
    read bytes = some v ↔ readFront nestingLimit (tokens bytes) = some (v, []) := by
  unfold read
  split
  · next w hw => simp [hw]
  · next hw =>
    constructor
    · nofun
    · intro h
      exact absurd h (hw v)

/-- The tree of a text is the tree that its tokens spell, sorted. -/
theorem read_eq_some {bytes : List UInt8} {v : Json} :
    read bytes = some v ↔
      ∃ j, Spells (tokens bytes) j ∧ j.nesting ≤ nestingLimit ∧ v = j.sorted := by
  rw [read_eq_some_iff_readFront, readFront_eq_some]
  constructor
  · rintro ⟨us, j, hj, hts, hdeep, hv⟩
    rw [List.append_nil] at hts
    exact ⟨j, hts ▸ hj, hdeep, hv⟩
  · rintro ⟨j, hj, hdeep, hv⟩
    exact ⟨_, j, hj, (List.append_nil _).symm, hdeep, hv⟩

theorem read_of_spells {bytes : List UInt8} {j : Json} (h : Spells (tokens bytes) j) :
    read bytes = within nestingLimit j.nesting (some j.sorted) := by
  rw [read, ← List.append_nil (tokens bytes), readFront_of_spells h]
  by_cases hdeep : j.nesting ≤ nestingLimit
  · rw [within_of_le _ hdeep, within_of_le _ hdeep]
  · rw [within_of_lt _ (Nat.not_le.1 hdeep), within_of_lt _ (Nat.not_le.1 hdeep)]

theorem wellFormed_of_read {bytes : List UInt8} {v : Json} (h : read bytes = some v) :
    v.WellFormed := by
  obtain ⟨j, -, -, rfl⟩ := read_eq_some.1 h
  exact wellFormed_sorted j

theorem nesting_le_of_read {bytes : List UInt8} {v : Json} (h : read bytes = some v) :
    v.nesting ≤ nestingLimit := by
  obtain ⟨j, -, hdeep, rfl⟩ := read_eq_some.1 h
  exact Nat.le_trans (nesting_sorted_le j) hdeep

end PlanWire.Json
