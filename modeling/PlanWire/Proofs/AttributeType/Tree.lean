import PlanWire.AttributeType.Basic
import PlanWire.Proofs.Wire.Laws

/-!
# Attribute types and their trees

A tree that is read as a type is the tree that is written for this type, so
reading loses nothing.
-/

set_option autoImplicit false

namespace PlanWire

theorem PrimitiveKind.name_of_ofName? {name : String} {kind : PrimitiveKind}
    (h : ofName? name = some kind) : kind.name = name := by
  unfold ofName? at h
  split at h <;> cases h <;> rfl

theorem CollectionKind.name_of_ofName? {name : String} {kind : CollectionKind}
    (h : ofName? name = some kind) : kind.name = name := by
  unfold ofName? at h
  split at h <;> cases h <;> rfl

namespace AttributeType

theorem encode_of_ofName {name : String} {t : AttributeType} (h : ofName name = .ok t) :
    t.encode = .str name := by
  unfold ofName at h
  split at h
  · next kind hk =>
    cases h
    rw [encode, PrimitiveKind.name_of_ofName? hk]
  · cases h

theorem ending_eq_ok {t u : AttributeType} {rest : List Json} :
    ending t rest = .ok u ↔ rest = [] ∧ t = u := by
  cases rest <;> simp [ending]

theorem decode_description {kind : String} {rest : List Json} {t : AttributeType}
    (h : decode (.arr (.str kind :: rest)) = .ok t) :
    (∃ k j element, CollectionKind.ofName? kind = some k ∧ rest = [j] ∧
      decode j = .ok element ∧ t = .collection k element) ∨
    (∃ members fields, kind = objectName ∧ rest = [.obj members] ∧
      decodeFields members = .ok fields ∧ t = .object fields) := by
  unfold decode at h
  split at h
  · next k hk =>
    cases rest with
    | nil => cases h
    | cons j rest =>
      simp only [bind_eq_ok, ending_eq_ok] at h
      obtain ⟨element, he, rfl, rfl⟩ := h
      exact .inl ⟨k, j, element, hk, rfl, he, rfl⟩
  · split at h
    · next hk =>
      split at h
      · cases h
      · next members rest =>
        simp only [bind_eq_ok, ending_eq_ok] at h
        obtain ⟨fields, hf, rfl, rfl⟩ := h
        exact .inr ⟨members, fields, hk, rfl, hf, rfl⟩
      · cases h
    · cases h

mutual

theorem encode_of_decode : ∀ {j : Json} {t : AttributeType}, decode j = .ok t → t.encode = j
  | .str name, t, h => encode_of_ofName (by simpa [decode] using h)
  | .arr (.str kind :: rest), t, h => by
    rcases decode_description h with ⟨k, j, element, hk, rfl, he, rfl⟩ |
      ⟨members, fields, rfl, rfl, hf, rfl⟩
    · rw [encode, encode_of_decode he, CollectionKind.name_of_ofName? hk]
    · rw [encode, encodeFields_of_decodeFields hf]
  | .arr [], t, h => by simp [decode] at h
  | .arr (.null :: _), t, h | .arr (.bool _ :: _), t, h | .arr (.num _ :: _), t, h
  | .arr (.arr _ :: _), t, h | .arr (.obj _ :: _), t, h => by simp [decode] at h
  | .null, t, h | .bool _, t, h | .num _, t, h | .obj _, t, h => by
    simp [decode, Codec.mismatch] at h

theorem encodeFields_of_decodeFields : ∀ {members : List (String × Json)}
    {fields : List (String × AttributeType)}, decodeFields members = .ok fields →
    encodeFields fields = members
  | [], fields, h => by
    obtain rfl : [] = fields := by simpa [decodeFields] using h
    rfl
  | (n, j) :: rest, fields, h => by
    simp only [decodeFields, bind_eq_ok] at h
    obtain ⟨t, ht, ts, hts, h⟩ := h
    cases h
    rw [encodeFields, encode_of_decode ht, encodeFields_of_decodeFields hts]

end

theorem encode_ne_null (t : AttributeType) : t.encode ≠ .null := by
  cases t <;> simp [encode]

theorem lawful_codec (n : Nat) : codec.Lawful n where
  restores {j t} hw _ hd := by
    have ht : t.encode = j := encode_of_decode hd
    change decode t.encode.sorted = .ok t
    rw [ht, Json.sorted_of_wellFormed j hw]
    exact hd
  present _ _ _ := encode_ne_null _

end AttributeType
end PlanWire
