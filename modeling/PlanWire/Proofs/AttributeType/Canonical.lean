import PlanWire.Proofs.AttributeType.Grammar
import PlanWire.Proofs.Json.Written

/-!
# The compact form is canonical

Equal types have one compact form and different types have different ones. That
does not follow from reading them back, since a type of too many levels is not
read back: what its tokens spell is unambiguous at any depth.
-/

set_option autoImplicit false

namespace PlanWire.AttributeType

mutual

theorem equals_iff : ∀ a b : AttributeType, a.equals b = true ↔ a = b
  | .primitive a, .primitive b => by simp [equals]
  | .collection a s, .collection b t => by simp [equals, equals_iff s t]
  | .object a, .object b => by simp [equals, equalFields_iff a b]
  | .primitive _, .collection _ _ | .primitive _, .object _ | .collection _ _, .primitive _
  | .collection _ _, .object _ | .object _, .primitive _ | .object _, .collection _ _ => by
    simp [equals]

theorem equalFields_iff : ∀ a b : List (String × AttributeType), equalFields a b = true ↔ a = b
  | [], [] => by simp [equalFields]
  | (m, s) :: a, (n, t) :: b => by
    simp [equalFields, equals_iff s t, equalFields_iff a b, and_assoc]
  | [], _ :: _ | _ :: _, [] => by simp [equalFields]

end

mutual

theorem rereads_encode : ∀ t : AttributeType, t.encode.Rereads
  | .primitive kind => Json.numbers_str kind.name
  | .collection kind element => by
    simp [encode, Json.numbers_arr, Json.numbers_str, rereads_encode element]
  | .object fields => by
    simp only [encode, Json.numbers_arr, List.forall_mem_cons, Json.numbers_obj]
    exact ⟨Json.numbers_str objectName, rereads_encodeFields fields, nofun⟩

theorem rereads_encodeFields : ∀ fields : List (String × AttributeType),
    ∀ member ∈ encodeFields fields, member.2.Rereads
  | [] => nofun
  | (_, t) :: rest => by
    rw [encodeFields, List.forall_mem_cons]
    exact ⟨rereads_encode t, rereads_encodeFields rest⟩

end

theorem encode_injective {a b : AttributeType} (h : a.encode = b.encode) : a = b := by
  have hdecode := decode_encode a
  rw [h, decode_encode b] at hdecode
  exact (Except.ok.inj hdecode).symm

theorem toBytes_injective {a b : AttributeType} (h : a.toBytes = b.toBytes) : a = b :=
  encode_injective (Json.bytes_injective (rereads_encode a) (rereads_encode b) h)

theorem toBytes_eq_of_text_eq {a b : AttributeType} (h : a.text = b.text) :
    a.toBytes = b.toBytes := by
  have hchars : Json.compactText a.encode = Json.compactText b.encode := String.ofList_injective h
  rw [toBytes, Json.bytes, hchars]
  rfl

/-- Types are equal exactly when their compact forms are the same bytes, and
exactly when they are shown by the same text. -/
theorem equals_iff_toBytes_eq (a b : AttributeType) :
    (a.equals b = true ↔ a.toBytes = b.toBytes) ∧ (a.equals b = true ↔ a.text = b.text) := by
  rw [equals_iff]
  refine ⟨⟨?_, toBytes_injective⟩, ⟨?_, ?_⟩⟩
  · rintro rfl
    rfl
  · rintro rfl
    rfl
  · intro h
    exact toBytes_injective (toBytes_eq_of_text_eq h)

end PlanWire.AttributeType
