import PlanWire.Proofs.AttributeType.Bytes
import PlanWire.Proofs.AttributeType.Tree

/-!
# The grammar of attribute types

A tree is read as a type exactly when it is the tree written for this type, so
no tree has two readings and no type two trees. The trees that are read at all
are given by the rules of a grammar, which knows nothing of types: every tree
that the rules do not make is refused, wherever in it they are broken.
-/

set_option autoImplicit false

namespace PlanWire.AttributeType

/-- A name of a primitive type; a pair of a collection kind and a tree of the
grammar; or a pair of the object kind and an object of such trees. -/
inductive InGrammar : Json → Prop
  | primitive {name : String} (known : name ∈ ["bool", "number", "string"]) :
      InGrammar (.str name)
  | collection {kind : String} {j : Json} (known : kind ∈ ["list", "set", "map"])
      (element : InGrammar j) : InGrammar (.arr [.str kind, j])
  | object {members : List (String × Json)} (fields : ∀ member ∈ members, InGrammar member.2) :
      InGrammar (.arr [.str "object", .obj members])

theorem mem_primitive_names {name : String} :
    name ∈ ["bool", "number", "string"] ↔ ∃ kind : PrimitiveKind, kind.name = name := by
  constructor
  · intro h
    simp only [List.mem_cons, List.not_mem_nil, or_false] at h
    rcases h with rfl | rfl | rfl
    · exact ⟨.bool, rfl⟩
    · exact ⟨.number, rfl⟩
    · exact ⟨.string, rfl⟩
  · rintro ⟨kind, rfl⟩
    cases kind <;> simp [PrimitiveKind.name]

theorem mem_collection_names {name : String} :
    name ∈ ["list", "set", "map"] ↔ ∃ kind : CollectionKind, kind.name = name := by
  constructor
  · intro h
    simp only [List.mem_cons, List.not_mem_nil, or_false] at h
    rcases h with rfl | rfl | rfl
    · exact ⟨.list, rfl⟩
    · exact ⟨.set, rfl⟩
    · exact ⟨.map, rfl⟩
  · rintro ⟨kind, rfl⟩
    cases kind <;> simp [CollectionKind.name]

mutual

theorem inGrammar_encode : ∀ t : AttributeType, InGrammar t.encode
  | .primitive kind => .primitive (mem_primitive_names.2 ⟨kind, rfl⟩)
  | .collection kind element =>
    .collection (mem_collection_names.2 ⟨kind, rfl⟩) (inGrammar_encode element)
  | .object fields => .object (inGrammar_encodeFields fields)

theorem inGrammar_encodeFields : ∀ fields : List (String × AttributeType),
    ∀ member ∈ encodeFields fields, InGrammar member.2
  | [], member, h => by simp [encodeFields] at h
  | (_, t) :: rest, member, h => by
    rcases List.mem_cons.1 h with rfl | h
    · exact inGrammar_encode t
    · exact inGrammar_encodeFields rest member h

end

theorem exists_encodeFields {members : List (String × Json)}
    (h : ∀ member ∈ members, ∃ t : AttributeType, t.encode = member.2) :
    ∃ fields, encodeFields fields = members := by
  induction members with
  | nil => exact ⟨[], rfl⟩
  | cons member rest ih =>
    obtain ⟨name, j⟩ := member
    obtain ⟨t, ht⟩ := h (name, j) (List.mem_cons_self ..)
    obtain ⟨fields, hf⟩ := ih fun member hm => h member (List.mem_cons_of_mem _ hm)
    refine ⟨(name, t) :: fields, ?_⟩
    rw [encodeFields, ht, hf]

theorem exists_encode_of_inGrammar {v : Json} (h : InGrammar v) :
    ∃ t : AttributeType, t.encode = v := by
  induction h with
  | primitive known =>
    obtain ⟨kind, rfl⟩ := mem_primitive_names.1 known
    exact ⟨.primitive kind, rfl⟩
  | collection known _ ih =>
    obtain ⟨kind, rfl⟩ := mem_collection_names.1 known
    obtain ⟨element, rfl⟩ := ih
    exact ⟨.collection kind element, rfl⟩
  | object _ ih =>
    obtain ⟨fields, rfl⟩ := exists_encodeFields ih
    exact ⟨.object fields, rfl⟩

mutual

theorem decode_encode : ∀ t : AttributeType, decode t.encode = .ok t
  | .primitive kind => by rw [encode, decode, ofName_name]
  | .collection kind element => by
    have he : decode element.encode = .ok element := decode_encode element
    rw [encode]
    unfold decode
    simp only [ofName?_name, he]
    rfl
  | .object fields => by
    have hf : decodeFields (encodeFields fields) = .ok fields := decodeFields_encodeFields fields
    simp only [encode, decode, objectName_not_collection, if_true, hf]
    rfl

theorem decodeFields_encodeFields : ∀ fields : List (String × AttributeType),
    decodeFields (encodeFields fields) = .ok fields
  | [] => by simp [encodeFields, decodeFields]
  | (name, t) :: rest => by
    simp only [encodeFields, decodeFields, decode_encode t, decodeFields_encodeFields rest]
    rfl

end

/-- A tree is read as a type exactly when it is the tree of that type, and some
type is read from it exactly when it is in the grammar. -/
theorem decode_eq_ok (v : Json) :
    (∀ t, decode v = .ok t ↔ v = t.encode) ∧ ((∃ t, decode v = .ok t) ↔ InGrammar v) := by
  have hread : ∀ t, decode v = .ok t ↔ v = t.encode := by
    intro t
    constructor
    · intro h
      exact (encode_of_decode h).symm
    · rintro rfl
      exact decode_encode t
  refine ⟨hread, ?_⟩
  constructor
  · rintro ⟨t, ht⟩
    rw [(hread t).1 ht]
    exact inGrammar_encode t
  · intro hv
    obtain ⟨t, ht⟩ := exists_encode_of_inGrammar hv
    exact ⟨t, (hread t).2 ht.symm⟩

end PlanWire.AttributeType
