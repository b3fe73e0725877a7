import PlanWire.Proofs.AttributeType.Tree
import PlanWire.Proofs.Wire.Relating
import PlanWire.Schema.Basic

/-!
# Schemas and their trees

Every type of a function obeys every law that types of attributes obey, and so
does every type of a schema if attributes may be written that were absent. An
attribute reaches the codec of attributes through those that it nests, and a block
reaches the codec of blocks through the types of the blocks inside it.
-/

set_option autoImplicit false

namespace PlanWire

def Law.OfTypes (L : Law) : Prop := ∀ n, L.holds n AttributeType.codec

theorem Law.lawful_ofTypes : Law.lawful.OfTypes := AttributeType.lawful_codec

theorem Law.relating_ofTypes {R : Json → Json → Prop} {F : Json → Prop} (h : Json.Keeps R F) :
    (Law.relating h).OfTypes := by
  intro n j t _ _ hd
  have hj : t.encode = j := AttributeType.encode_of_decode hd
  change R j t.encode
  rw [hj]
  exact h.same j

namespace Function

variable {L : Law} (ht : L.OfTypes)

include ht

theorem Parameter.obeys (n : Nat) : L.holds n record.codec :=
  Law.record <|
    .cons (.required L.text) <|
    .cons .text <|
    .cons .flag <|
    .cons (.required (ht n)) .nil

theorem Signature.obeys (n : Nat) : L.holds n record.codec :=
  Law.record <|
    .cons .text <|
    .cons .text <|
    .cons .text <|
    .cons (.required (ht n)) <|
    .cons (.list (Parameter.obeys ht n)) <|
    .cons (.optional (Parameter.obeys ht n)) .nil

end Function

theorem MetadataFunctions.fields_obey {L : Law} (ht : L.OfTypes) (n : Nat) :
    record.fields.Have L.toProperty n :=
  .cons (.required L.text) <| .cons (.dict (Function.Signature.obeys ht n)) .nil

theorem MetadataFunctions.lawful_fields (n : Nat) : record.fields.Lawful n :=
  Fields.lawful_of_have (fields_obey Law.lawful_ofTypes n)

namespace Schema

theorem DescriptionKind.obeys (L : Law) (n : Nat) : L.holds n codec :=
  L.variant fun kind => by cases kind <;> rfl

theorem NestingMode.obeys (L : Law) (n : Nat) : L.holds n codec :=
  L.variant fun mode => by cases mode <;> rfl

theorem Nested.obeys {L : Law} (hc : L.FillsContainers) {A : Type} {inner : Codec A} {n : Nat}
    (h : L.holds n inner) : L.holds n (record inner).codec :=
  Law.record <|
    .cons (.filled (L.dict h) (hc.dict _)) <|
    .cons (.required (NestingMode.obeys L n)) <|
    .cons .count <|
    .cons .count .nil

theorem Nested.agreeBelow {A : Type} {c d : Codec A} {n : Nat} (h : c.AgreeBelow n d) :
    (record c).codec.AgreeBelow (n + 1) (record d).codec :=
  Record.AgreeBelow.codec <| .of_fields <| .cons rfl rfl h.dict <| .refl _

theorem Nested.encode_congr {A : Type} {c d : Codec A} {nested : Nested A}
    (h : ∀ name a, (name, a) ∈ nested.attributes → c.encode a = d.encode a) :
    (record c).codec.encode nested = (record d).codec.encode nested :=
  congrArg Json.obj <| Fields.encode_congr rfl rfl (Codec.encode_dict_congr h) rfl

theorem attribute_height_le {name : String} {a : Attribute} {attributes : List (String × Attribute)}
    (h : (name, a) ∈ attributes) : a.height ≤ attributeHeights attributes := by
  induction attributes with
  | nil => cases h
  | cons first rest ih =>
    rw [attributeHeights]
    rcases List.mem_cons.1 h with he | hr
    · cases he
      exact Nat.le_max_left ..
    · exact Nat.le_trans (ih hr) (Nat.le_max_right ..)

namespace Attribute

theorem height_lt_of_mem {a b : Attribute} {name : String} {nested : Nested Attribute}
    (hn : a.nested = some nested) (hb : (name, b) ∈ nested.attributes) : b.height < a.height := by
  obtain ⟨type, _, _, _, _, _, _, _, _, _⟩ := a
  cases hn
  rw [height]
  exact Nat.lt_succ_of_le (attribute_height_le hb)

theorem grounded : Codec.Grounded (fun inner => (record inner).codec) height where
  decode h := Codec.AgreeBelow.of_succ <| Record.AgreeBelow.codec <| .of_fields <|
    .same _ <| .cons rfl rfl (Nested.agreeBelow h).optional <| .refl _
  encode h := congrArg Json.obj <|
    Fields.encode_same _ <|
      Fields.encode_congr rfl rfl
        (Codec.encode_optional_congr fun _ hn =>
          Nested.encode_congr fun _ b hb => h b (height_lt_of_mem hn hb)) rfl

theorem obeys {L : Law} (ht : L.OfTypes) (hc : L.FillsContainers) (n : Nat) : L.holds n codec :=
  Law.recursive grounded (fun h => L.record_succ <|
    .cons (.optional (ht _)) <|
    .cons (.optional (Nested.obeys hc h)) <|
    .cons .text <|
    .cons (.optional (DescriptionKind.obeys L _)) <|
    .cons .flag <|
    .cons .flag <|
    .cons .flag <|
    .cons .flag <|
    .cons .flag <|
    .cons .flag .nil) n

end Attribute

theorem BlockTypeOf.obeys {L : Law} {B : Type} {block : Codec B} {n : Nat} (h : L.holds n block) :
    L.holds n (record block).codec :=
  Law.record <|
    .cons (.required (NestingMode.obeys L n)) <|
    .cons (.optional h) <|
    .cons .count <|
    .cons .count .nil

theorem BlockTypeOf.agreeBelow {B : Type} {c d : Codec B} {n : Nat} (h : c.AgreeBelow n d) :
    (record c).codec.AgreeBelow (n + 1) (record d).codec :=
  Record.AgreeBelow.codec <| .of_fields <| .same _ <| .cons rfl rfl h.optional <| .refl _

theorem BlockTypeOf.encode_congr {B : Type} {c d : Codec B} {t : BlockTypeOf B}
    (h : ∀ b ∈ t.block, c.encode b = d.encode b) :
    (record c).codec.encode t = (record d).codec.encode t :=
  congrArg Json.obj <|
    Fields.encode_same _ <| Fields.encode_congr rfl rfl (Codec.encode_optional_congr h) rfl

namespace Block

theorem height_lt_blockHeights {b : Block} {name : String} {t : BlockTypeOf Block}
    {types : List (String × BlockTypeOf Block)} (h : (name, t) ∈ types) (hb : b ∈ t.block) :
    b.height < blockHeights types := by
  induction types with
  | nil => cases h
  | cons first rest ih =>
    obtain ⟨other, nestingMode, block, _, _⟩ := first
    cases block with
    | none =>
      rcases List.mem_cons.1 h with he | hr
      · cases he
        cases hb
      · simpa only [blockHeights] using ih hr
    | some inner =>
      rw [blockHeights]
      rcases List.mem_cons.1 h with he | hr
      · cases he
        cases hb
        exact Nat.lt_of_succ_le (Nat.le_max_left ..)
      · exact Nat.lt_of_lt_of_le (ih hr) (Nat.le_max_right ..)

theorem height_lt_of_mem {b inner : Block} {name : String} {t : BlockTypeOf Block}
    (h : (name, t) ∈ b.blockTypes) (hb : inner ∈ t.block) : inner.height < b.height := by
  obtain ⟨attributes, types, description, descriptionKind, deprecated⟩ := b
  rw [height]
  exact height_lt_blockHeights h hb

theorem grounded : Codec.Grounded (fun inner => (record inner).codec) height where
  decode h := Codec.AgreeBelow.of_succ <| Record.AgreeBelow.codec <| .of_fields <|
    .same _ <| .cons rfl rfl (BlockTypeOf.agreeBelow h).dict <| .refl _
  encode h := congrArg Json.obj <|
    Fields.encode_same _ <|
      Fields.encode_congr rfl rfl
        (Codec.encode_dict_congr fun _ _ ht =>
          BlockTypeOf.encode_congr fun b hb => h b (height_lt_of_mem ht hb)) rfl

theorem obeys {L : Law} (ht : L.OfTypes) (hc : L.FillsContainers) (n : Nat) : L.holds n codec :=
  Law.recursive grounded (fun h => L.record_succ <|
    .cons (.dict (Attribute.obeys ht hc _)) <|
    .cons (.dict (BlockTypeOf.obeys h)) <|
    .cons .text <|
    .cons (.optional (DescriptionKind.obeys L _)) <|
    .cons .flag .nil) n

end Block

theorem obeys {L : Law} (ht : L.OfTypes) (hc : L.FillsContainers) (n : Nat) :
    L.holds n record.codec :=
  Law.record <|
    .cons (.filled L.count L.default_count) <| .cons (.optional (Block.obeys ht hc n)) .nil

end Schema

theorem ProviderSchema.obeys {L : Law} (ht : L.OfTypes) (hc : L.FillsContainers) (n : Nat) :
    L.holds n record.codec :=
  Law.record <|
    .cons (.optional (Schema.obeys ht hc n)) <|
    .cons (.dict (Schema.obeys ht hc n)) <|
    .cons (.dict (Schema.obeys ht hc n)) <|
    .cons (.dict (Schema.obeys ht hc n)) <|
    .cons (.dict (Function.Signature.obeys ht n)) .nil

theorem ProviderSchemas.fields_obey {L : Law} (ht : L.OfTypes) (hc : L.FillsContainers) (n : Nat) :
    record.fields.Have L.toProperty n :=
  .cons (.required L.text) <| .cons (.dict (ProviderSchema.obeys ht hc n)) .nil

theorem ProviderSchemas.lawful_fields (n : Nat) : record.fields.Lawful n :=
  Fields.lawful_of_have (fields_obey Law.lawful_ofTypes Law.lawful_fillsContainers n)

end PlanWire
