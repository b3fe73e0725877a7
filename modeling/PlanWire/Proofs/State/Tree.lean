import PlanWire.Proofs.Wire.Law
import PlanWire.State.Basic

/-!
# States and their trees

Every type of a state obeys every law of codecs. A module asks for the codec of
modules only one level below itself.
-/

set_option autoImplicit false

namespace PlanWire

theorem ResourceMode.obeys (L : Law) (n : Nat) : L.holds n codec :=
  L.variant fun mode => by cases mode <;> rfl

namespace State

theorem Resource.obeys (L : Law) (n : Nat) : L.holds n record.codec :=
  Law.record <|
    .cons (.required L.text) <|
    .cons (.required (ResourceMode.obeys L n)) <|
    .cons (.required L.text) <|
    .cons (.required L.text) <|
    .cons (.optional L.value) <|
    .cons .text <|
    .cons (.filled L.count L.default_count) <|
    .cons (.dict L.value) <|
    .cons (.optional L.value) <|
    .cons (.list L.text) <|
    .cons .flag <|
    .cons .text .nil

theorem Output.obeys (L : Law) (n : Nat) : L.holds n record.codec :=
  Law.record <|
    .cons (.filled L.flag L.default_flag) <| .cons .kept <| .cons (.optional L.value) .nil

namespace Module

theorem height_lt_heightOf {child : Module} {children : List Module} (h : child ∈ children) :
    height child < heightOf children := by
  induction children with
  | nil => cases h
  | cons first rest ih =>
    rw [heightOf]
    rcases List.mem_cons.1 h with rfl | hr
    · exact Nat.lt_of_succ_le (Nat.le_max_left ..)
    · exact Nat.lt_of_lt_of_le (ih hr) (Nat.le_max_right ..)

theorem height_lt_of_mem {m child : Module} (h : child ∈ m.children) : height child < height m := by
  obtain ⟨resources, address, children⟩ := m
  rw [height]
  exact height_lt_heightOf h

theorem grounded : Codec.Grounded (fun inner => (record inner).codec) height where
  decode h := Record.AgreeBelow.codec <| .of_fields <|
    .same _ <| .same _ <| .cons rfl rfl h.list .nil
  encode h := congrArg Json.obj <|
    Fields.encode_same _ <| Fields.encode_same _ <|
      Fields.encode_congr rfl rfl
        (Codec.encode_list_congr fun child hc => h child (height_lt_of_mem hc)) rfl

theorem obeys (L : Law) (n : Nat) : L.holds n codec :=
  Law.recursive grounded (fun h => L.record_succ <|
    .cons (.list (Resource.obeys L _)) <| .cons .text <| .cons (.list h) .nil) n

end Module

theorem Values.obeys (L : Law) (n : Nat) : L.holds n record.codec :=
  Law.record <| .cons (.dict (Output.obeys L n)) <| .cons (.optional (Module.obeys L n)) .nil

theorem fields_obey (L : Law) (n : Nat) : record.fields.Have L.toProperty n :=
  .cons (.filled L.text L.default_text) <|
  .cons .text <|
  .cons (.optional (Values.obeys L n)) <|
  .cons (.optional L.value) .nil

theorem obeys (L : Law) (n : Nat) : L.holds n codec := Law.record (fields_obey L n)

theorem lawful_fields (n : Nat) : record.fields.Lawful n :=
  Fields.lawful_of_have (fields_obey .lawful n)

end State
end PlanWire
