import PlanWire.Config.Basic
import PlanWire.Proofs.Expression.Tree
import PlanWire.Proofs.State.Tree

/-!
# Configurations and their trees

Every type of a configuration obeys every law that expressions obey. A module
reaches the codec of modules through its calls, which may name one each.
-/

set_option autoImplicit false

namespace PlanWire

structure Law.OfExpressions (L : Law) : Prop where
  codec : ∀ n, L.holds n Expression.codec
  empty : L.default Expression.codec {}

theorem Law.lawful_ofExpressions : Law.lawful.OfExpressions :=
  ⟨Expression.lawful_codec, Expression.restores_empty⟩

theorem Law.relating_ofExpressions {R : Json → Json → Prop} {F : Json → Prop} (h : Json.Keeps R F)
    (hnull : R .null (.obj [])) (hempty : F (.obj [])) : (Law.relating h).OfExpressions :=
  ⟨Expression.relates_codec h hnull, hempty⟩

namespace Config

section Law

variable {L : Law} (he : L.OfExpressions)

include he

theorem Provider.obeys (n : Nat) : L.holds n record.codec :=
  Law.record <|
    .cons (.required L.text) <|
    .cons .text <|
    .cons .text <|
    .cons .text <|
    .cons (.dict (he.codec n)) <|
    .cons .text .nil

theorem Provisioner.obeys (n : Nat) : L.holds n record.codec :=
  Law.record <| .cons (.required L.text) <| .cons (.dict (he.codec n)) .nil

theorem Resource.obeys (n : Nat) : L.holds n record.codec :=
  Law.record <|
    .cons (.required L.text) <|
    .cons (.required (ResourceMode.obeys L n)) <|
    .cons (.required L.text) <|
    .cons (.required L.text) <|
    .cons .text <|
    .cons (.list (Provisioner.obeys he n)) <|
    .cons (.dict (he.codec n)) <|
    .cons (.filled L.count L.default_count) <|
    .cons (.optional (he.codec n)) <|
    .cons (.optional (he.codec n)) <|
    .cons (.list L.text) .nil

theorem Output.obeys (n : Nat) : L.holds n record.codec :=
  Law.record <|
    .cons .flag <|
    .cons (.filled (he.codec n) he.empty) <|
    .cons .text <|
    .cons (.list L.text) .nil

omit he in
theorem Variable.obeys (L : Law) (n : Nat) : L.holds n record.codec :=
  Law.record <| .cons .kept <| .cons .text <| .cons .flag .nil

theorem Call.obeys {M : Type} {module : Codec M} {n : Nat} (h : L.holds n module) :
    L.holds n (Call.record module).codec :=
  Law.record <|
    .cons (.required L.text) <|
    .cons (.dict (he.codec n)) <|
    .cons (.optional (he.codec n)) <|
    .cons (.optional (he.codec n)) <|
    .cons (.optional h) <|
    .cons .text <|
    .cons (.list L.text) .nil

end Law

theorem Call.agreeBelow {M : Type} {c d : Codec M} {n : Nat} (h : c.AgreeBelow n d) :
    (Call.record c).codec.AgreeBelow (n + 1) (Call.record d).codec :=
  Record.AgreeBelow.codec <| .of_fields <|
    .same _ <| .same _ <| .same _ <| .same _ <| .cons rfl rfl h.optional <| .refl _

theorem Call.encode_congr {M : Type} {c d : Codec M} {call : Call M}
    (h : ∀ m ∈ call.module, c.encode m = d.encode m) :
    (Call.record c).codec.encode call = (Call.record d).codec.encode call :=
  congrArg Json.obj <|
    Fields.encode_same _ <| Fields.encode_same _ <| Fields.encode_same _ <| Fields.encode_same _ <|
      Fields.encode_congr rfl rfl (Codec.encode_optional_congr h) rfl

namespace Module

theorem height_lt_heightOf {m : Module} {name : String} {call : Call Module}
    {calls : List (String × Call Module)} (h : (name, call) ∈ calls) (hm : m ∈ call.module) :
    height m < heightOf calls := by
  induction calls with
  | nil => cases h
  | cons first rest ih =>
    obtain ⟨other, source, _, _, _, module, _, _⟩ := first
    cases module with
    | none =>
      rcases List.mem_cons.1 h with he | hr
      · cases he
        cases hm
      · simpa only [heightOf] using ih hr
    | some n =>
      rw [heightOf]
      rcases List.mem_cons.1 h with he | hr
      · cases he
        cases hm
        exact Nat.lt_of_succ_le (Nat.le_max_left ..)
      · exact Nat.lt_of_lt_of_le (ih hr) (Nat.le_max_right ..)

theorem height_lt_of_mem {m inner : Module} {name : String} {call : Call Module}
    (h : (name, call) ∈ m.calls) (hm : inner ∈ call.module) : height inner < height m := by
  obtain ⟨outputs, resources, calls, declarations⟩ := m
  rw [height]
  exact height_lt_heightOf h hm

theorem grounded : Codec.Grounded (fun inner => (record inner).codec) height where
  decode h := Codec.AgreeBelow.of_succ <| Record.AgreeBelow.codec <| .of_fields <|
    .same _ <| .same _ <| .cons rfl rfl (Call.agreeBelow h).dict <| .refl _
  encode h := congrArg Json.obj <|
    Fields.encode_same _ <| Fields.encode_same _ <|
      Fields.encode_congr rfl rfl
        (Codec.encode_dict_congr fun _ _ hcall =>
          Call.encode_congr fun m hm => h m (height_lt_of_mem hcall hm)) rfl

theorem obeys {L : Law} (he : L.OfExpressions) (n : Nat) : L.holds n codec :=
  Law.recursive grounded (fun h => L.record_succ <|
    .cons (.dict (Output.obeys he _)) <|
    .cons (.list (Resource.obeys he _)) <|
    .cons (.dict (Call.obeys he h)) <|
    .cons (.dict (Variable.obeys L _)) .nil) n

end Module

theorem obeys {L : Law} (he : L.OfExpressions) (n : Nat) : L.holds n codec :=
  Law.record <|
    .cons (.dict (Provider.obeys he n)) <| .cons (.optional (Module.obeys he n)) .nil

end Config
end PlanWire
