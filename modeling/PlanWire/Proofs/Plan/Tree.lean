import PlanWire.Plan.Basic
import PlanWire.Proofs.Config.Tree

/-!
# Plans and their trees

Every type of a plan obeys every law that expressions obey. An action is read in
two spellings and written in one of them.
-/

set_option autoImplicit false

namespace PlanWire

theorem Action.obeys (L : Law) (n : Nat) : L.holds n codec :=
  L.variant fun action => by cases action <;> rfl

theorem Importing.obeys (L : Law) (n : Nat) : L.holds n record.codec :=
  Law.record <| .cons .text <| .cons (.optional L.value) .nil

theorem Change.obeys (L : Law) (n : Nat) : L.holds n codec :=
  Law.record <|
    .cons (.required (L.list (Action.obeys L n))) <|
    .cons .kept <|
    .cons .kept <|
    .cons .kept <|
    .cons .kept <|
    .cons .kept <|
    .cons (.optional L.value) <|
    .cons (.optional (Importing.obeys L n)) <|
    .cons .text .nil

namespace Plan

theorem Variable.obeys (L : Law) (n : Nat) : L.holds n record.codec :=
  Law.record <| .cons .kept .nil

theorem ResourceChange.obeys (L : Law) (n : Nat) : L.holds n record.codec :=
  Law.record <|
    .cons (.required L.text) <|
    .cons .text <|
    .cons .text <|
    .cons (.required (ResourceMode.obeys L n)) <|
    .cons (.required L.text) <|
    .cons (.required L.text) <|
    .cons (.optional L.value) <|
    .cons .text <|
    .cons (.optional (Change.obeys L n)) <|
    .cons .text <|
    .cons .text .nil

theorem RelevantAttribute.obeys (L : Law) (n : Nat) : L.holds n record.codec :=
  Law.record <| .cons (.required L.text) <| .cons (.required (L.list L.value)) .nil

theorem fields_obey {L : Law} (he : L.OfExpressions) (n : Nat) :
    record.fields.Have L.toProperty n :=
  .cons (.required L.text) <|
  .cons .text <|
  .cons (.dict (Variable.obeys L n)) <|
  .cons (.optional (State.Values.obeys L n)) <|
  .cons (.list (ResourceChange.obeys L n)) <|
  .cons (.list (ResourceChange.obeys L n)) <|
  .cons (.dict (Change.obeys L n)) <|
  .cons (.optional (State.obeys L n)) <|
  .cons (.optional (Config.obeys he n)) <|
  .cons (.list (RelevantAttribute.obeys L n)) <|
  .cons (.optional L.value) <|
  .cons .text <|
  .cons (.filled L.flag L.default_flag) <|
  .cons .flag <|
  .cons .flag .nil

theorem lawful_fields (n : Nat) : record.fields.Lawful n :=
  Fields.lawful_of_have (fields_obey Law.lawful_ofExpressions n)

end Plan
end PlanWire
