import PlanWire.Proofs.Wire.Law
import PlanWire.Report

/-!
# Reports and their trees

Every type of a report and every type of a diagnostic obeys every law under
which a list may be written although it was absent.
-/

set_option autoImplicit false

namespace PlanWire

namespace Diagnostic

theorem Severity.obeys (L : Law) (n : Nat) : L.holds n codec :=
  L.variant fun severity => by cases severity <;> rfl

theorem Position.obeys (L : Law) (n : Nat) : L.holds n record.codec :=
  Law.record <|
    .cons (.required L.count) <| .cons (.required L.count) <| .cons (.required L.count) .nil

theorem Range.obeys (L : Law) (n : Nat) : L.holds n record.codec :=
  Law.record <|
    .cons (.required L.text) <|
    .cons (.required (Position.obeys L n)) <|
    .cons (.required (Position.obeys L n)) .nil

theorem ExpressionValue.obeys (L : Law) (n : Nat) : L.holds n record.codec :=
  Law.record <| .cons (.required L.text) <| .cons (.required L.text) .nil

theorem Snippet.obeys {L : Law} (hc : L.FillsContainers) (n : Nat) : L.holds n record.codec :=
  Law.record <|
    .cons (.filled (L.optional L.text) L.default_none) <|
    .cons (.required L.text) <|
    .cons (.required L.count) <|
    .cons (.required L.count) <|
    .cons (.required L.count) <|
    .cons (.filled (L.list (ExpressionValue.obeys L n)) (hc.list _)) .nil

theorem obeys {L : Law} (hc : L.FillsContainers) (n : Nat) : L.holds n record.codec :=
  Law.record <|
    .cons (.required (Severity.obeys L n)) <|
    .cons (.required L.text) <|
    .cons .text <|
    .cons (.optional (Range.obeys L n)) <|
    .cons (.optional (Snippet.obeys hc n)) .nil

end Diagnostic

theorem ValidationReport.fields_obey {L : Law} (hc : L.FillsContainers) (n : Nat) :
    record.fields.Have L.toProperty n :=
  .cons (.optional L.text) <|
  .cons (.required L.flag) <|
  .cons (.required L.count) <|
  .cons (.required L.count) <|
  .cons (.filled (L.list (Diagnostic.obeys hc n)) (hc.list _)) .nil

theorem VersionReport.fields_obey {L : Law} (hc : L.FillsContainers) (n : Nat) :
    record.fields.Have L.toProperty n :=
  .cons (.required L.text) <|
  .cons (.filled L.text L.default_text) <|
  .cons .text <|
  .cons (.filled (L.dict L.text) (hc.dict _)) <|
  .cons (.filled L.flag L.default_flag) .nil

theorem ValidationReport.lawful_fields (n : Nat) : record.fields.Lawful n :=
  Fields.lawful_of_have (fields_obey Law.lawful_fillsContainers n)

theorem VersionReport.lawful_fields (n : Nat) : record.fields.Lawful n :=
  Fields.lawful_of_have (fields_obey Law.lawful_fillsContainers n)

end PlanWire
