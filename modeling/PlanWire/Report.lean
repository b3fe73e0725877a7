import PlanWire.Diagnostic
import PlanWire.Rule

/-!
# Reports of the tool

What the tool says about a configuration that it has checked, and about itself.
-/

set_option autoImplicit false

namespace PlanWire

structure ValidationReport where
  formatVersion : Option String
  valid : Bool
  errorCount : UInt64
  warningCount : UInt64
  diagnostics : List Diagnostic

namespace ValidationReport

def record : Record ValidationReport where
  name := "ValidateOutput"
  Parts := _
  fields :=
    .cons (.optional "format_version" Codec.text) <|
    .cons (.required "valid" Codec.flag) <|
    .cons (.required "error_count" Codec.count) <|
    .cons (.required "warning_count" Codec.count) <|
    .cons (.filled "diagnostics" Diagnostic.record.codec.list []) .nil
  make := fun (formatVersion, valid, errorCount, warningCount, diagnostics, _) =>
    { formatVersion, valid, errorCount, warningCount, diagnostics }
  parts := fun v => (v.formatVersion, v.valid, v.errorCount, v.warningCount, v.diagnostics, ())

def validate (v : ValidationReport) : Except Rule Unit :=
  match v.formatVersion with
  | some version => FormatVersion.check .validationReport version
  | none => .ok ()

end ValidationReport

structure VersionReport where
  toolVersion : String
  toolRevision : String
  platform : String
  providerSelections : Dict String
  outdated : Bool

namespace VersionReport

def record : Record VersionReport where
  name := "VersionOutput"
  Parts := _
  fields :=
    .cons (.required "terraform_version" Codec.text) <|
    .cons (.filled "terraform_revision" Codec.text "") <|
    .cons (.text "platform") <|
    .cons (.filled "provider_selections" Codec.text.dict []) <|
    .cons (.filled "terraform_outdated" Codec.flag false) .nil
  make := fun (toolVersion, toolRevision, platform, providerSelections, outdated, _) =>
    { toolVersion, toolRevision, platform, providerSelections, outdated }
  parts := fun v => (v.toolVersion, v.toolRevision, v.platform, v.providerSelections,
    v.outdated, ())

def validate (v : VersionReport) : Except Rule Unit :=
  if v.toolVersion.isEmpty then .error .emptyToolVersion else .ok ()

end VersionReport
end PlanWire
