import PlanWire.Document.Format
import PlanWire.Plan.Validation
import PlanWire.Redact.Plan
import PlanWire.Report
import PlanWire.Schema.Validation

/-!
# Documents

The six kinds of documents with their formats.
-/

set_option autoImplicit false

namespace PlanWire

def Plan.format : Format Plan := ⟨.plan, record, true, validate, rfl⟩

def State.format : Format State := ⟨.state, record, true, validate, rfl⟩

def ProviderSchemas.format : Format ProviderSchemas :=
  ⟨.providerSchemas, record, true, validate, rfl⟩

def MetadataFunctions.format : Format MetadataFunctions :=
  ⟨.metadataFunctions, record, true, validate, rfl⟩

def ValidationReport.format : Format ValidationReport :=
  ⟨.validationReport, record, false, validate, rfl⟩

def VersionReport.format : Format VersionReport :=
  ⟨.versionReport, record, false, validate, rfl⟩

inductive Document where
  | plan (plan : Plan)
  | state (state : State)
  | providerSchemas (schemas : ProviderSchemas)
  | metadataFunctions (functions : MetadataFunctions)
  | validationReport (report : ValidationReport)
  | versionReport (report : VersionReport)

namespace Document

def ofJson (strict : Bool) (j : Json) : DocumentKind → Except Error Document
  | .plan => (Plan.format.ofJson strict j).map plan
  | .state => (State.format.ofJson strict j).map state
  | .providerSchemas => (ProviderSchemas.format.ofJson strict j).map providerSchemas
  | .metadataFunctions => (MetadataFunctions.format.ofJson strict j).map metadataFunctions
  | .validationReport => (ValidationReport.format.ofJson strict j).map validationReport
  | .versionReport => (VersionReport.format.ofJson strict j).map versionReport

def ofBytes (strict : Bool) (bytes : List UInt8) (kind : DocumentKind) : Except Error Document :=
  match Json.read bytes with
  | some j => ofJson strict j kind
  | none => .error .malformedInput

def encode : Document → Json
  | plan p => Plan.format.encode p
  | state s => State.format.encode s
  | providerSchemas s => ProviderSchemas.format.encode s
  | metadataFunctions m => MetadataFunctions.format.encode m
  | validationReport v => ValidationReport.format.encode v
  | versionReport v => VersionReport.format.encode v

def toJson (d : Document) : Json := d.encode.sorted

def kind : Document → DocumentKind
  | plan _ => .plan
  | state _ => .state
  | providerSchemas _ => .providerSchemas
  | metadataFunctions _ => .metadataFunctions
  | validationReport _ => .validationReport
  | versionReport _ => .versionReport

def validate (d : Document) : Except Error Unit :=
  ofRule <| match d with
    | plan p => p.validate
    | state s => s.validate
    | providerSchemas s => s.validate
    | metadataFunctions m => m.validate
    | validationReport v => v.validate
    | versionReport v => v.validate

def redact (f : Redact.Sanitizer) : Document → Except Error Document
  | plan p => (Redact.plan f p).map plan
  | state s => .ok (state (Redact.state f s))
  | d => .ok d

end Document
end PlanWire
