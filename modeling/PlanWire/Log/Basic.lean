import PlanWire.Diagnostic
import PlanWire.Time.Lenient
import PlanWire.Wire.Record

/-!
# Log lines

A line of the log has a header and a body. The `type` member of the line says
what the body is; a line whose type is not known, or whose body is missing,
keeps only its type.
-/

set_option autoImplicit false

namespace PlanWire.Log

inductive Level where
  | trace
  | debug
  | info
  | warn
  | error
  | unknown
  deriving DecidableEq

namespace Level

def name : Level → String
  | .trace => "trace"
  | .debug => "debug"
  | .info => "info"
  | .warn => "warn"
  | .error => "error"
  | .unknown => "unknown"

def label : Level → String
  | .trace => "Trace"
  | .debug => "Debug"
  | .info => "Info"
  | .warn => "Warn"
  | .error => "Error"
  | .unknown => "Unknown"

/-- Any other name is read as an unknown level. -/
def codec : Codec Level := Codec.variant {
  accepted := [("trace", .trace), ("debug", .debug), ("info", .info), ("warn", .warn),
    ("error", .error)]
  name := name
  other := some .unknown }

end Level

structure Header where
  level : Level
  message : String
  timestamp : Option Timestamp

structure ListStart where
  address : String
  resourceType : String
  inputConfig : Option (Dict Json)

structure ListResourceFound where
  address : String
  displayName : String
  identity : Dict Json
  identityVersion : Int64
  resourceType : String
  resourceObject : Option (Dict Json)

structure ListComplete where
  address : String
  resourceType : String
  total : UInt64

inductive Body where
  | version (tool ui : String)
  | log
  | diagnostic (diagnostic : Diagnostic)
  | listStart (start : ListStart)
  | listResourceFound (found : ListResourceFound)
  | listComplete (complete : ListComplete)
  | initOutput (code : String)
  | unknown (type : String)

def Body.type : Body → String
  | .version _ _ => "version"
  | .log => "log"
  | .diagnostic _ => "diagnostic"
  | .listStart _ => "list_start"
  | .listResourceFound _ => "list_resource_found"
  | .listComplete _ => "list_complete"
  | .initOutput _ => "init_output"
  | .unknown type => type

structure Line where
  header : Header
  body : Body

def timestampCodec : Codec Timestamp := ⟨Time.Lenient.decode, fun t => .str t.text⟩

def Header.record : Record Header where
  name := "LogHeader"
  Parts := _
  fields :=
    .cons (.filled "@level" Level.codec .unknown) <|
    .cons (.filled "@message" Codec.text "") <|
    .cons (.filled "@timestamp" timestampCodec.optional none) .nil
  make := fun (level, message, timestamp, _) => { level, message, timestamp }
  parts := fun h => (h.level, h.message, h.timestamp, ())

def ListStart.record : Record ListStart where
  name := "ListStart"
  Parts := _
  fields :=
    .cons (.filled "address" Codec.text "") <|
    .cons (.filled "resource_type" Codec.text "") <|
    .cons (.filled "input_config" Codec.value.dict.optional none) .nil
  make := fun (address, resourceType, inputConfig, _) => { address, resourceType, inputConfig }
  parts := fun s => (s.address, s.resourceType, s.inputConfig, ())

def ListResourceFound.record : Record ListResourceFound where
  name := "ListResourceFound"
  Parts := _
  fields :=
    .cons (.filled "address" Codec.text "") <|
    .cons (.filled "display_name" Codec.text "") <|
    .cons (.filled "identity" Codec.value.dict []) <|
    .cons (.filled "identity_version" Codec.integer 0) <|
    .cons (.filled "resource_type" Codec.text "") <|
    .cons (.filled "resource_object" Codec.value.dict.optional none) .nil
  make := fun (address, displayName, identity, identityVersion, resourceType, resourceObject, _) =>
    { address, displayName, identity, identityVersion, resourceType, resourceObject }
  parts := fun f => (f.address, f.displayName, f.identity, f.identityVersion, f.resourceType,
    f.resourceObject, ())

def ListComplete.record : Record ListComplete where
  name := "ListComplete"
  Parts := _
  fields :=
    .cons (.filled "address" Codec.text "") <|
    .cons (.filled "resource_type" Codec.text "") <|
    .cons (.filled "total" Codec.count 0) .nil
  make := fun (address, resourceType, total, _) => { address, resourceType, total }
  parts := fun c => (c.address, c.resourceType, c.total, ())

end PlanWire.Log
