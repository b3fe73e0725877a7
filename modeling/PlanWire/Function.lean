import PlanWire.AttributeType.Basic
import PlanWire.Rule
import PlanWire.Wire.Record

/-!
# Functions

The signatures of functions. Every parameter listed in a valid signature has a
name.
-/

set_option autoImplicit false

namespace PlanWire

namespace Function

structure Parameter where
  name : String
  description : String
  isNullable : Bool
  type : AttributeType

structure Signature where
  description : String
  summary : String
  deprecationMessage : String
  returnType : AttributeType
  parameters : List Parameter
  variadic : Option Parameter

def Parameter.record : Record Parameter where
  name := "FunctionParameter"
  Parts := _
  fields :=
    .cons (.required "name" Codec.text) <|
    .cons (.text "description") <|
    .cons (.flag "is_nullable") <|
    .cons (.required "type" AttributeType.codec) .nil
  make := fun (name, description, isNullable, type, _) => { name, description, isNullable, type }
  parts := fun p => (p.name, p.description, p.isNullable, p.type, ())

namespace Signature

def record : Record Signature where
  name := "FunctionSignature"
  Parts := _
  fields :=
    .cons (.text "description") <|
    .cons (.text "summary") <|
    .cons (.text "deprecation_message") <|
    .cons (.required "return_type" AttributeType.codec) <|
    .cons (.list "parameters" Parameter.record.codec) <|
    .cons (.optional "variadic_parameter" Parameter.record.codec) .nil
  make := fun (description, summary, deprecationMessage, returnType, parameters, variadic, _) =>
    { description, summary, deprecationMessage, returnType, parameters, variadic }
  parts := fun s => (s.description, s.summary, s.deprecationMessage, s.returnType, s.parameters,
    s.variadic, ())

/-- The number of arguments, unless it is open. -/
def arity (s : Signature) : Option Nat :=
  match s.variadic with
  | some _ => none
  | none => some s.parameters.length

def validateFrom : Nat → List Parameter → Except Rule Unit
  | _, [] => .ok ()
  | position, p :: rest =>
    if p.name.isEmpty then .error (.unnamedParameter position)
    else validateFrom (position + 1) rest

def validate (s : Signature) : Except Rule Unit := validateFrom 0 s.parameters

end Signature

def validateSignatures : Dict Signature → Except Rule Unit
  | [] => .ok ()
  | (name, s) :: rest => do (Place.function name).tell s.validate; validateSignatures rest

end Function

structure MetadataFunctions where
  formatVersion : String
  signatures : Dict Function.Signature

namespace MetadataFunctions

def record : Record MetadataFunctions where
  name := "MetadataFunctions"
  Parts := _
  fields :=
    .cons (.required "format_version" Codec.text) <|
    .cons (.dict "function_signatures" Function.Signature.record.codec) .nil
  make := fun (formatVersion, signatures, _) => { formatVersion, signatures }
  parts := fun m => (m.formatVersion, m.signatures, ())

def supported : FormatVersion.Range := ⟨.release 1 0, .release 2 0⟩

def validate (m : MetadataFunctions) : Except Rule Unit := do
  FormatVersion.checkIn supported .metadataFunctions m.formatVersion
  Function.validateSignatures m.signatures

end MetadataFunctions
end PlanWire
