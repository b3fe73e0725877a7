import PlanWire.Error
import PlanWire.Json.Read
import PlanWire.Wire.Record

/-!
# Document formats

Every kind of document is read in the same way. The text must be an object, it
must name its format version if the kind asks for one, a strict reading allows
no field that the kind does not have, the fields must have the right shape, and
the document must keep the rules of its kind. The first of these conditions
that fails is reported.
-/

set_option autoImplicit false

namespace PlanWire

/-- The list of fields that the kind of a document carries is kept apart from
the record of the document; `listed` holds the two together. -/
structure Format (α : Type) where
  kind : DocumentKind
  record : Record α
  needsFormatVersion : Bool
  validate : α → Except Rule Unit
  listed : kind.fieldNames = record.fields.names

namespace Format

def formatVersionKey : String := "format_version"

def fieldNames {α : Type} (format : Format α) : List String := format.kind.fieldNames

def checkFormatVersion {α : Type} (format : Format α) (members : List (String × Json)) :
    Except Error Unit :=
  if format.needsFormatVersion && (Dict.get? formatVersionKey members).isNone then
    .error (.rule (.missingFormatVersion format.kind))
  else .ok ()

def rejectUnknown {α : Type} (format : Format α) : List (String × Json) → Except Error Unit
  | [] => .ok ()
  | (key, _) :: rest =>
    if format.fieldNames.contains key then format.rejectUnknown rest
    else .error (.unknownField format.kind key)

def ofMembers {α : Type} (format : Format α) (strict : Bool) (members : List (String × Json)) :
    Except Error α := do
  format.checkFormatVersion members
  if strict then format.rejectUnknown members
  let document ← ofShape (format.record.ofMembers members)
  ofRule (format.validate document)
  return document

def ofJson {α : Type} (format : Format α) (strict : Bool) : Json → Except Error α
  | .obj members => format.ofMembers strict members
  | _ => .error .malformedInput

def encode {α : Type} (format : Format α) (document : α) : Json :=
  format.record.codec.encode document

def toJson {α : Type} (format : Format α) (document : α) : Json := (format.encode document).sorted

end Format
end PlanWire
