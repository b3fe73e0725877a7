import PlanWire.Json.Text
import PlanWire.Text.Quoted
import PlanWire.Time.Basic

/-!
# Faults of shape

A fault says why a JSON tree is no value of the type asked for. `message` is
its wording.
-/

set_option autoImplicit false

namespace PlanWire

inductive Found where
  | null
  | bool (b : Bool)
  | number (n : Number)
  | text (s : String)
  | sequence
  | map
  deriving DecidableEq

def Json.found : Json → Found
  | .null => .null
  | .bool b => .bool b
  | .num n => .number n
  | .str s => .text s
  | .arr _ => .sequence
  | .obj _ => .map

open Text in
def Found.describe : Found → String
  | .null => "null"
  | .bool b => "boolean " ++ ticked (if b then "true" else "false")
  | .number (.int i) => "integer " ++ ticked (String.ofList (Number.text (.int i)))
  | .number (.float bits) => "floating point " ++ ticked (String.ofList (Number.text (.float bits)))
  | .text s => "string " ++ quoted s
  | .sequence => "sequence"
  | .map => "map"

inductive Fault where
  | invalidType (found : Found) (expected : String)
  | invalidValue (found : Found) (expected : String)
  | invalidLength (length : Nat) (expected : String)
  | missingField (name : String)
  | unknownVariant (name : String) (accepted : List String)
  /-- A type description names no primitive type. -/
  | primitiveName (name : String)
  /-- The kind of a type description is no string or none of the known ones. -/
  | descriptionKind
  /-- A type description ends too early. -/
  | descriptionEnd
  /-- A type description goes on behind its element. -/
  | descriptionExcess
  | time (fault : TimeFault)
  deriving DecidableEq

namespace Fault

open Text in
def choices : List String → String
  | [] => "there are no variants"
  | [a] => "expected " ++ ticked a
  | [a, b] => "expected " ++ ticked a ++ " or " ++ ticked b
  | names => "expected one of " ++ String.intercalate ", " (names.map ticked)

open Text in
def message : Fault → String
  | .invalidType found expected => "invalid type: " ++ found.describe ++ ", expected " ++ expected
  | .invalidValue found expected => "invalid value: " ++ found.describe ++ ", expected " ++ expected
  | .invalidLength length expected => "invalid length " ++ toString length ++ ", expected " ++ expected
  | .missingField name => "missing field " ++ ticked name
  | .unknownVariant name accepted => "unknown variant " ++ ticked name ++ ", " ++ choices accepted
  | .primitiveName name => "invalid primitive type name " ++ quoted name
  | .descriptionKind => "invalid complex type kind name"
  | .descriptionEnd => "invalid complex type description"
  | .descriptionExcess => "unexpected extra data in type description"
  | .time fault => fault.message

end Fault
end PlanWire
