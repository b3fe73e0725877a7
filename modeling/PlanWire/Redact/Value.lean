import PlanWire.Redact.Policy

/-!
# Redacting a value under its mask

Value and mask are walked together. Where the mask is true the value is
replaced; two arrays go on item by item and two objects member by member, and
everything that the mask does not reach stays as it is.
-/

set_option autoImplicit false

namespace PlanWire.Redact

mutual

def value (f : Sanitizer) : Json → Json → Json
  | j, .bool true => f j
  | .arr items, .arr masks => .arr (valueItems f items masks)
  | .obj members, .obj masks => .obj (valueMembers f members masks)
  | j, _ => j

def valueItems (f : Sanitizer) : List Json → List Json → List Json
  | j :: rest, mask :: masks => value f j mask :: valueItems f rest masks
  | items, [] => items
  | [], _ => []

def valueMembers (f : Sanitizer) : List (String × Json) → List (String × Json) → List (String × Json)
  | [], _ => []
  | (k, j) :: rest, masks =>
    (k, match Dict.get? k masks with
      | some mask => value f j mask
      | none => j) :: valueMembers f rest masks

end

/-- Without a mask or a value nothing is replaced. -/
def optionalValue (f : Sanitizer) : Option Json → Option Json → Option Json
  | some j, some mask => some (value f j mask)
  | j, _ => j

end PlanWire.Redact
