import PlanWire.Change.Basic
import PlanWire.Pointer

/-!
# Unknown positions

A true in a mask marks the whole part below it, so the way down a pointer ends
at the first one. A position that the mask does not reach is known.
-/

set_option autoImplicit false

namespace PlanWire

namespace Json

mutual

def hasTrue : Json → Bool
  | .bool b => b
  | .arr items => hasTrueItem items
  | .obj members => hasTrueMember members
  | _ => false

def hasTrueItem : List Json → Bool
  | [] => false
  | j :: rest => hasTrue j || hasTrueItem rest

def hasTrueMember : List (String × Json) → Bool
  | [] => false
  | (_, j) :: rest => hasTrue j || hasTrueMember rest

end

/-- Whether a mask marks the position that the tokens lead to. -/
def marks : List String → Json → Bool
  | [], mask => mask.isTrue
  | token :: rest, mask => mask.isTrue || ((Pointer.child? token mask).map (marks rest)).getD false

end Json

namespace Change

def hasUnknown (c : Change) : Bool := (c.afterUnknown.map Json.hasTrue).getD false

def isUnknownAt (c : Change) (pointer : String) : Bool :=
  (c.afterUnknown.map (Json.marks (Pointer.tokens pointer))).getD false

end Change
end PlanWire
