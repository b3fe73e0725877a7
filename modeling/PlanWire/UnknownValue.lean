import PlanWire.Wire.Record

/-!
# Unknown values

A tree that tells for a value and for everything inside it what it is and
whether it is known.
-/

set_option autoImplicit false

namespace PlanWire

namespace UnknownValue

inductive Kind where
  | bool
  | number
  | string
  | array
  | object
  deriving DecidableEq

namespace Kind

def name : Kind → String
  | .bool => "bool"
  | .number => "number"
  | .string => "string"
  | .array => "array"
  | .object => "object"

def label : Kind → String
  | .bool => "Bool"
  | .number => "Number"
  | .string => "String"
  | .array => "Array"
  | .object => "Object"

def codec : Codec Kind := Codec.variant {
  accepted := [("bool", .bool), ("number", .number), ("string", .string), ("array", .array),
    ("object", .object)]
  name := name
  other := none }

end Kind
end UnknownValue

structure UnknownValue where
  kind : UnknownValue.Kind
  unknown : Bool
  items : List UnknownValue
  members : List (String × UnknownValue)

namespace UnknownValue

mutual

def height : UnknownValue → Nat
  | ⟨_, _, items, members⟩ => max (itemHeights items) (memberHeights members)

def itemHeights : List UnknownValue → Nat
  | [] => 0
  | v :: rest => max (height v + 1) (itemHeights rest)

def memberHeights : List (String × UnknownValue) → Nat
  | [] => 0
  | (_, v) :: rest => max (height v + 1) (memberHeights rest)

end

mutual

def containsUnknown : UnknownValue → Bool
  | ⟨_, unknown, items, members⟩ => unknown || anyItem items || anyMember members

def anyItem : List UnknownValue → Bool
  | [] => false
  | v :: rest => containsUnknown v || anyItem rest

def anyMember : List (String × UnknownValue) → Bool
  | [] => false
  | (_, v) :: rest => containsUnknown v || anyMember rest

end

def record (inner : Codec UnknownValue) : Record UnknownValue where
  name := "UnknownValue"
  Parts := _
  fields :=
    .cons (.required "type" Kind.codec) <|
    .cons (.required "unknown" Codec.flag) <|
    .cons (.list "array_values" inner) <|
    .cons (.dict "object_values" inner) .nil
  make := fun (kind, unknown, items, members, _) => { kind, unknown, items, members }
  parts := fun v => (v.kind, v.unknown, v.items, v.members, ())

def codec : Codec UnknownValue := Codec.recursive (fun inner => (record inner).codec) height

end UnknownValue
end PlanWire
