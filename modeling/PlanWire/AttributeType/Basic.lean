import PlanWire.Error
import PlanWire.Wire.Codec

/-!
# Attribute types

The types of schema attributes: primitive types, collections of one element
type, and objects with a type for each field. On the wire a primitive type is
its name, and every other type is an array of its kind and what it is made of.
A tree is an attribute type exactly when it is the wire form of one.
-/

set_option autoImplicit false

namespace PlanWire

inductive PrimitiveKind where
  | bool
  | number
  | string
  deriving DecidableEq

namespace PrimitiveKind

def name : PrimitiveKind → String
  | .bool => "bool"
  | .number => "number"
  | .string => "string"

def ofName? : String → Option PrimitiveKind
  | "bool" => some .bool
  | "number" => some .number
  | "string" => some .string
  | _ => none

end PrimitiveKind

inductive CollectionKind where
  | list
  | set
  | map
  deriving DecidableEq

namespace CollectionKind

def name : CollectionKind → String
  | .list => "list"
  | .set => "set"
  | .map => "map"

def ofName? : String → Option CollectionKind
  | "list" => some .list
  | "set" => some .set
  | "map" => some .map
  | _ => none

end CollectionKind

inductive AttributeType where
  | primitive (kind : PrimitiveKind)
  | collection (kind : CollectionKind) (element : AttributeType)
  | object (fields : List (String × AttributeType))

namespace AttributeType

def objectName : String := "object"

def name : AttributeType → String
  | .primitive kind => kind.name
  | .collection kind _ => kind.name
  | .object _ => objectName

def isPrimitive : AttributeType → Bool
  | .primitive _ => true
  | _ => false

def isCollection : AttributeType → Bool
  | .collection _ _ => true
  | _ => false

def isOf (kind : CollectionKind) : AttributeType → Bool
  | .collection k _ => k = kind
  | _ => false

def isObject : AttributeType → Bool
  | .object _ => true
  | _ => false

def elementType : AttributeType → Except Error AttributeType
  | .collection _ element => .ok element
  | t => .error (.notCollection t.name)

def fields? : AttributeType → Option (Dict AttributeType)
  | .object fields => some fields
  | _ => none

mutual

def equals : AttributeType → AttributeType → Bool
  | .primitive a, .primitive b => a = b
  | .collection a s, .collection b t => a = b && equals s t
  | .object a, .object b => equalFields a b
  | _, _ => false

def equalFields : List (String × AttributeType) → List (String × AttributeType) → Bool
  | [], [] => true
  | (m, s) :: a, (n, t) :: b => m = n && equals s t && equalFields a b
  | _, _ => false

end

mutual

def encode : AttributeType → Json
  | .primitive kind => .str kind.name
  | .collection kind element => .arr [.str kind.name, encode element]
  | .object fields => .arr [.str objectName, .obj (encodeFields fields)]

def encodeFields : List (String × AttributeType) → List (String × Json)
  | [] => []
  | (n, t) :: rest => (n, encode t) :: encodeFields rest

end

/-- The number of arrays and objects open at the deepest point of the wire
form. -/
def wireNesting (t : AttributeType) : Nat := t.encode.nesting

def expected : String := "a primitive type name or a [kind, element] type description"

def ofName (name : String) : Except Fault AttributeType :=
  match PrimitiveKind.ofName? name with
  | some kind => .ok (.primitive kind)
  | none => .error (.primitiveName name)

def ending (t : AttributeType) : List Json → Except Fault AttributeType
  | [] => .ok t
  | _ => .error .descriptionExcess

mutual

def decode : Json → Except Fault AttributeType
  | .str name => ofName name
  | .arr [] => .error .descriptionEnd
  | .arr (.str kind :: rest) =>
    match CollectionKind.ofName? kind with
    | some kind =>
      match rest with
      | [] => .error .descriptionEnd
      | j :: rest => do ending (.collection kind (← decode j)) rest
    | none =>
      if kind = objectName then
        match rest with
        | [] => .error .descriptionEnd
        | .obj members :: rest => do ending (.object (← decodeFields members)) rest
        | j :: _ => Codec.mismatch j "a map"
      else .error .descriptionKind
  | .arr (_ :: _) => .error .descriptionKind
  | j => Codec.mismatch j expected

def decodeFields : List (String × Json) → Except Fault (List (String × AttributeType))
  | [] => .ok []
  | (n, j) :: rest => do return (n, ← decode j) :: (← decodeFields rest)

end

def codec : Codec AttributeType := ⟨decode, encode⟩

def text (t : AttributeType) : String := t.encode.compact

end AttributeType
end PlanWire
