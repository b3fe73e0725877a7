import PlanWire.Error
import PlanWire.Json.Read
import PlanWire.Wire.Record

/-!
# Expressions

A configuration expression holds a constant, references, or nested blocks,
which map names to expressions again. The wire form tells the shapes apart by
what they look like: an array of objects holds blocks, null holds nothing, and
everything else is a scalar record of constant and references. An absent
constant differs from a null.
-/

set_option autoImplicit false

namespace PlanWire

structure Expression where
  constant : Option Json := none
  references : List String := []
  blocks : List (List (String × Expression)) := []

inductive ExpressionKind where
  | constant
  | references
  | nestedBlocks
  | unknown
  deriving DecidableEq

namespace Expression

def ofConstant (value : Json) : Expression := { constant := some value }

def ofReferences (references : List String) : Expression := { references }

def ofBlocks (blocks : List (Dict Expression)) : Expression := { blocks }

def kind (e : Expression) : ExpressionKind :=
  if !e.blocks.isEmpty then .nestedBlocks
  else if e.constant.isSome then .constant
  else if !e.references.isEmpty then .references
  else .unknown

def isUnknownConstant (e : Expression) : Bool := e.constant.isNone

def scalar : Record (Option Json × List String) where
  name := "ScalarExpression"
  Parts := _
  fields := .cons (.kept "constant_value") <| .cons (.list "references" Codec.text) .nil
  make := fun (constant, references, _) => (constant, references)
  parts := fun (constant, references) => (constant, references, ())

def ofScalar : Option Json × List String → Expression
  | (constant, references) => { constant, references }

mutual

def decode : Json → Except Fault Expression
  | .null => .ok {}
  | .arr items =>
    if items.all Json.isObject then (decodeBlocks items).map ofBlocks
    else (scalar.codec.decode (.arr items)).map ofScalar
  | j => (scalar.codec.decode j).map ofScalar

def decodeBlocks : List Json → Except Fault (List (List (String × Expression)))
  | [] => .ok []
  | .obj members :: rest => do return (← decodeBlock members) :: (← decodeBlocks rest)
  | j :: _ => Codec.mismatch j "a map"

def decodeBlock : List (String × Json) → Except Fault (List (String × Expression))
  | [] => .ok []
  | (n, j) :: rest => do return (n, ← decode j) :: (← decodeBlock rest)

end

mutual

def encode : Expression → Json
  | ⟨constant, references, []⟩ => scalar.codec.encode (constant, references)
  | ⟨_, _, block :: rest⟩ => .arr (.obj (encodeBlock block) :: encodeBlocks rest)

def encodeBlocks : List (List (String × Expression)) → List Json
  | [] => []
  | block :: rest => .obj (encodeBlock block) :: encodeBlocks rest

def encodeBlock : List (String × Expression) → List (String × Json)
  | [] => []
  | (n, e) :: rest => (n, encode e) :: encodeBlock rest

end

def codec : Codec Expression := ⟨decode, encode⟩

/-- The expression that a text starts with. A fault of its shape counts before
anything that may stand behind it. -/
def ofBytes (bytes : List UInt8) : Except Error Expression :=
  match Json.readFront Json.nestingLimit (Json.tokens bytes) with
  | none => .error .malformedInput
  | some (j, rest) => do
    let e ← ofShape (decode j)
    if rest.isEmpty then return e else throw .malformedInput

mutual

def same : Expression → Expression → Bool
  | ⟨c, r, b⟩, ⟨d, s, g⟩ =>
    (match c, d with
      | none, none => true
      | some c, some d => c.same d
      | _, _ => false) && r == s && sameBlocks b g

def sameBlocks : List (List (String × Expression)) → List (List (String × Expression)) → Bool
  | [], [] => true
  | a :: as, b :: bs => sameBlock a b && sameBlocks as bs
  | _, _ => false

def sameBlock : List (String × Expression) → List (String × Expression) → Bool
  | [], [] => true
  | (m, a) :: as, (n, b) :: bs => m == n && same a b && sameBlock as bs
  | _, _ => false

end

/-- Nested blocks stand alone, here and in every expression inside them. -/
inductive WellFormed : Expression → Prop
  | scalar (constant : Option Json) (references : List String) :
      WellFormed { constant, references }
  | nested (blocks : List (List (String × Expression)))
      (inside : ∀ block ∈ blocks, ∀ entry ∈ block, WellFormed entry.2) :
      WellFormed { blocks }

end Expression
end PlanWire
