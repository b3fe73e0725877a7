import PlanWire.Wire.Fault

/-!
# Codecs

A codec reads a type from a JSON tree and writes it as one. A list or a
dictionary reports the first of its values that is at fault. An optional value
takes null for its absence, while a kept value keeps a null that is there.

A type that holds values of its own is described by a function from the codec
of the inner values to the codec of the whole. Applied `n` times it reads and
writes values of up to `n` levels. The depth of the value at hand says how
often it has to be applied.
-/

set_option autoImplicit false

namespace PlanWire

structure Codec (α : Type) where
  decode : Json → Except Fault α
  encode : α → Json

namespace Codec

def mismatch {α : Type} (j : Json) (expected : String) : Except Fault α :=
  .error (.invalidType j.found expected)

def value : Codec Json where
  decode j := .ok j
  encode j := j

def text : Codec String where
  decode
    | .str s => .ok s
    | j => mismatch j "a string"
  encode := .str

def flag : Codec Bool where
  decode
    | .bool b => .ok b
    | j => mismatch j "a boolean"
  encode := .bool

/-- Whole numbers of 64 bits without a sign. -/
def count : Codec UInt64 where
  decode
    | .num (.int i) =>
      if 0 ≤ i ∧ i < UInt64.size then .ok i.toNat.toUInt64
      else .error (.invalidValue (.number (.int i)) "u64")
    | j => mismatch j "u64"
  encode n := .num (.int n.toNat)

/-- Whole numbers of 64 bits with a sign. -/
def integer : Codec Int64 where
  decode
    | .num (.int i) =>
      if Int64.minValue.toInt ≤ i ∧ i ≤ Int64.maxValue.toInt then .ok i.toInt64
      else .error (.invalidValue (.number (.int i)) "i64")
    | j => mismatch j "i64"
  encode n := .num (.int n.toInt)

def decodeItems {α : Type} (c : Codec α) : List Json → Except Fault (List α)
  | [] => .ok []
  | j :: rest => do return (← c.decode j) :: (← decodeItems c rest)

def list {α : Type} (c : Codec α) : Codec (List α) where
  decode
    | .arr items => c.decodeItems items
    | j => mismatch j "a sequence"
  encode xs := .arr (xs.map c.encode)

def decodeMembers {α : Type} (c : Codec α) : List (String × Json) → Except Fault (Dict α)
  | [] => .ok []
  | (k, j) :: rest => do return (k, ← c.decode j) :: (← decodeMembers c rest)

def dict {α : Type} (c : Codec α) : Codec (Dict α) where
  decode
    | .obj members => c.decodeMembers members
    | j => mismatch j "a map"
  encode d := .obj (d.mapValues c.encode)

def optional {α : Type} (c : Codec α) : Codec (Option α) where
  decode
    | .null => .ok none
    | j => (c.decode j).map some
  encode
    | none => .null
    | some a => c.encode a

def kept : Codec (Option Json) where
  decode j := .ok (some j)
  encode
    | none => .null
    | some j => j

/-- A type of named variants. A variant is read from its name, or from an
object whose only key is the name and whose only value is null. -/
structure Variants (α : Type) where
  /-- Every name that is read, in the order in which messages list them. -/
  accepted : Dict α
  name : α → String
  /-- What any other name stands for, if other names are read. -/
  other : Option α

def Variants.find {α : Type} (v : Variants α) (name : String) : Except Fault α :=
  match Dict.get? name v.accepted, v.other with
  | some a, _ => .ok a
  | none, some a => .ok a
  | none, none => .error (.unknownVariant name v.accepted.keys)

def variant {α : Type} (v : Variants α) : Codec α where
  decode
    | .str name => v.find name
    | .obj [(name, content)] => do
      let a ← v.find name
      match content with
      | .null => return a
      | j => mismatch j "unit"
    | .obj _ => .error (.invalidValue .map "map with a single key")
    | j => mismatch j "string or map"
  encode a := .str (v.name a)

def level {α : Type} (build : Codec α → Codec α) : Nat → Codec α
  | 0 => ⟨fun j => mismatch j "nothing", fun _ => .null⟩
  | n + 1 => build (level build n)

/-- `height` counts the levels below a value. -/
def recursive {α : Type} (build : Codec α → Codec α) (height : α → Nat) : Codec α where
  decode j := (level build (j.nesting + 1)).decode j
  encode a := (level build (height a + 1)).encode a

end Codec
end PlanWire
