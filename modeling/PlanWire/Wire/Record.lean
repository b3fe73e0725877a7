import PlanWire.Wire.Codec

/-!
# Records

A record type is described once, by its fields in the order in which they are
written. From an object every field is sought by name and other members do not
count; of several fields at fault the least name wins, and any fault wins over
a missing field. From an array the fields are read by position. Writing leaves
out the fields whose value may be skipped.
-/

set_option autoImplicit false

namespace PlanWire

structure Field (α : Type) where
  name : String
  codec : Codec α
  /-- The value of an absent field; a field without one is required. -/
  absent : Option α
  skip : α → Bool

namespace Field

def required {α : Type} (name : String) (codec : Codec α) : Field α :=
  ⟨name, codec, none, fun _ => false⟩

def filled {α : Type} (name : String) (codec : Codec α) (default : α) : Field α :=
  ⟨name, codec, some default, fun _ => false⟩

def optional {α : Type} (name : String) (codec : Codec α) : Field (Option α) :=
  ⟨name, codec.optional, some none, Option.isNone⟩

/-- A field that tells an absent value from a null. -/
def kept (name : String) : Field (Option Json) :=
  ⟨name, Codec.kept, some none, Option.isNone⟩

def text (name : String) : Field String := ⟨name, Codec.text, some "", String.isEmpty⟩

def flag (name : String) : Field Bool := ⟨name, Codec.flag, some false, fun b => !b⟩

def count (name : String) : Field UInt64 := ⟨name, Codec.count, some 0, fun n => n == 0⟩

def list {α : Type} (name : String) (codec : Codec α) : Field (List α) :=
  ⟨name, codec.list, some [], List.isEmpty⟩

def dict {α : Type} (name : String) (codec : Codec α) : Field (Dict α) :=
  ⟨name, codec.dict, some [], List.isEmpty⟩

end Field

/-- What became of the fields of an object. -/
inductive Outcome (α : Type) where
  | read (value : α)
  | absent (name : String)
  | faulty (name : String) (fault : Fault)

namespace Outcome

def both {α β : Type} : Outcome α → Outcome β → Outcome (α × β)
  | .faulty n f, .faulty m g => if m < n then .faulty m g else .faulty n f
  | .faulty n f, _ => .faulty n f
  | _, .faulty m g => .faulty m g
  | .absent n, _ => .absent n
  | _, .absent m => .absent m
  | .read a, .read b => .read (a, b)

def toExcept {α : Type} : Outcome α → Except Fault α
  | .read a => .ok a
  | .absent name => .error (.missingField name)
  | .faulty _ fault => .error fault

end Outcome

def Field.read {α : Type} (f : Field α) (members : List (String × Json)) : Outcome α :=
  match Dict.get? f.name members with
  | some j =>
    match f.codec.decode j with
    | .ok a => .read a
    | .error fault => .faulty f.name fault
  | none =>
    match f.absent with
    | some a => .read a
    | none => .absent f.name

inductive Fields : Type → Type 1 where
  | nil : Fields Unit
  | cons {α β : Type} (first : Field α) (rest : Fields β) : Fields (α × β)

namespace Fields

def names : {τ : Type} → Fields τ → List String
  | _, .nil => []
  | _, .cons f fs => f.name :: fs.names

def read (members : List (String × Json)) : {τ : Type} → Fields τ → Outcome τ
  | _, .nil => .read ()
  | _, .cons f fs => (f.read members).both (fs.read members)

/-- Reads the fields from position `index` on, and returns the items left. -/
def take (expected : String) :
    {τ : Type} → Nat → Fields τ → List Json → Except Fault (τ × List Json)
  | _, _, .nil, items => .ok ((), items)
  | _, index, .cons f fs, j :: items => do
    let a ← f.codec.decode j
    let (rest, items) ← fs.take expected (index + 1) items
    return ((a, rest), items)
  | _, index, .cons f fs, [] =>
    match f.absent with
    | none => .error (.invalidLength index expected)
    | some a => do
      let (rest, items) ← fs.take expected (index + 1) []
      return ((a, rest), items)

def encode : {τ : Type} → Fields τ → τ → List (String × Json)
  | _, .nil, _ => []
  | _, .cons f fs, (a, rest) =>
    if f.skip a then fs.encode rest else (f.name, f.codec.encode a) :: fs.encode rest

end Fields

/-- The fields of a record have different names, and the record is made of
their values and nothing else. -/
structure Record (α : Type) where
  name : String
  Parts : Type
  fields : Fields Parts
  distinct : fields.names.Nodup := by
    simp [Fields.names, Field.required, Field.filled, Field.optional, Field.kept, Field.text,
      Field.flag, Field.count, Field.list, Field.dict]
  make : Parts → α
  parts : α → Parts
  make_parts : ∀ a, make (parts a) = a := by intro a; cases a; rfl
  parts_make : ∀ p, parts (make p) = p := by intro p; rfl

namespace Record

def title {α : Type} (r : Record α) : String := "struct " ++ r.name

def lengthTitle {α : Type} (r : Record α) : String :=
  let n := r.fields.names.length
  r.title ++ " with " ++ toString n ++ if n = 1 then " element" else " elements"

def ofMembers {α : Type} (r : Record α) (members : List (String × Json)) : Except Fault α :=
  (r.fields.read members).toExcept.map r.make

def ofItems {α : Type} (r : Record α) (items : List Json) : Except Fault α := do
  match ← r.fields.take r.lengthTitle 0 items with
  | (p, []) => return r.make p
  | _ => .error (.invalidLength items.length "fewer elements in array")

def codec {α : Type} (r : Record α) : Codec α where
  decode
    | .obj members => r.ofMembers members
    | .arr items => r.ofItems items
    | j => Codec.mismatch j r.title
  encode a := .obj (r.fields.encode (r.parts a))

end Record
end PlanWire
