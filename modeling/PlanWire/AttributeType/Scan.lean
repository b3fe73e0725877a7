import PlanWire.AttributeType.Basic
import PlanWire.Json.Read

/-!
# Attribute types read in one pass

The bytes of a type are judged from left to right, so of two faults the one
that is met first counts, be it of the text or of the type. The first item of
a description is read as a whole value before it is judged, and an item behind
the element is only skipped.
-/

set_option autoImplicit false

namespace PlanWire.AttributeType

open Json (Token nestingLimit)

def malformed {α : Type} : Except Error α := .error .malformedInput

def unfit {α : Type} (found : Found) (expected : String) : Except Error α :=
  .error (.shape (.invalidType found expected))

/-- A token where only `expected` would have been right. A number must have a
value and a string must have a text before they can be named. -/
def refuse {α : Type} (expected : String) : Token → Except Error α
  | .null => unfit .null expected
  | .bool b => unfit (.bool b) expected
  | .number literal =>
    match literal.value? with
    | some n => unfit (.number n) expected
    | none => malformed
  | .text raw =>
    match Json.text? raw with
    | some s => unfit (.text s) expected
    | none => malformed
  | .openArray => unfit .sequence expected
  | .openObject => unfit .map expected
  | _ => malformed

def another {α : Type} : List Token → (List Token → Except Error α) → Except Error α
  | .closeArray :: _, _ => .error (.shape .descriptionEnd)
  | .comma :: .closeArray :: _, _ => malformed
  | .comma :: ts, next => next ts
  | _, _ => malformed

def close (t : AttributeType) : List Token → Except Error (AttributeType × List Token)
  | .closeArray :: ts => .ok (t, ts)
  | .comma :: .closeArray :: _ => malformed
  | .comma :: ts => if Json.skips ts then .error (.shape .descriptionExcess) else malformed
  | _ => malformed

mutual

/-- `depth` containers are open around the type. No more than two calls begin
at one token, so twice the number of tokens is fuel enough. -/
def scanType : Nat → Nat → List Token → Except Error (AttributeType × List Token)
  | 0, _, _ => malformed
  | _ + 1, _, [] => malformed
  | _ + 1, _, .text raw :: ts =>
    match Json.text? raw with
    | some name => (ofShape (ofName name)).map (·, ts)
    | none => malformed
  | _ + 1, depth, .openObject :: _ =>
    if depth < nestingLimit then unfit .map expected else malformed
  | fuel + 1, depth, .openArray :: ts =>
    if depth < nestingLimit then scanDescription fuel (depth + 1) ts else malformed
  | _ + 1, _, t :: _ => refuse expected t

def scanDescription : Nat → Nat → List Token → Except Error (AttributeType × List Token)
  | 0, _, _ => malformed
  | _ + 1, _, .closeArray :: _ => .error (.shape .descriptionEnd)
  | fuel + 1, depth, ts =>
    match Json.readFront (nestingLimit - depth) ts with
    | none => malformed
    | some (.str kind, ts) =>
      match CollectionKind.ofName? kind with
      | some kind => another ts fun ts => do
        let (element, ts) ← scanType fuel depth ts
        close (.collection kind element) ts
      | none =>
        if kind = objectName then another ts fun ts => do
          let (fields, ts) ← scanObject fuel depth ts
          close (.object fields) ts
        else .error (.shape .descriptionKind)
    | some _ => .error (.shape .descriptionKind)

def scanObject : Nat → Nat → List Token → Except Error (Dict AttributeType × List Token)
  | 0, _, _ => malformed
  | _ + 1, _, [] => malformed
  | fuel + 1, depth, .openObject :: ts =>
    if depth < nestingLimit then
      match ts with
      | .closeObject :: ts => .ok ([], ts)
      | ts => scanFields fuel (depth + 1) [] ts
    else malformed
  | _ + 1, _, t :: _ => refuse "a map" t

/-- Of the fields with one name the last one counts. -/
def scanFields :
    Nat → Nat → Dict AttributeType → List Token → Except Error (Dict AttributeType × List Token)
  | fuel + 1, depth, done, .text raw :: .colon :: ts =>
    match Json.text? raw with
    | none => malformed
    | some name => do
      let (t, ts) ← scanType fuel depth ts
      let done := done.insert name t
      match ts with
      | .closeObject :: ts => return (done, ts)
      | .comma :: ts => scanFields fuel depth done ts
      | _ => malformed
  | _, _, _, _ => malformed

end

def ofBytes (bytes : List UInt8) : Except Error AttributeType := do
  let ts := Json.tokens bytes
  match ← scanType (2 * ts.length) 0 ts with
  | (t, []) => return t
  | _ => malformed

def toBytes (t : AttributeType) : List UInt8 := t.encode.bytes

end PlanWire.AttributeType
