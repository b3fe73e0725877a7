import PlanWire.Error
import PlanWire.Json.Read
import PlanWire.Log.Basic

/-!
# Reading log lines

The header is read first. A line of a registered type is then read by the
reader of that type, which looks at the members that it owns and at no others.
-/

set_option autoImplicit false

namespace PlanWire.Log

abbrev Members := List (String × Json)

/-- A member that is there and not null. -/
def owned {α : Type} (codec : Codec α) (key : String) (members : Members) :
    Except Fault (Option α) :=
  match Dict.get? key members with
  | none => .ok none
  | some .null => .ok none
  | some j => (codec.decode j).map some

def readVersion (members : Members) : Except Fault (Option Body) := do
  match ← owned Codec.text "terraform" members with
  | none => return none
  | some tool => return some (.version tool ((← owned Codec.text "ui" members).getD ""))

def readOne {α : Type} (codec : Codec α) (key : String) (body : α → Body) (members : Members) :
    Except Fault (Option Body) := do
  return (← owned codec key members).map body

def readers : Dict (Members → Except Fault (Option Body)) := [
  ("version", readVersion),
  ("log", fun _ => .ok (some .log)),
  ("diagnostic", readOne Diagnostic.record.codec "diagnostic" .diagnostic),
  ("list_start", readOne ListStart.record.codec "list_start" .listStart),
  ("list_resource_found",
    readOne ListResourceFound.record.codec "list_resource_found" .listResourceFound),
  ("list_complete", readOne ListComplete.record.codec "list_complete" .listComplete),
  ("init_output", readOne Codec.text "message_code" .initOutput)]

/-- The type of a line; without a text for it, the empty one. -/
def lineType (members : Members) : String :=
  match Dict.get? "type" members with
  | some (.str type) => type
  | _ => ""

def readBody (members : Members) : Except Fault Body :=
  let type := lineType members
  match Dict.get? type readers with
  | none => .ok (.unknown type)
  | some read => do return (← read members).getD (.unknown type)

def readHeader (members : Members) : Except Fault Header := Header.record.ofMembers members

def Line.ofMembers (members : Members) : Except Fault Line := do
  let header ← readHeader members
  return ⟨header, ← readBody members⟩

def Line.ofBytes (bytes : List UInt8) : Except Error Line :=
  match Json.read bytes with
  | some (.obj members) => ofShape (ofMembers members)
  | _ => .error .malformedInput

end PlanWire.Log
