import PlanWire.Json.Basic
import PlanWire.Json.Token

/-!
# Reading JSON trees

A machine reads one value from the front of a token list. Its stack holds the
containers around the value that it reads, and `limit` bounds how many may be
open at once. Text that is no JSON has no tree; the reader does not say why.
-/

set_option autoImplicit false

namespace PlanWire.Json

inductive Frame where
  | items (done : List Json)
  | members (done : List (String × Json)) (key : String)

/-- What may come next. Finished items and members are listed last first. -/
inductive Phase where
  | value
  | firstItem
  | afterItem (done : List Json)
  | firstKey
  | nextKey (done : List (String × Json))
  | afterKey (done : List (String × Json)) (key : String)
  | afterMember (done : List (String × Json))

inductive Step where
  | stuck
  | next (phase : Phase) (stack : List Frame)
  | done (value : Json)

def deliver (v : Json) : List Frame → Step
  | [] => .done v
  | .items done :: stack => .next (.afterItem (v :: done)) stack
  | .members done key :: stack => .next (.afterMember ((key, v) :: done)) stack

def closeItems (done : List Json) (stack : List Frame) : Step :=
  deliver (.arr done.reverse) stack

def closeMembers (done : List (String × Json)) (stack : List Frame) : Step :=
  deliver (.obj (Dict.ofList done.reverse)) stack

def open? (limit : Nat) (phase : Phase) (stack : List Frame) : Step :=
  if stack.length < limit then .next phase stack else .stuck

def stepValue (limit : Nat) (stack : List Frame) : Token → Step
  | .openArray => open? limit .firstItem stack
  | .openObject => open? limit .firstKey stack
  | .null => deliver .null stack
  | .bool b => deliver (.bool b) stack
  | .number literal =>
    match literal.value? with
    | some n => deliver (.num n) stack
    | none => .stuck
  | .text raw =>
    match text? raw with
    | some s => deliver (.str s) stack
    | none => .stuck
  | _ => .stuck

def stepKey (done : List (String × Json)) (stack : List Frame) : Token → Step
  | .text raw =>
    match text? raw with
    | some key => .next (.afterKey done key) stack
    | none => .stuck
  | _ => .stuck

def step (limit : Nat) : Phase → List Frame → Token → Step
  | .value, stack, t => stepValue limit stack t
  | .firstItem, stack, .closeArray => closeItems [] stack
  | .firstItem, stack, t => stepValue limit (.items [] :: stack) t
  | .afterItem done, stack, .comma => .next .value (.items done :: stack)
  | .afterItem done, stack, .closeArray => closeItems done stack
  | .firstKey, stack, .closeObject => closeMembers [] stack
  | .firstKey, stack, t => stepKey [] stack t
  | .nextKey done, stack, t => stepKey done stack t
  | .afterKey done key, stack, .colon => .next .value (.members done key :: stack)
  | .afterMember done, stack, .comma => .next (.nextKey done) stack
  | .afterMember done, stack, .closeObject => closeMembers done stack
  | _, _, _ => .stuck

def run (limit : Nat) : Phase → List Frame → List Token → Option (Json × List Token)
  | _, _, [] => none
  | phase, stack, t :: ts =>
    match step limit phase stack t with
    | .stuck => none
    | .next phase stack => run limit phase stack ts
    | .done v => some (v, ts)

/-- How many arrays and objects may be open at once. -/
def nestingLimit : Nat := 127

def readFront (limit : Nat) (ts : List Token) : Option (Json × List Token) :=
  run limit .value [] ts

def read (bytes : List UInt8) : Option Json :=
  match readFront nestingLimit (tokens bytes) with
  | some (v, []) => some v
  | _ => none

/-- A token of the same form whose value always exists. -/
def Token.blank : Token → Token
  | .number _ => .null
  | .text _ => .text []
  | t => t

/-- Whether a value of any depth stands in front, whatever its numbers and
strings stand for. -/
def skips (ts : List Token) : Bool :=
  (readFront ts.length (ts.map Token.blank)).isSome

end PlanWire.Json
