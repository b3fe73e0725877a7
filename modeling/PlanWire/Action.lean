import PlanWire.Wire.Codec

/-!
# Actions

What a change does to an object. Documents use two spellings for the simple
actions, and writing uses the one in lower case.
-/

set_option autoImplicit false

namespace PlanWire

inductive Action where
  | noOp
  | create
  | read
  | update
  | delete
  | deleteThenCreate
  | createThenDelete
  deriving DecidableEq

namespace Action

def label : Action → String
  | .noOp => "NoOp"
  | .create => "Create"
  | .read => "Read"
  | .update => "Update"
  | .delete => "Delete"
  | .deleteThenCreate => "DeleteThenCreate"
  | .createThenDelete => "CreateThenDelete"

def name : Action → String
  | .noOp => "no-op"
  | .create => "create"
  | .read => "read"
  | .update => "update"
  | .delete => "delete"
  | .deleteThenCreate => "DeleteThenCreate"
  | .createThenDelete => "CreateThenDelete"

def codec : Codec Action := Codec.variant {
  accepted := [("NoOp", .noOp), ("no-op", .noOp), ("Create", .create), ("create", .create),
    ("Read", .read), ("read", .read), ("Update", .update), ("update", .update),
    ("Delete", .delete), ("delete", .delete), ("DeleteThenCreate", .deleteThenCreate),
    ("CreateThenDelete", .createThenDelete)]
  name := name
  other := none }

end Action
end PlanWire
