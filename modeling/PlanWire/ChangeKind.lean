import PlanWire.Rule

/-!
# Kinds of changes

The actions of a valid change amount to one kind. A replacement is written as
two actions in the order in which they happen, or as one action of its own.
-/

set_option autoImplicit false

namespace PlanWire

inductive ChangeKind where
  | noOp
  | create
  | read
  | update
  | delete
  | destroyBeforeCreate
  | createBeforeDestroy
  deriving DecidableEq

namespace ChangeKind

def ofActions : List Action → Except Rule ChangeKind
  | [.noOp] => .ok .noOp
  | [.create] => .ok .create
  | [.read] => .ok .read
  | [.update] => .ok .update
  | [.delete] => .ok .delete
  | [.delete, .create] => .ok .destroyBeforeCreate
  | [.deleteThenCreate] => .ok .destroyBeforeCreate
  | [.create, .delete] => .ok .createBeforeDestroy
  | [.createThenDelete] => .ok .createBeforeDestroy
  | [] => .error .noActions
  | actions => .error (.actionCombination actions)

def label : ChangeKind → String
  | .noOp => "NoOp"
  | .create => "Create"
  | .read => "Read"
  | .update => "Update"
  | .delete => "Delete"
  | .destroyBeforeCreate => "DestroyBeforeCreate"
  | .createBeforeDestroy => "CreateBeforeDestroy"

def isOf (kind : ChangeKind) (actions : List Action) : Bool :=
  match ofActions actions with
  | .ok k => k = kind
  | .error _ => false

def isReplacement (actions : List Action) : Bool :=
  destroyBeforeCreate.isOf actions || createBeforeDestroy.isOf actions

end ChangeKind
end PlanWire
