import PlanWire.Plan.Basic
import PlanWire.Redact.Value

/-!
# Redacting states

The attributes of a resource are redacted under a mask: in a state by itself
under the mask that comes with the resource, and in a plan under the mask of
the first resource change with its address. Sensitive outputs are replaced.
-/

set_option autoImplicit false

namespace PlanWire.Redact

inductive Side where
  | before
  | after
  deriving DecidableEq

def Side.mask (side : Side) (rc : Plan.ResourceChange) : Option Json := do
  let c ← rc.change
  match side with
  | .before => c.beforeSensitive
  | .after => c.afterSensitive

def attributeValue (f : Sanitizer) (mask : Json) (name : String) (j : Json) : Json :=
  match mask with
  | .bool true => f j
  | .obj masks =>
    match Dict.get? name masks with
    | some m => value f j m
    | none => j
  | _ => j

def attributes (f : Sanitizer) (mask : Json) (d : Dict Json) : Dict Json :=
  d.map fun (name, j) => (name, attributeValue f mask name j)

def resource (f : Sanitizer) (mask : Option Json) (r : State.Resource) : State.Resource :=
  match mask with
  | none => r
  | some mask => { r with attributes := attributes f mask r.attributes }

mutual

def mapModule (g : State.Resource → State.Resource) : State.Module → State.Module
  | ⟨resources, address, children⟩ => ⟨resources.map g, address, mapModules g children⟩

def mapModules (g : State.Resource → State.Resource) : List State.Module → List State.Module
  | [] => []
  | m :: rest => mapModule g m :: mapModules g rest

end

def maskFor (changes : List Plan.ResourceChange) (side : Side) (address : String) : Option Json := do
  side.mask (← changes.find? fun rc => rc.address = address)

/-- Redacts a module under the masks of resource changes. -/
def moduleUnder (f : Sanitizer) (changes : List Plan.ResourceChange) (side : Side) :
    State.Module → State.Module :=
  mapModule fun r => resource f (maskFor changes side r.address) r

/-- Redacts a module under the masks of its own resources. -/
def module (f : Sanitizer) : State.Module → State.Module :=
  mapModule fun r => resource f r.sensitive r

def output (f : Sanitizer) (o : State.Output) : State.Output :=
  if o.sensitive then { o with value := some (f (o.value.getD .null)) } else o

def outputs (f : Sanitizer) (d : Dict State.Output) : Dict State.Output := d.mapValues (output f)

def state (f : Sanitizer) (s : State) : State :=
  { s with
    values := s.values.map fun v =>
      { outputs := outputs f v.outputs, rootModule := v.rootModule.map (module f) } }

end PlanWire.Redact
