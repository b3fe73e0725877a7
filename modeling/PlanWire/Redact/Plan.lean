import PlanWire.Error
import PlanWire.Redact.State

/-!
# Redacting plans

Everything sensitive in a plan is replaced: variables that the configuration
declares sensitive, the changes under their own masks, the values that the
plan leads to and starts from under the masks of the resource changes, and
sensitive outputs. A plan with variables needs the configuration of its root
module. A value goes to the log only in redacted form and with sorted keys; if
it cannot be redacted, a remark goes there in its place.
-/

set_option autoImplicit false

namespace PlanWire.Redact

def change (f : Sanitizer) (c : Change) : Change :=
  { c with
    before := optionalValue f c.before c.beforeSensitive
    after := optionalValue f c.after c.afterSensitive }

def resourceChange (f : Sanitizer) (rc : Plan.ResourceChange) : Plan.ResourceChange :=
  { rc with change := rc.change.map (change f) }

def isSensitive (declared : Dict Config.Variable) (name : String) : Bool :=
  match Dict.get? name declared with
  | some v => v.sensitive
  | none => false

def planVariable (f : Sanitizer) (sensitive : Bool) (v : Plan.Variable) : Plan.Variable :=
  if sensitive then ⟨some (f (v.value.getD .null))⟩ else v

def variableValues (f : Sanitizer) (declared : Dict Config.Variable) (d : Dict Plan.Variable) :
    Dict Plan.Variable :=
  d.map fun (name, v) => (name, planVariable f (isSensitive declared name) v)

def declaredVariables (p : Plan) : Except Error (Dict Config.Variable) :=
  match p.config.bind (·.rootModule) with
  | some m => .ok m.declarations
  | none => .error (.nilInput .rootModuleConfiguration)

def planVariables (f : Sanitizer) (p : Plan) : Except Error (Dict Plan.Variable) :=
  if p.variableValues.isEmpty then .ok []
  else do return variableValues f (← declaredVariables p) p.variableValues

def values (f : Sanitizer) (changes : List Plan.ResourceChange) (side : Side)
    (v : State.Values) : State.Values :=
  { outputs := outputs f v.outputs, rootModule := v.rootModule.map (moduleUnder f changes side) }

def plan (f : Sanitizer) (p : Plan) : Except Error Plan := do
  return { p with
    variableValues := ← planVariables f p
    plannedValues := p.plannedValues.map (values f p.resourceChanges .after)
    resourceDrift := p.resourceDrift.map (resourceChange f)
    resourceChanges := p.resourceChanges.map (resourceChange f)
    outputChanges := p.outputChanges.mapValues (change f)
    priorState := p.priorState.map fun s =>
      { s with values := s.values.map (values f p.resourceChanges .before) } }

def plan? (f : Sanitizer) : Option Plan → Except Error Plan
  | none => .error (.nilInput .plan)
  | some p => plan f p

def notSanitized : Json := .str "Failed to sanitize value"

/-- What goes to the log. -/
def logged {α : Type} (encode : α → Json) : Except Error α → Json
  | .ok a => (encode a).sorted
  | .error _ => notSanitized

end PlanWire.Redact
