import PlanWire.Change.Basic
import PlanWire.Config.Basic

/-!
# Plans

A plan lists changes of resources and outputs, with the values that they lead
to, the state that they start from and the configuration that asks for them.
-/

set_option autoImplicit false

namespace PlanWire

namespace Plan

structure Variable where
  value : Option Json

structure ResourceChange where
  address : String
  previousAddress : String
  moduleAddress : String
  mode : ResourceMode
  type : String
  name : String
  index : Option Json
  /-- The key of a deposed object, when the change is for one. -/
  deposed : String
  change : Option Change
  actionReason : String
  providerName : String

structure RelevantAttribute where
  resource : String
  path : List Json

def Variable.record : Record Variable where
  name := "PlanVariable"
  Parts := _
  fields := .cons (.kept "value") .nil
  make := fun (value, _) => { value }
  parts := fun v => (v.value, ())

def ResourceChange.record : Record ResourceChange where
  name := "ResourceChange"
  Parts := _
  fields :=
    .cons (.required "address" Codec.text) <|
    .cons (.text "previous_address") <|
    .cons (.text "module_address") <|
    .cons (.required "mode" ResourceMode.codec) <|
    .cons (.required "type" Codec.text) <|
    .cons (.required "name" Codec.text) <|
    .cons (.optional "index" Codec.value) <|
    .cons (.text "deposed") <|
    .cons (.optional "change" Change.codec) <|
    .cons (.text "action_reason") <|
    .cons (.text "provider_name") .nil
  make := fun (address, previousAddress, moduleAddress, mode, type, name, index, deposed, change,
      actionReason, providerName, _) =>
    { address, previousAddress, moduleAddress, mode, type, name, index, deposed, change,
      actionReason, providerName }
  parts := fun r => (r.address, r.previousAddress, r.moduleAddress, r.mode, r.type, r.name,
    r.index, r.deposed, r.change, r.actionReason, r.providerName, ())

def RelevantAttribute.record : Record RelevantAttribute where
  name := "ResourceAttribute"
  Parts := _
  fields :=
    .cons (.required "resource" Codec.text) <|
    .cons (.required "attribute" Codec.value.list) .nil
  make := fun (resource, path, _) => { resource, path }
  parts := fun a => (a.resource, a.path, ())

end Plan

structure Plan where
  formatVersion : String
  toolVersion : String
  variableValues : Dict Plan.Variable
  plannedValues : Option State.Values
  /-- Changes made by others since the last run. -/
  resourceDrift : List Plan.ResourceChange
  resourceChanges : List Plan.ResourceChange
  outputChanges : Dict Change
  priorState : Option State
  config : Option Config
  relevantAttributes : List Plan.RelevantAttribute
  checks : Option Json
  timestamp : String
  errored : Bool
  applyable : Bool
  complete : Bool

namespace Plan

def record : Record Plan where
  name := "Plan"
  Parts := _
  fields :=
    .cons (.required "format_version" Codec.text) <|
    .cons (.text "terraform_version") <|
    .cons (.dict "variables" Variable.record.codec) <|
    .cons (.optional "planned_values" State.Values.record.codec) <|
    .cons (.list "resource_drift" ResourceChange.record.codec) <|
    .cons (.list "resource_changes" ResourceChange.record.codec) <|
    .cons (.dict "output_changes" Change.codec) <|
    .cons (.optional "prior_state" State.codec) <|
    .cons (.optional "configuration" Config.codec) <|
    .cons (.list "relevant_attributes" RelevantAttribute.record.codec) <|
    .cons (.optional "checks" Codec.value) <|
    .cons (.text "timestamp") <|
    .cons (.filled "errored" Codec.flag false) <|
    .cons (.flag "applyable") <|
    .cons (.flag "complete") .nil
  make := fun (formatVersion, toolVersion, variableValues, plannedValues, resourceDrift,
      resourceChanges, outputChanges, priorState, config, relevantAttributes, checks, timestamp,
      errored, applyable, complete, _) =>
    { formatVersion, toolVersion, variableValues, plannedValues, resourceDrift, resourceChanges,
      outputChanges, priorState, config, relevantAttributes, checks, timestamp, errored,
      applyable, complete }
  parts := fun p => (p.formatVersion, p.toolVersion, p.variableValues, p.plannedValues,
    p.resourceDrift, p.resourceChanges, p.outputChanges, p.priorState, p.config,
    p.relevantAttributes, p.checks, p.timestamp, p.errored, p.applyable, p.complete, ())

def codec : Codec Plan := record.codec

end Plan
end PlanWire
