import PlanWire.ChangeKind
import PlanWire.Wire.Record

/-!
# Changes

A change of one object, with its value before and after. Sensitive and unknown
positions are marked by masks: trees of the shape of the value that hold true
at the marked positions. A value or a mask that is absent differs from a null.
-/

set_option autoImplicit false

namespace PlanWire

structure Importing where
  id : String
  identity : Option Json

structure Change where
  actions : List Action
  before : Option Json
  after : Option Json
  /-- Marks the positions of `after` that are known only when it is applied. -/
  afterUnknown : Option Json
  beforeSensitive : Option Json
  afterSensitive : Option Json
  /-- Paths of the attributes that force a replacement. -/
  replacePaths : Option Json
  importing : Option Importing
  generatedConfig : String

def Importing.record : Record Importing where
  name := "Importing"
  Parts := _
  fields := .cons (.text "id") <| .cons (.optional "identity" Codec.value) .nil
  make := fun (id, identity, _) => { id, identity }
  parts := fun i => (i.id, i.identity, ())

namespace Change

def record : Record Change where
  name := "Change"
  Parts := _
  fields :=
    .cons (.required "actions" Action.codec.list) <|
    .cons (.kept "before") <|
    .cons (.kept "after") <|
    .cons (.kept "after_unknown") <|
    .cons (.kept "before_sensitive") <|
    .cons (.kept "after_sensitive") <|
    .cons (.optional "replace_paths" Codec.value) <|
    .cons (.optional "importing" Importing.record.codec) <|
    .cons (.text "generated_config") .nil
  make := fun (actions, before, after, afterUnknown, beforeSensitive, afterSensitive,
      replacePaths, importing, generatedConfig, _) =>
    { actions, before, after, afterUnknown, beforeSensitive, afterSensitive,
      replacePaths, importing, generatedConfig }
  parts := fun c => (c.actions, c.before, c.after, c.afterUnknown, c.beforeSensitive,
    c.afterSensitive, c.replacePaths, c.importing, c.generatedConfig, ())

def codec : Codec Change := record.codec

def kind (c : Change) : Except Rule ChangeKind := ChangeKind.ofActions c.actions

def validate (c : Change) : Except Rule Unit := c.kind.map fun _ => ()

end Change
end PlanWire
