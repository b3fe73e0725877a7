import PlanWire.Rule
import PlanWire.Wire.Record

/-!
# States

A state holds output values and a tree of modules with their resources. The
attributes of a resource come with a mask of their sensitive positions.
-/

set_option autoImplicit false

namespace PlanWire

inductive ResourceMode where
  | managed
  | data
  deriving DecidableEq

namespace ResourceMode

def name : ResourceMode → String
  | .managed => "managed"
  | .data => "data"

def label : ResourceMode → String
  | .managed => "Managed"
  | .data => "Data"

def codec : Codec ResourceMode :=
  Codec.variant { accepted := [("managed", .managed), ("data", .data)], name := name, other := none }

end ResourceMode

namespace State

structure Resource where
  address : String
  mode : ResourceMode
  type : String
  name : String
  index : Option Json
  providerName : String
  schemaVersion : UInt64
  attributes : Dict Json
  sensitive : Option Json
  dependsOn : List String
  tainted : Bool
  deposedKey : String

structure Output where
  sensitive : Bool
  value : Option Json
  type : Option Json

structure Module where
  resources : List Resource
  address : String
  children : List Module

structure Values where
  outputs : Dict Output
  rootModule : Option Module

namespace Module

mutual

/-- The resources of a module and of all modules below it. -/
def allResources : Module → List Resource
  | ⟨resources, _, children⟩ => resources ++ allResourcesOf children

def allResourcesOf : List Module → List Resource
  | [] => []
  | m :: rest => allResources m ++ allResourcesOf rest

end

mutual

def height : Module → Nat
  | ⟨_, _, children⟩ => heightOf children

def heightOf : List Module → Nat
  | [] => 0
  | m :: rest => max (height m + 1) (heightOf rest)

end

end Module

def Resource.record : Record Resource where
  name := "StateResource"
  Parts := _
  fields :=
    .cons (.required "address" Codec.text) <|
    .cons (.required "mode" ResourceMode.codec) <|
    .cons (.required "type" Codec.text) <|
    .cons (.required "name" Codec.text) <|
    .cons (.optional "index" Codec.value) <|
    .cons (.text "provider_name") <|
    .cons (.filled "schema_version" Codec.count 0) <|
    .cons (.dict "values" Codec.value) <|
    .cons (.optional "sensitive_values" Codec.value) <|
    .cons (.list "depends_on" Codec.text) <|
    .cons (.flag "tainted") <|
    .cons (.text "deposed_key") .nil
  make := fun (address, mode, type, name, index, providerName, schemaVersion, attributes,
      sensitive, dependsOn, tainted, deposedKey, _) =>
    { address, mode, type, name, index, providerName, schemaVersion, attributes,
      sensitive, dependsOn, tainted, deposedKey }
  parts := fun r => (r.address, r.mode, r.type, r.name, r.index, r.providerName, r.schemaVersion,
    r.attributes, r.sensitive, r.dependsOn, r.tainted, r.deposedKey, ())

def Output.record : Record Output where
  name := "StateOutput"
  Parts := _
  fields :=
    .cons (.filled "sensitive" Codec.flag false) <|
    .cons (.kept "value") <|
    .cons (.optional "type" Codec.value) .nil
  make := fun (sensitive, value, type, _) => { sensitive, value, type }
  parts := fun o => (o.sensitive, o.value, o.type, ())

def Module.record (inner : Codec Module) : Record Module where
  name := "StateModule"
  Parts := _
  fields :=
    .cons (.list "resources" Resource.record.codec) <|
    .cons (.text "address") <|
    .cons (.list "child_modules" inner) .nil
  make := fun (resources, address, children, _) => { resources, address, children }
  parts := fun m => (m.resources, m.address, m.children, ())

def Module.codec : Codec Module := Codec.recursive (fun inner => (record inner).codec) height

def Values.record : Record Values where
  name := "StateValues"
  Parts := _
  fields :=
    .cons (.dict "outputs" Output.record.codec) <|
    .cons (.optional "root_module" Module.codec) .nil
  make := fun (outputs, rootModule, _) => { outputs, rootModule }
  parts := fun v => (v.outputs, v.rootModule, ())

end State

structure State where
  formatVersion : String
  toolVersion : String
  values : Option State.Values
  checks : Option Json

namespace State

def record : Record State where
  name := "State"
  Parts := _
  fields :=
    .cons (.filled "format_version" Codec.text "") <|
    .cons (.text "terraform_version") <|
    .cons (.optional "values" Values.record.codec) <|
    .cons (.optional "checks" Codec.value) .nil
  make := fun (formatVersion, toolVersion, values, checks, _) =>
    { formatVersion, toolVersion, values, checks }
  parts := fun s => (s.formatVersion, s.toolVersion, s.values, s.checks, ())

def codec : Codec State := record.codec

def validate (s : State) : Except Rule Unit := FormatVersion.check .state s.formatVersion

end State
end PlanWire
