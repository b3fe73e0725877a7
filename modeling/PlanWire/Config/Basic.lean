import PlanWire.Expression
import PlanWire.State.Basic

/-!
# Configurations

A configuration holds provider configurations and a tree of modules. A module
reaches the modules below it through named calls.
-/

set_option autoImplicit false

namespace PlanWire

namespace Config

structure Provider where
  name : String
  fullName : String
  aliasName : String
  moduleAddress : String
  expressions : Dict Expression
  versionConstraint : String

structure Provisioner where
  type : String
  expressions : Dict Expression

structure Resource where
  address : String
  mode : ResourceMode
  type : String
  name : String
  providerConfigKey : String
  provisioners : List Provisioner
  expressions : Dict Expression
  schemaVersion : UInt64
  countExpression : Option Expression
  forEachExpression : Option Expression
  dependsOn : List String

structure Output where
  sensitive : Bool
  expression : Expression
  description : String
  dependsOn : List String

structure Variable where
  default : Option Json
  description : String
  sensitive : Bool

structure Call (M : Type) where
  source : String
  expressions : Dict Expression
  countExpression : Option Expression
  forEachExpression : Option Expression
  module : Option M
  versionConstraint : String
  dependsOn : List String

structure Module where
  outputs : Dict Output
  resources : List Resource
  calls : List (String × Call Module)
  declarations : Dict Variable

abbrev ModuleCall := Call Module

namespace Module

mutual

def height : Module → Nat
  | ⟨_, _, calls, _⟩ => heightOf calls

def heightOf : List (String × Call Module) → Nat
  | [] => 0
  | (_, ⟨_, _, _, _, none, _, _⟩) :: rest => heightOf rest
  | (_, ⟨_, _, _, _, some m, _, _⟩) :: rest => max (height m + 1) (heightOf rest)

end

end Module

def Provider.record : Record Provider where
  name := "ProviderConfig"
  Parts := _
  fields :=
    .cons (.required "name" Codec.text) <|
    .cons (.text "full_name") <|
    .cons (.text "alias") <|
    .cons (.text "module_address") <|
    .cons (.dict "expressions" Expression.codec) <|
    .cons (.text "version_constraint") .nil
  make := fun (name, fullName, aliasName, moduleAddress, expressions, versionConstraint, _) =>
    { name, fullName, aliasName, moduleAddress, expressions, versionConstraint }
  parts := fun p => (p.name, p.fullName, p.aliasName, p.moduleAddress, p.expressions,
    p.versionConstraint, ())

def Provisioner.record : Record Provisioner where
  name := "ConfigProvisioner"
  Parts := _
  fields :=
    .cons (.required "type" Codec.text) <|
    .cons (.dict "expressions" Expression.codec) .nil
  make := fun (type, expressions, _) => { type, expressions }
  parts := fun p => (p.type, p.expressions, ())

def Resource.record : Record Resource where
  name := "ConfigResource"
  Parts := _
  fields :=
    .cons (.required "address" Codec.text) <|
    .cons (.required "mode" ResourceMode.codec) <|
    .cons (.required "type" Codec.text) <|
    .cons (.required "name" Codec.text) <|
    .cons (.text "provider_config_key") <|
    .cons (.list "provisioners" Provisioner.record.codec) <|
    .cons (.dict "expressions" Expression.codec) <|
    .cons (.filled "schema_version" Codec.count 0) <|
    .cons (.optional "count_expression" Expression.codec) <|
    .cons (.optional "for_each_expression" Expression.codec) <|
    .cons (.list "depends_on" Codec.text) .nil
  make := fun (address, mode, type, name, providerConfigKey, provisioners, expressions,
      schemaVersion, countExpression, forEachExpression, dependsOn, _) =>
    { address, mode, type, name, providerConfigKey, provisioners, expressions,
      schemaVersion, countExpression, forEachExpression, dependsOn }
  parts := fun r => (r.address, r.mode, r.type, r.name, r.providerConfigKey, r.provisioners,
    r.expressions, r.schemaVersion, r.countExpression, r.forEachExpression, r.dependsOn, ())

def Output.record : Record Output where
  name := "ConfigOutput"
  Parts := _
  fields :=
    .cons (.flag "sensitive") <|
    .cons (.filled "expression" Expression.codec {}) <|
    .cons (.text "description") <|
    .cons (.list "depends_on" Codec.text) .nil
  make := fun (sensitive, expression, description, dependsOn, _) =>
    { sensitive, expression, description, dependsOn }
  parts := fun o => (o.sensitive, o.expression, o.description, o.dependsOn, ())

def Variable.record : Record Variable where
  name := "ConfigVariable"
  Parts := _
  fields :=
    .cons (.kept "default") <|
    .cons (.text "description") <|
    .cons (.flag "sensitive") .nil
  make := fun (default, description, sensitive, _) => { default, description, sensitive }
  parts := fun v => (v.default, v.description, v.sensitive, ())

def Call.record {M : Type} (module : Codec M) : Record (Call M) where
  name := "ModuleCall"
  Parts := _
  fields :=
    .cons (.required "source" Codec.text) <|
    .cons (.dict "expressions" Expression.codec) <|
    .cons (.optional "count_expression" Expression.codec) <|
    .cons (.optional "for_each_expression" Expression.codec) <|
    .cons (.optional "module" module) <|
    .cons (.text "version_constraint") <|
    .cons (.list "depends_on" Codec.text) .nil
  make := fun (source, expressions, countExpression, forEachExpression, module,
      versionConstraint, dependsOn, _) =>
    { source, expressions, countExpression, forEachExpression, module,
      versionConstraint, dependsOn }
  parts := fun c => (c.source, c.expressions, c.countExpression, c.forEachExpression, c.module,
    c.versionConstraint, c.dependsOn, ())

def Module.record (inner : Codec Module) : Record Module where
  name := "ConfigModule"
  Parts := _
  fields :=
    .cons (.dict "outputs" Output.record.codec) <|
    .cons (.list "resources" Resource.record.codec) <|
    .cons (.dict "module_calls" (Call.record inner).codec) <|
    .cons (.dict "variables" Variable.record.codec) .nil
  make := fun (outputs, resources, calls, declarations, _) =>
    { outputs, resources, calls, declarations }
  parts := fun m => (m.outputs, m.resources, m.calls, m.declarations, ())

def Module.codec : Codec Module := Codec.recursive (fun inner => (record inner).codec) height

def ModuleCall.codec : Codec ModuleCall := (Call.record Module.codec).codec

end Config

structure Config where
  providers : Dict Config.Provider
  rootModule : Option Config.Module

namespace Config

def record : Record Config where
  name := "Config"
  Parts := _
  fields :=
    .cons (.dict "provider_config" Provider.record.codec) <|
    .cons (.optional "root_module" Module.codec) .nil
  make := fun (providers, rootModule, _) => { providers, rootModule }
  parts := fun c => (c.providers, c.rootModule, ())

def codec : Codec Config := record.codec

end Config
end PlanWire
