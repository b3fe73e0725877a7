import PlanWire.Schema.Basic

/-!
# Valid schemas

Every attribute, at any depth, has exactly one of a type and nested attributes,
and every parameter of a provider function has a name. Within a provider the
named schemas are judged first, then its functions, and last its own schema.
-/

set_option autoImplicit false

namespace PlanWire

namespace Schema

mutual

def Attribute.validate (name : String) : Attribute → Except Rule Unit
  | ⟨some _, none, _, _, _, _, _, _, _, _⟩ => .ok ()
  | ⟨none, some ⟨attributes, _, _, _⟩, _, _, _, _, _, _, _, _⟩ => validateAttributes attributes
  | ⟨some _, some _, _, _, _, _, _, _, _, _⟩ => .error (.attributeWithTwoTypes name)
  | ⟨none, none, _, _, _, _, _, _, _, _⟩ => .error (.attributeWithoutType name)

def validateAttributes : List (String × Attribute) → Except Rule Unit
  | [] => .ok ()
  | (name, a) :: rest => do a.validate name; validateAttributes rest

end

mutual

def Block.validate : Block → Except Rule Unit
  | ⟨attributes, types, _, _, _⟩ => do
    validateAttributes attributes
    validateBlockTypes types

def validateBlockTypes : List (String × BlockTypeOf Block) → Except Rule Unit
  | [] => .ok ()
  | (_, ⟨_, none, _, _⟩) :: rest => validateBlockTypes rest
  | (_, ⟨_, some b, _, _⟩) :: rest => do b.validate; validateBlockTypes rest

end

def validate (s : Schema) : Except Rule Unit :=
  match s.block with
  | some block => block.validate
  | none => .ok ()

def validateNamed : Dict Schema → Except Rule Unit
  | [] => .ok ()
  | (name, s) :: rest => do (Place.schema name).tell s.validate; validateNamed rest

end Schema

def ProviderSchema.validate (p : ProviderSchema) : Except Rule Unit := do
  Schema.validateNamed (p.resources ++ p.dataSources ++ p.ephemeralResources)
  Function.validateSignatures p.functions
  match p.provider with
  | some schema => schema.validate
  | none => .ok ()

namespace ProviderSchemas

def validateProviders : Dict ProviderSchema → Except Rule Unit
  | [] => .ok ()
  | (source, p) :: rest => do (Place.provider source).tell p.validate; validateProviders rest

def validate (s : ProviderSchemas) : Except Rule Unit := do
  FormatVersion.check .providerSchemas s.formatVersion
  validateProviders s.providers

end ProviderSchemas
end PlanWire
