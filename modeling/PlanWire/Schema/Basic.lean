import PlanWire.Function
import PlanWire.Wire.Record

/-!
# Provider schemas

A schema describes a block by its attributes and by the types of the blocks
inside it. An attribute has a type, or it nests attributes of its own.
-/

set_option autoImplicit false

namespace PlanWire

namespace Schema

inductive DescriptionKind where
  | plain
  | markdown
  deriving DecidableEq

namespace DescriptionKind

def name : DescriptionKind → String
  | .plain => "plain"
  | .markdown => "markdown"

def codec : Codec DescriptionKind :=
  Codec.variant { accepted := [("plain", .plain), ("markdown", .markdown)], name := name, other := none }

end DescriptionKind

inductive NestingMode where
  | single
  | group
  | list
  | set
  | map
  deriving DecidableEq

namespace NestingMode

def name : NestingMode → String
  | .single => "single"
  | .group => "group"
  | .list => "list"
  | .set => "set"
  | .map => "map"

def codec : Codec NestingMode := Codec.variant {
  accepted := [("single", .single), ("group", .group), ("list", .list), ("set", .set), ("map", .map)]
  name := name
  other := none }

end NestingMode

structure Nested (A : Type) where
  attributes : List (String × A)
  nestingMode : NestingMode
  minItems : UInt64
  maxItems : UInt64

structure Attribute where
  type : Option AttributeType
  nested : Option (Nested Attribute)
  description : String
  descriptionKind : Option DescriptionKind
  deprecated : Bool
  required : Bool
  optional : Bool
  computed : Bool
  sensitive : Bool
  writeOnly : Bool

/-- The type of the blocks with one name. -/
structure BlockTypeOf (B : Type) where
  nestingMode : NestingMode
  block : Option B
  minItems : UInt64
  maxItems : UInt64

structure Block where
  attributes : Dict Attribute
  blockTypes : List (String × BlockTypeOf Block)
  description : String
  descriptionKind : Option DescriptionKind
  deprecated : Bool

abbrev NestedType := Nested Attribute
abbrev BlockType := BlockTypeOf Block

mutual

def Attribute.height : Attribute → Nat
  | ⟨_, none, _, _, _, _, _, _, _, _⟩ => 0
  | ⟨_, some ⟨attributes, _, _, _⟩, _, _, _, _, _, _, _, _⟩ => attributeHeights attributes + 1

def attributeHeights : List (String × Attribute) → Nat
  | [] => 0
  | (_, a) :: rest => max a.height (attributeHeights rest)

end

mutual

def Block.height : Block → Nat
  | ⟨_, types, _, _, _⟩ => blockHeights types

def blockHeights : List (String × BlockTypeOf Block) → Nat
  | [] => 0
  | (_, ⟨_, none, _, _⟩) :: rest => blockHeights rest
  | (_, ⟨_, some b, _, _⟩) :: rest => max (b.height + 1) (blockHeights rest)

end

def Nested.record {A : Type} (inner : Codec A) : Record (Nested A) where
  name := "SchemaNestedAttributeType"
  Parts := _
  fields :=
    .cons (.filled "attributes" inner.dict []) <|
    .cons (.required "nesting_mode" NestingMode.codec) <|
    .cons (.count "min_items") <|
    .cons (.count "max_items") .nil
  make := fun (attributes, nestingMode, minItems, maxItems, _) =>
    { attributes, nestingMode, minItems, maxItems }
  parts := fun n => (n.attributes, n.nestingMode, n.minItems, n.maxItems, ())

def Attribute.record (inner : Codec Attribute) : Record Attribute where
  name := "SchemaAttribute"
  Parts := _
  fields :=
    .cons (.optional "type" AttributeType.codec) <|
    .cons (.optional "nested_type" (Nested.record inner).codec) <|
    .cons (.text "description") <|
    .cons (.optional "description_kind" DescriptionKind.codec) <|
    .cons (.flag "deprecated") <|
    .cons (.flag "required") <|
    .cons (.flag "optional") <|
    .cons (.flag "computed") <|
    .cons (.flag "sensitive") <|
    .cons (.flag "write_only") .nil
  make := fun (type, nested, description, descriptionKind, deprecated, required, optional,
      computed, sensitive, writeOnly, _) =>
    { type, nested, description, descriptionKind, deprecated, required, optional, computed,
      sensitive, writeOnly }
  parts := fun a => (a.type, a.nested, a.description, a.descriptionKind, a.deprecated, a.required,
    a.optional, a.computed, a.sensitive, a.writeOnly, ())

def Attribute.codec : Codec Attribute := Codec.recursive (fun inner => (record inner).codec) height

def NestedType.codec : Codec NestedType := (Nested.record Attribute.codec).codec

def BlockTypeOf.record {B : Type} (block : Codec B) : Record (BlockTypeOf B) where
  name := "SchemaBlockType"
  Parts := _
  fields :=
    .cons (.required "nesting_mode" NestingMode.codec) <|
    .cons (.optional "block" block) <|
    .cons (.count "min_items") <|
    .cons (.count "max_items") .nil
  make := fun (nestingMode, block, minItems, maxItems, _) =>
    { nestingMode, block, minItems, maxItems }
  parts := fun t => (t.nestingMode, t.block, t.minItems, t.maxItems, ())

def Block.record (inner : Codec Block) : Record Block where
  name := "SchemaBlock"
  Parts := _
  fields :=
    .cons (.dict "attributes" Attribute.codec) <|
    .cons (.dict "block_types" (BlockTypeOf.record inner).codec) <|
    .cons (.text "description") <|
    .cons (.optional "description_kind" DescriptionKind.codec) <|
    .cons (.flag "deprecated") .nil
  make := fun (attributes, blockTypes, description, descriptionKind, deprecated, _) =>
    { attributes, blockTypes, description, descriptionKind, deprecated }
  parts := fun b => (b.attributes, b.blockTypes, b.description, b.descriptionKind,
    b.deprecated, ())

def Block.codec : Codec Block := Codec.recursive (fun inner => (record inner).codec) height

def BlockType.codec : Codec BlockType := (BlockTypeOf.record Block.codec).codec

end Schema

structure Schema where
  version : UInt64
  block : Option Schema.Block

def Schema.record : Record Schema where
  name := "Schema"
  Parts := _
  fields :=
    .cons (.filled "version" Codec.count 0) <|
    .cons (.optional "block" Block.codec) .nil
  make := fun (version, block, _) => { version, block }
  parts := fun s => (s.version, s.block, ())

structure ProviderSchema where
  provider : Option Schema
  resources : Dict Schema
  dataSources : Dict Schema
  ephemeralResources : Dict Schema
  functions : Dict Function.Signature

def ProviderSchema.record : Record ProviderSchema where
  name := "ProviderSchema"
  Parts := _
  fields :=
    .cons (.optional "provider" Schema.record.codec) <|
    .cons (.dict "resource_schemas" Schema.record.codec) <|
    .cons (.dict "data_source_schemas" Schema.record.codec) <|
    .cons (.dict "ephemeral_resource_schemas" Schema.record.codec) <|
    .cons (.dict "functions" Function.Signature.record.codec) .nil
  make := fun (provider, resources, dataSources, ephemeralResources, functions, _) =>
    { provider, resources, dataSources, ephemeralResources, functions }
  parts := fun p => (p.provider, p.resources, p.dataSources, p.ephemeralResources, p.functions, ())

structure ProviderSchemas where
  formatVersion : String
  providers : Dict ProviderSchema

def ProviderSchemas.record : Record ProviderSchemas where
  name := "ProviderSchemas"
  Parts := _
  fields :=
    .cons (.required "format_version" Codec.text) <|
    .cons (.dict "provider_schemas" ProviderSchema.record.codec) .nil
  make := fun (formatVersion, providers, _) => { formatVersion, providers }
  parts := fun p => (p.formatVersion, p.providers, ())

end PlanWire
