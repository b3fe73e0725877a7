import PlanWire.Proofs.Document.Validity
import PlanWire.Proofs.FormatVersion.Supported

/-!
# What makes provider schemas valid

Every attribute that can be reached has exactly one of a type and a nested
type, and every listed parameter of a provider function has a name. Attributes
are reached in two ways: through blocks inside blocks, and from there through
attributes that nest attributes.
-/

set_option autoImplicit false

namespace PlanWire

open Relation (ReflTransGen)

namespace Schema

namespace Attribute

def Nests (a b : Attribute) : Prop :=
  ∃ nested, a.nested = some nested ∧ ∃ entry ∈ nested.attributes, entry.2 = b

/-- Exactly one of a type and a nested type is there. -/
def TypedOnce (a : Attribute) : Prop :=
  (a.type.isSome = true ∧ a.nested = none) ∨ (a.type = none ∧ a.nested.isSome = true)

def TypedWithin (a : Attribute) : Prop := ∀ b, ReflTransGen Nests a b → b.TypedOnce

theorem typedWithin_iff {a : Attribute} :
    a.TypedWithin ↔ a.TypedOnce ∧
      ∀ nested, a.nested = some nested → ∀ entry ∈ nested.attributes, entry.2.TypedWithin := by
  have hsteps : a.TypedWithin ↔ a.TypedOnce ∧ ∀ b, a.Nests b → b.TypedWithin := forall_reachable
  rw [hsteps]
  constructor
  · rintro ⟨ha, hnests⟩
    refine ⟨ha, ?_⟩
    intro nested hnested entry hentry
    exact hnests entry.2 ⟨nested, hnested, entry, hentry, rfl⟩
  · rintro ⟨ha, hentries⟩
    refine ⟨ha, ?_⟩
    rintro b ⟨nested, hnested, entry, hentry, rfl⟩
    exact hentries nested hnested entry hentry

end Attribute

namespace Block

def Holds (b c : Block) : Prop := ∃ entry ∈ b.blockTypes, entry.2.block = some c

def Reaches (b : Block) (a : Attribute) : Prop :=
  ∃ c, ReflTransGen Holds b c ∧ ∃ entry ∈ c.attributes, ReflTransGen Attribute.Nests entry.2 a

def Typed (b : Block) : Prop := ∀ a, b.Reaches a → a.TypedOnce

theorem typed_iff {b : Block} :
    b.Typed ↔ (∀ entry ∈ b.attributes, entry.2.TypedWithin) ∧
      ∀ entry ∈ b.blockTypes, ∀ c, entry.2.block = some c → c.Typed := by
  have hblocks (b : Block) : b.Typed ↔
      ∀ c, ReflTransGen Holds b c → ∀ entry ∈ c.attributes, entry.2.TypedWithin := by
    constructor
    · intro h c hc entry hentry a ha
      exact h a ⟨c, hc, entry, hentry, ha⟩
    · rintro h a ⟨c, hc, entry, hentry, ha⟩
      exact h c hc entry hentry a ha
  rw [hblocks, forall_reachable]
  simp only [← hblocks]
  constructor
  · intro h
    exact ⟨h.1, fun entry hentry c hc => h.2 c ⟨entry, hentry, hc⟩⟩
  · intro h
    refine ⟨h.1, ?_⟩
    rintro c ⟨entry, hentry, hc⟩
    exact h.2 entry hentry c hc

end Block

mutual

theorem Attribute.validate_eq_ok : ∀ (name : String) (a : Attribute),
    a.validate name = .ok () ↔ a.TypedWithin
  | _, ⟨some _, none, _, _, _, _, _, _, _, _⟩ => by
    rw [Attribute.typedWithin_iff]
    simp [Attribute.validate, Attribute.TypedOnce]
  | _, ⟨none, some ⟨attributes, _, _, _⟩, _, _, _, _, _, _, _, _⟩ => by
    rw [Attribute.validate, Attribute.typedWithin_iff, validateAttributes_eq_ok attributes]
    simp [Attribute.TypedOnce]
  | _, ⟨some _, some _, _, _, _, _, _, _, _, _⟩ => by
    rw [Attribute.typedWithin_iff]
    simp [Attribute.validate, Attribute.TypedOnce]
  | _, ⟨none, none, _, _, _, _, _, _, _, _⟩ => by
    rw [Attribute.typedWithin_iff]
    simp [Attribute.validate, Attribute.TypedOnce]

theorem validateAttributes_eq_ok : ∀ attributes : List (String × Attribute),
    validateAttributes attributes = .ok () ↔ ∀ entry ∈ attributes, entry.2.TypedWithin
  | [] => by simp [validateAttributes]
  | (name, a) :: rest => by
    rw [validateAttributes, then_eq_ok, List.forall_mem_cons, Attribute.validate_eq_ok name a,
      validateAttributes_eq_ok rest]

end

mutual

theorem Block.validate_eq_ok : ∀ b : Block, b.validate = .ok () ↔ b.Typed
  | ⟨attributes, types, _, _, _⟩ => by
    rw [Block.validate, then_eq_ok, validateAttributes_eq_ok, validateBlockTypes_eq_ok types,
      Block.typed_iff]

theorem validateBlockTypes_eq_ok : ∀ types : List (String × BlockTypeOf Block),
    validateBlockTypes types = .ok () ↔
      ∀ entry ∈ types, ∀ b, entry.2.block = some b → b.Typed
  | [] => by simp [validateBlockTypes]
  | (_, ⟨_, none, _, _⟩) :: rest => by
    rw [validateBlockTypes, validateBlockTypes_eq_ok rest, List.forall_mem_cons]
    simp
  | (_, ⟨_, some b, _, _⟩) :: rest => by
    rw [validateBlockTypes, then_eq_ok, Block.validate_eq_ok b, validateBlockTypes_eq_ok rest,
      List.forall_mem_cons]
    simp

end

def Reaches (s : Schema) (a : Attribute) : Prop := ∃ b, s.block = some b ∧ b.Reaches a

theorem validate_eq_ok {s : Schema} : s.validate = .ok () ↔ ∀ a, s.Reaches a → a.TypedOnce := by
  cases hblock : s.block with
  | none => simp [validate, Reaches, hblock]
  | some b => simp [validate, Reaches, hblock, Block.validate_eq_ok, Block.Typed]

theorem validateNamed_eq_ok {d : Dict Schema} :
    validateNamed d = .ok () ↔ ∀ entry ∈ d, ∀ a, entry.2.Reaches a → a.TypedOnce :=
  loop_eq_ok rfl (fun _ _ => rfl) fun _ => Place.tell_eq_ok.trans validate_eq_ok

end Schema

namespace Function

theorem Signature.validateFrom_eq_ok {position : Nat} {parameters : List Parameter} :
    validateFrom position parameters = .ok () ↔ ∀ p ∈ parameters, p.name ≠ "" := by
  induction parameters generalizing position with
  | nil => simp [validateFrom]
  | cons p rest ih =>
    rw [List.forall_mem_cons]
    by_cases hname : p.name = ""
    · simp [validateFrom, hname]
    · simp [validateFrom, hname, ih]

theorem validateSignatures_eq_ok {signatures : Dict Signature} :
    validateSignatures signatures = .ok () ↔
      ∀ entry ∈ signatures, ∀ p ∈ entry.2.parameters, p.name ≠ "" :=
  loop_eq_ok rfl (fun _ _ => rfl) fun _ => Place.tell_eq_ok.trans Signature.validateFrom_eq_ok

end Function

namespace ProviderSchema

/-- The schemas of a provider: its own and those of its resources, its data
sources and its ephemeral resources. -/
inductive Offers (p : ProviderSchema) : Schema → Prop
  | provider {s : Schema} (own : p.provider = some s) : Offers p s
  | resource {name : String} {s : Schema} (listed : (name, s) ∈ p.resources) : Offers p s
  | dataSource {name : String} {s : Schema} (listed : (name, s) ∈ p.dataSources) : Offers p s
  | ephemeral {name : String} {s : Schema} (listed : (name, s) ∈ p.ephemeralResources) :
      Offers p s

def Named (p : ProviderSchema) : Prop :=
  ∀ entry ∈ p.functions, ∀ parameter ∈ entry.2.parameters, parameter.name ≠ ""

theorem forall_offers {p : ProviderSchema} {P : Schema → Prop} :
    (∀ s, p.Offers s → P s) ↔
      (∀ entry ∈ p.resources ++ p.dataSources ++ p.ephemeralResources, P entry.2) ∧
        ∀ s, p.provider = some s → P s := by
  simp only [List.forall_mem_append]
  constructor
  · intro h
    exact ⟨⟨⟨fun entry he => h entry.2 (.resource he), fun entry he => h entry.2 (.dataSource he)⟩,
      fun entry he => h entry.2 (.ephemeral he)⟩, fun s hs => h s (.provider hs)⟩
  · rintro ⟨⟨⟨hresources, hdata⟩, hephemeral⟩, hown⟩ s hs
    cases hs with
    | provider own => exact hown s own
    | resource listed => exact hresources _ listed
    | dataSource listed => exact hdata _ listed
    | ephemeral listed => exact hephemeral _ listed

theorem validate_eq_ok {p : ProviderSchema} :
    p.validate = .ok () ↔
      (∀ s, p.Offers s → ∀ a, s.Reaches a → a.TypedOnce) ∧ p.Named := by
  rw [validate, then_eq_ok, then_eq_ok, Schema.validateNamed_eq_ok,
    Function.validateSignatures_eq_ok, forall_offers, Named]
  cases p.provider with
  | none => simp
  | some s =>
    simp only [Schema.validate_eq_ok, Option.some.injEq, forall_eq']
    rw [← and_assoc, and_right_comm]

end ProviderSchema

namespace ProviderSchemas

def Reaches (s : ProviderSchemas) (a : Schema.Attribute) : Prop :=
  ∃ entry ∈ s.providers, ∃ schema, entry.2.Offers schema ∧ schema.Reaches a

structure Valid (s : ProviderSchemas) : Prop where
  version : FormatVersion.Supported s.formatVersion
  parameters : ∀ entry ∈ s.providers, entry.2.Named
  attributes : ∀ a, s.Reaches a → a.TypedOnce

theorem validate_eq_ok_iff_providers {s : ProviderSchemas} :
    s.validate = .ok () ↔
      FormatVersion.Supported s.formatVersion ∧ ∀ entry ∈ s.providers, entry.2.validate = .ok () := by
  have hproviders : validateProviders s.providers = .ok () ↔
      ∀ entry ∈ s.providers, entry.2.validate = .ok () :=
    loop_eq_ok rfl (fun _ _ => rfl) fun _ => Place.tell_eq_ok
  rw [validate, then_eq_ok, FormatVersion.check_eq_ok, hproviders]

theorem validate_eq_ok {s : ProviderSchemas} : s.validate = .ok () ↔ s.Valid := by
  rw [validate_eq_ok_iff_providers]
  simp only [ProviderSchema.validate_eq_ok]
  constructor
  · rintro ⟨hversion, hproviders⟩
    refine ⟨hversion, fun entry hentry => (hproviders entry hentry).2, ?_⟩
    rintro a ⟨entry, hentry, schema, hschema, ha⟩
    exact (hproviders entry hentry).1 schema hschema a ha
  · intro h
    refine ⟨h.version, fun entry hentry => ⟨?_, h.parameters entry hentry⟩⟩
    intro schema hschema a ha
    exact h.attributes a ⟨entry, hentry, schema, hschema, ha⟩

end ProviderSchemas

namespace Document

/-- Provider schemas of the right shape are read exactly when they are valid,
and otherwise the rule that they break is reported. -/
theorem schemas_read_iff_valid {members : List (String × Json)} {s : ProviderSchemas}
    (hversion : (Dict.get? "format_version" members).isSome = true)
    (hfields : ProviderSchemas.record.ofMembers members = .ok s) :
    (ofJson false (.obj members) .providerSchemas = .ok (providerSchemas s) ↔ s.Valid) ∧
      (¬ s.Valid → ∃ rule, ofJson false (.obj members) .providerSchemas = .error (.rule rule)) := by
  have hread : ofJson false (.obj members) .providerSchemas =
      (ofRule s.validate).map fun _ => providerSchemas s :=
    @Format.map_ofJson_of_fields _ ProviderSchemas.format providerSchemas _ _ hversion hfields
  rw [hread]
  exact judged ProviderSchemas.validate_eq_ok (providerSchemas s)

def deepAttribute (inner : List (String × Json)) : List (String × Json) := [
  ("format_version", .str "1.0"),
  ("provider_schemas", .obj [("aws", .obj [
    ("ephemeral_resource_schemas", .obj [("secret", .obj [("block", .obj [
      ("block_types", .obj [("rotation", .obj [
        ("block", .obj [("attributes", .obj [("window", .obj [("nested_type", .obj [
          ("attributes", .obj [("start", .obj inner)]),
          ("nesting_mode", .str "single")])])])]),
        ("nesting_mode", .str "list")])])])])]),
    ("functions", .obj [("trim", .obj [
      ("parameters", .arr [.obj [("name", .str "text"), ("type", .str "string")]]),
      ("return_type", .str "string")])])])])]

def deepSchemas (type : Option AttributeType) : ProviderSchemas where
  formatVersion := "1.0"
  providers := [("aws", {
    provider := none
    resources := []
    dataSources := []
    ephemeralResources := [("secret", ⟨0, some (block [] [("rotation", ⟨.list,
      some (block [("window", plain none (some ⟨[("start", plain type none)],
        .single, 0, 0⟩))] []), 0, 0⟩)])⟩)]
    functions := [("trim", ⟨"", "", "", .primitive .string,
      [⟨"text", "", false, .primitive .string⟩], none⟩)] })]
where
  plain (type : Option AttributeType) (nested : Option Schema.NestedType) : Schema.Attribute :=
    ⟨type, nested, "", none, false, false, false, false, false, false⟩
  block (attributes : Dict Schema.Attribute) (types : Dict Schema.BlockType) : Schema.Block :=
    ⟨attributes, types, "", none, false⟩

theorem schemas_read_iff_valid_deepSchemas :
    ProviderSchemas.record.ofMembers (deepAttribute []) = .ok (deepSchemas none) ∧
      ¬ (deepSchemas none).Valid ∧
      (∃ rule, ofJson false (.obj (deepAttribute [])) .providerSchemas = .error (.rule rule)) ∧
      (deepSchemas (some (.primitive .number))).Valid := by
  have hfields : ProviderSchemas.record.ofMembers (deepAttribute []) =
      .ok (deepSchemas none) := rfl
  have huntyped := schemas_read_iff_valid rfl hfields
  have hinvalid : ¬ (deepSchemas none).Valid := by
    intro hvalid
    cases huntyped.1.2 hvalid
  have htyped := @schemas_read_iff_valid (deepAttribute [("type", .str "number")])
    (deepSchemas (some (.primitive .number))) rfl rfl
  exact ⟨hfields, hinvalid, huntyped.2 hinvalid, htyped.1.1 rfl⟩

end Document
end PlanWire
