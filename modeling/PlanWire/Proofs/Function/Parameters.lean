import PlanWire.Proofs.Document.Depth
import PlanWire.Proofs.Schema.Valid

/-!
# The names of parameters

Every parameter that a function lists has a name, in a document of functions
and in the schemas of every provider. The variadic parameter is not judged. So
when the parameters of a document get other names, the document is read again
exactly when none of the listed ones has lost its name, and whatever the
variadic ones are called.
-/

set_option autoImplicit false

namespace PlanWire

open PlanWire.Function (Parameter Signature)

namespace Function

def Parameter.rename (name : String → String) (p : Parameter) : Parameter :=
  { p with name := name p.name }

theorem Parameter.rename_restored (name : String → String) (p : Parameter)
    (h : record.codec.Restored p) : record.codec.Restored (p.rename name) := by
  obtain ⟨-, hrest⟩ := Record.restored_iff.1 h
  apply Record.restored_iff.2
  exact ⟨⟨nofun, fun _ => rfl⟩, hrest⟩

namespace Signature

/-- The parameters of a function are those that it lists and the variadic one. -/
inductive Takes (s : Signature) : Parameter → Prop
  | listed {p : Parameter} (h : p ∈ s.parameters) : Takes s p
  | variadic {p : Parameter} (h : s.variadic = some p) : Takes s p

/-- The listed parameters have names. -/
def Named (s : Signature) : Prop := ∀ p ∈ s.parameters, p.name ≠ ""

def rename (listed variadic : String → String) (s : Signature) : Signature :=
  { s with
    parameters := s.parameters.map (Parameter.rename listed)
    variadic := s.variadic.map (Parameter.rename variadic) }

theorem named_rename {listed variadic : String → String} {s : Signature} :
    (s.rename listed variadic).Named ↔ ∀ p ∈ s.parameters, listed p.name ≠ "" :=
  List.forall_mem_map

def Restoring (g : Signature → Signature) : Prop :=
  ∀ s, record.codec.Restored s → record.codec.Restored (g s)

theorem restoring_rename (listed variadic : String → String) :
    Restoring (rename listed variadic) := by
  intro s h
  obtain ⟨hdescription, hsummary, hdeprecation, hreturn, hparameters, hvariadic, hend⟩ :=
    Record.restored_iff.1 h
  have hlisted := Field.list_map_restores (Parameter.rename_restored listed) hparameters
  have hopen :=
    Field.optional_map_restores Record.encode_ne_null (Parameter.rename_restored variadic) hvariadic
  apply Record.restored_iff.2
  exact ⟨hdescription, hsummary, hdeprecation, hreturn, hlisted, hopen, hend⟩

end Signature

end Function

variable {g : Signature → Signature}

namespace MetadataFunctions

def mapSignatures (g : Signature → Signature) (m : MetadataFunctions) : MetadataFunctions :=
  { m with signatures := m.signatures.mapValues g }

theorem validate_eq_ok {m : MetadataFunctions} :
    m.validate = .ok () ↔
      FormatVersion.Accepted supported m.formatVersion ∧ ∀ entry ∈ m.signatures, entry.2.Named := by
  rw [validate, then_eq_ok, FormatVersion.checkIn_eq_ok, Function.validateSignatures_eq_ok]
  rfl

theorem validate_mapSignatures {m : MetadataFunctions} (h : m.validate = .ok ()) :
    (m.mapSignatures g).validate = .ok () ↔ ∀ entry ∈ m.signatures, (g entry.2).Named := by
  have hversion := (validate_eq_ok.1 h).1
  rw [validate_eq_ok]
  exact (and_iff_right hversion).trans List.forall_mem_map

theorem mapSignatures_restored (hg : Signature.Restoring g) {m : MetadataFunctions}
    (h : record.codec.Restored m) : record.codec.Restored (m.mapSignatures g) := by
  obtain ⟨hversion, hsignatures, hend⟩ := Record.restored_iff.1 h
  have hmapped := Field.dict_map_restores (fun _ => hg) hsignatures
  apply Record.restored_iff.2
  exact ⟨hversion, hmapped, hend⟩

end MetadataFunctions

namespace ProviderSchema

def mapSignatures (g : Signature → Signature) (p : ProviderSchema) : ProviderSchema :=
  { p with functions := p.functions.mapValues g }

theorem validate_mapSignatures {p : ProviderSchema} (h : p.validate = .ok ()) :
    (p.mapSignatures g).validate = .ok () ↔ ∀ entry ∈ p.functions, (g entry.2).Named := by
  have hschemas := forall_offers.1 (validate_eq_ok.1 h).1
  rw [validate_eq_ok, forall_offers]
  exact (and_iff_right hschemas).trans List.forall_mem_map

theorem mapSignatures_restored (hg : Signature.Restoring g) {p : ProviderSchema}
    (h : record.codec.Restored p) : record.codec.Restored (p.mapSignatures g) := by
  obtain ⟨hown, hresources, hdata, hephemeral, hfunctions, hend⟩ := Record.restored_iff.1 h
  have hmapped := Field.dict_map_restores (fun _ => hg) hfunctions
  apply Record.restored_iff.2
  exact ⟨hown, hresources, hdata, hephemeral, hmapped, hend⟩

end ProviderSchema

namespace ProviderSchemas

def mapSignatures (g : Signature → Signature) (s : ProviderSchemas) : ProviderSchemas :=
  { s with providers := s.providers.mapValues (ProviderSchema.mapSignatures g) }

theorem validate_mapSignatures {s : ProviderSchemas} (h : s.validate = .ok ()) :
    (s.mapSignatures g).validate = .ok () ↔
      ∀ entry ∈ s.providers, ∀ function ∈ entry.2.functions, (g function.2).Named := by
  obtain ⟨hversion, hproviders⟩ := validate_eq_ok_iff_providers.1 h
  rw [validate_eq_ok_iff_providers]
  apply (and_iff_right hversion).trans
  apply List.forall_mem_map.trans
  exact forall₂_congr fun entry hentry =>
    ProviderSchema.validate_mapSignatures (hproviders entry hentry)

theorem mapSignatures_restored (hg : Signature.Restoring g) {s : ProviderSchemas}
    (h : record.codec.Restored s) : record.codec.Restored (s.mapSignatures g) := by
  obtain ⟨hversion, hproviders, hend⟩ := Record.restored_iff.1 h
  have hmapped :=
    Field.dict_map_restores (fun _ _ => ProviderSchema.mapSignatures_restored hg) hproviders
  apply Record.restored_iff.2
  exact ⟨hversion, hmapped, hend⟩

end ProviderSchemas

namespace Document

/-- The functions whose signatures a document declares, itself or in one of its
providers. -/
inductive Declares : Document → Signature → Prop
  | own {m : MetadataFunctions} {entry : String × Signature} (h : entry ∈ m.signatures) :
      Declares (metadataFunctions m) entry.2
  | ofProvider {s : ProviderSchemas} {provider : String × ProviderSchema}
      (hprovider : provider ∈ s.providers) {entry : String × Signature}
      (h : entry ∈ provider.2.functions) : Declares (providerSchemas s) entry.2

theorem forall_declares_functions {m : MetadataFunctions} {P : Signature → Prop} :
    (∀ s, (metadataFunctions m).Declares s → P s) ↔ ∀ entry ∈ m.signatures, P entry.2 := by
  constructor
  · exact fun h entry hentry => h entry.2 (.own hentry)
  · rintro h _ ⟨hentry⟩
    exact h _ hentry

theorem forall_declares_schemas {schemas : ProviderSchemas} {P : Signature → Prop} :
    (∀ s, (providerSchemas schemas).Declares s → P s) ↔
      ∀ provider ∈ schemas.providers, ∀ entry ∈ provider.2.functions, P entry.2 := by
  constructor
  · exact fun h provider hprovider entry hentry => h entry.2 (.ofProvider hprovider hentry)
  · rintro h _ (_ | ⟨hprovider, hentry⟩)
    exact h _ hprovider _ hentry

def mapSignatures (g : Signature → Signature) : Document → Document
  | providerSchemas s => providerSchemas (s.mapSignatures g)
  | metadataFunctions m => metadataFunctions (m.mapSignatures g)
  | d => d

variable {strict : Bool} {kind : DocumentKind} {v : Json} {d : Document}

theorem named_of_ofJson (hw : v.WellFormed) (h : ofJson strict v kind = .ok d) :
    ∀ s, d.Declares s → s.Named := by
  cases kind with
  | providerSchemas =>
    obtain ⟨s, hs, rfl⟩ := map_eq_ok.1 h
    have hvalid := (Format.restored_of_ofJson ProviderSchemas.lawful_fields hw hs).2
    exact forall_declares_schemas.2 (ProviderSchemas.validate_eq_ok.1 hvalid).parameters
  | metadataFunctions =>
    obtain ⟨m, hm, rfl⟩ := map_eq_ok.1 h
    have hvalid := (Format.restored_of_ofJson MetadataFunctions.lawful_fields hw hm).2
    exact forall_declares_functions.2 (MetadataFunctions.validate_eq_ok.1 hvalid).2
  | _ =>
    obtain ⟨a, -, rfl⟩ := map_eq_ok.1 h
    exact nofun

/-- Whether a document with other signatures is read again depends on their listed
parameters alone. -/
theorem readAgain_mapSignatures (hg : Signature.Restoring g) (hw : v.WellFormed)
    (h : ofJson strict v kind = .ok d) :
    (d.mapSignatures g).ReadAgain ↔ ∀ s, d.Declares s → (g s).Named := by
  cases kind with
  | providerSchemas =>
    obtain ⟨s, hs, rfl⟩ := map_eq_ok.1 h
    obtain ⟨hrestored, hvalid⟩ := Format.restored_of_ofJson ProviderSchemas.lawful_fields hw hs
    rw [forall_declares_schemas, ← ProviderSchemas.validate_mapSignatures hvalid]
    exact readAgain_iff_of_restored (fun _ _ _ => rfl) (fun _ => rfl) ProviderSchemas.versioned
      (ProviderSchemas.mapSignatures_restored hg hrestored)
  | metadataFunctions =>
    obtain ⟨m, hm, rfl⟩ := map_eq_ok.1 h
    obtain ⟨hrestored, hvalid⟩ := Format.restored_of_ofJson MetadataFunctions.lawful_fields hw hm
    rw [forall_declares_functions, ← MetadataFunctions.validate_mapSignatures hvalid]
    exact readAgain_iff_of_restored (fun _ _ _ => rfl) (fun _ => rfl) MetadataFunctions.versioned
      (MetadataFunctions.mapSignatures_restored hg hrestored)
  | _ =>
    have hagain := (readAgain_of_ofJson hw h).2
    obtain ⟨a, -, rfl⟩ := map_eq_ok.1 h
    exact iff_of_true hagain nofun

/-- In a document that was read every listed parameter has a name. With other
names for its parameters it is read again exactly when the listed ones have
names still; the variadic ones may lose theirs. -/
theorem parameters_named_unless_variadic {bytes : List UInt8}
    (h : ofBytes strict bytes kind = .ok d) :
    (∀ s, d.Declares s → ∀ p ∈ s.parameters, p.name ≠ "") ∧
      ∀ listed variadic : String → String,
        (d.mapSignatures (Signature.rename listed variadic)).ReadAgain ↔
          ∀ s, d.Declares s → ∀ p ∈ s.parameters, listed p.name ≠ "" := by
  obtain ⟨v, hw, -, hd⟩ := ofBytes_eq_ok.1 h
  refine ⟨named_of_ofJson hw hd, ?_⟩
  intro listed variadic
  rw [readAgain_mapSignatures (Signature.restoring_rename listed variadic) hw hd]
  exact forall₂_congr fun _ _ => Signature.named_rename

section Join

def join (texts : String) : Signature where
  description := ""
  summary := ""
  deprecationMessage := ""
  returnType := .primitive .string
  parameters := [⟨"separator", "", false, .primitive .string⟩]
  variadic := some ⟨texts, "", true, .primitive .string⟩

def joinTree (texts : String) : Json := .obj [
  ("parameters", .arr [.obj [("name", .str "separator"), ("type", .str "string")]]),
  ("return_type", .str "string"),
  ("variadic_parameter", .obj [("is_nullable", .bool true), ("name", .str texts),
    ("type", .str "string")])]

def joinFunctions (texts : String) : MetadataFunctions := ⟨"1.0", [("join", join texts)]⟩

def joinFunctionsTree (texts : String) : Json := .obj [
  ("format_version", .str "1.0"),
  ("function_signatures", .obj [("join", joinTree texts)])]

def joinSchemas (texts : String) : ProviderSchemas :=
  ⟨"1.0", [("text", ⟨none, [], [], [], [("join", join texts)]⟩)]⟩

def joinSchemasTree (texts : String) : Json := .obj [
  ("format_version", .str "1.0"),
  ("provider_schemas", .obj [("text", .obj [("functions", .obj [("join", joinTree texts)])])])]

theorem declares_joinFunctions (texts : String) :
    (metadataFunctions (joinFunctions texts)).Declares (join texts) :=
  forall_declares_functions.1 (fun _ h => h) ("join", join texts) (List.mem_cons_self ..)

theorem declares_joinSchemas (texts : String) :
    (providerSchemas (joinSchemas texts)).Declares (join texts) :=
  forall_declares_schemas.1 (fun _ h => h) _ (List.mem_cons_self ..) ("join", join texts)
    (List.mem_cons_self ..)

theorem rereads_joinTree (texts : String) : (joinTree texts).Rereads := by
  simp [joinTree, Json.numbers_obj, Json.numbers_arr, Json.numbers_str, Json.numbers_bool]

theorem ofBytes_joinFunctionsTree (strict : Bool) (texts : String) :
    ofBytes strict (joinFunctionsTree texts).bytes .metadataFunctions =
      .ok (metadataFunctions (joinFunctions texts)) := by
  have hr : (joinFunctionsTree texts).Rereads := by
    simp [joinFunctionsTree, Json.numbers_obj, Json.numbers_str, rereads_joinTree]
  have hw : (joinFunctionsTree texts).WellFormed := by
    simp only [joinFunctionsTree, joinTree, Json.WellFormed, Json.WellFormedMembers,
      Json.WellFormedItems, Dict.sorted_iff_keys, Dict.keys, List.map_cons, List.map_nil]
    decide
  have hversion : FormatVersion.Accepted MetadataFunctions.supported "1.0" :=
    ⟨.release 1 0, rfl, rfl, by decide, by decide⟩
  have hnamed : (join texts).Named := by simp [Signature.Named, join]
  have hvalid : (joinFunctions texts).validate = .ok () :=
    MetadataFunctions.validate_eq_ok.2 ⟨hversion, List.forall_mem_singleton.2 hnamed⟩
  have htree : MetadataFunctions.format.ofJson strict (joinFunctionsTree texts) =
      .ok (joinFunctions texts) := Format.ofMembers_eq_ok.2 ⟨rfl, fun _ => rfl, rfl, hvalid⟩
  exact ofBytes_bytes hr hw (Nat.le_of_ble_eq_true rfl) (map_eq_ok.2 ⟨_, htree, rfl⟩)

theorem ofBytes_joinSchemasTree (strict : Bool) (texts : String) :
    ofBytes strict (joinSchemasTree texts).bytes .providerSchemas =
      .ok (providerSchemas (joinSchemas texts)) := by
  have hr : (joinSchemasTree texts).Rereads := by
    simp [joinSchemasTree, Json.numbers_obj, Json.numbers_str, rereads_joinTree]
  have hw : (joinSchemasTree texts).WellFormed := by
    simp only [joinSchemasTree, joinTree, Json.WellFormed, Json.WellFormedMembers,
      Json.WellFormedItems, Dict.sorted_iff_keys, Dict.keys, List.map_cons, List.map_nil]
    decide
  have hversion : FormatVersion.Supported "1.0" :=
    ⟨.release 1 0, rfl, rfl, by decide, by decide⟩
  have hvalid : (joinSchemas texts).validate = .ok () :=
    ProviderSchemas.validate_eq_ok_iff_providers.2 ⟨hversion, List.forall_mem_singleton.2 rfl⟩
  have htree : ProviderSchemas.format.ofJson strict (joinSchemasTree texts) =
      .ok (joinSchemas texts) := Format.ofMembers_eq_ok.2 ⟨rfl, fun _ => rfl, rfl, hvalid⟩
  exact ofBytes_bytes hr hw (Nat.le_of_ble_eq_true rfl) (map_eq_ok.2 ⟨_, htree, rfl⟩)

theorem parameters_named_unless_variadic_join :
    let d := providerSchemas (joinSchemas "texts")
    ofBytes true (joinSchemasTree "texts").bytes .providerSchemas = .ok d ∧
      (d.mapSignatures (Signature.rename id fun _ => "")).ReadAgain ∧
      ¬ (d.mapSignatures (Signature.rename (fun _ => "") id)).ReadAgain := by
  intro d
  have hread := ofBytes_joinSchemasTree true "texts"
  obtain ⟨hnamed, hrenamed⟩ := parameters_named_unless_variadic hread
  refine ⟨hread, (hrenamed id fun _ => "").2 hnamed, ?_⟩
  intro hagain
  have hunnamed := (hrenamed (fun _ => "") id).1 hagain (join "texts") (declares_joinSchemas _)
  exact hunnamed _ (List.mem_cons_self ..) rfl

/-- Without a name for its texts the function is read, by itself and in a
provider. -/
theorem unnamed_variadic_is_read :
    (∀ strict, ofBytes strict (joinFunctionsTree "").bytes .metadataFunctions =
        .ok (metadataFunctions (joinFunctions ""))) ∧
      (∃ s p, (metadataFunctions (joinFunctions "")).Declares s ∧ s.Takes p ∧ p.name = "") ∧
      (∀ strict, ofBytes strict (joinSchemasTree "").bytes .providerSchemas =
        .ok (providerSchemas (joinSchemas ""))) ∧
      ∃ s p, (providerSchemas (joinSchemas "")).Declares s ∧ s.Takes p ∧ p.name = "" := by
  have hfunctions := declares_joinFunctions ""
  have hschemas := declares_joinSchemas ""
  refine ⟨?_, ⟨_, _, hfunctions, .variadic rfl, rfl⟩, ?_, ⟨_, _, hschemas, .variadic rfl, rfl⟩⟩
  · exact fun strict => ofBytes_joinFunctionsTree strict ""
  · exact fun strict => ofBytes_joinSchemasTree strict ""

end Join

end Document
end PlanWire
