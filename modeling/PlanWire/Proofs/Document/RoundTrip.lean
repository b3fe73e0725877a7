import Mathlib.Logic.Unique
import PlanWire.Document.Basic
import PlanWire.Proofs.Json.Reading
import PlanWire.Proofs.Plan.Tree
import PlanWire.Proofs.Report.Tree
import PlanWire.Proofs.Schema.Tree

/-!
# Documents are read as they are written

A document that was read from a tree is read again from the tree written for
it, and the second reading may be strict: only fields of the kind are written,
and the format version is among them wherever a kind asks for one.
-/

set_option autoImplicit false

namespace PlanWire

open Json (sortedMembers)

theorem mapError_eq_ok {α ε ε' : Type} {f : ε → ε'} {x : Except ε α} {a : α} :
    x.mapError f = .ok a ↔ x = .ok a := by
  cases x with
  | ok b =>
    show (Except.ok b : Except ε' α) = .ok a ↔ (Except.ok b : Except ε α) = .ok a
    rw [Except.ok.injEq, Except.ok.injEq]
  | error fault => exact ⟨nofun, nofun⟩

theorem ofShape_eq_ok {α : Type} {x : Except Fault α} {a : α} : ofShape x = .ok a ↔ x = .ok a :=
  mapError_eq_ok

theorem ofRule_eq_ok {α : Type} {x : Except Rule α} {a : α} : ofRule x = .ok a ↔ x = .ok a :=
  mapError_eq_ok

namespace Format

variable {α : Type} {format : Format α}

theorem ofMembers_eq_ok {strict : Bool} {members : List (String × Json)} {a : α} :
    format.ofMembers strict members = .ok a ↔
      format.checkFormatVersion members = .ok () ∧
      (strict = true → format.rejectUnknown members = .ok ()) ∧
      format.record.ofMembers members = .ok a ∧ format.validate a = .ok () := by
  cases strict with
  | false => simp [ofMembers, bind_eq_ok, ofShape_eq_ok, ofRule_eq_ok, Unique.exists_iff, pure,
      Except.pure]
  | true => simp [ofMembers, bind_eq_ok, ofShape_eq_ok, ofRule_eq_ok, Unique.exists_iff, pure,
      Except.pure]

theorem rejectUnknown_of_subset {members : List (String × Json)}
    (h : Dict.keys members ⊆ format.fieldNames) : format.rejectUnknown members = .ok () := by
  induction members with
  | nil => rfl
  | cons member rest ih =>
    obtain ⟨hk, hr⟩ := List.cons_subset.1 h
    simpa [rejectUnknown, hk] using ih hr

theorem rejectUnknown_sorted_encode (a : α) :
    format.rejectUnknown (Dict.ofList
      (sortedMembers (format.record.fields.encode (format.record.parts a)))) = .ok () := by
  refine rejectUnknown_of_subset fun key hk => ?_
  have hm := Dict.mem_keys_ofList hk
  rw [Json.keys_sortedMembers] at hm
  rw [fieldNames, format.listed]
  exact (format.record.fields.keys_encode _).subset hm

theorem checkFormatVersion_eq_ok {members : List (String × Json)} :
    format.checkFormatVersion members = .ok () ↔
      (format.needsFormatVersion = true → (Dict.get? formatVersionKey members).isSome = true) := by
  cases hg : Dict.get? formatVersionKey members <;> simp [checkFormatVersion, hg]

/-- The format version is always written if the kind asks for one. -/
def Versioned (format : Format α) : Prop :=
  format.needsFormatVersion = true → ∀ a,
    (Dict.get? formatVersionKey (format.record.fields.encode (format.record.parts a))).isSome = true

theorem checkFormatVersion_sorted_encode (h : format.Versioned) (a : α) :
    format.checkFormatVersion (Dict.ofList
      (sortedMembers (format.record.fields.encode (format.record.parts a)))) = .ok () := by
  have hk : (Dict.keys (format.record.fields.encode (format.record.parts a))).Nodup :=
    (format.record.fields.keys_encode _).nodup format.record.distinct
  refine checkFormatVersion_eq_ok.2 fun hn => ?_
  rw [Json.get?_sorted hk, Json.sortedMembers_eq_mapValues, Dict.get?_mapValues, Option.isSome_map]
  exact h hn a

theorem ofJson_toJson (hv : format.Versioned) (hl : ∀ n, format.record.fields.Lawful n)
    {strict : Bool} {v : Json} {a : α} (hw : v.WellFormed) (h : format.ofJson strict v = .ok a) :
    format.ofJson true (format.toJson a) = .ok a := by
  cases v with
  | obj members =>
    obtain ⟨-, -, hr, hvalid⟩ := ofMembers_eq_ok.1 h
    have ha := (hl _).restores_of_read hw.2 (Nat.lt_succ_self _) (Record.ofMembers_eq_ok.1 hr)
    exact ofMembers_eq_ok.2 ⟨checkFormatVersion_sorted_encode hv a,
      fun _ => rejectUnknown_sorted_encode a, Record.ofMembers_sorted_encode ha, hvalid⟩
  | _ => cases h

theorem map_ofJson_toJson {wrap : α → Document} (hwrap : ∀ a, (wrap a).toJson = format.toJson a)
    (hv : format.Versioned) (hl : ∀ n, format.record.fields.Lawful n) {strict : Bool} {v : Json}
    {d : Document} (hw : v.WellFormed) (h : (format.ofJson strict v).map wrap = .ok d) :
    (format.ofJson true d.toJson).map wrap = .ok d := by
  obtain ⟨a, ha, rfl⟩ := map_eq_ok.1 h
  rw [hwrap]
  exact map_eq_ok.2 ⟨a, ofJson_toJson hv hl hw ha, rfl⟩

end Format

theorem Plan.versioned : format.Versioned := fun _ _ => rfl

theorem State.versioned : format.Versioned := fun _ _ => rfl

theorem ProviderSchemas.versioned : format.Versioned := fun _ _ => rfl

theorem MetadataFunctions.versioned : format.Versioned := fun _ _ => rfl

theorem ValidationReport.versioned : format.Versioned := fun h => by cases h

theorem VersionReport.versioned : format.Versioned := fun h => by cases h

namespace Document

theorem ofBytes_eq_ok {strict : Bool} {bytes : List UInt8} {kind : DocumentKind} {d : Document} :
    ofBytes strict bytes kind = .ok d ↔
      ∃ v, v.WellFormed ∧ Json.read bytes = some v ∧ ofJson strict v kind = .ok d := by
  unfold ofBytes
  cases hr : Json.read bytes with
  | none => simp
  | some v =>
    constructor
    · intro h
      exact ⟨v, Json.wellFormed_of_read hr, rfl, h⟩
    · rintro ⟨w, -, hv, h⟩
      cases hv
      exact h

/-- What a lenient reading takes from a tree, a strict one takes from the tree
written for it. -/
theorem ofJson_strict_toJson {kind : DocumentKind} {v : Json} {d : Document} (hw : v.WellFormed)
    (h : ofJson false v kind = .ok d) : ofJson true d.toJson kind = .ok d := by
  cases kind with
  | plan => exact Format.map_ofJson_toJson (fun _ => rfl) Plan.versioned Plan.lawful_fields hw h
  | state => exact Format.map_ofJson_toJson (fun _ => rfl) State.versioned State.lawful_fields hw h
  | providerSchemas =>
    exact Format.map_ofJson_toJson (fun _ => rfl) ProviderSchemas.versioned
      ProviderSchemas.lawful_fields hw h
  | metadataFunctions =>
    exact Format.map_ofJson_toJson (fun _ => rfl) MetadataFunctions.versioned
      MetadataFunctions.lawful_fields hw h
  | validationReport =>
    exact Format.map_ofJson_toJson (fun _ => rfl) ValidationReport.versioned
      ValidationReport.lawful_fields hw h
  | versionReport =>
    exact Format.map_ofJson_toJson (fun _ => rfl) VersionReport.versioned
      VersionReport.lawful_fields hw h

/-- A plan with an array for a module, an action in its other spelling, a null
that is kept and one that is not, and a field that no plan has. -/
def storedPlan : Json := .obj [
  ("format_version", .str "1.2"),
  ("prior_state", .obj [
    ("format_version", .str "1.0"),
    ("values", .obj [
      ("root_module", .obj [("child_modules", .arr [.arr [.arr [], .str "module.app"]])])])]),
  ("resource_changes", .arr [.obj [
    ("address", .str "db.main"),
    ("change", .obj [("actions", .arr [.str "Create"]), ("before", .null)]),
    ("index", .null),
    ("mode", .str "managed"),
    ("name", .str "main"),
    ("type", .str "db")]]),
  ("zone", .bool true)]

def plainPlan : Plan where
  formatVersion := "1.2"
  toolVersion := ""
  variableValues := []
  plannedValues := none
  resourceDrift := []
  resourceChanges := [⟨"db.main", "", "", .managed, "db", "main", none, "",
    some ⟨[.create], some .null, none, none, none, none, none, none, ""⟩, "", ""⟩]
  outputChanges := []
  priorState := some ⟨"1.0", "", some ⟨[], some ⟨[], "", [⟨[], "module.app", []⟩]⟩⟩, none⟩
  config := none
  relevantAttributes := []
  checks := none
  timestamp := ""
  errored := false
  applyable := false
  complete := false

theorem ofJson_strict_toJson_storedPlan :
    storedPlan.WellFormed ∧ ofJson false storedPlan .plan = .ok (plan plainPlan) ∧
      ofJson true (plan plainPlan).toJson .plan = .ok (plan plainPlan) := by
  have hw : storedPlan.WellFormed := by
    simp only [storedPlan, Json.WellFormed, Json.WellFormedMembers, Json.WellFormedItems,
      Dict.Sorted]
    decide
  have h : ofJson false storedPlan .plan = .ok (plan plainPlan) := rfl
  exact ⟨hw, h, ofJson_strict_toJson hw h⟩

end Document
end PlanWire
