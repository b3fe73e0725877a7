import PlanWire.Proofs.Document.Strict
import PlanWire.Proofs.Text.ByteOrder

/-!
# Which error a reading gives

A reading judges in stages, and an error tells the first stage that fails: the
text must hold an object, the object must name its format version if the kind
asks for one, a strict reading must know every key, and only then shape and
rules count. No fault that lies deeper changes what an earlier stage reports.
-/

set_option autoImplicit false

namespace PlanWire

namespace DocumentKind

def NeedsVersion (kind : DocumentKind) : Prop :=
  kind ∈ [plan, state, providerSchemas, metadataFunctions]

instance : DecidablePred NeedsVersion := fun kind =>
  inferInstanceAs (Decidable (kind ∈ [plan, state, providerSchemas, metadataFunctions]))

/-- The format version that the kind asks for is not there. -/
def LacksVersion (kind : DocumentKind) (members : List (String × Json)) : Prop :=
  kind.NeedsVersion ∧ Dict.get? "format_version" members = none

/-- Among the keys that are not listed for the kind this one has the least bytes. -/
structure FirstUnlisted (kind : DocumentKind) (members : List (String × Json))
    (key : String) : Prop where
  found : key ∈ Dict.keys members
  unlisted : key ∉ kind.fieldNames
  first : ∀ other ∈ Dict.keys members, other ∉ kind.fieldNames → other ≠ key →
    Text.Precedes key other

/-- What may come of an object, each stage under the condition that the stages
before it have passed. -/
inductive Judged (kind : DocumentKind) (strict : Bool) (members : List (String × Json))
    {α : Type} : Except Error α → Prop
  | unversioned (missing : kind.LacksVersion members) :
      Judged kind strict members (.error (.rule (.missingFormatVersion kind)))
  | unlisted {key : String} (version : ¬ kind.LacksVersion members) (isStrict : strict = true)
      (h : kind.FirstUnlisted members key) :
      Judged kind strict members (.error (.unknownField kind key))
  | refused (cause : Cause) (version : ¬ kind.LacksVersion members)
      (listed : strict = true → Dict.keys members ⊆ kind.fieldNames) :
      Judged kind strict members (.error (.schemaViolation cause))
  | read (a : α) (version : ¬ kind.LacksVersion members)
      (listed : strict = true → Dict.keys members ⊆ kind.fieldNames) :
      Judged kind strict members (.ok a)

theorem Judged.map {kind : DocumentKind} {strict : Bool} {members : List (String × Json)}
    {α β : Type} {x : Except Error α} (h : kind.Judged strict members x) (wrap : α → β) :
    kind.Judged strict members (x.map wrap) := by
  cases h with
  | unversioned missing => exact .unversioned missing
  | unlisted version isStrict first => exact .unlisted version isStrict first
  | refused cause version listed => exact .refused cause version listed
  | read a version listed => exact .read (wrap a) version listed

theorem Judged.stages {kind : DocumentKind} {strict : Bool} {members : List (String × Json)}
    {α : Type} {x : Except Error α} (h : kind.Judged strict members x) :
    (kind.LacksVersion members → x = .error (.rule (.missingFormatVersion kind))) ∧
      (¬ kind.LacksVersion members → strict = true → ¬ Dict.keys members ⊆ kind.fieldNames →
        ∃ key, kind.FirstUnlisted members key ∧ x = .error (.unknownField kind key)) ∧
      (¬ kind.LacksVersion members → (strict = true → Dict.keys members ⊆ kind.fieldNames) →
        (∃ a, x = .ok a) ∨ ∃ cause, x = .error (.schemaViolation cause)) := by
  cases h with
  | unversioned missing =>
    refine ⟨fun _ => rfl, ?_, ?_⟩
    · exact fun version => absurd missing version
    · exact fun version => absurd missing version
  | @unlisted key version isStrict first =>
    refine ⟨fun missing => absurd missing version, fun _ _ _ => ⟨key, first, rfl⟩, ?_⟩
    intro _ listed
    exact absurd (listed isStrict first.found) first.unlisted
  | refused cause version listed =>
    refine ⟨fun missing => absurd missing version, ?_, fun _ _ => .inr ⟨cause, rfl⟩⟩
    exact fun _ isStrict hunlisted => absurd (listed isStrict) hunlisted
  | read a version listed =>
    refine ⟨fun missing => absurd missing version, ?_, fun _ _ => .inl ⟨a, rfl⟩⟩
    exact fun _ isStrict hunlisted => absurd (listed isStrict) hunlisted

end DocumentKind

namespace Format

variable {α : Type} {format : Format α} {members : List (String × Json)}

theorem rejectUnknown_cases (hsorted : Dict.Sorted members) :
    (format.rejectUnknown members = .ok () ∧ Dict.keys members ⊆ format.fieldNames) ∨
      ∃ key, format.rejectUnknown members = .error (.unknownField format.kind key) ∧
        format.kind.FirstUnlisted members key := by
  have hcases := Dict.loop_cases format.rejectUnknown (·.1 ∉ format.fieldNames)
    (.unknownField format.kind) hsorted rfl
    (fun member rest hunlisted => by simp [rejectUnknown, hunlisted])
    (fun member rest hlisted => by simp [rejectUnknown, not_not.1 hlisted])
  rcases hcases with ⟨hok, hlisted⟩ | ⟨member, hmem, hunlisted, herror, hfirst⟩
  · refine .inl ⟨hok, ?_⟩
    intro key hkey
    obtain ⟨member, hmem, rfl⟩ := List.mem_map.1 hkey
    exact not_not.1 (hlisted member hmem)
  · refine .inr ⟨member.1, herror, List.mem_map_of_mem hmem, hunlisted, ?_⟩
    intro key hkey hother hne
    obtain ⟨other, hmem, rfl⟩ := List.mem_map.1 hkey
    exact hfirst other hmem hother hne

theorem judged_fields {strict : Bool} (version : ¬ format.kind.LacksVersion members)
    (listed : strict = true → Dict.keys members ⊆ format.kind.fieldNames) :
    format.kind.Judged strict members (do
      let document ← ofShape (format.record.ofMembers members)
      ofRule (format.validate document)
      return document) := by
  cases format.record.ofMembers members with
  | error fault => exact .refused (.shape fault) version listed
  | ok a =>
    change format.kind.Judged strict members (ofRule (format.validate a) >>= fun _ => .ok a)
    cases format.validate a with
    | error rule => exact .refused (.rule rule) version listed
    | ok _ => exact .read a version listed

theorem judged_ofMembers (hneeds : format.needsFormatVersion = true ↔ format.kind.NeedsVersion)
    (hsorted : Dict.Sorted members) (strict : Bool) :
    format.kind.Judged strict members (format.ofMembers strict members) := by
  by_cases hlacks : format.kind.LacksVersion members
  · have hcheck : format.checkFormatVersion members =
        .error (.rule (.missingFormatVersion format.kind)) := by
      obtain ⟨hkind, hnone⟩ := hlacks
      rw [checkFormatVersion, formatVersionKey, hnone, hneeds.2 hkind]
      rfl
    rw [ofMembers, hcheck]
    exact .unversioned hlacks
  · have hcheck : format.checkFormatVersion members = .ok () := by
      apply checkFormatVersion_eq_ok.2
      intro hn
      rw [Option.isSome_iff_ne_none]
      exact fun hnone => hlacks ⟨hneeds.1 hn, hnone⟩
    rw [ofMembers, hcheck]
    cases strict with
    | false => exact judged_fields hlacks (by simp)
    | true =>
      rcases rejectUnknown_cases hsorted with ⟨hok, hsubset⟩ | ⟨key, herror, hfirst⟩
      · rw [if_pos rfl, hok]
        exact judged_fields hlacks fun _ => hsubset
      · rw [if_pos rfl, herror]
        exact .unlisted hlacks rfl hfirst

end Format

namespace Document

variable {strict : Bool} {kind : DocumentKind}

theorem kind_of_ofJson {j : Json} {d : Document} (h : ofJson strict j kind = .ok d) :
    d.kind = kind := by
  cases kind
  all_goals
    obtain ⟨a, -, rfl⟩ := map_eq_ok.1 h
    rfl

theorem judged_ofJson (kind : DocumentKind) {members : List (String × Json)}
    (hsorted : Dict.Sorted members) (strict : Bool) :
    kind.Judged strict members (ofJson strict (.obj members) kind) := by
  cases kind with
  | plan => exact (Plan.format.judged_ofMembers (by decide) hsorted strict).map plan
  | state => exact (State.format.judged_ofMembers (by decide) hsorted strict).map state
  | providerSchemas =>
    exact (ProviderSchemas.format.judged_ofMembers (by decide) hsorted strict).map providerSchemas
  | metadataFunctions =>
    exact (MetadataFunctions.format.judged_ofMembers (by decide) hsorted strict).map
      metadataFunctions
  | validationReport =>
    exact (ValidationReport.format.judged_ofMembers (by decide) hsorted strict).map validationReport
  | versionReport =>
    exact (VersionReport.format.judged_ofMembers (by decide) hsorted strict).map versionReport

theorem ofJson_of_not_obj {j : Json} (h : ∀ members, j ≠ .obj members) :
    ofJson strict j kind = .error .malformedInput := by
  cases j with
  | obj members => exact absurd rfl (h members)
  | _ => cases kind <;> rfl

theorem obj_ne_malformedInput {members : List (String × Json)} (hsorted : Dict.Sorted members) :
    ofJson strict (.obj members) kind ≠ .error .malformedInput := by
  intro h
  have hjudged := judged_ofJson kind hsorted strict
  rw [h] at hjudged
  cases hjudged

/-- Text is malformed exactly when it holds no object. An object that lacks the
version its kind asks for is told so; otherwise a strict reading tells the
least key that the kind does not have; otherwise there is a document of the
kind or a fault of its contents. -/
theorem error_by_stage (strict : Bool) (bytes : List UInt8) (kind : DocumentKind) :
    (ofBytes strict bytes kind = .error .malformedInput ↔
      ∀ members, Json.read bytes ≠ some (.obj members)) ∧
    ∀ members, Json.read bytes = some (.obj members) →
      (kind.LacksVersion members →
        ∃ e, ofBytes strict bytes kind = .error (.schemaViolation e) ∧
          e.message = "unexpected " ++ kind.name ++ " input, format version is missing") ∧
      (¬ kind.LacksVersion members → strict = true → ¬ Dict.keys members ⊆ kind.fieldNames →
        ∃ key, kind.FirstUnlisted members key ∧
          ofBytes strict bytes kind = .error (.unknownField kind key)) ∧
      (¬ kind.LacksVersion members → (strict = true → Dict.keys members ⊆ kind.fieldNames) →
        (∃ d : Document, d.kind = kind ∧ ofBytes strict bytes kind = .ok d) ∨
          ∃ cause, ofBytes strict bytes kind = .error (.schemaViolation cause)) := by
  have hobject {members : List (String × Json)} (hread : Json.read bytes = some (.obj members)) :
      ofBytes strict bytes kind = ofJson strict (.obj members) kind ∧
        kind.Judged strict members (ofBytes strict bytes kind) := by
    have hjson : ofBytes strict bytes kind = ofJson strict (.obj members) kind := by
      rw [ofBytes, hread]
    rw [hjson]
    exact ⟨rfl, judged_ofJson kind (Json.wellFormed_of_read hread).1 strict⟩
  refine ⟨⟨?_, ?_⟩, ?_⟩
  · intro hmalformed members hread
    have hjudged := (hobject hread).2
    rw [hmalformed] at hjudged
    cases hjudged
  · intro h
    rw [ofBytes]
    cases hread : Json.read bytes with
    | none => rfl
    | some j => exact ofJson_of_not_obj fun members hj => h members (hj ▸ hread)
  · intro members hread
    obtain ⟨hjson, hjudged⟩ := hobject hread
    obtain ⟨hmissing, hunlisted, hrest⟩ := hjudged.stages
    refine ⟨fun missing => ⟨_, hmissing missing, rfl⟩, hunlisted, ?_⟩
    intro version listed
    rcases hrest version listed with ⟨d, hd⟩ | hrefused
    · exact .inl ⟨d, kind_of_ofJson (hjson.symm.trans hd), hd⟩
    · exact .inr hrefused

end Document
end PlanWire
