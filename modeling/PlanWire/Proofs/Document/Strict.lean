import PlanWire.Proofs.Document.RoundTrip

/-!
# Strict readings

A strict reading makes one check more than a lenient one: every top-level key
must be listed for the kind of document. The list leaves out no key that is
read or written, so taking out the other keys changes no reading, whether it
gives a document or an error.
-/

set_option autoImplicit false

namespace PlanWire

def DocumentKind.listed (kind : DocumentKind) (members : List (String × Json)) :
    List (String × Json) :=
  members.filter fun member => kind.fieldNames.contains member.1

theorem DocumentKind.key_of_mem_listed {kind : DocumentKind} {members : List (String × Json)}
    {key : String} (h : key ∈ Dict.keys (kind.listed members)) : key ∈ kind.fieldNames := by
  obtain ⟨member, hm, rfl⟩ := List.mem_map.1 h
  have hlisted := (List.mem_filter.1 hm).2
  simpa using hlisted

theorem DocumentKind.get?_listed {kind : DocumentKind} {members : List (String × Json)}
    {key : String} (h : key ∈ kind.fieldNames) :
    Dict.get? key (kind.listed members) = Dict.get? key members := by
  have hkeep : kind.fieldNames.contains key = true := by simpa using h
  exact Dict.get?_filter hkeep

namespace Format

variable {α : Type} {format : Format α}

theorem subset_of_rejectUnknown {members : List (String × Json)}
    (h : format.rejectUnknown members = .ok ()) : Dict.keys members ⊆ format.fieldNames := by
  induction members with
  | nil => exact List.nil_subset _
  | cons member rest ih =>
    by_cases hk : member.1 ∈ format.fieldNames
    · have hrest : format.rejectUnknown rest = .ok () := by simpa [rejectUnknown, hk] using h
      exact List.cons_subset.2 ⟨hk, ih hrest⟩
    · simp [rejectUnknown, hk] at h

theorem ofMembers_strict_of_subset {members : List (String × Json)}
    (h : Dict.keys members ⊆ format.fieldNames) :
    format.ofMembers true members = format.ofMembers false members := by
  have hreject : format.rejectUnknown members = .ok () := rejectUnknown_of_subset h
  simp only [ofMembers, hreject, if_true]
  rfl

theorem ofMembers_strict_eq_ok {members : List (String × Json)} {a : α} :
    format.ofMembers true members = .ok a ↔
      format.ofMembers false members = .ok a ∧ Dict.keys members ⊆ format.fieldNames := by
  constructor
  · intro h
    have hsubset : Dict.keys members ⊆ format.fieldNames :=
      subset_of_rejectUnknown ((ofMembers_eq_ok.1 h).2.1 rfl)
    rw [← ofMembers_strict_of_subset hsubset]
    exact ⟨h, hsubset⟩
  · rintro ⟨h, hsubset⟩
    rw [ofMembers_strict_of_subset hsubset]
    exact h

theorem checkFormatVersion_congr {members others : List (String × Json)}
    (h : format.needsFormatVersion = true →
      Dict.get? formatVersionKey members = Dict.get? formatVersionKey others) :
    format.checkFormatVersion members = format.checkFormatVersion others := by
  by_cases hn : format.needsFormatVersion = true
  · simp only [checkFormatVersion, h hn]
  · simp [checkFormatVersion, hn]

def ListsVersion (format : Format α) : Prop :=
  format.needsFormatVersion = true → formatVersionKey ∈ format.fieldNames

/-- Keys that are not listed do not count in a lenient reading. -/
theorem ofMembers_listed (hv : format.ListsVersion) (members : List (String × Json)) :
    format.ofMembers false (format.kind.listed members) = format.ofMembers false members := by
  have hget : ∀ key ∈ format.fieldNames,
      Dict.get? key (format.kind.listed members) = Dict.get? key members :=
    fun _ hk => DocumentKind.get?_listed hk
  have hversion : format.checkFormatVersion (format.kind.listed members) =
      format.checkFormatVersion members :=
    checkFormatVersion_congr fun hn => hget formatVersionKey (hv hn)
  have hfields : format.record.fields.read (format.kind.listed members) =
      format.record.fields.read members := by
    refine format.record.fields.read_congr fun key hk => hget key ?_
    rw [fieldNames, format.listed]
    exact hk
  simp only [ofMembers, hversion, Record.ofMembers, hfields, Bool.false_eq_true, if_false]

theorem ofMembers_lenient_eq_strict (hv : format.ListsVersion) (members : List (String × Json)) :
    format.ofMembers false members = format.ofMembers true (format.kind.listed members) := by
  rw [ofMembers_strict_of_subset fun _ hk => DocumentKind.key_of_mem_listed hk,
    ofMembers_listed hv]

theorem map_ofJson_strict {wrap : α → Document} (hv : format.ListsVersion)
    (members : List (String × Json)) :
    (Dict.keys members ⊆ format.fieldNames →
      (format.ofJson true (.obj members)).map wrap =
        (format.ofJson false (.obj members)).map wrap) ∧
    (format.ofJson false (.obj members)).map wrap =
      (format.ofJson true (.obj (format.kind.listed members))).map wrap ∧
    ∀ d, (format.ofJson true (.obj members)).map wrap = .ok d ↔
      (format.ofJson false (.obj members)).map wrap = .ok d ∧
        Dict.keys members ⊆ format.fieldNames := by
  refine ⟨?_, ?_, ?_⟩
  · intro h
    exact congrArg (Except.map wrap) (ofMembers_strict_of_subset h)
  · exact congrArg (Except.map wrap) (ofMembers_lenient_eq_strict hv members)
  · intro d
    simp only [ofJson, map_eq_ok, ofMembers_strict_eq_ok]
    constructor
    · rintro ⟨a, ⟨ha, hsubset⟩, rfl⟩
      exact ⟨⟨a, ha, rfl⟩, hsubset⟩
    · rintro ⟨⟨a, ha, rfl⟩, hsubset⟩
      exact ⟨a, ⟨ha, hsubset⟩, rfl⟩

theorem exists_written (format : Format α) (a : α) :
    ∃ written, format.toJson a = .obj written ∧ Dict.keys written ⊆ format.fieldNames :=
  ⟨_, rfl, subset_of_rejectUnknown (rejectUnknown_sorted_encode a)⟩

end Format

namespace Document

theorem exists_written (d : Document) :
    ∃ written, d.toJson = .obj written ∧ Dict.keys written ⊆ d.kind.fieldNames := by
  cases d with
  | plan p => exact Plan.format.exists_written p
  | state s => exact State.format.exists_written s
  | providerSchemas s => exact ProviderSchemas.format.exists_written s
  | metadataFunctions m => exact MetadataFunctions.format.exists_written m
  | validationReport v => exact ValidationReport.format.exists_written v
  | versionReport v => exact VersionReport.format.exists_written v

theorem strict_and_lenient (kind : DocumentKind) (members : List (String × Json)) :
    (Dict.keys members ⊆ kind.fieldNames →
      ofJson true (.obj members) kind = ofJson false (.obj members) kind) ∧
    ofJson false (.obj members) kind = ofJson true (.obj (kind.listed members)) kind ∧
    ∀ d, ofJson true (.obj members) kind = .ok d ↔
      ofJson false (.obj members) kind = .ok d ∧ Dict.keys members ⊆ kind.fieldNames := by
  cases kind with
  | plan => exact Plan.format.map_ofJson_strict (fun _ => .head _) members
  | state => exact State.format.map_ofJson_strict (fun _ => .head _) members
  | providerSchemas => exact ProviderSchemas.format.map_ofJson_strict (fun _ => .head _) members
  | metadataFunctions =>
    exact MetadataFunctions.format.map_ofJson_strict (fun _ => .head _) members
  | validationReport => exact ValidationReport.format.map_ofJson_strict nofun members
  | versionReport => exact VersionReport.format.map_ofJson_strict nofun members

/-- A strict reading of an object whose keys are all listed is a lenient one. A
lenient reading is a strict one of the listed members. A document is read
strictly when it is read leniently and all keys are listed. No other keys are
ever written. -/
theorem strict_iff_listed (kind : DocumentKind) (members : List (String × Json)) :
    (Dict.keys members ⊆ kind.fieldNames →
      ofJson true (.obj members) kind = ofJson false (.obj members) kind) ∧
    ofJson false (.obj members) kind = ofJson true (.obj (kind.listed members)) kind ∧
    (∀ d, ofJson true (.obj members) kind = .ok d ↔
      ofJson false (.obj members) kind = .ok d ∧ Dict.keys members ⊆ kind.fieldNames) ∧
    ∀ d : Document, d.kind = kind →
      ∃ written, d.toJson = .obj written ∧ Dict.keys written ⊆ kind.fieldNames := by
  obtain ⟨hsame, hlisted, hstrict⟩ := strict_and_lenient kind members
  refine ⟨hsame, hlisted, hstrict, ?_⟩
  rintro d rfl
  exact d.exists_written

def versionMembers : List (String × Json) :=
  [("platform", .str "linux_amd64"), ("terraform_version", .str "1.9.0")]

def versionReading : Document := .versionReport
  { toolVersion := "1.9.0", toolRevision := "", platform := "linux_amd64",
    providerSelections := [], outdated := false }

theorem strict_iff_listed_versionMembers :
    ofJson true (.obj versionMembers) .versionReport =
        ofJson false (.obj versionMembers) .versionReport ∧
      ofJson true (.obj versionMembers) .versionReport = .ok versionReading ∧
      ∃ written, versionReading.toJson = .obj written ∧
        Dict.keys written ⊆ DocumentKind.versionReport.fieldNames := by
  obtain ⟨hsame, -, hstrict, hwritten⟩ := strict_iff_listed .versionReport versionMembers
  have hlisted : Dict.keys versionMembers ⊆ DocumentKind.versionReport.fieldNames := by
    decide
  have hread : ofJson false (.obj versionMembers) .versionReport = .ok versionReading := rfl
  exact ⟨hsame hlisted, (hstrict versionReading).2 ⟨hread, hlisted⟩, hwritten versionReading rfl⟩

end Document
end PlanWire
