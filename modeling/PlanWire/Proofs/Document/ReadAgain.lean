import PlanWire.Proofs.Document.RoundTrip
import PlanWire.Proofs.Wire.Restored

/-!
# Documents that are read from their own trees

A document whose every part is restored by its codec, and which keeps the rules
of its kind, is read from the tree written for it, strictly or not. Every
document that was read is one.
-/

set_option autoImplicit false

namespace PlanWire

namespace Format

variable {α : Type} {format : Format α}

theorem restored_of_ofJson (hl : ∀ n, format.record.fields.Lawful n) {strict : Bool} {v : Json}
    {a : α} (hw : v.WellFormed) (h : format.ofJson strict v = .ok a) :
    format.record.codec.Restored a ∧ format.validate a = .ok () := by
  cases v with
  | obj members =>
    obtain ⟨-, -, hread, hvalid⟩ := ofMembers_eq_ok.1 h
    have hfields := Record.ofMembers_eq_ok.1 hread
    constructor
    · apply Record.restored_iff.2
      exact (hl _).restores_of_read hw.2 (Nat.lt_succ_self _) hfields
    · exact hvalid
  | _ => cases h

theorem ofJson_of_restored (hv : format.Versioned) {a : α} (ha : format.record.codec.Restored a)
    (hvalid : format.validate a = .ok ()) (strict : Bool) :
    format.ofJson strict (format.toJson a) = .ok a := by
  apply ofMembers_eq_ok.2
  refine ⟨checkFormatVersion_sorted_encode hv a, ?_, ha, hvalid⟩
  intro _
  exact rejectUnknown_sorted_encode a

end Format

namespace Document

def ReadAgain (d : Document) : Prop := ∀ strict, ofJson strict d.toJson d.kind = .ok d

theorem readAgain_of_restored {α : Type} {format : Format α} {wrap : α → Document}
    (hread : ∀ strict j a, ofJson strict j (wrap a).kind = (format.ofJson strict j).map wrap)
    (hwrite : ∀ a, (wrap a).toJson = format.toJson a) (hv : format.Versioned) {a : α}
    (ha : format.record.codec.Restored a ∧ format.validate a = .ok ()) : ReadAgain (wrap a) := by
  intro strict
  rw [hread, hwrite]
  exact map_eq_ok.2 ⟨a, Format.ofJson_of_restored hv ha.1 ha.2 strict, rfl⟩

/-- A restored document is read again only if it keeps the rules. -/
theorem readAgain_iff_of_restored {α : Type} {format : Format α} {wrap : α → Document}
    (hread : ∀ strict j a, ofJson strict j (wrap a).kind = (format.ofJson strict j).map wrap)
    (hwrite : ∀ a, (wrap a).toJson = format.toJson a) (hv : format.Versioned) {a : α}
    (ha : format.record.codec.Restored a) : ReadAgain (wrap a) ↔ format.validate a = .ok () := by
  constructor
  · intro h
    have hagain := h false
    rw [hread, hwrite] at hagain
    obtain ⟨b, hb, -⟩ := map_eq_ok.1 hagain
    obtain ⟨-, -, hfields, hvalid⟩ := Format.ofMembers_eq_ok.1 hb
    obtain rfl : b = a := Except.ok.inj (hfields.symm.trans ha)
    exact hvalid
  · intro hvalid
    exact readAgain_of_restored hread hwrite hv ⟨ha, hvalid⟩

theorem readAgain_plan {p : Plan} (hp : Plan.codec.Restored p ∧ p.validate = .ok ()) :
    ReadAgain (plan p) :=
  readAgain_of_restored (fun _ _ _ => rfl) (fun _ => rfl) Plan.versioned hp

theorem readAgain_state {s : State} (hs : State.codec.Restored s ∧ s.validate = .ok ()) :
    ReadAgain (state s) :=
  readAgain_of_restored (fun _ _ _ => rfl) (fun _ => rfl) State.versioned hs

variable {strict : Bool} {kind : DocumentKind} {v : Json} {d : Document}

theorem readAgain_of_ofJson (hw : v.WellFormed) (h : ofJson strict v kind = .ok d) :
    d.kind = kind ∧ d.ReadAgain := by
  cases kind with
  | plan =>
    obtain ⟨p, hp, rfl⟩ := map_eq_ok.1 h
    exact ⟨rfl, readAgain_plan (Format.restored_of_ofJson Plan.lawful_fields hw hp)⟩
  | state =>
    obtain ⟨s, hs, rfl⟩ := map_eq_ok.1 h
    exact ⟨rfl, readAgain_state (Format.restored_of_ofJson State.lawful_fields hw hs)⟩
  | providerSchemas =>
    obtain ⟨s, hs, rfl⟩ := map_eq_ok.1 h
    have hrestored := Format.restored_of_ofJson ProviderSchemas.lawful_fields hw hs
    exact ⟨rfl, readAgain_of_restored (fun _ _ _ => rfl) (fun _ => rfl)
      ProviderSchemas.versioned hrestored⟩
  | metadataFunctions =>
    obtain ⟨m, hm, rfl⟩ := map_eq_ok.1 h
    have hrestored := Format.restored_of_ofJson MetadataFunctions.lawful_fields hw hm
    exact ⟨rfl, readAgain_of_restored (fun _ _ _ => rfl) (fun _ => rfl)
      MetadataFunctions.versioned hrestored⟩
  | validationReport =>
    obtain ⟨r, hr, rfl⟩ := map_eq_ok.1 h
    have hrestored := Format.restored_of_ofJson ValidationReport.lawful_fields hw hr
    exact ⟨rfl, readAgain_of_restored (fun _ _ _ => rfl) (fun _ => rfl)
      ValidationReport.versioned hrestored⟩
  | versionReport =>
    obtain ⟨r, hr, rfl⟩ := map_eq_ok.1 h
    have hrestored := Format.restored_of_ofJson VersionReport.lawful_fields hw hr
    exact ⟨rfl, readAgain_of_restored (fun _ _ _ => rfl) (fun _ => rfl)
      VersionReport.versioned hrestored⟩

end Document
end PlanWire
