import PlanWire.Proofs.Document.RoundTrip
import PlanWire.Proofs.Json.Numbers

/-!
# The numbers that are written for a document

A document keeps the numbers of the trees in it as they were read, and the
numbers of its own are counts. So what is written for a document that was read
holds no number whose text could not be read.
-/

set_option autoImplicit false

namespace PlanWire

open Json (Keeps Leaf Numbers)

namespace Json

variable {P : Number → Prop}

theorem Leaf.numbers (hP : ∀ n : UInt64, P (.int n.toNat)) {u : Json} (h : Leaf u) :
    u.Numbers P := by
  cases h with
  | null => exact numbers_null
  | text s => exact numbers_str s
  | flag b => exact numbers_bool b
  | count n => exact numbers_num.2 (hP n)

theorem keeps_numbers (hP : ∀ n : UInt64, P (.int n.toNat)) :
    Keeps (fun v w => v.Numbers P → w.Numbers P) (Numbers P) where
  same _ := id
  leaf hu _ _ := hu.numbers hP
  default hu := hu.numbers hP
  inside v w _ hw h hv := by
    apply Numbers.of_children
    · rintro n rfl
      cases hw
    · intro s u hu
      rcases h s u hu with ⟨_, j, hj, hnumbers, -⟩ | ⟨hfills, -⟩
      · exact hnumbers (hv.of_child hj)
      · exact hfills

end Json

theorem Format.relates_of_ofJson {α : Type} {format : Format α} {R : Json → Json → Prop}
    (hr : ∀ n, format.record.codec.Relates R n) {strict : Bool} {v : Json} {a : α}
    (hw : v.WellFormed) (h : format.ofJson strict v = .ok a) : R v (format.encode a) := by
  cases v with
  | obj members =>
    obtain ⟨-, -, hread, -⟩ := ofMembers_eq_ok.1 h
    exact hr _ _ a hw (Nat.lt_succ_self _) hread
  | _ => cases h

theorem Format.relates_of_fields {α : Type} {format : Format α} {R : Json → Json → Prop}
    {F : Json → Prop} {h : Keeps R F}
    (hf : ∀ n, format.record.fields.Have (Law.relating h).toProperty n) {strict : Bool} {v : Json}
    {a : α} (hw : v.WellFormed) (hd : format.ofJson strict v = .ok a) : R v (format.encode a) :=
  relates_of_ofJson (fun n => Law.record (hf n)) hw hd

namespace Document

variable {strict : Bool} {kind : DocumentKind} {v : Json} {d : Document}

/-- Whatever every codec keeps that fills empty containers holds of every document. -/
theorem relates_of_ofJson {R : Json → Json → Prop} {F : Json → Prop} (h : Keeps R F)
    (hnull : R .null (.obj [])) (harray : F (.arr [])) (hobject : F (.obj []))
    (hw : v.WellFormed) (hd : ofJson strict v kind = .ok d) : R v d.encode := by
  have hc : (Law.relating h).FillsContainers := ⟨fun _ => harray, fun _ => hobject⟩
  have ht := Law.relating_ofTypes h
  have he := Law.relating_ofExpressions h hnull hobject
  cases kind with
  | plan =>
    obtain ⟨p, hp, rfl⟩ := map_eq_ok.1 hd
    exact Format.relates_of_fields (Plan.fields_obey he) hw hp
  | state =>
    obtain ⟨s, hs, rfl⟩ := map_eq_ok.1 hd
    exact Format.relates_of_fields (State.fields_obey (.relating h)) hw hs
  | providerSchemas =>
    obtain ⟨s, hs, rfl⟩ := map_eq_ok.1 hd
    exact Format.relates_of_fields (ProviderSchemas.fields_obey ht hc) hw hs
  | metadataFunctions =>
    obtain ⟨m, hm, rfl⟩ := map_eq_ok.1 hd
    exact Format.relates_of_fields (MetadataFunctions.fields_obey ht) hw hm
  | validationReport =>
    obtain ⟨r, hr, rfl⟩ := map_eq_ok.1 hd
    exact Format.relates_of_fields (ValidationReport.fields_obey hc) hw hr
  | versionReport =>
    obtain ⟨r, hr, rfl⟩ := map_eq_ok.1 hd
    exact Format.relates_of_fields (VersionReport.fields_obey hc) hw hr

theorem readable_of_ofJson (hw : v.WellFormed) (hd : ofJson strict v kind = .ok d)
    (hv : v.Numbers Number.Readable) : d.encode.Numbers Number.Readable := by
  have hcounts (n : UInt64) : Number.Readable (.int n.toNat) := by
    have hlt : n.toNat < 2 ^ 64 := n.toNat_lt
    exact Number.readable_of_rereads (Number.rereads_int (by omega) (by omega))
  have hnone : (Json.obj []).Numbers Number.Readable := Json.numbers_obj.2 (List.forall_mem_nil _)
  have hkeeps := relates_of_ofJson (Json.keeps_numbers hcounts) (fun _ => hnone)
    (Json.numbers_arr.2 (List.forall_mem_nil _)) hnone hw hd
  exact hkeeps hv

end Document
end PlanWire
