import Mathlib
import PlanWire.Dump
import PlanWire.Proofs.Document.ReadAgain
import PlanWire.Proofs.Redact.Restored
import PlanWire.Proofs.Redact.Twice

/-!
# The output of the dump is a fixed point

What the dump writes, it writes again when it is given its own output. The
document in the output, redacted or not, is read from it under the same
options; it keeps the rules of its kind, which look at nothing that a redaction
replaces; and a second redaction leaves it as it is.
-/

set_option autoImplicit false

namespace PlanWire

open Redact (KeepsForm Settles)

namespace Document

theorem validate_redacted {f : Redact.Sanitizer} {p q : Plan} (h : Redact.plan f p = .ok q)
    (hvalid : p.validate = .ok ()) : q.validate = .ok () := by
  by_cases hp : p.LacksDeclarations
  · rw [Redact.plan_of_lacking f hp] at h
    cases h
  · obtain ⟨r, hr, hdiffers⟩ := Redact.plan_of_declared f hp
    obtain rfl : r = q := Except.ok.inj (hr.symm.trans h)
    rw [hdiffers.validate_eq]
    exact hvalid

variable {strict : Bool} {kind : DocumentKind} {v : Json} {d e : Document} {f : Redact.Sanitizer}

theorem readAgain_redact (hf : KeepsForm f) (hw : v.WellFormed) (h : ofJson strict v kind = .ok d)
    (he : d.redact f = .ok e) : e.kind = kind ∧ e.ReadAgain := by
  have hd := readAgain_of_ofJson hw h
  cases kind with
  | plan =>
    obtain ⟨p, hp, rfl⟩ := map_eq_ok.1 h
    obtain ⟨hrestored, hvalid⟩ := Format.restored_of_ofJson Plan.lawful_fields hw hp
    obtain ⟨q, hq, rfl⟩ := map_eq_ok.1 he
    have hredacted := Redact.plan_restored hf hq hrestored
    exact ⟨rfl, readAgain_plan ⟨hredacted, validate_redacted hq hvalid⟩⟩
  | state =>
    obtain ⟨s, hs, rfl⟩ := map_eq_ok.1 h
    obtain ⟨hrestored, hvalid⟩ := Format.restored_of_ofJson State.lawful_fields hw hs
    obtain rfl := Except.ok.inj he
    exact ⟨rfl, readAgain_state ⟨Redact.state_restored hf hrestored, hvalid⟩⟩
  | _ =>
    obtain ⟨a, -, rfl⟩ := map_eq_ok.1 h
    obtain rfl := Except.ok.inj he
    exact hd

theorem redact_twice (hf : Settles f) (h : d.redact f = .ok e) : e.redact f = .ok e := by
  cases d with
  | plan p =>
    obtain ⟨q, hq, rfl⟩ := map_eq_ok.1 h
    exact map_eq_ok.2 ⟨q, Redact.plan_twice hf hq, rfl⟩
  | state s =>
    obtain rfl := Except.ok.inj h
    exact congrArg (fun s => Except.ok (state s)) (Redact.state_twice hf s)
  | _ =>
    obtain rfl := Except.ok.inj h
    rfl

end Document

namespace Dump

theorem ofJson_eq_ok {o : Options} {v : Json} {e : Document} :
    ofJson o v = .ok e ↔
      ∃ d, Document.ofJson o.strict v o.kind = .ok d ∧ prepared o d = .ok e := by
  simp only [ofJson, document, bind_eq_ok, mapError_eq_ok]

theorem ofBytes_eq_ok {o : Options} {bytes : List UInt8} {e : Document} :
    ofBytes o bytes = .ok e ↔
      ∃ v, v.WellFormed ∧ Json.read bytes = some v ∧ ofJson o v = .ok e := by
  simp only [ofBytes, document, bind_eq_ok, mapError_eq_ok, Document.ofBytes_eq_ok, ofJson_eq_ok]
  constructor
  · rintro ⟨d, ⟨v, hw, hread, hd⟩, he⟩
    exact ⟨v, hw, hread, d, hd, he⟩
  · rintro ⟨v, hw, hread, d, hd, he⟩
    exact ⟨d, ⟨v, hw, hread, hd⟩, he⟩

theorem ofJson_toJson {o : Options} {v : Json} {e : Document} (hw : v.WellFormed)
    (h : ofJson o v = .ok e) : ofJson o e.toJson = .ok e := by
  obtain ⟨d, hd, he⟩ := ofJson_eq_ok.1 h
  have hsettles := Redact.settles_constant (.str o.placeholder)
  have hkeeps : KeepsForm (Redact.Policy.constant (.str o.placeholder)).apply := fun _ _ => trivial
  by_cases hsanitize : o.sanitize = true
  · rw [prepared, if_pos hsanitize] at he
    obtain ⟨hkind, hagain⟩ := Document.readAgain_redact hkeeps hw hd he
    apply ofJson_eq_ok.2
    refine ⟨e, hkind ▸ hagain o.strict, ?_⟩
    rw [prepared, if_pos hsanitize]
    exact Document.redact_twice hsettles he
  · rw [prepared, if_neg hsanitize] at he
    obtain rfl := Except.ok.inj he
    obtain ⟨hkind, hagain⟩ := Document.readAgain_of_ofJson hw hd
    apply ofJson_eq_ok.2
    refine ⟨d, hkind ▸ hagain o.strict, ?_⟩
    rw [prepared, if_neg hsanitize]

/-- Whatever the options, the document that the dump makes of a tree it makes
again of the tree of that document; and for every text that is read as this
tree, as the text written for the document is, it writes what it wrote before. -/
theorem fixed_point (o : Options) :
    (∀ (v : Json) (e : Document), v.WellFormed → ofJson o v = .ok e → ofJson o e.toJson = .ok e) ∧
    ∀ (bytes again : List UInt8) (e : Document), ofBytes o bytes = .ok e →
      Json.read again = some e.toJson →
        ofBytes o again = .ok e ∧ run o (.ok again) = run o (.ok bytes) := by
  constructor
  · intro v e hw h
    exact ofJson_toJson hw h
  · intro bytes again e h hread
    obtain ⟨v, hw, -, he⟩ := ofBytes_eq_ok.1 h
    have hagain : ofBytes o again = .ok e :=
      ofBytes_eq_ok.2 ⟨e.toJson, Json.wellFormed_of_read hread, hread, ofJson_toJson hw he⟩
    constructor
    · exact hagain
    · rw [run, run, hagain, h]

def secretTree : Json := .obj [
  ("configuration", .obj [("root_module", .obj [
    ("variables", .obj [("token", .obj [("sensitive", .bool true)])])])]),
  ("format_version", .str "1.2"),
  ("output_changes", .obj [("login", .obj [
    ("actions", .arr [.str "create"]),
    ("after", .obj [("pin", .arr [.null]), ("user", .str "ann")]),
    ("after_sensitive", .obj [("pin", .bool true)])])]),
  ("variables", .obj [("token", .obj [("value", .str "hunter2")])])]

def shownPlan : Plan where
  formatVersion := "1.2"
  toolVersion := ""
  variableValues := [("token", ⟨some (.str "R")⟩)]
  plannedValues := none
  resourceDrift := []
  resourceChanges := []
  outputChanges := [("login", ⟨[.create], none,
    some (.obj [("pin", .str "R"), ("user", .str "ann")]), none, none,
    some (.obj [("pin", .bool true)]), none, none, ""⟩)]
  priorState := none
  config := some ⟨[], some ⟨[], [], [], [("token", ⟨none, "", true⟩)]⟩⟩
  relevantAttributes := []
  checks := none
  timestamp := ""
  errored := false
  applyable := false
  complete := false

def redacting (kind : DocumentKind) : Options where
  file := "file.json"
  kind := kind
  strict := true
  sanitize := true
  placeholder := "R"
  diff := false

def firstState : State := ⟨"1", "", none, none⟩

def firstOutput : List UInt8 :=
  Text.Utf8.encode ((Document.state firstState).encode.pretty ++ "\n").toList

theorem fixed_point_shownPlan :
    (ofJson (redacting .plan) secretTree = .ok (.plan shownPlan) ∧
      ofJson (redacting .plan) (Document.plan shownPlan).toJson = .ok (.plan shownPlan)) ∧
    ofBytes (redacting .state) firstOutput = .ok (.state firstState) ∧
      run (redacting .state) (.ok firstOutput) =
        run (redacting .state) (.ok (Document.state firstState).encode.bytes) := by
  have hw : secretTree.WellFormed := by
    simp only [secretTree, Json.WellFormed, Json.WellFormedMembers, Json.WellFormedItems,
      Dict.Sorted]
    decide
  have hplan : ofJson (redacting .plan) secretTree = .ok (.plan shownPlan) := rfl
  have htree : Json.read (Document.state firstState).encode.bytes =
      some (Document.state firstState).toJson := by cbv
  have houtput : Json.read firstOutput = some (Document.state firstState).toJson := by cbv
  have hstate : ofBytes (redacting .state) (Document.state firstState).encode.bytes =
      .ok (.state firstState) :=
    ofBytes_eq_ok.2 ⟨_, Json.wellFormed_of_read htree, htree, rfl⟩
  exact ⟨⟨hplan, (fixed_point _).1 _ _ hw hplan⟩, (fixed_point _).2 _ _ _ hstate houtput⟩

end Dump
end PlanWire
