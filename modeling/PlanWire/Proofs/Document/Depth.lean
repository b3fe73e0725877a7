import PlanWire.Proofs.Document.Errors
import PlanWire.Proofs.Document.Numbers
import PlanWire.Proofs.Document.ReadAgain
import PlanWire.Proofs.Json.Written
import PlanWire.Proofs.Report.Depth
import PlanWire.Proofs.Schema.Depth

/-!
# Which documents are too deep to be read again

What is written for a document is at most one level deeper than the text that
the document was read from. An expression is written as an empty object where
the text has a null or nothing; if this is below the last level that the reader
allows, the plan is lost to the reader. Documents of the other kinds never are,
and nothing else that a document holds makes its text malformed.
-/

set_option autoImplicit false

namespace PlanWire

open Json (Covers Rereads nestingLimit)

namespace Document

variable {strict : Bool} {kind : DocumentKind} {v : Json} {d : Document}

theorem covering_ofExpressions : (Law.covering True).OfExpressions :=
  Law.relating_ofExpressions _ (Json.covers_null trivial) (.inr ⟨trivial, rfl⟩)

theorem plan_covers (hw : v.WellFormed) (h : ofJson strict v .plan = .ok d) :
    Covers (fun _ => True) v d.encode := by
  obtain ⟨p, hp, rfl⟩ := map_eq_ok.1 h
  exact Format.relates_of_fields (Plan.fields_obey covering_ofExpressions) hw hp

/-- Every document but a plan keeps the limit that its text keeps. -/
theorem nesting_le_of_ofJson (hw : v.WellFormed) (hk : kind ≠ .plan)
    (h : ofJson strict v kind = .ok d) (hv : v.nesting ≤ nestingLimit) :
    d.encode.nesting ≤ nestingLimit := by
  cases kind with
  | plan => exact absurd rfl hk
  | state =>
    obtain ⟨s, hs, rfl⟩ := map_eq_ok.1 h
    have hcovers := Format.relates_of_fields (State.fields_obey (Law.covering False)) hw hs
    exact Nat.le_trans hcovers.nesting_le hv
  | providerSchemas =>
    obtain ⟨s, hs, rfl⟩ := map_eq_ok.1 h
    have hcovers := Format.relates_of_ofJson ProviderSchemas.covering hw hs
    by_cases hdeep : v.nesting < (ProviderSchemas.format.encode s).nesting
    · obtain ⟨hlevel, hnesting, -⟩ := hcovers.deeper hdeep
      have hlimit : v.nesting ≠ nestingLimit := by
        intro hlast
        rw [hlast] at hlevel
        exact hlevel rfl
      change (ProviderSchemas.format.encode s).nesting ≤ nestingLimit
      omega
    · exact Nat.le_trans (Nat.not_lt.1 hdeep) hv
  | metadataFunctions =>
    obtain ⟨m, hm, rfl⟩ := map_eq_ok.1 h
    have hcovers :=
      Format.relates_of_fields (MetadataFunctions.fields_obey Schema.covering_ofTypes) hw hm
    exact Nat.le_trans hcovers.nesting_le hv
  | validationReport =>
    obtain ⟨r, -, rfl⟩ := map_eq_ok.1 h
    exact Nat.le_trans (ValidationReport.shallow r) (by decide)
  | versionReport =>
    obtain ⟨r, -, rfl⟩ := map_eq_ok.1 h
    exact Nat.le_trans (VersionReport.shallow r) (by decide)

/-- The one way in which a document is too deep: it is a plan whose text uses
every level that the reader allows, and below the last one an empty object
stands for a null or for nothing. -/
structure Overflows (kind : DocumentKind) (v w : Json) : Prop where
  isPlan : kind = .plan
  full : v.nesting = nestingLimit
  deeper : w.nesting = nestingLimit + 1
  filled : ∃ path, w.Holds path (.obj []) ∧ path.length = nestingLimit ∧
    (v.at? path = none ∨ v.at? path = some .null)

theorem keeps_limit_or_overflows (hw : v.WellFormed) (h : ofJson strict v kind = .ok d)
    (hv : v.nesting ≤ nestingLimit) :
    d.encode.nesting ≤ nestingLimit ∨ Overflows kind v d.encode := by
  by_cases hk : kind = .plan
  · subst hk
    by_cases hdeep : d.encode.nesting ≤ nestingLimit
    · exact .inl hdeep
    · obtain ⟨-, hnesting, path, hpath, hlength, hat⟩ := (plan_covers hw h).deeper (by omega)
      have hfull : v.nesting = nestingLimit := by omega
      right
      exact ⟨rfl, hfull, by omega, path, hpath, by omega, hat⟩
  · exact .inl (nesting_le_of_ofJson hw hk h hv)

theorem ofBytes_bytes (hr : v.Rereads) (hw : v.WellFormed) (hn : v.nesting ≤ nestingLimit)
    (h : ofJson strict v kind = .ok d) : ofBytes strict v.bytes kind = .ok d :=
  ofBytes_eq_ok.2 ⟨v, hw, Json.read_bytes hr hw hn, h⟩

theorem ofBytes_texts (hd : d.ReadAgain) (hr : d.encode.Rereads) {text : List UInt8}
    (ht : text = d.encode.bytes ∨ text = d.encode.prettyBytes) (again : Bool) :
    ofBytes again text d.kind =
      if d.encode.nesting ≤ nestingLimit then .ok d else .error .malformedInput := by
  rw [ofBytes, Json.read_texts hr ht]
  by_cases hdeep : d.encode.nesting ≤ nestingLimit
  · rw [Json.within_of_le _ hdeep, if_pos hdeep]
    exact hd again
  · rw [Json.within_of_lt _ (Nat.not_le.1 hdeep), if_neg hdeep]

theorem exists_encode_eq_obj (d : Document) : ∃ members, d.encode = .obj members := by
  cases d <;> exact ⟨_, rfl⟩

theorem ofBytes_eq_malformedInput_iff (hr : d.encode.Numbers Number.Readable) {text : List UInt8}
    (ht : text = d.encode.bytes ∨ text = d.encode.prettyBytes) (again : Bool) :
    ofBytes again text kind = .error .malformedInput ↔ nestingLimit < d.encode.nesting := by
  obtain ⟨members, hobject⟩ := exists_encode_eq_obj d
  have hagain : d.encode.again = .obj (Json.againMembers members) := by rw [hobject, Json.again]
  rw [ofBytes, Json.read_again hr ht]
  by_cases hdeep : d.encode.nesting ≤ nestingLimit
  · rw [Json.within_of_le _ hdeep, hagain, Json.sorted]
    simp only [Nat.not_lt.2 hdeep, iff_false]
    exact obj_ne_malformedInput (Dict.sorted_ofList _)
  · rw [Json.within_of_lt _ (Nat.not_le.1 hdeep)]
    simpa using hdeep

/-- What is written for a document that was read, compact or pretty, is malformed
exactly if it is deeper than the reader allows, and it is that deep in one way
only. Otherwise it is read as this document again, strictly or not, if every
number in it is read from its own text. -/
theorem reread_unless_overflows {bytes : List UInt8} (h : ofBytes strict bytes kind = .ok d) :
    ∃ v, Json.read bytes = some v ∧ v.nesting ≤ nestingLimit ∧
      (d.encode.nesting ≤ nestingLimit ∨ Overflows kind v d.encode) ∧
      ∀ text, (text = d.encode.bytes ∨ text = d.encode.prettyBytes) → ∀ again,
        (ofBytes again text kind = .error .malformedInput ↔ nestingLimit < d.encode.nesting) ∧
        (d.encode.Rereads → d.encode.nesting ≤ nestingLimit → ofBytes again text kind = .ok d) := by
  obtain ⟨v, hw, hread, hd⟩ := ofBytes_eq_ok.1 h
  obtain ⟨hkind, hagain⟩ := readAgain_of_ofJson hw hd
  have hv := Json.nesting_le_of_read hread
  have hreadable := readable_of_ofJson hw hd (Json.readable_of_read hread)
  refine ⟨v, hread, hv, keeps_limit_or_overflows hw hd hv, ?_⟩
  intro text ht again
  refine ⟨ofBytes_eq_malformedInput_iff hreadable ht again, ?_⟩
  intro hr hdeep
  rw [← hkind, ofBytes_texts hagain hr ht again, if_pos hdeep]

section Plans

def planTree (expression : Json) : Json := .obj [
  ("configuration", .obj [("root_module", .obj [("outputs", .obj [("x", .obj [
    ("expression", expression)])])])]),
  ("format_version", .str "1.0")]

def planWith (expression : Expression) : Plan where
  formatVersion := "1.0"
  toolVersion := ""
  variableValues := []
  plannedValues := none
  resourceDrift := []
  resourceChanges := []
  outputChanges := []
  priorState := none
  config := some ⟨[], some ⟨[("x", ⟨false, expression, "", []⟩)], [], [], []⟩⟩
  relevantAttributes := []
  checks := none
  timestamp := ""
  errored := false
  applyable := false
  complete := false

theorem wellFormed_planTree {t : Json} (h : t.WellFormed) : (planTree t).WellFormed := by
  have hkeys : List.Pairwise (· < ·) ["configuration", "format_version"] := by decide
  constructor
  · rw [Dict.sorted_iff_keys]
    exact hkeys
  · simp [Json.WellFormed, Json.WellFormedMembers, Dict.Sorted, h]

theorem ofBytes_planTree {t : Json} {e : Expression} (hr : t.Rereads) (hw : (planTree t).WellFormed)
    (hn : (planTree t).nesting ≤ nestingLimit)
    (hd : ofJson false (planTree t) .plan = .ok (plan (planWith e))) :
    ofBytes false (planTree t).bytes .plan = .ok (plan (planWith e)) := by
  have htree : (planTree t).Rereads := by
    simp [planTree, Json.numbers_obj, Json.numbers_str, hr]
  exact ofBytes_bytes htree hw hn hd

theorem rereads_planWith {e : Expression} (h : e.encode.Rereads) :
    (plan (planWith e)).encode.Rereads := by
  change (Json.obj [("format_version", .str "1.0"), ("configuration", .obj [("root_module",
    .obj [("outputs", .obj [("x", .obj [("expression", e.encode)])])])]),
    ("errored", .bool false)]).Rereads
  simp [Json.numbers_obj, Json.numbers_str, Json.numbers_bool, h]

def oneBlock : Json := .arr [.obj [("a", .null), ("b", .obj [("constant_value", .num (.int 1))])]]

theorem reread_unless_overflows_oneBlock :
    let d := plan (planWith (.ofBlocks [[("a", {}), ("b", .ofConstant (.num (.int 1)))]]))
    ofBytes false (planTree oneBlock).bytes .plan = .ok d ∧
      d.encode.Rereads ∧ ofBytes true d.encode.prettyBytes .plan = .ok d := by
  intro d
  have hone : (Json.num (.int 1)).Rereads :=
    Json.numbers_num.2 ⟨⟨false, [1], [], none⟩, rfl, rfl⟩
  have hblock : oneBlock.Rereads := by
    simp [oneBlock, Json.numbers_arr, Json.numbers_obj, Json.numbers_null, hone]
  have hw : (planTree oneBlock).WellFormed := by
    apply wellFormed_planTree
    simp only [oneBlock, Json.WellFormed, Json.WellFormedMembers, Json.WellFormedItems, Dict.Sorted]
    decide
  have hd : ofBytes false (planTree oneBlock).bytes .plan = .ok d :=
    ofBytes_planTree hblock hw (by decide) rfl
  have hr : d.encode.Rereads := by
    apply rereads_planWith
    change (Json.arr [.obj [("a", .obj []),
      ("b", .obj [("constant_value", .num (.int 1))])]]).Rereads
    simp [Json.numbers_arr, Json.numbers_obj, hone]
  obtain ⟨_, _, _, _, hagain⟩ := reread_unless_overflows hd
  exact ⟨hd, hr, (hagain _ (.inr rfl) true).2 hr (by decide)⟩

def blocksAround : Nat → Json
  | 0 => .null
  | n + 1 => .arr [.obj [("a", blocksAround n)]]

def expressionsAround : Nat → Expression
  | 0 => {}
  | n + 1 => .ofBlocks [[("a", expressionsAround n)]]

theorem rereads_blocksAround (n : Nat) : (blocksAround n).Rereads := by
  induction n with
  | zero => exact Json.numbers_null
  | succ n ih => simp [blocksAround, Json.numbers_arr, Json.numbers_obj, ih]

theorem wellFormed_blocksAround (n : Nat) : (blocksAround n).WellFormed := by
  induction n with
  | zero => trivial
  | succ n ih =>
    have hsorted : Dict.Sorted [("a", blocksAround n)] := List.pairwise_singleton ..
    exact ⟨⟨hsorted, ih, trivial⟩, trivial⟩

theorem rereads_expressionsAround (n : Nat) : (expressionsAround n).encode.Rereads := by
  induction n with
  | zero => exact Json.numbers_obj.2 nofun
  | succ n ih =>
    change (Json.arr [.obj [("a", (expressionsAround n).encode)]]).Rereads
    simp [Json.numbers_arr, Json.numbers_obj, ih]

set_option maxRecDepth 10000 in
/-- With 61 blocks around a null the text of a plan has 127 levels, and what is
written for the plan has 128: neither text of it can be read. -/
theorem plan_lost_below_blocks :
    ∃ d, ofBytes false (planTree (blocksAround 61)).bytes .plan = .ok d ∧
      d.encode.nesting = 128 ∧ ofBytes false d.encode.bytes .plan = .error .malformedInput ∧
      ofBytes false d.encode.prettyBytes .plan = .error .malformedInput := by
  have hw := wellFormed_planTree (wellFormed_blocksAround 61)
  have hfull : (planTree (blocksAround 61)).nesting = nestingLimit := by decide +kernel
  have htree : ofJson false (planTree (blocksAround 61)) .plan =
      .ok (plan (planWith (expressionsAround 61))) := rfl
  have hd := ofBytes_planTree (rereads_blocksAround 61) hw (Nat.le_of_eq hfull) htree
  have hagain := (readAgain_of_ofJson hw htree).2
  have hr := rereads_planWith (rereads_expressionsAround 61)
  have hdeep : (plan (planWith (expressionsAround 61))).encode.nesting = 128 := by decide +kernel
  have hlimit : ¬ (plan (planWith (expressionsAround 61))).encode.nesting ≤ nestingLimit := by
    rw [hdeep]
    decide
  refine ⟨_, hd, hdeep, ?_, ?_⟩
  · exact (ofBytes_texts hagain hr (.inl rfl) false).trans (if_neg hlimit)
  · exact (ofBytes_texts hagain hr (.inr rfl) false).trans (if_neg hlimit)

end Plans

end Document
end PlanWire
