import PlanWire.Proofs.Plan.Valid
import PlanWire.Proofs.Wire.Member

/-!
# The state that a plan starts from

A state inside a plan is judged as it would be by itself. A state by itself must
name its format version before it is read; inside a plan a version that is
missing is read as an empty text, which no state may have either.
-/

set_option autoImplicit false

namespace PlanWire

theorem Format.map_ofJson_of_fault {α : Type} (format : Format α) {wrap : α → Document}
    {members : List (String × Json)} {fault : Fault}
    (hversion : format.checkFormatVersion members = .ok ())
    (hfields : format.record.ofMembers members = .error fault) :
    (format.ofJson false (.obj members)).map wrap = .error (.shape fault) := by
  simp only [ofJson, ofMembers, hversion, hfields, Bool.false_eq_true, if_false]
  rfl

namespace State

theorem validate_of_versionless {inner : List (String × Json)} {s : State}
    (hmissing : Dict.get? "format_version" inner = none) (hfields : record.ofMembers inner = .ok s) :
    s.validate = .error (.missingFormatVersion .state) := by
  have hread := Outcome.both_eq_read.1 (Record.ofMembers_eq_ok.1 hfields)
  have hempty : s.formatVersion = "" := by
    rcases Field.read_eq_read.1 hread.1 with ⟨j, hj, -⟩ | ⟨-, habsent⟩
    · cases hmissing.symm.trans hj
    · exact (Option.some.inj habsent).symm
  rw [validate, hempty]
  rfl

end State

namespace Plan

def priorStateRef : Fields.Ref record.fields (Option State) :=
  .there _ <| .there _ <| .there _ <| .there _ <| .there _ <| .there _ <| .there _ <| .here _ _

theorem ofMembers_priorState {members : List (String × Json)} {p : Plan}
    (h : record.ofMembers members = .ok p) (inner : List (String × Json)) :
    record.ofMembers (Dict.insert "prior_state" (.obj inner) members) =
      (State.record.ofMembers inner).map fun s => { p with priorState := some s } := by
  have hinsert := Record.ofMembers_insert priorStateRef h (.obj inner)
  have hdecode : priorStateRef.field.codec.decode (.obj inner) =
      (State.record.ofMembers inner).map some := rfl
  rw [hdecode] at hinsert
  cases hs : State.record.ofMembers inner with
  | error fault =>
    rw [hs] at hinsert
    exact hinsert
  | ok s =>
    rw [hs] at hinsert
    exact hinsert

theorem validate_priorState {p : Plan} (h : p.validate = .ok ()) (s : State) :
    { p with priorState := some s }.validate = s.validate := by
  obtain ⟨hversion, hchanges, houtputs, -, hconfig⟩ := validate_checks.1 h
  simp only [validate, hversion, hchanges, houtputs]
  change (s.validate >>= fun _ => _) = s.validate
  cases s.validate with
  | error rule => rfl
  | ok _ =>
    cases hc : p.config with
    | none => rfl
    | some config => exact hconfig config hc

end Plan

namespace Document

variable {members inner : List (String × Json)} {p : Plan}

theorem plan_eq_ok (h : ofJson false (.obj members) .plan = .ok (plan p)) :
    (Dict.get? "format_version" members).isSome = true ∧
      Plan.record.ofMembers members = .ok p ∧ p.validate = .ok () := by
  obtain ⟨q, hq, heq⟩ := map_eq_ok.1 h
  obtain rfl : q = p := plan.inj heq
  obtain ⟨hcheck, -, hfields, hvalid⟩ := Format.ofMembers_eq_ok.1 hq
  exact ⟨Format.checkFormatVersion_eq_ok.1 hcheck rfl, hfields, hvalid⟩

theorem version_insert_state (j : Json) :
    Dict.get? "format_version" (Dict.insert "prior_state" j members) =
      Dict.get? "format_version" members := by
  rw [Dict.get?_insert, if_neg (by decide)]

/-- A state of the right shape is judged by its rule, inside a plan and, when it
names a version, by itself. -/
theorem state_of_fields {s : State} (hplan : ofJson false (.obj members) .plan = .ok (plan p))
    (hfields : State.record.ofMembers inner = .ok s) :
    ofJson false (.obj (Dict.insert "prior_state" (.obj inner) members)) .plan =
        (ofRule s.validate).map (fun _ => plan { p with priorState := some s }) ∧
      ((Dict.get? "format_version" inner).isSome = true →
        ofJson false (.obj inner) .state = (ofRule s.validate).map fun _ => state s) := by
  obtain ⟨hversion, hplan, hvalid⟩ := plan_eq_ok hplan
  rw [← version_insert_state (.obj inner)] at hversion
  have hinserted := Plan.ofMembers_priorState hplan inner
  rw [hfields] at hinserted
  constructor
  · rw [← Plan.validate_priorState hvalid s]
    change (Plan.format.ofJson false _).map plan = _
    exact Format.map_ofJson_of_fields hversion hinserted
  · intro hversion
    change (State.format.ofJson false _).map state = _
    exact Format.map_ofJson_of_fields hversion hfields

theorem state_of_fault {fault : Fault} (hplan : ofJson false (.obj members) .plan = .ok (plan p))
    (hfields : State.record.ofMembers inner = .error fault) :
    ofJson false (.obj (Dict.insert "prior_state" (.obj inner) members)) .plan =
        .error (.shape fault) ∧
      ((Dict.get? "format_version" inner).isSome = true →
        ofJson false (.obj inner) .state = .error (.shape fault)) := by
  obtain ⟨hversion, hplan, -⟩ := plan_eq_ok hplan
  rw [← version_insert_state (.obj inner)] at hversion
  have hinserted := Plan.ofMembers_priorState hplan inner
  rw [hfields] at hinserted
  constructor
  · exact Plan.format.map_ofJson_of_fault
      (Format.checkFormatVersion_eq_ok.2 fun _ => hversion) hinserted
  · intro hversion
    exact State.format.map_ofJson_of_fault
      (Format.checkFormatVersion_eq_ok.2 fun _ => hversion) hfields

theorem state_without_version (h : Dict.get? "format_version" inner = none) :
    ofJson false (.obj inner) .state = .error (.rule (.missingFormatVersion .state)) := by
  have hcheck : State.format.checkFormatVersion inner =
      .error (.rule (.missingFormatVersion .state)) := by
    rw [Format.checkFormatVersion, Format.formatVersionKey, h]
    rfl
  rw [ofJson, Format.ofJson, Format.ofMembers, hcheck]
  rfl

/-- A plan that is read is read with a state put into it, in place of one that
may be there, exactly when the state is read by itself, and then it has this
state. If it is not read, the error is the one of the state by itself; only in
a state without a version a fault of shape is reported first. -/
theorem prior_state_judged_alone (hplan : ofJson false (.obj members) .plan = .ok (plan p)) :
    (∀ d, ofJson false (.obj (Dict.insert "prior_state" (.obj inner) members)) .plan = .ok d ↔
      ∃ s, ofJson false (.obj inner) .state = .ok (state s) ∧
        d = plan { p with priorState := some s }) ∧
    ∀ e, ofJson false (.obj (Dict.insert "prior_state" (.obj inner) members)) .plan = .error e →
      ofJson false (.obj inner) .state = .error e ∨
        Dict.get? "format_version" inner = none ∧ ∃ fault, e = .shape fault := by
  cases hversion : Dict.get? "format_version" inner with
  | none =>
    rw [state_without_version hversion]
    cases hfields : State.record.ofMembers inner with
    | error fault =>
      rw [(state_of_fault hplan hfields).1]
      exact ⟨by simp, fun e he => .inr ⟨rfl, fault, (Except.error.inj he).symm⟩⟩
    | ok s =>
      rw [(state_of_fields hplan hfields).1, State.validate_of_versionless hversion hfields]
      exact ⟨fun d => ⟨nofun, by simp⟩, fun e he => .inl he⟩
  | some version =>
    have hsome : (Dict.get? "format_version" inner).isSome = true := by rw [hversion]; rfl
    cases hfields : State.record.ofMembers inner with
    | error fault =>
      obtain ⟨hinside, halone⟩ := state_of_fault hplan hfields
      rw [hinside, halone hsome]
      exact ⟨by simp, fun e he => .inl he⟩
    | ok s =>
      obtain ⟨hinside, halone⟩ := state_of_fields hplan hfields
      rw [hinside, halone hsome]
      cases s.validate with
      | error rule =>
        refine ⟨fun d => ⟨nofun, ?_⟩, fun e he => .inl he⟩
        rintro ⟨t, ht, -⟩
        cases ht
      | ok _ =>
        refine ⟨fun d => ⟨fun hd => ⟨s, rfl, (Except.ok.inj hd).symm⟩, ?_⟩, nofun⟩
        rintro ⟨t, ht, rfl⟩
        obtain rfl := state.inj (Except.ok.inj ht)
        rfl

def versionOnly (version : String) : List (String × Json) := [("format_version", .str version)]

def planFrom (state : Option State) : Plan where
  formatVersion := "1.2"
  toolVersion := ""
  variableValues := []
  plannedValues := none
  resourceDrift := []
  resourceChanges := []
  outputChanges := []
  priorState := state
  config := none
  relevantAttributes := []
  checks := none
  timestamp := ""
  errored := false
  applyable := false
  complete := false

theorem prior_state_judged_alone_versionOnly :
    ofJson false (.obj (versionOnly "1.2")) .plan = .ok (plan (planFrom none)) ∧
      ofJson false (.obj (Dict.insert "prior_state" (.obj (versionOnly "1.0")) (versionOnly "1.2")))
        .plan = .ok (plan (planFrom (some ⟨"1.0", "", none, none⟩))) ∧
      ∀ d, ofJson false (.obj (Dict.insert "prior_state" (.obj (versionOnly "1.0-rc"))
        (versionOnly "1.2"))) .plan ≠ .ok d := by
  have hplan : ofJson false (.obj (versionOnly "1.2")) .plan = .ok (plan (planFrom none)) := rfl
  refine ⟨hplan, ((prior_state_judged_alone hplan).1 _).2 ⟨⟨"1.0", "", none, none⟩, rfl, rfl⟩, ?_⟩
  intro d hd
  obtain ⟨s, hs, -⟩ := ((prior_state_judged_alone hplan).1 d).1 hd
  cases hs

end Document
end PlanWire
