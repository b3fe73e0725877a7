import PlanWire.Plan.Validation
import PlanWire.Proofs.Redact.Secrecy

/-!
# What a redaction leaves as it is

A redacted plan has the parts of the plan in their order, and it differs from
the plan at most in the values that are marked as sensitive: variables by their
declarations, changes by their own masks, attributes by the mask of the first
resource change with their address, outputs by their flag. Whether a plan is
valid depends on none of these values.
-/

set_option autoImplicit false

namespace PlanWire

namespace Plan

/-- There are variables, and no configuration of the root module that would
declare them. -/
def LacksDeclarations (p : Plan) : Prop :=
  p.variableValues ≠ [] ∧ ∀ config, p.config = some config → config.rootModule = none

end Plan

namespace Redact

theorem validate_change {c d : Change} (h : AlikeChanges c d) : d.validate = c.validate := by
  have hactions : d.actions = c.actions := by rw [← h.rest]
  rw [Change.validate, Change.validate, Change.kind, Change.kind, hactions]

theorem validate_resourceChange {c d : Plan.ResourceChange} (h : AlikeResourceChanges c d) :
    d.validate = c.validate := by
  have haddress : d.address = c.address := by rw [← h.rest]
  have hchange := h.change
  rw [Plan.ResourceChange.validate, Plan.ResourceChange.validate, haddress]
  generalize c.change = x, d.change = y at hchange
  cases hchange with
  | none => rfl
  | some hab => simp only [validate_change hab]

theorem validate_resourceChanges {cs ds : List Plan.ResourceChange}
    (h : List.Forall₂ AlikeResourceChanges cs ds) :
    Plan.validateResourceChanges ds = Plan.validateResourceChanges cs := by
  induction h with
  | nil => rfl
  | cons first _ ih =>
    simp only [Plan.validateResourceChanges, validate_resourceChange first, ih]

theorem validate_outputChanges {cs ds : Dict Change} (h : Entrywise (fun _ => AlikeChanges) cs ds) :
    Plan.validateOutputChanges ds = Plan.validateOutputChanges cs := by
  rw [Entrywise] at h
  induction h with
  | nil => rfl
  | cons first _ ih =>
    simp only [Plan.validateOutputChanges, ← first.1, validate_change first.2, ih]

/-- The rules for a plan look at nothing that may differ. -/
theorem AlikePlans.validate_eq {p q : Plan} (h : AlikePlans p q) :
    q.validate = p.validate := by
  have hversion : q.formatVersion = p.formatVersion := by rw [← h.rest]
  have hconfig : q.config = p.config := by rw [← h.rest]
  have hchanges : Plan.validateResourceChanges (q.resourceDrift ++ q.resourceChanges) =
      Plan.validateResourceChanges (p.resourceDrift ++ p.resourceChanges) :=
    validate_resourceChanges (List.rel_append h.drift h.changes)
  have hprior := h.prior
  simp only [Plan.validate, hversion, hconfig, hchanges, validate_outputChanges h.outputs]
  generalize p.priorState = x, q.priorState = y at hprior
  cases hprior with
  | none => rfl
  | some hab => rw [← hab.rest]; rfl

section Sanitizer

variable (f : Sanitizer)

mutual

theorem alike_value : ∀ j mask : Json, Alike mask j (value f j mask)
  | j, mask => by
    unfold value
    split
    · exact .hidden _ _
    · next items masks => exact .arr (alike_valueItems items masks)
    · next members masks => exact .obj (alike_valueMembers members masks)
    · exact .same _ _

theorem alike_valueItems : ∀ items masks : List Json,
    AlikeItems masks items (valueItems f items masks)
  | [], masks => by cases masks <;> exact .nil _
  | _ :: _, [] => .unmasked _
  | j :: rest, mask :: masks => .cons (alike_value j mask) (alike_valueItems rest masks)

theorem alike_valueMembers : ∀ members masks : List (String × Json),
    AlikeMembers masks members (valueMembers f members masks)
  | [], _ => .nil _
  | (key, j) :: rest, masks => by
    have hrest := alike_valueMembers rest masks
    rw [valueMembers]
    cases hmask : Dict.get? key masks with
    | none => exact .unmasked hmask hrest
    | some mask => exact .masked hmask (alike_value j mask) hrest

end

theorem alike_optionalValue (j mask : Option Json) :
    AlikeOption mask j (optionalValue f j mask) := by
  cases j with
  | none => exact .same _ _
  | some j =>
    cases mask with
    | none => exact .same _ _
    | some mask => exact .masked (alike_value f j mask)

theorem alike_change (c : Change) : AlikeChanges c (change f c) where
  rest := rfl
  before := alike_optionalValue f c.before c.beforeSensitive
  after := alike_optionalValue f c.after c.afterSensitive

theorem alike_resourceChange (rc : Plan.ResourceChange) :
    AlikeResourceChanges rc (resourceChange f rc) where
  rest := rfl
  change := option_rel_map (alike_change f) rc.change

theorem alike_output (o : State.Output) : AlikeOutputs o (output f o) := by
  rw [output]
  by_cases hsensitive : o.sensitive = true
  · rw [if_pos hsensitive]
    exact ⟨rfl, .inl hsensitive⟩
  · rw [if_neg hsensitive]
    exact ⟨rfl, .inr rfl⟩

theorem alike_attributes (mask : Json) (d : Dict Json) :
    AlikeAttributes (some mask) d (attributes f mask d) := by
  have hnames : d.keys = (attributes f mask d).keys := by
    simp [attributes, Dict.keys]
  have hsame (mask : Json) (hmask : ∀ name j, attributeValue f mask name j = j) :
      AlikeAttributes (some mask) d (attributes f mask d) := by
    have hd : attributes f mask d = d := by simp [attributes, hmask]
    rw [hd]
    exact .same _ _
  cases mask with
  | bool b =>
    cases b with
    | true => exact .masked hnames (.hidden _ _)
    | false => exact hsame _ fun _ _ => rfl
  | obj masks =>
    refine .masked hnames ?_
    rw [attributes_obj]
    exact .obj (alike_valueMembers f d masks)
  | _ => exact hsame _ fun _ _ => rfl

theorem alike_resource (mask : Option Json) (r : State.Resource) :
    AlikeResources mask r (resource f mask r) := by
  cases mask with
  | none => exact ⟨rfl, .same _ _⟩
  | some mask => exact ⟨rfl, alike_attributes f mask r.attributes⟩

theorem related_values {related : State.Resource → State.Resource → Prop}
    {g : State.Resource → State.Resource} (hg : ∀ r, related r (g r)) (v : State.Values) :
    RelatedValues related v ⟨outputs f v.outputs, v.rootModule.map (mapModule g)⟩ where
  outputs := list_rel_map (fun entry => ⟨rfl, alike_output f entry.2⟩) v.outputs
  rootModule := option_rel_map (related_mapModule hg) v.rootModule

theorem related_values_after (p : Plan) (v : State.Values) :
    RelatedValues (AlikeUnder p.afterMask?) v (values f p.resourceChanges .after v) :=
  related_values f (fun r => alike_resource f (p.afterMask? r.address) r) v

theorem related_state_before (p : Plan) (s : State) :
    RelatedStates (AlikeUnder p.beforeMask?) s
      { s with values := s.values.map (values f p.resourceChanges .before) } where
  rest := rfl
  values := by
    have hvalues (v : State.Values) :
        RelatedValues (AlikeUnder p.beforeMask?) v (values f p.resourceChanges .before v) :=
      related_values f (fun r => alike_resource f (p.beforeMask? r.address) r) v
    exact option_rel_map hvalues s.values

theorem alike_planVariable {p : Plan} {root : Config.Module}
    (hroot : p.config.bind (·.rootModule) = some root) (name : String) (v : Plan.Variable) :
    p.DeclaredSensitive name ∨ v = planVariable f (isSensitive root.declarations name) v := by
  by_cases hsensitive : isSensitive root.declarations name = true
  · exact .inl ((isSensitive_iff hroot name).1 hsensitive)
  · exact .inr (by rw [planVariable, if_neg hsensitive])

theorem alike_planVariables (p : Plan) :
    (p.LacksDeclarations → planVariables f p = .error (.nilInput .rootModuleConfiguration)) ∧
      (¬ p.LacksDeclarations → ∃ d, planVariables f p = .ok d ∧
        Entrywise (fun name v w => p.DeclaredSensitive name ∨ v = w) p.variableValues d) := by
  constructor
  · rintro ⟨hvariables, hroot⟩
    have hnone : p.config.bind (·.rootModule) = none := Option.bind_eq_none_iff.2 hroot
    rw [planVariables, declaredVariables, hnone, if_neg (by simpa using hvariables)]
    rfl
  · intro h
    by_cases hvariables : p.variableValues = []
    · have hempty : planVariables f p = .ok [] := by rw [planVariables, hvariables]; rfl
      rw [hvariables]
      exact ⟨[], hempty, .nil⟩
    · cases hroot : p.config.bind (·.rootModule) with
      | none => exact absurd ⟨hvariables, Option.bind_eq_none_iff.1 hroot⟩ h
      | some root =>
        refine ⟨variableValues f root.declarations p.variableValues, ?_, ?_⟩
        · rw [planVariables, declaredVariables, hroot, if_neg (by simpa using hvariables)]
          rfl
        · exact list_rel_map (fun entry => ⟨rfl, alike_planVariable f hroot entry.1 entry.2⟩)
            p.variableValues

theorem plan_of_lacking {p : Plan} (h : p.LacksDeclarations) :
    plan f p = .error (.nilInput .rootModuleConfiguration) := by
  rw [plan, (alike_planVariables f p).1 h]
  rfl

theorem plan_of_declared {p : Plan} (h : ¬ p.LacksDeclarations) :
    ∃ q, plan f p = .ok q ∧ AlikePlans p q := by
  obtain ⟨d, hd, hvariables⟩ := (alike_planVariables f p).2 h
  refine ⟨_, by rw [plan, hd]; rfl, ?_⟩
  exact {
    rest := rfl
    variableValues := hvariables
    drift := list_rel_map (alike_resourceChange f) p.resourceDrift
    changes := list_rel_map (alike_resourceChange f) p.resourceChanges
    outputs := list_rel_map (fun entry => ⟨rfl, alike_change f entry.2⟩) p.outputChanges
    planned := option_rel_map (related_values_after f p) p.plannedValues
    prior := option_rel_map (related_state_before f p) p.priorState }

/-- A redaction fails exactly when there are variables without declarations.
Otherwise the plan that it makes differs only where the plan is marked, and it
is as valid as the plan. -/
theorem plan_frame (p : Plan) :
    (∀ e, plan? f (some p) = .error e ↔
      p.LacksDeclarations ∧ e = .nilInput .rootModuleConfiguration) ∧
    (¬ p.LacksDeclarations → ∃ q, plan? f (some p) = .ok q ∧ AlikePlans p q ∧
      q.validate = p.validate) := by
  have hplan : plan? f (some p) = plan f p := rfl
  rw [hplan]
  constructor
  · intro e
    constructor
    · intro he
      by_cases h : p.LacksDeclarations
      · rw [plan_of_lacking f h] at he
        cases he
        exact ⟨h, rfl⟩
      · obtain ⟨q, hq, -⟩ := plan_of_declared f h
        rw [hq] at he
        cases he
    · rintro ⟨h, rfl⟩
      exact plan_of_lacking f h
  · intro h
    obtain ⟨q, hq, halike⟩ := plan_of_declared f h
    exact ⟨q, hq, halike, halike.validate_eq⟩

end Sanitizer

end Redact
end PlanWire
