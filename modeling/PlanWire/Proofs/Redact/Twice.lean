import PlanWire.Proofs.Redact.Frame
import PlanWire.Proofs.Redact.Modules
import PlanWire.Proofs.Wire.Laws

/-!
# Redacting twice

A sanitizer that leaves its own replacements as they are, as every constant
does, has nothing left to do in what it has redacted. The masks, the flags and
the addresses by which masks are found are not redacted themselves, so the
second redaction comes to the same places as the first.
-/

set_option autoImplicit false

namespace PlanWire.Redact

/-- What the sanitizer replaces by is not replaced any further. -/
def Settles (f : Sanitizer) : Prop := ∀ j, f (f j) = f j

theorem settles_constant (replacement : Json) : Settles (Policy.constant replacement).apply :=
  fun _ => rfl

theorem option_map_twice {α : Type} {g : α → α} (hg : ∀ a, g (g a) = g a) (x : Option α) :
    (x.map g).map g = x.map g := by
  cases x with
  | none => rfl
  | some a => exact congrArg some (hg a)

theorem list_map_twice {α : Type} {g : α → α} (hg : ∀ a, g (g a) = g a) (xs : List α) :
    (xs.map g).map g = xs.map g := by
  rw [List.map_map]
  exact List.map_congr_left fun a _ => hg a

theorem mapValues_twice {α : Type} {g : α → α} (hg : ∀ a, g (g a) = g a) (d : Dict α) :
    (d.mapValues g).mapValues g = d.mapValues g :=
  list_map_twice (fun entry => congrArg (entry.1, ·) (hg entry.2)) d

section Sanitizer

variable {f : Sanitizer}

mutual

theorem value_twice (hf : Settles f) : ∀ j mask : Json,
    value f (value f j mask) mask = value f j mask
  | j, mask => by
    cases mask with
    | bool b =>
      cases b with
      | true => rw [value, value, hf]
      | false => cases j <;> rfl
    | arr masks =>
      cases j with
      | arr items => rw [value, value, valueItems_twice hf items masks]
      | _ => rfl
    | obj masks =>
      cases j with
      | obj members => rw [value, value, valueMembers_twice hf members masks]
      | _ => rfl
    | null => cases j <;> rfl
    | num n => cases j <;> rfl
    | str s => cases j <;> rfl

theorem valueItems_twice (hf : Settles f) : ∀ items masks : List Json,
    valueItems f (valueItems f items masks) masks = valueItems f items masks
  | [], masks => by cases masks <;> rfl
  | _ :: _, [] => rfl
  | j :: rest, mask :: masks => by
    simp only [valueItems, value_twice hf j mask, valueItems_twice hf rest masks]

theorem valueMembers_twice (hf : Settles f) : ∀ members masks : List (String × Json),
    valueMembers f (valueMembers f members masks) masks = valueMembers f members masks
  | [], _ => rfl
  | (key, j) :: rest, masks => by
    have hrest := valueMembers_twice hf rest masks
    cases hmask : Dict.get? key masks with
    | none => simp only [valueMembers, hmask, hrest]
    | some mask => simp only [valueMembers, hmask, hrest, value_twice hf j mask]

end

theorem optionalValue_twice (hf : Settles f) (j mask : Option Json) :
    optionalValue f (optionalValue f j mask) mask = optionalValue f j mask := by
  cases j with
  | none => rfl
  | some j =>
    cases mask with
    | none => rfl
    | some mask => exact congrArg some (value_twice hf j mask)

theorem change_twice (hf : Settles f) (c : Change) : change f (change f c) = change f c := by
  simp only [change, optionalValue_twice hf]

theorem resourceChange_twice (hf : Settles f) (rc : Plan.ResourceChange) :
    resourceChange f (resourceChange f rc) = resourceChange f rc := by
  simp only [resourceChange, option_map_twice (change_twice hf)]

theorem attributeValue_twice (hf : Settles f) (mask : Json) (name : String) (j : Json) :
    attributeValue f mask name (attributeValue f mask name j) = attributeValue f mask name j := by
  cases mask with
  | bool b =>
    cases b with
    | true => exact hf j
    | false => rfl
  | obj masks =>
    cases hmask : Dict.get? name masks with
    | none => simp only [attributeValue, hmask]
    | some mask => simp only [attributeValue, hmask, value_twice hf j mask]
  | null => rfl
  | num n => rfl
  | str s => rfl
  | arr items => rfl

theorem attributes_twice (hf : Settles f) (mask : Json) (d : Dict Json) :
    attributes f mask (attributes f mask d) = attributes f mask d :=
  list_map_twice
    (fun entry => congrArg (entry.1, ·) (attributeValue_twice hf mask entry.1 entry.2)) d

theorem resource_twice (hf : Settles f) (mask : Option Json) (r : State.Resource) :
    resource f mask (resource f mask r) = resource f mask r := by
  cases mask with
  | none => rfl
  | some mask => simp only [resource, attributes_twice hf]

/-- A mask that is sought by what a redaction leaves as it is, is found again. -/
theorem resource_mask_twice (hf : Settles f) {maskOf : State.Resource → Option Json}
    (hmask : ∀ mask r, maskOf (resource f mask r) = maskOf r) (r : State.Resource) :
    resource f (maskOf (resource f (maskOf r) r)) (resource f (maskOf r) r) =
      resource f (maskOf r) r := by
  rw [hmask, resource_twice hf]

mutual

theorem mapModule_twice {g : State.Resource → State.Resource} (hg : ∀ r, g (g r) = g r) :
    ∀ m : State.Module, mapModule g (mapModule g m) = mapModule g m
  | ⟨resources, _, children⟩ => by
    simp only [mapModule, list_map_twice hg resources, mapModules_twice hg children]

theorem mapModules_twice {g : State.Resource → State.Resource} (hg : ∀ r, g (g r) = g r) :
    ∀ ms : List State.Module, mapModules g (mapModules g ms) = mapModules g ms
  | [] => rfl
  | m :: rest => by simp only [mapModules, mapModule_twice hg m, mapModules_twice hg rest]

end

theorem module_twice (hf : Settles f) (m : State.Module) :
    module f (module f m) = module f m :=
  mapModule_twice (resource_mask_twice hf (resource_sensitive f)) m

theorem moduleUnder_twice (hf : Settles f) (changes : List Plan.ResourceChange) (side : Side)
    (m : State.Module) :
    moduleUnder f changes side (moduleUnder f changes side m) = moduleUnder f changes side m := by
  let maskOf (r : State.Resource) : Option Json := maskFor changes side r.address
  have hmask (mask : Option Json) (r : State.Resource) :
      maskOf (resource f mask r) = maskOf r := by
    show maskFor changes side (resource f mask r).address = maskFor changes side r.address
    rw [resource_address]
  exact mapModule_twice (resource_mask_twice hf hmask) m

theorem output_twice (hf : Settles f) (o : State.Output) : output f (output f o) = output f o := by
  by_cases hsensitive : o.sensitive = true
  · simp only [output, hsensitive, if_true, Option.getD_some, hf (o.value.getD .null)]
  · simp only [output, hsensitive, if_false, Bool.false_eq_true]

theorem outputs_twice (hf : Settles f) (d : Dict State.Output) :
    outputs f (outputs f d) = outputs f d := mapValues_twice (output_twice hf) d

theorem state_twice (hf : Settles f) (s : State) : state f (state f s) = state f s := by
  have hvalues (v : State.Values) :
      (⟨outputs f (outputs f v.outputs), (v.rootModule.map (module f)).map (module f)⟩ :
        State.Values) = ⟨outputs f v.outputs, v.rootModule.map (module f)⟩ := by
    rw [outputs_twice hf, option_map_twice (module_twice hf)]
  simp only [state]
  rw [option_map_twice hvalues]

theorem values_twice (hf : Settles f) (changes : List Plan.ResourceChange) (side : Side)
    (v : State.Values) :
    values f changes side (values f changes side v) = values f changes side v := by
  simp only [values, outputs_twice hf, option_map_twice (moduleUnder_twice hf changes side)]

theorem values_redacted (changes : List Plan.ResourceChange) (side : Side) :
    values f (changes.map (resourceChange f)) side = values f changes side := by
  have hmask : maskFor (changes.map (resourceChange f)) side = maskFor changes side :=
    (maskFor_eq (list_rel_map (alike_resourceChange f) changes) side).symm
  funext v
  simp only [values, moduleUnder, hmask]

theorem planVariable_twice (hf : Settles f) (sensitive : Bool) (v : Plan.Variable) :
    planVariable f sensitive (planVariable f sensitive v) = planVariable f sensitive v := by
  cases sensitive with
  | true => simp only [planVariable, if_true, Option.getD_some, hf (v.value.getD .null)]
  | false => rfl

theorem variableValues_twice (hf : Settles f) (declared : Dict Config.Variable)
    (d : Dict Plan.Variable) :
    variableValues f declared (variableValues f declared d) = variableValues f declared d :=
  list_map_twice (fun entry => congrArg (entry.1, ·) (planVariable_twice hf _ entry.2)) d

theorem planVariables_twice (hf : Settles f) {p q : Plan} (hconfig : q.config = p.config)
    (h : planVariables f p = .ok q.variableValues) :
    planVariables f q = .ok q.variableValues := by
  have hdeclared : declaredVariables q = declaredVariables p := by
    rw [declaredVariables, declaredVariables, hconfig]
  by_cases hq : q.variableValues.isEmpty = true
  · rw [planVariables, if_pos hq, List.isEmpty_iff.1 hq]
  · by_cases hp : p.variableValues.isEmpty = true
    · rw [planVariables, if_pos hp] at h
      rw [← Except.ok.inj h] at hq
      exact absurd rfl hq
    · rw [planVariables, if_neg hp] at h
      rw [planVariables, if_neg hq, hdeclared]
      cases hd : declaredVariables p with
      | error e => rw [hd] at h; cases h
      | ok declared =>
        have hvalues : variableValues f declared p.variableValues = q.variableValues := by
          rw [hd] at h
          exact Except.ok.inj h
        rw [← hvalues]
        exact congrArg Except.ok (variableValues_twice hf declared p.variableValues)

theorem plan_twice (hf : Settles f) {p q : Plan} (h : plan f p = .ok q) : plan f q = .ok q := by
  obtain ⟨declared, hdeclared, hq⟩ := bind_eq_ok.1 h
  have hconfig : q.config = p.config := by rw [← Except.ok.inj hq]
  have hvariables : q.variableValues = declared := by rw [← Except.ok.inj hq]
  have hagain : planVariables f q = .ok q.variableValues :=
    planVariables_twice hf hconfig (hvariables ▸ hdeclared)
  let before (s : State) : State :=
    { s with values := s.values.map (values f p.resourceChanges .before) }
  have hbefore (s : State) : before (before s) = before s := by
    simp only [before, option_map_twice (values_twice hf p.resourceChanges .before)]
  have hprior := option_map_twice hbefore p.priorState
  rw [plan, hagain]
  apply congrArg Except.ok
  obtain rfl := Except.ok.inj hq
  simp only [values_redacted, list_map_twice (resourceChange_twice hf),
    mapValues_twice (change_twice hf), option_map_twice (values_twice hf p.resourceChanges .after)]
  congr 1

end Sanitizer

/-- Every constant settles, and below a sanitizer that settles a second
redaction changes nothing: of a value under its mask, of a change, of a module
under its own masks or under those of changes, of a state, and of a plan that
could be redacted at all. -/
theorem redaction_settles :
    (∀ replacement, Settles (Policy.constant replacement).apply) ∧
    ∀ f, Settles f →
      (∀ j mask, value f (value f j mask) mask = value f j mask) ∧
      (∀ c, change f (change f c) = change f c) ∧
      (∀ m, module f (module f m) = module f m) ∧
      (∀ changes side m, moduleUnder f changes side (moduleUnder f changes side m) =
        moduleUnder f changes side m) ∧
      (∀ s, state f (state f s) = state f s) ∧
      ∀ p q, plan? f (some p) = .ok q → plan? f (some q) = .ok q := by
  refine ⟨settles_constant, ?_⟩
  intro f hf
  refine ⟨value_twice hf, change_twice hf, module_twice hf, moduleUnder_twice hf, state_twice hf, ?_⟩
  intro p q hq
  exact plan_twice hf hq

def emptied : Sanitizer
  | .str _ => .str ""
  | .arr _ => .arr []
  | .obj _ => .obj []
  | _ => .null

def planWithToken (token : Json) : Plan where
  formatVersion := "1.2"
  toolVersion := ""
  variableValues := [("token", ⟨some token⟩)]
  plannedValues := none
  resourceDrift := []
  resourceChanges := []
  outputChanges := []
  priorState := none
  config := some ⟨[], some ⟨[], [], [], [("token", ⟨none, "", true⟩)]⟩⟩
  relevantAttributes := []
  checks := none
  timestamp := ""
  errored := false
  applyable := false
  complete := false

theorem redaction_settles_emptied :
    Settles emptied ∧
      plan? emptied (some (planWithToken (.arr [.str "hunter2"]))) = .ok (planWithToken (.arr [])) ∧
      plan? emptied (some (planWithToken (.arr []))) = .ok (planWithToken (.arr [])) := by
  have hsettles : Settles emptied := by
    intro j
    cases j <;> rfl
  have honce : plan? emptied (some (planWithToken (.arr [.str "hunter2"]))) =
      .ok (planWithToken (.arr [])) := rfl
  obtain ⟨-, -, -, -, -, hplan⟩ := redaction_settles.2 emptied hsettles
  exact ⟨hsettles, honce, hplan _ _ honce⟩

end PlanWire.Redact
