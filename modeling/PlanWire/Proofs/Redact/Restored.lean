import PlanWire.Proofs.Plan.Tree
import PlanWire.Proofs.Redact.Positions
import PlanWire.Proofs.Wire.Restored
import PlanWire.Redact.Plan

/-!
# A redacted document is read again

A redaction takes no name and no position out of a document and puts none in;
it exchanges values of which nothing but their order is known to the codecs. So
every part that was restored before a redaction is restored after it, provided
that the replacements are well formed.
-/

set_option autoImplicit false

namespace PlanWire.Redact

open Json (WellFormedItems WellFormedMembers)

/-- What the sanitizer replaces a well formed value by is well formed. -/
def KeepsForm (f : Sanitizer) : Prop := ∀ j, j.WellFormed → (f j).WellFormed

section Sanitizer

variable {f : Sanitizer}

mutual

theorem wellFormed_value (hf : KeepsForm f) : ∀ j mask : Json, j.WellFormed →
    (value f j mask).WellFormed
  | j, mask, h => by
    unfold value
    split
    · exact hf _ h
    · next items masks => exact wellFormed_valueItems hf items masks h
    · next members masks =>
      constructor
      · rw [Dict.sorted_iff_keys, keys_valueMembers, ← Dict.sorted_iff_keys]
        exact h.1
      · exact wellFormed_valueMembers hf members masks h.2
    · exact h

theorem wellFormed_valueItems (hf : KeepsForm f) : ∀ items masks : List Json,
    WellFormedItems items → WellFormedItems (valueItems f items masks)
  | [], masks, _ => by cases masks <;> trivial
  | _ :: _, [], h => h
  | j :: rest, mask :: masks, h =>
    ⟨wellFormed_value hf j mask h.1, wellFormed_valueItems hf rest masks h.2⟩

theorem wellFormed_valueMembers (hf : KeepsForm f) : ∀ members masks : List (String × Json),
    WellFormedMembers members → WellFormedMembers (valueMembers f members masks)
  | [], _, _ => trivial
  | (key, j) :: rest, masks, h => by
    have hrest := wellFormed_valueMembers hf rest masks h.2
    rw [valueMembers]
    cases Dict.get? key masks with
    | none => exact ⟨h.1, hrest⟩
    | some mask => exact ⟨wellFormed_value hf j mask h.1, hrest⟩

end

theorem optionalValue_restores (hf : KeepsForm f) {name : String} {j mask : Option Json}
    (h : (Field.kept name).sorting.Restores j) :
    (Field.kept name).sorting.Restores (optionalValue f j mask) := by
  rw [Field.kept_restores] at h ⊢
  cases j with
  | none => exact h
  | some j =>
    cases mask with
    | none => exact h
    | some mask =>
      intro u hu
      obtain rfl := Option.some.inj hu
      exact wellFormed_value hf j mask (h j rfl)

theorem replacement_restores (hf : KeepsForm f) {name : String} {j : Option Json}
    (h : (Field.kept name).sorting.Restores j) :
    (Field.kept name).sorting.Restores (some (f (j.getD .null))) := by
  rw [Field.kept_restores] at h ⊢
  intro u hu
  obtain rfl := Option.some.inj hu
  apply hf
  cases j with
  | none => trivial
  | some j => exact h j rfl

theorem change_restored (hf : KeepsForm f) {c : Change} (h : Change.codec.Restored c) :
    Change.codec.Restored (change f c) := by
  obtain ⟨hactions, hbefore, hafter, hrest⟩ := Record.restored_iff.1 h
  apply Record.restored_iff.2
  exact ⟨hactions, optionalValue_restores hf hbefore, optionalValue_restores hf hafter, hrest⟩

theorem resourceChange_restored (hf : KeepsForm f) {rc : Plan.ResourceChange}
    (h : Plan.ResourceChange.record.codec.Restored rc) :
    Plan.ResourceChange.record.codec.Restored (resourceChange f rc) := by
  obtain ⟨haddress, hprevious, hmodule, hmode, htype, hname, hindex, hdeposed, hchange, hrest⟩ :=
    Record.restored_iff.1 h
  have hredacted :=
    Field.optional_map_restores Record.encode_ne_null (fun _ => change_restored hf) hchange
  apply Record.restored_iff.2
  exact ⟨haddress, hprevious, hmodule, hmode, htype, hname, hindex, hdeposed, hredacted, hrest⟩

theorem attributeValue_restored (hf : KeepsForm f) (mask : Json) (name : String) (j : Json)
    (h : Codec.value.Restored j) : Codec.value.Restored (attributeValue f mask name j) := by
  rw [Codec.restored_value] at h ⊢
  cases mask with
  | bool b =>
    cases b with
    | true => exact hf j h
    | false => exact h
  | obj masks =>
    rw [attributeValue]
    cases Dict.get? name masks with
    | none => exact h
    | some mask => exact wellFormed_value hf j mask h
  | null => exact h
  | num n => exact h
  | str s => exact h
  | arr items => exact h

theorem resource_restored (hf : KeepsForm f) (mask : Option Json) {r : State.Resource}
    (h : State.Resource.record.codec.Restored r) :
    State.Resource.record.codec.Restored (resource f mask r) := by
  cases mask with
  | none => exact h
  | some mask =>
    obtain ⟨haddress, hmode, htype, hname, hindex, hprovider, hversion, hattributes, hrest⟩ :=
      Record.restored_iff.1 h
    have hredacted := Field.dict_map_restores (attributeValue_restored hf mask) hattributes
    apply Record.restored_iff.2
    exact ⟨haddress, hmode, htype, hname, hindex, hprovider, hversion, hredacted, hrest⟩

theorem output_restored (hf : KeepsForm f) {o : State.Output}
    (h : State.Output.record.codec.Restored o) :
    State.Output.record.codec.Restored (output f o) := by
  by_cases hsensitive : o.sensitive = true
  · obtain ⟨hflag, hvalue, hrest⟩ := Record.restored_iff.1 h
    rw [output, if_pos hsensitive]
    apply Record.restored_iff.2
    exact ⟨hflag, replacement_restores hf hvalue, hrest⟩
  · rw [output, if_neg hsensitive]
    exact h

theorem module_restored_iff {resources : List State.Resource} {address : String}
    {children : List State.Module} :
    State.Module.codec.Restored ⟨resources, address, children⟩ ↔
      (∀ r ∈ resources, State.Resource.record.codec.Restored r) ∧
        ∀ m ∈ children, State.Module.codec.Restored m := by
  have hcodec : State.Module.codec = (State.Module.record State.Module.codec).codec :=
    State.Module.grounded.recursive_eq
  constructor
  · intro h
    rw [hcodec] at h
    obtain ⟨hresources, -, hchildren, -⟩ := Record.restored_iff.1 h
    exact ⟨Field.list_restores.1 hresources, Field.list_restores.1 hchildren⟩
  · rintro ⟨hresources, hchildren⟩
    rw [hcodec]
    apply Record.restored_iff.2
    exact ⟨Field.list_restores.2 hresources, Field.text_restores,
      Field.list_restores.2 hchildren, trivial⟩

mutual

theorem mapModule_restored {g : State.Resource → State.Resource}
    (hg : ∀ r, State.Resource.record.codec.Restored r →
      State.Resource.record.codec.Restored (g r)) :
    ∀ m : State.Module, State.Module.codec.Restored m → State.Module.codec.Restored (mapModule g m)
  | ⟨resources, address, children⟩ => by
    intro h
    obtain ⟨hresources, hchildren⟩ := module_restored_iff.1 h
    have hinside := mapModules_restored hg children hchildren
    rw [mapModule, module_restored_iff, List.forall_mem_map]
    exact ⟨fun r hr => hg r (hresources r hr), hinside⟩

theorem mapModules_restored {g : State.Resource → State.Resource}
    (hg : ∀ r, State.Resource.record.codec.Restored r →
      State.Resource.record.codec.Restored (g r)) :
    ∀ ms : List State.Module, (∀ m ∈ ms, State.Module.codec.Restored m) →
      ∀ m ∈ mapModules g ms, State.Module.codec.Restored m
  | [], _ => List.forall_mem_nil _
  | m :: rest, h => by
    obtain ⟨hfirst, hrest⟩ := List.forall_mem_cons.1 h
    rw [mapModules, List.forall_mem_cons]
    exact ⟨mapModule_restored hg m hfirst, mapModules_restored hg rest hrest⟩

end

theorem encode_module_ne_null (m : State.Module) : State.Module.codec.encode m ≠ .null := nofun

theorem values_restored (hf : KeepsForm f) {g : State.Resource → State.Resource}
    (hg : ∀ r, State.Resource.record.codec.Restored r → State.Resource.record.codec.Restored (g r))
    {v : State.Values} (h : State.Values.record.codec.Restored v) :
    State.Values.record.codec.Restored
      { outputs := outputs f v.outputs, rootModule := v.rootModule.map (mapModule g) } := by
  obtain ⟨houtputs, hroot, hend⟩ := Record.restored_iff.1 h
  have houtputs := Field.dict_map_restores (fun _ _ => output_restored hf) houtputs
  have hmodule := Field.optional_map_restores encode_module_ne_null (mapModule_restored hg) hroot
  apply Record.restored_iff.2
  exact ⟨houtputs, hmodule, hend⟩

theorem state_map_restored {g : State.Values → State.Values}
    (hg : ∀ v, State.Values.record.codec.Restored v → State.Values.record.codec.Restored (g v))
    {s : State} (h : State.codec.Restored s) :
    State.codec.Restored { s with values := s.values.map g } := by
  obtain ⟨hversion, htool, hvalues, hrest⟩ := Record.restored_iff.1 h
  have hredacted := Field.optional_map_restores Record.encode_ne_null hg hvalues
  apply Record.restored_iff.2
  exact ⟨hversion, htool, hredacted, hrest⟩

theorem state_restored (hf : KeepsForm f) {s : State} (h : State.codec.Restored s) :
    State.codec.Restored (state f s) := by
  apply state_map_restored _ h
  intro v hv
  exact values_restored hf (fun r => resource_restored hf r.sensitive) hv

theorem planVariable_restored (hf : KeepsForm f) (sensitive : Bool) {v : Plan.Variable}
    (h : Plan.Variable.record.codec.Restored v) :
    Plan.Variable.record.codec.Restored (planVariable f sensitive v) := by
  cases sensitive with
  | true =>
    obtain ⟨hvalue, hend⟩ := Record.restored_iff.1 h
    apply Record.restored_iff.2
    exact ⟨replacement_restores hf hvalue, hend⟩
  | false => exact h

theorem planVariables_restores (hf : KeepsForm f) {name : String} {p : Plan} {d : Dict Plan.Variable}
    (hd : planVariables f p = .ok d)
    (h : (Field.dict name Plan.Variable.record.codec).sorting.Restores p.variableValues) :
    (Field.dict name Plan.Variable.record.codec).sorting.Restores d := by
  by_cases hempty : p.variableValues.isEmpty = true
  · rw [planVariables, if_pos hempty] at hd
    obtain rfl := Except.ok.inj hd
    rwa [List.isEmpty_iff.1 hempty] at h
  · rw [planVariables, if_neg hempty] at hd
    obtain ⟨declared, -, hd⟩ := bind_eq_ok.1 hd
    obtain rfl := Except.ok.inj hd
    have hvariable (name : String) (v : Plan.Variable) :=
      planVariable_restored hf (isSensitive declared name) (v := v)
    exact Field.dict_map_restores hvariable h

theorem plan_restored (hf : KeepsForm f) {p q : Plan} (hq : plan f p = .ok q)
    (h : Plan.codec.Restored p) : Plan.codec.Restored q := by
  obtain ⟨d, hd, hq⟩ := bind_eq_ok.1 hq
  obtain rfl := Except.ok.inj hq
  obtain ⟨hversion, htool, hvariables, hplanned, hdrift, hchanges, houtputs, hprior, hrest⟩ :=
    Record.restored_iff.1 h
  have hvalues (side : Side) (v : State.Values) (hv : State.Values.record.codec.Restored v) :
      State.Values.record.codec.Restored (values f p.resourceChanges side v) :=
    values_restored hf (fun r => resource_restored hf (maskFor p.resourceChanges side r.address)) hv
  apply Record.restored_iff.2
  refine ⟨hversion, htool, planVariables_restores hf hd hvariables, ?planned, ?drift, ?changes,
    ?outputs, ?prior, hrest⟩
  case planned => exact Field.optional_map_restores Record.encode_ne_null (hvalues .after) hplanned
  case drift => exact Field.list_map_restores (fun _ => resourceChange_restored hf) hdrift
  case changes => exact Field.list_map_restores (fun _ => resourceChange_restored hf) hchanges
  case outputs => exact Field.dict_map_restores (fun _ _ => change_restored hf) houtputs
  case prior =>
    exact Field.optional_map_restores Record.encode_ne_null
      (fun _ => state_map_restored (hvalues .before)) hprior

end Sanitizer

end PlanWire.Redact
